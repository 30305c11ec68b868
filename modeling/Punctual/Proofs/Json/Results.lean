import Punctual.Json.Reader

/-!
# What readers return

A property that holds of all values a reader returns, whatever it reads (`Gives`), and how it
carries over from the readers of the parts to readers of lists, objects and records. In particular
an object is returned with each name once.
-/

namespace Punctual.Json

variable {α β : Type}

/-- All values that the reader returns have the property. -/
def Gives (r : Reader α) (P : α → Prop) : Prop :=
  ∀ depth ts a rest, r depth ts = .ok (a, rest) → P a

theorem Gives.of_parse {r : Reader α} {P : α → Prop} (h : Gives r P) {text : String} {a : α}
    (hparse : parse r text = .ok a) : P a := by
  unfold parse at hparse
  split at hparse
  · simp at hparse
  · next hread =>
      obtain rfl := Except.ok.inj hparse
      exact h _ _ _ _ hread
  · simp at hparse

theorem gives_int (low high : Int) : Gives (Reader.int low high) fun n => low ≤ n ∧ n ≤ high := by
  intro depth ts n rest h
  unfold Reader.int at h
  split at h
  · split at h
    · next hrange =>
        obtain ⟨rfl, -⟩ := Prod.mk.inj (Except.ok.inj h)
        exact hrange
    · simp at h
  · simp at h

theorem gives_any (r : Reader α) : Gives r fun _ => True :=
  fun _ _ _ _ _ => trivial

theorem exists_of_map_eq_ok {ε : Type} {x : Except ε α} {f : α → β} {b : β}
    (h : x.map f = .ok b) : ∃ a, x = .ok a ∧ f a = b := by
  cases x with
  | error e => simp [Except.map] at h
  | ok a => exact ⟨a, rfl, Except.ok.inj h⟩

theorem Gives.map {r : Reader α} {P : α → Prop} {Q : β → Prop} (h : Gives r P) {f : α → β}
    (hf : ∀ a, P a → Q (f a)) : Gives (r.map f) Q := by
  intro depth ts b rest hread
  obtain ⟨⟨a, more⟩, hr, heq⟩ := exists_of_map_eq_ok hread
  obtain ⟨rfl, -⟩ := Prod.mk.inj heq
  exact hf a (h _ _ _ _ hr)

theorem Gives.element {r : Reader α} {P : α → Prop} (h : Gives r P) (first : Bool) :
    Gives (r.element first) P := by
  intro depth ts a rest hread
  unfold Reader.element at hread
  split at hread
  · simp at hread
  · simp at hread
  · exact h _ _ _ _ hread

theorem gives_pair {a : Reader α} {b : Reader β} {P : α → Prop} {Q : β → Prop} (ha : Gives a P)
    (hb : Gives b Q) : Gives (Reader.pair a b) fun x => P x.1 ∧ Q x.2 := by
  intro depth ts x rest hread
  unfold Reader.pair at hread
  split at hread
  · simp at hread
  · simp only [bind, Except.bind, pure, Except.pure] at hread
    split at hread
    · simp at hread
    next hx =>
      split at hread
      · simp at hread
      next hy =>
        split at hread
        · simp at hread
        obtain ⟨rfl, -⟩ := Prod.mk.inj (Except.ok.inj hread)
        exact ⟨ha.element true _ _ _ _ hx, hb.element false _ _ _ _ hy⟩
  · simp at hread

/-! ## Lists and objects -/

section Parts

variable {item : Reader α} {P : α → Prop}

theorem forall_mem_of_elements (h : Gives item P) {depth : Nat} {first : Bool} {ts : List Token}
    {as : List α} {rest : List Token}
    (hread : Reader.elements item depth first ts = .ok (as, rest)) : ∀ a ∈ as, P a := by
  fun_induction Reader.elements item depth first ts generalizing as rest with
  | case1 | case3 | case5 => simp at hread
  | case2 first ts hnext =>
      obtain ⟨_, -, heq⟩ := exists_of_map_eq_ok hread
      obtain ⟨rfl, -⟩ := Prod.mk.inj heq
      simp
  | case4 first ts start hnext a more hitem hshorter hshort ih =>
      obtain ⟨⟨others, more'⟩, hothers, heq⟩ := exists_of_map_eq_ok hread
      obtain ⟨rfl, -⟩ := Prod.mk.inj heq
      exact List.forall_mem_cons.2 ⟨h _ _ _ _ hitem, ih hothers⟩

theorem gives_list (h : Gives item P) : Gives (Reader.list item) fun as => ∀ a ∈ as, P a := by
  intro depth ts as rest hread
  unfold Reader.list at hread
  split at hread
  · simp at hread
  · exact forall_mem_of_elements h hread
  · simp at hread

/-- The members have the property and different names. -/
def AreMembers (P : α → Prop) (es : List (String × α)) : Prop :=
  (es.map Prod.fst).Nodup ∧ ∀ e ∈ es, P e.2

theorem AreMembers.upsert {name : String} {a : α} {es : List (String × α)} (h : AreMembers P es)
    (ha : P a) : AreMembers P (Punctual.upsert name a es) := by
  obtain ⟨hnames, hvalues⟩ := h
  constructor
  · rw [map_fst_upsert]
    split
    · exact hnames
    · next hnew =>
        rw [List.nodup_append]
        refine ⟨hnames, by simp, ?_⟩
        rintro n hn m hm rfl
        obtain rfl := List.mem_singleton.1 hm
        exact hnew hn
  · intro e he
    rcases mem_upsert he with rfl | he
    · exact ha
    · exact hvalues e he

theorem areMembers_of_members (h : Gives item P) {depth : Nat} {first : Bool}
    {before es : List (String × α)} {ts rest : List Token} (hbefore : AreMembers P before)
    (hread : Reader.members item depth first before ts = .ok (es, rest)) : AreMembers P es := by
  fun_induction Reader.members item depth first before ts with
  | case1 | case3 | case4 | case6 => simp at hread
  | case2 =>
      obtain ⟨rfl, -⟩ := Prod.mk.inj (Except.ok.inj hread)
      exact hbefore
  | case5 first before ts name more hnext start hcolon a after hitem hshorter ih =>
      exact ih (hbefore.upsert (h _ _ _ _ hitem)) hread

theorem gives_object (h : Gives item P) : Gives (Reader.object item) (AreMembers P) := by
  intro depth ts es rest hread
  unfold Reader.object at hread
  split at hread
  · simp at hread
  · exact areMembers_of_members h ⟨by simp, by simp⟩ hread
  · simp at hread

end Parts

/-! ## Records -/

section Records

variable {ρ : Type} {fields : List (RecordField ρ)} {I : ρ → Prop}

theorem of_namedFields (h : ∀ field ∈ fields, Gives field.read fun set => ∀ r, I r → I (set r))
    {depth : Nat} {first : Bool} {seen : List String} {record result : ρ} {ts rest : List Token}
    (hrecord : I record)
    (hread : Reader.namedFields fields depth first seen record ts = .ok (result, rest)) :
    I result := by
  fun_induction Reader.namedFields fields depth first seen record ts with
  | case2 =>
      obtain ⟨rfl, -⟩ := Prod.mk.inj (Except.ok.inj hread)
      exact hrecord
  | case6 first seen record ts name more hnext field hfound hnew start hcolon set after hfield
      hshorter ih =>
      exact ih (h field (List.mem_of_find?_eq_some hfound) _ _ _ _ hfield _ hrecord) hread
  | case10 first seen record ts name more hnext hfound start hcolon after hskip hshorter ih =>
      exact ih hrecord hread
  | _ => simp at hread

theorem of_listedFields (h : ∀ field ∈ fields, Gives field.read fun set => ∀ r, I r → I (set r))
    {depth : Nat} {first : Bool} {record result : ρ} {ts rest : List Token} (hrecord : I record)
    (hread : Reader.listedFields depth fields first record ts = .ok (result, rest)) : I result := by
  fun_induction Reader.listedFields depth fields first record ts with
  | case1 first record ts =>
      obtain ⟨_, -, heq⟩ := exists_of_map_eq_ok hread
      obtain ⟨rfl, -⟩ := Prod.mk.inj heq
      exact hrecord
  | case3 first record ts field fields hnext hmay ih =>
      exact ih (List.forall_mem_cons.1 h).2 hrecord hread
  | case6 first record ts field fields start hnext set after hfield ih =>
      obtain ⟨hhead, hothers⟩ := List.forall_mem_cons.1 h
      exact ih hothers (hhead _ _ _ _ hfield _ hrecord) hread
  | _ => simp at hread

/-- What the fields preserve while they are set holds of a record that is finished. -/
theorem gives_record {Q : α → Prop} {blank : ρ} {finish : ρ → Option α}
    (h : ∀ field ∈ fields, Gives field.read fun set => ∀ r, I r → I (set r)) (hblank : I blank)
    (hfinish : ∀ r a, I r → finish r = some a → Q a) :
    Gives (Reader.record fields blank finish) Q := by
  intro depth ts a rest hread
  unfold Reader.record at hread
  dsimp only at hread
  split at hread
  · simp at hread
  · next r after hfields =>
      have hr : I r := by
        split at hfields
        · simp at hfields
        · simp at hfields
        · exact of_namedFields h hblank hfields
        · exact of_listedFields h hblank hfields
        · simp at hfields
      split at hread
      · next hfinished =>
          obtain ⟨rfl, -⟩ := Prod.mk.inj (Except.ok.inj hread)
          exact hfinish _ _ hr hfinished
      · simp at hread

end Records

end Punctual.Json
