import Punctual.Proofs.Json.Scanning

/-!
# Reading written data back

A reader reads a value back from its written text if the text is cut into tokens of which the reader
takes exactly these, whatever follows, and returns the value (`ReadsBack`). Readers of lists,
objects and records read back what is written of parts that are read back.
-/

namespace Punctual.Json

namespace Token

/-- The token begins a value. -/
def startsValue : Token → Bool
  | .listClose | .objectClose | .colon | .comma => false
  | _ => true

end Token

variable {α β γ : Type} {depth : Nat}

/-- The reader takes exactly these tokens and returns the value. -/
structure Reads (r : Reader α) (depth : Nat) (ts : List Token) (a : α) : Prop where
  starts : ∃ t more, ts = t :: more ∧ t.startsValue
  reads : ∀ rest, r depth (ts ++ rest) = .ok (a, rest)

theorem Reads.shorter {r : Reader α} {ts : List Token} {a : α} (h : Reads r depth ts a)
    (rest : List Token) : rest.length < (ts ++ rest).length := by
  obtain ⟨t, more, rfl, -⟩ := h.starts
  simp only [List.length_append, List.length_cons]
  omega

/-- The reader returns the value that was written as the text, whatever follows it. -/
def ReadsBack (r : Reader α) (depth : Nat) (text : String) (a : α) : Prop :=
  ∃ ts, Scans text ts ∧ Reads r depth ts a

/-- What is read back from a whole text. -/
theorem ReadsBack.parse_eq {r : Reader α} {text : String} {a : α}
    (h : ReadsBack r maxDepth text a) : parse r text = .ok a := by
  obtain ⟨ts, hscans, hreads⟩ := h
  have htokens := hscans [] (by simp)
  have hnil : tokens [] = [] := by rw [tokens]
  rw [List.append_nil, hnil] at htokens
  unfold parse
  rw [htokens, hreads.reads]

/-! ## Plain values -/

theorem readsBack_int {low high n : Int} (hlow : low ≤ n) (hhigh : n ≤ high) (hfits : Time.Fits n) :
    ReadsBack (Reader.int low high) depth (toString n) n := by
  refine ⟨_, scans_int hfits, ⟨_, [], rfl, rfl⟩, fun rest => ?_⟩
  rw [List.singleton_append, Reader.int, if_pos ⟨hlow, hhigh⟩]

theorem readsBack_text (s : String) : ReadsBack Reader.text depth (writeText s) s :=
  ⟨_, scans_writeText s, ⟨_, [], rfl, rfl⟩, fun _ => rfl⟩

theorem ReadsBack.map {r : Reader α} {text : String} {a : α} (h : ReadsBack r depth text a)
    (f : α → β) : ReadsBack (r.map f) depth text (f a) := by
  obtain ⟨ts, hscans, hreads⟩ := h
  refine ⟨ts, hscans, hreads.starts, fun rest => ?_⟩
  rw [Reader.map, hreads.reads]
  rfl

/-! ## Lists -/

/-- The first element of a list. -/
theorem nextElement_first {t : Token} (ht : t.startsValue) (ts : List Token) :
    Reader.nextElement true (t :: ts) = .ok (some (t :: ts)) := by
  cases t <;> first | rfl | simp [Token.startsValue] at ht

/-- An element behind a comma. -/
theorem nextElement_comma {t : Token} (ht : t.startsValue) (ts : List Token) :
    Reader.nextElement false (.comma :: t :: ts) = .ok (some (t :: ts)) := by
  cases t <;> first | rfl | simp [Token.startsValue] at ht

section Element

variable {r : Reader α} {ts : List Token} {a : α}

theorem Reads.element_first (h : Reads r depth ts a) (rest : List Token) :
    r.element true depth (ts ++ rest) = .ok (a, rest) := by
  obtain ⟨t, more, rfl, ht⟩ := h.starts
  have hreads := h.reads rest
  rw [List.cons_append] at hreads ⊢
  rw [Reader.element, nextElement_first ht]
  exact hreads

theorem Reads.element_next (h : Reads r depth ts a) (rest : List Token) :
    r.element false depth (.comma :: (ts ++ rest)) = .ok (a, rest) := by
  obtain ⟨t, more, rfl, ht⟩ := h.starts
  have hreads := h.reads rest
  rw [List.cons_append] at hreads ⊢
  rw [Reader.element, nextElement_comma ht]
  exact hreads

end Element

theorem readsBack_pair {a : Reader α} {b : Reader β} {s t : String} {x : α} {y : β}
    (hx : ReadsBack a depth s x) (hy : ReadsBack b depth t y) :
    ReadsBack (Reader.pair a b) (depth + 1) (writeList [s, t]) (x, y) := by
  obtain ⟨xs, hxscans, hxreads⟩ := hx
  obtain ⟨ys, hyscans, hyreads⟩ := hy
  have hscans := scans_writeList (.cons hxscans (.cons hyscans .nil))
  refine ⟨_, hscans, ⟨_, _, rfl, rfl⟩, fun rest => ?_⟩
  have htokens : listTokens [xs, ys] ++ rest =
      .listOpen :: (xs ++ .comma :: (ys ++ .listClose :: rest)) := by
    simp [listTokens, separated_cons, separated_singleton]
  have hend : Reader.endOfList (.listClose :: rest) = .ok rest := rfl
  rw [htokens]
  simp only [Reader.pair, hxreads.element_first, hyreads.element_next, hend, bind, Except.bind, pure,
    Except.pure]

theorem readsBack_triple {a : Reader α} {b : Reader β} {c : Reader γ} {s t u : String} {x : α}
    {y : β} {z : γ} (hx : ReadsBack a depth s x) (hy : ReadsBack b depth t y)
    (hz : ReadsBack c depth u z) :
    ReadsBack (Reader.triple a b c) (depth + 1) (writeList [s, t, u]) (x, y, z) := by
  obtain ⟨xs, hxscans, hxreads⟩ := hx
  obtain ⟨ys, hyscans, hyreads⟩ := hy
  obtain ⟨zs, hzscans, hzreads⟩ := hz
  have hscans := scans_writeList (.cons hxscans (.cons hyscans (.cons hzscans .nil)))
  refine ⟨_, hscans, ⟨_, _, rfl, rfl⟩, fun rest => ?_⟩
  have htokens : listTokens [xs, ys, zs] ++ rest =
      .listOpen :: (xs ++ .comma :: (ys ++ .comma :: (zs ++ .listClose :: rest))) := by
    simp [listTokens, separated_cons, separated_singleton]
  have hend : Reader.endOfList (.listClose :: rest) = .ok rest := rfl
  rw [htokens]
  simp only [Reader.triple, hxreads.element_first, hyreads.element_next, hzreads.element_next, hend,
    bind, Except.bind, pure, Except.pure]

/-- What stands behind an element of a list: nothing, or a comma and the other elements. -/
def behindElement (tss : List (List Token)) : List Token :=
  tss.flatMap (.comma :: ·)

theorem separated_cons_eq (ts : List Token) (tss : List (List Token)) :
    separated (ts :: tss) = ts ++ behindElement tss := by
  induction tss generalizing ts with
  | nil => rw [separated_singleton, behindElement, List.flatMap_nil, List.append_nil]
  | cons ts' tss ih =>
      rw [separated_cons (by simp), ih, behindElement, behindElement, List.flatMap_cons]
      simp

section Elements

variable {item : Reader α} {tss : List (List Token)} {as : List α}

theorem elements_step {first : Bool} {a : α} {ts start rest : List Token}
    (hnext : Reader.nextElement first ts = .ok (some start)) (hitem : item depth start = .ok (a, rest))
    (hshorter : rest.length < start.length) : Reader.elements item depth first ts =
      (Reader.elements item depth false rest).map fun (as, rest) => (a :: as, rest) := by
  rw [Reader.elements]
  split
  · next h => simp [hnext] at h
  · next h => simp [hnext] at h
  · next start' h =>
      obtain rfl := Option.some.inj (Except.ok.inj (hnext.symm.trans h))
      rw [hitem]
      simp [hshorter]

theorem elements_end (first : Bool) (rest : List Token) :
    Reader.elements item depth first (.listClose :: rest) = .ok ([], rest) := by
  rw [Reader.elements]
  rfl

/-- The elements behind the first one. -/
theorem elements_behindElement (h : List.Forall₂ (Reads item depth) tss as) (rest : List Token) :
    Reader.elements item depth false (behindElement tss ++ .listClose :: rest) = .ok (as, rest) := by
  induction h with
  | nil => exact elements_end false rest
  | @cons ts a tss as hts htss ih =>
      obtain ⟨t, more, heq, ht⟩ := hts.starts
      have htokens : behindElement (ts :: tss) ++ .listClose :: rest =
          .comma :: (ts ++ (behindElement tss ++ .listClose :: rest)) := by
        simp [behindElement]
      have hnext := nextElement_comma ht (more ++ (behindElement tss ++ .listClose :: rest))
      rw [← List.cons_append, ← heq] at hnext
      rw [htokens, elements_step hnext (hts.reads _) (hts.shorter _), ih]
      rfl

/-- A list is read back if its elements are. -/
theorem reads_list (h : List.Forall₂ (Reads item depth) tss as) :
    Reads (Reader.list item) (depth + 1) (listTokens tss) as := by
  refine ⟨⟨_, _, rfl, rfl⟩, fun rest => ?_⟩
  have htokens : listTokens tss ++ rest = .listOpen :: (separated tss ++ .listClose :: rest) := by
    simp [listTokens]
  rw [htokens, Reader.list]
  cases h with
  | nil => exact elements_end true rest
  | @cons ts a tss as hts htss =>
      obtain ⟨t, more, heq, ht⟩ := hts.starts
      have hnext := nextElement_first ht (more ++ (behindElement tss ++ .listClose :: rest))
      rw [← List.cons_append, ← heq] at hnext
      rw [separated_cons_eq, List.append_assoc,
        elements_step hnext (hts.reads _) (hts.shorter _), elements_behindElement htss]
      rfl

end Elements

/-- Texts that are read back, one for each value. -/
theorem exists_tokens_of_readsBack {item : Reader α} {texts : List String} {as : List α}
    (h : List.Forall₂ (ReadsBack item depth) texts as) :
    ∃ tss, List.Forall₂ Scans texts tss ∧ List.Forall₂ (Reads item depth) tss as := by
  induction h with
  | nil => exact ⟨[], .nil, .nil⟩
  | cons hhead _ ih =>
      obtain ⟨ts, hscans, hreads⟩ := hhead
      obtain ⟨tss, hscans', hreads'⟩ := ih
      exact ⟨ts :: tss, .cons hscans hscans', .cons hreads hreads'⟩

theorem readsBack_list {item : Reader α} {texts : List String} {as : List α}
    (h : List.Forall₂ (ReadsBack item depth) texts as) :
    ReadsBack (Reader.list item) (depth + 1) (writeList texts) as := by
  obtain ⟨tss, hscans, hreads⟩ := exists_tokens_of_readsBack h
  exact ⟨_, scans_writeList hscans, reads_list hreads⟩

/-! ## Objects -/

theorem separated_members_cons (m : String × List Token) (ms : List (String × List Token)) :
    separated ((m :: ms).map fun m => memberTokens m.1 m.2) =
      memberTokens m.1 m.2 ++ behindElement (ms.map fun m => memberTokens m.1 m.2) :=
  separated_cons_eq _ _

theorem nextMember_first (name : String) (ts rest : List Token) :
    Reader.nextMember true (memberTokens name ts ++ rest) =
      .ok (some (name, .colon :: (ts ++ rest))) := rfl

theorem nextMember_comma (name : String) (ts rest : List Token) :
    Reader.nextMember false (.comma :: (memberTokens name ts ++ rest)) =
      .ok (some (name, .colon :: (ts ++ rest))) := rfl

section Members

variable {item : Reader α} {name : String} {ts : List Token} {a : α}
  {before : List (String × α)}

theorem members_step {first : Bool} {tokens rest : List Token}
    (hnext : Reader.nextMember first tokens = .ok (some (name, .colon :: (ts ++ rest))))
    (hitem : Reads item depth ts a) (hshorter : rest.length < tokens.length) :
    Reader.members item depth first before tokens =
      Reader.members item depth false (upsert name a before) rest := by
  have hcolon : Reader.colon (.colon :: (ts ++ rest)) = .ok (ts ++ rest) := rfl
  rw [Reader.members, hnext]
  dsimp only
  rw [hcolon]
  dsimp only
  rw [hitem.reads]
  dsimp only
  rw [if_pos hshorter]

theorem members_end (first : Bool) (before : List (String × α)) (rest : List Token) :
    Reader.members item depth first before (.objectClose :: rest) = .ok (before, rest) := by
  rw [Reader.members]
  rfl

/-- The members behind the first one, under names that were not there before. -/
theorem members_behindElement {ms : List (String × List Token)} {es : List (String × α)}
    (h : List.Forall₂ (fun m e => m.1 = e.1 ∧ Reads item depth m.2 e.2) ms es)
    (hnames : ((before ++ es).map Prod.fst).Nodup) (rest : List Token) :
    Reader.members item depth false before
        (behindElement (ms.map fun m => memberTokens m.1 m.2) ++ .objectClose :: rest) =
      .ok (before ++ es, rest) := by
  induction h generalizing before with
  | nil =>
      rw [List.append_nil]
      exact members_end false before rest
  | @cons m e ms es hm hms ih =>
      obtain ⟨mname, ts⟩ := m
      obtain ⟨ename, a⟩ := e
      obtain ⟨rfl, hreads⟩ := hm
      have htokens : behindElement (((mname, ts) :: ms).map fun m => memberTokens m.1 m.2) ++
          .objectClose :: rest = .comma :: (memberTokens mname ts ++
            (behindElement (ms.map fun m => memberTokens m.1 m.2) ++ .objectClose :: rest)) := by
        simp [behindElement]
      have hnew : mname ∉ before.map Prod.fst := by
        rw [List.map_append, List.nodup_append] at hnames
        exact fun hmem => hnames.2.2 _ hmem _ (by simp) rfl
      rw [htokens, members_step (nextMember_comma mname ts _) hreads
        (by simp [memberTokens]; omega), upsert_of_not_mem hnew a, ih (by simpa using hnames),
        List.append_assoc]
      rfl

/-- An object is read back if its members are, under different names. -/
theorem reads_object {ms : List (String × List Token)} {es : List (String × α)}
    (h : List.Forall₂ (fun m e => m.1 = e.1 ∧ Reads item depth m.2 e.2) ms es)
    (hnames : (es.map Prod.fst).Nodup) :
    Reads (Reader.object item) (depth + 1) (objectTokens ms) es := by
  refine ⟨⟨_, _, rfl, rfl⟩, fun rest => ?_⟩
  have htokens : objectTokens ms ++ rest = .objectOpen ::
      (separated (ms.map fun m => memberTokens m.1 m.2) ++ .objectClose :: rest) := by
    simp [objectTokens]
  rw [htokens, Reader.object]
  cases h with
  | nil => exact members_end true [] rest
  | @cons m e ms es hm hms =>
      obtain ⟨mname, ts⟩ := m
      obtain ⟨ename, a⟩ := e
      obtain ⟨rfl, hreads⟩ := hm
      rw [separated_members_cons, List.append_assoc,
        members_step (nextMember_first mname ts _) hreads (by simp [memberTokens]; omega)]
      have hnames' : (([(mname, a)] ++ es).map Prod.fst).Nodup := hnames
      exact members_behindElement hms hnames' rest

end Members

theorem readsBack_object {item : Reader α} {ms : List (String × String)} {es : List (String × α)}
    (h : List.Forall₂ (fun m e => m.1 = e.1 ∧ ReadsBack item depth m.2 e.2) ms es)
    (hnames : (es.map Prod.fst).Nodup) :
    ReadsBack (Reader.object item) (depth + 1) (writeObject ms) es := by
  obtain ⟨tss, hscans, hreads⟩ : ∃ tss : List (String × List Token),
      List.Forall₂ (fun m ts => m.1 = ts.1 ∧ Scans m.2 ts.2) ms tss ∧
        List.Forall₂ (fun ts e => ts.1 = e.1 ∧ Reads item depth ts.2 e.2) tss es := by
    clear hnames
    induction h with
    | nil => exact ⟨[], .nil, .nil⟩
    | @cons m e _ _ hhead _ ih =>
        obtain ⟨hname, ts, hscans, hreads⟩ := hhead
        obtain ⟨tss, hscans', hreads'⟩ := ih
        exact ⟨(m.1, ts) :: tss, .cons ⟨rfl, hscans⟩ hscans', .cons ⟨hname, hreads⟩ hreads'⟩
  exact ⟨_, scans_writeObject hscans, reads_object hreads hnames⟩

/-! ## Records -/

section Record

variable {ρ : Type} {fields : List (RecordField ρ)} {record : ρ} {seen : List String}

/-- The member sets a field of the record. -/
def SetsField (fields : List (RecordField ρ)) (depth : Nat) (name : String) (ts : List Token)
    (set : ρ → ρ) : Prop :=
  ∃ field, fields.find? (·.name = name) = some field ∧ Reads field.read depth ts set

theorem namedFields_step {first : Bool} {name : String} {ts tokens rest : List Token}
    {set : ρ → ρ} (hnext : Reader.nextMember first tokens = .ok (some (name, .colon :: (ts ++ rest))))
    (hfield : SetsField fields depth name ts set) (hseen : name ∉ seen)
    (hshorter : rest.length < tokens.length) :
    Reader.namedFields fields depth first seen record tokens =
      Reader.namedFields fields depth false (name :: seen) (set record) rest := by
  obtain ⟨field, hfound, hreads⟩ := hfield
  have hcolon : Reader.colon (.colon :: (ts ++ rest)) = .ok (ts ++ rest) := rfl
  rw [Reader.namedFields, hnext]
  dsimp only
  rw [hfound]
  dsimp only
  rw [if_neg hseen, hcolon]
  dsimp only
  rw [hreads.reads]
  dsimp only
  rw [if_pos hshorter]

theorem namedFields_end (first : Bool) (seen : List String) (record : ρ) (rest : List Token) :
    Reader.namedFields fields depth first seen record (.objectClose :: rest) =
      .ok (record, rest) := by
  rw [Reader.namedFields]
  rfl

/-- The fields behind the first one. -/
theorem namedFields_behindElement {ms : List (String × List Token)} {sets : List (ρ → ρ)}
    (h : List.Forall₂ (fun m set => SetsField fields depth m.1 m.2 set) ms sets)
    (hnames : (seen ++ ms.map Prod.fst).Nodup) (rest : List Token) :
    Reader.namedFields fields depth false seen record
        (behindElement (ms.map fun m => memberTokens m.1 m.2) ++ .objectClose :: rest) =
      .ok (sets.foldl (fun r set => set r) record, rest) := by
  induction h generalizing seen record with
  | nil => exact namedFields_end false seen record rest
  | @cons m set ms sets hm hms ih =>
      obtain ⟨name, ts⟩ := m
      have htokens : behindElement (((name, ts) :: ms).map fun m => memberTokens m.1 m.2) ++
          .objectClose :: rest = .comma :: (memberTokens name ts ++
            (behindElement (ms.map fun m => memberTokens m.1 m.2) ++ .objectClose :: rest)) := by
        simp [behindElement]
      obtain ⟨hnew, hothers⟩ := List.nodup_cons.1 (List.perm_middle.nodup_iff.1 hnames)
      rw [htokens, namedFields_step (nextMember_comma name ts _) hm
        (fun hmem => hnew (List.mem_append_left _ hmem)) (by simp [memberTokens]; omega),
        ih (List.nodup_cons.2 ⟨hnew, hothers⟩)]
      rfl

/-- A record is read back from an object that sets its fields. -/
theorem reads_record {ms : List (String × List Token)} {sets : List (ρ → ρ)} {blank : ρ}
    {finish : ρ → Option α} {a : α}
    (h : List.Forall₂ (fun m set => SetsField fields depth m.1 m.2 set) ms sets)
    (hnames : (ms.map Prod.fst).Nodup)
    (hfinish : finish (sets.foldl (fun r set => set r) blank) = some a) :
    Reads (Reader.record fields blank finish) (depth + 1) (objectTokens ms) a := by
  refine ⟨⟨_, _, rfl, rfl⟩, fun rest => ?_⟩
  have htokens : objectTokens ms ++ rest = .objectOpen ::
      (separated (ms.map fun m => memberTokens m.1 m.2) ++ .objectClose :: rest) := by
    simp [objectTokens]
  have hfields : Reader.namedFields fields depth true [] blank
      (separated (ms.map fun m => memberTokens m.1 m.2) ++ .objectClose :: rest) =
        .ok (sets.foldl (fun r set => set r) blank, rest) := by
    cases h with
    | nil => exact namedFields_end true [] blank rest
    | @cons m set ms sets hm hms =>
        obtain ⟨name, ts⟩ := m
        rw [separated_members_cons, List.append_assoc, namedFields_step
          (nextMember_first name ts _) hm (by simp) (by simp [memberTokens]; omega)]
        exact namedFields_behindElement hms hnames rest
  rw [htokens, Reader.record]
  simp only [hfields, hfinish]

/-- A record is read back if the values of its fields are. -/
theorem readsBack_record {ms : List (String × String)} {sets : List (ρ → ρ)} {blank : ρ}
    {finish : ρ → Option α} {a : α}
    (h : List.Forall₂ (fun m set => ∃ field, fields.find? (·.name = m.1) = some field ∧
      ReadsBack field.read depth m.2 set) ms sets)
    (hnames : (ms.map Prod.fst).Nodup)
    (hfinish : finish (sets.foldl (fun r set => set r) blank) = some a) :
    ReadsBack (Reader.record fields blank finish) (depth + 1) (writeObject ms) a := by
  obtain ⟨tss, hscans, hreads, hsame⟩ : ∃ tss : List (String × List Token),
      List.Forall₂ (fun m ts => m.1 = ts.1 ∧ Scans m.2 ts.2) ms tss ∧
        List.Forall₂ (fun ts set => SetsField fields depth ts.1 ts.2 set) tss sets ∧
          tss.map Prod.fst = ms.map Prod.fst := by
    clear hnames hfinish
    induction h with
    | nil => exact ⟨[], .nil, .nil, rfl⟩
    | @cons m set _ _ hhead _ ih =>
        obtain ⟨field, hfound, ts, hscans, hreads⟩ := hhead
        obtain ⟨tss, hscans', hreads', hsame⟩ := ih
        exact ⟨(m.1, ts) :: tss, .cons ⟨rfl, hscans⟩ hscans',
          .cons ⟨field, hfound, hreads⟩ hreads', congrArg (m.1 :: ·) hsame⟩
  exact ⟨_, scans_writeObject hscans, reads_record hreads (hsame ▸ hnames) hfinish⟩

end Record

end Punctual.Json
