import Punctual.Check.Assembly
import Punctual.Proofs.Ending
import Punctual.Proofs.Files.Writing

/-!
# Courses of a check

Whatever a check does is a sequence of moves: it reports, lets the combiner act, writes a file, or
talks to the model checker. The last two are its events. A course is such a sequence together with
its events, and every action of a check has one, however the action ends.

What holds of a whole course follows from its events: the exchanges that a world keeps are those
among them (`Course.exchanges_eq`), and a file that nobody else touches holds what was written to it
last (`Course.content`).
-/

namespace Punctual

variable {σ : Type}

/-! ## Events -/

/-- A step of a check that leaves a trace outside of it. -/
inductive Event
  /-- A text is written to a file. -/
  | wrote (a : Artifact) (text : String)
  /-- The model checker is asked and answers. -/
  | asked (x : Exchange)

namespace Event

/-- The exchange of an event. -/
def exchange? : Event → Option Exchange
  | wrote _ _ => none
  | asked x => some x

/-- The text that an event writes to a file. -/
def textFor? (a : Artifact) : Event → Option String
  | wrote b text => if b = a then some text else none
  | asked _ => none

/-- The exchanges among events, in order. -/
def exchanges (es : List Event) : List Exchange :=
  es.filterMap exchange?

/-- The texts that events write to a file, in order. -/
def texts (a : Artifact) (es : List Event) : List String :=
  es.filterMap (textFor? a)

@[simp] theorem exchanges_nil : exchanges [] = [] := rfl

@[simp] theorem exchanges_wrote (a : Artifact) (text : String) (es : List Event) :
    exchanges (wrote a text :: es) = exchanges es := rfl

@[simp] theorem exchanges_asked (x : Exchange) (es : List Event) :
    exchanges (asked x :: es) = x :: exchanges es := rfl

@[simp] theorem exchanges_append (es es' : List Event) :
    exchanges (es ++ es') = exchanges es ++ exchanges es' :=
  List.filterMap_append

theorem mem_exchanges {x : Exchange} {es : List Event} :
    x ∈ exchanges es ↔ asked x ∈ es := by
  rw [exchanges, List.mem_filterMap]
  constructor
  · rintro ⟨e, he, hx⟩
    cases e with
    | wrote a text => simp [exchange?] at hx
    | asked y =>
        obtain rfl := Option.some.inj hx
        exact he
  · intro h
    exact ⟨_, h, rfl⟩

@[simp] theorem texts_nil (a : Artifact) : texts a [] = [] := rfl

@[simp] theorem texts_asked (a : Artifact) (x : Exchange) (es : List Event) :
    texts a (asked x :: es) = texts a es := rfl

@[simp] theorem texts_wrote_self (a : Artifact) (text : String) (es : List Event) :
    texts a (wrote a text :: es) = text :: texts a es := by
  simp [texts, textFor?]

theorem texts_wrote_of_ne {a b : Artifact} (h : b ≠ a) (text : String) (es : List Event) :
    texts a (wrote b text :: es) = texts a es := by
  simp [texts, textFor?, h]

@[simp] theorem texts_append (a : Artifact) (es es' : List Event) :
    texts a (es ++ es') = texts a es ++ texts a es' :=
  List.filterMap_append

end Event

/-! ## Moves and courses -/

/-- The world with more reports. -/
def World.logged (w : World σ) (reports : Log) : World σ :=
  { w with log := w.log ++ reports }

@[simp] theorem World.logged_nil (w : World σ) : w.logged [] = w := by
  simp [World.logged]

@[simp] theorem World.logged_logged (w : World σ) (reports more : Log) :
    (w.logged reports).logged more = w.logged (reports ++ more) := by
  simp [World.logged]

/-- The exchange is what the model checker does between two states, each given by the files and its
own state. A run finds its model in the file that it is started on. -/
def Exchange.Holds (backend : Backend σ) (dir : String) :
    Exchange → Tree × σ → Tree × σ → Prop
  | .run model bmcLength timeout answer, s, s' =>
      s.1.readText (Artifact.bmc.pathIn dir) = .ok model ∧
        Ends (backend.runBmc (Artifact.bmc.pathIn dir) bmcLength timeout) s answer s'
  | .session path answer, s, s' => Ends (backend.openSession path) s answer s'
  | .query target answer, s, s' => Ends (backend.getPath target) s answer s'

/-- One move of a check, with its event if it has one. -/
inductive Move (backend : Backend σ) (combiner : Combiner σ) (dir : String) :
    World σ → List Event → World σ → Prop
  | reported (w : World σ) (reports : Log) :
      Move backend combiner dir w [] (w.logged reports)
  | combined (w : World σ) (files : List String) (options : CombineOptions) :
      Move backend combiner dir w []
        ((combiner files options w.tree w.solver).settle w)
  | wrote {w : World σ} {a : Artifact} {text : String} {tree : Tree}
      (hstore : Artifact.store w.tree dir a text = .ok tree) :
      Move backend combiner dir w [.wrote a text] { w with tree := tree }
  | asked {w : World σ} {x : Exchange} {tree : Tree} {solver : σ}
      (hholds : x.Holds backend dir (w.tree, w.solver) (tree, solver)) :
      Move backend combiner dir w [.asked x]
        { w with tree := tree, solver := solver, exchanges := w.exchanges ++ [x] }

/-- A sequence of moves, with all its events. -/
inductive Course (backend : Backend σ) (combiner : Combiner σ) (dir : String) :
    World σ → List Event → World σ → Prop
  | nil (w : World σ) : Course backend combiner dir w [] w
  | cons {w m w' : World σ} {es es' : List Event}
      (hmove : Move backend combiner dir w es m)
      (hrest : Course backend combiner dir m es' w') :
      Course backend combiner dir w (es ++ es') w'

/-- Neither the model checker nor the combiner touches a file of the directory. -/
structure LeavesAlone (backend : Backend σ) (combiner : Combiner σ) (dir : String)
    (a : Artifact) : Prop where
  runBmc : ∀ path n timeout s r s', Ends (backend.runBmc path n timeout) s r s' →
    s'.1.at? (a.pathIn dir) = s.1.at? (a.pathIn dir)
  openSession : ∀ path s r s', Ends (backend.openSession path) s r s' →
    s'.1.at? (a.pathIn dir) = s.1.at? (a.pathIn dir)
  getPath : ∀ target s r s', Ends (backend.getPath target) s r s' →
    s'.1.at? (a.pathIn dir) = s.1.at? (a.pathIn dir)
  combiner : ∀ files options tree solver,
    (combiner files options tree solver).tree.at? (a.pathIn dir) = tree.at? (a.pathIn dir)

section Course

variable {backend : Backend σ} {combiner : Combiner σ} {dir : String}
  {w m w' : World σ} {es es' : List Event} {a : Artifact}

theorem Move.course (h : Move backend combiner dir w es w') :
    Course backend combiner dir w es w' := by
  have hcourse := Course.cons h (.nil w')
  rwa [List.append_nil] at hcourse

namespace Course

theorem append (h : Course backend combiner dir w es m)
    (h' : Course backend combiner dir m es' w') :
    Course backend combiner dir w (es ++ es') w' := by
  induction h with
  | nil => exact h'
  | cons hmove _ ih =>
      rw [List.append_assoc]
      exact .cons hmove (ih h')

theorem logged (w : World σ) (reports : Log) :
    Course backend combiner dir w [] (w.logged reports) :=
  (Move.reported w reports).course

/-- Reports at the end make no difference. -/
theorem thenLogged (h : Course backend combiner dir w es m) (reports : Log) :
    Course backend combiner dir w es (m.logged reports) := by
  have hcourse := h.append (logged m reports)
  rwa [List.append_nil] at hcourse

/-- The exchanges of a course are the exchanges among its events. -/
theorem exchanges_eq (h : Course backend combiner dir w es w') :
    w'.exchanges = w.exchanges ++ Event.exchanges es := by
  induction h with
  | nil => simp
  | @cons w _ _ _ es' hmove _ ih =>
      rw [ih]
      cases hmove with
      | reported => rfl
      | combined => rfl
      | wrote => rfl
      | asked => simp

/-- Every exchange of a course took place between two states of the model checker. -/
theorem holds_of_mem (h : Course backend combiner dir w es w') {x : Exchange}
    (hx : x ∈ Event.exchanges es) : ∃ s s', x.Holds backend dir s s' := by
  induction h with
  | nil => simp at hx
  | cons hmove _ ih =>
      rw [Event.exchanges_append, List.mem_append] at hx
      rcases hx with hx | hx
      · cases hmove with
        | reported => simp at hx
        | combined => simp at hx
        | wrote => simp at hx
        | asked hholds =>
            obtain rfl : x = _ := by simpa using hx
            exact ⟨_, _, hholds⟩
      · exact ih hx

end Course

/-- A move leaves a file as it is, unless it writes it. -/
theorem Move.content (h : Move backend combiner dir w es w')
    (halone : LeavesAlone backend combiner dir a) :
    (Event.texts a es = [] ∧ w'.tree.at? (a.pathIn dir) = w.tree.at? (a.pathIn dir)) ∨
      ∃ text, Event.texts a es = [text] ∧
        w'.tree.readText (a.pathIn dir) = .ok text := by
  cases h with
  | reported => exact .inl ⟨rfl, rfl⟩
  | combined files options => exact .inl ⟨rfl, halone.combiner _ _ _ _⟩
  | @wrote b text tree hstore =>
      by_cases hb : b = a
      · subst hb
        exact .inr ⟨text, by simp, Artifact.readText_of_store hstore⟩
      · exact .inl ⟨Event.texts_wrote_of_ne hb text [],
          Artifact.at?_of_store (Ne.symm hb) hstore⟩
  | @asked x tree solver hholds =>
      refine .inl ⟨rfl, ?_⟩
      cases x with
      | run model n timeout answer =>
          have hsame := halone.runBmc _ _ _ _ _ _ hholds.2
          exact hsame
      | session path answer =>
          have hsame := halone.openSession _ _ _ _ hholds
          exact hsame
      | query target answer =>
          have hsame := halone.getPath _ _ _ _ hholds
          exact hsame

/-- A file that nobody else touches holds what was written to it last. -/
theorem Course.content (h : Course backend combiner dir w es w')
    (halone : LeavesAlone backend combiner dir a) :
    (Event.texts a es = [] ∧ w'.tree.at? (a.pathIn dir) = w.tree.at? (a.pathIn dir)) ∨
      ∃ text, (Event.texts a es).getLast? = some text ∧
        w'.tree.readText (a.pathIn dir) = .ok text := by
  induction h with
  | nil => exact .inl ⟨rfl, rfl⟩
  | cons hmove _ ih =>
      rw [Event.texts_append]
      rcases ih with ⟨hnone, hsame⟩ | ⟨text, hlast, hread⟩
      · rw [hnone, List.append_nil]
        rcases hmove.content halone with ⟨hnone', hsame'⟩ | ⟨text, hone, hread⟩
        · exact .inl ⟨hnone', hsame.trans hsame'⟩
        · exact .inr ⟨text, by rw [hone]; rfl, (Tree.readText_eq_of_at?_eq hsame).trans hread⟩
      · exact .inr ⟨text, by simp [List.getLast?_append, hlast], hread⟩

end Course

/-! ## The basic actions -/

section Basic

variable {α : Type} {backend : Backend σ} {combiner : Combiner σ} {dir : String}
  {w w' : World σ}

theorem ends_info {text : String} {r : Except (Stop CheckError) Unit} :
    Ends (Check.info text) w r w' ↔ r = .ok () ∧ w' = w.logged [⟨.info, text⟩] :=
  ends_modify

/-- What follows a report is done in the world with the report. -/
theorem ends_info_bind {text : String} {f : Unit → Check σ α}
    {r : Except (Stop CheckError) α} :
    Ends (Check.info text >>= f) w r w' ↔ Ends (f ()) (w.logged [⟨.info, text⟩]) r w' :=
  ends_modify_bind

theorem ends_warn_bind {text : String} {f : Unit → Check σ α}
    {r : Except (Stop CheckError) α} :
    Ends (Check.warn text >>= f) w r w' ↔ Ends (f ()) (w.logged [⟨.warn, text⟩]) r w' :=
  ends_modify_bind

/-- Warnings only report. -/
theorem ends_warnings_bind {texts : List String} {f : PUnit → Check σ α}
    {r : Except (Stop CheckError) α} (h : Ends (texts.forM Check.warn >>= f) w r w') :
    ∃ reports, Ends (f ⟨⟩) (w.logged reports) r w' := by
  induction texts generalizing w with
  | nil =>
      rw [← World.logged_nil w] at h
      exact ⟨[], h⟩
  | cons text texts ih =>
      change Ends ((Check.warn text >>= fun _ => texts.forM Check.warn) >>= f) w r w' at h
      rw [bind_assoc, ends_warn_bind] at h
      obtain ⟨reports, hrest⟩ := ih h
      rw [World.logged_logged] at hrest
      exact ⟨_, hrest⟩

theorem write_ends_ok {a : Artifact} {text : String} {tree : Tree}
    (hstore : Artifact.store w.tree dir a text = .ok tree) :
    Ends (Artifact.write dir a text) w (.ok (a.pathIn dir)) { w with tree := tree } := by
  unfold Ends Artifact.write
  rw [hstore]

theorem write_ends_error {a : Artifact} {text : String} {e : CheckError}
    (hstore : Artifact.store w.tree dir a text = .error e) :
    Ends (Artifact.write dir a text) w (.error (.error e)) w := by
  unfold Ends Artifact.write
  rw [hstore]

/-- Writing a file succeeds and changes nothing else, or fails without any effect. -/
theorem ends_write {a : Artifact} {text : String} {r : Except (Stop CheckError) String}
    (h : Ends (Artifact.write dir a text) w r w') :
    (∃ tree, Artifact.store w.tree dir a text = .ok tree ∧
        r = .ok (a.pathIn dir) ∧ w' = { w with tree := tree }) ∨
      ∃ e, r = .error (.error (.artifact (a.pathIn dir) e)) ∧ w' = w := by
  cases hstore : Artifact.store w.tree dir a text with
  | ok tree =>
      obtain ⟨rfl, rfl⟩ := h.unique (write_ends_ok hstore)
      exact .inl ⟨tree, rfl, rfl, rfl⟩
  | error e =>
      obtain ⟨rfl, rfl⟩ := h.unique (write_ends_error hstore)
      unfold Artifact.store at hstore
      split at hstore
      · simp at hstore
      · next ioError _ =>
          obtain rfl := Except.error.inj hstore
          exact .inr ⟨ioError, rfl, rfl⟩

theorem ends_write_ok {a : Artifact} {text path : String}
    (h : Ends (Artifact.write dir a text) w (.ok path) w') :
    ∃ tree, Artifact.store w.tree dir a text = .ok tree ∧
      path = a.pathIn dir ∧ w' = { w with tree := tree } := by
  rcases ends_write h with ⟨tree, hstore, hpath, hw⟩ | ⟨e, hpath, -⟩
  · exact ⟨tree, hstore, Except.ok.inj hpath, hw⟩
  · simp at hpath

theorem ends_write_error {a : Artifact} {text : String} {stop : Stop CheckError}
    (h : Ends (Artifact.write dir a text) w (.error stop) w') :
    (∃ e, stop = .error (.artifact (a.pathIn dir) e)) ∧ w' = w := by
  rcases ends_write h with ⟨tree, -, hpath, -⟩ | ⟨e, hpath, hw⟩
  · simp at hpath
  · exact ⟨⟨e, Except.error.inj hpath⟩, hw⟩

theorem store_of_write_error {a : Artifact} {text : String} {e : CheckError}
    (h : Ends (Artifact.write dir a text) w (.error (.error e)) w') :
    Artifact.store w.tree dir a text = .error e := by
  cases hstore : Artifact.store w.tree dir a text with
  | ok tree =>
      have hends := (h.unique (write_ends_ok hstore)).1
      simp at hends
  | error e' =>
      have hends := (h.unique (write_ends_error hstore)).1
      simpa using hends.symm

theorem write_course {a : Artifact} {text path : String}
    (h : Ends (Artifact.write dir a text) w (.ok path) w') :
    path = a.pathIn dir ∧ Course backend combiner dir w [.wrote a text] w' := by
  obtain ⟨tree, hstore, hpath, rfl⟩ := ends_write_ok h
  exact ⟨hpath, (Move.wrote hstore).course⟩

theorem exchange_ends {act : SolverAction σ α} {answer : Except SolverError α} {tree : Tree}
    {solver : σ} (entry : Except SolverError α → Exchange)
    (h : Ends act (w.tree, w.solver) answer (tree, solver)) :
    Ends (Check.exchange act entry) w (answer.mapError fun e => .error (.solver e))
      { w with
        tree := tree, solver := solver, exchanges := w.exchanges ++ [entry answer] } := by
  cases answer with
  | ok a =>
      have hact : act (w.tree, w.solver) = .ok a (tree, solver) := h
      change Check.exchange act entry w = _
      unfold Check.exchange
      rw [hact]
  | error e =>
      have hact : act (w.tree, w.solver) = .error e (tree, solver) := h
      change Check.exchange act entry w = _
      unfold Check.exchange
      rw [hact]

/-- Every exchange is kept, whether or not the model checker gives an answer. -/
theorem ends_exchange {act : SolverAction σ α} {entry : Except SolverError α → Exchange}
    {r : Except (Stop CheckError) α} (h : Ends (Check.exchange act entry) w r w') :
    ∃ answer tree solver, Ends act (w.tree, w.solver) answer (tree, solver) ∧
      r = answer.mapError (fun e => .error (.solver e)) ∧
        w' = { w with
          tree := tree, solver := solver, exchanges := w.exchanges ++ [entry answer] } := by
  obtain ⟨answer, ⟨tree, solver⟩, hanswer⟩ := exists_ends act (w.tree, w.solver)
  obtain ⟨rfl, rfl⟩ := h.unique (exchange_ends entry hanswer)
  exact ⟨answer, tree, solver, hanswer, rfl, rfl⟩

theorem exchange_course_ok {act : SolverAction σ α} {entry : Except SolverError α → Exchange}
    {a : α} (h : Ends (Check.exchange act entry) w (.ok a) w')
    (hentry : ∀ answer s', Ends act (w.tree, w.solver) answer s' →
      (entry answer).Holds backend dir (w.tree, w.solver) s') :
    Course backend combiner dir w [.asked (entry (.ok a))] w' := by
  obtain ⟨answer, tree, solver, hends, hr, rfl⟩ := ends_exchange h
  cases answer with
  | ok b =>
      obtain rfl := Except.ok.inj hr
      exact (Move.asked (hentry _ _ hends)).course
  | error e => simp [Except.mapError] at hr

theorem exchange_course_error (combiner : Combiner σ) {act : SolverAction σ α}
    {entry : Except SolverError α → Exchange}
    {stop : Stop CheckError} (h : Ends (Check.exchange act entry) w (.error stop) w')
    (hentry : ∀ answer s', Ends act (w.tree, w.solver) answer s' →
      (entry answer).Holds backend dir (w.tree, w.solver) s') :
    ∃ e, stop = .error (.solver e) ∧
      Course backend combiner dir w [.asked (entry (.error e))] w' := by
  obtain ⟨answer, tree, solver, hends, hr, rfl⟩ := ends_exchange h
  cases answer with
  | ok b => simp [Except.mapError] at hr
  | error e => exact ⟨e, Except.error.inj hr, (Move.asked (hentry _ _ hends)).course⟩

theorem combined_ends (act : Tree → σ → Combination σ) (w : World σ) :
    Ends (Check.combined act) w
      ((act w.tree w.solver).result.mapError fun e => .error (.combine e))
      ((act w.tree w.solver).settle w) := by
  cases hresult : (act w.tree w.solver).result with
  | ok model =>
      change Check.combined act w = _
      simp only [Check.combined, hresult]
  | error e =>
      change Check.combined act w = _
      simp only [Check.combined, hresult]

theorem ends_combined {act : Tree → σ → Combination σ} {r : Except (Stop CheckError) String}
    (h : Ends (Check.combined act) w r w') :
    r = (act w.tree w.solver).result.mapError (fun e => .error (.combine e)) ∧
      w' = (act w.tree w.solver).settle w :=
  h.unique (combined_ends act w)

end Basic

end Punctual
