import Punctual.Check.Artifact
import Punctual.Proofs.Ending
import Punctual.Proofs.Text.Decoding

/-!
# Writing the files of one directory

The files of a check stand side by side in one directory. A path to one of them is the path of the
directory with a plain name behind it, so that two of them lead to the same directory and part only
there. A file that was written reads back (`Tree.readText_of_writeText`), and the other files of the
directory stay as they are (`Artifact.at?_of_store`).
-/

namespace Punctual

/-! ## Paths of a directory and a name -/

namespace Path

theorem parts_ne_nil (cs : List Char) : parts cs ≠ [] := by
  cases cs with
  | nil => simp [parts]
  | cons c cs =>
      unfold parts
      split
      · simp
      · split <;> simp

theorem parts_append_slash (cs ds : List Char) :
    parts (cs ++ '/' :: ds) = parts cs ++ parts ds := by
  induction cs with
  | nil => simp [parts]
  | cons c cs ih =>
      by_cases hc : c = '/'
      · simp [parts, hc, ih]
      · obtain ⟨p, ps, hcs⟩ := List.exists_cons_of_ne_nil (parts_ne_nil cs)
        simp [parts, hc, ih, hcs]

theorem parts_of_no_slash {cs : List Char} (h : '/' ∉ cs) : parts cs = [cs] := by
  induction cs with
  | nil => rfl
  | cons c cs ih =>
      rw [List.mem_cons, not_or] at h
      simp [parts, Ne.symm h.1, ih h.2]

theorem isAbsolute_of_no_slash {name : String} (h : '/' ∉ name.toList) :
    isAbsolute name = false := by
  cases hcs : name.toList with
  | nil => simp [isAbsolute, hcs]
  | cons c cs =>
      have hc : c ≠ '/' := fun heq => h (by simp [hcs, heq])
      simp [isAbsolute, hcs, hc]

/-- The parts of a path of a file in a directory that lead to the directory. -/
def leading (dir : String) : List String :=
  if dir.toList = [] then []
  else if dir.toList.getLast? = some '/' then (parts dir.toList.dropLast).map .ofList
  else split dir

theorem split_join {dir name : String} (h : '/' ∉ name.toList) :
    split (join dir name) = leading dir ++ [name] := by
  unfold join leading
  rw [isAbsolute_of_no_slash h]
  by_cases hempty : dir.toList = []
  · simp [hempty, split, parts_of_no_slash h]
  · by_cases hslash : dir.toList.getLast? = some '/'
    · obtain ⟨front, hfront⟩ := List.getLast?_eq_some_iff.1 hslash
      simp [split, hfront, parts_append_slash, parts_of_no_slash h]
    · simp [hempty, hslash, split, parts_append_slash, parts_of_no_slash h]

theorem isAbsolute_join {dir name : String} (h : '/' ∉ name.toList) :
    isAbsolute (join dir name) = isAbsolute dir := by
  unfold join
  rw [isAbsolute_of_no_slash h]
  by_cases hempty : dir.toList = []
  · have hdir : isAbsolute dir = false := by simp [isAbsolute, hempty]
    simp [hempty, isAbsolute_of_no_slash h, hdir]
  · obtain ⟨c, cs, hdir⟩ := List.exists_cons_of_ne_nil hempty
    by_cases hslash : dir.toList.getLast? = some '/'
    · rw [if_neg hempty, if_pos hslash]
      simp [isAbsolute, hdir]
    · rw [if_neg hempty, if_neg hslash]
      simp [isAbsolute, hdir]

end Path

/-! ## Following a path while a file is put -/

namespace Tree

variable {t t' : Tree} {place here next : Place} {n : Node} {path part text : String}

theorem node?_of_step (h : t.step here part = .ok next) : t.node? here = some .directory := by
  unfold step at h
  split at h
  · simp at h
  · simp at h
  · assumption

/-- A place that is no directory is not above the working directory. -/
theorem not_isAbove (h : t.node? place ≠ some .directory) : ¬ place.IsAbove :=
  fun habove => h (if_pos habove)

/-- What is put where no directory stands is not on the way of a step that succeeds. -/
theorem step_put (hplace : t.node? place ≠ some .directory)
    (h : t.step here part = .ok next) : (t.put place n).step here part = .ok next := by
  have hhere := node?_of_step h
  have hne : here ≠ place := by
    rintro rfl
    exact hplace hhere
  unfold step at h ⊢
  rw [node?_put_of_ne hne]
  exact h

theorem foldlM_step_put {parts : List String} (hplace : t.node? place ≠ some .directory)
    (h : parts.foldlM t.step here = .ok next) :
    parts.foldlM (t.put place n).step here = .ok next := by
  induction parts generalizing here with
  | nil => exact h
  | cons p ps ih =>
      rw [List.foldlM_cons] at h ⊢
      obtain ⟨mid, hstep, hrest⟩ := except_bind_eq_ok.1 h
      rw [step_put hplace hstep]
      exact ih hrest

theorem locate_put (hplace : t.node? place ≠ some .directory)
    (h : t.locate path = .ok next) : (t.put place n).locate path = .ok next := by
  unfold locate follow at h ⊢
  split at h
  · simp at h
  · next herror =>
      exact foldlM_step_put hplace h

theorem locate_of_locateFile (h : t.locateFile path = .ok place) :
    t.locate path = .ok place := by
  unfold locateFile at h
  dsimp only at h
  split at h
  · split at h
    · simp [except_bind_eq_ok] at h
    · exact h
  · exact h

/-- A file is written where its path leads, and no directory stands there. -/
theorem put_of_writeBytes {bytes : ByteArray} (h : t.writeBytes path bytes = .ok t') :
    ∃ place, t.locate path = .ok place ∧ t.node? place ≠ some .directory ∧
      t' = t.put place (.file bytes) := by
  obtain ⟨place, hfile, hput⟩ := except_bind_eq_ok.1 h
  refine ⟨place, locate_of_locateFile hfile, ?_⟩
  split at hput
  · simp at hput
  · next hdirectory => exact ⟨hdirectory, (except_pure_eq_ok.1 hput).symm⟩

theorem at?_of_locate (h : t.locate path = .ok place) :
    t.at? path = (t.node? place).elim (.error .notFound) .ok := by
  unfold at?
  rw [h]
  simp only [bind, Except.bind]
  cases t.node? place <;> rfl

/-- A text that was written reads back. -/
theorem readText_of_writeText (h : t.writeText path text = .ok t') :
    t'.readText path = .ok text := by
  obtain ⟨place, hlocate, hplace, rfl⟩ := put_of_writeBytes h
  have hat : (t.put place (.file (Text.encode text))).at? path =
      .ok (.file (Text.encode text)) := by
    rw [at?_of_locate (locate_put hplace hlocate), node?_put_self (not_isAbove hplace)]
    rfl
  simp [readText, readBytes, hat, bind, Except.bind, pure, Except.pure,
    Text.decode?_encode]

/-- Where a text can be read there is a file. -/
theorem at?_of_readText (h : t.readText path = .ok text) :
    ∃ bytes, t.at? path = .ok (.file bytes) := by
  unfold readText readBytes at h
  obtain ⟨bytes, hbytes, -⟩ := except_bind_eq_ok.1 h
  obtain ⟨node, hat, hnode⟩ := except_bind_eq_ok.1 hbytes
  cases node with
  | file bytes => exact ⟨bytes, hat⟩
  | directory => exact absurd hnode except_throw_ne_ok

theorem isFile_of_readText (h : t.readText path = .ok text) : t.isFile path := by
  obtain ⟨bytes, hat⟩ := at?_of_readText h
  unfold isFile
  rw [hat]

theorem readText_eq_of_at?_eq (h : t'.at? path = t.at? path) :
    t'.readText path = t.readText path := by
  simp [readText, readBytes, h]

/-! ## Directories that are there -/

end Tree

/-! ## The other files of the directory -/

section Directory

variable {t t' : Tree} {here place : Place} {dir name other : String}

/-- A name that is one part of a path and stands for no directory. -/
structure IsPlainName (name : String) : Prop where
  no_slash : '/' ∉ name.toList
  ne_empty : name ≠ ""
  ne_here : name ≠ "."
  ne_up : name ≠ Place.up
  short : name.utf8ByteSize ≤ Tree.maxNameBytes

theorem IsPlainName.step (hname : IsPlainName name) (hhere : t.node? here = some .directory) :
    t.step here name = .ok (here ++ [name]) := by
  unfold Tree.step
  rw [hhere]
  simp [hname.ne_empty, hname.ne_here, hname.ne_up, Nat.not_lt.2 hname.short]

theorem follow_join (hname : IsPlainName name) :
    t.follow (Path.join dir name) (Path.split (Path.join dir name)) =
      t.follow dir (Path.leading dir) >>= fun here => t.step here name := by
  unfold Tree.follow
  rw [Path.split_join hname.no_slash, Path.isAbsolute_join hname.no_slash, List.foldlM_append]
  simp only [List.foldlM_cons, List.foldlM_nil, bind_pure]

/-- A path of a file in a directory that leads somewhere leads through the directory. -/
theorem through_directory (hname : IsPlainName name)
    (h : t.locate (Path.join dir name) = .ok place) :
    ∃ here, t.follow dir (Path.leading dir) = .ok here ∧ t.node? here = some .directory ∧
      place = here ++ [name] := by
  unfold Tree.locate at h
  split at h
  · simp at h
  · rw [follow_join hname] at h
    obtain ⟨here, hdir, hstep⟩ := except_bind_eq_ok.1 h
    have hhere := Tree.node?_of_step hstep
    have hplace := (hname.step hhere).symm.trans hstep
    exact ⟨here, hdir, hhere, (Except.ok.inj hplace).symm⟩

/-- Writing a file of a directory leaves its other files alone. -/
theorem at?_of_writeText {text : String} (hname : IsPlainName name) (hother : IsPlainName other)
    (hne : other ≠ name) (h : t.writeText (Path.join dir name) text = .ok t') :
    t'.at? (Path.join dir other) = t.at? (Path.join dir other) := by
  obtain ⟨place, hlocate, hplace, rfl⟩ := Tree.put_of_writeBytes h
  obtain ⟨here, hdir, hhere, rfl⟩ := through_directory hname hlocate
  cases herror : Tree.textError? (Path.join dir other) with
  | some e => simp [Tree.at?, Tree.locate, herror, bind, Except.bind]
  | none =>
      have hbefore : t.locate (Path.join dir other) = .ok (here ++ [other]) := by
        rw [Tree.locate, herror]
        exact (follow_join hother).trans
          (except_bind_eq_ok.2 ⟨here, hdir, hother.step hhere⟩)
      have hafter := Tree.locate_put (n := .file (Text.encode text)) hplace hbefore
      rw [Tree.at?_of_locate hbefore, Tree.at?_of_locate hafter, Tree.node?_put_of_ne]
      simpa using hne

end Directory

namespace Artifact

variable {tree tree' : Tree} {dir text : String} {a b : Artifact}

theorem fileName_injective (h : a.fileName = b.fileName) : a = b := by
  revert h
  cases a <;> cases b <;> decide

theorem isPlainName_fileName (a : Artifact) : IsPlainName a.fileName := by
  cases a <;> exact ⟨by decide, by decide, by decide, by decide, by decide⟩

theorem readText_of_store (h : store tree dir a text = .ok tree') :
    tree'.readText (a.pathIn dir) = .ok text := by
  unfold store at h
  split at h
  · next hwrite =>
      obtain rfl := Except.ok.inj h
      exact Tree.readText_of_writeText hwrite
  · simp at h

/-- The other files of the directory stay as they are. -/
theorem at?_of_store (hne : b ≠ a) (h : store tree dir a text = .ok tree') :
    tree'.at? (b.pathIn dir) = tree.at? (b.pathIn dir) := by
  unfold store at h
  split at h
  · next hwrite =>
      obtain rfl := Except.ok.inj h
      exact at?_of_writeText a.isPlainName_fileName b.isPlainName_fileName
        (fun heq => hne (fileName_injective heq)) hwrite
  · simp at h

end Artifact

end Punctual
