import Mathlib.Data.List.Forall2
import Punctual.Proofs.Solver.Report
import Punctual.Proofs.Specification.Formula
import Punctual.Proofs.Text.Decoding
import Punctual.Proofs.Text.Numeral
import Punctual.Solver.Config
import Punctual.Solver.Session

/-!
# Answers in a session

In a session, the answer to a command ends at the line with the marker of the command. Whatever the
program at the other end prints, a command gets the lines that were printed for it and no others
(`Session.executeEach_eq_of_serves`): the markers do not occur in each other
(`Session.contains_marker_iff`), and what is printed behind a marker waits for the next command.

A line is searched for the marker after the prompts in front of it are dropped. So a prompt must not
reach into a marker behind it (`Apart`). If it does, there are programs whose answers are never
found (`Session.exists_unheard`).
-/

namespace Punctual

open Text

/-! ## Printed lines -/

/-- The bytes of a line with its line feed. -/
def lineBytes (l : String) : List UInt8 :=
  (encode (l ++ "\n")).toList

/-- The bytes begin with a line, and `rest` is behind it. Only the last line may have no line
feed. -/
inductive StartsWithLine (l : String) : List UInt8 → List UInt8 → Prop
  | fed (rest : List UInt8) : StartsWithLine l (lineBytes l ++ rest) rest
  | last : StartsWithLine l (encode l).toList []

theorem lineBytes_eq (l : String) : lineBytes l = (encode l).toList ++ [10] := by
  rw [lineBytes, toList_encode, toList_encode, String.toList_append, List.flatMap_append]
  rfl

theorem not_mem_toList_encode {l : String} (h : IsLine l) : 10 ∉ (encode l).toList := by
  rw [toList_encode, List.mem_flatMap]
  rintro ⟨c, hc, hbyte⟩
  rcases toNat_of_mem_utf8EncodeChar hbyte with heq | hbeyond
  · have hfeed : c = '\n' := Char.toNat_inj.1 heq.symm
    exact h (hfeed ▸ hc)
  · exact absurd hbeyond (by decide)

section Bytes

variable {bs : List UInt8}

theorem cutLines_append_feed (h : 10 ∉ bs) (rest : List UInt8) :
    cutLines (bs ++ 10 :: rest) = (bs ++ [10]) :: cutLines rest := by
  induction bs with
  | nil => rw [List.nil_append, cutLines, if_pos rfl, List.nil_append]
  | cons b bs ih =>
      rw [List.mem_cons, not_or] at h
      rw [List.cons_append, cutLines, if_neg (Ne.symm h.1), ih h.2, List.cons_append]

theorem cutLines_of_not_mem (h : 10 ∉ bs) (hne : bs ≠ []) : cutLines bs = [bs] := by
  induction bs with
  | nil => exact absurd rfl hne
  | cons b bs ih =>
      rw [List.mem_cons, not_or] at h
      rw [cutLines, if_neg (Ne.symm h.1)]
      cases bs with
      | nil => rw [cutLines]
      | cons b' bs => rw [ih h.2 (List.cons_ne_nil _ _)]

/-- The lines have all bytes. -/
theorem flatten_cutLines (bs : List UInt8) : (cutLines bs).flatten = bs := by
  fun_induction cutLines bs with
  | case1 => rfl
  | case2 bs ih => rw [List.flatten_cons, ih, List.singleton_append]
  | case3 b bs hb hnil ih =>
      rw [hnil, List.flatten_nil] at ih
      rw [← ih, List.flatten_singleton]
  | case4 b bs hb l ls hcons ih =>
      rw [hcons, List.flatten_cons] at ih
      rw [List.flatten_cons, List.cons_append, ih]

end Bytes

theorem cutLines_lineBytes {l : String} (h : IsLine l) (rest : List UInt8) :
    cutLines (lineBytes l ++ rest) = lineBytes l :: cutLines rest := by
  rw [lineBytes_eq, List.append_assoc, List.singleton_append,
    cutLines_append_feed (not_mem_toList_encode h)]

theorem cutLines_flatMap_lineBytes {ls : List String} (h : ∀ l ∈ ls, IsLine l)
    (rest : List UInt8) :
    cutLines (ls.flatMap lineBytes ++ rest) = ls.map lineBytes ++ cutLines rest := by
  induction ls with
  | nil => rfl
  | cons l ls ih =>
      rw [List.forall_mem_cons] at h
      rw [List.flatMap_cons, List.append_assoc, cutLines_lineBytes h.1, ih h.2, List.map_cons,
        List.cons_append]

theorem toList_encode_ne_nil {l : String} (h : l ≠ "") : (encode l).toList ≠ [] := by
  intro hnil
  have hread := decodeLossy_encode l
  rw [decodeLossy, hnil] at hread
  exact h hread.symm

/-- A line is read with its line feed, if it has one. -/
theorem StartsWithLine.cutLines_eq {l : String} {bs rest : List UInt8}
    (h : StartsWithLine l bs rest) (hline : IsLine l) (hne : l ≠ "") :
    ∃ feed, cutLines bs = (encode (l ++ feed)).toList :: cutLines rest := by
  cases h with
  | fed => exact ⟨"\n", cutLines_lineBytes hline rest⟩
  | last =>
      refine ⟨"", ?_⟩
      rw [cutLines_of_not_mem (not_mem_toList_encode hline) (toList_encode_ne_nil hne),
        String.append_empty]
      rfl

theorem Text.contains_iff {s needle : String} :
    Text.contains s needle = true ↔ needle.toList <:+: s.toList :=
  hasInfix_iff

/-! ## Prompts in front of a line -/

/-- A prompt does not reach into a mark: no end of the prompt begins the mark or begins with it. -/
def Apart (prompt mark : List Char) : Prop :=
  ∀ tail, tail <:+ prompt → tail ≠ [] → ¬ tail <+: mark ∧ ¬ mark <+: tail

section Prompts

variable {prompt mark cs rest : List Char}

/-- A prompt without the first character of a mark is apart from the mark. -/
theorem apart_of_not_mem {c : Char} (h : c ∉ prompt) : Apart prompt (c :: mark) := by
  intro tail htail hne
  obtain ⟨d, tail, rfl⟩ := List.exists_cons_of_ne_nil hne
  have hd : d ≠ c := by
    rintro rfl
    exact h (htail.subset List.mem_cons_self)
  constructor
  · intro hleading
    exact hd (List.cons_prefix_cons.1 hleading).1
  · intro hleading
    exact hd (List.cons_prefix_cons.1 hleading).1.symm

theorem Apart.of_cons {c : Char} (h : Apart (c :: prompt) mark) : Apart prompt mark :=
  fun tail htail => h tail (htail.trans (List.suffix_cons c prompt))

/-- Behind a prompt that is apart from it, a mark is only found behind the whole prompt. -/
theorem Apart.infix_of_append (h : Apart prompt mark) (hpart : mark <:+: prompt ++ cs) :
    mark <:+: cs := by
  induction prompt with
  | nil => exact hpart
  | cons c prompt ih =>
      rw [List.cons_append, List.infix_cons_iff] at hpart
      rcases hpart with hleading | hpart
      · obtain ⟨hbegins, hcontinues⟩ := h _ List.suffix_rfl (List.cons_ne_nil c prompt)
        have hprompt : c :: prompt <+: c :: (prompt ++ cs) := List.prefix_append _ cs
        rcases List.prefix_or_prefix_of_prefix hleading hprompt with hle | hle
        · exact absurd hle hcontinues
        · exact absurd hle hbegins
      · exact ih h.of_cons hpart

/-- A prompt that is not apart from a mark begins a line whose mark it reaches into. -/
theorem exists_infix_of_not_apart (hne : mark ≠ []) (h : ¬ Apart prompt mark) :
    ∃ ds, ds <:+ mark ∧ mark <:+: prompt ++ ds ∧ ¬ mark <:+: ds := by
  unfold Apart at h
  push Not at h
  obtain ⟨tail, ⟨front, rfl⟩, htail, hoverlap⟩ := h
  by_cases hbegins : tail <+: mark
  · obtain ⟨ds, rfl⟩ := hbegins
    refine ⟨ds, List.suffix_append tail ds, ?_, ?_⟩
    · rw [List.append_assoc]
      exact (List.suffix_append front (tail ++ ds)).isInfix
    · intro hpart
      have hlength := hpart.length_le
      have hpos := List.length_pos_iff.2 htail
      rw [List.length_append] at hlength
      omega
  · refine ⟨[], List.nil_suffix, ?_, ?_⟩
    · rw [List.append_nil]
      exact (hoverlap hbegins).isInfix.trans (List.suffix_append front tail).isInfix
    · rwa [List.infix_nil]

end Prompts

namespace Session

section Prompts

variable {prompt mark cs rest : List Char}

theorem dropPrompts_nil (cs : List Char) : dropPrompts [] cs = cs := by
  rw [dropPrompts]

theorem dropPrompts_append (prompt cs : List Char) :
    dropPrompts prompt (prompt ++ cs) = dropPrompts prompt cs := by
  cases prompt with
  | nil => rw [List.nil_append]
  | cons p ps =>
      rw [dropPrompts]
      split
      · next hnone => exact absurd (hnone.symm.trans (dropStart?_eq_some_iff.2 rfl)) (by simp)
      · next rest hsome =>
          have hrest := List.append_cancel_left (dropStart?_eq_some_iff.1 hsome)
          exact congrArg (dropPrompts (p :: ps)) hrest.symm

theorem dropPrompts_of_not_leading (h : ¬ prompt <+: cs) : dropPrompts prompt cs = cs := by
  cases prompt with
  | nil => exact absurd List.nil_prefix h
  | cons p ps =>
      rw [dropPrompts]
      split
      · rfl
      · next rest hsome => exact absurd ⟨rest, (dropStart?_eq_some_iff.1 hsome).symm⟩ h

theorem dropPrompts_flatten_replicate (n : Nat) (prompt cs : List Char) :
    dropPrompts prompt ((List.replicate n prompt).flatten ++ cs) = dropPrompts prompt cs := by
  induction n with
  | zero => rfl
  | succ n ih =>
      rw [List.replicate_succ, List.flatten_cons, List.append_assoc, dropPrompts_append, ih]

/-- Whole prompts are dropped, and all of them. -/
theorem exists_dropPrompts_eq (prompt cs : List Char) :
    ∃ n, cs = (List.replicate n prompt).flatten ++ dropPrompts prompt cs ∧
      (prompt <+: dropPrompts prompt cs → prompt = []) := by
  fun_induction dropPrompts prompt cs with
  | case1 cs => exact ⟨0, rfl, fun _ => rfl⟩
  | case2 cs p ps hnone =>
      refine ⟨0, rfl, ?_⟩
      rintro ⟨rest, hrest⟩
      rw [dropStart?_eq_some_iff.2 hrest.symm] at hnone
      cases hnone
  | case3 cs p ps rest hrest hlt ih =>
      obtain ⟨n, hn, hall⟩ := ih
      refine ⟨n + 1, ?_, hall⟩
      rw [List.replicate_succ, List.flatten_cons, List.append_assoc, ← hn]
      exact dropStart?_eq_some_iff.1 hrest

theorem dropPrompts_suffix (prompt cs : List Char) : dropPrompts prompt cs <:+ cs := by
  obtain ⟨n, hn, -⟩ := exists_dropPrompts_eq prompt cs
  exact ⟨_, hn.symm⟩

/-- Dropping prompts keeps a mark that they are apart from. -/
theorem infix_dropPrompts (h : Apart prompt mark) (hpart : mark <:+: cs) :
    mark <:+: dropPrompts prompt cs := by
  fun_induction dropPrompts prompt cs with
  | case1 => exact hpart
  | case2 => exact hpart
  | case3 cs p ps rest hrest hlt ih =>
      rw [dropStart?_eq_some_iff.1 hrest] at hpart
      exact ih h (h.infix_of_append hpart)

end Prompts

/-! ## Lines of an answer -/

/-- The text is the line without prompts in front and without blanks at its end. -/
def IsShown (prompt l text : String) : Prop :=
  ∃ (n : Nat) (rest : List Char),
    (l ++ "\n").toList = (List.replicate n prompt.toList).flatten ++ rest ∧
      (prompt.toList <+: rest → prompt = "") ∧ text = trimEnd (.ofList rest)

theorem IsShown.answerLine_eq {prompt l text : String} (h : IsShown prompt l text) :
    answerLine prompt (l ++ "\n") = text := by
  obtain ⟨n, rest, hline, hrest, rfl⟩ := h
  rw [answerLine, hline, dropPrompts_flatten_replicate]
  by_cases hleading : prompt.toList <+: rest
  · rw [hrest hleading, String.toList_empty, dropPrompts_nil]
  · rw [dropPrompts_of_not_leading hleading]

/-- Every line is shown as one text. -/
theorem existsUnique_isShown (prompt l : String) : ∃! text, IsShown prompt l text := by
  refine ⟨answerLine prompt (l ++ "\n"), ?_, fun text htext => htext.answerLine_eq.symm⟩
  obtain ⟨n, hline, hall⟩ := exists_dropPrompts_eq prompt.toList (l ++ "\n").toList
  exact ⟨n, _, hline, fun hleading => String.toList_eq_nil_iff.1 (hall hleading), rfl⟩

section Marks

variable {prompt mark s : String}

/-- A line that is shown has no mark that the printed line does not have. -/
theorem contains_of_contains_answerLine (h : Text.contains (answerLine prompt s) mark) :
    Text.contains s mark := by
  rw [contains_iff, answerLine, toList_trimEnd, String.toList_ofList] at h
  rw [contains_iff]
  have htrimmed := (List.rdropWhile_prefix isBlank (dropPrompts prompt.toList s.toList)).isInfix
  exact (h.trans htrimmed).trans (dropPrompts_suffix prompt.toList s.toList).isInfix

/-- A mark that the prompts are apart from is still there when the line is shown. -/
theorem contains_answerLine (hprompt : Apart prompt.toList mark.toList)
    (hsolid : EndsSolid mark.toList) (h : Text.contains s mark) :
    Text.contains (answerLine prompt s) mark := by
  rw [contains_iff] at h
  rw [contains_iff, answerLine, toList_trimEnd, String.toList_ofList]
  exact hsolid.infix_rdropWhile (infix_dropPrompts hprompt h)

end Marks

/-! ## Markers -/

theorem toList_marker (n : Nat) :
    (marker n).toList = markerStem.toList ++ (toString n).toList ++ ['_', '_'] := by
  rw [marker, String.toList_append, String.toList_append]
  rfl

theorem exists_toList_marker (n : Nat) : ∃ cs, (marker n).toList = '_' :: cs := by
  rw [toList_marker]
  exact ⟨_, rfl⟩

theorem endsSolid_marker (n : Nat) : EndsSolid (marker n).toList := by
  rw [toList_marker]
  have hend : EndsSolid ['_', '_'] := ⟨['_'], '_', rfl, by decide⟩
  exact hend.append_left _

theorem isLine_marker (n : Nat) : IsLine (marker n) := by
  have hstem : IsLine markerStem := by decide
  have hend : IsLine "__" := by decide
  exact (hstem.append (isLine_toString n)).append hend

/-- Numbers that are followed by the same separator are the same. -/
theorem toString_append_inj {m n : Nat} {cs ds : List Char}
    (h : (toString m).toList ++ '_' :: cs = (toString n).toList ++ '_' :: ds) : m = n := by
  have hm : cutAt? '_' ((toString m).toList ++ '_' :: cs) = some ((toString m).toList, cs) :=
    cutAt?_eq_some_iff.2 ⟨rfl, not_mem_toString (by decide) m⟩
  have hn : cutAt? '_' ((toString m).toList ++ '_' :: cs) = some ((toString n).toList, ds) :=
    cutAt?_eq_some_iff.2 ⟨h, not_mem_toString (by decide) n⟩
  have hdigits := (Prod.mk.inj (Option.some.inj (hm.symm.trans hn))).1
  rw [← natOfDigits_toString m, hdigits, natOfDigits_toString]

/-- No marker occurs in another one. -/
theorem contains_marker_iff {m n : Nat} :
    Text.contains (marker m) (marker n) = true ↔ m = n := by
  constructor
  · intro h
    -- The letter `l` is in the stem and in no other place, so the stems lie on each other.
    have hsplit (k : Nat) : (marker k).toList =
        "__dead".toList ++ 'l' :: ("ine_answer_".toList ++ ((toString k).toList ++ ['_', '_'])) := by
      rw [toList_marker, List.append_assoc]
      rfl
    have honce : 'l' ∉ "ine_answer_".toList ++ ((toString m).toList ++ ['_', '_']) := by
      rw [List.mem_append, List.mem_append, not_or, not_or]
      exact ⟨by decide, not_mem_toString (by decide) m, by decide⟩
    obtain ⟨front, rest, hm⟩ := Text.contains_iff.1 h
    rw [hsplit, hsplit, ← List.append_assoc front, List.append_assoc _ _ rest, List.cons_append,
      eq_comm, List.append_cons_inj_of_notMem (by decide) honce] at hm
    have hbehind := hm.2.2
    rw [List.append_assoc, List.append_cancel_left_eq, List.append_assoc] at hbehind
    exact toString_append_inj hbehind
  · rintro rfl
    exact Text.contains_iff.2 List.infix_rfl

theorem ne_empty_of_contains_marker {l : String} {n : Nat} (h : Text.contains l (marker n)) :
    l ≠ "" := by
  rintro rfl
  exact (endsSolid_marker n).ne_nil (List.infix_nil.1 (Text.contains_iff.1 h))

/-- A line feed makes no marker. -/
theorem contains_feed_iff {l : String} {n : Nat} :
    Text.contains (l ++ "\n") (marker n) = true ↔ Text.contains l (marker n) = true := by
  have hfeed : '\n' ∉ (marker n).toList := isLine_marker n
  have hnot : ¬ (marker n).toList <:+: ['\n'] := by
    intro hpart
    obtain ⟨cs, hcs⟩ := exists_toList_marker n
    have hmem := hpart.subset (hcs ▸ List.mem_cons_self)
    exact absurd hmem (by decide)
  rw [Text.contains_iff, Text.contains_iff, String.toList_append]
  change _ <:+: l.toList ++ '\n' :: [] ↔ _
  rw [infix_append_cons_iff hfeed (endsSolid_marker n).ne_nil, or_iff_left hnot]

/-! ## Reading an answer -/

section Reading

variable {prompt mark s : String}

theorem decode?_bytes (s : String) : Text.decode? ⟨(encode s).toList.toArray⟩ = some s := by
  rw [toList_eq, Array.toArray_toList]
  exact decode?_encode s

theorem takeAnswer_of_contains (h : Text.contains (answerLine prompt s) mark)
    (raws : List RawLine) :
    takeAnswer prompt mark ((encode s).toList :: raws) = (.ok [], raws) := by
  rw [takeAnswer, decode?_bytes]
  exact if_pos h

theorem takeAnswer_of_not_contains {raws left : List RawLine}
    {answer : Except SolverError (List String)}
    (h : ¬ Text.contains (answerLine prompt s) mark)
    (htaken : takeAnswer prompt mark raws = (answer, left)) :
    takeAnswer prompt mark ((encode s).toList :: raws) =
      (answer.map (answerLine prompt s :: ·), left) := by
  rw [takeAnswer, decode?_bytes, htaken]
  exact if_neg h

/-- Lines without the mark are all part of the answer. -/
theorem takeAnswer_lines {raws left : List RawLine} {answer : Except SolverError (List String)}
    {lines : List String}
    (hlines : ∀ l ∈ lines, ¬ Text.contains (answerLine prompt (l ++ "\n")) mark)
    (htaken : takeAnswer prompt mark raws = (answer, left)) :
    takeAnswer prompt mark (lines.map lineBytes ++ raws) =
      (answer.map (lines.map (fun l => answerLine prompt (l ++ "\n")) ++ ·), left) := by
  induction lines with
  | nil =>
      rw [List.map_nil, List.nil_append, htaken]
      cases answer <;> rfl
  | cons l lines ih =>
      rw [List.forall_mem_cons] at hlines
      rw [List.map_cons, List.cons_append, lineBytes,
        takeAnswer_of_not_contains hlines.1 (ih hlines.2)]
      cases answer <;> rfl

/-- If the last line has no mark either, the output ends before the mark. -/
theorem takeAnswer_last {last : String} (hline : IsLine last) (h : ¬ Text.contains last mark) :
    takeAnswer prompt mark (cutLines (encode last).toList) = (.error .channelClosed, []) := by
  by_cases hlast : last = ""
  · have hbytes : (encode "").toList = [] := by
      rw [toList_encode]
      rfl
    rw [hlast, hbytes, cutLines, takeAnswer]
  · rw [cutLines_of_not_mem (not_mem_toList_encode hline) (toList_encode_ne_nil hlast)]
    exact takeAnswer_of_not_contains (fun hcontains => h (contains_of_contains_answerLine hcontains))
      rfl

end Reading

/-! ## Sessions with any program -/

variable {τ : Type} {p : Peer τ} {s s' : Session τ} {command : String}

/-- A command with its answer or error, and the session that it leaves. -/
def attempt (p : Peer τ) (command : String) (s : Session τ) :
    Except SolverError (List String) × Session τ :=
  match execute p command s with
  | .ok answer s => (.ok answer, s)
  | .error e s => (.error e, s)

/-- Commands one after another, whether they have an answer or not. -/
def executeEach (p : Peer τ) :
    List String → Session τ → List (Except SolverError (List String)) × Session τ
  | [], s => ([], s)
  | command :: commands, s =>
    let (reply, s) := attempt p command s
    let (replies, s) := executeEach p commands s
    (reply :: replies, s)

/-- What is written for the `n`-th command. -/
def request (command : String) (n : Nat) : String :=
  command ++ "\n" ++ "echo " ++ marker n ++ "\n"

/-- What a program does when it is sent a command, with the reply that belongs to it: it prints lines
without the marker of the command and a line with the marker, or it ends before the marker, or it no
longer listens. Bytes that are left over from earlier commands come first. -/
inductive Replies (p : Peer τ) (s : Session τ) (command : String) :
    Except SolverError (List String) → Session τ → Prop
  | answered {printed bs rest : List UInt8} {peer : τ} {lines texts : List String}
      {closing : String}
      (hhear : p.hear (request command (s.sent + 1)) s.peer = some (printed, peer))
      (hprinted : s.unread ++ printed = lines.flatMap lineBytes ++ bs)
      (hlines : ∀ l ∈ lines, IsLine l ∧ ¬ Text.contains l (marker (s.sent + 1)))
      (hbs : StartsWithLine closing bs rest)
      (hclosing : IsLine closing ∧ Text.contains closing (marker (s.sent + 1)))
      (hshown : List.Forall₂ (IsShown s.prompt) lines texts) :
      Replies p s command (.ok texts)
        { s with sent := s.sent + 1, unread := rest, peer := peer }
  | ended {printed : List UInt8} {peer : τ} {lines : List String} {last : String}
      (hhear : p.hear (request command (s.sent + 1)) s.peer = some (printed, peer))
      (hprinted : s.unread ++ printed = lines.flatMap lineBytes ++ (encode last).toList)
      (hlines : ∀ l ∈ lines, IsLine l ∧ ¬ Text.contains l (marker (s.sent + 1)))
      (hlast : IsLine last ∧ ¬ Text.contains last (marker (s.sent + 1))) :
      Replies p s command (.error .channelClosed)
        { s with sent := s.sent + 1, unread := [], peer := peer }
  | closed (hhear : p.hear (request command (s.sent + 1)) s.peer = none) :
      Replies p s command (.error .channelClosed) { s with sent := s.sent + 1 }

/-- A program that is sent commands one after another, with the replies that belong to them. -/
inductive Serves (p : Peer τ) :
    Session τ → List String → List (Except SolverError (List String)) → Session τ → Prop
  | nil (s : Session τ) : Serves p s [] [] s
  | cons {s s' s'' : Session τ} {command : String} {commands : List String}
      {reply : Except SolverError (List String)}
      {replies : List (Except SolverError (List String))}
      (hreply : Replies p s command reply s') (hserves : Serves p s' commands replies s'') :
      Serves p s (command :: commands) (reply :: replies) s''

theorem attempt_of_hear {printed : List UInt8} {peer : τ}
    {answer : Except SolverError (List String)} {left : List RawLine}
    (hhear : p.hear (request command (s.sent + 1)) s.peer = some (printed, peer))
    (htaken : takeAnswer s.prompt (marker (s.sent + 1)) (cutLines (s.unread ++ printed)) =
      (answer, left)) :
    attempt p command s =
      (answer, { s with sent := s.sent + 1, unread := left.flatten, peer := peer }) := by
  rw [request] at hhear
  simp only [attempt, execute, write, hhear, Option.map_some, htaken]
  cases answer <;> rfl

theorem attempt_of_deaf (hhear : p.hear (request command (s.sent + 1)) s.peer = none) :
    attempt p command s = (.error .channelClosed, { s with sent := s.sent + 1 }) := by
  rw [request] at hhear
  simp only [attempt, execute, write, hhear, Option.map_none]

/-- A line without a marker is shown without it. -/
theorem not_contains_answerLine {prompt l : String} {n : Nat}
    (h : ¬ Text.contains l (marker n)) :
    ¬ Text.contains (answerLine prompt (l ++ "\n")) (marker n) := by
  intro hcontains
  exact h (contains_feed_iff.1 (contains_of_contains_answerLine hcontains))

/-- A command gets the reply that belongs to it. -/
theorem attempt_of_replies {reply : Except SolverError (List String)}
    (hprompt : Apart s.prompt.toList (marker (s.sent + 1)).toList)
    (h : Replies p s command reply s') : attempt p command s = (reply, s') := by
  cases h with
  | answered hhear hprinted hlines hbs hclosing hshown =>
      next printed bs rest peer lines texts closing =>
      obtain ⟨feed, hcut⟩ := hbs.cutLines_eq hclosing.1 (ne_empty_of_contains_marker hclosing.2)
      have hfed : Text.contains (closing ++ feed) (marker (s.sent + 1)) := by
        rw [Text.contains_iff, String.toList_append]
        exact (Text.contains_iff.1 hclosing.2).trans (List.prefix_append _ _).isInfix
      have hfound := contains_answerLine hprompt (endsSolid_marker _) hfed
      have htexts : lines.map (fun l => answerLine s.prompt (l ++ "\n")) = texts := by
        rw [← List.forall₂_eq_eq_eq, List.forall₂_map_left_iff]
        exact hshown.imp fun l text hl => hl.answerLine_eq
      have htaken : takeAnswer s.prompt (marker (s.sent + 1)) (cutLines (s.unread ++ printed)) =
          (.ok texts, cutLines rest) := by
        rw [hprinted, cutLines_flatMap_lineBytes fun l hl => (hlines l hl).1, hcut,
          takeAnswer_lines (fun l hl => not_contains_answerLine (hlines l hl).2)
            (takeAnswer_of_contains hfound _), htexts]
        exact congrArg (fun a => (Except.ok a, cutLines rest)) (List.append_nil texts)
      rw [attempt_of_hear hhear htaken, flatten_cutLines]
  | ended hhear hprinted hlines hlast =>
      next printed peer lines last =>
      have htaken : takeAnswer s.prompt (marker (s.sent + 1)) (cutLines (s.unread ++ printed)) =
          (.error .channelClosed, []) := by
        rw [hprinted, cutLines_flatMap_lineBytes fun l hl => (hlines l hl).1,
          takeAnswer_lines (fun l hl => not_contains_answerLine (hlines l hl).2)
            (takeAnswer_last hlast.1 hlast.2)]
        rfl
      rw [attempt_of_hear hhear htaken]
      rfl
  | closed hhear => exact attempt_of_deaf hhear

theorem Replies.prompt_eq {reply : Except SolverError (List String)}
    (h : Replies p s command reply s') : s'.prompt = s.prompt := by
  cases h with
  | answered => rfl
  | ended => rfl
  | closed => rfl

/-- Whatever program is at the other end, every command gets the reply that belongs to it. -/
theorem executeEach_eq_of_serves {commands : List String}
    {replies : List (Except SolverError (List String))}
    (hprompt : ∀ n, Apart s.prompt.toList (marker (n + 1)).toList)
    (h : Serves p s commands replies s') : executeEach p commands s = (replies, s') := by
  induction h with
  | nil s => rfl
  | cons hreply hserves ih =>
      have hrest := ih fun n => hreply.prompt_eq ▸ hprompt n
      rw [executeEach, attempt_of_replies (hprompt _) hreply]
      dsimp only
      rw [hrest]

/-! ## Prompts that reach into a marker -/

/-- If a prompt reaches into the marker of the next command, a program prints the marker and the
session does not find it. -/
theorem exists_unheard {prompt : String} {n : Nat} (hprompt : IsLine prompt)
    (h : ¬ Apart prompt.toList (marker (n + 1)).toList) (command : String) :
    ∃ (p : Peer Unit) (s s' : Session Unit), s.prompt = prompt ∧
      Replies p s command (.ok []) s' ∧ (attempt p command s).1 = .error .channelClosed := by
  obtain ⟨ds, hend, hmark, hlost⟩ :=
    exists_infix_of_not_apart (endsSolid_marker (n + 1)).ne_nil h
  have hds : IsLine (.ofList ds) := by
    intro hfeed
    rw [String.toList_ofList] at hfeed
    exact isLine_marker (n + 1) (hend.subset hfeed)
  let closing : String := prompt ++ .ofList ds
  have hclosing : IsLine closing ∧ Text.contains closing (marker (n + 1)) := by
    refine ⟨hprompt.append hds, ?_⟩
    rw [Text.contains_iff, String.toList_append, String.toList_ofList]
    exact hmark
  -- The prompt is dropped and takes the beginning of the marker with it.
  have hunheard : ¬ Text.contains (answerLine prompt (closing ++ "\n")) (marker (n + 1)) := by
    have hdropped : answerLine prompt (closing ++ "\n") = answerLine prompt (.ofList ds ++ "\n") := by
      rw [answerLine, String.append_assoc, String.toList_append, dropPrompts_append]
      rfl
    rw [hdropped]
    apply not_contains_answerLine
    rwa [Text.contains_iff, String.toList_ofList]
  let p : Peer Unit := ⟨fun _ _ => some (lineBytes closing, ())⟩
  let s : Session Unit := ⟨prompt, n, [], ()⟩
  refine ⟨p, s, { s with sent := n + 1 }, rfl, ?_, ?_⟩
  · have hbs := StartsWithLine.fed (l := closing) []
    exact .answered rfl (List.append_nil _).symm (by simp) hbs hclosing .nil
  · have htaken : takeAnswer prompt (marker (n + 1)) (cutLines (lineBytes closing)) =
        (.error .channelClosed, []) := by
      have hcut := cutLines_lineBytes hclosing.1 []
      rw [List.append_nil, cutLines] at hcut
      rw [hcut, lineBytes, takeAnswer_of_not_contains hunheard rfl]
      rfl
    have hhear : p.hear (request command (s.sent + 1)) s.peer = some (lineBytes closing, ()) := rfl
    rw [attempt_of_hear hhear htaken]

/-- In sessions with the prompt, every command gets the reply that belongs to it, whatever program is
at the other end. -/
def FramesAnswers (prompt : String) : Prop :=
  ∀ (τ : Type) (p : Peer τ) (s s' : Session τ) (commands : List String)
    (replies : List (Except SolverError (List String))),
    s.prompt = prompt → Serves p s commands replies s' →
      executeEach p commands s = (replies, s')

/-- The answers are framed if the prompt does not reach into a marker, and a prompt of one line that
frames them does not reach into any. Every line is shown as one text, and no marker occurs in
another one. -/
theorem framesAnswers_of_apart (prompt : String) :
    ((∀ n, Apart prompt.toList (marker (n + 1)).toList) → FramesAnswers prompt) ∧
    (IsLine prompt → FramesAnswers prompt →
      ∀ n, Apart prompt.toList (marker (n + 1)).toList) ∧
    (∀ l, ∃! text, IsShown prompt l text) ∧
    ∀ m n, Text.contains (marker m) (marker n) = true ↔ m = n := by
  refine ⟨?_, ?_, existsUnique_isShown prompt, fun m n => contains_marker_iff⟩
  · rintro hprompt τ p s s' commands replies rfl hserves
    exact executeEach_eq_of_serves hprompt hserves
  · intro hline hframes n
    by_contra hapart
    obtain ⟨p, s, s', hs, hreply, hattempt⟩ := exists_unheard hline hapart "go"
    have hrun := hframes Unit p s s' ["go"] [.ok []] hs (.cons hreply (.nil s'))
    have hfirst : (attempt p "go" s).1 = .ok [] := by
      have hhead := congrArg (fun run => run.1.head?) hrun
      simpa [executeEach] using hhead
    rw [hattempt] at hfirst
    cases hfirst

/-! ### A session with a script -/

/-- A program that prints the pieces of a script, one for each text that it hears. -/
def scripted : Peer (List (List UInt8)) where
  hear _ pieces :=
    match pieces with
    | [] => none
    | piece :: pieces => some (piece, pieces)

/-- Prompts in front of lines, an answer with the marker of the next command, and a line that is
broken off. -/
def threePieces : List (List UInt8) :=
  [lineBytes "NuSMV > ready  " ++ (lineBytes "__deadline_answer_2__" ++
      (lineBytes "NuSMV > NuSMV > __deadline_answer_1__" ++ (encode "NuSMV > ").toList)),
    lineBytes "__deadline_answer_2__",
    (encode "NuSMV > b").toList]

theorem serves_threePieces :
    Serves scripted (start SolverConfig.defaultPrompt threePieces) ["go", "reset", "quit"]
      [.ok ["ready", "__deadline_answer_2__"], .ok [], .error .channelClosed]
      ⟨SolverConfig.defaultPrompt, 3, [], []⟩ := by
  have hready : Replies scripted (start SolverConfig.defaultPrompt threePieces) "go"
      (.ok ["ready", "__deadline_answer_2__"])
      ⟨SolverConfig.defaultPrompt, 1, (encode "NuSMV > ").toList, threePieces.drop 1⟩ := by
    have hshown : List.Forall₂ (IsShown SolverConfig.defaultPrompt)
        ["NuSMV > ready  ", "__deadline_answer_2__"] ["ready", "__deadline_answer_2__"] := by
      refine .cons ⟨1, "ready  \n".toList, rfl, by decide, by decide +kernel⟩ (.cons ?_ .nil)
      exact ⟨0, "__deadline_answer_2__\n".toList, rfl, by decide, by decide +kernel⟩
    have hclosing : IsLine "NuSMV > NuSMV > __deadline_answer_1__" ∧
        Text.contains "NuSMV > NuSMV > __deadline_answer_1__" (marker 1) := by
      decide +kernel
    refine .answered rfl ?_ (by decide +kernel) (.fed _) hclosing hshown
    simp [start]
  have hreset : Replies scripted
      ⟨SolverConfig.defaultPrompt, 1, (encode "NuSMV > ").toList, threePieces.drop 1⟩ "reset"
      (.ok []) ⟨SolverConfig.defaultPrompt, 2, [], threePieces.drop 2⟩ := by
    have hprinted : (encode "NuSMV > ").toList ++ lineBytes "__deadline_answer_2__" =
        [].flatMap lineBytes ++ (lineBytes "NuSMV > __deadline_answer_2__" ++ []) := by
      rw [lineBytes, lineBytes, toList_encode, toList_encode, toList_encode]
      decide +kernel
    exact .answered rfl hprinted (by simp) (.fed []) (by decide +kernel) .nil
  have hquit : Replies scripted
      ⟨SolverConfig.defaultPrompt, 2, [], threePieces.drop 2⟩ "quit" (.error .channelClosed)
      ⟨SolverConfig.defaultPrompt, 3, [], []⟩ := by
    have hprinted : [] ++ (encode "NuSMV > b").toList =
        [].flatMap lineBytes ++ (encode "NuSMV > b").toList := rfl
    exact .ended rfl hprinted (by simp) (by decide +kernel)
  exact .cons hready (.cons hreset (.cons hquit (.nil _)))

theorem framesAnswers_default :
    (∀ n, Apart SolverConfig.defaultPrompt.toList (marker (n + 1)).toList) ∧
    Serves scripted (start SolverConfig.defaultPrompt threePieces) ["go", "reset", "quit"]
      [.ok ["ready", "__deadline_answer_2__"], .ok [], .error .channelClosed]
      ⟨SolverConfig.defaultPrompt, 3, [], []⟩ ∧
    executeEach scripted ["go", "reset", "quit"] (start SolverConfig.defaultPrompt threePieces) =
      ([.ok ["ready", "__deadline_answer_2__"], .ok [], .error .channelClosed],
        ⟨SolverConfig.defaultPrompt, 3, [], []⟩) := by
  have hapart : ∀ n, Apart SolverConfig.defaultPrompt.toList (marker (n + 1)).toList := by
    intro n
    obtain ⟨cs, hcs⟩ := exists_toList_marker (n + 1)
    rw [hcs]
    exact apart_of_not_mem (by decide)
  have hframes := (framesAnswers_of_apart SolverConfig.defaultPrompt).1 hapart
  exact ⟨hapart, serves_threePieces, hframes _ scripted _ _ _ _ rfl serves_threePieces⟩

end Session

end Punctual
