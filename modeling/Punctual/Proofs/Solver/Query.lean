import Mathlib.Data.List.Chain
import Punctual.Proofs.Solver.Framing
import Punctual.Proofs.Specification.Reading
import Punctual.Proofs.Text.Cuts
import Punctual.Proofs.Text.Separated

/-!
# Queries and the verdicts about them

A query sends a formula to the solver, and the solver may echo the formula wherever it likes in its
answer. Whatever unit and task are called, the formula can stand between quotes on a line
(`Target.isQuotable_reachedBy`), and its echoes cannot be mistaken for a verdict, since no word of
it follows a blank (`Session.isSilent_pathFormula`). So an answer says what it says apart from the
echoes (`Session.getPath_echoed`).
-/

namespace Punctual

open Text

/-! ## Texts that can be quoted -/

/-- A printable character of ASCII, but no quote. -/
def isQuotableChar (c : Char) : Bool :=
  32 ≤ c.toNat && c.toNat ≤ 126 && c != '"'

/-- The text can stand between quotes on a single line. -/
def IsQuotable (s : String) : Prop :=
  s.toList.all isQuotableChar

instance (s : String) : Decidable (IsQuotable s) :=
  inferInstanceAs (Decidable (s.toList.all isQuotableChar = true))

section Quotable

variable {s t : String}

theorem isQuotable_iff : IsQuotable s ↔ ∀ c ∈ s.toList, isQuotableChar c :=
  List.all_eq_true

theorem IsQuotable.append (hs : IsQuotable s) (ht : IsQuotable t) : IsQuotable (s ++ t) := by
  unfold IsQuotable
  rw [String.toList_append, List.all_append, Bool.and_eq_true]
  exact ⟨hs, ht⟩

theorem IsQuotable.not_mem (h : IsQuotable s) {c : Char} (hc : isQuotableChar c = false) :
    c ∉ s.toList := by
  intro hmem
  rw [isQuotable_iff.1 h c hmem] at hc
  exact Bool.false_ne_true hc.symm

theorem isAlpha_iff_toNat {c : Char} :
    c.isAlpha ↔ (65 ≤ c.toNat ∧ c.toNat ≤ 90) ∨ (97 ≤ c.toNat ∧ c.toNat ≤ 122) := by
  unfold Char.isAlpha Char.isUpper Char.isLower
  simp only [Bool.or_eq_true, Bool.and_eq_true, decide_eq_true_eq, UInt32.le_iff_toNat_le,
    ge_iff_le]
  exact Iff.rfl

theorem isDigit_iff_toNat {c : Char} : c.isDigit ↔ 48 ≤ c.toNat ∧ c.toNat ≤ 57 :=
  Char.isDigit_iff_toNat

theorem isQuotableChar_of_isAlphanum {c : Char} (h : c.isAlphanum) : isQuotableChar c := by
  unfold Char.isAlphanum at h
  rw [Bool.or_eq_true, isAlpha_iff_toNat, isDigit_iff_toNat] at h
  have hquote : c ≠ '"' := by
    rintro rfl
    exact absurd h (by decide)
  have hprintable : 32 ≤ c.toNat ∧ c.toNat ≤ 126 := by omega
  simp [isQuotableChar, hprintable, hquote]

theorem isQuotableChar_of_isVariableChar {c : Char} (h : isVariableChar c) : isQuotableChar c := by
  simp only [isVariableChar, Bool.or_eq_true, beq_iff_eq] at h
  rcases h with (((((halnum | rfl) | rfl) | rfl) | rfl) | rfl) | rfl
  · exact isQuotableChar_of_isAlphanum halnum
  all_goals decide

theorem isQuotable_toString (n : Nat) : IsQuotable (toString n) :=
  isQuotable_iff.2 fun _ hc => isQuotableChar_of_isVariableChar
    (isVariableChar_of_isDigit (isDigit_of_mem_toString hc))

theorem isQuotable_toString_time (time : Time) : IsQuotable (toString time) := by
  cases time with
  | ofNat n => exact isQuotable_toString n
  | negSucc n =>
      have hminus : IsQuotable "-" := by decide
      exact hminus.append (isQuotable_toString (n + 1))

theorem Target.isQuotable_reachedBy (g : Target) (time : Time) : IsQuotable (g.reachedBy time) := by
  have hopen : IsQuotable "(" := by decide
  have hequals : IsQuotable " = " := by decide
  have hbetween : IsQuotable ") & (" := by decide
  have htime : IsQuotable PlantState.timeVariable := by decide
  have hatMost : IsQuotable " <= " := by decide
  have hclose : IsQuotable ")" := by decide
  have hcounter : IsQuotable g.counter := isQuotable_iff.2 fun c hc =>
    isQuotableChar_of_isVariableChar (g.isVariableName_counter.chars c hc)
  exact (((((((hopen.append hcounter).append hequals).append (isQuotable_toString _)).append
    hbetween).append htime).append hatMost).append (isQuotable_toString_time _)).append hclose

end Quotable

/-! ## Words in echoed texts -/

/-- The words do not stand in the formula, and they cannot reach into it, since it begins and ends
with characters that they do not have. -/
structure IsSilent (words formula : List Char) : Prop where
  absent : ¬ words <:+: formula
  front : ∃ c cs, formula = c :: cs ∧ c ∉ words
  back : ∃ cs c, formula = cs ++ [c] ∧ c ∉ words

section Silent

variable {words formula xs ys : List Char}

theorem IsSilent.ne_nil (h : IsSilent words formula) : words ≠ [] := by
  rintro rfl
  exact h.absent List.nil_infix

/-- Around a silent formula, the words stand on one of its sides. -/
theorem IsSilent.infix_append_iff (h : IsSilent words formula) :
    words <:+: xs ++ (formula ++ ys) ↔ words <:+: xs ∨ words <:+: ys := by
  obtain ⟨c, cs, hfront, hc⟩ := h.front
  obtain ⟨ds, d, hback, hd⟩ := h.back
  have hinner : words <:+: formula ++ ys ↔ words <:+: ys := by
    have hds : ¬ words <:+: ds := fun hinfix =>
      h.absent (hback ▸ hinfix.trans (List.prefix_append ds [d]).isInfix)
    have hstart : ¬ words <+: d :: ys := by
      rw [← List.nil_append (d :: ys), prefix_append_cons_iff hd, List.prefix_nil]
      exact h.ne_nil
    rw [hback, List.append_assoc, List.singleton_append, infix_append_cons_iff hd h.ne_nil,
      List.infix_cons_iff]
    simp only [hds, hstart, false_or]
  rw [← hinner, hfront, List.cons_append, infix_append_cons_iff hc h.ne_nil]

end Silent

/-- A line in which a formula is echoed between some parts. -/
def echoed (formula : String) (parts : List String) : String :=
  formula.intercalate parts

/-- The words stand in a line, its echoes aside. -/
def Says (words : String) (parts : List String) : Prop :=
  ∃ part ∈ parts, Text.contains part words

instance (words : String) (parts : List String) : Decidable (Says words parts) :=
  inferInstanceAs (Decidable (∃ part ∈ parts, Text.contains part words))

/-- Echoes of a silent formula make no difference to what a line says. -/
theorem contains_echoed_iff {words formula : String}
    (h : IsSilent words.toList formula.toList) (parts : List String) :
    Text.contains (echoed formula parts) words ↔ Says words parts := by
  rw [Text.contains_iff]
  induction parts with
  | nil => simpa [echoed, Says] using h.ne_nil
  | cons part parts ih =>
      unfold Says at ih ⊢
      rw [List.exists_mem_cons_iff, ← ih, Text.contains_iff]
      by_cases hlast : parts = []
      · subst hlast
        simp [echoed, h.ne_nil]
      · rw [echoed, String.intercalate_cons_of_ne_nil hlast, String.toList_append,
          String.toList_append, List.append_assoc, h.infix_append_iff]
        rfl

/-! ## Formulas of queries -/

/-- No word begins behind a blank. -/
def NoWordFollowsBlank (cs : List Char) : Prop :=
  cs.IsChain fun c d => c = ' ' → d.isAlpha = false

section Joined

variable {cs ds words : List Char}

theorem NoWordFollowsBlank.append (h : ' ' ∉ cs) (hds : NoWordFollowsBlank ds) :
    NoWordFollowsBlank (cs ++ ds) := by
  induction cs with
  | nil => exact hds
  | cons c cs ih =>
      obtain ⟨hc, hrest⟩ := not_or.1 (List.mem_cons.not.1 h)
      exact List.isChain_cons.2 ⟨fun d _ hblank => absurd hblank.symm hc, ih hrest⟩

theorem noWordFollowsBlank_of_not_mem (h : ' ' ∉ cs) : NoWordFollowsBlank cs :=
  List.append_nil cs ▸ NoWordFollowsBlank.append h List.isChain_nil

theorem NoWordFollowsBlank.spaced (hstart : ∃ d rest, cs = d :: rest ∧ d.isAlpha = false)
    (h : ' ' ∉ cs) (hds : NoWordFollowsBlank ds) : NoWordFollowsBlank (' ' :: (cs ++ ds)) := by
  have hrest := hds.append h
  obtain ⟨d, rest, rfl, hd⟩ := hstart
  exact List.isChain_cons_cons.2 ⟨fun _ => hd, hrest⟩

/-- Two words with a blank between them do not stand in such a text. -/
theorem NoWordFollowsBlank.free (h : NoWordFollowsBlank cs) {letter : Char}
    (hletter : letter.isAlpha) (hpair : [' ', letter] <:+: words) : ¬ words <:+: cs := by
  intro hwords
  have hchain := List.IsChain.infix h (hpair.trans hwords)
  have hplain := List.isChain_pair.1 hchain rfl
  rw [hletter] at hplain
  exact Bool.false_ne_true hplain.symm

end Joined

theorem not_isAlpha_of_isDigit {c : Char} (h : c.isDigit) : c.isAlpha = false := by
  rw [← Bool.not_eq_true, isAlpha_iff_toNat]
  have hdigit := isDigit_iff_toNat.1 h
  omega

theorem exists_cons_toString (n : Nat) :
    ∃ d rest, (toString n).toList = d :: rest ∧ d.isAlpha = false := by
  obtain ⟨d, rest, hdigits⟩ := List.exists_cons_of_ne_nil (toList_toString_ne_nil n)
  have hmem : d ∈ (toString n).toList := hdigits ▸ List.mem_cons_self
  exact ⟨d, rest, hdigits, not_isAlpha_of_isDigit (isDigit_of_mem_toString hmem)⟩

theorem exists_cons_toString_time (time : Time) :
    ∃ d rest, (toString time).toList = d :: rest ∧ d.isAlpha = false := by
  cases time with
  | ofNat n => exact exists_cons_toString n
  | negSucc n => exact ⟨'-', (toString (n + 1)).toList, String.toList_append, by decide⟩

namespace Session

/-- The formula that is checked when a target is asked for. -/
def pathFormula (target : String) : String :=
  "AG !(" ++ target ++ ")"

variable (g : Target) (time : Time)

theorem noWordFollowsBlank_pathFormula :
    NoWordFollowsBlank (pathFormula (g.reachedBy time)).toList := by
  have hcounter : ' ' ∉ g.counter.toList := g.isVariableName_counter.not_mem (by decide)
  have hcount : ' ' ∉ (toString g.count).toList := not_mem_toString (by decide) _
  have htime : ' ' ∉ (toString time).toList := not_mem_toString_time (by decide) (by decide) _
  have hshown : (pathFormula (g.reachedBy time)).toList =
      "AG".toList ++ ' ' :: ("!((".toList ++ (g.counter.toList ++ ' ' :: ("=".toList ++ ' ' ::
        ((toString g.count).toList ++ (")".toList ++ ' ' :: ("&".toList ++ ' ' ::
          ("(time".toList ++ ' ' :: ("<=".toList ++ ' ' ::
            ((toString time).toList ++ "))".toList))))))))) := by
    unfold pathFormula Target.reachedBy
    simp only [String.toList_append, List.append_assoc]
    rfl
  rw [hshown]
  -- one step for each blank
  refine .append (by decide) (.spaced ⟨_, _, rfl, by decide⟩ (by decide) (.append hcounter ?_))
  refine .spaced ⟨_, _, rfl, by decide⟩ (by decide) ?_
  refine .spaced (exists_cons_toString _) hcount (.append (by decide) ?_)
  refine .spaced ⟨_, _, rfl, by decide⟩ (by decide) ?_
  refine .spaced ⟨_, _, rfl, by decide⟩ (by decide) ?_
  refine .spaced ⟨_, _, rfl, by decide⟩ (by decide) ?_
  exact .spaced (exists_cons_toString_time _) htime (noWordFollowsBlank_of_not_mem (by decide))

/-- Two words that begin with small letters cannot stand in the formula, nor reach into it. -/
theorem isSilent_pathFormula {words : List Char} (letter : Char) (hletter : letter.isAlpha)
    (hpair : [' ', letter] <:+: words) (hfront : 'A' ∉ words) (hback : ')' ∉ words) :
    IsSilent words (pathFormula (g.reachedBy time)).toList := by
  have hfirst : (pathFormula (g.reachedBy time)).toList =
      'A' :: ("G !(" ++ g.reachedBy time ++ ")").toList := by
    simp only [pathFormula, String.toList_append, List.append_assoc]
    rfl
  have hlast : (pathFormula (g.reachedBy time)).toList =
      ("AG !(" ++ g.reachedBy time).toList ++ [')'] := by
    rw [pathFormula, String.toList_append]
    rfl
  exact ⟨(noWordFollowsBlank_pathFormula g time).free hletter hpair, ⟨_, _, hfirst, hfront⟩,
    ⟨_, _, hlast, hback⟩⟩

theorem isSilent_refutedWords :
    IsSilent Output.refutedWords.toList (pathFormula (g.reachedBy time)).toList :=
  isSilent_pathFormula g time 'f' (by decide) ⟨"is".toList, "alse".toList, rfl⟩ (by decide)
    (by decide)

theorem isSilent_provenWords :
    IsSilent Output.provenWords.toList (pathFormula (g.reachedBy time)).toList :=
  isSilent_pathFormula g time 't' (by decide) ⟨"is".toList, "rue".toList, rfl⟩ (by decide)
    (by decide)

/-! ## Answers to queries -/

variable {τ : Type} {p : Peer τ} {s s' : Session τ} {target : String}
  {answer before after : List String} {line : String}

/-- The path is what stands behind the first line with a refutation. -/
theorem classify_refuted (hbefore : ∀ l ∈ before, ¬ Text.contains l Output.refutedWords)
    (hline : Text.contains line Output.refutedWords) :
    classify (before ++ line :: after) = .ok (some (unlines after)) := by
  have hskipped : (before ++ line :: after).dropWhile
      (fun l => !Text.contains l Output.refutedWords) = line :: after := by
    rw [List.dropWhile_append_of_pos fun l hl => by simpa using hbefore l hl]
    simp [hline]
  rw [classify, hskipped]

/-- There is no path if the property was proven and nothing was refuted. -/
theorem classify_proven (hnone : ∀ l ∈ answer, ¬ Text.contains l Output.refutedWords)
    (hline : line ∈ answer) (hproven : Text.contains line Output.provenWords) :
    classify answer = .ok none := by
  have hskipped : answer.dropWhile (fun l => !Text.contains l Output.refutedWords) = [] :=
    List.dropWhile_eq_nil_iff.2 fun l hl => by simpa using hnone l hl
  have hany : answer.any (Text.contains · Output.provenWords) :=
    List.any_eq_true.2 ⟨line, hline, hproven⟩
  rw [classify, hskipped]
  exact if_pos hany

/-- A query gives what its answer says. -/
theorem getPath_of_execute {path : Option String}
    (h : execute p (pathCommand target) s = .ok answer s')
    (hclassified : classify answer = .ok path) : getPath p target s = .ok path s' := by
  unfold getPath
  simp only [bind, EStateM.bind, h, hclassified]
  rfl

/-- A command of one line is written as one line, with the request for the marker behind it. -/
theorem lines_request {command : String} (hline : IsLine command)
    (hsolid : EndsSolid command.toList) (n : Nat) :
    lines (request command n) = [command, "echo " ++ marker n] := by
  have hecho : IsLine ("echo " ++ marker n) := by
    have hword : IsLine "echo " := by decide
    exact hword.append (isLine_marker n)
  have hechoSolid : EndsSolid ("echo " ++ marker n).toList := by
    rw [String.toList_append]
    exact (endsSolid_marker n).append_left _
  have hended : request command n = linesEnded [command, "echo " ++ marker n] := by
    rw [linesEnded_cons, linesEnded_singleton, request]
    simp only [String.append_assoc]
  rw [hended, lines_linesEnded]
  · exact List.forall_mem_cons.2 ⟨hline, List.forall_mem_singleton.2 hecho⟩
  · have hreturn : isBlank '\r' := by decide
    exact List.forall_mem_cons.2 ⟨hsolid.getLast?_ne hreturn,
      List.forall_mem_singleton.2 (hechoSolid.getLast?_ne hreturn)⟩

theorem pathCommand_eq (target : String) :
    pathCommand target = "check_ctlspec -p \"" ++ pathFormula target ++ "\"" := by
  have hopen : "check_ctlspec -p \"AG !(" = "check_ctlspec -p \"" ++ "AG !(" := by
    decide +kernel
  have hclose : ")\"" = ")" ++ "\"" := by
    decide +kernel
  -- rewriting with the first equation would open the literals
  calc pathCommand target
    _ = ("check_ctlspec -p \"" ++ "AG !(") ++ target ++ (")" ++ "\"") :=
        congrArg₂ (fun front back => front ++ target ++ back) hopen hclose
    _ = "check_ctlspec -p \"" ++ pathFormula target ++ "\"" := by
        unfold pathFormula
        simp only [String.append_assoc]

theorem isQuotable_pathFormula : IsQuotable (pathFormula (g.reachedBy time)) := by
  have hopen : IsQuotable "AG !(" := by decide
  have hclose : IsQuotable ")" := by decide
  exact (hopen.append (g.isQuotable_reachedBy time)).append hclose

/-- A query is written on a line of its own. -/
theorem lines_request_pathCommand (n : Nat) :
    lines (request (pathCommand (g.reachedBy time)) n) =
      [pathCommand (g.reachedBy time), "echo " ++ marker n] := by
  have hopen : IsLine "check_ctlspec -p \"" := by decide
  have hclose : IsLine "\"" := by decide
  have hformula : IsLine (pathFormula (g.reachedBy time)) :=
    (isQuotable_pathFormula g time).not_mem (by decide)
  rw [pathCommand_eq]
  refine lines_request ((hopen.append hformula).append hclose) ?_ n
  rw [String.toList_append]
  exact (endsSolid_singleton (c := '"') (by decide)).append_left _

/-- The quotes around the formula are the only ones. -/
theorem count_pathCommand : (pathCommand (g.reachedBy time)).toList.count '"' = 2 := by
  have hformula : '"' ∉ (pathFormula (g.reachedBy time)).toList :=
    (isQuotable_pathFormula g time).not_mem (by decide)
  rw [pathCommand_eq, String.toList_append, String.toList_append, List.count_append,
    List.count_append, List.count_eq_zero_of_not_mem hformula]
  decide

/-- A query is one line in which exactly the formula is quoted, and the formula has none of the words
of a verdict. So an answer that echoes it, wherever and however often, says what the rest of it says:
with a refutation behind an echo, the path is what stands behind this line, and with a proof there is
none, whatever unit and task are called. -/
theorem getPath_echoed (p : Peer τ) (g : Target) (time : Time) :
    (pathCommand (g.reachedBy time) =
        "check_ctlspec -p \"" ++ pathFormula (g.reachedBy time) ++ "\"" ∧
      (pathCommand (g.reachedBy time)).toList.count '"' = 2 ∧
      IsQuotable (pathFormula (g.reachedBy time)) ∧
      ∀ n, lines (request (pathCommand (g.reachedBy time)) n) =
        [pathCommand (g.reachedBy time), "echo " ++ marker n]) ∧
    ¬ Text.contains (pathFormula (g.reachedBy time)) Output.refutedWords ∧
    ¬ Text.contains (pathFormula (g.reachedBy time)) Output.provenWords ∧
    ∀ (s s' : Session τ) (before after : List (List String)) (lead tail : String),
      execute p (pathCommand (g.reachedBy time)) s =
          .ok ((before ++ [lead, tail] :: after).map (echoed (pathFormula (g.reachedBy time)))) s' →
        ((∀ line ∈ before, ¬ Says Output.refutedWords line) →
          Text.contains tail Output.refutedWords →
          getPath p (g.reachedBy time) s =
            .ok (some (unlines (after.map (echoed (pathFormula (g.reachedBy time)))))) s') ∧
        ((∀ line ∈ before ++ [lead, tail] :: after, ¬ Says Output.refutedWords line) →
          Text.contains tail Output.provenWords →
          getPath p (g.reachedBy time) s = .ok none s') := by
  have hrefuted := isSilent_refutedWords g time
  have hproven := isSilent_provenWords g time
  refine ⟨⟨pathCommand_eq _, count_pathCommand g time, isQuotable_pathFormula g time,
    lines_request_pathCommand g time⟩, ?_, ?_, ?_⟩
  · exact fun h => hrefuted.absent (Text.contains_iff.1 h)
  · exact fun h => hproven.absent (Text.contains_iff.1 h)
  intro s s' before after lead tail hexecute
  constructor
  · intro hbefore htail
    refine getPath_of_execute hexecute ?_
    rw [List.map_append, List.map_cons]
    refine classify_refuted ?_ ?_
    · intro l hl
      obtain ⟨line, hline, rfl⟩ := List.mem_map.1 hl
      rw [contains_echoed_iff hrefuted]
      exact hbefore line hline
    · rw [contains_echoed_iff hrefuted]
      exact ⟨tail, by simp, htail⟩
  · intro hnone htail
    refine getPath_of_execute hexecute (classify_proven ?_ (List.mem_map_of_mem
      (List.mem_append_right _ List.mem_cons_self)) ?_)
    · intro l hl
      obtain ⟨line, hline, rfl⟩ := List.mem_map.1 hl
      rw [contains_echoed_iff hrefuted]
      exact hnone line hline
    · rw [contains_echoed_iff hproven]
      exact ⟨tail, by simp, htail⟩

/-! ### Names that read like verdicts -/

theorem execute_of_replies {command : String}
    (hprompt : Apart s.prompt.toList (marker (s.sent + 1)).toList)
    (h : Replies p s command (.ok answer) s') : execute p command s = .ok answer s' := by
  have hattempt := attempt_of_replies hprompt h
  unfold attempt at hattempt
  split at hattempt
  · next hexecute =>
      obtain ⟨hanswer, rfl⟩ := Prod.mk.inj hattempt
      obtain rfl := Except.ok.inj hanswer
      exact hexecute
  · next hexecute => exact absurd (Prod.mk.inj hattempt).1 (by simp)

/-- A program prints lines that are shown as they are, and the marker. -/
theorem execute_scripted {prompt : String} {n : Nat} (command : String) (texts : List String)
    (pieces : List (List UInt8)) (hprompt : Apart prompt.toList (marker (n + 1)).toList)
    (htexts : ∀ l ∈ texts, IsLine l ∧ ¬ Text.contains l (marker (n + 1)))
    (hshown : ∀ l ∈ texts, ¬ prompt.toList <+: (l ++ "\n").toList ∧ trimEnd (l ++ "\n") = l) :
    execute scripted command ⟨prompt, n, [],
        (texts.flatMap lineBytes ++ lineBytes (marker (n + 1))) :: pieces⟩ =
      .ok texts ⟨prompt, n + 1, [], pieces⟩ := by
  have hclosing : IsLine (marker (n + 1)) ∧ Text.contains (marker (n + 1)) (marker (n + 1)) :=
    ⟨isLine_marker (n + 1), contains_marker_iff.2 rfl⟩
  have hbs : StartsWithLine (marker (n + 1)) (lineBytes (marker (n + 1))) [] := by
    have hfed := StartsWithLine.fed (l := marker (n + 1)) []
    rwa [List.append_nil] at hfed
  have hall : List.Forall₂ (IsShown prompt) texts texts := by
    refine List.forall₂_same.2 fun l hl => ⟨0, (l ++ "\n").toList, rfl, ?_, ?_⟩
    · exact fun hleading => absurd hleading (hshown l hl).1
    · rw [String.ofList_toList, (hshown l hl).2]
  exact execute_of_replies hprompt (.answered rfl rfl htexts hbs hclosing hall)

/-- The unit is called like a refutation, and a quote and a line feed are behind it. -/
def misleading : Target :=
  ⟨"is false\"\n", "is true", 2, 9⟩

theorem getPath_echoed_misleading :
    let refuting := [[" about ", ", which is true?"], ["-- ", "  is false"], ["-- for ", ":"],
      ["  -> State: 1.1 <-"]]
    let proving := [["-- ", "  is true"]]
    let formula := "AG !((COUNT_is_false___is_true = 2) & (time <= -7))"
    let printed (n : Nat) (answer : List (List String)) :=
      (answer.map (echoed formula)).flatMap lineBytes ++ lineBytes (marker n)
    let s : Session _ := start SolverConfig.defaultPrompt [printed 1 refuting, printed 2 proving]
    ∃ s' s'',
      getPath scripted (misleading.reachedBy (-7)) s =
        .ok (some ("-- for " ++ formula ++ ":\n  -> State: 1.1 <-")) s' ∧
      getPath scripted (misleading.reachedBy (-7)) s' = .ok none s'' := by
  intro refuting proving formula printed s
  have hformula : pathFormula (misleading.reachedBy (-7)) = formula := by decide +kernel
  have hprompt (n : Nat) : Apart SolverConfig.defaultPrompt.toList (marker (n + 1)).toList := by
    obtain ⟨cs, hcs⟩ := exists_toList_marker (n + 1)
    rw [hcs]
    exact apart_of_not_mem (by decide)
  have hfirst := execute_scripted (pathCommand (misleading.reachedBy (-7)))
    (refuting.map (echoed formula)) [printed 2 proving] (hprompt 0) (by decide +kernel)
    (by decide +kernel)
  have hsecond := execute_scripted (pathCommand (misleading.reachedBy (-7)))
    (proving.map (echoed formula)) [] (hprompt 1) (by decide +kernel) (by decide +kernel)
  rw [← hformula] at hfirst hsecond
  obtain ⟨-, -, -, hverdicts⟩ := getPath_echoed scripted misleading (-7)
  have hrefuted := (hverdicts _ _ [[" about ", ", which is true?"]] [["-- for ", ":"],
    ["  -> State: 1.1 <-"]] "-- " "  is false" hfirst).1 (by decide +kernel) (by decide +kernel)
  have hproven := (hverdicts _ _ [] [] "-- " "  is true" hsecond).2 (by decide +kernel)
    (by decide +kernel)
  have hpath : unlines ([["-- for ", ":"], ["  -> State: 1.1 <-"]].map (echoed formula)) =
      "-- for " ++ formula ++ ":\n  -> State: 1.1 <-" := by
    decide +kernel
  rw [hformula, hpath] at hrefuted
  exact ⟨_, _, hrefuted, hproven⟩

end Session

end Punctual
