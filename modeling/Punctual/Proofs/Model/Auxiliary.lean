import Punctual.Proofs.Model.Keywords
import Punctual.Proofs.Model.Rendering

/-!
# Auxiliary modules of parsed texts

An auxiliary module is kept as one text, from its header to the line before the next header
(`HeadsModule`).  The lines of that text are lines of the source (`IsModuleOf`): this holds of every
state of the parser (`Progress.TakesModules`), one line at a time.  A kept module therefore begins
with its own header, holds no other one, and can be parsed again (`isModuleEntry_of_mem_modules`).
-/

namespace Punctual

open Text Fragment

namespace Fragment

variable {p : Progress} {ls : List String} {name : String}

/-! ## Lines of one module -/

/-- The lines begin with the header of a module and hold no other header. -/
def HeadsModule (name : String) (ls : List String) : Prop :=
  ∃ header rest, ls = header :: rest ∧ lineKind header = .header name ∧
    ∀ l ∈ rest, ∀ next, lineKind l ≠ .header next

/-- A module under a name, as a model holds it. -/
structure IsModuleEntry (e : String × String) : Prop where
  notMain : e.1 ≠ mainModule
  heads : HeadsModule e.1 (rows e.2)
  endsSolid : EndsSolid e.2.toList

theorem foldl_take_inModule (hls : ∀ l ∈ ls, ∀ next, lineKind l ≠ .header next)
    {ms : List String} (hp : p.current = .inModule name ms) :
    ls.foldl Progress.take p = { p with current := .inModule name (ms ++ ls) } := by
  induction ls generalizing p ms with
  | nil =>
      rw [List.foldl_nil, List.append_nil]
      obtain ⟨done, current, warnings⟩ := p
      dsimp only at hp
      rw [hp]
  | cons l ls ih =>
      rw [List.foldl_cons, take_inModule (hls l (by simp)) hp,
        ih (fun l' hl' => hls l' (List.mem_cons_of_mem _ hl')) rfl, List.append_assoc]
      rfl

/-! ## Modules along a text -/

/-- The text of a module goes back to these lines of a source. -/
structure IsModuleOf (source : List String) (name : String) (ms : List String) : Prop where
  notMain : name ≠ mainModule
  heads : HeadsModule name ms
  subset : ∀ l ∈ ms, l ∈ source

theorem IsModuleOf.mono {source source' ms : List String} (h : IsModuleOf source name ms)
    (hsource : ∀ l ∈ source, l ∈ source') : IsModuleOf source' name ms :=
  ⟨h.notMain, h.heads, fun l hl => hsource l (h.subset l hl)⟩

/-- The modules that have been parsed, and the current one, consist of lines of the source. -/
structure Progress.TakesModules (source : List String) (p : Progress) : Prop where
  done : ∀ e ∈ p.done.modules, ∃ ms, IsModuleOf source e.1 ms ∧ e.2 = trimEnd (unlines ms)
  current : ∀ name ms, p.current = .inModule name ms → IsModuleOf source name ms

theorem Progress.TakesModules.closed {source : List String} (h : p.TakesModules source) :
    ∀ e ∈ p.closed.modules, ∃ ms, IsModuleOf source e.1 ms ∧ e.2 = trimEnd (unlines ms) := by
  cases hp : p.current with
  | outside =>
      unfold Progress.closed
      rw [hp]
      exact h.done
  | inSection s =>
      unfold Progress.closed
      rw [hp]
      exact h.done
  | inModule name ms =>
      rw [closed_inModule hp]
      exact List.forall_mem_append.2
        ⟨h.done, List.forall_mem_singleton.2 ⟨ms, h.current name ms hp, rfl⟩⟩

/-- A line closes the current part or leaves the parts before it alone. -/
theorem done_take (p : Progress) (line : String) :
    (p.take line).done = p.done ∨ (p.take line).done = p.closed := by
  unfold Progress.take
  cases lineKind line <;> cases p.current <;> simp

theorem Progress.TakesModules.take {source : List String} (h : p.TakesModules source)
    (line : String) : (p.take line).TakesModules (source ++ [line]) := by
  have hold : ∀ l ∈ source, l ∈ source ++ [line] := fun l => List.mem_append_left _
  constructor
  · intro e he
    have hbefore : ∃ ms, IsModuleOf source e.1 ms ∧ e.2 = trimEnd (unlines ms) := by
      rcases done_take p line with hdone | hdone
      · exact h.done e (hdone ▸ he)
      · exact h.closed e (hdone ▸ he)
    obtain ⟨ms, hms, heq⟩ := hbefore
    exact ⟨ms, hms.mono hold, heq⟩
  · intro name ms hcurrent
    by_cases hheader : ∃ next, lineKind line = .header next
    · obtain ⟨next, hkind⟩ := hheader
      rw [take_header hkind] at hcurrent
      by_cases hmain : next = mainModule
      · simp [hmain] at hcurrent
      · obtain ⟨rfl, rfl⟩ := Current.inModule.inj ((if_neg hmain).symm.trans hcurrent)
        exact ⟨hmain, ⟨line, [], rfl, hkind, by simp⟩, by simp⟩
    · have hkind : ∀ next, lineKind line ≠ .header next := by simpa using hheader
      have hinside : p.current.isInside = true := by
        have hstays := isInside_take p line
        rw [hcurrent, staysInside_of_ne_header hkind] at hstays
        exact hstays.symm
      obtain ⟨name', ms', hp⟩ := exists_inModule hinside
      rw [take_inModule hkind hp] at hcurrent
      obtain ⟨rfl, rfl⟩ := Current.inModule.inj hcurrent
      obtain ⟨hmain, ⟨header, rest, rfl, hheads, hrest⟩, hsubset⟩ := h.current _ _ hp
      refine ⟨hmain, ⟨header, rest ++ [line], rfl, hheads, ?_⟩, ?_⟩
      · exact List.forall_mem_append.2 ⟨hrest, List.forall_mem_singleton.2 hkind⟩
      · exact List.forall_mem_append.2 ⟨fun l hl => hold l (hsubset l hl), by simp⟩

theorem takesModules_ofLines (ls : List String) : (ofLines ls).TakesModules ls := by
  induction ls using List.reverseRecOn with
  | nil => exact ⟨by simp [ofLines, Progress.start], by simp [ofLines, Progress.start]⟩
  | append_singleton ls l ih =>
      rw [ofLines_concat]
      exact ih.take l

/-- Blanks behind a module's text are of no account. -/
theorem headsModule_of_append_blanks {cs bs : List Char} (hbs : ∀ b ∈ bs, isBlank b)
    (h : HeadsModule name ((pieces (cs ++ bs)).map .ofList)) :
    HeadsModule name ((pieces cs).map .ofList) := by
  induction bs using List.reverseRecOn with
  | nil => rwa [List.append_nil] at h
  | append_singleton bs b ih =>
      refine ih (fun b' hb' => hbs b' (List.mem_append_left _ hb')) ?_
      rw [← List.append_assoc] at h
      obtain ⟨header, rest, heq, hheader, hrest⟩ := h
      by_cases hb : b = '\n'
      · subst hb
        rw [pieces_append_newline, List.map_append] at heq
        obtain ⟨p, ps, hps⟩ := List.exists_cons_of_ne_nil (pieces_ne_nil (cs ++ bs))
        rw [hps] at heq ⊢
        obtain ⟨rfl, rfl⟩ := List.cons.inj heq
        exact ⟨_, _, rfl, hheader, fun l hl => hrest l (List.mem_append_left _ hl)⟩
      · obtain ⟨init, last, hpieces, hmore⟩ := pieces_append_single (cs ++ bs) hb
        have hsame : lineKind (.ofList (last ++ [b])) = lineKind (.ofList last) :=
          lineKind_append_blanks last (List.forall_mem_singleton.2 (hbs b (by simp)))
        rw [hmore, List.map_append, List.map_singleton] at heq
        rw [hpieces, List.map_append, List.map_singleton]
        cases init with
        | nil =>
            obtain ⟨rfl, rfl⟩ := List.cons.inj heq
            rw [hsame] at hheader
            exact ⟨_, [], rfl, hheader, by simp⟩
        | cons p ps =>
            obtain ⟨rfl, rfl⟩ := List.cons.inj heq
            refine ⟨_, _, rfl, hheader, ?_⟩
            obtain ⟨hinit, hlast⟩ := List.forall_mem_append.1 hrest
            rw [List.forall_mem_singleton, hsame] at hlast
            exact List.forall_mem_append.2 ⟨hinit, List.forall_mem_singleton.2 hlast⟩

theorem IsModuleOf.headsModule_rows {source ms : List String} (h : IsModuleOf source name ms)
    (hfeed : ∀ l ∈ source, '\n' ∉ l.toList) : HeadsModule name (rows (trimEnd (unlines ms))) := by
  have hne : ms ≠ [] := by
    obtain ⟨header, rest, rfl, -, -⟩ := h.heads
    simp
  have hblanks : ∀ b ∈ (unlines ms).toList.rtakeWhile isBlank, isBlank b :=
    fun b => List.mem_rtakeWhile_imp
  have hheads : HeadsModule name ((pieces ((unlines ms).toList.rdropWhile isBlank ++
      (unlines ms).toList.rtakeWhile isBlank)).map .ofList) := by
    rw [List.rdropWhile_append_rtakeWhile]
    change HeadsModule name (rows (unlines ms))
    rw [rows_unlines hne fun l hl => hfeed l (h.subset l hl)]
    exact h.heads
  unfold rows
  rw [toList_trimEnd]
  exact headsModule_of_append_blanks hblanks hheads

theorem mem_unlines {ls : List String} {c : Char} (h : c ∈ (unlines ls).toList) :
    c = '\n' ∨ ∃ l ∈ ls, c ∈ l.toList := by
  induction ls with
  | nil => simp [unlines] at h
  | cons l ls ih =>
      by_cases hlast : ls = []
      · subst hlast
        exact .inr ⟨l, by simp, h⟩
      · rw [toList_unlines_cons hlast] at h
        rcases List.mem_append.1 h with hl | hrest
        · exact .inr ⟨l, by simp, hl⟩
        · rcases List.mem_cons.1 hrest with rfl | hrest
          · exact .inl rfl
          · rcases ih hrest with rfl | ⟨l', hl', hc⟩
            · exact .inl rfl
            · exact .inr ⟨l', List.mem_cons_of_mem _ hl', hc⟩

/-- The characters of the lines are those of the text. -/
theorem mem_of_mem_lines {source l : String} (hl : l ∈ lines source) {c : Char}
    (hc : c ∈ l.toList) : c ∈ source.toList := by
  obtain ⟨cs, hcs, rfl⟩ := List.mem_map.1 hl
  rw [String.toList_ofList] at hc
  obtain ⟨p, hp, hline⟩ := mem_linesOfPieces hcs
  have hpart : IsCutOut (· == '\n') p source.toList := isCutOut_of_mem_pieces (by simp) hp
  refine hpart.isInfix.subset ?_
  rcases hline with rfl | rfl
  · exact hc
  · unfold dropCarriageReturn at hc
    split at hc
    · exact List.dropLast_subset p hc
    · exact hc

/-- The modules of a parsed text are modules that can be parsed again. -/
theorem isModuleEntry_of_mem_modules {source : String} {e : String × String}
    (he : e ∈ (parse source).modules) : IsModuleEntry e := by
  obtain ⟨ms, hms, heq⟩ := (takesModules_ofLines (lines source)).closed e he
  have hheads := hms.headsModule_rows fun l => not_mem_of_mem_lines
  exact ⟨hms.notMain, heq ▸ hheads, ((parse_sound source).modules e he).endsSolid⟩

/-- A module holds no carriage return that its source does not hold. -/
theorem not_mem_of_mem_modules {source : String} {e : String × String}
    (hsource : '\r' ∉ source.toList) (he : e ∈ (parse source).modules) : '\r' ∉ e.2.toList := by
  obtain ⟨ms, hms, heq⟩ := (takesModules_ofLines (lines source)).closed e he
  intro hmem
  rw [heq, toList_trimEnd] at hmem
  rcases mem_unlines ((List.rdropWhile_prefix _ _).subset hmem) with hfeed | ⟨l, hl, hc⟩
  · exact absurd hfeed (by decide)
  · exact hsource (mem_of_mem_lines (hms.subset l hl) hc)

end Fragment

end Punctual
