import Mathlib.Data.List.Forall2
import Punctual.Json.Reader
import Punctual.Json.Writer
import Punctual.Number.Range
import Punctual.Proofs.Text.Numeral

/-!
# Scanning written data

Every written value is cut into tokens again as it was written: a text is one token that holds its
characters (`scans_writeText`), an integer of 64 bits is one token that holds the integer
(`scans_int`), and lists and objects are the tokens of their parts between brackets and commas.
This is so wherever a mark or the end of the text follows, which is where values stand.
-/

namespace Punctual.Json

/-- The text is cut into these tokens if a mark or nothing follows it. -/
def Scans (text : String) (ts : List Token) : Prop :=
  ∀ rest, (∀ c ∈ rest.head?, (punctuation? c).isSome) →
    tokens (text.toList ++ rest) = ts ++ tokens rest

/-! ## Single tokens -/

/-- The list of tokens breaks off at the token. -/
def Token.isBroken : Token → Bool
  | .broken _ _ _ => true
  | _ => false

theorem tokens_cons {c : Char} {cs rest : List Char} {t : Token} (hspace : isSpace c = false)
    (hscan : scanToken c cs = (t, rest)) (ht : t.isBroken = false) :
    tokens (c :: cs) = t :: tokens rest := by
  rw [tokens, hspace, if_neg (by simp), hscan]
  cases t <;> first | rfl | simp [Token.isBroken] at ht

/-- A mark is a token of its own. -/
theorem tokens_punctuation {c : Char} {t : Token} (h : punctuation? c = some t)
    (rest : List Char) : tokens (c :: rest) = t :: tokens rest := by
  have hscan : scanToken c rest = (t, rest) := by
    unfold scanToken
    rw [h]
  have hspace : isSpace c = false := by
    unfold punctuation? at h
    unfold isSpace
    grind
  refine tokens_cons hspace hscan ?_
  unfold punctuation? at h
  grind [Token.isBroken]

/-! ## Texts -/

section Text

variable {c : Char} {cs rest : List Char}

/-- Two hexadecimal digits tell a number below 256. -/
theorem hexDigit?_hexChar {n : Nat} (h : n < 16) : Text.hexDigit? (hexChar n) = some n := by
  have hall : (List.range 16).all fun n => Text.hexDigit? (hexChar n) = some n := by decide
  simpa using List.all_eq_true.1 hall n (List.mem_range.2 h)

theorem scanText_marked {e x : Char} (he : e ≠ 'u') (hx : escaped? e = some x) (cs : List Char) :
    scanText none ('\\' :: e :: cs) = (scanText none cs).push x := by
  rw [scanText.eq_def]
  simp only [he, hx]
  rfl

theorem scanText_unit {a b c d : Char} {n : Nat} (hn : hexUnit? a b c d = some n)
    (hlow : isLowHalf n = false) (hhigh : isHighHalf n = false) (cs : List Char) :
    scanText none ('\\' :: 'u' :: a :: b :: c :: d :: cs) = (scanText none cs).push (.ofNat n) := by
  rw [scanText.eq_def]
  simp only [hn, hlow, hhigh]
  rfl

theorem scanText_plain (hquote : c ≠ '"') (hbackslash : c ≠ '\\') (hcontrol : ¬ c.toNat < 0x20)
    (cs : List Char) : scanText none (c :: cs) = (scanText none cs).push c := by
  rw [scanText.eq_def]
  simp only [if_neg hquote, if_neg hbackslash, if_neg hcontrol]
  rfl

/-- A control character is written with the digits of its number. -/
theorem hexUnit?_control (h : c.toNat < 0x20) :
    hexUnit? '0' '0' (hexChar (c.toNat / 16)) (hexChar (c.toNat % 16)) = some c.toNat := by
  have hzero : Text.hexDigit? '0' = some 0 := by decide
  have hdigits : ((0 * 16 + 0) * 16 + c.toNat / 16) * 16 + c.toNat % 16 = c.toNat := by omega
  unfold hexUnit?
  rw [hzero, hexDigit?_hexChar (by omega), hexDigit?_hexChar (by omega)]
  exact congrArg some hdigits

/-- The escape of a character is read as the character. -/
theorem scanText_escape (c : Char) (cs : List Char) :
    scanText none (escape c ++ cs) = (scanText none cs).push c := by
  unfold escape
  split
  · next h => subst h; exact scanText_marked (by decide) (by decide) cs
  split
  · next h => subst h; exact scanText_marked (by decide) (by decide) cs
  split
  · next h => subst h; exact scanText_marked (by decide) (by decide) cs
  split
  · next h => subst h; exact scanText_marked (by decide) (by decide) cs
  split
  · next h => subst h; exact scanText_marked (by decide) (by decide) cs
  split
  · next h => subst h; exact scanText_marked (by decide) (by decide) cs
  split
  · next h => subst h; exact scanText_marked (by decide) (by decide) cs
  split
  · next hcontrol =>
      have hlow : isLowHalf c.toNat = false := by simp [isLowHalf]; omega
      have hhigh : isHighHalf c.toNat = false := by simp [isHighHalf]; omega
      have hread := scanText_unit (hexUnit?_control hcontrol) hlow hhigh cs
      rwa [Char.ofNat_toNat] at hread
  · next hquote hbackslash _ _ _ _ _ hcontrol =>
      exact scanText_plain hquote hbackslash hcontrol cs

/-- An escaped text is read up to the mark behind it. -/
theorem scanText_flatMap_escape (cs rest : List Char) :
    scanText none (cs.flatMap escape ++ '"' :: rest) = ⟨.ok cs, .ok (), rest⟩ := by
  induction cs with
  | nil =>
      rw [List.flatMap_nil, List.nil_append, scanText.eq_def]
      rfl
  | cons c cs ih =>
      rw [List.flatMap_cons, List.append_assoc, scanText_escape, ih]
      rfl

theorem scans_writeText (s : String) : Scans (writeText s) [.text (.ok s)] := by
  intro rest _
  have htext : (writeText s).toList = '"' :: (s.toList.flatMap escape ++ ['"']) := by
    simp only [writeText, String.toList_append, String.toList_ofList, List.append_assoc]
    rfl
  have hscan : scanToken '"' (s.toList.flatMap escape ++ '"' :: rest) = (.text (.ok s), rest) := by
    have hmark : punctuation? '"' = none := by decide
    unfold scanToken
    rw [hmark, scanText_flatMap_escape]
    simp [TextScan.token, Except.map]
  have hspace : isSpace '"' = false := by decide
  rw [htext, List.cons_append, List.append_assoc, List.singleton_append,
    tokens_cons hspace hscan rfl]
  rfl

end Text

/-! ## Integers -/

section Int

/-- A mark is no part of a number. -/
theorem not_number_of_punctuation {c : Char} (h : (punctuation? c).isSome) :
    c.isDigit = false ∧ c ≠ '.' ∧ c ≠ 'e' ∧ c ≠ 'E' := by
  unfold punctuation? at h
  have hmark : c = '[' ∨ c = ']' ∨ c = '\x7b' ∨ c = '\x7d' ∨ c = ':' ∨ c = ',' := by grind
  rcases hmark with rfl | rfl | rfl | rfl | rfl | rfl <;> decide

/-- Digits are taken in as long as their number fits. -/
theorem absorb_eq {ds : List Char} {mantissa : Nat}
    (h : ds.foldl (fun n d => n * 10 + (d.toNat - 0x30)) mantissa ≤ maxMantissa) :
    absorb mantissa ds = (ds.foldl (fun n d => n * 10 + (d.toNat - 0x30)) mantissa, []) := by
  induction ds generalizing mantissa with
  | nil => rfl
  | cons d ds ih =>
      have hgrows (ds : List Char) (n : Nat) :
          n ≤ ds.foldl (fun n d => n * 10 + (d.toNat - 0x30)) n := by
        induction ds generalizing n with
        | nil => exact Nat.le_refl n
        | cons d ds ih => exact Nat.le_trans (by omega) (ih (n * 10 + (d.toNat - 0x30)))
      rw [List.foldl_cons] at h ⊢
      have hnext := Nat.le_trans (hgrows ds _) h
      rw [absorb, if_neg (Nat.not_lt.2 hnext), ih h]

/-- No number but zero begins with a zero. -/
theorem head_toDigits (n : Nat) (h : 0 < n) : (Nat.toDigits 10 n).head? ≠ some '0' := by
  induction n using Nat.strongRecOn with
  | _ n ih =>
      by_cases hsmall : n < 10
      · have hall : (List.range 10).all fun n => n = 0 ∨ Nat.digitChar n ≠ '0' := by decide
        have hdigit := List.all_eq_true.1 hall n (List.mem_range.2 hsmall)
        rw [Nat.toDigits_of_lt_base hsmall]
        simp at hdigit ⊢
        omega
      · rw [Nat.toDigits_of_base_le (by decide) (by omega), List.head?_append]
        have hrest := ih (n / 10) (by omega) (by omega)
        obtain ⟨c, cs, hcs⟩ := List.exists_cons_of_ne_nil
          (Nat.toDigits_ne_nil (n := n / 10) (b := 10))
        rw [hcs] at hrest ⊢
        exact hrest

theorem toDigits_zero_or_head (n : Nat) :
    ¬ ((toString n).toList.head? = some '0' ∧ 1 < (toString n).toList.length) := by
  rw [Text.toList_toString]
  rcases Nat.eq_zero_or_pos n with rfl | h
  · decide
  · exact fun hzero => head_toDigits n h hzero.1

/-- The digits of a number are scanned as the number, with its sign. -/
theorem scanNumber_toString (negative : Bool) (n : Nat) {rest : List Char}
    (hrest : ∀ c ∈ rest.head?, (punctuation? c).isSome) :
    scanNumber negative ((toString n).toList ++ rest) =
      (.number (numberOf negative (toString n).toList none none), rest) := by
  have hdigits : ∀ c ∈ (toString n).toList, c.isDigit := fun c => Text.isDigit_of_mem_toString
  have hne : (toString n).toList.isEmpty = false :=
    List.isEmpty_eq_false_iff.2 (Text.toList_toString_ne_nil n)
  have htake : ((toString n).toList ++ rest).takeWhile Char.isDigit = (toString n).toList ∧
      ((toString n).toList ++ rest).dropWhile Char.isDigit = rest := by
    rw [List.takeWhile_append_of_pos hdigits, List.dropWhile_append_of_pos hdigits]
    cases rest with
    | nil => simp
    | cons c cs => simp [(not_number_of_punctuation (hrest c (by simp))).1]
  have hexponent : scanExponent negative (toString n).toList none rest =
      (.number (numberOf negative (toString n).toList none none), rest) := by
    cases rest with
    | nil => rfl
    | cons c cs =>
        obtain ⟨-, -, hlower, hupper⟩ := not_number_of_punctuation (hrest c (by simp))
        rw [scanExponent, if_neg (by simp [hlower, hupper])]
  unfold scanNumber
  dsimp only
  rw [htake.1, htake.2, hne, if_neg (by simp), if_neg (toDigits_zero_or_head n)]
  split
  · exact absurd rfl (not_number_of_punctuation (hrest '.' (by simp))).2.1
  · exact hexponent

theorem natOfDigits_eq (ds : List Char) :
    ds.foldl (fun n d => n * 10 + (d.toNat - 0x30)) 0 = Text.natOfDigits ds := rfl

theorem absorb_toString {n : Nat} (h : n ≤ maxMantissa) :
    absorb 0 (toString n).toList = (n, []) := by
  have habsorb := @absorb_eq (toString n).toList 0
  rw [natOfDigits_eq, Text.natOfDigits_toString] at habsorb
  exact habsorb h

/-- What begins with a digit is a number without a sign. -/
theorem scanToken_of_isDigit {d : Char} (h : d.isDigit) (cs : List Char) :
    isSpace d = false ∧ scanToken d cs = scanNumber false (d :: cs) := by
  have hne : ∀ x : Char, x.isDigit = false → d ≠ x := by
    rintro x hx rfl
    rw [h] at hx
    simp at hx
  have hmark : punctuation? d = none := by
    cases hd : punctuation? d with
    | none => rfl
    | some t =>
        have hdigit := (not_number_of_punctuation (c := d) (by simp [hd])).1
        rw [h] at hdigit
        simp at hdigit
  refine ⟨?_, ?_⟩
  · unfold isSpace
    simp [hne ' ' (by decide), hne '\t' (by decide), hne '\n' (by decide), hne '\r' (by decide)]
  · unfold scanToken
    rw [hmark]
    simp only [if_neg (hne '"' (by decide)), if_neg (hne 'n' (by decide)),
      if_neg (hne 't' (by decide)), if_neg (hne 'f' (by decide)), if_neg (hne '-' (by decide)), h,
      if_true]

/-- The digits of a number are one token. -/
theorem tokens_toString {n : Nat} {r : Except Flaw Number} {rest : List Char}
    (h : scanNumber false ((toString n).toList ++ rest) = (.number r, rest)) :
    tokens ((toString n).toList ++ rest) = .number r :: tokens rest := by
  obtain ⟨d, ds, hds⟩ := List.exists_cons_of_ne_nil (Text.toList_toString_ne_nil n)
  have hd : d.isDigit := by
    apply Text.isDigit_of_mem_toString (n := n)
    rw [hds]
    exact List.mem_cons_self
  obtain ⟨hspace, htoken⟩ := scanToken_of_isDigit hd (ds ++ rest)
  rw [hds, List.cons_append, ← htoken] at h
  rw [hds, List.cons_append, tokens_cons hspace h rfl]

theorem numberOf_toString {n : Nat} (h : n ≤ maxMantissa) :
    numberOf false (toString n).toList none none = .ok (.int n) := by
  simp only [numberOf, absorb_toString h]
  rfl

theorem numberOf_negated {n : Nat} (h : n + 1 ≤ 9223372036854775808) :
    numberOf true (toString (n + 1)).toList none none = .ok (.int (Int.negSucc n)) := by
  have hmantissa : n + 1 ≤ maxMantissa := by
    unfold maxMantissa
    omega
  have hfits : ¬ (n + 1 = 0 ∨ 9223372036854775808 < n + 1) := by omega
  simp only [numberOf, absorb_toString hmantissa, if_neg hfits]
  rfl

/-- An integer of 64 bits is one token. -/
theorem scans_int {n : Int} (h : Time.Fits n) : Scans (toString n) [.number (.ok (.int n))] := by
  intro rest hrest
  unfold Time.Fits Time.lowest Time.highest at h
  cases n with
  | ofNat n =>
      have hn : n ≤ maxMantissa := by
        simp only [Int.ofNat_eq_natCast] at h
        unfold maxMantissa
        omega
      have hscan := scanNumber_toString false n hrest
      rw [numberOf_toString hn] at hscan
      exact tokens_toString hscan
  | negSucc n =>
      have hsign : (toString (Int.negSucc n)).toList = '-' :: (toString (n + 1)).toList := by
        change ("-" ++ toString (n + 1)).toList = _
        rw [String.toList_append]
        rfl
      have hscan : scanToken '-' ((toString (n + 1)).toList ++ rest) =
          (.number (.ok (.int (Int.negSucc n))), rest) := by
        have hmark : punctuation? '-' = none := by decide
        unfold scanToken
        rw [hmark, ← numberOf_negated (n := n) (by omega)]
        exact scanNumber_toString true (n + 1) hrest
      rw [hsign, List.cons_append, tokens_cons (by decide) hscan rfl]
      rfl

end Int

/-! ## Lists and objects -/

/-- Lists of tokens with a separator between them. -/
def separated (tss : List (List Token)) : List Token :=
  [Token.comma].intercalate tss

/-- The tokens of a written list. -/
def listTokens (tss : List (List Token)) : List Token :=
  .listOpen :: separated tss ++ [.listClose]

/-- The tokens of a member of an object. -/
def memberTokens (name : String) (ts : List Token) : List Token :=
  .text (.ok name) :: .colon :: ts

/-- The tokens of a written object. -/
def objectTokens (members : List (String × List Token)) : List Token :=
  .objectOpen :: separated (members.map fun m => memberTokens m.1 m.2) ++ [.objectClose]

theorem separated_singleton (ts : List Token) : separated [ts] = ts :=
  List.intercalate_singleton

theorem separated_cons {tss : List (List Token)} (hne : tss ≠ []) (ts : List Token) :
    separated (ts :: tss) = ts ++ .comma :: separated tss := by
  rw [separated, List.intercalate_cons_of_ne_nil hne, List.append_assoc]
  rfl

/-- Texts between commas are scanned one after another. -/
theorem tokens_intercalate {items : List String} {tss : List (List Token)}
    (h : List.Forall₂ Scans items tss) {rest : List Char}
    (hrest : ∀ c ∈ rest.head?, (punctuation? c).isSome) :
    tokens ((",".intercalate items).toList ++ rest) = separated tss ++ tokens rest := by
  induction h with
  | nil => rfl
  | @cons item ts items tss hitem hitems ih =>
      by_cases hne : items = []
      · subst hne
        obtain rfl : tss = [] := List.forall₂_nil_left_iff.1 hitems
        rw [String.intercalate_singleton, separated_singleton]
        exact hitem rest hrest
      · have hne' : tss ≠ [] := by
          rintro rfl
          exact hne (List.forall₂_nil_right_iff.1 hitems)
        have htext : (",".intercalate (item :: items)).toList ++ rest =
            item.toList ++ (',' :: ((",".intercalate items).toList ++ rest)) := by
          rw [String.intercalate_cons_of_ne_nil hne]
          simp only [String.toList_append, List.append_assoc]
          rfl
        have hcomma : punctuation? ',' = some .comma := rfl
        rw [htext, hitem _ (by simp [hcomma]), tokens_punctuation hcomma, ih, separated_cons hne',
          List.append_assoc, List.cons_append]

theorem scans_writeList {items : List String} {tss : List (List Token)}
    (h : List.Forall₂ Scans items tss) : Scans (writeList items) (listTokens tss) := by
  intro rest _
  have htext : (writeList items).toList ++ rest =
      '[' :: ((",".intercalate items).toList ++ ']' :: rest) := by
    simp only [writeList, String.toList_append, List.append_assoc]
    rfl
  have hopen : punctuation? '[' = some .listOpen := rfl
  have hclose : punctuation? ']' = some .listClose := rfl
  rw [htext, tokens_punctuation hopen, tokens_intercalate h (by simp [hclose]),
    tokens_punctuation hclose, listTokens]
  simp

/-- A member is scanned as its name, a colon and its value. -/
theorem scans_member (name : String) {text : String} {ts : List Token} (h : Scans text ts) :
    Scans (writeText name ++ ":" ++ text) (memberTokens name ts) := by
  intro rest hrest
  have htext : (writeText name ++ ":" ++ text).toList ++ rest =
      (writeText name).toList ++ ':' :: (text.toList ++ rest) := by
    simp only [String.toList_append, List.append_assoc]
    rfl
  have hcolon : punctuation? ':' = some .colon := rfl
  rw [htext, scans_writeText name _ (by simp [hcolon]), tokens_punctuation hcolon, h rest hrest]
  rfl

theorem scans_writeObject {ms : List (String × String)} {tss : List (String × List Token)}
    (h : List.Forall₂ (fun m ts => m.1 = ts.1 ∧ Scans m.2 ts.2) ms tss) :
    Scans (writeObject ms) (objectTokens tss) := by
  intro rest _
  have hmembers : List.Forall₂ Scans (ms.map fun m => writeText m.1 ++ ":" ++ m.2)
      (tss.map fun m => memberTokens m.1 m.2) := by
    rw [List.forall₂_map_left_iff, List.forall₂_map_right_iff]
    refine h.imp fun m ts hm => ?_
    rw [← hm.1]
    exact scans_member m.1 hm.2
  have htext : (writeObject ms).toList ++ rest = '\x7b' ::
      ((",".intercalate (ms.map fun m => writeText m.1 ++ ":" ++ m.2)).toList ++
        '\x7d' :: rest) := by
    simp only [writeObject, String.toList_append, List.append_assoc]
    rfl
  have hopen : punctuation? '\x7b' = some .objectOpen := rfl
  have hclose : punctuation? '\x7d' = some .objectClose := rfl
  rw [htext, tokens_punctuation hopen, tokens_intercalate hmembers (by simp [hclose]),
    tokens_punctuation hclose, objectTokens]
  simp

end Punctual.Json
