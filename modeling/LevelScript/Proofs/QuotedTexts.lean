/-
A text in quotes can be read back.

Every character in quotes stands for itself or is an escape that says where it ends: `Text.readEscaped` takes one off
the front of whatever follows. So different texts are different in quotes (`Text.quoted_injective`), and a text in
quotes is a single line whatever is quoted (`Text.quoted_line`).
-/
import Mathlib.Tactic
import LevelScript.Text.Quoted

namespace LevelScript.Text

/-! ## Hexadecimal digits -/

def hexDigitValue (c : Char) : Nat :=
  if c.isDigit then c.toNat - 48 else c.toNat - 87

def hexValue (digits : List Char) : Nat :=
  digits.foldl (fun n c => 16 * n + hexDigitValue c) 0

theorem hexDigitValue_digitChar : ∀ d < 16, hexDigitValue (Nat.digitChar d) = d := by decide

theorem hexValue_append (digits : List Char) (c : Char) :
    hexValue (digits ++ [c]) = 16 * hexValue digits + hexDigitValue c := by
  rw [hexValue, List.foldl_append]
  rfl

theorem hexValue_toDigits (n : Nat) : hexValue (Nat.toDigits 16 n) = n := by
  induction n using Nat.strong_induction_on with
  | h n ih =>
    rw [Nat.toDigits_eq_if (by norm_num)]
    split
    case isTrue hlt => exact (Nat.zero_add _).trans (hexDigitValue_digitChar n hlt)
    case isFalse hge =>
      rw [hexValue_append, ih _ (by omega), hexDigitValue_digitChar _ (Nat.mod_lt _ (by norm_num)), Nat.div_add_mod]

theorem hexValue_hexText (width n : Nat) : hexValue (hexText width n) = n := by
  rw [hexText, hexValue, List.foldl_append]
  have hzeros (count : Nat) : hexValue (List.replicate count '0') = 0 := by
    induction count with
    | zero => rfl
    | succ count ih =>
      rw [List.replicate_succ', hexValue_append, ih]
      rfl
  rw [← hexValue, hzeros]
  exact hexValue_toDigits n

theorem length_hexText {width n : Nat} (hwidth : 0 < width) (h : n < 16 ^ width) :
    (hexText width n).length = width := by
  have hle := (Nat.length_toDigits_le_iff (by norm_num) hwidth).2 h
  simp only [hexText, List.length_append, List.length_replicate]
  omega

theorem isHexDigit_of_mem_toDigits {n : Nat} : ∀ c ∈ Nat.toDigits 16 n, ∃ d < 16, c = Nat.digitChar d := by
  induction n using Nat.strong_induction_on with
  | h n ih =>
    rw [Nat.toDigits_eq_if (by norm_num)]
    intro c hc
    split at hc
    case isTrue hlt => exact ⟨n, hlt, List.mem_singleton.1 hc⟩
    case isFalse hge =>
      rcases List.mem_append.1 hc with hfront | hlast
      · exact ih _ (by omega) c hfront
      · exact ⟨_, Nat.mod_lt _ (by norm_num), List.mem_singleton.1 hlast⟩

theorem lineFeed_not_mem_hexText (width n : Nat) : '\n' ∉ hexText width n := by
  rw [hexText, List.mem_append]
  rintro (hzero | hdigit)
  · exact absurd (List.eq_of_mem_replicate hzero) (by decide)
  · obtain ⟨d, hd, heq⟩ := isHexDigit_of_mem_toDigits _ hdigit
    exact absurd heq ((by decide : ∀ d < 16, '\n' ≠ Nat.digitChar d) d hd)

/-! ## One character -/

/-- the character that the front of a text in quotes stands for, and what follows it -/
def readEscaped : List Char → Option (Char × List Char)
  | '\\' :: 't' :: rest => some ('\t', rest)
  | '\\' :: 'n' :: rest => some ('\n', rest)
  | '\\' :: 'r' :: rest => some ('\r', rest)
  | '\\' :: 'x' :: rest => some (Char.ofNat (hexValue (rest.take 2)), rest.drop 2)
  | '\\' :: 'u' :: rest => some (Char.ofNat (hexValue (rest.take 4)), rest.drop 4)
  | '\\' :: 'U' :: rest => some (Char.ofNat (hexValue (rest.take 8)), rest.drop 8)
  | '\\' :: c :: rest => some (c, rest)
  | c :: rest => some (c, rest)
  | [] => none

/-- an escape by the code of a character has a fixed width -/
theorem hexText_append (width : Nat) (hwidth : 0 < width) {c : Char} (h : c.toNat < 16 ^ width) (rest : List Char) :
    Char.ofNat (hexValue ((hexText width c.toNat ++ rest).take width)) = c ∧
      (hexText width c.toNat ++ rest).drop width = rest := by
  have hlength := length_hexText hwidth h
  rw [List.take_left' hlength, List.drop_left' hlength, hexValue_hexText, Char.ofNat_toNat]
  exact ⟨rfl, rfl⟩

/-- the characters that a backslash escapes as they are -/
theorem own_marks {quote c : Char} (hquote : quote = '\'' ∨ quote = '"') (h : c = quote ∨ c = '\\') :
    c = '\'' ∨ c = '"' ∨ c = '\\' := by
  rcases h with rfl | rfl
  · exact hquote.imp_right .inl
  · exact .inr (.inr rfl)

theorem readEscaped_escapedChar {quote : Char} (hquote : quote = '\'' ∨ quote = '"') (c : Char) (rest : List Char) :
    readEscaped (escapedChar quote c ++ rest) = some (c, rest) := by
  rw [escapedChar]
  split
  case isTrue hown =>
    -- the quote and the backslash stand for themselves behind a backslash
    rcases own_marks hquote hown with rfl | rfl | rfl <;> rfl
  case isFalse hown =>
    have hslash : c ≠ '\\' := fun h => hown (.inr h)
    have hcode : c.toNat < 0x110000 := by
      have := c.valid
      simp only [UInt32.isValidChar, Nat.isValidChar] at this
      simp only [Char.toNat]
      omega
    split_ifs with htab hfeed hreturn hinvisible hbyte hplane
    · rw [htab]; rfl
    · rw [hfeed]; rfl
    · rw [hreturn]; rfl
    · obtain ⟨hc, hrest⟩ := hexText_append 2 (by norm_num) hbyte rest
      simp only [List.cons_append, readEscaped, hc, hrest]
    · obtain ⟨hc, hrest⟩ := hexText_append 4 (by norm_num) hplane rest
      simp only [List.cons_append, readEscaped, hc, hrest]
    · obtain ⟨hc, hrest⟩ := hexText_append 8 (by norm_num) (hcode.trans (by norm_num)) rest
      simp only [List.cons_append, readEscaped, hc, hrest]
    · rw [List.singleton_append]
      cases rest <;> simp [readEscaped, hslash]

theorem lineFeed_not_mem_escapedChar {quote : Char} (hquote : quote = '\'' ∨ quote = '"') (c : Char) :
    '\n' ∉ escapedChar quote c := by
  rw [escapedChar]
  split_ifs with hown htab hfeed hreturn hinvisible hbyte hplane
  · rcases own_marks hquote hown with rfl | rfl | rfl <;> decide
  · decide
  · decide
  · decide
  · simp [lineFeed_not_mem_hexText]
  · simp [lineFeed_not_mem_hexText]
  · simp [lineFeed_not_mem_hexText]
  · exact fun h => hfeed (List.mem_singleton.1 h).symm

/-! ## A whole text -/

theorem quoteOf_cases (text : List Char) : quoteOf text = '\'' ∨ quoteOf text = '"' := by
  rw [quoteOf]
  split
  · exact .inr rfl
  · exact .inl rfl

theorem flatMap_escapedChar_injective {quote : Char} (hquote : quote = '\'' ∨ quote = '"') :
    Function.Injective fun text : List Char => text.flatMap (escapedChar quote) := by
  intro text text' h
  induction text generalizing text' with
  | nil =>
    cases text' with
    | nil => rfl
    | cons c' text' =>
      have hread := readEscaped_escapedChar hquote c' (text'.flatMap (escapedChar quote))
      rw [← List.flatMap_cons, ← show [] = (c' :: text').flatMap (escapedChar quote) from h] at hread
      cases hread
  | cons c text ih =>
    have hread := readEscaped_escapedChar hquote c (text.flatMap (escapedChar quote))
    rw [← List.flatMap_cons, show (c :: text).flatMap (escapedChar quote) = text'.flatMap (escapedChar quote) from h]
      at hread
    cases text' with
    | nil => cases hread
    | cons c' text' =>
      rw [List.flatMap_cons, readEscaped_escapedChar hquote] at hread
      simp only [Option.some.injEq, Prod.mk.injEq] at hread
      rw [hread.1, ih hread.2.symm]

/-- different texts are different in quotes -/
theorem quoted_injective : Function.Injective quoted := by
  intro text text' h
  have hchars := String.ofList_injective h
  simp only [List.cons_append, List.cons.injEq] at hchars
  obtain ⟨hquote, hrest⟩ := hchars
  rw [hquote, List.append_cancel_right_eq] at hrest
  exact String.toList_inj.1 (flatMap_escapedChar_injective (quoteOf_cases _) hrest)

/-- a text in quotes is a single line -/
theorem quoted_line (text : String) : '\n' ∉ (quoted text).toList := by
  have hquote := quoteOf_cases text.toList
  have hne : '\n' ≠ quoteOf text.toList := by rcases hquote with h | h <;> rw [h] <;> decide
  simp only [quoted, String.toList_ofList, List.mem_append, List.mem_cons, List.mem_flatMap, List.not_mem_nil, or_false,
    hne, false_or, not_exists, not_and]
  exact fun c _ => lineFeed_not_mem_escapedChar hquote c

end LevelScript.Text
