import TemplateLexer.Text.Unprintable

/-!
# Quoted texts

A text is shown on one line between double quotation marks. A quotation mark and a backslash take
a backslash, NUL, tab, line feed and carriage return have a mark of their own, and every other
character that would not show is written by its code point. The quoted form holds no line feed
(`newline_not_mem_quote`), so it fits on a line.
-/

set_option autoImplicit false

namespace TemplateLexer.Quoted

/-- The mark that stands for a character behind a backslash. -/
def letter? : Char → Option Char
  | '\x00' => some '0'
  | '\t' => some 't'
  | '\n' => some 'n'
  | '\r' => some 'r'
  | '"' => some '"'
  | '\\' => some '\\'
  | _ => none

/-- The code point of a character in lower-case hexadecimal digits, in braces. -/
def codePoint (c : Char) : List Char :=
  ['\\', 'u', '\x7b'] ++ Nat.toDigits 16 c.toNat ++ ['\x7d']

/-- A character as it stands in a quoted text. -/
def escape (c : Char) : List Char :=
  match letter? c with
  | some l => ['\\', l]
  | none => if isUnprintable c then codePoint c else [c]

/-- The quoted form of a text, with the quotation marks around it. -/
def quote (text : String) : String :=
  String.ofList (['"'] ++ text.toList.flatMap escape ++ ['"'])

/-! ## A quoted text fits on a line -/

/-- Every character of a written number is the digit of some value below the base. -/
theorem exists_of_mem_toDigits {b n : Nat} {c : Char} (hb : 1 < b) (h : c ∈ Nat.toDigits b n) :
    ∃ d, d < b ∧ c = d.digitChar := by
  induction n using Nat.strongRecOn with
  | ind n ih =>
    rw [Nat.toDigits_eq_if hb] at h
    split at h
    · next hlt =>
      rw [List.mem_singleton] at h
      exact ⟨n, hlt, h⟩
    · next hge =>
      rcases List.mem_append.mp h with h | h
      · exact ih (n / b) (Nat.div_lt_self (by omega) hb) h
      · rw [List.mem_singleton] at h
        exact ⟨n % b, Nat.mod_lt n (by omega), h⟩

/-- The digits of a code point do not break a line. -/
theorem newline_not_mem_toDigits (n : Nat) : '\n' ∉ Nat.toDigits 16 n := by
  intro h
  obtain ⟨d, hd, heq⟩ := exists_of_mem_toDigits (by omega) h
  have hall : ∀ k : Fin 16, '\n' ≠ k.val.digitChar := by decide
  exact hall ⟨d, hd⟩ heq

/-- No character breaks a line once it is escaped. -/
theorem newline_not_mem_escape (c : Char) : '\n' ∉ escape c := by
  unfold escape
  split
  · next l h =>
    unfold letter? at h
    split at h <;> simp_all <;> subst h <;> decide
  · next h =>
    split
    · simp [codePoint, newline_not_mem_toDigits]
    · intro hmem
      rw [List.mem_singleton] at hmem
      subst hmem
      simp [letter?] at h

/-- The quoted form of a text holds no line feed. -/
theorem newline_not_mem_quote (text : String) : '\n' ∉ (quote text).toList := by
  simp only [quote, String.toList_ofList, List.mem_append, List.mem_flatMap, List.mem_singleton]
  rintro ((h | ⟨c, -, h⟩) | h)
  · exact absurd h (by decide)
  · exact newline_not_mem_escape c h
  · exact absurd h (by decide)

end TemplateLexer.Quoted
