/-!
# Bytes of markup

All markup of a template is ASCII, so the scan classifies single bytes. A byte of a longer character
is at least `0x80` and belongs to none of the classes below; this is what lets a scan of bytes cut a
text between characters only.
-/

set_option autoImplicit false

namespace TemplateLexer.Byte

/-! ## The bytes with a meaning of their own -/

/-- The exclamation mark, skipped after the opening of a tag. -/
abbrev bang : UInt8 := 0x21

/-- The double quotation mark, one of the two that can enclose a value. -/
abbrev doubleQuote : UInt8 := 0x22

/-- The sigil of a slot. -/
abbrev hash : UInt8 := 0x23

/-- The single quotation mark, the other one that can enclose a value. -/
abbrev singleQuote : UInt8 := 0x27

/-- The hyphen, second byte of a directive's long form. -/
abbrev hyphen : UInt8 := 0x2D

/-- The dot in front of a modifier, or the sigil of a property binding. -/
abbrev dot : UInt8 := 0x2E

/-- Behind the opening of a tag it makes a closing tag, in an opening tag one that closes itself. -/
abbrev slash : UInt8 := 0x2F

/-- The colon in front of an argument, or the sigil of a binding. -/
abbrev colon : UInt8 := 0x3A

/-- Opens a tag if a letter follows, perhaps behind marks or a slash. -/
abbrev tagOpen : UInt8 := 0x3C

/-- The sign between the name of an attribute and its value. -/
abbrev equals : UInt8 := 0x3D

/-- Ends a tag. -/
abbrev tagEnd : UInt8 := 0x3E

/-- The question mark, skipped after the opening of a tag. -/
abbrev question : UInt8 := 0x3F

/-- The sigil of an event listener. -/
abbrev atSign : UInt8 := 0x40

/-- The bracket that opens a dynamic argument. -/
abbrev bracketOpen : UInt8 := 0x5B

/-- The bracket that closes a dynamic argument. -/
abbrev bracketClose : UInt8 := 0x5D

/-- The letter `v`, first byte of a directive's long form. -/
abbrev letterV : UInt8 := 0x76

/-! ## Classes -/

/-- White space inside a tag: space, tab, line feed, form feed and carriage return. -/
def isSpace (c : UInt8) : Bool :=
  c == 0x20 || c == 0x09 || c == 0x0A || c == 0x0C || c == 0x0D

/-- Only an ASCII letter starts the name of a tag. -/
def isTagStart (c : UInt8) : Bool :=
  (0x41 ≤ c && c ≤ 0x5A) || (0x61 ≤ c && c ≤ 0x7A)

/-- A slash, the end of the tag or white space ends a name inside a tag. -/
def endsSection (c : UInt8) : Bool :=
  c == slash || c == tagEnd || isSpace c

/-- The name of an attribute ends where a section ends or where its value is announced. -/
def endsName (c : UInt8) : Bool :=
  c == equals || endsSection c

/-! ## The classes are ASCII -/

/-- White space is a single byte of ASCII. -/
theorem lt_of_isSpace {c : UInt8} (h : isSpace c = true) : c < 0x80 := by
  simp only [isSpace, Bool.or_eq_true, beq_iff_eq] at h
  rcases h with (((h | h) | h) | h) | h <;> subst h <;> decide

/-- The name of a tag begins with a letter of ASCII. -/
theorem lt_of_isTagStart {c : UInt8} (h : isTagStart c = true) : c < 0x80 := by
  simp only [isTagStart, Bool.or_eq_true, Bool.and_eq_true, decide_eq_true_eq,
    UInt8.le_iff_toNat_le] at h
  rw [UInt8.lt_iff_toNat_lt]
  have h₁ : (0x5A : UInt8).toNat = 90 := rfl
  have h₂ : (0x7A : UInt8).toNat = 122 := rfl
  have h₃ : (0x80 : UInt8).toNat = 128 := rfl
  omega

/-- What ends the name of a tag is a single byte of ASCII. -/
theorem lt_of_endsSection {c : UInt8} (h : endsSection c = true) : c < 0x80 := by
  simp only [endsSection, Bool.or_eq_true, beq_iff_eq] at h
  rcases h with (h | h) | h
  · subst h; decide
  · subst h; decide
  · exact lt_of_isSpace h

/-- What ends the name of an attribute is a single byte of ASCII. -/
theorem lt_of_endsName {c : UInt8} (h : endsName c = true) : c < 0x80 := by
  simp only [endsName, Bool.or_eq_true, beq_iff_eq] at h
  rcases h with h | h
  · subst h; decide
  · exact lt_of_endsSection h

/-! ## The classes are apart -/

/-- No letter is white space. -/
theorem isSpace_of_isTagStart {c : UInt8} (h : isTagStart c = true) : isSpace c = false := by
  rw [Bool.eq_false_iff]
  intro hspace
  simp only [isSpace, Bool.or_eq_true, beq_iff_eq] at hspace
  rcases hspace with (((hc | hc) | hc) | hc) | hc <;> subst hc <;> cases h

end TemplateLexer.Byte
