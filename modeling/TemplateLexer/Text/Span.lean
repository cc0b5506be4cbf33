/-!
# Spans of a text

A span is a half-open range of byte offsets. It names a part of a text when it is not reversed,
does not reach past the end, and cuts no character in two; `Span.slice` gives that part, or the
reason why there is none (`Span.slice_isOk_iff`).
-/

set_option autoImplicit false

namespace TemplateLexer

/-- The UTF-8 encoding of a text, byte by byte. -/
def utf8Bytes (text : String) : List UInt8 :=
  text.toByteArray.data.toList

/-- The bytes of two texts in a row are their bytes in a row. -/
theorem utf8Bytes_append (a b : String) : utf8Bytes (a ++ b) = utf8Bytes a ++ utf8Bytes b := by
  simp [utf8Bytes, String.toByteArray_append, ByteArray.data_append]

/-- A text is settled by its bytes. -/
theorem eq_of_utf8Bytes_eq {a b : String} (h : utf8Bytes a = utf8Bytes b) : a = b := by
  rw [utf8Bytes, utf8Bytes, Array.toList_inj] at h
  exact String.toByteArray_inj.mp (ByteArray.ext h)

/-- A text is encoded character by character. -/
theorem utf8Bytes_eq_flatMap (text : String) :
    utf8Bytes text = text.toList.flatMap String.utf8EncodeChar := by
  rw [utf8Bytes, ← String.utf8Encode_toList, List.utf8Encode]
  simp

/-- The size of a text is the number of its bytes. -/
theorem length_utf8Bytes (text : String) : (utf8Bytes text).length = text.utf8ByteSize := by
  simp [utf8Bytes]

/-- A half-open range of byte offsets. -/
structure Span where
  start : Nat
  stop : Nat
  deriving DecidableEq, Repr

/-- Why a pair of offsets names no part of a text. -/
inductive SpanError where
  /-- The range ends before it starts. -/
  | reversed
  /-- The range reaches past the end of the text. -/
  | pastEnd
  /-- An end of the range lies inside a character. -/
  | insideCharacter
  deriving DecidableEq, Repr

namespace Span

/-- The span between two offsets that are in order. -/
def between (start stop : Nat) : Except SpanError Span :=
  if start ≤ stop then .ok ⟨start, stop⟩ else .error .reversed

/-- The number of bytes of a span. -/
def length (s : Span) : Nat :=
  s.stop - s.start

/-- Whether a span has no bytes. -/
def isEmpty (s : Span) : Bool :=
  s.start == s.stop

/-- The written form, as in `3..5`. -/
def render (s : Span) : String :=
  toString s.start ++ ".." ++ toString s.stop

/-- An offset at which a text can be cut: its end, or the first byte of a character. -/
abbrev CutsAt (text : String) (offset : Nat) : Prop :=
  String.Pos.Raw.IsValid text ⟨offset⟩

/-- The part of a text that a span names. -/
def slice (s : Span) (text : String) : Except SpanError String :=
  if s.stop < s.start then .error .reversed
  else if text.utf8ByteSize < s.stop then .error .pastEnd
  else if h : CutsAt text s.start ∧ CutsAt text s.stop then
    .ok (text.extract ⟨⟨s.start⟩, h.1⟩ ⟨⟨s.stop⟩, h.2⟩)
  else .error .insideCharacter

/-- A span names a part of a text exactly when it is in order and can be cut out at both ends. -/
theorem slice_isOk_iff (s : Span) (text : String) :
    (∃ part, s.slice text = .ok part) ↔
      s.start ≤ s.stop ∧ CutsAt text s.start ∧ CutsAt text s.stop := by
  unfold slice
  constructor
  · rintro ⟨part, h⟩
    split at h
    · cases h
    · split at h
      · cases h
      · split at h
        · next hord _ hcut => exact ⟨by omega, hcut⟩
        · cases h
  · rintro ⟨hord, hcut⟩
    have hle : s.stop ≤ text.utf8ByteSize := by
      simpa [String.Pos.Raw.le_iff] using hcut.2.le_rawEndPos
    rw [if_neg (by omega), if_neg (by omega), dif_pos hcut]
    exact ⟨_, rfl⟩

/-- The bytes of the part are the bytes of the text between the two offsets. -/
theorem utf8Bytes_of_slice {s : Span} {text part : String} (h : s.slice text = .ok part) :
    utf8Bytes part = ((utf8Bytes text).drop s.start).take s.length := by
  unfold slice at h
  split at h
  · cases h
  · split at h
    · cases h
    · split at h
      · obtain rfl := Except.ok.inj h
        simp [utf8Bytes, String.extract, length, List.extract]
      · cases h

end Span

end TemplateLexer
