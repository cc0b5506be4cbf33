import TemplateLexer.Delimiters.Matcher
import TemplateLexer.Scan.Mode

/-!
# The state of a scan

A scan reads a template byte by byte. What it keeps between two bytes is its mode, the number of
bytes read, the offset where the part under way began, the progress through a marker, and the
shape of a directive's argument so far. The shape tells an argument in brackets of its own from
any other (`ArgShape.ofBytes_eq_enclosed_iff`), so that no byte has to be read twice.
-/

set_option autoImplicit false

namespace TemplateLexer

/-- What a scan knows beforehand about the templates it reads. -/
structure Dialect where
  opening : List UInt8
  closing : List UInt8
  /-- Whether the markers are read as text. -/
  vPre : Bool
  /-- Whether tags are read as text. -/
  rawText : Bool
  deriving DecidableEq, Repr

/-- What the bytes of a directive's argument look like so far. -/
inductive ArgShape where
  | empty
  | plain
  /-- The first byte is an opening bracket and the last one does not close it. -/
  | opened
  /-- The first byte is an opening bracket and the last byte is a closing one. -/
  | enclosed
  deriving DecidableEq, Repr

namespace ArgShape

/-- The shape of a row of bytes with one byte more. -/
def push : ArgShape → UInt8 → ArgShape
  | empty, c => if c = Byte.bracketOpen then opened else plain
  | plain, _ => plain
  | opened, c | enclosed, c => if c = Byte.bracketClose then enclosed else opened

/-- The shape of a row of bytes, taken byte by byte. -/
def ofBytes (bytes : List UInt8) : ArgShape :=
  bytes.foldl push empty

/-- The shape of a row hangs on the shape without the last byte, and on that byte. -/
theorem ofBytes_concat (bytes : List UInt8) (c : UInt8) :
    ofBytes (bytes ++ [c]) = (ofBytes bytes).push c := by
  simp [ofBytes]

/-- The shape of a row that begins with an opening bracket hangs on its last byte only. -/
theorem ofBytes_bracket (inner : List UInt8) (c : UInt8) :
    ofBytes (Byte.bracketOpen :: (inner ++ [c])) =
      if c = Byte.bracketClose then enclosed else opened := by
  have hinner : ∀ s, s = opened ∨ s = enclosed →
      inner.foldl push s = opened ∨ inner.foldl push s = enclosed := by
    induction inner with
    | nil => intro s hs; exact hs
    | cons b rest ih =>
      intro s hs
      refine ih (s.push b) ?_
      rcases hs with rfl | rfl <;> by_cases hb : b = Byte.bracketClose <;> simp [push, hb]
  rw [← List.cons_append, ofBytes_concat]
  rcases hinner opened (Or.inl rfl) with h | h <;> simp [ofBytes, push, h]

/-- A row has the enclosed shape exactly when it stands between two brackets of its own. -/
theorem ofBytes_eq_enclosed_iff (bytes : List UInt8) :
    ofBytes bytes = enclosed ↔
      ∃ inner, bytes = Byte.bracketOpen :: (inner ++ [Byte.bracketClose]) := by
  constructor
  · intro h
    cases bytes with
    | nil => cases h
    | cons b rest =>
      have hplain : ∀ w : List UInt8, w.foldl push plain = plain := by
        intro w
        induction w with
        | nil => rfl
        | cons c w ih => exact ih
      by_cases hb : b = Byte.bracketOpen
      · subst hb
        rcases List.eq_nil_or_concat rest with rfl | ⟨inner, c, rfl⟩
        · cases h
        · rw [List.concat_eq_append] at h ⊢
          rw [ofBytes_bracket] at h
          split at h
          · next hc => exact ⟨inner, by rw [hc]⟩
          · cases h
      · simp [ofBytes, push, hb, hplain] at h
  · rintro ⟨inner, rfl⟩
    rw [ofBytes_bracket, if_pos rfl]

end ArgShape

/-- What a scan keeps between two bytes. -/
structure Scan where
  mode : Mode := .text
  cursor : Nat := 0
  /-- The offset where the part under way began, if one is under way. -/
  sectionStart : Option Nat := some 0
  matcher : Matcher := .idle
  argShape : ArgShape := .empty
  deriving DecidableEq, Repr

namespace Scan

/-- The scan in another mode. -/
def enter (s : Scan) (mode : Mode) : Scan :=
  { s with mode := mode }

/-- The scan with a part under way since an offset. -/
def since (s : Scan) (offset : Nat) : Scan :=
  { s with sectionStart := some offset }

/-- The scan without a part under way. -/
def closed (s : Scan) : Scan :=
  { s with sectionStart := none }

/-- The scan with another progress through a marker. -/
def matching (s : Scan) (matcher : Matcher) : Scan :=
  { s with matcher := matcher }

/-- The scan with another shape of the argument so far. -/
def shaped (s : Scan) (shape : ArgShape) : Scan :=
  { s with argShape := shape }

/-- The part under way, up to the byte to be read; empty if none is under way. -/
def pending (s : Scan) : Span :=
  ⟨s.sectionStart.getD s.cursor, s.cursor⟩

/-- The text under way up to an offset, reported only if there is some. -/
def pendingText (s : Scan) (stop : Nat) : List Event :=
  let start := s.sectionStart.getD stop
  if start < stop then [.text ⟨start, stop⟩] else []

/-- The argument under way. One that is enclosed in brackets is reported without them. -/
def pendingArg (s : Scan) : Event :=
  let span := s.pending
  if s.argShape = .enclosed then .dirDynamicArg ⟨span.start + 1, span.stop - 1⟩ else .dirArg span

end Scan

/-- What one mode makes of one byte: the scan afterwards, the events found, and whether the new
mode is to read the same byte again. -/
structure Turn where
  scan : Scan
  events : List Event := []
  again : Bool := false
  deriving DecidableEq, Repr

end TemplateLexer
