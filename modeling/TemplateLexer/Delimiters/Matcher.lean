/-!
# Progress through a marker

A matcher compares a marker with the input one byte at a time. A byte that does not continue the
marker ends the attempt; the caller decides what becomes of the bytes matched so far.
-/

set_option autoImplicit false

namespace TemplateLexer

/-- What one byte did to an attempt to match a marker. -/
inductive MatchStep where
  /-- The byte continues the marker and more bytes are needed. -/
  | advanced
  | completed
  | mismatched
  deriving DecidableEq, Repr

/-- The name under which a step is listed. -/
def MatchStep.name : MatchStep → String
  | .advanced => "Partial"
  | .completed => "Complete"
  | .mismatched => "Mismatch"

/-- The number of bytes of a marker matched so far, or nothing between two attempts. -/
structure Matcher where
  /-- The position in the marker of the next byte to compare. -/
  index? : Option Nat := none
  deriving DecidableEq, Repr

namespace Matcher

/-- No marker is under comparison. -/
def idle : Matcher :=
  ⟨none⟩

/-- A marker is under comparison, and none of its bytes has been read. -/
def started : Matcher :=
  ⟨some 0⟩

/-- The position in the marker of the next byte to compare; without an attempt, the first one. -/
def position (m : Matcher) : Nat :=
  m.index?.getD 0

/-- Compares one byte with the marker. The attempt goes on only if bytes of the marker are left. -/
def step (m : Matcher) (marker : List UInt8) (c : UInt8) : MatchStep × Matcher :=
  if marker[m.position]? = some c then
    if m.position + 1 = marker.length then (.completed, idle)
    else (.advanced, ⟨some (m.position + 1)⟩)
  else (.mismatched, idle)

section

variable {m m' : Matcher} {marker : List UInt8} {c : UInt8}

/-- The last byte of the marker completes it, and nothing is under comparison any more. -/
theorem step_completed (hbyte : marker[m.position]? = some c)
    (hlast : m.position + 1 = marker.length) : m.step marker c = (.completed, idle) := by
  rw [step, if_pos hbyte, if_pos hlast]

/-- A byte of the marker that is not its last moves the comparison on by one. -/
theorem step_advanced (hbyte : marker[m.position]? = some c)
    (hmore : m.position + 1 ≠ marker.length) :
    m.step marker c = (.advanced, ⟨some (m.position + 1)⟩) := by
  rw [step, if_pos hbyte, if_neg hmore]

/-- Any other byte ends the comparison, without a second look at the bytes compared so far. -/
theorem step_mismatched (hbyte : marker[m.position]? ≠ some c) :
    m.step marker c = (.mismatched, idle) := by
  rw [step, if_neg hbyte]

/-- Only the last byte of a marker completes it. -/
theorem length_of_completed (h : m.step marker c = (.completed, m')) :
    m.position + 1 = marker.length := by
  unfold step at h
  split at h
  · split at h
    · assumption
    · cases h
  · cases h

end

/-- Compares bytes in a row, and keeps what each of them did and the matcher after it. -/
def trace (marker : List UInt8) : Matcher → List UInt8 → List (MatchStep × Matcher)
  | _, [] => []
  | m, c :: rest => m.step marker c :: trace marker (m.step marker c).2 rest

end Matcher

end TemplateLexer
