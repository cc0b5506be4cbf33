import TemplateLexer.Text.Quoted

/-!
# Delimiters of an interpolation

An interpolation stands between two markers, by default double braces. A pair of markers is usable
when neither is empty and the opening one does not begin like a tag, for a scan tries a tag first.
-/

set_option autoImplicit false

namespace TemplateLexer

/-- The two sides of an interpolation. -/
inductive Side where
  | opening
  | closing
  deriving DecidableEq, Repr

/-- The name under which a side is reported. -/
def Side.name : Side → String
  | .opening => "open"
  | .closing => "close"

/-- Why a pair of markers is refused. -/
inductive DelimiterError where
  | empty (side : Side)
  | startsWithTagOpen (opening : String)
  deriving DecidableEq, Repr

/-- The message of a refusal, which quotes an opening marker that could never be met. -/
def DelimiterError.message : DelimiterError → String
  | .empty side => side.name ++ " delimiter must not be empty"
  | .startsWithTagOpen opening =>
    "open delimiter " ++ Quoted.quote opening ++ " starts with '<' and would never be recognised"

/-- A usable pair of markers. -/
structure Delimiters where
  opening : String
  closing : String
  opening_ne_empty : opening ≠ ""
  closing_ne_empty : closing ≠ ""
  /-- The opening marker is not taken for a tag. -/
  opening_not_tag : opening.toList.head? ≠ some '<'
  deriving DecidableEq

namespace Delimiters

/-- The pair of two braces each, read unless another pair is asked for. -/
def braces : Delimiters :=
  ⟨"\x7b\x7b", "\x7d\x7d", by decide, by decide, by decide⟩

/-- The braces stand in where no pair is given. -/
instance : Inhabited Delimiters :=
  ⟨braces⟩

/-- The pair of two markers, or the first reason to refuse it: the opening side is looked at before
the closing one, and emptiness before the rest. -/
def ofMarkers (opening closing : String) : Except DelimiterError Delimiters :=
  if ho : opening = "" then .error (.empty .opening)
  else if hc : closing = "" then .error (.empty .closing)
  else if ht : opening.toList.head? = some '<' then .error (.startsWithTagOpen opening)
  else .ok ⟨opening, closing, ho, hc, ht⟩

/-- Two markers make a pair exactly when both can be found and the first is not taken for a tag. -/
theorem ofMarkers_isOk_iff (opening closing : String) :
    (∃ d, ofMarkers opening closing = .ok d) ↔
      opening ≠ "" ∧ closing ≠ "" ∧ opening.toList.head? ≠ some '<' := by
  unfold ofMarkers
  constructor
  · rintro ⟨d, h⟩
    split at h
    · cases h
    · split at h
      · cases h
      · split at h
        · cases h
        · next ho hc ht => exact ⟨ho, hc, ht⟩
  · rintro ⟨ho, hc, ht⟩
    rw [dif_neg ho, dif_neg hc, dif_neg ht]
    exact ⟨_, rfl⟩

end Delimiters

end TemplateLexer
