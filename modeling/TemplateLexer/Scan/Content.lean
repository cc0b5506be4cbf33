import TemplateLexer.Scan.Basic

/-!
# Text and interpolations

Text runs until a tag opens or the opening marker begins. A marker is compared byte by byte; where
the comparison fails, the bytes compared so far stay text, and the byte that failed is read again.
Inside an interpolation only the closing marker has a meaning.
-/

set_option autoImplicit false

namespace TemplateLexer.Scan

/-- Reads a byte of text. The part under way is reported before a tag. -/
def readText (d : Dialect) (s : Scan) (c : UInt8) : Turn :=
  if c = Byte.tagOpen ∧ d.rawText = false then
    { scan := (s.enter .beforeTagName).since s.cursor, events := s.pendingText s.cursor }
  else if d.vPre = false ∧ d.opening.head? = some c then
    { scan := (s.enter .interpolationOpen).matching .started, again := true }
  else { scan := s }

/-- Reads a byte that may belong to the opening marker. Once the marker is complete, the text in
front of it is reported and the part under way begins at the marker. -/
def readInterpolationOpen (d : Dialect) (s : Scan) (c : UInt8) : Turn :=
  match s.matcher.step d.opening c with
  | (.advanced, m) => { scan := s.matching m }
  | (.completed, m) =>
    let start := s.cursor + 1 - d.opening.length
    { scan := ((s.matching m).enter .interpolation).since start, events := s.pendingText start }
  | (.mismatched, m) => { scan := (s.matching m).enter .text, again := true }

/-- Reads a byte of an interpolation, which only the closing marker can end. -/
def readInterpolation (d : Dialect) (s : Scan) (c : UInt8) : Turn :=
  if d.closing.head? = some c then
    { scan := (s.enter .interpolationClose).matching .started, again := true }
  else { scan := s }

/-- Reads a byte that may belong to the closing marker. Once the marker is complete, what lies
between the two markers is reported. -/
def readInterpolationClose (d : Dialect) (s : Scan) (c : UInt8) : Turn :=
  match s.matcher.step d.closing c with
  | (.advanced, m) => { scan := s.matching m }
  | (.completed, m) =>
    let start := match s.sectionStart with
      | some offset => offset + d.opening.length
      | none => s.cursor
    { scan := ((s.matching m).enter .text).since (s.cursor + 1)
      events := [.interpolation ⟨start, s.cursor + 1 - d.closing.length⟩] }
  | (.mismatched, m) => { scan := (s.matching m).enter .interpolation, again := true }

end TemplateLexer.Scan
