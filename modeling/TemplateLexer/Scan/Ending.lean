import TemplateLexer.Scan.Basic

/-!
# The end of a template

What is under way when the template ends is not lost silently: text is reported as text, an
unfinished interpolation as an error and then as text, an unfinished value as a value, and an
unfinished tag as an error.
-/

set_option autoImplicit false

namespace TemplateLexer.Scan

/-- What is reported of the part under way when the template ends at the cursor. -/
def leftover (s : Scan) : List Event :=
  match s.mode with
  | .text | .interpolationOpen | .beforeTagName | .beforeClosingTagName | .reserved _ =>
    s.pendingText s.cursor
  | .interpolation | .interpolationClose =>
    .error .missingInterpolationEnd (s.sectionStart.getD s.cursor) :: s.pendingText s.cursor
  | .inQuotedValue _ | .inBareValue =>
    if s.pending.isEmpty then [] else [.attribData s.pending]
  | .inTagName | .inSelfClosingTag | .inClosingTagName | .afterClosingTagName | .beforeAttrName
  | .inAttrName | .inDirName | .inDirArg | .inDirDynamicArg | .inDirModifier | .afterAttrName
  | .beforeAttrValue => [.error .eofInTag s.cursor]

/-- The events at the end of a template. The last one is always its end. -/
def ending (s : Scan) : List Event :=
  s.leftover ++ [.endOfInput]

end TemplateLexer.Scan
