import TemplateLexer.Scan.Basic

/-!
# Attributes and directives

An attribute has a name and perhaps a value. A name that begins with `v-` or with a sigil is a
directive, whose argument and modifiers are reported one by one. The end of every name is
reported, and the part under way then begins there, so that an attribute without a value ends
where its name does.
-/

set_option autoImplicit false

namespace TemplateLexer.Scan

/-! ## Names -/

/-- Begins an attribute with a byte and the one behind it: a directive in its long form, a directive
with a sigil, or a plain attribute. -/
def attrStart (s : Scan) (c : UInt8) (next : Option UInt8) : Turn :=
  if c = Byte.letterV ∧ next = some Byte.hyphen then { scan := (s.enter .inDirName).since s.cursor }
  else match Shorthand.ofSigil? c with
    | some shorthand =>
      { scan := (s.enter .inDirArg).since (s.cursor + 1)
        events := [.dirName ⟨s.cursor, s.cursor + 1⟩ (some shorthand)] }
    | none => { scan := (s.enter .inAttrName).since s.cursor }

/-- Ends a name in front of a byte, behind its last part. -/
def nameEnd (s : Scan) (last : List Event) : Turn :=
  { scan := ((s.enter .afterAttrName).since s.cursor).shaped .empty
    events := last ++ [.attribNameEnd s.cursor]
    again := true }

/-- Reads a byte between two attributes: the end of the tag, a slash, white space, or the start of
an attribute. -/
def readBeforeAttrName (s : Scan) (c : UInt8) (next : Option UInt8) : Turn :=
  if c = Byte.tagEnd then
    { scan := (s.enter .text).since (s.cursor + 1), events := [.openTagEnd s.cursor] }
  else if c = Byte.slash then { scan := s.enter .inSelfClosingTag }
  else if Byte.isSpace c then { scan := s }
  else s.attrStart c next

/-- Reads a byte of the name of a plain attribute, which runs up to the first byte that ends a
name. -/
def readInAttrName (s : Scan) (c : UInt8) : Turn :=
  if Byte.endsName c then s.nameEnd [.attribName s.pending]
  else { scan := s }

/-- Reads a byte of the long form of the name of a directive. -/
def readInDirName (s : Scan) (c : UInt8) : Turn :=
  let name := Event.dirName s.pending none
  if Byte.endsName c then s.nameEnd [name]
  else if c = Byte.colon then
    { scan := (s.enter .inDirArg).since (s.cursor + 1), events := [name] }
  else if c = Byte.dot then
    { scan := (s.enter .inDirModifier).since (s.cursor + 1), events := [name] }
  else { scan := s }

/-- Reads a byte of the argument of a directive outside of brackets, which a dot ends as well. -/
def readInDirArg (s : Scan) (c : UInt8) : Turn :=
  if Byte.endsName c then s.nameEnd [s.pendingArg]
  else if c = Byte.bracketOpen then
    { scan := (s.enter .inDirDynamicArg).shaped (s.argShape.push c) }
  else if c = Byte.dot then
    { scan := ((s.enter .inDirModifier).since (s.cursor + 1)).shaped .empty
      events := [s.pendingArg] }
  else { scan := s.shaped (s.argShape.push c) }

/-- Reads a byte of the argument of a directive inside brackets. Brackets do not nest: the first
closing one ends them. A name that ends before it lacks one, and the argument is reported as it
is. -/
def readInDirDynamicArg (s : Scan) (c : UInt8) : Turn :=
  if c = Byte.bracketClose then { scan := (s.enter .inDirArg).shaped (s.argShape.push c) }
  else if Byte.endsName c then
    s.nameEnd [.error .missingDynamicArgumentEnd s.cursor, .dirArg s.pending]
  else { scan := s.shaped (s.argShape.push c) }

/-- Reads a byte of a modifier. A dot ends it and begins the next one. -/
def readInDirModifier (s : Scan) (c : UInt8) : Turn :=
  if Byte.endsName c then s.nameEnd [.dirModifier s.pending]
  else if c = Byte.dot then
    { scan := s.since (s.cursor + 1), events := [.dirModifier s.pending] }
  else { scan := s }

/-! ## Values -/

/-- The end of an attribute that has no value. -/
def absentValue (s : Scan) : Event :=
  .attribEnd .absent (s.sectionStart.getD s.cursor)

/-- Reads a byte behind a name. Anything but the sign of a value and white space shows that there
is no value. -/
def readAfterAttrName (s : Scan) (c : UInt8) (next : Option UInt8) : Turn :=
  if c = Byte.equals then { scan := s.enter .beforeAttrValue }
  else if c = Byte.slash ∨ c = Byte.tagEnd then
    { scan := (s.enter .beforeAttrName).closed, events := [s.absentValue], again := true }
  else if Byte.isSpace c then { scan := s }
  else
    let t := s.attrStart c next
    { t with events := s.absentValue :: t.events }

/-- Reads a byte in front of a value, whose first byte says whether it is enclosed in quotation
marks. -/
def readBeforeAttrValue (s : Scan) (c : UInt8) : Turn :=
  if c = Byte.doubleQuote then
    { scan := (s.enter (.inQuotedValue .double)).since (s.cursor + 1) }
  else if c = Byte.singleQuote then
    { scan := (s.enter (.inQuotedValue .single)).since (s.cursor + 1) }
  else if Byte.isSpace c then { scan := s }
  else { scan := (s.enter .inBareValue).since s.cursor, again := true }

/-- Reads a byte of a value between quotation marks, which only the same mark ends. -/
def readInQuotedValue (s : Scan) (mark : QuoteMark) (c : UInt8) : Turn :=
  if c = mark.byte then
    { scan := (s.enter .beforeAttrName).closed
      events := [.attribData s.pending, .attribEnd mark.quote (s.cursor + 1)] }
  else { scan := s }

/-- Reads a byte of a value without quotation marks, up to white space or the end of the tag. -/
def readInBareValue (s : Scan) (c : UInt8) : Turn :=
  if Byte.isSpace c ∨ c = Byte.tagEnd then
    { scan := (s.enter .beforeAttrName).closed
      events := [.attribData s.pending, .attribEnd .bare s.cursor]
      again := true }
  else { scan := s }

end TemplateLexer.Scan
