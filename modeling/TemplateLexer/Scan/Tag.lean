import TemplateLexer.Scan.Basic

/-!
# Tags

A tag opens with `<`, which turns back into text unless a letter follows: behind any number of `!`
and `?` for an opening tag, or behind the slash of a closing tag. A closing tag is reported when
its name ends, and whatever follows the name is skipped.
-/

set_option autoImplicit false

namespace TemplateLexer.Scan

/-- Reads a byte behind the opening of a tag, which a letter confirms and most other bytes turn back
into text. -/
def readBeforeTagName (s : Scan) (c : UInt8) : Turn :=
  if c = Byte.bang ∨ c = Byte.question then { scan := s }
  else if c = Byte.slash then { scan := s.enter .beforeClosingTagName }
  else if Byte.isTagStart c then { scan := (s.enter .inTagName).since s.cursor }
  else { scan := s.enter .text, again := true }

/-- Reads a byte of the name of a tag. The byte that ends it is left to what follows. -/
def readInTagName (s : Scan) (c : UInt8) : Turn :=
  if Byte.endsSection c then
    { scan := (s.enter .beforeAttrName).closed
      events := [.openTagName s.pending]
      again := true }
  else { scan := s }

/-- Reads the byte behind the slash of a closing tag, which has to be a letter. -/
def readBeforeClosingTagName (s : Scan) (c : UInt8) : Turn :=
  if Byte.isTagStart c then { scan := (s.enter .inClosingTagName).since s.cursor }
  else { scan := s.enter .text, again := true }

/-- Reads a byte of the name of a closing tag. The byte that ends it is the first one skipped. -/
def readInClosingTagName (s : Scan) (c : UInt8) : Turn :=
  if Byte.endsSection c then
    { scan := (s.enter .afterClosingTagName).closed
      events := [.closeTag s.pending]
      again := true }
  else { scan := s }

/-- Skips a byte behind the name of a closing tag. -/
def readAfterClosingTagName (s : Scan) (c : UInt8) : Turn :=
  if c = Byte.tagEnd then { scan := (s.enter .text).since (s.cursor + 1) }
  else { scan := s }

/-- Reads a byte behind a slash in an opening tag. A slash that the end of the tag does not follow
has no meaning. -/
def readInSelfClosingTag (s : Scan) (c : UInt8) : Turn :=
  if c = Byte.tagEnd then
    { scan := (s.enter .text).since (s.cursor + 1), events := [.selfClosingTag s.cursor] }
  else if Byte.isSpace c then { scan := s }
  else { scan := s.enter .beforeAttrName, again := true }

end TemplateLexer.Scan
