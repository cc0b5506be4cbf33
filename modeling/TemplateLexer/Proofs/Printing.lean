import Mathlib.Data.List.Chain
import TemplateLexer.Delimiters
import TemplateLexer.Proofs.Layout

/-!
# Printing templates

A template can be written down from a list of items: texts, interpolations, closing tags, and
opening tags with their attributes. The items carry all that makes their written form unambiguous,
so that every list of items without two texts in a row can be printed and read again. What they are
read as is told by `events`, from the offset where they are printed on.
-/

set_option autoImplicit false

namespace TemplateLexer.Printing

open Layout

/-- What can be printed, and how it is reported where it is printed. -/
class Printed (α : Type) where
  bytes : α → List UInt8
  events : α → Nat → List Event

open Printed

/-- The events of printed things in a row. -/
def eventsInRow {α : Type} [Printed α] : List α → Nat → List Event
  | [], _ => []
  | x :: xs, i => events x i ++ eventsInRow xs (i + (bytes x).length)

/-- Things in a row are printed one behind the other. -/
instance {α : Type} [Printed α] : Printed (List α) where
  bytes xs := xs.flatMap bytes
  events := eventsInRow

section
variable {α : Type} [Printed α] (x : α) (xs : List α) (i : Nat)

/-- The first thing of a row is printed first. -/
theorem bytes_cons : bytes (x :: xs) = bytes x ++ bytes xs :=
  rfl

/-- What stands behind the first thing of a row is reported from its end on. -/
theorem events_cons :
    events (x :: xs) i = events x i ++ events xs (i + (bytes x).length) :=
  rfl

/-- A row ends where its rest does, printed behind its first thing. -/
theorem add_length_bytes_cons :
    i + (bytes (x :: xs)).length = i + (bytes x).length + (bytes xs).length := by
  rw [bytes_cons, List.length_append, Nat.add_assoc]

end

/-! ## Words -/

/-- A row of bytes of one class. -/
structure Row (p : UInt8 → Bool) where
  bytes : List UInt8
  only : bytes.all p = true

/-- Every byte of a row is of its class. -/
theorem Row.of_mem {p : UInt8 → Bool} (row : Row p) : ∀ c ∈ row.bytes, p c = true :=
  List.all_eq_true.mp row.only

/-- The name of a tag. -/
structure TagWord where
  letter : UInt8
  isTagStart : Byte.isTagStart letter = true
  rest : Row inTagName

/-- The bytes of the name of a tag. -/
def TagWord.bytes (t : TagWord) : List UInt8 :=
  t.letter :: t.rest.bytes

/-- The name of an attribute that is no directive. -/
structure PlainWord where
  letter : UInt8
  isPlain : inName letter = true ∧ Shorthand.ofSigil? letter = none
  rest : Row inName
  isShort : ¬ (letter = Byte.letterV ∧ rest.bytes.head? = some Byte.hyphen)

/-- The bytes of the name of a plain attribute. -/
def PlainWord.bytes (t : PlainWord) : List UInt8 :=
  t.letter :: t.rest.bytes

/-- A value without quotation marks. -/
structure BareWord where
  letter : UInt8
  isBare : inBareValue letter = true ∧ letter ≠ Byte.doubleQuote ∧ letter ≠ Byte.singleQuote
  rest : Row inBareValue

/-- The bytes of a value without quotation marks. -/
def BareWord.bytes (t : BareWord) : List UInt8 :=
  t.letter :: t.rest.bytes

/-! ## Directives -/

/-- The bytes of an argument without brackets. -/
def inStatic (c : UInt8) : Bool :=
  inName c && !(c == Byte.dot || c == Byte.bracketOpen)

/-- The bytes of an argument between brackets. -/
def inBrackets (c : UInt8) : Bool :=
  inName c && !(c == Byte.bracketClose)

/-- The argument of a directive, in brackets or not. -/
inductive Argument where
  | static (row : Row inStatic)
  | dynamic (row : Row inBrackets)

/-- An argument in brackets is reported without them. -/
instance : Printed Argument where
  bytes
    | .static row => row.bytes
    | .dynamic row => Byte.bracketOpen :: (row.bytes ++ [Byte.bracketClose])
  events
    | .static row, i => [.dirArg ⟨i, i + row.bytes.length⟩]
    | .dynamic row, i => [.dirDynamicArg ⟨i + 1, i + 1 + row.bytes.length⟩]

/-- The argument of the long form can be left out. -/
instance : Printed (Option Argument) where
  bytes
    | none => []
    | some arg => Byte.colon :: bytes arg
  events
    | none, _ => []
    | some arg, i => events arg (i + 1)

/-- A modifier of a directive. -/
structure Modifier where
  row : Row inModifier

/-- A modifier is printed behind its dot. -/
instance : Printed Modifier where
  bytes m := Byte.dot :: m.row.bytes
  events m i := [.dirModifier ⟨i + 1, i + 1 + m.row.bytes.length⟩]

/-- The name of an attribute: a plain one, a directive in its long form, or one with a sigil. -/
inductive AttrName where
  | plain (word : PlainWord)
  | long (row : Row inLongName) (arg : Option Argument) (modifiers : List Modifier)
  | sigil (shorthand : Shorthand) (arg : Argument) (modifiers : List Modifier)

/-- The parts of a name are printed without a gap, and each is reported on its own. -/
instance : Printed AttrName where
  bytes
    | .plain word => word.bytes
    | .long row arg modifiers =>
      Byte.letterV :: Byte.hyphen :: (row.bytes ++ (bytes arg ++ bytes modifiers))
    | .sigil shorthand arg modifiers => shorthand.sigil :: (bytes arg ++ bytes modifiers)
  events
    | .plain word, i => [.attribName ⟨i, i + word.bytes.length⟩]
    | .long row arg modifiers, i =>
      let j := i + 2 + row.bytes.length
      .dirName ⟨i, j⟩ none :: (events arg j ++ events modifiers (j + (bytes arg).length))
    | .sigil shorthand arg modifiers, i =>
      .dirName ⟨i, i + 1⟩ (some shorthand) ::
        (events arg (i + 1) ++ events modifiers (i + 1 + (bytes arg).length))

/-! ## Attributes -/

/-- The value of an attribute, if it has one. -/
inductive AttrValue where
  | absent
  | quoted (mark : QuoteMark) (row : Row (· != mark.byte))
  | bare (word : BareWord)

/-- A value is printed behind its sign, and the way of writing it is reported behind its bytes. -/
instance : Printed AttrValue where
  bytes
    | .absent => []
    | .quoted mark row => Byte.equals :: mark.byte :: (row.bytes ++ [mark.byte])
    | .bare word => Byte.equals :: word.bytes
  events
    | .absent, i => [.attribEnd .absent i]
    | .quoted mark row, i =>
      let j := i + 2 + row.bytes.length
      [.attribData ⟨i + 2, j⟩, .attribEnd mark.quote (j + 1)]
    | .bare word, i =>
      let j := i + 1 + word.bytes.length
      [.attribData ⟨i + 1, j⟩, .attribEnd .bare j]

/-- An attribute with its value. -/
structure Attribute where
  name : AttrName
  value : AttrValue

/-- The space that is printed in front of attributes. -/
def space : UInt8 := 0x20

/-- An attribute is printed behind a space, and the end of its name is reported as well. -/
instance : Printed Attribute where
  bytes a := space :: (bytes a.name ++ bytes a.value)
  events a i :=
    let n := i + 1 + (bytes a.name).length
    events a.name (i + 1) ++ .attribNameEnd n :: events a.value n

/-! ## Items -/

/-- How an opening tag ends. -/
inductive TagStop where
  | openTag
  | selfClosing

/-- The end of a tag that closes itself is printed with a space in front of the slash. -/
instance : Printed TagStop where
  bytes
    | .openTag => [Byte.tagEnd]
    | .selfClosing => [space, Byte.slash, Byte.tagEnd]
  events
    | .openTag, i => [.openTagEnd i]
    | .selfClosing, i => [.selfClosingTag (i + 2)]

/-- The bytes of a text: they begin neither a tag nor the opening marker. -/
def inText (ds : Delimiters) (c : UInt8) : Bool :=
  c != Byte.tagOpen && (utf8Bytes ds.opening).head? != some c

/-- The bytes of an interpolation: they do not begin the closing marker. -/
def inInterpolation (ds : Delimiters) (c : UInt8) : Bool :=
  (utf8Bytes ds.closing).head? != some c

/-- The items of templates whose interpolations stand between two given markers. -/
inductive Item (ds : Delimiters) where
  | text (row : Row (inText ds)) (ne : row.bytes ≠ [])
  | interpolation (row : Row (inInterpolation ds))
  | closeTag (name : TagWord)
  | openTag (name : TagWord) (attrs : List Attribute) (stop : TagStop)

variable {ds : Delimiters}

/-- An item is printed as it is written in a template, markers and brackets included. -/
instance : Printed (Item ds) where
  bytes
    | .text row _ => row.bytes
    | .interpolation row => utf8Bytes ds.opening ++ (row.bytes ++ utf8Bytes ds.closing)
    | .closeTag name => Byte.tagOpen :: Byte.slash :: (name.bytes ++ [Byte.tagEnd])
    | .openTag name attrs stop => Byte.tagOpen :: (name.bytes ++ (bytes attrs ++ bytes stop))
  events
    | .text row _, i => [.text ⟨i, i + row.bytes.length⟩]
    | .interpolation row, i =>
      let a := i + (utf8Bytes ds.opening).length
      [.interpolation ⟨a, a + row.bytes.length⟩]
    | .closeTag name, i => [.closeTag ⟨i + 2, i + 2 + name.bytes.length⟩]
    | .openTag name attrs stop, i =>
      let b := i + 1 + name.bytes.length
      .openTagName ⟨i + 1, b⟩ :: (events attrs b ++ events stop (b + (bytes attrs).length))

/-- Whether an item is a text. -/
def Item.isText : Item ds → Bool
  | .text _ _ => true
  | _ => false

/-- Two texts in a row could not be told from one. -/
def Item.Apart (a b : Item ds) : Prop :=
  ¬ (a.isText = true ∧ b.isText = true)

/-- Whether two items are apart can be decided. -/
instance : DecidableRel (@Item.Apart ds) :=
  fun _ _ => inferInstanceAs (Decidable (¬ _))

end TemplateLexer.Printing
