import TemplateLexer.Byte
import TemplateLexer.Text.Span

/-!
# Lexical events

A scan of a template reports what it finds as events. An event holds offsets only: its text is the
part of the template that its span names.
-/

set_option autoImplicit false

namespace TemplateLexer

/-- How the value of an attribute was written. -/
inductive Quote where
  | absent
  | bare
  | single
  | double
  deriving DecidableEq, Repr

/-- The name under which a way of writing a value is listed. -/
def Quote.name : Quote → String
  | .absent => "NoValue"
  | .bare => "Unquoted"
  | .single => "Single"
  | .double => "Double"

/-- The directives that can be written with a single sigil. -/
inductive Shorthand where
  | bind
  | on
  | slot
  | prop
  deriving DecidableEq, Repr

namespace Shorthand

/-- The sigil that stands for a directive. -/
def sigil : Shorthand → UInt8
  | bind => Byte.colon
  | on => Byte.atSign
  | slot => Byte.hash
  | prop => Byte.dot

/-- The shorthand that a byte is the sigil of. -/
def ofSigil? (c : UInt8) : Option Shorthand :=
  if c = Byte.colon then some bind
  else if c = Byte.atSign then some on
  else if c = Byte.hash then some slot
  else if c = Byte.dot then some prop
  else none

/-- The name under which a shorthand is listed. -/
def name : Shorthand → String
  | bind => "Bind"
  | on => "On"
  | slot => "Slot"
  | prop => "Prop"

/-- The long form of the directive that a shorthand stands for. -/
def directive : Shorthand → String
  | bind => "v-bind"
  | on => "v-on"
  | slot => "v-slot"
  | prop => "v-bind"

/-- A byte belongs to a shorthand exactly when it is that shorthand's sigil. -/
theorem ofSigil?_eq_some_iff {c : UInt8} {s : Shorthand} : ofSigil? c = some s ↔ c = s.sigil := by
  constructor
  · intro h
    unfold ofSigil? at h
    split at h
    · cases h; assumption
    · split at h
      · cases h; assumption
      · split at h
        · cases h; assumption
        · split at h
          · cases h; assumption
          · cases h
  · rintro rfl
    cases s <;> rfl

end Shorthand

/-- What can be wrong with a template. -/
inductive ErrorCode where
  /-- The template ends inside a tag. -/
  | eofInTag
  /-- The template ends inside an interpolation. -/
  | missingInterpolationEnd
  /-- The bracket of a dynamic argument is never closed. -/
  | missingDynamicArgumentEnd
  deriving DecidableEq, Repr

/-- The code of an error, as it is shown. -/
def ErrorCode.name : ErrorCode → String
  | .eofInTag => "eof-in-tag"
  | .missingInterpolationEnd => "missing-interpolation-end"
  | .missingDynamicArgumentEnd => "missing-dynamic-directive-argument-end"

/-- One thing found in a template. -/
inductive Event where
  | text (span : Span)
  /-- The content of an interpolation, without the markers. -/
  | interpolation (span : Span)
  | openTagName (span : Span)
  /-- The end of an opening tag, with the offset of its last byte. -/
  | openTagEnd (offset : Nat)
  /-- The end of a self-closing tag, with the offset of its last byte. -/
  | selfClosingTag (offset : Nat)
  | closeTag (span : Span)
  | attribName (span : Span)
  /-- The end of the name of an attribute or directive, with the offset just past it. -/
  | attribNameEnd (offset : Nat)
  /-- The value of an attribute, without quotation marks. -/
  | attribData (span : Span)
  /-- The end of an attribute, with the offset just past it. -/
  | attribEnd (quote : Quote) (offset : Nat)
  /-- The name of a directive, or its sigil together with the shorthand that this stands for. -/
  | dirName (span : Span) (shorthand : Option Shorthand)
  | dirArg (span : Span)
  /-- The argument of a directive that stands in brackets, without these. -/
  | dirDynamicArg (span : Span)
  | dirModifier (span : Span)
  /-- Something wrong with the template, with the offset where it was noticed. -/
  | error (code : ErrorCode) (offset : Nat)
  | endOfInput
  deriving DecidableEq, Repr

namespace Event

/-- The kind of an event, as it is shown. -/
def kind : Event → String
  | text _ => "text"
  | interpolation _ => "interpolation"
  | openTagName _ => "open-tag-name"
  | openTagEnd _ => "open-tag-end"
  | selfClosingTag _ => "self-closing-tag"
  | closeTag _ => "close-tag"
  | attribName _ => "attrib-name"
  | attribNameEnd _ => "attrib-name-end"
  | attribData _ => "attrib-data"
  | attribEnd _ _ => "attrib-end"
  | dirName _ _ => "dir-name"
  | dirArg _ => "dir-arg"
  | dirDynamicArg _ => "dir-dynamic-arg"
  | dirModifier _ => "dir-modifier"
  | error _ _ => "error"
  | endOfInput => "end"

/-- The span of an event that covers a part of the template. -/
def span? : Event → Option Span
  | text s | interpolation s | openTagName s | closeTag s | attribName s | attribData s
  | dirName s _ | dirArg s | dirDynamicArg s | dirModifier s => some s
  | openTagEnd _ | selfClosingTag _ | attribNameEnd _ | attribEnd _ _ | error _ _ | endOfInput =>
    none

/-- Whether an event says that something is wrong. -/
def isError : Event → Bool
  | error _ _ => true
  | _ => false

/-- The part of a template that an event covers, if it covers one. -/
def text? (e : Event) (template : String) : Except SpanError (Option String) :=
  match e.span? with
  | none => .ok none
  | some span => (span.slice template).map some

/-- The name of the directive that an event announces, with a shorthand written in full. -/
def directive? (e : Event) (template : String) : Except SpanError (Option String) :=
  match e with
  | dirName _ (some shorthand) => .ok (some shorthand.directive)
  | dirName span none => (span.slice template).map some
  | _ => .ok none

end Event

end TemplateLexer
