import TemplateLexer.Event

/-!
# Records of events

A record is an event laid out flat, with the parts of the template that it refers to: the form from
which the lines of a report are written.
-/

set_option autoImplicit false

namespace TemplateLexer

/-- An event with its texts, field by field. A field that the event does not have is absent. -/
structure Record where
  kind : String
  /-- The offset of the first byte, or where something wrong was noticed. -/
  start : Option Nat
  /-- The offset just past the last byte, or the one offset of an event without a span. -/
  stop : Option Nat
  /-- The part of the template that the event covers. -/
  text : Option String
  /-- The directive that the event announces. -/
  directive : Option String
  quote : Option String
  code : Option String
  deriving DecidableEq, Repr

namespace Record

/-- The record of an event of a template. -/
def ofEvent (template : String) (e : Event) : Record :=
  let covering : Record :=
    { kind := e.kind
      start := e.span?.map Span.start
      stop := e.span?.map Span.stop
      text := (e.text? template).toOption.join
      directive := (e.directive? template).toOption.join
      quote := none
      code := none }
  match e with
  | .openTagEnd offset | .selfClosingTag offset | .attribNameEnd offset =>
    { covering with stop := some offset }
  | .attribEnd quote offset => { covering with stop := some offset, quote := some quote.name }
  | .error code offset => { covering with start := some offset, code := some code.name }
  | _ => covering

end Record

end TemplateLexer
