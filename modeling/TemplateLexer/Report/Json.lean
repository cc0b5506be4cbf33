import TemplateLexer.Report.Record

/-!
# Lines of JSON

A record is written as a JSON object on one line, without blanks. The fields that the record does
not have are left out.
-/

set_option autoImplicit false

namespace TemplateLexer.Report.Json

/-- A value of a field. -/
inductive Value where
  | number (value : Nat)
  | text (value : String)
  deriving DecidableEq, Repr

/-- The letter that stands for a control character behind a backslash. -/
def letter? : Char → Option Char
  | '\x08' => some 'b'
  | '\t' => some 't'
  | '\n' => some 'n'
  | '\x0c' => some 'f'
  | '\r' => some 'r'
  | '"' => some '"'
  | '\\' => some '\\'
  | _ => none

/-- The code of a control character in four hexadecimal digits. -/
def code (c : Char) : List Char :=
  ['\\', 'u', '0', '0', (c.toNat / 16).digitChar, (c.toNat % 16).digitChar]

/-- The written form of one character. Only quotation marks, backslashes and control characters do
not stand for themselves. -/
def escape (c : Char) : List Char :=
  match letter? c with
  | some l => ['\\', l]
  | none => if c.toNat < 0x20 then code c else [c]

/-- A text as a string of its own, between quotation marks. -/
def string (text : String) : String :=
  String.ofList (['"'] ++ text.toList.flatMap escape ++ ['"'])

/-- The value of a field as it is written. -/
def Value.render : Value → String
  | .number value => toString value
  | .text value => string value

/-- An object with named values, in order. -/
def object (fields : List (String × Value)) : String :=
  "\x7b" ++ ",".intercalate (fields.map fun (name, value) => string name ++ ":" ++ value.render) ++
    "\x7d"

/-- The fields that a record has. -/
def fields (r : Record) : List (String × Value) :=
  [some ("kind", Value.text r.kind),
    r.start.map fun n => ("start", .number n),
    r.stop.map fun n => ("end", .number n),
    r.text.map fun s => ("text", .text s),
    r.directive.map fun s => ("directive", .text s),
    r.quote.map fun s => ("quote", .text s),
    r.code.map fun s => ("code", .text s)].filterMap id

/-- The line of a record: the object of those of its fields that have a value. -/
def line (r : Record) : String :=
  object (fields r)

end TemplateLexer.Report.Json
