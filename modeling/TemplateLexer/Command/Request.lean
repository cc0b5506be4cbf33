/-!
# Requests

What the command can be asked for: the events of a template from one of three sources, its
version, or how it is used.
-/

set_option autoImplicit false

namespace TemplateLexer.Command

/-- How events are shown: on aligned lines, or as one object on each line. -/
inductive Format where
  | text
  | json
  deriving DecidableEq, Repr

/-- The format with a name, in small letters only. -/
def Format.ofName? : String → Option Format
  | "text" => some .text
  | "json" => some .json
  | _ => none

/-- Where a template comes from: the arguments themselves, a file, or the standard input. -/
inductive Source where
  | inline (template : String)
  | file (path : String)
  | stdin
  deriving DecidableEq, Repr

/-- What one run of the command is to do. -/
structure Request where
  source : Source
  /-- The markers given, those of all occurrences in a row. -/
  markers : List String
  vPre : Bool
  format : Format
  stats : Bool
  deriving DecidableEq, Repr

/-- What the command is asked for. -/
inductive Invocation where
  | events (request : Request)
  | version
  | help
  deriving DecidableEq, Repr

end TemplateLexer.Command
