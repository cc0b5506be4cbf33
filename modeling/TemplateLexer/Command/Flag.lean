/-!
# Options on the command line

An option has a long name behind two dashes, and perhaps a letter behind one. A single argument
reads as an option, as several of them by their letters, as a plain text, or as the mark behind
which every argument is a file.
-/

set_option autoImplicit false

namespace TemplateLexer.Command

/-- The options of the command that take values. -/
inductive Setting where
  | template
  | format
  | delimiters
  deriving DecidableEq, Repr

/-- The options of the command that take no value. -/
inductive Switch where
  | vPre
  | stats
  | version
  | help
  deriving DecidableEq, Repr

/-- An option of the command. -/
inductive Flag where
  | setting (setting : Setting)
  | switch (switch : Switch)
  deriving DecidableEq, Repr

/-- The option with a long name, given without its dashes. -/
def Flag.ofLong? : String → Option Flag
  | "template" => some (.setting .template)
  | "format" => some (.setting .format)
  | "delimiters" => some (.setting .delimiters)
  | "v-pre" => some (.switch .vPre)
  | "stats" => some (.switch .stats)
  | "version" => some (.switch .version)
  | "help" => some (.switch .help)
  | _ => none

/-- The option with a letter. Not every option has one. -/
def Flag.ofLetter? : Char → Option Flag
  | 't' => some (.setting .template)
  | 'f' => some (.setting .format)
  | 'V' => some (.switch .version)
  | 'h' => some (.switch .help)
  | _ => none

/-- The long name of an option with values, with the dashes in front. -/
def Setting.name : Setting → String
  | template => "--template"
  | format => "--format"
  | delimiters => "--delimiters"

/-- The number of values of one occurrence. -/
def Setting.arity : Setting → Nat
  | template | format => 1
  | delimiters => 2

/-- How a single argument reads. -/
inductive Argument where
  /-- From here on every argument is a file. -/
  | filesOnly
  | plain (text : String)
  /-- An option by its long name, perhaps with a value attached. -/
  | long (name : String) (attached : Option String)
  /-- Options by their letters. -/
  | short (letters : List Char)
  deriving DecidableEq, Repr

/-- A text in two parts around its first sign of a value, if it has one. -/
def splitAtEquals : List Char → List Char × Option (List Char)
  | [] => ([], none)
  | c :: rest =>
    if c = '=' then ([], some rest)
    else
      let (name, value) := splitAtEquals rest
      (c :: name, value)

/-- Reads a single argument. A lone dash is a plain text. -/
def Argument.ofString (argument : String) : Argument :=
  match argument.toList with
  | ['-', '-'] => .filesOnly
  | '-' :: '-' :: rest =>
    let (name, value) := splitAtEquals rest
    .long (String.ofList name) (value.map String.ofList)
  | '-' :: c :: rest => .short (c :: rest)
  | _ => .plain argument

end TemplateLexer.Command
