import TemplateLexer.Command.Arguments
import TemplateLexer.Report.Json
import TemplateLexer.Report.Line
import TemplateLexer.Report.Summary

/-!
# Runs of the command

A run loads a template, checks the markers, and shows the events of the template on the standard
output and the summary on the standard error output. Nothing is shown of a template that cannot be
loaded, or whose markers are refused.
-/

set_option autoImplicit false

namespace TemplateLexer.Command

/-- Why no template can be loaded from where it should be. -/
inductive LoadError where
  | notFound
  | notText
  /-- The reading failed for another reason. -/
  | unreadable (reason : String)
  deriving DecidableEq, Repr

/-- The cause that a failure to load gives. -/
def LoadError.message : LoadError → String
  | .notFound => "No such file or directory (os error 2)"
  | .notText => "stream did not contain valid UTF-8"
  | .unreadable reason => reason

/-- What a run can read from. -/
structure Inputs where
  file : String → Except LoadError ByteArray
  stdin : Except LoadError ByteArray

/-- Why a run fails. -/
inductive RunError where
  | file (path : String) (cause : LoadError)
  | stdin (cause : LoadError)
  | delimiters (cause : DelimiterError)
  deriving DecidableEq, Repr

/-- The message of a failure: what could not be done, and why. -/
def RunError.message (e : RunError) : String :=
  let (context, cause) : String × String := match e with
    | .file path cause => ("failed to read '" ++ path ++ "'", cause.message)
    | .stdin cause => ("failed to read template from stdin", cause.message)
    | .delimiters cause => ("invalid --delimiters", cause.message)
  "Error: " ++ context ++ "\n\nCaused by:\n    " ++ cause ++ "\n"

/-- What a run leaves behind. -/
structure Outcome where
  exitCode : Nat
  stdout : String
  stderr : String
  deriving DecidableEq, Repr

/-- The text of a content that is one. -/
def decode (content : ByteArray) : Except LoadError String :=
  match String.fromUTF8? content with
  | some text => .ok text
  | none => .error .notText

/-- Loads the template of a run. -/
def Source.load (inputs : Inputs) : Source → Except RunError String
  | .inline template => .ok template
  | .file path => ((inputs.file path).bind decode).mapError (.file path)
  | .stdin => (inputs.stdin.bind decode).mapError .stdin

/-- The options that a request describes. Markers count only as a single pair. -/
def Request.options (r : Request) : Except RunError Options :=
  match r.markers with
  | [opening, closing] =>
    match Delimiters.ofMarkers opening closing with
    | .ok delimiters => .ok ⟨delimiters, r.vPre⟩
    | .error cause => .error (.delimiters cause)
  | _ => .ok ⟨.braces, r.vPre⟩

/-- The line of an event of a template with a number. -/
def Format.line (f : Format) (template : String) (number : Nat) (e : Event) : String :=
  match f with
  | .text => Report.line number (Record.ofEvent template e)
  | .json => Report.Json.line (Record.ofEvent template e)

/-- The lines of the events of a template, in order. -/
def Format.lines (f : Format) (template : String) (events : Array Event) : List String :=
  events.toList.zipIdx.map fun (e, number) => f.line template number e

/-- Lines in a row, every one of them with its end. -/
def unlines (lines : List String) : String :=
  lines.foldl (fun written line => written ++ line ++ "\n") ""

/-- Loads the template of a request and checks the markers, in this order. -/
def Request.prepare (inputs : Inputs) (r : Request) : Except RunError (String × Options) := do
  let template ← r.source.load inputs
  let options ← r.options
  return (template, options)

/-- Shows the events of a template: a line for each on the standard output, the warning and the
counters on the standard error output. Both outputs are captured, neither is a terminal, so nothing
is coloured. -/
def Request.present (r : Request) (template : String) (options : Options) : Outcome :=
  let t := (Tokenizer.new options #[]).parse template
  { exitCode := 0
    stdout := unlines (r.format.lines template t.sink)
    stderr := Report.diagnostics t.sink ++ if r.stats then Report.counters t.stats else "" }

/-- Shows the events that a request asks for, or says why they cannot be shown. -/
def Request.run (inputs : Inputs) (r : Request) : Outcome :=
  match r.prepare inputs with
  | .ok (template, options) => r.present template options
  | .error e => ⟨1, "", e.message⟩

/-- How the command is called, in one line. -/
def usage : String :=
  "Usage: quill [OPTIONS] [FILE]\n"

/-- Calls of the command to learn from. -/
def sampleCalls : String :=
  "EXAMPLES:\n" ++
  "    # Tokenize a file\n" ++
  "    quill App.template\n\n" ++
  "    # Inline template with custom delimiters\n" ++
  "    quill --template 'Hi [[ name ]]' --delimiters '[[' ']]'\n\n" ++
  "    # Machine-readable output\n" ++
  "    quill App.template --format json\n"

/-- What the command does, how it is called, what its arguments and options mean, and examples. -/
def helpText : String :=
  "Quill - dump the lexical events of a template\n\n" ++
  usage ++ "\n" ++
  "Arguments:\n" ++
  "  [FILE]  Template file to read (stdin if omitted)\n\n" ++
  "Options:\n" ++
  "  -t, --template <TEXT>            Tokenize this string instead of a file\n" ++
  "      --delimiters <OPEN> <CLOSE>  Interpolation delimiters\n" ++
  "      --v-pre                      Read interpolation delimiters as plain text\n" ++
  "  -f, --format <FORMAT>            Output format " ++
    "[default: text] [possible values: text, json]\n" ++
  "      --stats                      Print tokenizer counters to stderr\n" ++
  "  -h, --help                       Print help\n" ++
  "  -V, --version                    Print version\n\n" ++
  sampleCalls

/-- Does what the arguments ask for. -/
def Invocation.run (inputs : Inputs) : Invocation → Outcome
  | .events request => request.run inputs
  | .version => ⟨0, "quill 0.1.0\n", ""⟩
  | .help => ⟨0, helpText, ""⟩

/-- Runs the command with arguments. Arguments that cannot be read end the run before anything is
loaded. -/
def run (inputs : Inputs) (arguments : List String) : Outcome :=
  match Invocation.ofArguments arguments with
  | .ok invocation => invocation.run inputs
  | .error e =>
    ⟨2, "", "error: " ++ e.message ++ "\n\n" ++ usage ++
      "\nFor more information, try '--help'.\n"⟩

end TemplateLexer.Command
