import TemplateLexer.Command.Run

/-!
# The command

The one place that touches files and streams: it reads what a request needs, leaves the rest to
`Command.run`, and writes down the outcome.
-/

set_option autoImplicit false

namespace TemplateLexer.Command

/-- Reads a content, or says why it cannot be read. -/
def readContent (read : IO ByteArray) : IO (Except LoadError ByteArray) := do
  try
    return .ok (← read)
  catch
    | .noFileOrDirectory .. => return .error .notFound
    | e => return .error (.unreadable (toString e))

/-- Reads what a run from a source needs, and no more. -/
def gather (source : Source) : IO Inputs := do
  match source with
  | .inline _ => return ⟨fun _ => .error .notFound, .ok .empty⟩
  | .file path =>
    let content ← readContent (IO.FS.readBinFile path)
    return ⟨fun _ => content, .ok .empty⟩
  | .stdin =>
    let content ← readContent (do (← IO.getStdin).readBinToEnd)
    return ⟨fun _ => .error .notFound, content⟩

/-- Runs the command with arguments on the files and streams there are, and gives the exit code. -/
def execute (arguments : List String) : IO UInt32 := do
  let inputs ← match Invocation.ofArguments arguments with
    | .ok (.events request) => gather request.source
    | _ => gather (.inline "")
  let outcome := run inputs arguments
  (← IO.getStdout).putStr outcome.stdout
  (← IO.getStderr).putStr outcome.stderr
  return outcome.exitCode.toUInt32

end TemplateLexer.Command

/-- Shows the lexical events of a template. -/
def main (arguments : List String) : IO UInt32 :=
  TemplateLexer.Command.execute arguments
