import TemplateLexer.Tokenizer

/-!
# Summaries

Beside the events of a template, a report can say how many things are wrong with it and how much
work it was.
-/

set_option autoImplicit false

namespace TemplateLexer.Report

/-- A warning with the number of things wrong, if there are any, as it is written where the output
is captured: only a terminal is shown it in colour, and no output here is one. -/
def diagnostics (events : Array Event) : String :=
  match events.countP Event.isError with
  | 0 => ""
  | 1 => "warning: 1 diagnostic\n"
  | n => "warning: " ++ toString n ++ " diagnostics\n"

/-- The counters of a parse, one on each line below a heading. -/
def counters (stats : Stats) : String :=
  "=== Tokenizer Stats ===\n" ++
  "steps:             " ++ toString stats.steps ++ "\n" ++
  "reconsumes:        " ++ toString stats.rereads ++ "\n" ++
  "state transitions: " ++ toString stats.transitions ++ "\n" ++
  "events emitted:    " ++ toString stats.events ++ "\n"

end TemplateLexer.Report
