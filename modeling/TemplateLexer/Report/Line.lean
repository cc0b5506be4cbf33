import TemplateLexer.Report.Record
import TemplateLexer.Text.Quoted

/-!
# Aligned lines

A record is shown on a line with four columns: its number, its kind, its offsets and its detail. The
columns are aligned, and no blank stands at the end of a line.
-/

set_option autoImplicit false

namespace TemplateLexer.Report

/-- A text followed by blanks up to a width. -/
def padRight (width : Nat) (text : String) : String :=
  text ++ String.ofList (List.replicate (width - text.length) ' ')

/-- A text behind blanks up to a width. -/
def padLeft (width : Nat) (text : String) : String :=
  String.ofList (List.replicate (width - text.length) ' ') ++ text

/-- A text without the blanks at its end. -/
def trimRight (text : String) : String :=
  String.ofList (text.toList.reverse.dropWhile (· == ' ')).reverse

/-- The offsets of a record: a range, a single place, or nothing. -/
def offsets (r : Record) : String :=
  match r.start, r.stop with
  | some start, some stop => (Span.mk start stop).render
  | some offset, none | none, some offset => "@" ++ toString offset
  | none, none => ""

/-- The detail of a record: what is wrong, else how a value was written, else the text, and the
name of the directive where this differs from the text. -/
def detail (r : Record) : String :=
  match r.code, r.quote, r.text, r.directive with
  | some code, _, _, _ => code
  | none, some quote, _, _ => quote
  | none, none, some text, some directive =>
    if directive = text then Quoted.quote text
    else Quoted.quote text ++ " (" ++ directive ++ ")"
  | none, none, some text, none => Quoted.quote text
  | none, none, none, _ => ""

/-- The line of a record with a number, as it is written where the output is captured: only a
terminal is shown the kind in colour, and no output here is one. -/
def line (number : Nat) (r : Record) : String :=
  trimRight (padLeft 4 (toString number) ++ "  " ++ padRight 16 r.kind ++ " " ++
    padRight 10 (offsets r) ++ " " ++ detail r)

end TemplateLexer.Report
