import TemplateLexer.Scan.Run
import TemplateLexer.Tokenizer

/-!
# What a parse amounts to

A parse is a run of a fresh scan over the bytes of the template, followed by the events of its end
(`parse_eq`). The sink receives these events in order and has no part in finding them.
-/

set_option autoImplicit false

namespace TemplateLexer

universe u

namespace Dialect

/-- The run of a fresh scan over a template. -/
def run (d : Dialect) (template : String) : Reading :=
  Scan.run d {} (utf8Bytes template) none

/-- The events of a template, with those of its end. -/
def events (d : Dialect) (template : String) : List Event :=
  (d.run template).events ++ (d.run template).scan.ending

end Dialect

namespace Sink

variable {σ : Type u} [Sink σ]

/-- Events can be sent in two parts. -/
theorem emitAll_append (sink : σ) (first second : List Event) :
    emitAll sink (first ++ second) = emitAll (emitAll sink first) second := by
  simp [emitAll, List.foldl_append]

/-- An array holds the events sent to it, behind those that it held. -/
theorem emitAll_array (held : Array Event) (events : List Event) :
    emitAll held events = held ++ events.toArray := by
  induction events generalizing held with
  | nil => simp [emitAll]
  | cons e rest ih =>
    simp only [emitAll, List.foldl_cons] at ih ⊢
    rw [ih]
    simp [emit]

end Sink

namespace Tokenizer

variable {σ : Type u} [Sink σ]

/-- Reading bytes in a row is a run of the scan whose events go to the sink. -/
theorem feedAll_eq (d : Dialect) (t : Tokenizer σ) (bytes : List UInt8) :
    t.feedAll d bytes =
      let r := t.scan.run d bytes none
      { t with
        scan := r.scan
        stats := ⟨t.stats.steps + bytes.length, t.stats.rereads + r.rereads,
          t.stats.transitions + r.transitions, t.stats.events + r.events.length⟩
        sink := Sink.emitAll t.sink r.events } := by
  induction bytes generalizing t with
  | nil => rfl
  | cons c rest ih =>
    rw [feedAll, ih]
    simp only [feed, report, Scan.run, Reading.andThen, Option.or_none, Sink.emitAll_append,
      List.length_cons, List.length_append, Nat.add_assoc, Nat.add_comm 1]

/-- A parse gives the run of a fresh scan; its counters are those of the run, and its events, with
those of the end, go to the sink. -/
theorem parse_eq (t : Tokenizer σ) (template : String) :
    t.parse template =
      let d := t.options.dialect t.rawText
      let r := d.run template
      { t with
        scan := r.scan
        stats := ⟨(utf8Bytes template).length, r.rereads, r.transitions,
          (d.events template).length⟩
        sink := Sink.emitAll t.sink (d.events template) } := by
  simp only [parse, feedAll_eq, reset, report, Dialect.run, Dialect.events, Sink.emitAll_append,
    List.length_append, Nat.zero_add]

end Tokenizer

/-- The events of a template are those of its run and of its end. -/
theorem tokenize_eq (options : Options) (template : String) :
    tokenize options template = ((options.dialect false).events template).toArray := by
  rw [tokenize, Tokenizer.parse_eq]
  simp only [Tokenizer.new, Sink.emitAll_array]
  simp

end TemplateLexer
