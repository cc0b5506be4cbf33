import TemplateLexer.Delimiters
import TemplateLexer.Scan.Ending
import TemplateLexer.Scan.Read

/-!
# Tokenizers

A tokenizer scans templates and hands every event, as soon as it is found, to a sink of the caller's
choice. It can be used for any number of templates: each parse begins with a fresh scan and fresh
counters, and keeps the options, the raw-text switch and the sink.
-/

set_option autoImplicit false

namespace TemplateLexer

universe u

/-- What a user of a tokenizer decides about the templates that it reads. -/
structure Options where
  delimiters : Delimiters := .braces
  /-- Whether the markers are read as text. -/
  vPre : Bool := false
  deriving DecidableEq, Inhabited

/-- The dialect that the options describe, with or without tags. -/
def Options.dialect (o : Options) (rawText : Bool) : Dialect :=
  ⟨utf8Bytes o.delimiters.opening, utf8Bytes o.delimiters.closing, o.vPre, rawText⟩

/-- The counters of a parse. -/
structure Stats where
  steps : Nat := 0
  /-- How often a byte was handed over from one mode to another. -/
  rereads : Nat := 0
  /-- How often the mode changed. -/
  transitions : Nat := 0
  /-- The number of events found, the end of the template included. -/
  events : Nat := 0
  deriving DecidableEq, Inhabited, Repr

/-- A place where events go, one after the other. -/
class Sink (σ : Type u) where
  emit : σ → Event → σ

/-- An array takes events at its end. -/
instance : Sink (Array Event) :=
  ⟨Array.push⟩

/-- Sends events to a sink, in order. -/
def Sink.emitAll {σ : Type u} [Sink σ] (sink : σ) (events : List Event) : σ :=
  events.foldl emit sink

/-- A scan together with what outlives it. -/
structure Tokenizer (σ : Type u) where
  options : Options
  /-- Whether tags are read as text. -/
  rawText : Bool := false
  scan : Scan := {}
  stats : Stats := {}
  sink : σ

namespace Tokenizer

variable {σ : Type u}

/-- A tokenizer that has read nothing yet. -/
def new (options : Options) (sink : σ) : Tokenizer σ :=
  { options := options, sink := sink }

/-- The mode that the last byte left. -/
def mode (t : Tokenizer σ) : Mode :=
  t.scan.mode

/-- The number of bytes read of the last template. -/
def cursor (t : Tokenizer σ) : Nat :=
  t.scan.cursor

/-- Goes back to a fresh scan and fresh counters. -/
def reset (t : Tokenizer σ) : Tokenizer σ :=
  { t with scan := {}, stats := {} }

/-- Decides whether tags are read as text from the next parse on. -/
def setRawText (t : Tokenizer σ) (rawText : Bool) : Tokenizer σ :=
  { t with rawText := rawText }

/-- Changes the sink and nothing else. -/
def editSink (t : Tokenizer σ) (f : σ → σ) : Tokenizer σ :=
  { t with sink := f t.sink }

variable [Sink σ]

/-- Counts events and sends them to the sink. -/
def report (t : Tokenizer σ) (events : List Event) : Tokenizer σ :=
  { t with
    stats := { t.stats with events := t.stats.events + events.length }
    sink := Sink.emitAll t.sink events }

/-- Reads one byte, given the byte behind it. -/
def feed (t : Tokenizer σ) (d : Dialect) (c : UInt8) (next : Option UInt8) : Tokenizer σ :=
  let r := t.scan.step d c next
  let stats := { t.stats with
    steps := t.stats.steps + 1
    rereads := t.stats.rereads + r.rereads
    transitions := t.stats.transitions + r.transitions }
  { t with scan := r.scan, stats := stats }.report r.events

/-- Reads bytes one after the other, each with the byte behind it in sight. -/
def feedAll (d : Dialect) : Tokenizer σ → List UInt8 → Tokenizer σ
  | t, [] => t
  | t, c :: rest => feedAll d (t.feed d c rest.head?) rest

/-- Reads a template from a fresh scan to its end. The mode and the cursor stay as the last byte
left them. -/
def parse (t : Tokenizer σ) (template : String) : Tokenizer σ :=
  let read := t.reset.feedAll (t.options.dialect t.rawText) (utf8Bytes template)
  read.report read.scan.ending

end Tokenizer

/-- The events of a template. -/
def tokenize (options : Options) (template : String) : Array Event :=
  ((Tokenizer.new options #[]).parse template).sink

end TemplateLexer
