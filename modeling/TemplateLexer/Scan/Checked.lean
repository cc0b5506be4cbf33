import TemplateLexer.Scan.Ending
import TemplateLexer.Scan.Run
import TemplateLexer.Tokenizer

/-!
# Checked offsets

A scan computes with offsets: it subtracts lengths from them and puts spans together. A natural
number does not show that a difference fell below zero, and a span does not show that it ends before
it starts. The checked readings below are those of a scan, except that each difference and each span
is checked, and the first fault ends them.
-/

set_option autoImplicit false

namespace TemplateLexer

/-- What can go wrong when offsets are computed. -/
inductive Fault where
  /-- More is subtracted from an offset than there is. -/
  | negative
  /-- A span ends before it starts. -/
  | reversed
  deriving DecidableEq, Repr

/-- A difference of offsets that must not fall below zero. -/
def checkedSub (n k : Nat) : Except Fault Nat :=
  if k ≤ n then .ok (n - k) else .error .negative

/-- A span that must not end in front of its start. -/
def Span.checked (start stop : Nat) : Except Fault Span :=
  (between start stop).mapError fun _ => .reversed

/-- Puts the span of an event together again. -/
def Event.check (e : Event) : Except Fault Unit :=
  match e.span? with
  | none => .ok ()
  | some span => (Span.checked span.start span.stop).map fun _ => ()

/-- Events the spans of all of which are checked. -/
def checkEvents (events : List Event) : Except Fault (List Event) :=
  (events.forM Event.check).map fun _ => events

/-! ## Results without a fault -/

section

variable {α β : Type}

/-- Two computations in a row are without a fault if each of them is. -/
theorem bind_eq_ok_iff {x : Except Fault α} {f : α → Except Fault β} {b : β} :
    (x >>= f) = .ok b ↔ ∃ a, x = .ok a ∧ f a = .ok b := by
  cases x with
  | error fault => simp [bind, Except.bind]
  | ok a => simp [bind, Except.bind]

/-- A function of a result does not add a fault. -/
theorem map_eq_ok_iff {x : Except Fault α} {f : α → β} {b : β} :
    x.map f = .ok b ↔ ∃ a, x = .ok a ∧ f a = b := by
  cases x with
  | error fault => simp [Except.map]
  | ok a => simp [Except.map]

/-- A difference is without a fault exactly if it does not fall below zero. -/
theorem checkedSub_eq_ok_iff {n k m : Nat} : checkedSub n k = .ok m ↔ k ≤ n ∧ n - k = m := by
  unfold checkedSub
  split
  · next h => simp [h]
  · next h => simp [h]

/-- A span is without a fault exactly if its offsets are in order. -/
theorem checked_eq_ok_iff {i j : Nat} {span : Span} :
    Span.checked i j = .ok span ↔ i ≤ j ∧ (⟨i, j⟩ : Span) = span := by
  unfold Span.checked Span.between
  split
  · next h =>
    show (Except.ok ⟨i, j⟩ : Except Fault Span) = .ok span ↔ _
    simp [h]
  · next h =>
    show (Except.error .reversed : Except Fault Span) = .ok span ↔ _
    simp [h]

/-- Checking does not change events. -/
theorem eq_of_checkEvents {es checked : List Event} (h : checkEvents es = .ok checked) :
    es = checked := by
  obtain ⟨_, _, rfl⟩ := map_eq_ok_iff.mp h
  rfl

end

namespace Scan

/-- The part under way, as a span that is checked. -/
def checkedPending (s : Scan) : Except Fault Span :=
  Span.checked (s.sectionStart.getD s.cursor) s.cursor

/-- The argument under way, with its brackets taken off by checked differences. -/
def checkedPendingArg (s : Scan) : Except Fault Event := do
  let span ← s.checkedPending
  if s.argShape = .enclosed then
    let stop ← checkedSub span.stop 1
    return .dirDynamicArg (← Span.checked (span.start + 1) stop)
  else return .dirArg span

/-! ## The modes that subtract -/

/-- Reads a byte of the opening marker, with the way back to its first byte checked. -/
def checkedInterpolationOpen (d : Dialect) (s : Scan) (c : UInt8) : Except Fault Turn :=
  match s.matcher.step d.opening c with
  | (.completed, m) => do
    let start ← checkedSub (s.cursor + 1) d.opening.length
    let text ← checkEvents (s.pendingText start)
    return { scan := ((s.matching m).enter .interpolation).since start, events := text }
  | _ => .ok (s.readInterpolationOpen d c)

/-- Reads a byte of the closing marker, with the way back to its first byte checked. -/
def checkedInterpolationClose (d : Dialect) (s : Scan) (c : UInt8) : Except Fault Turn :=
  match s.matcher.step d.closing c with
  | (.completed, m) => do
    let start := match s.sectionStart with
      | some offset => offset + d.opening.length
      | none => s.cursor
    let stop ← checkedSub (s.cursor + 1) d.closing.length
    let span ← Span.checked start stop
    return { scan := ((s.matching m).enter .text).since (s.cursor + 1)
             events := [.interpolation span] }
  | _ => .ok (s.readInterpolationClose d c)

/-- Reads a byte of an argument, with what is reported of it checked. -/
def checkedInDirArg (s : Scan) (c : UInt8) : Except Fault Turn :=
  if Byte.endsName c then s.checkedPendingArg.map fun arg => s.nameEnd [arg]
  else if c = Byte.dot then
    s.checkedPendingArg.map fun arg =>
      { scan := ((s.enter .inDirModifier).since (s.cursor + 1)).shaped .empty
        events := [arg] }
  else .ok (s.readInDirArg c)

/-! ## Turns and runs -/

/-- What the mode of a scan makes of a byte. The modes that subtract nothing put together no spans
but those of their events. -/
def checkedTurn (d : Dialect) (s : Scan) (c : UInt8) (next : Option UInt8) : Except Fault Turn :=
  match s.mode with
  | .interpolationOpen => s.checkedInterpolationOpen d c
  | .interpolationClose => s.checkedInterpolationClose d c
  | .inDirArg => s.checkedInDirArg c
  | _ => (checkEvents (s.turn d c next).events).map fun _ => s.turn d c next

/-! ## A checked turn is a turn -/

section Sound

variable {d : Dialect} {s : Scan} {c : UInt8} {next : Option UInt8}

/-- The argument under way is the same with and without the checks. -/
theorem pendingArg_of_checked {arg : Event} (h : s.checkedPendingArg = .ok arg) :
    s.pendingArg = arg := by
  obtain ⟨span, hspan, h⟩ := bind_eq_ok_iff.mp h
  obtain ⟨_, rfl⟩ := checked_eq_ok_iff.mp hspan
  split at h
  · next hshape =>
    obtain ⟨stop, hstop, h⟩ := bind_eq_ok_iff.mp h
    obtain ⟨_, rfl⟩ := checkedSub_eq_ok_iff.mp hstop
    obtain ⟨inner, hinner, h⟩ := bind_eq_ok_iff.mp h
    obtain ⟨_, rfl⟩ := checked_eq_ok_iff.mp hinner
    obtain rfl := Except.ok.inj h
    simp only [pendingArg, if_pos hshape]
    rfl
  · next hshape =>
    obtain rfl := Except.ok.inj h
    simp only [pendingArg, if_neg hshape]
    rfl

/-- The opening marker is read in the same way without the checks. -/
theorem readInterpolationOpen_of_checked {t : Turn}
    (h : s.checkedInterpolationOpen d c = .ok t) : s.readInterpolationOpen d c = t := by
  unfold checkedInterpolationOpen at h
  split at h
  · next m hstep =>
    obtain ⟨start, hstart, h⟩ := bind_eq_ok_iff.mp h
    obtain ⟨_, rfl⟩ := checkedSub_eq_ok_iff.mp hstart
    obtain ⟨text, htext, h⟩ := bind_eq_ok_iff.mp h
    obtain rfl := eq_of_checkEvents htext
    obtain rfl := Except.ok.inj h
    simp only [readInterpolationOpen, hstep]
  · exact Except.ok.inj h

/-- The closing marker is read in the same way without the checks. -/
theorem readInterpolationClose_of_checked {t : Turn}
    (h : s.checkedInterpolationClose d c = .ok t) : s.readInterpolationClose d c = t := by
  unfold checkedInterpolationClose at h
  split at h
  · next m hstep =>
    obtain ⟨stop, hstop, h⟩ := bind_eq_ok_iff.mp h
    obtain ⟨_, rfl⟩ := checkedSub_eq_ok_iff.mp hstop
    obtain ⟨span, hspan, h⟩ := bind_eq_ok_iff.mp h
    obtain ⟨_, rfl⟩ := checked_eq_ok_iff.mp hspan
    obtain rfl := Except.ok.inj h
    cases hsection : s.sectionStart <;> simp only [readInterpolationClose, hstep, hsection]
  · exact Except.ok.inj h

/-- An argument is read in the same way without the checks. -/
theorem readInDirArg_of_checked {t : Turn} (h : s.checkedInDirArg c = .ok t) :
    s.readInDirArg c = t := by
  unfold checkedInDirArg at h
  split at h
  · next hend =>
    obtain ⟨arg, harg, rfl⟩ := map_eq_ok_iff.mp h
    simp only [readInDirArg, if_pos hend, pendingArg_of_checked harg]
  · next hend =>
    split at h
    · next hdot =>
      obtain ⟨arg, harg, rfl⟩ := map_eq_ok_iff.mp h
      subst hdot
      simp only [readInDirArg, if_neg hend, pendingArg_of_checked harg]
      rfl
    · exact Except.ok.inj h

/-- A turn without a fault is the turn that is made without checks. -/
theorem turn_of_checked {t : Turn} (h : s.checkedTurn d c next = .ok t) :
    s.turn d c next = t := by
  obtain ⟨mode, cursor, sectionStart, matcher, argShape⟩ := s
  cases mode
  case interpolationOpen => exact readInterpolationOpen_of_checked h
  case interpolationClose => exact readInterpolationClose_of_checked h
  case inDirArg => exact readInDirArg_of_checked h
  all_goals
    simp only [checkedTurn] at h
    obtain ⟨_, _, rfl⟩ := map_eq_ok_iff.mp h
    rfl

end Sound

example : checkedPending { mode := .inTagName, cursor := 2, sectionStart := some 3 } =
    .error .reversed := rfl

/-! ## Runs -/

/-- Reads a byte until no mode hands it over any more. -/
def checkedSettle (d : Dialect) (s : Scan) (c : UInt8) (next : Option UInt8) :
    Except Fault Reading :=
  match _turn : s.checkedTurn d c next with
  | .error fault => .error fault
  | .ok t =>
    let moved := if t.scan.mode = s.mode then 0 else 1
    if _again : t.again = true then
      (t.scan.checkedSettle d c next).map fun r =>
        ⟨r.scan, t.events ++ r.events, r.rereads + 1, r.transitions + moved⟩
    else .ok ⟨t.scan, t.events, 0, moved⟩
termination_by s.rank d c
decreasing_by
  obtain rfl := turn_of_checked _turn
  exact rank_turn_lt d s c next _again

/-- Reads a byte with all checks, and goes on to the next one. -/
def checkedStep (d : Dialect) (s : Scan) (c : UInt8) (next : Option UInt8) : Except Fault Reading :=
  (s.checkedSettle d c next).map fun r =>
    { r with scan := { r.scan with cursor := r.scan.cursor + 1 } }

/-- Reads bytes one after the other with all checks. -/
def checkedRun (d : Dialect) : Scan → List UInt8 → Option UInt8 → Except Fault Reading
  | s, [], _ => .ok (.nothing s)
  | s, c :: rest, next => do
    let r ← s.checkedStep d c (rest.head?.or next)
    (r.scan.checkedRun d rest next).map r.andThen

/-- The events at the end of a template. The span of a value is put together even if it turns out to
be empty. -/
def checkedEnding (s : Scan) : Except Fault (List Event) :=
  match s.mode with
  | .inQuotedValue _ | .inBareValue => s.checkedPending.map fun _ => s.ending
  | _ => checkEvents s.ending

end Scan

/-- The events of a template, or the first fault met on the way. -/
def Dialect.checkedEvents (d : Dialect) (template : String) : Except Fault (List Event) := do
  let r ← Scan.checkedRun d {} (utf8Bytes template) none
  let ending ← r.scan.checkedEnding
  return r.events ++ ending

end TemplateLexer
