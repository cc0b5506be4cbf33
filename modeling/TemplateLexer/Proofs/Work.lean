import TemplateLexer.Proofs.Layout.Progress

/-!
# The work of a scan

A mode hands bytes over to one other mode at most (`Mode.heir?`), and a byte is handed over no more
than twice, whatever state the scan is in (`settled`). The work of a parse is therefore in
proportion to the length of its template: the hand-overs, the changes of mode and the events are
bounded byte by byte (`Reading.Within`), and so are those of all bytes together (`work_linear`).
-/

set_option autoImplicit false

namespace TemplateLexer

universe u

/-- The mode that a mode hands bytes over to, if it hands any over. -/
def Mode.heir? : Mode → Option Mode
  | .text => some .interpolationOpen
  | .interpolation => some .interpolationClose
  | .interpolationClose => some .interpolation
  | .interpolationOpen | .beforeTagName | .beforeClosingTagName | .reserved _ => some .text
  | .inClosingTagName => some .afterClosingTagName
  | .inAttrName | .inDirName | .inDirArg | .inDirDynamicArg | .inDirModifier => some .afterAttrName
  | .inTagName | .inSelfClosingTag | .afterAttrName | .inBareValue => some .beforeAttrName
  | .beforeAttrValue => some .inBareValue
  | .afterClosingTagName | .beforeAttrName | .inQuotedValue _ => none

/-- A bound on the number of events that a byte can cause from a mode on. -/
def Mode.budget : Mode → Nat
  | .afterClosingTagName => 0
  | .text | .interpolationOpen | .interpolation | .interpolationClose | .beforeTagName
  | .inSelfClosingTag | .beforeClosingTagName | .inClosingTagName | .beforeAttrName
  | .reserved _ => 1
  | .inTagName | .afterAttrName | .inQuotedValue _ => 2
  | .beforeAttrValue | .inBareValue => 3
  | .inAttrName | .inDirName | .inDirArg | .inDirModifier => 4
  | .inDirDynamicArg => 5

/-- No mode needs more than five events for a byte. -/
theorem Mode.budget_le_five (m : Mode) : m.budget ≤ 5 := by
  unfold budget
  split <;> decide

/-- No mode hands a byte over to itself. -/
theorem Mode.ne_of_heir? {m m' : Mode} (h : m.heir? = some m') : m' ≠ m := by
  cases m <;> cases h <;> exact nofun

/-- A turn of a mode hands its byte over to the heir of the mode only, and leaves to it what its own
events leave of the budget. -/
structure Turn.Thrifty (m : Mode) (t : Turn) : Prop where
  heir : t.again = true → m.heir? = some t.scan.mode
  budget : t.events.length + (if t.again then t.scan.mode.budget else 0) ≤ m.budget

namespace Scan

variable {d : Dialect} {s s' : Scan} {c : UInt8} {next : Option UInt8} {k : Nat} {m : Mode}
  {es : List Event}

/-! ## A single turn -/

/-- A turn that hands its byte over is thrifty if the heir has enough left. -/
theorem thrifty_again (hheir : m.heir? = some s.mode) (h : es.length + s.mode.budget ≤ m.budget) :
    Turn.Thrifty m ⟨s, es, true⟩ :=
  ⟨fun _ => hheir, h⟩

/-- A turn that keeps its byte is thrifty within the budget of its mode. -/
theorem thrifty_done (h : es.length ≤ m.budget) : Turn.Thrifty m ⟨s, es, false⟩ :=
  ⟨nofun, h⟩

/-- The text under way is one event at most. -/
theorem length_pendingText_le (n : Nat) : (s.pendingText n).length ≤ 1 := by
  simp only [pendingText]
  split
  · exact Nat.le_refl 1
  · exact Nat.zero_le 1

/-- The start of an attribute is one event at most. -/
theorem length_attrStart_le : (s.attrStart c next).events.length ≤ 1 := by
  unfold attrStart
  split
  · exact Nat.zero_le 1
  · split
    · exact Nat.le_refl 1
    · exact Nat.zero_le 1

/-- The start of an attribute behind some events is thrifty if one more fits the budget. -/
theorem thrifty_attrStart (es : List Event) (h : es.length + 1 ≤ m.budget) :
    Turn.Thrifty m { s.attrStart c next with events := es ++ (s.attrStart c next).events } := by
  have hstart : (s.attrStart c next).events.length ≤ 1 := length_attrStart_le
  have hdone : (s.attrStart c next).again = false := again_attrStart s c next
  simp only [hdone]
  apply thrifty_done
  rw [List.length_append]
  omega

/-- Every turn is thrifty. -/
theorem thrifty_turn : (s.turn d c next).Thrifty s.mode := by
  unfold turn
  cases hmode : s.mode with
  | text =>
    simp only [readText]
    split
    · exact thrifty_done (length_pendingText_le _)
    · split
      · exact thrifty_again rfl (Nat.le_refl 1)
      · exact thrifty_done (Nat.zero_le 1)
  | interpolationOpen =>
    simp only [readInterpolationOpen]
    split
    · exact thrifty_done (Nat.zero_le 1)
    · exact thrifty_done (length_pendingText_le _)
    · exact thrifty_again rfl (Nat.le_refl 1)
  | beforeAttrName =>
    simp only [readBeforeAttrName]
    repeat' split
    · exact thrifty_done (Nat.le_refl 1)
    · exact thrifty_done (Nat.zero_le 1)
    · exact thrifty_done (Nat.zero_le 1)
    · exact thrifty_attrStart [] (Nat.le_refl 1)
  | afterAttrName =>
    simp only [readAfterAttrName]
    repeat' split
    · exact thrifty_done (Nat.zero_le 2)
    · exact thrifty_again rfl (Nat.le_refl 2)
    · exact thrifty_done (Nat.zero_le 2)
    · exact thrifty_attrStart [s.absentValue] (Nat.le_refl 2)
  -- The parts of a name all have the same heir, which may need two of their events.
  | inAttrName | inDirName | inDirArg | inDirDynamicArg | inDirModifier =>
    simp only [readInAttrName, readInDirName, readInDirArg, readInDirDynamicArg, readInDirModifier]
    repeat' split
    all_goals
      constructor
      · simp [nameEnd, Mode.heir?, enter, since, shaped]
      · simp [nameEnd, Mode.budget, enter, since, shaped]
  | _ =>
    simp only [readInterpolation, readInterpolationClose, readBeforeTagName, readInTagName,
      readInSelfClosingTag, readBeforeClosingTagName, readInClosingTagName,
      readAfterClosingTagName, readBeforeAttrValue, readInQuotedValue, readInBareValue]
    repeat' split
    all_goals
      constructor
      · simp [Mode.heir?, enter, closed, since, matching]
      · simp [Mode.budget, enter, closed, since, matching]

/-! ## A single byte -/

/-- Turns in a row that all hand their byte over, each of them to another mode, lead from a scan to
another one. -/
inductive HandsOver (d : Dialect) (c : UInt8) (next : Option UInt8) : Nat → Scan → Scan → Prop
  | none (s : Scan) : HandsOver d c next 0 s s
  | turn {k : Nat} {s s' : Scan} : (s.turn d c next).again = true →
      (s.turn d c next).scan.mode ≠ s.mode → HandsOver d c next k (s.turn d c next).scan s' →
      HandsOver d c next (k + 1) s s'

/-- The reading of a byte ends: it is handed over a number of times, at most twice, and the turn of
the last scan goes on to the next byte. -/
structure Settled (d : Dialect) (s : Scan) (c : UInt8) (next : Option UInt8) (k : Nat)
    (last : Scan) : Prop where
  le_two : k ≤ 2
  handed : HandsOver d c next k s last
  done : (last.turn d c next).again = false
  scan : (s.settle d c next).scan = (last.turn d c next).scan
  rereads : (s.settle d c next).rereads = k
  /-- Behind the last hand-over the mode changes at most once more. -/
  transitions : (s.settle d c next).transitions =
    k + if (last.turn d c next).scan.mode = last.mode then 0 else 1

/-- A byte is handed over no more often than its rank says. -/
theorem rereads_le_rank : (s.settle d c next).rereads ≤ s.rank d c := by
  fun_induction settle d s c next with
  | case1 s t moved again r ih =>
    have hlt := rank_turn_lt d s c next again
    exact Nat.lt_of_le_of_lt ih hlt
  | case2 s t moved done => exact Nat.zero_le _

/-- The reading of every byte ends, whatever state the scan is in. -/
theorem settled (d : Dialect) (s : Scan) (c : UInt8) (next : Option UInt8) :
    ∃ k last, Settled d s c next k last := by
  have hle : (s.settle d c next).rereads ≤ 2 := Nat.le_trans rereads_le_rank (rank_le_two d s c)
  suffices h : ∃ k last, HandsOver d c next k s last ∧ (last.turn d c next).again = false ∧
      (s.settle d c next).scan = (last.turn d c next).scan ∧ (s.settle d c next).rereads = k ∧
      (s.settle d c next).transitions =
        k + if (last.turn d c next).scan.mode = last.mode then 0 else 1 by
    obtain ⟨k, last, hhanded, hdone, hscan, hrereads, htransitions⟩ := h
    exact ⟨k, last, hrereads ▸ hle, hhanded, hdone, hscan, hrereads, htransitions⟩
  clear hle
  fun_induction settle d s c next with
  | case1 s t moved again r ih =>
    obtain ⟨k, last, hhanded, hdone, hscan, hrereads, htransitions⟩ := ih
    have hmode : t.scan.mode ≠ s.mode := Mode.ne_of_heir? (thrifty_turn.heir again)
    refine ⟨k + 1, last, .turn again hmode hhanded, hdone, hscan, ?_, ?_⟩
    · show r.rereads + 1 = k + 1
      rw [hrereads]
    · show r.transitions + moved = _
      rw [htransitions, show moved = 1 from if_neg hmode, Nat.add_right_comm]
  | case2 s t moved done =>
    refine ⟨0, s, .none s, Bool.not_eq_true _ ▸ done, rfl, rfl, ?_⟩
    exact (Nat.zero_add moved).symm

/-- A byte causes no more events than its mode allows. -/
theorem length_settle_le : (s.settle d c next).events.length ≤ s.mode.budget := by
  fun_induction settle d s c next with
  | case1 s t moved again r ih =>
    have hthrifty : t.Thrifty s.mode := thrifty_turn
    have hbudget := hthrifty.budget
    rw [if_pos again] at hbudget
    rw [List.length_append]
    exact Nat.le_trans (Nat.add_le_add_left ih _) hbudget
  | case2 s t moved done => exact Nat.le_of_add_right_le thrifty_turn.budget

end Scan

/-! ## Bytes in a row -/

/-- The counts of a reading are within the bounds for a number of bytes. -/
structure Reading.Within (r : Reading) (n : Nat) : Prop where
  rereads_le : r.rereads ≤ 2 * n
  rereads_le_transitions : r.rereads ≤ r.transitions
  transitions_le : r.transitions ≤ r.rereads + n
  events_le : r.events.length ≤ 5 * n

namespace Scan

variable {d : Dialect} {s : Scan} {c : UInt8} {next : Option UInt8}

/-- The bounds of two readings add up. -/
theorem within_andThen {r r' : Reading} {m n : Nat} (h : r.Within m) (h' : r'.Within n) :
    (r.andThen r').Within (m + n) := by
  obtain ⟨hrereads, hle, htransitions, hevents⟩ := h
  obtain ⟨hrereads', hle', htransitions', hevents'⟩ := h'
  refine ⟨?_, ?_, ?_, ?_⟩
  · simp only [Reading.andThen]
    omega
  · exact Nat.add_le_add hle hle'
  · simp only [Reading.andThen]
    omega
  · simp only [Reading.andThen, List.length_append]
    omega

/-- A byte stays within the bounds for one byte. -/
theorem within_step : (s.step d c next).Within 1 := by
  obtain ⟨k, last, h⟩ := settled d s c next
  have hrereads : (s.step d c next).rereads = k := h.rereads
  have htransitions : (s.step d c next).transitions = _ := h.transitions
  have hevents : (s.step d c next).events.length ≤ 5 :=
    Nat.le_trans length_settle_le (Mode.budget_le_five _)
  have hle := h.le_two
  refine ⟨?_, ?_, ?_, hevents⟩
  · omega
  · omega
  · rw [htransitions, hrereads]
    split <;> omega

/-- The counts of a run are within the bounds for its bytes. -/
theorem within_run (bytes : List UInt8) : (s.run d bytes next).Within bytes.length := by
  induction bytes generalizing s with
  | nil => exact ⟨Nat.le_refl 0, Nat.le_refl 0, Nat.le_refl 0, Nat.le_refl 0⟩
  | cons c rest ih =>
    rw [List.length_cons, Nat.add_comm]
    exact within_andThen within_step ih

/-- A template adds three events at most at its end. -/
theorem length_ending_le : s.ending.length ≤ 3 := by
  have htext := length_pendingText_le (s := s) s.cursor
  rw [ending, List.length_append]
  apply Nat.succ_le_succ
  unfold leftover
  cases s.mode with
  | text | interpolationOpen | beforeTagName | beforeClosingTagName | reserved mode =>
    exact Nat.le_succ_of_le htext
  | interpolation | interpolationClose => exact Nat.succ_le_succ htext
  | inQuotedValue mark =>
    dsimp only
    split <;> simp
  | inBareValue =>
    dsimp only
    split <;> simp
  | _ => exact Nat.le_succ 1

end Scan

/-! ## Parses -/

/-- The reading of a byte ends after two hand-overs at most, from whatever state of the scan and for
whatever markers. A parse therefore takes one step for each byte of its template, hands bytes over
at most twice as often, changes its mode at least as often as it hands a byte over and at most once
more for each byte, and finds at most five events for each byte and three at the end, all of which
the sink gets. -/
theorem work_linear {σ : Type u} [Sink σ] (t : Tokenizer σ) (template : String) :
    (∀ (d : Dialect) (s : Scan) (c : UInt8) (next : Option UInt8),
      ∃ k last, Scan.Settled d s c next k last) ∧
    let stats := (t.parse template).stats
    let events := (t.options.dialect t.rawText).events template
    stats.steps = (utf8Bytes template).length ∧
      (t.parse template).cursor = (utf8Bytes template).length ∧
      stats.rereads ≤ 2 * stats.steps ∧
      stats.rereads ≤ stats.transitions ∧
      stats.transitions ≤ stats.rereads + stats.steps ∧
      (t.parse template).sink = Sink.emitAll t.sink events ∧
      stats.events = events.length ∧
      stats.events ≤ 5 * stats.steps + 3 := by
  have hrun : ((t.options.dialect t.rawText).run template).Within (utf8Bytes template).length :=
    Scan.within_run _
  have hending := Scan.length_ending_le (s := ((t.options.dialect t.rawText).run template).scan)
  rw [Tokenizer.parse_eq]
  refine ⟨Scan.settled, rfl, Dialect.cursor_run _ template, hrun.rereads_le,
    hrun.rereads_le_transitions, hrun.transitions_le, rfl, rfl, ?_⟩
  simp only [Dialect.events, List.length_append]
  exact Nat.add_le_add hrun.events_le hending

/-- The bounds are met by a byte that ends an unclosed argument and a tag. -/
example : (Scan.step ⟨[0x7B], [0x7D], false, false⟩
      ⟨.inDirDynamicArg, 9, some 7, .idle, .opened⟩ Byte.tagEnd none).events.length = 5 := by
  decide +kernel

end TemplateLexer
