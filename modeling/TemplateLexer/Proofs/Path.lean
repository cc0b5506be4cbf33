import TemplateLexer.Proofs.Induction
import TemplateLexer.Proofs.Marker

/-!
# Paths of a scan

`Leads d w s es s'` says that turns over `w` lead from a scan to another one and report `es` on the
way. Where a path leads, the run of its first scan goes too (`Leads.finish_eq`), so the events of a
template can be found by following a path through it, part by part.
-/

set_option autoImplicit false

namespace TemplateLexer

namespace Scan

variable {d : Dialect} {w : List UInt8} {s s' s'' : Scan} {c : UInt8} {es es' : List Event}

/-- Turns over an input lead from a scan to another one and report events on the way. -/
inductive Leads (d : Dialect) (w : List UInt8) : Scan → List Event → Scan → Prop
  | refl (s : Scan) : Leads d w s [] s
  | turn {s s' : Scan} {c : UInt8} {es : List Event} : w[s.cursor]? = some c →
      Leads d w (s.turn d c w[s.cursor + 1]?).onward es s' →
      Leads d w s ((s.turn d c w[s.cursor + 1]?).events ++ es) s'

/-- Paths that meet make one, with their events in a row. -/
theorem Leads.trans (h : Leads d w s es s') (h' : Leads d w s' es' s'') :
    Leads d w s (es ++ es') s'' := by
  induction h with
  | refl s => exact h'
  | turn hc _ ih =>
    rw [List.append_assoc]
    exact .turn hc (ih h')

/-- A single turn. -/
theorem Leads.one {t : Turn} (hc : w[s.cursor]? = some c)
    (ht : s.turn d c w[s.cursor + 1]? = t) : Leads d w s t.events t.onward := by
  subst ht
  have h := Leads.turn (d := d) hc (.refl _)
  rwa [List.append_nil] at h

/-- The reading of all that is left of an input. -/
def finish (d : Dialect) (w : List UInt8) (s : Scan) : Reading :=
  s.run d (w.drop s.cursor) none

/-- A run to the end begins with a step, as long as there is a byte. -/
theorem finish_of_getElem? (hc : w[s.cursor]? = some c) :
    s.finish d w = (s.step d c w[s.cursor + 1]?).andThen
      ((s.step d c w[s.cursor + 1]?).scan.finish d w) := by
  have hdrop : w.drop s.cursor = c :: w.drop (s.cursor + 1) := by
    obtain ⟨hlt, hget⟩ := List.getElem?_eq_some_iff.mp hc
    rw [List.drop_eq_getElem_cons hlt, hget]
  rw [finish, hdrop, run, finish, cursor_step]
  simp only [Option.or_none, List.head?_drop]

/-- A turn is the first part of what is left to read. -/
theorem finish_turn (hc : w[s.cursor]? = some c) :
    (s.finish d w).scan = ((s.turn d c w[s.cursor + 1]?).onward.finish d w).scan ∧
      (s.finish d w).events = (s.turn d c w[s.cursor + 1]?).events ++
        ((s.turn d c w[s.cursor + 1]?).onward.finish d w).events := by
  have hcursor : (s.turn d c w[s.cursor + 1]?).scan.cursor = s.cursor := cursor_turn d s c _
  rw [finish_of_getElem? hc]
  by_cases hagain : (s.turn d c w[s.cursor + 1]?).again = true
  · have hnext : w[(s.turn d c w[s.cursor + 1]?).scan.cursor]? = some c := by rw [hcursor, hc]
    rw [Turn.onward, if_pos hagain, finish_of_getElem? hnext, step, settle, hcursor]
    simp only [hagain, dite_true, step, Reading.andThen, List.append_assoc, and_self]
  · rw [Turn.onward, if_neg hagain, step, settle]
    simp only [hagain, dite_false, Reading.andThen, and_self, hcursor, Bool.false_eq_true]

/-- What is left to read when a path ends is what is left to read of the run. -/
theorem Leads.finish_eq (h : Leads d w s es s') :
    (s.finish d w).scan = (s'.finish d w).scan ∧
      (s.finish d w).events = es ++ (s'.finish d w).events := by
  induction h with
  | refl s => exact ⟨rfl, rfl⟩
  | turn hc _ ih =>
    obtain ⟨hscan, hevents⟩ := finish_turn (d := d) hc
    rw [hscan, hevents, ih.1, ih.2, List.append_assoc]
    exact ⟨rfl, rfl⟩

/-- Behind the last byte there is nothing to read. -/
theorem finish_of_length_le (h : w.length ≤ s.cursor) : s.finish d w = .nothing s := by
  rw [finish, List.drop_eq_nil_of_le h, run]

/-- The events of a template are those of a path through it and of what is left behind the path. -/
theorem Leads.events_eq {template : String} (h : Leads d (utf8Bytes template) {} es s) :
    d.events template = es ++ ((s.finish d (utf8Bytes template)).events ++
      (s.finish d (utf8Bytes template)).scan.ending) := by
  obtain ⟨hscan, hevents⟩ := h.finish_eq
  show (finish d (utf8Bytes template) {}).events ++
    (finish d (utf8Bytes template) {}).scan.ending = _
  rw [hscan, hevents, List.append_assoc]

/-- Equal steps from one offset to another lead from the first to the last. -/
theorem Leads.upTo {i j : Nat} {f : Nat → Scan} (hij : i ≤ j)
    (h : ∀ n, i ≤ n → n < j → Leads d w (f n) [] (f (n + 1))) : Leads d w (f i) [] (f j) := by
  obtain ⟨k, rfl⟩ := Nat.exists_eq_add_of_le hij
  induction k with
  | zero => exact .refl _
  | succ k ih =>
    have hshort : Leads d w (f i) [] (f (i + k)) :=
      ih (Nat.le_add_right i k) fun n hi hk => h n hi (Nat.lt_succ_of_lt hk)
    exact hshort.trans (h (i + k) (Nat.le_add_right i k) (Nat.lt_succ_self _))

/-- A path leads to a scan of a certain kind that still has to report some events: those of the path
and those still to be reported are given together. -/
def Reaches (d : Dialect) (w : List UInt8) (R : Scan → List Event → Prop) (s : Scan)
    (es : List Event) : Prop :=
  ∃ s' first owed, Leads d w s first s' ∧ R s' owed ∧ es = first ++ owed

variable {R R' : Scan → List Event → Prop} {owed : List Event}

/-- A path reaches where it leads. -/
theorem Leads.reaches (h : Leads d w s es s') (hR : R s' owed) :
    Reaches d w R s (es ++ owed) :=
  ⟨s', es, owed, h, hR, rfl⟩

/-- A path can be put in front of what reaches a goal. -/
theorem Leads.trans_reaches (h : Leads d w s es s') (h' : Reaches d w R s' es') :
    Reaches d w R s (es ++ es') := by
  obtain ⟨s₂, first, owed, hpath, hR, rfl⟩ := h'
  rw [← List.append_assoc]
  exact (h.trans hpath).reaches hR

/-- A path can be put behind what reaches a goal, if one leads on from all that the goal allows. -/
theorem Reaches.leads (h : Reaches d w R s es)
    (hnext : ∀ s' owed, R s' owed → Leads d w s' (owed ++ es') s'') :
    Leads d w s (es ++ es') s'' := by
  obtain ⟨s₁, first, owed, hpath, hR, rfl⟩ := h
  rw [List.append_assoc]
  exact hpath.trans (hnext s₁ owed hR)

/-- A goal can be replaced by a wider one. -/
theorem Reaches.mono (h : Reaches d w R s es) (hR : ∀ s' owed, R s' owed → R' s' owed) :
    Reaches d w R' s es := by
  obtain ⟨s₁, first, owed, hpath, hs, rfl⟩ := h
  exact hpath.reaches (hR s₁ owed hs)

/-- Goals can be reached one after the other. -/
theorem Reaches.bind (h : Reaches d w R s es)
    (hnext : ∀ s' owed, R s' owed → Reaches d w R' s' (owed ++ es')) :
    Reaches d w R' s (es ++ es') := by
  obtain ⟨s₁, first, owed, hpath, hR, rfl⟩ := h
  obtain ⟨s₂, second, owed', hpath', hR', heq⟩ := hnext s₁ owed hR
  refine ⟨s₂, first ++ second, owed', hpath.trans hpath', hR', ?_⟩
  rw [List.append_assoc, List.append_assoc, heq]

end Scan

/-! ## Markers -/

/-- The bytes of the marker of a side. -/
def Dialect.marker (d : Dialect) : Side → List UInt8
  | .opening => d.opening
  | .closing => d.closing

/-- The mode in which the marker of a side is looked for. -/
def Side.seeking : Side → Mode
  | .opening => .text
  | .closing => .interpolation

/-- The mode in which the marker of a side is compared with the input. -/
def Side.comparing : Side → Mode
  | .opening => .interpolationOpen
  | .closing => .interpolationClose

/-- A byte that the marker of a side can begin with, since it is not taken for a tag. -/
def Dialect.Seeks (d : Dialect) (c : UInt8) : Side → Prop
  | .opening => d.vPre = false ∧ ¬ (c = Byte.tagOpen ∧ d.rawText = false)
  | .closing => True

namespace Scan

variable {d : Dialect} {w : List UInt8} {c : UInt8} {i n k : Nat}
  {next : Option UInt8}

/-- The first byte of the marker that is sought begins the comparison, and is read again. -/
theorem turn_seeking_head (side : Side) (hc : d.Seeks c side)
    (hhead : (d.marker side).head? = some c) :
    turn d ⟨side.seeking, n, some i, .idle, .empty⟩ c next =
      ⟨⟨side.comparing, n, some i, ⟨some 0⟩, .empty⟩, [], true⟩ := by
  cases side with
  | opening =>
    obtain ⟨hpre, htag⟩ := hc
    have hopen : d.vPre = false ∧ d.opening.head? = some c := ⟨hpre, hhead⟩
    simp only [Side.seeking, turn, readText, if_neg htag, if_pos hopen]
    rfl
  | closing =>
    have hclose : d.closing.head? = some c := hhead
    simp only [Side.seeking, turn, readInterpolation, if_pos hclose]
    rfl

/-- Any other byte is passed by. -/
theorem turn_seeking_other (side : Side) (hc : d.Seeks c side)
    (hhead : (d.marker side).head? ≠ some c) :
    turn d ⟨side.seeking, n, some i, .idle, .empty⟩ c next =
      ⟨⟨side.seeking, n, some i, .idle, .empty⟩, [], false⟩ := by
  cases side with
  | opening =>
    have hopen : ¬ (d.vPre = false ∧ d.opening.head? = some c) := fun h => hhead h.2
    simp only [Side.seeking, turn, readText, if_neg hc.2, if_neg hopen]
  | closing =>
    have hclose : ¬ d.closing.head? = some c := hhead
    simp only [Side.seeking, turn, readInterpolation, if_neg hclose]

/-- A byte that the marker goes on with, and that is not its last, takes the comparison on. -/
theorem turn_comparing_next (side : Side) (hk : (d.marker side)[k]? = some c)
    (hmore : k + 1 ≠ (d.marker side).length) :
    turn d ⟨side.comparing, n, some i, ⟨some k⟩, .empty⟩ c next =
      ⟨⟨side.comparing, n, some i, ⟨some (k + 1)⟩, .empty⟩, [], false⟩ := by
  cases side with
  | opening =>
    have hbyte : d.opening[k]? = some c := hk
    have hlast : ¬ k + 1 = d.opening.length := hmore
    simp only [Side.comparing, turn, readInterpolationOpen,
      Matcher.step_advanced (m := ⟨some k⟩) hbyte hlast]
    rfl
  | closing =>
    have hbyte : d.closing[k]? = some c := hk
    have hlast : ¬ k + 1 = d.closing.length := hmore
    simp only [Side.comparing, turn, readInterpolationClose,
      Matcher.step_advanced (m := ⟨some k⟩) hbyte hlast]
    rfl

/-- Any other byte ends the comparison, and is read again. -/
theorem turn_comparing_other (side : Side) (hk : (d.marker side)[k]? ≠ some c) :
    turn d ⟨side.comparing, n, some i, ⟨some k⟩, .empty⟩ c next =
      ⟨⟨side.seeking, n, some i, .idle, .empty⟩, [], true⟩ := by
  cases side with
  | opening =>
    have hbyte : ¬ d.opening[k]? = some c := hk
    simp only [Side.comparing, turn, readInterpolationOpen,
      Matcher.step_mismatched (m := ⟨some k⟩) hbyte]
    rfl
  | closing =>
    have hbyte : ¬ d.closing[k]? = some c := hk
    simp only [Side.comparing, turn, readInterpolationClose,
      Matcher.step_mismatched (m := ⟨some k⟩) hbyte]
    rfl

/-- Where a marker begins, as many bytes of it as stand there are compared with success. -/
theorem leads_compared (side : Side) (hk : k < (d.marker side).length)
    (hfirst : w[n]? = (d.marker side)[0]?)
    (hocc : Marker.OccursAt ((d.marker side).take k) w n)
    (hc : ∀ c, (d.marker side).head? = some c → d.Seeks c side) :
    Leads d w ⟨side.seeking, n, some i, .idle, .empty⟩ []
      ⟨side.comparing, n + k, some i, ⟨some k⟩, .empty⟩ := by
  have hstart : Leads d w ⟨side.seeking, n, some i, .idle, .empty⟩ []
      ⟨side.comparing, n + 0, some i, ⟨some 0⟩, .empty⟩ := by
    have hmarker := List.getElem?_eq_getElem (Nat.zero_lt_of_lt hk)
    rw [hmarker] at hfirst
    rw [← List.head?_eq_getElem?] at hmarker
    exact .one hfirst (turn_seeking_head side (hc _ hmarker) hmarker)
  refine hstart.trans (Leads.upTo (f := fun p => ⟨side.comparing, n + p, some i, ⟨some p⟩, .empty⟩)
    (Nat.zero_le k) fun p _ hp => ?_)
  have hmarker := List.getElem?_eq_getElem (Nat.lt_trans hp hk)
  have hw : w[n + p]? = some (d.marker side)[p] :=
    hocc.getElem? (by rw [List.getElem?_take, if_pos hp, hmarker])
  exact .one hw (turn_comparing_next side hmarker (by omega))

/-- Where a marker stands, its bytes but the last are compared with success. -/
theorem leads_comparing (side : Side) (hocc : Marker.OccursAt (d.marker side) w n)
    (hk : k + 1 = (d.marker side).length)
    (hc : ∀ c, (d.marker side).head? = some c → d.Seeks c side) :
    Leads d w ⟨side.seeking, n, some i, .idle, .empty⟩ []
      ⟨side.comparing, n + k, some i, ⟨some k⟩, .empty⟩ := by
  have hlt : k < (d.marker side).length := by omega
  have hget := List.getElem?_eq_getElem (Nat.zero_lt_of_lt hlt)
  have hfirst : w[n]? = (d.marker side)[0]? := by
    rw [hget]
    exact hocc.getElem? hget
  have htake : Marker.OccursAt ((d.marker side).take k) w n :=
    (List.take_prefix k _).trans hocc
  exact leads_compared side hlt hfirst htake hc

/-- The opening marker is read: the text in front of it is reported. -/
theorem leads_opening (hocc : Marker.OccursAt d.opening w n) (ho : d.opening ≠ [])
    (hc : ∀ c, d.opening.head? = some c → d.Seeks c .opening) :
    Leads d w ⟨.text, n, some i, .idle, .empty⟩
      (pendingText ⟨.text, n, some i, .idle, .empty⟩ n)
      ⟨.interpolation, n + d.opening.length, some n, .idle, .empty⟩ := by
  obtain ⟨k, hk⟩ := Nat.exists_eq_succ_of_ne_zero fun h => ho (List.eq_nil_of_length_eq_zero h)
  have hfirst := leads_comparing (i := i) .opening hocc hk.symm hc
  have hlt : k < d.opening.length := by omega
  have hmarker := List.getElem?_eq_getElem hlt
  have hstart : n + k + 1 - k.succ = n := by omega
  have hlast : turn d ⟨.interpolationOpen, n + k, some i, ⟨some k⟩, .empty⟩ d.opening[k]
      w[n + k + 1]? = ⟨⟨.interpolation, n + k, some n, .idle, .empty⟩,
        pendingText ⟨.text, n, some i, .idle, .empty⟩ n, false⟩ := by
    simp only [turn, readInterpolationOpen,
      Matcher.step_completed (m := ⟨some k⟩) hmarker hk.symm, hk, hstart]
    rfl
  have hone := Leads.one (hocc.getElem? hmarker) hlast
  have hboth := hfirst.trans hone
  rw [hk]
  exact hboth

/-- The closing marker is read: what is between the markers is reported. -/
theorem leads_closing (hocc : Marker.OccursAt d.closing w n) (hcl : d.closing ≠ []) :
    Leads d w ⟨.interpolation, n, some i, .idle, .empty⟩
      [.interpolation ⟨i + d.opening.length, n⟩]
      ⟨.text, n + d.closing.length, some (n + d.closing.length), .idle, .empty⟩ := by
  obtain ⟨k, hk⟩ := Nat.exists_eq_succ_of_ne_zero fun h => hcl (List.eq_nil_of_length_eq_zero h)
  have hfirst := leads_comparing (i := i) .closing hocc hk.symm fun _ _ => trivial
  have hlt : k < d.closing.length := by omega
  have hmarker := List.getElem?_eq_getElem hlt
  have hstop : n + k + 1 - k.succ = n := by omega
  have hlast : turn d ⟨.interpolationClose, n + k, some i, ⟨some k⟩, .empty⟩ d.closing[k]
      w[n + k + 1]? = ⟨⟨.text, n + k, some (n + k + 1), .idle, .empty⟩,
        [.interpolation ⟨i + d.opening.length, n⟩], false⟩ := by
    simp only [turn, readInterpolationClose,
      Matcher.step_completed (m := ⟨some k⟩) hmarker hk.symm, hk, hstop]
    rfl
  have hone := Leads.one (hocc.getElem? hmarker) hlast
  have hboth := hfirst.trans hone
  rw [hk]
  exact hboth

end Scan

end TemplateLexer
