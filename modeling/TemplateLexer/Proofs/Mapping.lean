import TemplateLexer.Proofs.Lookahead

/-!
# Mapped runs

A map of scans, together with one of events, may commute with every turn over an input, at least for
the scans of which some property holds (`Mapped`). It then commutes with whole runs
(`Mapped.run`), counters included. This is how two runs are compared that differ in their offsets
only.
-/

set_option autoImplicit false

namespace TemplateLexer

/-- The turn with its scan and its events mapped. -/
def Turn.map (g : Scan → Scan) (f : Event → Event) (t : Turn) : Turn :=
  { t with scan := g t.scan, events := t.events.map f }

/-- The reading with its scan and its events mapped. Its counters stay as they are. -/
def Reading.map (g : Scan → Scan) (f : Event → Event) (r : Reading) : Reading :=
  { r with scan := g r.scan, events := r.events.map f }

namespace Scan

variable {d : Dialect} {w : List UInt8} {P : Scan → List Event → Prop} {g : Scan → Scan}
  {f : Event → Event} {s : Scan} {c : UInt8} {next : Option UInt8} {es : List Event}

/-- Two maps commute with the turns over an input of all scans of which a property holds that turns
keep. -/
structure Mapped (d : Dialect) (w : List UInt8) (P : Scan → List Event → Prop) (g : Scan → Scan)
    (f : Event → Event) : Prop where
  kept : Kept d w P
  mode : ∀ s, (g s).mode = s.mode
  turn : ∀ s es c next, P s es → (g s).turn d c next = (s.turn d c next).map g f
  /-- The step to the next byte may be made before or after. -/
  next : ∀ s es s', P s es → s'.cursor = s.cursor →
    g { s' with cursor := s'.cursor + 1 } = { g s' with cursor := (g s').cursor + 1 }

namespace Mapped

/-- The map commutes with the reading of a byte, hand-over by hand-over. -/
theorem settle (hg : Mapped d w P g f) :
    ∀ es, P s es → w[s.cursor]? = some c → next = w[s.cursor + 1]? →
      (g s).settle d c next = (s.settle d c next).map g f := by
  fun_induction Scan.settle d s c next with
  | case1 s t moved again r ih =>
    intro es h hc hnext
    have hcursor : t.scan.cursor = s.cursor := cursor_turn d s c next
    have hturn := hg.kept s es c h hc
    rw [← hnext, Turn.onward, if_pos again] at hturn
    have hrest : (t.map g f).scan.settle d c next = r.map g f :=
      ih _ hturn (by rw [hcursor]; exact hc) (by rw [hcursor]; exact hnext)
    have hmapped : (g s).turn d c next = t.map g f := hg.turn s es c next h
    rw [settle_of_again hmapped again, hrest]
    simp only [Turn.map, Reading.map, List.map_append, hg.mode]
    rfl
  | case2 s t moved done =>
    intro es h hc hnext
    rw [settle_of_done (hg.turn s es c next h) (Bool.not_eq_true _ ▸ done)]
    simp only [Turn.map, Reading.map, hg.mode]
    rfl

/-- The map commutes with the step to the next byte. -/
theorem step (hg : Mapped d w P g f) (h : P s es) (hc : w[s.cursor]? = some c) :
    (g s).step d c w[s.cursor + 1]? = (s.step d c w[s.cursor + 1]?).map g f := by
  rw [Scan.step, hg.settle es h hc rfl]
  simp only [Scan.step, Reading.map, hg.next s es _ h (cursor_settle ..)]

/-- What commutes with turns commutes with runs. -/
theorem run {bytes rest : List UInt8} (hg : Mapped d w P g f) (h : P s es)
    (hw : w.drop s.cursor = bytes ++ rest) :
    (g s).run d bytes rest.head? = (s.run d bytes rest.head?).map g f := by
  induction bytes generalizing s es with
  | nil => rfl
  | cons c bytes ih =>
    obtain ⟨hc, hnext, hdrop⟩ := ahead_of_drop hw
    have hstep := hg.step h hc
    have hkept := hg.kept.step h hc
    rw [hnext] at hstep hkept
    have hrest := ih hkept (by rw [cursor_step]; exact hdrop)
    simp only [Scan.run, hstep, Reading.map, hrest, Reading.andThen, List.map_append]

end Mapped

end Scan

end TemplateLexer
