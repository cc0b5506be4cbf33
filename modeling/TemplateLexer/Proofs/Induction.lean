import TemplateLexer.Tokenizer.Parse

/-!
# Induction over a run

A run is a row of turns. A turn either hands its byte over to another mode or goes on to the next
byte; `Turn.onward` is the scan with which the next turn begins in both cases. A property of the
scan and of the events reported so far that one turn keeps is therefore kept by a whole run
(`Scan.Kept.run`), over every first part of an input and not only over all of it. What holds between
two bytes only is left behind by the last turn of each byte (`Scan.Leaves.run`).
-/

set_option autoImplicit false

namespace TemplateLexer

/-- The scan with which the next turn begins: in front of the same byte if this one is to be read
again, else in front of the next one. -/
def Turn.onward (t : Turn) : Scan :=
  if t.again then t.scan else { t.scan with cursor := t.scan.cursor + 1 }

namespace Turn

variable {t : Turn}

/-- Moving on does not change the mode. -/
theorem mode_onward (t : Turn) : t.onward.mode = t.scan.mode := by
  unfold onward
  split <;> rfl

/-- A turn that keeps its byte moves on to the next one. -/
theorem cursor_onward (h : t.again = false) : t.onward.cursor = t.scan.cursor + 1 := by
  rw [onward, if_neg (by rw [h]; exact Bool.false_ne_true)]

/-- No turn moves the cursor back. -/
theorem le_cursor_onward (t : Turn) : t.scan.cursor ≤ t.onward.cursor := by
  unfold onward
  split
  · exact Nat.le_refl _
  · exact Nat.le_succ _

end Turn

namespace Scan

variable {d : Dialect} {input : List UInt8} {P Q : Scan → List Event → Prop}

/-- Every turn over an input keeps a property of the scan and of the events reported so far. -/
def Kept (d : Dialect) (input : List UInt8) (P : Scan → List Event → Prop) : Prop :=
  ∀ s es c, P s es → input[s.cursor]? = some c →
    P (s.turn d c input[s.cursor + 1]?).onward (es ++ (s.turn d c input[s.cursor + 1]?).events)

/-- Every turn over an input that goes on to the next byte leaves a property behind, if the scan that
it begins with has another one. -/
def Leaves (d : Dialect) (input : List UInt8) (P Q : Scan → List Event → Prop) : Prop :=
  ∀ s es c, P s es → input[s.cursor]? = some c →
    (s.turn d c input[s.cursor + 1]?).again = false →
      Q (s.turn d c input[s.cursor + 1]?).onward (es ++ (s.turn d c input[s.cursor + 1]?).events)

/-- What every turn keeps is left behind by the last turn of each byte. -/
theorem Kept.leaves (hP : Kept d input P) : Leaves d input P P :=
  fun s es c h hc _ => hP s es c h hc

/-- What the last turn leaves behind is there after the reading of a byte, up to the step to the next
one. -/
theorem Leaves.settle (hQ : Leaves d input P Q) (hP : Kept d input P) (s : Scan) (c : UInt8)
    (next : Option UInt8) :
    ∀ es, P s es → input[s.cursor]? = some c → next = input[s.cursor + 1]? →
      Q { (s.settle d c next).scan with cursor := s.cursor + 1 }
        (es ++ (s.settle d c next).events) := by
  fun_induction Scan.settle d s c next with
  | case1 s t moved again r ih =>
    intro es h hc hnext
    have hcursor : t.scan.cursor = s.cursor := cursor_turn d s c next
    have hturn := hP s es c h hc
    rw [← hnext, Turn.onward, if_pos again] at hturn
    have hrest := ih _ hturn (by rw [hcursor]; exact hc) (by rw [hcursor]; exact hnext)
    rwa [hcursor, List.append_assoc] at hrest
  | case2 s t moved done =>
    intro es h hc hnext
    have hcursor : t.scan.cursor = s.cursor := cursor_turn d s c next
    have hturn := hQ s es c h hc
    rw [← hnext, Turn.onward, if_neg done] at hturn
    rw [← hcursor]
    exact hturn (Bool.not_eq_true _ ▸ done)

/-- What the last turn leaves behind is there after the reading of a byte. -/
theorem Leaves.step (hQ : Leaves d input P Q) (hP : Kept d input P) {s : Scan} {es : List Event}
    {c : UInt8} (h : P s es) (hc : input[s.cursor]? = some c) :
    Q (s.step d c input[s.cursor + 1]?).scan
      (es ++ (s.step d c input[s.cursor + 1]?).events) := by
  have hsettle := hQ.settle hP s c _ es h hc rfl
  simpa only [Scan.step, cursor_settle] using hsettle

/-- What every turn keeps is kept by the reading of a byte. -/
theorem Kept.step (hP : Kept d input P) {s : Scan} {es : List Event} {c : UInt8}
    (h : P s es) (hc : input[s.cursor]? = some c) :
    P (s.step d c input[s.cursor + 1]?).scan
      (es ++ (s.step d c input[s.cursor + 1]?).events) :=
  hP.leaves.step hP h hc

/-- The first byte of what is left of an input, the byte behind it, and what is left then. -/
theorem ahead_of_drop {n : Nat} {c : UInt8} {bytes rest : List UInt8}
    (hinput : input.drop n = c :: bytes ++ rest) :
    input[n]? = some c ∧ input[n + 1]? = bytes.head?.or rest.head? ∧
      input.drop (n + 1) = bytes ++ rest := by
  have hdrop : input.drop (n + 1) = bytes ++ rest := by
    rw [← List.tail_drop, hinput]
    rfl
  refine ⟨?_, ?_, hdrop⟩
  · rw [← List.head?_drop, hinput]
    rfl
  · rw [← List.head?_drop, hdrop]
    exact List.head?_append

/-- What the last turn of every byte leaves behind is there after a run over any part of the
input. -/
theorem Leaves.run (hQ : Leaves d input P Q) (hP : Kept d input P) {s : Scan} {es : List Event}
    {bytes rest : List UInt8} (h : P s es) (hs : Q s es)
    (hinput : input.drop s.cursor = bytes ++ rest) :
    Q (s.run d bytes rest.head?).scan (es ++ (s.run d bytes rest.head?).events) := by
  induction bytes generalizing s es with
  | nil => simpa [Scan.run, Reading.nothing] using hs
  | cons c bytes ih =>
    obtain ⟨hc, hnext, hdrop⟩ := ahead_of_drop hinput
    have hkept := hP.step h hc
    have hleft := hQ.step hP h hc
    rw [hnext] at hkept hleft
    have hrest := ih hkept hleft (by rw [cursor_step]; exact hdrop)
    simpa only [Scan.run, Reading.andThen, List.append_assoc] using hrest

/-- What every turn keeps is kept by a run over any part of the input. -/
theorem Kept.run (hP : Kept d input P) {s : Scan} {es : List Event} {bytes rest : List UInt8}
    (h : P s es) (hinput : input.drop s.cursor = bytes ++ rest) :
    P (s.run d bytes rest.head?).scan (es ++ (s.run d bytes rest.head?).events) :=
  hP.leaves.run hP h h hinput

end Scan

namespace Dialect

/-- What holds of a fresh scan and is kept by every turn holds at the end of a template. -/
theorem run_of_kept {d : Dialect} {template : String} {P : Scan → List Event → Prop}
    (hP : Scan.Kept d (utf8Bytes template) P) (h : P {} []) :
    P (d.run template).scan (d.run template).events := by
  have hall : (utf8Bytes template).drop 0 = utf8Bytes template ++ [] := by simp
  have hrun := hP.run h hall
  simpa [Dialect.run] using hrun

/-- The reading of the first bytes of a template, as a part of the reading of all of it. -/
def runTo (d : Dialect) (template : String) (n : Nat) : Reading :=
  Scan.run d {} ((utf8Bytes template).take n) (utf8Bytes template)[n]?

/-- A template is read by reading its first bytes and then the others. -/
theorem run_eq_runTo_andThen (d : Dialect) (template : String) (n : Nat) :
    d.run template = (d.runTo template n).andThen
      ((d.runTo template n).scan.run d ((utf8Bytes template).drop n) none) := by
  have happend := Scan.run_append d {} ((utf8Bytes template).take n)
    ((utf8Bytes template).drop n) none
  rwa [List.take_append_drop, Option.or_none, List.head?_drop] at happend

/-- The cursor counts the bytes read. -/
theorem cursor_runTo (d : Dialect) (template : String) (n : Nat) :
    (d.runTo template n).scan.cursor = min n (utf8Bytes template).length := by
  rw [runTo, Scan.cursor_run, List.length_take]
  exact Nat.zero_add _

/-- What holds of a fresh scan and is left behind by the last turn of every byte holds between any
two bytes of a template. -/
theorem runTo_of_leaves {d : Dialect} {template : String} {P Q : Scan → List Event → Prop}
    (hQ : Scan.Leaves d (utf8Bytes template) P Q) (hP : Scan.Kept d (utf8Bytes template) P)
    (h : P {} []) (hfresh : Q {} []) (n : Nat) :
    Q (d.runTo template n).scan (d.runTo template n).events := by
  have hsplit : (utf8Bytes template).drop 0 =
      (utf8Bytes template).take n ++ (utf8Bytes template).drop n :=
    (List.take_append_drop n _).symm
  have hrun := hQ.run hP h hfresh hsplit
  rwa [List.head?_drop, List.nil_append] at hrun

end Dialect

end TemplateLexer
