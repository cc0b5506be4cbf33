import TemplateLexer.Scan.Read

/-!
# Runs of a scan

A run reads bytes in a row. Since the reading of a byte depends on the byte behind it, a run is
told which byte follows its last one; a run over two rows is then a run over the first, told the
first byte of the second, and a run over the second (`run_append`).
-/

set_option autoImplicit false

namespace TemplateLexer

namespace Reading

/-- The reading of no byte at all. -/
def nothing (s : Scan) : Reading :=
  ⟨s, [], 0, 0⟩

/-- What two readings in a row amount to. -/
def andThen (first second : Reading) : Reading :=
  ⟨second.scan, first.events ++ second.events, first.rereads + second.rereads,
    first.transitions + second.transitions⟩

/-- Reading nothing in front changes nothing. -/
theorem nothing_andThen (s : Scan) (r : Reading) : (nothing s).andThen r = r := by
  simp [nothing, andThen]

/-- It does not matter how readings in a row are grouped. -/
theorem andThen_assoc (a b c : Reading) : (a.andThen b).andThen c = a.andThen (b.andThen c) := by
  simp [andThen, Nat.add_assoc]

end Reading

namespace Scan

/-- Reads bytes in a row, given the byte behind the last one. -/
def run (d : Dialect) (s : Scan) : List UInt8 → Option UInt8 → Reading
  | [], _ => .nothing s
  | c :: rest, next =>
    let r := s.step d c (rest.head?.or next)
    r.andThen (r.scan.run d rest next)

/-- A run over two rows of bytes is one over the first, told what the second begins with, and from
there one over the second. -/
theorem run_append (d : Dialect) (s : Scan) (first second : List UInt8) (next : Option UInt8) :
    s.run d (first ++ second) next =
      (s.run d first (second.head?.or next)).andThen
        ((s.run d first (second.head?.or next)).scan.run d second next) := by
  induction first generalizing s with
  | nil => rw [List.nil_append, run, Reading.nothing_andThen, Reading.nothing]
  | cons c rest ih =>
    have hnext : (rest ++ second).head?.or next = rest.head?.or (second.head?.or next) := by
      cases rest <;> simp
    simp only [List.cons_append, run, hnext, ih]
    rw [Reading.andThen_assoc]
    rfl

/-- No turn moves the cursor: only the step to the next byte does. -/
theorem cursor_turn (d : Dialect) (s : Scan) (c : UInt8) (next : Option UInt8) :
    (s.turn d c next).scan.cursor = s.cursor := by
  obtain ⟨mode, cursor, sectionStart, matcher, argShape⟩ := s
  cases mode
  all_goals
    simp only [turn, readText, readInterpolationOpen, readInterpolation, readInterpolationClose,
      readBeforeTagName, readInTagName, readInSelfClosingTag, readBeforeClosingTagName,
      readInClosingTagName, readAfterClosingTagName, readBeforeAttrName, readInAttrName,
      readInDirName, readInDirArg, readInDirDynamicArg, readInDirModifier, readAfterAttrName,
      readBeforeAttrValue, readInQuotedValue, readInBareValue, attrStart, nameEnd]
    repeat' split
    all_goals rfl

/-- The reading of a byte leaves the cursor in front of it. -/
theorem cursor_settle (d : Dialect) (s : Scan) (c : UInt8) (next : Option UInt8) :
    (s.settle d c next).scan.cursor = s.cursor := by
  fun_induction settle d s c next with
  | case1 s t moved again r ih => exact ih.trans (cursor_turn d s c next)
  | case2 s t moved done => exact cursor_turn d s c next

/-- Every byte moves the cursor by one. -/
theorem cursor_step (d : Dialect) (s : Scan) (c : UInt8) (next : Option UInt8) :
    (s.step d c next).scan.cursor = s.cursor + 1 := by
  simp only [step, cursor_settle]

/-- A run moves the cursor past every byte read. -/
theorem cursor_run (d : Dialect) (s : Scan) (bytes : List UInt8) (next : Option UInt8) :
    (s.run d bytes next).scan.cursor = s.cursor + bytes.length := by
  induction bytes generalizing s with
  | nil => rfl
  | cons c rest ih =>
    simp only [run, Reading.andThen, ih, cursor_step, List.length_cons]
    omega

end Scan

end TemplateLexer
