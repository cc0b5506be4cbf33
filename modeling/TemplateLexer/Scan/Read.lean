import TemplateLexer.Scan.Attribute
import TemplateLexer.Scan.Content
import TemplateLexer.Scan.Tag

/-!
# Reading a byte

The mode of a scan may hand the byte it meets over to another mode, which reads the same byte
again. The rank of a scan bounds how often that can still happen: it is at most two, and it falls
with every hand-over (`rank_turn_lt`), so the reading of a byte ends.
-/

set_option autoImplicit false

namespace TemplateLexer

/-- What the reading of one byte amounts to. -/
structure Reading where
  scan : Scan
  events : List Event
  /-- How often the byte was handed over to another mode. -/
  rereads : Nat
  /-- How often the mode changed. -/
  transitions : Nat
  deriving DecidableEq, Repr

namespace Scan

/-- What the mode of a scan makes of a byte, given the byte behind it. -/
def turn (d : Dialect) (s : Scan) (c : UInt8) (next : Option UInt8) : Turn :=
  match s.mode with
  | .text => s.readText d c
  | .interpolationOpen => s.readInterpolationOpen d c
  | .interpolation => s.readInterpolation d c
  | .interpolationClose => s.readInterpolationClose d c
  | .beforeTagName => s.readBeforeTagName c
  | .inTagName => s.readInTagName c
  | .inSelfClosingTag => s.readInSelfClosingTag c
  | .beforeClosingTagName => s.readBeforeClosingTagName c
  | .inClosingTagName => s.readInClosingTagName c
  | .afterClosingTagName => s.readAfterClosingTagName c
  | .beforeAttrName => s.readBeforeAttrName c next
  | .inAttrName => s.readInAttrName c
  | .inDirName => s.readInDirName c
  | .inDirArg => s.readInDirArg c
  | .inDirDynamicArg => s.readInDirDynamicArg c
  | .inDirModifier => s.readInDirModifier c
  | .afterAttrName => s.readAfterAttrName c next
  | .beforeAttrValue => s.readBeforeAttrValue c
  | .inQuotedValue mark => s.readInQuotedValue mark c
  | .inBareValue => s.readInBareValue c
  | .reserved _ => { scan := s.enter .text, again := true }

/-- A bound on the number of hand-overs that a byte can still cause. A marker under comparison
causes none as long as the byte continues it. -/
def rank (d : Dialect) (s : Scan) (c : UInt8) : Nat :=
  match s.mode with
  | .interpolationOpen => if d.opening[s.matcher.position]? = some c then 0 else 2
  | .interpolationClose => if d.closing[s.matcher.position]? = some c then 0 else 2
  | .text | .interpolation | .inTagName | .inSelfClosingTag | .inClosingTagName | .afterAttrName
  | .inBareValue => 1
  | .beforeTagName | .beforeClosingTagName | .inAttrName | .inDirName | .inDirArg | .inDirDynamicArg
  | .inDirModifier | .beforeAttrValue | .reserved _ => 2
  | .afterClosingTagName | .beforeAttrName | .inQuotedValue _ => 0

/-- No mode leaves room for more than two hand-overs. -/
theorem rank_le_two (d : Dialect) (s : Scan) (c : UInt8) : s.rank d c ≤ 2 := by
  unfold rank
  split <;> (try split) <;> omega

end Scan

/-! ## Hand-overs

For each mode, the rank of the scan to which it hands a byte over is below its own.
-/

/-- A turn that hands its byte over only to a scan whose rank is below a bound. -/
def Turn.Descends (d : Dialect) (c : UInt8) (bound : Nat) (t : Turn) : Prop :=
  t.again = true → t.scan.rank d c < bound

namespace Scan

section

variable {d : Dialect} {s : Scan} {c : UInt8} {next : Option UInt8} {k : Nat} {es : List Event}

/-- A byte that is kept does not bound anything. -/
theorem descends_done : Turn.Descends d c k ⟨s, es, false⟩ :=
  fun again => by cases again

/-- A byte that is handed over is bounded by the rank of the scan that reads it next. -/
theorem descends_again (h : s.rank d c < k) : Turn.Descends d c k ⟨s, es, true⟩ :=
  fun _ => h

/-- What can follow a name hands its byte over once more at most. -/
theorem descends_nameEnd : (s.nameEnd es).Descends d c 2 :=
  descends_again Nat.one_lt_two

/-- The start of an attribute is not handed over. -/
theorem again_attrStart (s : Scan) (c : UInt8) (next : Option UInt8) :
    (s.attrStart c next).again = false := by
  unfold attrStart
  split
  · rfl
  · split <;> rfl

/-- A marker is compared from its first byte on, which is the one handed over. -/
theorem descends_readText : (s.readText d c).Descends d c 1 := by
  unfold readText
  split
  · exact descends_done
  · split
    · next hopen =>
      have hhead : d.opening[0]? = some c := by
        rw [← List.head?_eq_getElem?]
        exact hopen.2
      refine descends_again ?_
      simp [rank, enter, matching, Matcher.started, Matcher.position, hhead]
    · exact descends_done

/-- A byte that continues the opening marker is kept, any other one goes back to the text. -/
theorem descends_readInterpolationOpen : (s.readInterpolationOpen d c).Descends d c
    (if d.opening[s.matcher.position]? = some c then 0 else 2) := by
  by_cases hbyte : d.opening[s.matcher.position]? = some c
  · by_cases hlast : s.matcher.position + 1 = d.opening.length
    · simp only [readInterpolationOpen, Matcher.step_completed hbyte hlast]
      exact descends_done
    · simp only [readInterpolationOpen, Matcher.step_advanced hbyte hlast]
      exact descends_done
  · simp only [readInterpolationOpen, Matcher.step_mismatched hbyte, if_neg hbyte]
    exact descends_again Nat.one_lt_two

/-- The closing marker, too, is compared from its first byte on. -/
theorem descends_readInterpolation : (s.readInterpolation d c).Descends d c 1 := by
  unfold readInterpolation
  split
  · next hclose =>
    have hhead : d.closing[0]? = some c := by
      rw [← List.head?_eq_getElem?]
      exact hclose
    refine descends_again ?_
    simp [rank, enter, matching, Matcher.started, Matcher.position, hhead]
  · exact descends_done

/-- A byte that continues the closing marker is kept, any other one goes back to the
interpolation. -/
theorem descends_readInterpolationClose : (s.readInterpolationClose d c).Descends d c
    (if d.closing[s.matcher.position]? = some c then 0 else 2) := by
  by_cases hbyte : d.closing[s.matcher.position]? = some c
  · by_cases hlast : s.matcher.position + 1 = d.closing.length
    · simp only [readInterpolationClose, Matcher.step_completed hbyte hlast]
      exact descends_done
    · simp only [readInterpolationClose, Matcher.step_advanced hbyte hlast]
      exact descends_done
  · simp only [readInterpolationClose, Matcher.step_mismatched hbyte, if_neg hbyte]
    exact descends_again Nat.one_lt_two

/-- An opening that no name follows goes back to the text. -/
theorem descends_readBeforeTagName : (s.readBeforeTagName c).Descends d c 2 := by
  unfold readBeforeTagName
  split
  · exact descends_done
  · split
    · exact descends_done
    · split
      · exact descends_done
      · exact descends_again Nat.one_lt_two

/-- The byte behind the name of a tag goes to the attributes. -/
theorem descends_readInTagName : (s.readInTagName c).Descends d c 1 := by
  unfold readInTagName
  split
  · exact descends_again Nat.zero_lt_one
  · exact descends_done

/-- A slash that does not end the tag has no meaning, and what follows it goes to the attributes. -/
theorem descends_readInSelfClosingTag : (s.readInSelfClosingTag c).Descends d c 1 := by
  unfold readInSelfClosingTag
  split
  · exact descends_done
  · split
    · exact descends_done
    · exact descends_again Nat.zero_lt_one

/-- A closing tag without a name goes back to the text. -/
theorem descends_readBeforeClosingTagName : (s.readBeforeClosingTagName c).Descends d c 2 := by
  unfold readBeforeClosingTagName
  split
  · exact descends_done
  · exact descends_again Nat.one_lt_two

/-- The byte behind the name of a closing tag is the first one that can be skipped. -/
theorem descends_readInClosingTagName : (s.readInClosingTagName c).Descends d c 1 := by
  unfold readInClosingTagName
  split
  · exact descends_again Nat.zero_lt_one
  · exact descends_done

/-- Nothing behind the name of a closing tag is handed over. -/
theorem descends_readAfterClosingTagName : (s.readAfterClosingTagName c).Descends d c 0 := by
  unfold readAfterClosingTagName
  split
  · exact descends_done
  · exact descends_done

/-- Between two attributes nothing is handed over. -/
theorem descends_readBeforeAttrName : (s.readBeforeAttrName c next).Descends d c 0 := by
  unfold readBeforeAttrName
  split
  · exact descends_done
  · split
    · exact descends_done
    · split
      · exact descends_done
      · intro again
        rw [again_attrStart] at again
        cases again

/-- The byte behind the name of a plain attribute goes to what can follow a name. -/
theorem descends_readInAttrName : (s.readInAttrName c).Descends d c 2 := by
  unfold readInAttrName
  split
  · exact descends_nameEnd
  · exact descends_done

/-- The byte behind the long form of a directive that has no argument and no modifier goes to what
can follow a name. -/
theorem descends_readInDirName : (s.readInDirName c).Descends d c 2 := by
  unfold readInDirName
  split
  · exact descends_nameEnd
  · split
    · exact descends_done
    · split
      · exact descends_done
      · exact descends_done

/-- The byte behind an argument without modifiers goes to what can follow a name. -/
theorem descends_readInDirArg : (s.readInDirArg c).Descends d c 2 := by
  unfold readInDirArg
  split
  · exact descends_nameEnd
  · split
    · exact descends_done
    · split
      · exact descends_done
      · exact descends_done

/-- The byte behind a name that lacks a closing bracket goes to what can follow a name. -/
theorem descends_readInDirDynamicArg : (s.readInDirDynamicArg c).Descends d c 2 := by
  unfold readInDirDynamicArg
  split
  · exact descends_done
  · split
    · exact descends_nameEnd
    · exact descends_done

/-- The byte behind the last modifier goes to what can follow a name. -/
theorem descends_readInDirModifier : (s.readInDirModifier c).Descends d c 2 := by
  unfold readInDirModifier
  split
  · exact descends_nameEnd
  · split
    · exact descends_done
    · exact descends_done

/-- Behind a name, only the bytes that end the tag go to the attributes. -/
theorem descends_readAfterAttrName : (s.readAfterAttrName c next).Descends d c 1 := by
  unfold readAfterAttrName
  split
  · exact descends_done
  · split
    · exact descends_again Nat.zero_lt_one
    · split
      · exact descends_done
      · intro again
        simp only [again_attrStart] at again
        cases again

/-- The first byte of a value without quotation marks is part of the value. -/
theorem descends_readBeforeAttrValue : (s.readBeforeAttrValue c).Descends d c 2 := by
  unfold readBeforeAttrValue
  split
  · exact descends_done
  · split
    · exact descends_done
    · split
      · exact descends_done
      · exact descends_again Nat.one_lt_two

/-- Nothing between quotation marks is handed over. -/
theorem descends_readInQuotedValue {mark : QuoteMark} :
    (s.readInQuotedValue mark c).Descends d c 0 := by
  unfold readInQuotedValue
  split
  · exact descends_done
  · exact descends_done

/-- The byte behind a value without quotation marks goes to the attributes. -/
theorem descends_readInBareValue : (s.readInBareValue c).Descends d c 1 := by
  unfold readInBareValue
  split
  · exact descends_again Nat.zero_lt_one
  · exact descends_done

end

/-- The rank falls with every hand-over. -/
theorem rank_turn_lt (d : Dialect) (s : Scan) (c : UInt8) (next : Option UInt8)
    (h : (s.turn d c next).again = true) :
    (s.turn d c next).scan.rank d c < s.rank d c := by
  obtain ⟨mode, cursor, sectionStart, matcher, argShape⟩ := s
  cases mode with
  | text => exact descends_readText h
  | interpolationOpen => exact descends_readInterpolationOpen h
  | interpolation => exact descends_readInterpolation h
  | interpolationClose => exact descends_readInterpolationClose h
  | beforeTagName => exact descends_readBeforeTagName h
  | inTagName => exact descends_readInTagName h
  | inSelfClosingTag => exact descends_readInSelfClosingTag h
  | beforeClosingTagName => exact descends_readBeforeClosingTagName h
  | inClosingTagName => exact descends_readInClosingTagName h
  | afterClosingTagName => exact descends_readAfterClosingTagName h
  | beforeAttrName => exact descends_readBeforeAttrName h
  | inAttrName => exact descends_readInAttrName h
  | inDirName => exact descends_readInDirName h
  | inDirArg => exact descends_readInDirArg h
  | inDirDynamicArg => exact descends_readInDirDynamicArg h
  | inDirModifier => exact descends_readInDirModifier h
  | afterAttrName => exact descends_readAfterAttrName h
  | beforeAttrValue => exact descends_readBeforeAttrValue h
  | inQuotedValue mark => exact descends_readInQuotedValue h
  | inBareValue => exact descends_readInBareValue h
  | reserved mode => exact Nat.one_lt_two

/-! ## A byte -/

/-- Reads a byte, given the byte behind it, until no mode hands it over any more. The cursor stays
in front of the byte. -/
def settle (d : Dialect) (s : Scan) (c : UInt8) (next : Option UInt8) : Reading :=
  let t := s.turn d c next
  let moved := if t.scan.mode = s.mode then 0 else 1
  if _again : t.again = true then
    let r := t.scan.settle d c next
    ⟨r.scan, t.events ++ r.events, r.rereads + 1, r.transitions + moved⟩
  else ⟨t.scan, t.events, 0, moved⟩
termination_by s.rank d c
decreasing_by exact rank_turn_lt d s c next _again

/-- Reads a byte, given the byte behind it, and goes on to the next one. -/
def step (d : Dialect) (s : Scan) (c : UInt8) (next : Option UInt8) : Reading :=
  let r := s.settle d c next
  { r with scan := { r.scan with cursor := r.scan.cursor + 1 } }

end Scan

end TemplateLexer
