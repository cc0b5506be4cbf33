import Mathlib.Data.List.Forall2
import TemplateLexer.Proofs.Concatenation

/-!
# Classes of bytes

A scan looks at a byte only to compare it with a mark or with a byte of a marker, or to ask whether
it is white space or a letter. Bytes that all of these answer alike (`Dialect.Blurs`) make the same
turns, so templates that differ in such bytes only are read in the same way, down to the offsets and
the counters (`parsed_eq_of_alike`).
-/

set_option autoImplicit false

namespace TemplateLexer

open Concatenation

/-! ## Bytes of one class -/

namespace Byte

/-- The bytes with a meaning of their own, except for the letter `v`. -/
def marks : List UInt8 :=
  [tagOpen, tagEnd, slash, equals, bang, question, doubleQuote, singleQuote, colon, atSign, hash,
    dot, bracketOpen, bracketClose, hyphen]

/-- Bytes that are neither letters nor white space and have no meaning of their own. -/
def isPlain (c : UInt8) : Bool :=
  !isTagStart c && !isSpace c && !marks.contains c

/-- The same byte, or two bytes of one class: white space, letters other than `v`, or bytes without
any meaning. Bytes that are set apart are only like themselves. -/
def Alike (apart : List UInt8) (c c' : UInt8) : Prop :=
  c = c' ∨ (c ∉ apart ∧ c' ∉ apart) ∧
    (isSpace c = true ∧ isSpace c' = true ∨
      (isTagStart c = true ∧ isTagStart c' = true) ∧ c ≠ letterV ∧ c' ≠ letterV ∨
      isPlain c = true ∧ isPlain c' = true)

/-- Whether two bytes are alike can be decided. -/
instance (apart : List UInt8) : DecidableRel (Alike apart) :=
  fun _ _ => inferInstanceAs (Decidable (_ ∨ _))

end Byte

/-- Two bytes that no scan in a dialect can tell apart. -/
structure Dialect.Blurs (d : Dialect) (c c' : UInt8) : Prop where
  mark : ∀ b ∈ Byte.letterV :: Byte.marks, c = b ↔ c' = b
  marker : ∀ b ∈ d.opening ++ d.closing, c = b ↔ c' = b
  space : Byte.isSpace c = Byte.isSpace c'
  letter : Byte.isTagStart c = Byte.isTagStart c'

section

variable {d : Dialect} {c c' : UInt8}

/-- Neither white space nor a letter other than `v` is a mark. -/
theorem ne_of_mem_marks {b : UInt8} (hb : b ∈ Byte.letterV :: Byte.marks)
    (h : Byte.isSpace c = true ∨ Byte.isTagStart c = true ∧ c ≠ Byte.letterV ∨
      Byte.isPlain c = true) : c ≠ b := by
  have hspace : ∀ b ∈ Byte.letterV :: Byte.marks, Byte.isSpace b = false := by decide +kernel
  have hletter : ∀ b ∈ Byte.marks, Byte.isTagStart b = false := by decide +kernel
  rintro rfl
  rcases h with h | ⟨h, hv⟩ | h
  · rw [hspace c hb] at h
    cases h
  · rcases List.mem_cons.mp hb with rfl | hb
    · exact hv rfl
    · rw [hletter c hb] at h
      cases h
  · simp only [Byte.isPlain, Bool.and_eq_true, Bool.not_eq_true', List.contains_eq_mem,
      decide_eq_false_iff_not] at h
    rcases List.mem_cons.mp hb with rfl | hb
    · cases h.1.1
    · exact h.2 hb

/-- A scan cannot tell bytes of one class apart if those of its markers are set apart. -/
theorem Byte.Alike.blurs (h : Byte.Alike (d.opening ++ d.closing) c c') : d.Blurs c c' := by
  rcases h with rfl | ⟨⟨hc, hc'⟩, h⟩
  · exact ⟨fun _ _ => Iff.rfl, fun _ _ => Iff.rfl, rfl, rfl⟩
  · have hmark : ∀ b ∈ Byte.letterV :: Byte.marks, c = b ↔ c' = b := by
      intro b hb
      refine iff_of_false (ne_of_mem_marks hb ?_) (ne_of_mem_marks hb ?_) <;> tauto
    have hmarker : ∀ b ∈ d.opening ++ d.closing, c = b ↔ c' = b := by
      intro b hb
      refine iff_of_false ?_ ?_
      · rintro rfl
        exact hc hb
      · rintro rfl
        exact hc' hb
    have hspace : ∀ {b}, Byte.isSpace b = true → Byte.isTagStart b = false := by
      intro b hb
      rw [Bool.eq_false_iff]
      intro hletter
      rw [Byte.isSpace_of_isTagStart hletter] at hb
      cases hb
    rcases h with h | ⟨h, -⟩ | h
    · exact ⟨hmark, hmarker, by rw [h.1, h.2], by rw [hspace h.1, hspace h.2]⟩
    · exact ⟨hmark, hmarker,
        by rw [Byte.isSpace_of_isTagStart h.1, Byte.isSpace_of_isTagStart h.2], by rw [h.1, h.2]⟩
    · simp only [Byte.isPlain, Bool.and_eq_true, Bool.not_eq_true'] at h
      exact ⟨hmark, hmarker, by rw [h.1.1.2, h.2.1.2], by rw [h.1.1.1, h.2.1.1]⟩

end

/-! ## What a scan asks of a byte -/

namespace Dialect.Blurs

variable {d : Dialect} {c c' : UInt8}

/-- Alike bytes are the same mark, or neither of them is that mark. -/
theorem eq_mark (h : d.Blurs c c') {b : UInt8} (hb : b ∈ Byte.letterV :: Byte.marks) :
    (c = b) = (c' = b) :=
  propext (h.mark b hb)

/-- Alike bytes both end the name of a tag, or neither does. -/
theorem endsSection_eq (h : d.Blurs c c') : Byte.endsSection c = Byte.endsSection c' := by
  simp (disch := decide) only [Byte.endsSection, beq_eq_decide, h.eq_mark, h.space]

/-- Alike bytes both end the name of an attribute, or neither does. -/
theorem endsName_eq (h : d.Blurs c c') : Byte.endsName c = Byte.endsName c' := by
  simp (disch := decide) only [Byte.endsName, beq_eq_decide, h.eq_mark, h.endsSection_eq]

/-- Alike bytes are the same sigil, or neither of them is a sigil. -/
theorem ofSigil?_eq (h : d.Blurs c c') : Shorthand.ofSigil? c = Shorthand.ofSigil? c' := by
  simp (disch := decide) only [Shorthand.ofSigil?, h.eq_mark]

/-- Alike bytes change the shape of an argument in the same way. -/
theorem push_eq (h : d.Blurs c c') (shape : ArgShape) : shape.push c = shape.push c' := by
  cases shape <;> simp (disch := decide) only [ArgShape.push, h.eq_mark]

/-- Both bytes are the one at a place of a marker, or neither is. -/
theorem getElem?_eq (h : d.Blurs c c') {marker : List UInt8}
    (hmarker : ∀ b ∈ marker, b ∈ d.opening ++ d.closing) (i : Nat) :
    (marker[i]? = some c) = (marker[i]? = some c') := by
  cases hget : marker[i]? with
  | none => simp
  | some b =>
    have hb := h.marker b (hmarker b (List.mem_of_getElem? hget))
    simp only [Option.some.injEq, eq_comm (a := b), hb]

/-- Alike bytes take the comparison with a marker the same step on. -/
theorem step_eq (h : d.Blurs c c') {marker : List UInt8}
    (hmarker : ∀ b ∈ marker, b ∈ d.opening ++ d.closing) (m : Matcher) :
    m.step marker c = m.step marker c' := by
  simp only [Matcher.step, h.getElem?_eq hmarker]

end Dialect.Blurs

/-! ## Turns and runs -/

namespace Scan

variable {d : Dialect} {c c' : UInt8} {s : Scan} {next next' : Option UInt8}
  {bytes bytes' : List UInt8}

/-- Alike bytes begin the same kind of attribute. -/
theorem attrStart_blurs (h : d.Blurs c c') (next : Option UInt8) :
    s.attrStart c next = s.attrStart c' next := by
  simp (disch := decide) only [attrStart, h.eq_mark, h.ofSigil?_eq]

/-- A turn is the same for bytes that cannot be told apart. -/
theorem turn_blurs (h : d.Blurs c c') (next : Option UInt8) :
    s.turn d c next = s.turn d c' next := by
  have hopening : ∀ b ∈ d.opening, b ∈ d.opening ++ d.closing := fun _ => List.mem_append_left _
  have hclosing : ∀ b ∈ d.closing, b ∈ d.opening ++ d.closing := fun _ => List.mem_append_right _
  obtain ⟨mode, cursor, start, matcher, shape⟩ := s
  cases mode with
  | text =>
    simp (disch := decide) only [turn, readText, h.eq_mark, List.head?_eq_getElem?,
      h.getElem?_eq hopening]
  | interpolationOpen => simp only [turn, readInterpolationOpen, h.step_eq hopening]
  | interpolation =>
    simp only [turn, readInterpolation, List.head?_eq_getElem?, h.getElem?_eq hclosing]
  | interpolationClose => simp only [turn, readInterpolationClose, h.step_eq hclosing]
  | inQuotedValue mark =>
    have hmark : (c = mark.byte) = (c' = mark.byte) := h.eq_mark (by cases mark <;> decide)
    simp only [turn, readInQuotedValue, hmark]
  | reserved mode => rfl
  | _ =>
    simp (disch := decide) only [turn, readBeforeTagName, readInTagName, readInSelfClosingTag,
      readBeforeClosingTagName, readInClosingTagName, readAfterClosingTagName, readBeforeAttrName,
      readInAttrName, readInDirName, readInDirArg, readInDirDynamicArg, readInDirModifier,
      readAfterAttrName, readBeforeAttrValue, readInBareValue, h.eq_mark, h.space, h.letter,
      h.endsSection_eq, h.endsName_eq, h.push_eq, attrStart_blurs h]

/-- Alike bytes are read in the same way, through all hand-overs. -/
theorem settle_blurs (h : d.Blurs c c') (next : Option UInt8) :
    s.settle d c next = s.settle d c' next := by
  fun_induction Scan.settle d s c next with
  | case1 s t moved again r ih =>
    rw [settle_of_again (turn_blurs h next).symm again, ← ih]
    rfl
  | case2 s t moved done =>
    rw [settle_of_done (turn_blurs h next).symm (Bool.not_eq_true _ ▸ done)]
    rfl

/-- A run is the same over bytes that cannot be told apart one by one. -/
theorem run_blurs (h : List.Forall₂ d.Blurs bytes bytes') :
    s.run d bytes none = s.run d bytes' none := by
  induction h generalizing s with
  | nil => rfl
  | @cons c c' bytes bytes' hc hrest ih =>
    have hnext : bytes.head? = some Byte.hyphen ↔ bytes'.head? = some Byte.hyphen := by
      cases hrest with
      | nil => exact Iff.rfl
      | cons hb _ =>
        simp only [List.head?_cons, Option.some.injEq]
        exact hb.mark Byte.hyphen (by decide)
    have hstep : s.step d c bytes.head? = s.step d c' bytes'.head? := by
      rw [step, step, settle_congr fun _ _ => hnext, settle_blurs hc]
    simp only [run, Option.or_none, hstep, ih]

end Scan

/-! ## Templates -/

/-- The markers of a pair, byte by byte. -/
def Delimiters.bytes (ds : Delimiters) : List UInt8 :=
  utf8Bytes ds.opening ++ utf8Bytes ds.closing

/-- The same character, or two characters outside of ASCII that are equally long. -/
def Exchangeable (x y : Char) : Prop :=
  x = y ∨ 1 < x.utf8Size ∧ x.utf8Size = y.utf8Size

/-- Whether two characters can be exchanged can be decided. -/
instance : DecidableRel Exchangeable :=
  fun _ _ => inferInstanceAs (Decidable (_ ∨ _))

/-- No byte of a character outside of ASCII is in ASCII. -/
theorem le_of_mem_utf8EncodeChar {x : Char} {c : UInt8} (h : 1 < x.utf8Size)
    (hc : c ∈ String.utf8EncodeChar x) : 128 ≤ c.toNat := by
  have hbyte : ∀ n, 128 ≤ n → n < 256 → c = UInt8.ofNat n → 128 ≤ c.toNat := by
    rintro n hle hlt rfl
    rwa [UInt8.toNat_ofNat', Nat.mod_eq_of_lt hlt]
  rw [← String.length_utf8EncodeChar] at h
  simp only [String.utf8EncodeChar] at h hc
  generalize x.val.toNat = v at h hc
  by_cases hv : v ≤ 127
  · simp [hv] at h
  · rw [if_neg hv] at hc
    split at hc
    · simp only [List.mem_cons, List.not_mem_nil, or_false] at hc
      rcases hc with hc | hc <;> exact hbyte _ (by omega) (by omega) hc
    · split at hc
      · simp only [List.mem_cons, List.not_mem_nil, or_false] at hc
        rcases hc with hc | hc | hc <;> exact hbyte _ (by omega) (by omega) hc
      · simp only [List.mem_cons, List.not_mem_nil, or_false] at hc
        rcases hc with hc | hc | hc | hc <;> exact hbyte _ (by omega) (by omega) hc

/-- A byte beyond ASCII has no meaning of its own. -/
theorem isPlain_of_le {c : UInt8} (h : 128 ≤ c.toNat) : Byte.isPlain c = true := by
  have hnot : ¬ c < 0x80 := by
    rw [UInt8.lt_iff_toNat_lt]
    exact Nat.not_lt.mpr h
  have hmarks : ∀ b ∈ Byte.marks, b < 0x80 := by decide +kernel
  simp only [Byte.isPlain, Bool.and_eq_true, Bool.not_eq_true', Bool.eq_false_iff,
    List.contains_eq_mem, ne_eq, decide_eq_true_eq]
  exact ⟨⟨fun hc => hnot (Byte.lt_of_isTagStart hc), fun hc => hnot (Byte.lt_of_isSpace hc)⟩,
    fun hc => hnot (hmarks c hc)⟩

/-- The bytes of exchangeable characters are alike if the bytes set apart are ASCII. -/
theorem Exchangeable.alike {apart : List UInt8} {x y : Char}
    (hascii : ∀ b ∈ apart, b < 0x80) (h : Exchangeable x y) :
    List.Forall₂ (Byte.Alike apart) (String.utf8EncodeChar x) (String.utf8EncodeChar y) := by
  rcases h with rfl | ⟨hx, hsize⟩
  · exact List.forall₂_same.mpr fun c _ => Or.inl rfl
  · have hapart : ∀ {z : Char} {c : UInt8}, 1 < z.utf8Size → c ∈ String.utf8EncodeChar z →
        c ∉ apart ∧ Byte.isPlain c = true := by
      intro z c hz hc
      have hle := le_of_mem_utf8EncodeChar hz hc
      refine ⟨fun hmem => ?_, isPlain_of_le hle⟩
      have hlt := UInt8.lt_iff_toNat_lt.mp (hascii c hmem)
      exact Nat.not_lt.mpr hle hlt
    refine List.forall₂_of_length_eq_of_get ?_ fun i hi hj => ?_
    · rw [String.length_utf8EncodeChar, String.length_utf8EncodeChar, hsize]
    · obtain ⟨hc, hplain⟩ := hapart hx (List.get_mem _ ⟨i, hi⟩)
      obtain ⟨hc', hplain'⟩ := hapart (hsize ▸ hx) (List.get_mem _ ⟨i, hj⟩)
      exact Or.inr ⟨⟨hc, hc'⟩, Or.inr (Or.inr ⟨hplain, hplain'⟩)⟩

/-- Templates whose bytes are alike are read in the same way. -/
theorem parsed_eq_of_forall₂ {o : Options} {rawText : Bool} {first second : String}
    (h : List.Forall₂ (Byte.Alike o.delimiters.bytes) (utf8Bytes first) (utf8Bytes second)) :
    parsed o rawText first = parsed o rawText second := by
  have hblurs : List.Forall₂ (o.dialect rawText).Blurs (utf8Bytes first) (utf8Bytes second) :=
    h.imp fun _ _ hc => Byte.Alike.blurs hc
  have hrun : (o.dialect rawText).run first = (o.dialect rawText).run second :=
    Scan.run_blurs hblurs
  simp only [parsed_eq, Dialect.events, hrun, h.length_eq]

/-- Only the classes of bytes matter: two templates give the same events, the same scan and the same
counters if, place by place, their bytes are the same, or no bytes of a marker but both white space,
both letters other than `v`, or both without any meaning. If the markers are ASCII, characters
outside of ASCII can therefore be exchanged for others of the same length. -/
theorem parsed_eq_of_alike (o : Options) (rawText : Bool) (first second : String) :
    (List.Forall₂ (Byte.Alike o.delimiters.bytes) (utf8Bytes first) (utf8Bytes second) →
        parsed o rawText first = parsed o rawText second) ∧
      ((∀ b ∈ o.delimiters.bytes, b < 0x80) →
        List.Forall₂ Exchangeable first.toList second.toList →
          parsed o rawText first = parsed o rawText second) := by
  refine ⟨parsed_eq_of_forall₂, fun hascii h => parsed_eq_of_forall₂ ?_⟩
  rw [utf8Bytes_eq_flatMap, utf8Bytes_eq_flatMap]
  apply List.rel_flatMap h
  intro x y hxy
  exact hxy.alike hascii

/-- The first pair of templates differs in letters and white space, the second one in characters
beyond ASCII. -/
theorem parsed_eq_of_alike_sample :
    (List.Forall₂ (Byte.Alike Delimiters.braces.bytes) (utf8Bytes "<p v-a=1>\x7b\x7bü")
        (utf8Bytes "<q\tv-b=2>\x7b\x7bö") ∧
      parsed {} false "<p v-a=1>\x7b\x7bü" = parsed {} false "<q\tv-b=2>\x7b\x7bö") ∧
    (∀ b ∈ Delimiters.braces.bytes, b < 0x80) ∧
      List.Forall₂ Exchangeable "<p ü='é'>".toList "<p ö='é'>".toList ∧
      parsed {} false "<p ü='é'>" = parsed {} false "<p ö='é'>" := by
  have halike : List.Forall₂ (Byte.Alike Delimiters.braces.bytes) (utf8Bytes "<p v-a=1>\x7b\x7bü")
      (utf8Bytes "<q\tv-b=2>\x7b\x7bö") := by decide +kernel
  have hascii : ∀ b ∈ Delimiters.braces.bytes, b < 0x80 := by decide +kernel
  have hchars : List.Forall₂ Exchangeable "<p ü='é'>".toList "<p ö='é'>".toList := by
    decide +kernel
  exact ⟨⟨halike, (parsed_eq_of_alike {} false _ _).1 halike⟩, hascii, hchars,
    (parsed_eq_of_alike {} false _ _).2 hascii hchars⟩

end TemplateLexer
