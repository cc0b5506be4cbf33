import TemplateLexer.Proofs.Layout.Progress

/-!
# One byte of lookahead

The reading of a byte depends on the byte behind it in one place only: a `v` that begins an
attribute begins a directive if a hyphen follows. Even there the events, the hand-overs and the
changes of mode are the same, so a template reports the same events whatever is appended to it, up
to those of its end (`stable_under_append`).
-/

set_option autoImplicit false

namespace TemplateLexer

/-- The modes in which a byte begins an attribute unless it is white space or has a meaning. -/
def Mode.awaitsAttr : Mode → Bool
  | .beforeAttrName | .inSelfClosingTag | .afterAttrName => true
  | _ => false

namespace Reading

/-- The same reading, but for the mode that it ends in. -/
def enter (r : Reading) (mode : Mode) : Reading :=
  { r with scan := r.scan.enter mode }

end Reading

namespace Scan

variable {d : Dialect} {s : Scan} {c : UInt8} {next next' : Option UInt8} {bytes : List UInt8}

/-! ## A single byte -/

/-- The start of an attribute needs to know of a byte behind a `v` only whether it is a hyphen. -/
theorem attrStart_congr
    (h : c = Byte.letterV → (next = some Byte.hyphen ↔ next' = some Byte.hyphen)) :
    s.attrStart c next = s.attrStart c next' := by
  have hiff : (c = Byte.letterV ∧ next = some Byte.hyphen) ↔
      (c = Byte.letterV ∧ next' = some Byte.hyphen) := and_congr_right h
  unfold attrStart
  by_cases hlong : c = Byte.letterV ∧ next = some Byte.hyphen
  · rw [if_pos hlong, if_pos (hiff.mp hlong)]
  · rw [if_neg hlong, if_neg fun hlong' => hlong (hiff.mpr hlong')]

/-- A turn depends on the byte behind only if a `v` begins an attribute. -/
theorem turn_congr (h : s.mode.awaitsAttr = true → c = Byte.letterV →
      (next = some Byte.hyphen ↔ next' = some Byte.hyphen)) :
    s.turn d c next = s.turn d c next' := by
  obtain ⟨mode, cursor, sectionStart, matcher, argShape⟩ := s
  cases mode with
  | beforeAttrName => simp only [turn, readBeforeAttrName, attrStart_congr (h rfl)]
  | afterAttrName => simp only [turn, readAfterAttrName, attrStart_congr (h rfl)]
  | _ => rfl

/-- Outside of these modes, only a byte that ends a name or a value is handed over to one. -/
theorem endsName_of_awaitsAttr (h : s.mode.awaitsAttr = false)
    (hagain : (s.turn d c next).again = true)
    (hawaits : (s.turn d c next).scan.mode.awaitsAttr = true) : Byte.endsName c = true := by
  obtain ⟨mode, cursor, sectionStart, matcher, argShape⟩ := s
  cases mode
  case beforeAttrName | inSelfClosingTag | afterAttrName => cases h
  case inAttrName | inDirName | inDirArg | inDirDynamicArg | inDirModifier =>
    simp only [turn, readInAttrName, readInDirName, readInDirArg, readInDirDynamicArg,
      readInDirModifier] at hagain
    repeat' split at hagain
    all_goals simp_all
  case inTagName =>
    simp only [turn, readInTagName] at hagain
    split at hagain
    · next hend => simp [Byte.endsName, hend]
    · cases hagain
  case inBareValue =>
    simp only [turn, readInBareValue] at hagain
    split at hagain
    · next hend =>
      rcases hend with hspace | rfl
      · simp [Byte.endsName, Byte.endsSection, hspace]
      · rfl
    · cases hagain
  case inQuotedValue mark =>
    simp only [turn, readInQuotedValue] at hagain
    split at hagain <;> cases hagain
  -- The other modes hand their bytes over to modes outside of opening tags only.
  all_goals
    simp only [turn, readText, readInterpolationOpen, readInterpolation, readInterpolationClose,
      readBeforeTagName, readBeforeClosingTagName, readInClosingTagName, readAfterClosingTagName,
      readBeforeAttrValue] at hawaits
    repeat' split at hawaits
    all_goals cases hawaits

/-- The reading of a byte depends on the byte behind only if a `v` begins an attribute. -/
theorem settle_congr (h : s.mode.awaitsAttr = true → c = Byte.letterV →
      (next = some Byte.hyphen ↔ next' = some Byte.hyphen)) :
    s.settle d c next = s.settle d c next' := by
  fun_induction settle d s c next with
  | case1 s t moved again r ih =>
    have hturn : s.turn d c next' = t := (turn_congr h).symm
    have hrest : t.scan.settle d c next' = r := by
      refine (ih fun hawaits hc => ?_).symm
      by_cases hmode : s.mode.awaitsAttr = true
      · exact h hmode hc
      · have hend := endsName_of_awaitsAttr (Bool.not_eq_true _ ▸ hmode) again hawaits
        rw [hc] at hend
        cases hend
    rw [settle, hturn]
    simp only [again, dite_true, hrest]
    rfl
  | case2 s t moved done =>
    have hturn : s.turn d c next' = t := (turn_congr h).symm
    rw [settle, hturn]
    simp only [done, dite_false, Bool.false_eq_true]
    rfl

/-- A turn that keeps its byte is the whole reading of it. -/
theorem settle_of_done {t : Turn} (ht : s.turn d c next = t) (h : t.again = false) :
    s.settle d c next = ⟨t.scan, t.events, 0, if t.scan.mode = s.mode then 0 else 1⟩ := by
  rw [settle, ht]
  simp only [h, dite_false, Bool.false_eq_true]

/-- A turn that hands its byte over counts, and the rest of the reading follows. -/
theorem settle_of_again {t : Turn} (ht : s.turn d c next = t) (h : t.again = true) :
    s.settle d c next =
      ⟨(t.scan.settle d c next).scan, t.events ++ (t.scan.settle d c next).events,
        (t.scan.settle d c next).rereads + 1,
        (t.scan.settle d c next).transitions + if t.scan.mode = s.mode then 0 else 1⟩ := by
  rw [settle, ht]
  simp only [h, dite_true]

/-- A `v` that begins an attribute begins a plain name, or a directive if a hyphen follows. -/
theorem turn_letterV (h : s.mode = .beforeAttrName ∨ s.mode = .afterAttrName)
    (hnext : next ≠ some Byte.hyphen) :
    ∃ es, s.turn d Byte.letterV next = ⟨(s.enter .inAttrName).since s.cursor, es, false⟩ ∧
      s.turn d Byte.letterV (some Byte.hyphen) =
        ⟨(s.enter .inDirName).since s.cursor, es, false⟩ := by
  have hplain : ∀ s : Scan, s.attrStart Byte.letterV next =
      { scan := (s.enter .inAttrName).since s.cursor } := by
    intro s
    rw [attrStart, if_neg fun h => hnext h.2]
    rfl
  obtain ⟨mode, cursor, sectionStart, matcher, argShape⟩ := s
  rcases h with rfl | rfl
  · exact ⟨[], hplain _, rfl⟩
  · let s : Scan := ⟨.afterAttrName, cursor, sectionStart, matcher, argShape⟩
    have hturn : s.turn d Byte.letterV next =
        { s.attrStart Byte.letterV next with
          events := s.absentValue :: (s.attrStart Byte.letterV next).events } := rfl
    rw [hplain] at hturn
    exact ⟨[s.absentValue], hturn, rfl⟩

/-- A `v` that begins an attribute leaves the scan in a plain name, or in the name of a directive if
a hyphen follows. -/
theorem settle_letterV (h : s.mode.awaitsAttr = true) (hnext : next ≠ some Byte.hyphen) :
    (s.settle d Byte.letterV next).scan.mode = .inAttrName ∧
      s.settle d Byte.letterV (some Byte.hyphen) =
        (s.settle d Byte.letterV next).enter .inDirName := by
  have hstart : ∀ s : Scan, s.mode = .beforeAttrName ∨ s.mode = .afterAttrName →
      (s.settle d Byte.letterV next).scan.mode = .inAttrName ∧
        s.settle d Byte.letterV (some Byte.hyphen) =
          (s.settle d Byte.letterV next).enter .inDirName := by
    intro s hs
    obtain ⟨es, hplain, hlong⟩ := turn_letterV (d := d) hs hnext
    rw [settle_of_done hplain rfl, settle_of_done hlong rfl]
    rcases hs with hs | hs <;> rw [hs] <;> exact ⟨rfl, rfl⟩
  obtain ⟨mode, cursor, sectionStart, matcher, argShape⟩ := s
  cases mode
  case beforeAttrName => exact hstart _ (Or.inl rfl)
  case afterAttrName => exact hstart _ (Or.inr rfl)
  case inSelfClosingTag =>
    have hturn : ∀ next, turn d ⟨.inSelfClosingTag, cursor, sectionStart, matcher, argShape⟩
        Byte.letterV next =
        ⟨⟨.beforeAttrName, cursor, sectionStart, matcher, argShape⟩, [], true⟩ := fun _ => rfl
    obtain ⟨hmode, heq⟩ := hstart ⟨.beforeAttrName, cursor, sectionStart, matcher, argShape⟩
      (Or.inl rfl)
    rw [settle_of_again (hturn _) rfl, settle_of_again (hturn _) rfl, heq]
    exact ⟨hmode, rfl⟩
  all_goals cases h

/-! ## Runs -/

/-- Bytes of which the last is a `v` that begins an attribute. -/
def EndsInFreshV (d : Dialect) (s : Scan) (bytes : List UInt8) : Prop :=
  ∃ before, bytes = before ++ [Byte.letterV] ∧
    (s.run d before (some Byte.letterV)).scan.mode.awaitsAttr = true

/-- A run over one byte more takes a step more. -/
theorem run_concat (before : List UInt8) :
    s.run d (before ++ [c]) next =
      (s.run d before (some c)).andThen ((s.run d before (some c)).scan.step d c next) := by
  rw [run_append]
  simp [run, Reading.andThen, Reading.nothing]

/-- A run depends on the byte behind it only if it ends in a `v` that begins an attribute. -/
theorem run_congr (h : EndsInFreshV d s bytes →
      (next = some Byte.hyphen ↔ next' = some Byte.hyphen)) :
    s.run d bytes next = s.run d bytes next' := by
  rcases List.eq_nil_or_concat bytes with rfl | ⟨before, c, rfl⟩
  · rfl
  · rw [List.concat_eq_append] at h ⊢
    rw [run_concat, run_concat, step, step, settle_congr]
    intro hawaits hc
    subst hc
    exact h ⟨before, rfl, hawaits⟩

/-- If a hyphen follows a `v` that begins an attribute, the run ends in the name of a directive, and
nothing else is different. -/
theorem run_hyphen (h : EndsInFreshV d s bytes) (hnext : next ≠ some Byte.hyphen) :
    (s.run d bytes next).scan.mode = .inAttrName ∧
      s.run d bytes (some Byte.hyphen) = (s.run d bytes next).enter .inDirName := by
  obtain ⟨before, rfl, hawaits⟩ := h
  obtain ⟨hmode, heq⟩ := settle_letterV (d := d) hawaits hnext
  rw [run_concat, run_concat, step, step, heq]
  exact ⟨hmode, rfl⟩

end Scan

/-! ## Templates -/

namespace Lookahead

open Layout Scan

/-- What a template reports at its end, besides the end itself. -/
inductive Addition (n : Nat) : List Event → Prop
  | nothing : Addition n []
  | text {b : Nat} : b < n → Addition n [.text ⟨b, n⟩]
  | interpolation {b : Nat} : b < n →
      Addition n [.error .missingInterpolationEnd b, .text ⟨b, n⟩]
  | value {b : Nat} : b < n → Addition n [.attribData ⟨b, n⟩]
  | tag : Addition n [.error .eofInTag n]

variable {d : Dialect} {w : List UInt8} {s : Scan} {es : List Event} {b n : Nat}

/-- The text under way is all that a template can add in text. -/
theorem addition_pendingText {mode : Mode} {matcher : Matcher} :
    Addition n (Scan.pendingText ⟨mode, n, some b, matcher, .empty⟩ n) := by
  simp only [Scan.pendingText, Option.getD_some]
  split
  · next hlt => exact .text hlt
  · exact .nothing

/-- An interpolation that is never closed adds an error and its bytes. -/
theorem addition_interpolation {mode : Mode} {matcher : Matcher} (h : b < n) :
    Addition n (.error .missingInterpolationEnd b ::
      Scan.pendingText ⟨mode, n, some b, matcher, .empty⟩ n) := by
  simp only [Scan.pendingText, Option.getD_some, if_pos h]
  exact .interpolation h

/-- An unfinished value adds its bytes, if there are any. -/
theorem addition_value (h : b ≤ n) :
    Addition n (if (⟨b, n⟩ : Span).isEmpty then [] else [.attribData ⟨b, n⟩]) := by
  split
  · exact .nothing
  · next hne =>
    refine .value (Nat.lt_of_le_of_ne h fun heq => hne ?_)
    rw [heq, Span.isEmpty]
    exact beq_self_eq_true n

/-- Whatever is under way, what is left of it is one of the forms there are. -/
theorem addition_leftover (ho : d.opening ≠ []) (h : Underway d w s es) :
    Addition s.cursor s.leftover := by
  have hpos := List.length_pos_iff.mpr ho
  cases h with
  | text _ _ _ => exact addition_pendingText
  | interpolationOpen _ _ _ _ _ _ => exact addition_pendingText
  | beforeTagName _ _ => exact addition_pendingText
  | beforeClosingTagName _ _ => exact addition_pendingText
  | @interpolation i n _ _ _ hn _ =>
    have hlt : i < n := by omega
    exact addition_interpolation hlt
  | @interpolationClose i m k _ _ _ hm _ _ _ =>
    have hlt : i < m + k := by omega
    exact addition_interpolation hlt
  | inQuotedValue _ _ _ _ hvalue => exact addition_value hvalue.le
  | inBareValue _ _ hbare => exact addition_value hbare.value.le
  | _ => exact .tag

/-- The run of a fresh scan over a template as the first part of a longer one. -/
def runBefore (d : Dialect) (first second : String) : Reading :=
  Scan.run d {} (utf8Bytes first) (utf8Bytes second).head?

/-- A template with something appended is read as a run over the template, told what follows, and
from there on. -/
theorem run_append_eq (d : Dialect) (first second : String) :
    d.run (first ++ second) = (runBefore d first second).andThen
      ((runBefore d first second).scan.run d (utf8Bytes second) none) := by
  rw [Dialect.run, utf8Bytes_append, Scan.run_append, runBefore, Option.or_none]

/-- Alone and as the first part of a longer template, a template is read in the same way, but for a
`v` at its end that begins an attribute, with a hyphen behind it: alone it is a plain name. -/
theorem runBefore_cases (d : Dialect) (first second : String) :
    (EndsInFreshV d {} (utf8Bytes first) ∧ (utf8Bytes second).head? = some Byte.hyphen) ∧
        (d.run first).scan.mode = .inAttrName ∧
        runBefore d first second = (d.run first).enter .inDirName ∨
      ¬ (EndsInFreshV d {} (utf8Bytes first) ∧ (utf8Bytes second).head? = some Byte.hyphen) ∧
        runBefore d first second = d.run first := by
  by_cases h : EndsInFreshV d {} (utf8Bytes first) ∧ (utf8Bytes second).head? = some Byte.hyphen
  · refine Or.inl ⟨h, ?_⟩
    rw [runBefore, h.2]
    exact run_hyphen h.1 (by simp)
  · refine Or.inr ⟨h, run_congr fun hfresh => ?_⟩
    have hno : ¬ (utf8Bytes second).head? = some Byte.hyphen := fun hhead => h ⟨hfresh, hhead⟩
    simp [hno]

/-- Being told what follows changes neither the events nor the counters. -/
theorem runBefore_counts (d : Dialect) (first second : String) :
    (runBefore d first second).events = (d.run first).events ∧
      (runBefore d first second).rereads = (d.run first).rereads ∧
      (runBefore d first second).transitions = (d.run first).transitions := by
  rcases runBefore_cases d first second with ⟨_, _, heq⟩ | ⟨_, heq⟩
  · rw [heq]
    exact ⟨rfl, rfl, rfl⟩
  · rw [heq]
    exact ⟨rfl, rfl, rfl⟩

/-- Whatever is appended to a template, the events in front of its end stay the first ones, and the
counters are the same behind its last byte. At its end a template adds what is under way. Its last
mode stays the same too, unless its last byte is a `v` that begins an attribute and a hyphen is
appended. -/
theorem stable_under_append (o : Options) (rawText : Bool) (first second : String) :
    let d := o.dialect rawText
    let alone := d.run first
    let within := runBefore d first second
    d.run (first ++ second) =
        within.andThen (within.scan.run d (utf8Bytes second) none) ∧
      alone.events <+: d.events (first ++ second) ∧
      (∃ added, Addition (utf8Bytes first).length added ∧
        d.events first = alone.events ++ (added ++ [.endOfInput])) ∧
      (within.events = alone.events ∧ within.rereads = alone.rereads ∧
        within.transitions = alone.transitions) ∧
      ((EndsInFreshV d {} (utf8Bytes first) ∧
            (utf8Bytes second).head? = some Byte.hyphen) ∧
          alone.scan.mode = .inAttrName ∧ within.scan.mode = .inDirName ∨
        ¬ (EndsInFreshV d {} (utf8Bytes first) ∧
            (utf8Bytes second).head? = some Byte.hyphen) ∧
          within.scan.mode = alone.scan.mode) := by
  intro d alone within
  have hcounts := runBefore_counts d first second
  refine ⟨run_append_eq d first second, ?_, ?_, hcounts, ?_⟩
  · rw [Dialect.events, run_append_eq, Reading.andThen, hcounts.1, List.append_assoc]
    exact List.prefix_append _ _
  · have hadded := addition_leftover (utf8Bytes_ne_nil o.delimiters.opening_ne_empty)
      (o.underway_run rawText first)
    rw [Dialect.cursor_run] at hadded
    exact ⟨alone.scan.leftover, hadded, rfl⟩
  · rcases runBefore_cases d first second with ⟨h, hmode, heq⟩ | ⟨h, heq⟩
    · exact Or.inl ⟨h, hmode, congrArg (fun r => r.scan.mode) heq⟩
    · exact Or.inr ⟨h, congrArg (fun r => r.scan.mode) heq⟩

example : EndsInFreshV (Options.dialect {} false) {} (utf8Bytes "<a/v") :=
  ⟨utf8Bytes "<a/", by decide, by decide +kernel⟩

end Lookahead

end TemplateLexer
