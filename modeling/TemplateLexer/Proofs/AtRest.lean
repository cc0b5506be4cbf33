import TemplateLexer.Proofs.Exact
import TemplateLexer.Proofs.Path
import TemplateLexer.Proofs.Spelling.Progress

/-!
# Scans between two bytes

What a scan keeps between two bytes fits together, whichever bytes it has read (`atRest_runTo`): its
mode decides whether a marker is under comparison, whether a part is under way, and what is known of
the bytes of both. Nearly all of this holds in front of every turn (`Underway`, `Spelling`). But the
comparison of a marker and a value without quotation marks are entered in front of their first byte,
and that a scan between two bytes is behind it (`PastFirst`) is due to the last turn of a byte only.
-/

set_option autoImplicit false

namespace TemplateLexer

open Layout Marker

/-! ## What a scan at rest is like -/

/-- Of a marker, so many bytes, at least one and not all of them, are the last ones in front of an
offset. -/
structure PartlyRead (marker w : List UInt8) (k n : Nat) : Prop where
  pos : 1 ≤ k
  lt : k < marker.length
  read : marker.take k <:+ w.take n

/-- What is known of the part under way that began at `b`, in front of the byte at `n`, if `k` bytes
of a marker have been compared and `es` reported. -/
def Part (d : Dialect) (w : List UInt8) (es : List Event) (k b n : Nat) : Mode → Prop
  | .text | .interpolationOpen => b + k ≤ n
  | .interpolation | .interpolationClose => Inside d w b ∧ b + d.opening.length + k ≤ n
  | .beforeTagName => Opener d w b n
  | .beforeClosingTagName => CloseOpener d w b n
  | .inTagName => (∃ i, Opener d w i b) ∧ TagName w b n
  | .inClosingTagName => (∃ i, CloseOpener d w i b) ∧ TagName w b n
  | .inAttrName => PlainName w b n
  | .inDirName =>
    w[b]? = some Byte.letterV ∧ w[b + 1]? = some Byte.hyphen ∧ Only inLongName w (b + 1) n
  -- No dot outside of brackets has been read, and the last bracket read tells the two modes apart.
  | .inDirArg =>
    (∃ i head, ArgHead w i b head ∧ es.getLast? = some head) ∧ Only inName w b n ∧
      cutAtDot false (bytesAt w ⟨b, n⟩) = none ∧ endsBracketed false (bytesAt w ⟨b, n⟩) = false
  | .inDirDynamicArg =>
    (∃ i head, ArgHead w i b head ∧ es.getLast? = some head) ∧ Only inName w b n ∧
      cutAtDot false (bytesAt w ⟨b, n⟩) = none ∧ endsBracketed false (bytesAt w ⟨b, n⟩) = true
  | .inDirModifier => (∃ j, b = j + 1 ∧ w[j]? = some Byte.dot) ∧ Only inModifier w b n
  | .afterAttrName => es.getLast? = some (.attribNameEnd b) ∧ Only Byte.isSpace w b n
  | .beforeAttrValue => es.getLast? = some (.attribNameEnd b) ∧ Announced w b n
  | .inQuotedValue mark =>
    ∃ m v, es.getLast? = some (.attribNameEnd m) ∧ b = v + 1 ∧ Quoted w m mark v ∧
      Only (· != mark.byte) w b n
  | .inBareValue => ∃ m, es.getLast? = some (.attribNameEnd m) ∧ Bare w m b n ∧ b < n
  | .afterClosingTagName | .beforeAttrName | .inSelfClosingTag | .reserved _ => False

/-- A scan that has read some bytes of an input and reported some events, in front of a byte that no
mode has seen yet. -/
structure AtRest (d : Dialect) (w : List UInt8) (s : Scan) (es : List Event) : Prop where
  unreserved : ∀ mode, s.mode ≠ .reserved mode
  /-- A marker is under comparison exactly in the mode for it, and some of it has been read. -/
  matcher : match s.matcher.index? with
    | none => ∀ side, s.mode ≠ Side.comparing side
    | some k => ∃ side, s.mode = Side.comparing side ∧
        PartlyRead (d.marker side) w k s.cursor
  closed : s.sectionStart = none ↔
    s.mode = .beforeAttrName ∨ s.mode = .inSelfClosingTag ∨ s.mode = .afterClosingTagName
  part : ∀ b, s.sectionStart = some b →
    b ≤ s.cursor ∧ Part d w es s.matcher.position b s.cursor s.mode
  /-- The shape kept is that of the argument under way. -/
  shape : s.argShape = if s.mode = .inDirArg ∨ s.mode = .inDirDynamicArg
    then .ofBytes (bytesAt w s.pending) else .empty

variable {d : Dialect} {w marker : List UInt8} {s s' : Scan} {c : UInt8} {next : Option UInt8}
  {es : List Event} {k m : Nat}

/-! ## Behind the first byte -/

/-- The scan is behind the first byte of a marker under comparison, and behind the first byte of a
value without quotation marks. -/
structure PastFirst (s : Scan) : Prop where
  matcher : s.matcher ≠ .started
  bare : s.mode = .inBareValue → ∀ b, s.sectionStart = some b → b < s.cursor

/-- A turn that goes on to the next byte has neither started a comparison nor entered a value without
quotation marks. -/
structure Turn.Stays (s : Scan) (t : Turn) : Prop where
  matcher : t.again = false → t.scan.matcher ≠ .started
  bare : t.again = false → t.scan.mode = .inBareValue → t.scan = s

/-- No byte leaves a comparison where it was started. -/
theorem Matcher.ne_started_of_step {m m' : Matcher} {result : MatchStep}
    (h : m.step marker c = (result, m')) : m' ≠ .started := by
  unfold step at h
  split at h
  · split at h
    · cases h
      exact nofun
    · cases h
      exact nofun
  · cases h
    exact nofun

namespace Scan

/-- A byte that is handed over leaves nothing at rest yet. -/
theorem stays_again : Turn.Stays s ⟨s', es, true⟩ :=
  ⟨nofun, nofun⟩

/-- A turn that keeps its byte may leave anything behind but a marker and a value that have only
begun. -/
theorem stays_done (hmatcher : s'.matcher ≠ .started) (hmode : s'.mode ≠ .inBareValue) :
    Turn.Stays s ⟨s', es, false⟩ :=
  ⟨fun _ => hmatcher, fun _ hbare => (hmode hbare).elim⟩

/-- Every turn stays in this way if a comparison that has been started is one that the mode makes. -/
theorem stays_turn (h : s.matcher = .started → ∃ side, s.mode = Side.comparing side) :
    (s.turn d c next).Stays s := by
  unfold turn
  cases hmode : s.mode with
  | interpolationOpen | interpolationClose =>
    simp only [readInterpolationOpen, readInterpolationClose]
    split
    · next hstep =>
      exact stays_done (Matcher.ne_started_of_step hstep) (by simp [matching, hmode])
    · next hstep => exact stays_done (Matcher.ne_started_of_step hstep) (by simp [enter, since])
    · exact stays_again
  | _ =>
    -- No other mode changes the matcher, but for a mode that is to read the same byte.
    have hidle : s.matcher ≠ .started := by
      intro hstarted
      obtain ⟨side, hside⟩ := h hstarted
      rw [hmode] at hside
      cases side <;> cases hside
    simp only [readText, readInterpolation, readBeforeTagName, readInTagName,
      readInSelfClosingTag, readBeforeClosingTagName, readInClosingTagName,
      readAfterClosingTagName, readInAttrName, readInDirName, readInDirArg, readInDirDynamicArg,
      readInDirModifier, readBeforeAttrName, readAfterAttrName, readBeforeAttrValue,
      readInQuotedValue, readInBareValue, attrStart, nameEnd]
    repeat' split
    all_goals
      constructor
      · simp [enter, since, closed, shaped, hidle]
      · simp [enter, since, closed, shaped, hmode]

end Scan

/-- A comparison that has been started is one that the mode makes. -/
theorem Layout.Underway.exists_comparing (h : Underway d w s es) (hstarted : s.matcher = .started) :
    ∃ side, s.mode = Side.comparing side := by
  cases h with
  | interpolationOpen => exact ⟨.opening, rfl⟩
  | interpolationClose => exact ⟨.closing, rfl⟩
  | _ => cases hstarted

/-- A turn that goes on to the next byte leaves the scan behind the first byte of what it has
entered. -/
theorem Layout.Underway.pastFirst_onward (h : Underway d w s es)
    (hdone : (s.turn d c next).again = false) : PastFirst (s.turn d c next).onward := by
  have hstays : (s.turn d c next).Stays s := Scan.stays_turn h.exists_comparing
  rw [Turn.onward, if_neg (by rw [hdone]; exact Bool.false_ne_true)]
  refine ⟨hstays.matcher hdone, fun hmode b hb => ?_⟩
  have hscan := hstays.bare hdone hmode
  have hle : b ≤ s.cursor := h.exact.section_le b (by rw [← hscan]; exact hb)
  rw [Scan.cursor_turn]
  exact Nat.lt_succ_of_le hle

/-! ## From what a scan has found -/

/-- A marker stands up to where the comparison of it has got. -/
theorem PartlyRead.of_occursAt (hpos : 1 ≤ k) (hk : k < marker.length)
    (h : OccursAt (marker.take k) w m) : PartlyRead marker w k (m + k) := by
  refine ⟨hpos, hk, ?_⟩
  have hread : marker.take k = (w.drop m).take k := by
    have htake := List.prefix_iff_eq_take.mp h
    rwa [List.length_take_of_le (Nat.le_of_lt hk)] at htake
  rw [List.take_add, hread]
  exact List.suffix_append _ _

/-- The matcher is between two attempts, or it has read some of the marker that the mode compares. -/
theorem Layout.Underway.matcher (h : Underway d w s es) (hs : PastFirst s) :
    match s.matcher.index? with
    | none => ∀ side, s.mode ≠ Side.comparing side
    | some k => ∃ side, s.mode = Side.comparing side ∧
        PartlyRead (d.marker side) w k s.cursor := by
  have hpos : ∀ k, s.matcher = ⟨some k⟩ → 1 ≤ k := by
    intro k hk
    refine Nat.one_le_iff_ne_zero.mpr ?_
    rintro rfl
    exact hs.matcher hk
  cases h with
  | interpolationOpen _ _ _ _ hk hmatch =>
    exact ⟨.opening, rfl, .of_occursAt (hpos _ rfl) hk hmatch⟩
  | interpolationClose _ _ _ _ hk hmatch =>
    exact ⟨.closing, rfl, .of_occursAt (hpos _ rfl) hk hmatch⟩
  | _ =>
    intro side
    cases side <;> exact nofun

/-- No part is under way between two attributes, behind a slash and behind a closing tag, and only
there. -/
theorem Layout.Underway.sectionStart_eq_none_iff (h : Underway d w s es) :
    s.sectionStart = none ↔
      s.mode = .beforeAttrName ∨ s.mode = .inSelfClosingTag ∨ s.mode = .afterClosingTagName := by
  cases h <;> simp

/-- The shape of the argument is kept in the modes of an argument only. -/
theorem Layout.Underway.argShape (h : Underway d w s es) :
    s.argShape = if s.mode = .inDirArg ∨ s.mode = .inDirDynamicArg
      then .ofBytes (bytesAt w s.pending) else .empty := by
  cases h <;> rfl

/-- No byte leads into a reserved mode. -/
theorem Layout.Underway.ne_reserved (h : Underway d w s es) (mode : ReservedMode) :
    s.mode ≠ .reserved mode := by
  cases h <;> exact nofun

/-- Until something else is reported, the end of a name is the last event. -/
theorem getLast?_attribNameEnd (es name : List Event) (m : Nat) :
    (es ++ (name ++ [Event.attribNameEnd m])).getLast? = some (.attribNameEnd m) := by
  rw [← List.append_assoc, List.getLast?_concat]

/-- What the bytes of the part under way are, mode by mode. -/
theorem Spelling.part (h : Spelling d w s es) (hs : PastFirst s) :
    match s.sectionStart with
    | none => True
    | some b => Part d w es s.matcher.position b s.cursor s.mode := by
  obtain ⟨hunderway, -, hspelling⟩ := h
  -- What divides the name of an attribute is known from its spelling only.
  have hundivided : s.mode.isName = true → Undivided (bytesAt w s.pending) s.mode := by
    intro hname
    obtain ⟨_, _, _, -, hspelt⟩ := hspelling hname
    exact hspelt.residue.undivided
  cases hunderway with
  | text _ hi _ => exact hi
  | interpolationOpen _ hi _ _ _ _ => exact Nat.add_le_add_right hi _
  | interpolation _ hin hn _ => exact ⟨hin, hn⟩
  | interpolationClose _ hin hm _ _ _ => exact ⟨hin, Nat.add_le_add_right hm _⟩
  | beforeTagName _ hop => exact hop
  | inTagName _ hop hname => exact ⟨⟨_, hop⟩, hname⟩
  | beforeClosingTagName _ hop => exact hop
  | inClosingTagName _ hop hname => exact ⟨⟨_, hop⟩, hname⟩
  | afterClosingTagName => trivial
  | beforeAttrName => trivial
  | inSelfClosingTag => trivial
  | inAttrName _ hname => exact hname
  | inDirName _ hv hh hrest => exact ⟨hv, hh, hrest⟩
  | inDirArg _ hhead harg =>
    exact ⟨⟨_, _, hhead, List.getLast?_concat⟩, harg, hundivided rfl⟩
  | inDirDynamicArg _ hhead harg =>
    exact ⟨⟨_, _, hhead, List.getLast?_concat⟩, harg, hundivided rfl⟩
  | inDirModifier _ _ hdot hmod => exact ⟨⟨_, rfl, hdot⟩, hmod⟩
  | afterAttrName _ _ hspaces => exact ⟨getLast?_attribNameEnd _ _ _, hspaces⟩
  | beforeAttrValue _ _ hann => exact ⟨getLast?_attribNameEnd _ _ _, hann⟩
  | inQuotedValue mark _ _ hquoted hvalue =>
    exact ⟨_, _, getLast?_attribNameEnd _ _ _, rfl, hquoted, hvalue⟩
  | inBareValue _ _ hbare =>
    exact ⟨_, getLast?_attribNameEnd _ _ _, hbare, hs.bare rfl _ rfl⟩

/-- A scan that has got behind the first byte of what it has entered is at rest. -/
theorem Spelling.atRest (h : Spelling d w s es) (hs : PastFirst s) : AtRest d w s es where
  unreserved := h.underway.ne_reserved
  matcher := h.underway.matcher hs
  closed := h.underway.sectionStart_eq_none_iff
  part := by
    intro b hb
    have hpart := h.part hs
    rw [hb] at hpart
    exact ⟨h.underway.exact.section_le b hb, hpart⟩
  shape := h.underway.argShape

/-- The last turn of every byte leaves the scan at rest. -/
theorem Spelling.leaves_atRest (ho : d.opening ≠ []) (hcl : d.closing ≠ []) :
    Scan.Leaves d w (Spelling d w) (AtRest d w) := by
  intro s es c h hw hdone
  have hnext := Spelling.kept ho hcl s es c h hw
  exact hnext.atRest (h.underway.pastFirst_onward hdone)

/-- A scan that has read nothing is at rest. -/
theorem AtRest.fresh : AtRest d w {} [] :=
  Spelling.fresh.atRest ⟨nofun, nofun⟩

/-! ## Templates -/

/-- After any number of bytes of a template, the scan is at rest: it is in no reserved mode; a marker
is under comparison exactly in the two modes for it, and the last bytes read are its first ones; no
part is under way exactly behind the name of a closing tag and between attributes; and the bytes of
the part under way are what `Part` says of the mode. -/
theorem atRest_runTo (o : Options) (rawText : Bool) (template : String) (n : Nat) :
    let d := o.dialect rawText
    let w := utf8Bytes template
    let first := d.runTo template n
    d.run template = first.andThen (first.scan.run d (w.drop n) none) ∧
      first.scan.cursor = min n w.length ∧
      AtRest d w first.scan first.events := by
  intro d w first
  have ho := utf8Bytes_ne_nil o.delimiters.opening_ne_empty
  have hcl := utf8Bytes_ne_nil o.delimiters.closing_ne_empty
  have hrest : AtRest d w first.scan first.events :=
    Dialect.runTo_of_leaves (Spelling.leaves_atRest ho hcl) (Spelling.kept ho hcl) Spelling.fresh
      AtRest.fresh n
  exact ⟨d.run_eq_runTo_andThen template n, d.cursor_runTo template n, hrest⟩

/-- One byte of the opening marker has been read, and the text in front of it is under way. -/
example : ((Options.dialect {} false).runTo "a\x7b\x7bb" 2).scan =
    ⟨.interpolationOpen, 2, some 0, ⟨some 1⟩, .empty⟩ := by
  decide +kernel

end TemplateLexer
