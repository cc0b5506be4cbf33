import TemplateLexer.Proofs.Layout.Progress

/-!
# Exact differences

A scan computes with offsets, and some of them are differences: where a marker began, and where the
bracket at the end of an argument stands. A difference of natural numbers is cut off at zero.
`Exact` says of a scan what is needed for none of its differences to be; every scan that has got
somewhere in a template is exact (`Underway.exact`).
-/

set_option autoImplicit false

namespace TemplateLexer

/-- No difference that a scan computes is cut off. -/
structure Scan.Exact (d : Dialect) (s : Scan) : Prop where
  /-- The part under way begins no later than at the cursor. -/
  section_le : ∀ i, s.sectionStart = some i → i ≤ s.cursor
  /-- The bytes of the opening marker compared so far have been read. -/
  opening : s.mode = .interpolationOpen → s.matcher.position ≤ s.cursor
  /-- So have those of the closing marker, behind an opening one. -/
  closing : s.mode = .interpolationClose →
    ∃ i, s.sectionStart = some i ∧ i + d.opening.length + s.matcher.position ≤ s.cursor
  /-- An argument between brackets has both of them. -/
  brackets : s.argShape = .enclosed → ∃ i, s.sectionStart = some i ∧ i + 2 ≤ s.cursor

namespace Layout

variable {d : Dialect} {w : List UInt8} {s : Scan} {es : List Event} {a b n : Nat} {mode : Mode}

/-- A scan that compares no marker and reads no argument is exact if its part under way begins no
later than at the cursor. -/
theorem exact_of_le (h : b ≤ n) (ho : mode ≠ .interpolationOpen)
    (hcl : mode ≠ .interpolationClose) : Scan.Exact d ⟨mode, n, some b, .idle, .empty⟩ := by
  refine ⟨?_, fun hmode => (ho hmode).elim, fun hmode => (hcl hmode).elim, fun hshape => ?_⟩
  · rintro i hi
    obtain rfl := Option.some.inj hi
    exact h
  · cases hshape

/-- Without a part under way and without a marker there is nothing to compute. -/
theorem exact_of_closed (ho : mode ≠ .interpolationOpen) (hcl : mode ≠ .interpolationClose) :
    Scan.Exact d ⟨mode, n, none, .idle, .empty⟩ := by
  refine ⟨?_, fun hmode => (ho hmode).elim, fun hmode => (hcl hmode).elim, fun hshape => ?_⟩
  · intro i hi
    cases hi
  · cases hshape

/-- An argument reaches from its start to the cursor, so its brackets have room in it. -/
theorem exact_of_argument {p : UInt8 → Bool} (h : Only p w a n) (ho : mode ≠ .interpolationOpen)
    (hcl : mode ≠ .interpolationClose) :
    Scan.Exact d ⟨mode, n, some a, .idle, shapeOf w a n⟩ := by
  refine ⟨?_, fun hmode => (ho hmode).elim, fun hmode => (hcl hmode).elim, fun hshape => ?_⟩
  · rintro i hi
    obtain rfl := Option.some.inj hi
    exact h.le
  · exact ⟨a, rfl, ((shapeOf_eq_enclosed_iff h).mp hshape).1⟩

/-- A scan in the name of an attribute is exact. -/
theorem Begun.exact {i : Nat} (h : Begun w i s es) : s.Exact d := by
  cases h with
  | plain hname => exact exact_of_le (Nat.le_of_succ_le hname.rest.le) nofun nofun
  | long _ _ hrest => exact exact_of_le (Nat.le_of_succ_le hrest.le) nofun nofun
  | arg _ harg => exact exact_of_argument harg nofun nofun
  | brackets _ harg => exact exact_of_argument harg nofun nofun
  | modifier _ _ hmod => exact exact_of_le hmod.le nofun nofun

/-- A scan that has got somewhere in a template is exact. -/
theorem Underway.exact (h : Underway d w s es) : s.Exact d := by
  cases h with
  | text _ hi _ => exact exact_of_le hi nofun nofun
  | @interpolationOpen i m k _ _ hi _ _ _ _ =>
    refine ⟨?_, fun _ => Nat.le_add_left k m, nofun, nofun⟩
    rintro j hj
    obtain rfl := Option.some.inj hj
    exact Nat.le_add_right_of_le hi
  | interpolation _ _ hn _ => exact exact_of_le (Nat.le_of_add_right_le hn) nofun nofun
  | @interpolationClose i m k _ _ _ hm _ _ _ =>
    refine ⟨?_, nofun, fun _ => ⟨i, rfl, Nat.add_le_add_right hm k⟩, nofun⟩
    rintro j hj
    obtain rfl := Option.some.inj hj
    exact Nat.le_add_right_of_le (Nat.le_of_add_right_le hm)
  | beforeTagName _ hop => exact exact_of_le (Nat.le_of_succ_le hop.marks.le) nofun nofun
  | inTagName _ _ hname => exact exact_of_le (Nat.le_of_succ_le hname.rest.le) nofun nofun
  | beforeClosingTagName _ hop =>
    exact exact_of_le (Nat.le_of_add_right_le hop.slash_le) nofun nofun
  | inClosingTagName _ _ hname => exact exact_of_le (Nat.le_of_succ_le hname.rest.le) nofun nofun
  | afterClosingTagName _ _ _ _ => exact exact_of_closed nofun nofun
  | beforeAttrName _ => exact exact_of_closed nofun nofun
  | inSelfClosingTag _ => exact exact_of_closed nofun nofun
  | inAttrName _ hname => exact (Begun.plain hname).exact
  | inDirName _ hv hh hrest => exact (Begun.long hv hh hrest).exact
  | inDirArg _ hhead harg => exact (Begun.arg hhead harg).exact
  | inDirDynamicArg _ hhead harg => exact (Begun.brackets hhead harg).exact
  | inDirModifier _ hdir hdot hmod => exact (Begun.modifier hdir hdot hmod).exact
  | afterAttrName _ _ hs => exact exact_of_le hs.le nofun nofun
  | beforeAttrValue _ _ hann =>
    obtain ⟨q, hbefore, _, hafter⟩ := hann
    have hle₁ := hbefore.le
    have hle₂ := hafter.le
    exact exact_of_le (by omega) nofun nofun
  | inQuotedValue _ _ _ _ hvalue => exact exact_of_le hvalue.le nofun nofun
  | inBareValue _ _ hbare => exact exact_of_le hbare.value.le nofun nofun

end Layout

end TemplateLexer
