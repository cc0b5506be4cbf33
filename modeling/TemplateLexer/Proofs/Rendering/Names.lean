import TemplateLexer.Proofs.Rendering.Rereading

/-!
# Reading names again

The name of an attribute is written as it is spelled, so it is read again turn by turn. From its
first byte on, a scan keeps to a path that it would follow between any two attributes
(`Naming.spells`), up to a byte that ends the name (`Naming.stops`). Only a name that begins with
the sign of a value cannot stand behind another attribute.
-/

set_option autoImplicit false

namespace TemplateLexer

open Layout Marker Printing Scan

namespace Rendering

/-- A scan between two attributes, in front of a name whose second byte is a hyphen exactly if that
of an input is one. -/
def AtName (u : List UInt8) : Place :=
  fun w k s owed => AtAttrs k s owed ∧ (w[k + 1]? = some Byte.hyphen ↔ u[1]? = some Byte.hyphen)

/-- A scan in the name of an attribute: what is read of it so far is read of its bytes wherever they
stand between two attributes, unless it begins with the sign of a value. -/
inductive Naming (d : Dialect) (w : List UInt8) : Scan → List Event → Prop
  | spelled {i : Nat} {s : Scan} {es name : List Event} :
      Reread d Stops AtAttrs (tokens w es) → Begun (w.drop i) 0 s name →
      Portable d (w.drop i) (AtName (w.drop i)) s.cursor name s →
      Naming d w (s.shift i) (es ++ name.map (Event.shift i))
  | stray {i n : Nat} {es : List Event} : w[i]? = some Byte.equals → i < n →
      Naming d w ⟨.inAttrName, n, some i, .idle, .empty⟩ es

/-- The name of a plain attribute. -/
def attribName? : Event → Option Span
  | .attribName span => some span
  | _ => none

/-- No name of a plain attribute begins with the sign of a value. -/
def Unambiguous (w : List UInt8) (es : List Event) : Prop :=
  ∀ span ∈ es.filterMap attribName?, (bytesAt w span).head? ≠ some Byte.equals

/-- Whether names are unambiguous can be decided name by name. -/
instance (w : List UInt8) (es : List Event) : Decidable (Unambiguous w es) :=
  inferInstanceAs (Decidable (∀ span ∈ es.filterMap attribName?, _))

variable {d : Dialect} {u w : List UInt8} {i k m n : Nat} {s : Scan} {es name : List Event}
  {c : UInt8}

/-! ## The first byte -/

/-- The first byte of a name is read in the same way wherever it stands. -/
theorem attrStart_eq_shift {mode : Mode} {start : Option Nat} {next : Option UInt8} :
    attrStart ⟨mode, n, start, .idle, .empty⟩ c next =
      (attrStart ⟨.beforeAttrName, 0, none, .idle, .empty⟩ c next).shift n := by
  have hsame : attrStart ⟨mode, n, start, .idle, .empty⟩ c next =
      attrStart ⟨.beforeAttrName, 0 + n, none, .idle, .empty⟩ c next := by
    rw [Nat.zero_add]
    rfl
  rw [hsame, ← attrStart_shift]
  rfl

/-- The start of an attribute does not move the cursor. -/
theorem cursor_attrStart {next : Option UInt8} : (s.attrStart c next).scan.cursor = s.cursor := by
  unfold attrStart
  split
  · rfl
  · split <;> rfl

/-- The first byte of a name is read by a path that can be moved. -/
theorem portable_attrStart (hu : u[0]? = some c) (hc : inName c = true) :
    Portable d u (AtName u) 1
      (attrStart ⟨.beforeAttrName, 0, none, .idle, .empty⟩ c u[1]?).events
      (attrStart ⟨.beforeAttrName, 0, none, .idle, .empty⟩ c u[1]?).onward := by
  rintro w k s owed ⟨hattrs, hhyphen⟩ hsame
  have hw : w[k]? = some c := by
    rw [← hu]
    exact hsame 0 Nat.zero_lt_one
  have hpath := leads_attrStart (d := d) hattrs hw hc
  rw [attrStart_congr fun _ => hhyphen, attrStart_eq_shift, onward_shift] at hpath
  exact hpath

/-- Behind the start of an attribute, a scan is naming. -/
theorem Naming.start {mode : Mode} {start : Option Nat} (h : Reread d Stops AtAttrs (tokens w es))
    (hw : w[n]? = some c) (hc : Byte.endsSection c = false) :
    Naming d w (attrStart ⟨mode, n, start, .idle, .empty⟩ c w[n + 1]?).onward
      (es ++ (attrStart ⟨mode, n, start, .idle, .empty⟩ c w[n + 1]?).events) := by
  by_cases hequals : c = Byte.equals
  · subst hequals
    exact .stray hw (Nat.lt_succ_self n)
  · have hin : inName c = true := by simp [inName, Byte.endsName, hequals, hc]
    have hfirst : (w.drop n)[0]? = some c := by rw [List.getElem?_drop, Nat.add_zero, hw]
    have hspells : Spells (w.drop n) 0 []
        (attrStart ⟨.beforeAttrName, 0, none, .idle, .empty⟩ c (w.drop n)[1]?) :=
      Begun.start hfirst hc
    have hcursor : (attrStart ⟨.beforeAttrName, 0, none, .idle, .empty⟩ c
        (w.drop n)[1]?).onward.cursor = 1 := by
      rw [Turn.cursor_onward hspells.done, cursor_attrStart]
    have hpath := portable_attrStart (d := d) hfirst hin
    have hnaming := Naming.spelled h hspells.begun (by rw [hcursor]; exact hpath)
    rw [attrStart_eq_shift, onward_shift, ← List.getElem?_drop]
    exact hnaming

/-! ## The bytes behind it -/

/-- The events of a directive begin with its name. -/
theorem exists_dirName_of_directive (h : Directive w i k es) :
    ∃ span sign rest, es = .dirName span sign :: rest := by
  induction h with
  | long _ => exact ⟨_, _, _, rfl⟩
  | arg hhead _ => cases hhead <;> exact ⟨_, _, _, rfl⟩
  | modifier _ _ _ ih =>
    obtain ⟨span, sign, rest, rfl⟩ := ih
    exact ⟨span, sign, _, rfl⟩

/-- A name is written in the same way whatever stands in front of it. -/
theorem free_of_name (h : Name w i k es) (last : List Event) :
    ∀ t ∈ (tokens u (es ++ last)).head?, isFree t = true := by
  cases h with
  | plain _ => exact free_of_head rfl
  | directive hdir =>
    obtain ⟨span, sign, rest, rfl⟩ := exists_dirName_of_directive hdir
    exact free_of_head rfl
  | unclosed hhead _ => cases hhead <;> exact free_of_head rfl

/-- A name that has begun has a byte. -/
theorem cursor_pos_of_begun (h : Begun u 0 s name) : 0 < s.cursor := by
  cases h with
  | plain hname => exact hname.rest.le
  | long _ _ hrest => exact hrest.le
  | arg hhead harg =>
    cases hhead <;> exact Nat.lt_of_lt_of_le (Nat.succ_pos _) harg.le
  | brackets hhead harg =>
    cases hhead <;> exact Nat.lt_of_lt_of_le (Nat.succ_pos _) harg.le
  | modifier _ _ hmod => exact Nat.lt_of_lt_of_le (Nat.succ_pos _) hmod.le

/-- Within a name no attribute is awaited. -/
theorem awaitsAttr_of_begun (h : Begun u i s name) : s.mode.awaitsAttr = false := by
  cases h <;> rfl

/-- The bytes of a name and the end of it behind them settle whether a hyphen is its second byte. -/
theorem hyphen_iff (hm : 0 < m) (hsame : ∀ q < m, w[k + q]? = u[q]?) (hw : BehindName w (k + m))
    (hu : BehindName u m) : w[k + 1]? = some Byte.hyphen ↔ u[1]? = some Byte.hyphen := by
  by_cases hone : m = 1
  · subst hone
    obtain ⟨b, hb, hend⟩ := hw
    obtain ⟨b', hb', hend'⟩ := hu
    rw [hb, hb', Option.some_inj, Option.some_inj]
    constructor
    · rintro rfl
      cases hend
    · rintro rfl
      cases hend'
  · rw [hsame 1 (by omega)]

/-- What completes a name completes its path. -/
theorem spelled_of_portable {last : List Event} (hbegun : Begun u 0 s name)
    (hpath : Portable d u (AtName u) s.cursor name s) (hend : BehindName u s.cursor)
    (hturn : ∀ b next, Byte.endsName b = true →
      s.turn d b next = ⟨⟨.afterAttrName, s.cursor, some s.cursor, .idle, .empty⟩,
        last ++ [.attribNameEnd s.cursor], true⟩) :
    Spelled d u s.cursor (name ++ (last ++ [.attribNameEnd s.cursor])) := by
  intro w k s₀ owed hattrs hsame hstop
  -- A name of one byte is read with the byte behind it in view, which is another one here.
  have hhyphen := hyphen_iff (cursor_pos_of_begun hbegun) hsame hstop hend
  have hfirst := hpath w k s₀ owed ⟨hattrs, hhyphen⟩ hsame
  obtain ⟨b, hb, hbyte⟩ := hstop
  have hcursor : (s.shift k).cursor = k + s.cursor := Nat.add_comm _ _
  have hlast : (s.shift k).turn d b w[(s.shift k).cursor + 1]? =
      Turn.shift k ⟨⟨.afterAttrName, s.cursor, some s.cursor, .idle, .empty⟩,
        last ++ [.attribNameEnd s.cursor], true⟩ := by
    rw [turn_shift hbegun.exact, hturn b _ hbyte]
  have hone := Leads.one (by rw [hcursor]; exact hb) hlast
  rw [List.map_append, ← List.append_assoc, Nat.add_comm k]
  exact hfirst.trans hone

namespace Naming

/-- A byte that does not end a name goes on with it. -/
theorem spells (h : Naming d w s es) (hw : w[s.cursor]? = some c) (hc : Byte.endsName c = false) :
    Naming d w (s.turn d c w[s.cursor + 1]?).onward
      (es ++ (s.turn d c w[s.cursor + 1]?).events) := by
  cases h with
  | @spelled i s es name htokens hbegun hpath =>
    have hu : (w.drop i)[s.cursor]? = some c := by rw [getElem?_drop_cursor, hw]
    have hspells : Spells (w.drop i) 0 name (s.turn d c (w.drop i)[s.cursor + 1]?) :=
      hbegun.spells hu hc
    have hcursor : (s.turn d c (w.drop i)[s.cursor + 1]?).onward.cursor = s.cursor + 1 := by
      rw [Turn.cursor_onward hspells.done, cursor_turn]
    have hmore := hpath.turn (Nat.le_succ _) hbegun.exact (awaitsAttr_of_begun hbegun) hu
    have hnaming := Naming.spelled htokens hspells.begun (by rw [hcursor]; exact hmore)
    rw [turn_drop hbegun.exact, onward_shift, List.append_assoc]
    rw [List.map_append] at hnaming
    exact hnaming
  | @stray i n es hequals hlt =>
    simp only [turn, readInAttrName, hc, Bool.false_eq_true, if_false, List.append_nil]
    exact .stray hequals (Nat.lt_succ_of_lt hlt)

/-- A byte that ends a name leaves what is written of it to be read again. -/
theorem stops (h : Naming d w s es) (hw : w[s.cursor]? = some c) (hc : Byte.endsName c = true)
    (hnames : Unambiguous w (es ++ (s.turn d c w[s.cursor + 1]?).events)) :
    (s.turn d c w[s.cursor + 1]?).onward.mode = .afterAttrName ∧
      Reread d BehindName AtValue (tokens w (es ++ (s.turn d c w[s.cursor + 1]?).events)) := by
  cases h with
  | @spelled i s es name htokens hbegun hpath =>
    have hu : (w.drop i)[s.cursor]? = some c := by rw [getElem?_drop_cursor, hw]
    obtain ⟨last, hname, hturn⟩ := hbegun.stop (d := d) hu hc
    have hspelled := spelled_of_portable hbegun hpath ⟨c, hu, hc⟩ hturn
    rw [← List.append_assoc] at hspelled
    have hlen := (List.getElem?_eq_some_iff.mp hu).1
    have hspans := span_stop_le (inOrder_named (measure_firmStretch (d := d)) hname)
    have hpiece := render_name (d := d) (n := s.cursor) hname
    have hreread := htokens.name hspelled (Nat.le_of_lt hlen) (free_of_name hname _) hpiece hspans
    rw [turn_drop hbegun.exact, hturn c _ hc]
    refine ⟨rfl, ?_⟩
    rw [← tokens_shift hspans same_drop, ← tokens_append] at hreread
    rwa [Turn.shift, List.append_assoc, ← List.map_append, ← List.append_assoc name]
  | @stray i n es hequals hlt =>
    have hbytes := bytesAt_cons hequals hlt
    refine (hnames ⟨i, n⟩ ?_ ?_).elim
    · have hmem : Event.attribName ⟨i, n⟩ ∈ es ++
          (turn d ⟨.inAttrName, n, some i, .idle, .empty⟩ c w[n + 1]?).events := by
        simp [turn, readInAttrName, hc, nameEnd, pending]
      exact List.mem_filterMap.mpr ⟨_, hmem, rfl⟩
    · rw [hbytes]
      rfl

end Naming

end Rendering

end TemplateLexer
