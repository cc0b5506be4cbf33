import TemplateLexer.Proofs.Path
import TemplateLexer.Proofs.Printing

/-!
# Reading printed attributes

Where an attribute is printed, a scan between two attributes goes on to the place behind it and
finds what was printed (`reaches_attr`). The end of an attribute without a value is reported only
when the next one begins, and the last part of a directive only when the part behind it begins; so a
scan is described together with the events that it still has to report.
-/

set_option autoImplicit false

namespace TemplateLexer.Printing

open Scan Layout Marker Printed

variable {d : Dialect} {w : List UInt8} {i n : Nat} {c : UInt8} {s : Scan} {owed : List Event}

/-- Things printed in a row are read one after the other, if each of them can be read in front of
the next one and the last one in front of what stands behind the row. -/
theorem reaches_row {α : Type} [Printed α] {R : Nat → Scan → List Event → Prop} {F : Nat → Prop}
    (hstep : ∀ (x : α) n s owed, R n s owed → OccursAt (bytes x) w n → F (n + (bytes x).length) →
      Reaches d w (R (n + (bytes x).length)) s (owed ++ events x n))
    (hfront : ∀ (x : α) n, OccursAt (bytes x) w n → F n) {xs : List α} (h : R n s owed)
    (hocc : OccursAt (bytes xs) w n) (hend : F (n + (bytes xs).length)) :
    Reaches d w (R (n + (bytes xs).length)) s (owed ++ events xs n) := by
  induction xs generalizing n s owed with
  | nil =>
    have hreach := (Leads.refl (d := d) (w := w) s).reaches h
    rwa [List.nil_append, ← List.append_nil owed] at hreach
  | cons x xs ih =>
    rw [bytes_cons, occursAt_append] at hocc
    rw [add_length_bytes_cons] at hend ⊢
    have hbehind : F (n + (bytes x).length) := by
      cases xs with
      | nil => exact hend
      | cons y ys =>
        rw [bytes_cons, occursAt_append] at hocc
        exact hfront y _ hocc.2.1
    rw [events_cons, ← List.append_assoc]
    apply (hstep x n s owed h hocc.1 hbehind).bind
    intro s' owed' h'
    exact ih h' hocc.2 hend

/-! ## Rows of bytes -/

/-- The bytes of the part that a scan is in, read without a change of its mode. -/
def stays (d : Dialect) : Mode → UInt8 → Bool
  | .text, c => c != Byte.tagOpen && d.opening.head? != some c
  | .interpolation, c => d.closing.head? != some c
  | .inTagName, c | .inClosingTagName, c => inTagName c
  | .inAttrName, c => inName c
  | .inDirName, c => inLongName c
  | .inDirModifier, c => inModifier c
  | .inQuotedValue mark, c => c != mark.byte
  | .inBareValue, c => inBareValue c
  | _, _ => false

/-- A byte of the part that a scan is in is passed by. -/
theorem turn_stays {next : Option UInt8} (h : stays d s.mode c = true) :
    s.turn d c next = ⟨s, [], false⟩ := by
  cases hmode : s.mode <;> rw [hmode] at h
  case text =>
    have hplain : c ≠ Byte.tagOpen ∧ d.opening.head? ≠ some c := by simpa [stays] using h
    simp [turn, hmode, readText, hplain]
  case interpolation =>
    have hother : d.closing.head? ≠ some c := by simpa [stays] using h
    simp [turn, hmode, readInterpolation, hother]
  case inTagName =>
    have hin : Byte.endsSection c = false := by simpa [stays, inTagName] using h
    simp [turn, hmode, readInTagName, hin]
  case inClosingTagName =>
    have hin : Byte.endsSection c = false := by simpa [stays, inTagName] using h
    simp [turn, hmode, readInClosingTagName, hin]
  case inAttrName =>
    have hin : Byte.endsName c = false := by simpa [stays, inName] using h
    simp [turn, hmode, readInAttrName, hin]
  case inDirName =>
    have hin : Byte.endsName c = false ∧ c ≠ Byte.colon ∧ c ≠ Byte.dot := by
      simpa [stays, inLongName, and_assoc] using h
    simp [turn, hmode, readInDirName, hin]
  case inDirModifier =>
    have hin : Byte.endsName c = false ∧ c ≠ Byte.dot := by simpa [stays, inModifier] using h
    simp [turn, hmode, readInDirModifier, hin]
  case inQuotedValue mark =>
    have hne : c ≠ mark.byte := by simpa [stays] using h
    simp [turn, hmode, readInQuotedValue, hne]
  case inBareValue =>
    have hin : Byte.isSpace c = false ∧ c ≠ Byte.tagEnd := by
      simpa [stays, inBareValue] using h
    simp [turn, hmode, readInBareValue, hin]
  all_goals cases h

/-- A scan stays what it is over a row of such bytes. -/
theorem leads_row {row : List UInt8} (hocc : OccursAt row w s.cursor)
    (hrow : ∀ c ∈ row, stays d s.mode c = true) :
    Leads d w s [] { s with cursor := s.cursor + row.length } := by
  induction row generalizing s with
  | nil => exact .refl _
  | cons c row ih =>
    obtain ⟨hw, hocc⟩ := occursAt_cons.mp hocc
    have hfirst := Leads.one hw (turn_stays (d := d) (hrow c List.mem_cons_self))
    have hrest := ih (s := { s with cursor := s.cursor + 1 }) hocc
      fun c hc => hrow c (List.mem_cons_of_mem _ hc)
    rw [List.length_cons, Nat.add_comm row.length, ← Nat.add_assoc]
    exact hfirst.trans hrest

/-! ## Directives -/

/-- A scan behind a part of a directive that it has not reported yet. -/
inductive InDirective (n : Nat) : Scan → List Event → Prop
  | name {i : Nat} : InDirective n ⟨.inDirName, n, some i, .idle, .empty⟩ [.dirName ⟨i, n⟩ none]
  | arg {a : Nat} {shape : ArgShape} : InDirective n ⟨.inDirArg, n, some a, .idle, shape⟩
      [pendingArg ⟨.inDirArg, n, some a, .idle, shape⟩]
  | modifier {j : Nat} : InDirective n ⟨.inDirModifier, n, some j, .idle, .empty⟩
      [.dirModifier ⟨j, n⟩]

/-- A byte that ends a name ends a directive. -/
theorem InDirective.stop (h : InDirective n s owed) (hw : w[n]? = some c)
    (hc : Byte.endsName c = true) :
    Leads d w s (owed ++ [.attribNameEnd n]) ⟨.afterAttrName, n, some n, .idle, .empty⟩ := by
  cases h with
  | @name i =>
    have hturn : turn d ⟨.inDirName, n, some i, .idle, .empty⟩ c w[n + 1]? =
        nameEnd ⟨.inDirName, n, some i, .idle, .empty⟩ [.dirName ⟨i, n⟩ none] := by
      simp only [turn, readInDirName, if_pos hc]
      rfl
    exact .one hw hturn
  | @arg a shape =>
    have hturn : turn d ⟨.inDirArg, n, some a, .idle, shape⟩ c w[n + 1]? =
        nameEnd ⟨.inDirArg, n, some a, .idle, shape⟩
          [pendingArg ⟨.inDirArg, n, some a, .idle, shape⟩] := by
      simp only [turn, readInDirArg, if_pos hc]
    exact .one hw hturn
  | @modifier j =>
    have hturn : turn d ⟨.inDirModifier, n, some j, .idle, .empty⟩ c w[n + 1]? =
        nameEnd ⟨.inDirModifier, n, some j, .idle, .empty⟩ [.dirModifier ⟨j, n⟩] := by
      simp only [turn, readInDirModifier, if_pos hc]
      rfl
    exact .one hw hturn

/-- A dot begins a modifier. -/
theorem InDirective.dot (h : InDirective n s owed) (hw : w[n]? = some Byte.dot) :
    Leads d w s owed ⟨.inDirModifier, n + 1, some (n + 1), .idle, .empty⟩ := by
  cases h with
  | @name i =>
    exact Leads.one (s := ⟨.inDirName, n, some i, .idle, .empty⟩)
      (t := ⟨⟨.inDirModifier, n, some (n + 1), .idle, .empty⟩, [.dirName ⟨i, n⟩ none], false⟩)
      hw rfl
  | @arg a shape =>
    exact Leads.one (s := ⟨.inDirArg, n, some a, .idle, shape⟩)
      (t := ⟨⟨.inDirModifier, n, some (n + 1), .idle, .empty⟩,
        [pendingArg ⟨.inDirArg, n, some a, .idle, shape⟩], false⟩) hw rfl
  | @modifier j =>
    exact Leads.one (s := ⟨.inDirModifier, n, some j, .idle, .empty⟩)
      (t := ⟨⟨.inDirModifier, n, some (n + 1), .idle, .empty⟩, [.dirModifier ⟨j, n⟩], false⟩)
      hw rfl

/-- A printed modifier is found behind the parts of a directive in front of it. -/
theorem reaches_modifier {m : Modifier} (h : InDirective n s owed)
    (hocc : OccursAt (bytes m) w n) :
    Reaches d w (InDirective (n + (bytes m).length)) s (owed ++ events m n) := by
  obtain ⟨hdot, hrow⟩ := occursAt_cons.mp hocc
  have hpath := (h.dot (d := d) hdot).trans (leads_row hrow m.row.of_mem)
  have hlen : n + (bytes m).length = n + 1 + m.row.bytes.length := by
    simp only [bytes, List.length_cons]
    omega
  rw [hlen, ← List.append_nil owed]
  exact hpath.reaches .modifier

/-- Printed modifiers are found one after the other. -/
theorem reaches_modifiers {ms : List Modifier} (h : InDirective n s owed)
    (hocc : OccursAt (bytes ms) w n) :
    Reaches d w (InDirective (n + (bytes ms).length)) s (owed ++ events ms n) := by
  apply reaches_row (F := fun _ => True) _ (fun _ _ _ => trivial) h hocc trivial
  intro m n s owed h hocc _
  exact reaches_modifier h hocc

/-! ### Arguments -/

/-- The row of an argument without brackets does not look like one with brackets. -/
theorem ofBytes_static (row : Row inStatic) : ArgShape.ofBytes row.bytes ≠ .enclosed := by
  intro henc
  obtain ⟨inner, hinner⟩ := (ArgShape.ofBytes_eq_enclosed_iff _).mp henc
  have hbracket := row.of_mem Byte.bracketOpen (by simp [hinner])
  cases hbracket

/-- A row of bytes in an argument is passed by, and changes the shape byte by byte. -/
theorem leads_argRow (shape : ArgShape) {mode : Mode} {row : List UInt8} {p : UInt8 → Bool}
    {a : Nat} (hrow : ∀ c ∈ row, p c = true) (hocc : OccursAt row w n)
    (hstay : ∀ k shape c, p c = true →
      turn d ⟨mode, k, some a, .idle, shape⟩ c w[k + 1]? =
        ⟨⟨mode, k, some a, .idle, shape.push c⟩, [], false⟩) :
    Leads d w ⟨mode, n, some a, .idle, shape⟩ []
      ⟨mode, n + row.length, some a, .idle, row.foldl ArgShape.push shape⟩ := by
  induction row generalizing n shape with
  | nil => exact .refl _
  | cons c row ih =>
    obtain ⟨hw, hocc⟩ := occursAt_cons.mp hocc
    have hfirst := Leads.one hw (hstay n shape c (hrow c List.mem_cons_self))
    have hrest := ih (shape.push c) (fun c hc => hrow c (List.mem_cons_of_mem _ hc)) hocc
    rw [List.length_cons, Nat.add_comm row.length, ← Nat.add_assoc]
    exact hfirst.trans hrest

/-- Outside of brackets, a byte of an argument changes its shape only. -/
theorem turn_static {a k : Nat} {shape : ArgShape} {next : Option UInt8}
    (hc : inStatic c = true) :
    turn d ⟨.inDirArg, k, some a, .idle, shape⟩ c next =
      ⟨⟨.inDirArg, k, some a, .idle, shape.push c⟩, [], false⟩ := by
  have hplain : Byte.endsName c = false ∧ c ≠ Byte.dot ∧ c ≠ Byte.bracketOpen := by
    simpa [inStatic, inName] using hc
  simp [turn, readInDirArg, hplain, shaped]

/-- Inside of brackets, a byte of an argument changes its shape only. -/
theorem turn_brackets {a k : Nat} {shape : ArgShape} {next : Option UInt8}
    (hc : inBrackets c = true) :
    turn d ⟨.inDirDynamicArg, k, some a, .idle, shape⟩ c next =
      ⟨⟨.inDirDynamicArg, k, some a, .idle, shape.push c⟩, [], false⟩ := by
  have hplain : Byte.endsName c = false ∧ c ≠ Byte.bracketClose := by
    simpa [inBrackets, inName] using hc
  simp [turn, readInDirDynamicArg, hplain, shaped]

/-- A printed argument is found, and its event is still to be reported. -/
theorem reaches_arg {arg : Argument} (hocc : OccursAt (bytes arg) w n) :
    Reaches d w (InDirective (n + (bytes arg).length)) ⟨.inDirArg, n, some n, .idle, .empty⟩
      (events arg n) := by
  cases arg with
  | static row =>
    have hpath := leads_argRow (d := d) (a := n) .empty row.of_mem hocc fun _ _ _ hc =>
      turn_static hc
    have hreach := hpath.reaches InDirective.arg
    have hne : row.bytes.foldl ArgShape.push .empty ≠ .enclosed := ofBytes_static row
    simp only [pendingArg, pending, if_neg hne] at hreach
    exact hreach
  | dynamic row =>
    obtain ⟨hopen, hrest⟩ := occursAt_cons.mp hocc
    obtain ⟨hrow, hclose⟩ := occursAt_append.mp hrest
    have hclose := occursAt_singleton.mp hclose
    have hfirst := Leads.one (d := d) (s := ⟨.inDirArg, n, some n, .idle, .empty⟩)
      (t := ⟨⟨.inDirDynamicArg, n, some n, .idle, .opened⟩, [], false⟩) hopen rfl
    have hinner := leads_argRow (d := d) (a := n) .opened row.of_mem hrow
      fun _ _ _ hc => turn_brackets hc
    have hlast := Leads.one (d := d)
      (s := ⟨.inDirDynamicArg, n + 1 + row.bytes.length, some n, .idle,
        row.bytes.foldl ArgShape.push .opened⟩)
      (t := ⟨⟨.inDirArg, n + 1 + row.bytes.length, some n, .idle,
        (row.bytes.foldl ArgShape.push .opened).push Byte.bracketClose⟩, [], false⟩) hclose rfl
    have hshape : (row.bytes.foldl ArgShape.push .opened).push Byte.bracketClose = .enclosed := by
      have henc := (ArgShape.ofBytes_eq_enclosed_iff
        (Byte.bracketOpen :: (row.bytes ++ [Byte.bracketClose]))).mpr ⟨row.bytes, rfl⟩
      simpa [ArgShape.ofBytes, ArgShape.push] using henc
    have hlen : n + (bytes (Argument.dynamic row)).length = n + 1 + row.bytes.length + 1 := by
      simp only [bytes, List.length_cons, List.length_append, List.length_nil]
      omega
    have hreach := ((hfirst.trans hinner).trans hlast).reaches InDirective.arg
    rw [hshape, ← hlen] at hreach
    have hstop : n + (bytes (Argument.dynamic row)).length - 1 = n + 1 + row.bytes.length := by
      omega
    simp only [pendingArg, pending, Option.getD_some, if_true, hstop] at hreach
    exact hreach

/-- The argument of the long form is read with the colon in front of it. -/
theorem reaches_longArg {arg : Option Argument}
    (hocc : OccursAt (bytes arg) w n) :
    Reaches d w (InDirective (n + (bytes arg).length)) ⟨.inDirName, n, some i, .idle, .empty⟩
      (.dirName ⟨i, n⟩ none :: events arg n) := by
  cases arg with
  | none => exact (Leads.refl _).reaches InDirective.name
  | some arg =>
    obtain ⟨hcolon, hrow⟩ := occursAt_cons.mp hocc
    have hfirst := Leads.one (d := d) (s := ⟨.inDirName, n, some i, .idle, .empty⟩)
      (t := ⟨⟨.inDirArg, n, some (n + 1), .idle, .empty⟩, [.dirName ⟨i, n⟩ none], false⟩)
      hcolon rfl
    have hlen : n + (bytes (some arg)).length = n + 1 + (bytes arg).length := by
      simp only [bytes, List.length_cons]
      omega
    rw [hlen]
    exact hfirst.trans_reaches (reaches_arg hrow)

/-! ## Between two attributes -/

/-- A scan behind the name of a tag or behind an attribute. If this has no value, its end is still
to be reported. -/
inductive AtAttrs (n : Nat) : Scan → List Event → Prop
  | before : AtAttrs n ⟨.beforeAttrName, n, none, .idle, .empty⟩ []
  | after {m : Nat} : AtAttrs n ⟨.afterAttrName, n, some m, .idle, .empty⟩ [.attribEnd .absent m]

/-- A space between two attributes is passed by. -/
theorem reaches_space (h : AtAttrs n s owed) (hw : w[n]? = some space) :
    Reaches d w (AtAttrs (n + 1)) s owed := by
  cases h with
  | before =>
    have hone := Leads.one (d := d) (s := ⟨.beforeAttrName, n, none, .idle, .empty⟩)
      (t := ⟨⟨.beforeAttrName, n, none, .idle, .empty⟩, [], false⟩) hw rfl
    exact hone.reaches .before
  | @after m =>
    have hone := Leads.one (d := d) (s := ⟨.afterAttrName, n, some m, .idle, .empty⟩)
      (t := ⟨⟨.afterAttrName, n, some m, .idle, .empty⟩, [], false⟩) hw rfl
    exact hone.reaches .after

/-- The first byte of a name is read as such, whatever is still to be reported. -/
theorem leads_attrStart (h : AtAttrs n s owed) (hw : w[n]? = some c) (hc : inName c = true) :
    Leads d w s
      (owed ++ (attrStart ⟨.beforeAttrName, n, none, .idle, .empty⟩ c w[n + 1]?).events)
      (attrStart ⟨.beforeAttrName, n, none, .idle, .empty⟩ c w[n + 1]?).onward := by
  have hend : c ≠ Byte.equals ∧ c ≠ Byte.slash ∧ c ≠ Byte.tagEnd ∧ Byte.isSpace c = false := by
    simpa [inName, Byte.endsName, Byte.endsSection, and_assoc] using hc
  cases h with
  | before =>
    have hturn : turn d ⟨.beforeAttrName, n, none, .idle, .empty⟩ c w[n + 1]? =
        attrStart ⟨.beforeAttrName, n, none, .idle, .empty⟩ c w[n + 1]? := by
      simp [turn, readBeforeAttrName, hend]
    exact .one hw hturn
  | @after m =>
    have hsame : attrStart ⟨.afterAttrName, n, some m, .idle, .empty⟩ c w[n + 1]? =
        attrStart ⟨.beforeAttrName, n, none, .idle, .empty⟩ c w[n + 1]? := rfl
    have hturn : turn d ⟨.afterAttrName, n, some m, .idle, .empty⟩ c w[n + 1]? =
        { attrStart ⟨.beforeAttrName, n, none, .idle, .empty⟩ c w[n + 1]? with
          events := .attribEnd .absent m ::
            (attrStart ⟨.beforeAttrName, n, none, .idle, .empty⟩ c w[n + 1]?).events } := by
      simp [turn, readAfterAttrName, hend, hsame, absentValue]
    exact .one hw hturn

/-- A byte that ends a tag is read when nothing is to be reported any more. -/
theorem leads_before (h : AtAttrs n s owed) (hw : w[n]? = some c)
    (hc : c = Byte.slash ∨ c = Byte.tagEnd) :
    Leads d w s owed ⟨.beforeAttrName, n, none, .idle, .empty⟩ := by
  cases h with
  | before => exact .refl _
  | @after m =>
    have hequals : c ≠ Byte.equals := by rcases hc with rfl | rfl <;> decide
    have hturn : turn d ⟨.afterAttrName, n, some m, .idle, .empty⟩ c w[n + 1]? =
        ⟨⟨.beforeAttrName, n, none, .idle, .empty⟩, [.attribEnd .absent m], true⟩ := by
      simp only [turn, readAfterAttrName, if_neg hequals, if_pos hc]
      rfl
    exact .one hw hturn

/-- The end of a tag leads back to text, and reports what was still to be reported. -/
theorem leads_tagEnd (h : AtAttrs n s owed) (hw : w[n]? = some Byte.tagEnd) :
    Leads d w s (owed ++ [.openTagEnd n]) ⟨.text, n + 1, some (n + 1), .idle, .empty⟩ := by
  have hone := Leads.one (d := d) (s := ⟨.beforeAttrName, n, none, .idle, .empty⟩)
    (t := ⟨⟨.text, n, some (n + 1), .idle, .empty⟩, [.openTagEnd n], false⟩) hw rfl
  exact (leads_before h hw (Or.inr rfl)).trans hone

/-- A slash leads to where the end of the tag is expected. -/
theorem leads_slash (h : AtAttrs n s owed) (hw : w[n]? = some Byte.slash) :
    Leads d w s owed ⟨.inSelfClosingTag, n + 1, none, .idle, .empty⟩ := by
  have hone := Leads.one (d := d) (s := ⟨.beforeAttrName, n, none, .idle, .empty⟩)
    (t := ⟨⟨.inSelfClosingTag, n, none, .idle, .empty⟩, [], false⟩) hw rfl
  have hboth := (leads_before (d := d) h hw (Or.inl rfl)).trans hone
  rwa [List.append_nil] at hboth

/-! ## Names -/

/-- The printed name of a plain attribute does not begin like a directive in its long form, nor does
it with the byte that ends it. -/
theorem not_long_of_plain {word : PlainWord} (hocc : OccursAt word.bytes w n)
    (hw : w[n + word.bytes.length]? = some c) (hc : Byte.endsName c = true) :
    ¬ (word.letter = Byte.letterV ∧ w[n + 1]? = some Byte.hyphen) := by
  obtain ⟨_, hrest⟩ := occursAt_cons.mp hocc
  rintro ⟨hv, hhyphen⟩
  cases hbytes : word.rest.bytes with
  | nil =>
    have hlen : n + word.bytes.length = n + 1 := by simp [PlainWord.bytes, hbytes]
    rw [hlen, hhyphen] at hw
    cases hw
    cases hc
  | cons b row =>
    rw [hbytes] at hrest
    have hfirst := (occursAt_cons.mp hrest).1
    rw [hhyphen] at hfirst
    apply word.isShort
    simpa [hbytes, hv] using hfirst.symm

/-- The printed name of a plain attribute is found up to the byte that ends it. -/
theorem leads_plain {word : PlainWord} (h : AtAttrs n s owed) (hocc : OccursAt word.bytes w n)
    (hw : w[n + word.bytes.length]? = some c) (hc : Byte.endsName c = true) :
    Leads d w s (owed ++ ([.attribName ⟨n, n + word.bytes.length⟩] ++
        [.attribNameEnd (n + word.bytes.length)]))
      ⟨.afterAttrName, n + word.bytes.length, some (n + word.bytes.length), .idle, .empty⟩ := by
  obtain ⟨hletter, hrest⟩ := occursAt_cons.mp hocc
  obtain ⟨hname, hsigil⟩ := word.isPlain
  have hstart := leads_attrStart (d := d) h hletter hname
  rw [attrStart, if_neg (not_long_of_plain hocc hw hc), hsigil] at hstart
  have hrow : Leads d w ⟨.inAttrName, n + 1, some n, .idle, .empty⟩ []
      ⟨.inAttrName, n + 1 + word.rest.bytes.length, some n, .idle, .empty⟩ :=
    leads_row hrest word.rest.of_mem
  have hlen : n + 1 + word.rest.bytes.length = n + word.bytes.length := by
    simp only [PlainWord.bytes, List.length_cons]
    omega
  rw [hlen] at hrow
  have hturn : turn d ⟨.inAttrName, n + word.bytes.length, some n, .idle, .empty⟩ c
      w[n + word.bytes.length + 1]? =
        nameEnd ⟨.inAttrName, n + word.bytes.length, some n, .idle, .empty⟩
          [.attribName ⟨n, n + word.bytes.length⟩] := by
    simp only [turn, readInAttrName, if_pos hc]
    rfl
  have hlast := Leads.one hw hturn
  have hpath := (hstart.trans hrow).trans hlast
  rw [List.append_nil, List.append_nil] at hpath
  exact hpath

/-- A printed directive in its long form is found. -/
theorem reaches_long {row : Row inLongName} {arg : Option Argument} {ms : List Modifier}
    (h : AtAttrs n s owed) (hocc : OccursAt (bytes (AttrName.long row arg ms)) w n) :
    Reaches d w (InDirective (n + (bytes (AttrName.long row arg ms)).length)) s
      (owed ++ events (AttrName.long row arg ms) n) := by
  obtain ⟨hletter, hocc⟩ := occursAt_cons.mp hocc
  have hhyphen := (occursAt_cons.mp hocc).1
  obtain ⟨hrow, hocc⟩ := occursAt_append.mp (show OccursAt ((Byte.hyphen :: row.bytes) ++
    (bytes arg ++ bytes ms)) w (n + 1) from hocc)
  obtain ⟨harg, hms⟩ := occursAt_append.mp hocc
  have hstart := leads_attrStart (d := d) h hletter rfl
  rw [attrStart, if_pos ⟨rfl, hhyphen⟩] at hstart
  have honly : ∀ c ∈ Byte.hyphen :: row.bytes, inLongName c = true :=
    List.forall_mem_cons.mpr ⟨rfl, row.of_mem⟩
  have hname : Leads d w ⟨.inDirName, n + 1, some n, .idle, .empty⟩ []
      ⟨.inDirName, n + 1 + (Byte.hyphen :: row.bytes).length, some n, .idle, .empty⟩ :=
    leads_row hrow honly
  have hlen : n + 1 + (Byte.hyphen :: row.bytes).length = n + 2 + row.bytes.length := by
    simp only [List.length_cons]
    omega
  rw [hlen] at hname harg hms
  have hreach := ((hstart.trans hname).trans_reaches (reaches_longArg harg)).bind
    fun s' owed' h' => reaches_modifiers h' hms
  have hall : n + (bytes (AttrName.long row arg ms)).length =
      n + 2 + row.bytes.length + (bytes arg).length + (bytes ms).length := by
    simp only [bytes, List.length_cons, List.length_append]
    omega
  rw [hall]
  simpa [events] using hreach

/-- A printed directive with a sigil is found. -/
theorem reaches_sigil {sign : Shorthand} {arg : Argument} {ms : List Modifier}
    (h : AtAttrs n s owed) (hocc : OccursAt (bytes (AttrName.sigil sign arg ms)) w n) :
    Reaches d w (InDirective (n + (bytes (AttrName.sigil sign arg ms)).length)) s
      (owed ++ events (AttrName.sigil sign arg ms) n) := by
  obtain ⟨hletter, hocc⟩ := occursAt_cons.mp hocc
  obtain ⟨harg, hms⟩ := occursAt_append.mp hocc
  have hname : inName sign.sigil = true := by cases sign <;> rfl
  have hlong : ¬ (sign.sigil = Byte.letterV ∧ w[n + 1]? = some Byte.hyphen) := by
    rintro ⟨hv, -⟩
    cases sign <;> cases hv
  have hstart : Leads d w s (owed ++ [.dirName ⟨n, n + 1⟩ (some sign)])
      ⟨.inDirArg, n + 1, some (n + 1), .idle, .empty⟩ := by
    have hsame := leads_attrStart (d := d) h hletter hname
    rw [attrStart, if_neg hlong, Shorthand.ofSigil?_eq_some_iff.mpr rfl] at hsame
    exact hsame
  have hreach := (hstart.trans_reaches (reaches_arg harg)).bind
    fun s' owed' h' => reaches_modifiers h' hms
  have hall : n + (bytes (AttrName.sigil sign arg ms)).length =
      n + 1 + (bytes arg).length + (bytes ms).length := by
    simp only [bytes, List.length_cons, List.length_append]
    omega
  rw [hall]
  simpa [events] using hreach

/-- A name is read up to the byte that ends it. -/
theorem leads_name {name : AttrName} (h : AtAttrs n s owed) (hocc : OccursAt (bytes name) w n)
    (hw : w[n + (bytes name).length]? = some c) (hc : Byte.endsName c = true) :
    Leads d w s (owed ++ (events name n ++ [.attribNameEnd (n + (bytes name).length)]))
      ⟨.afterAttrName, n + (bytes name).length, some (n + (bytes name).length), .idle, .empty⟩ := by
  cases name with
  | plain word => exact leads_plain h hocc hw hc
  | long row arg ms =>
    rw [← List.append_assoc]
    exact (reaches_long h hocc).leads fun s' owed' h' => h'.stop hw hc
  | sigil sign arg ms =>
    rw [← List.append_assoc]
    exact (reaches_sigil h hocc).leads fun s' owed' h' => h'.stop hw hc

/-! ## Values -/

/-- The bytes that stand behind an attribute. -/
def Stops (w : List UInt8) (n : Nat) : Prop :=
  w[n]? = some space ∨ w[n]? = some Byte.tagEnd

/-- What stands behind an attribute ends a value without quotation marks. -/
theorem Stops.exists_byte (h : Stops w n) :
    ∃ c, w[n]? = some c ∧ (Byte.isSpace c = true ∨ c = Byte.tagEnd) := by
  rcases h with hspace | htag
  · exact ⟨_, hspace, Or.inl rfl⟩
  · exact ⟨_, htag, Or.inr rfl⟩

/-- Such a byte ends the name of a tag and the name of an attribute. -/
theorem ends_of_stop (h : Byte.isSpace c = true ∨ c = Byte.tagEnd) :
    Byte.endsSection c = true ∧ Byte.endsName c = true := by
  rcases h with hspace | rfl
  · simp [Byte.endsName, Byte.endsSection, hspace]
  · exact ⟨rfl, rfl⟩

/-- A printed value between quotation marks is found, and nothing is left to report. -/
theorem reaches_quoted {mark : QuoteMark} {row : Row (· != mark.byte)}
    (hocc : OccursAt (bytes (AttrValue.quoted mark row)) w n) :
    Reaches d w (AtAttrs (n + (bytes (AttrValue.quoted mark row)).length))
      ⟨.afterAttrName, n, some n, .idle, .empty⟩ (events (AttrValue.quoted mark row) n) := by
  obtain ⟨hequals, hocc⟩ := occursAt_cons.mp hocc
  obtain ⟨hopen, hocc⟩ := occursAt_cons.mp hocc
  obtain ⟨hrow, hclose⟩ := occursAt_append.mp hocc
  have hclose := occursAt_singleton.mp hclose
  have hfirst := Leads.one (d := d) (s := ⟨.afterAttrName, n, some n, .idle, .empty⟩)
    (t := ⟨⟨.beforeAttrValue, n, some n, .idle, .empty⟩, [], false⟩) hequals rfl
  have hmark := Leads.one (d := d) (s := ⟨.beforeAttrValue, n + 1, some n, .idle, .empty⟩)
    (t := ⟨⟨.inQuotedValue mark, n + 1, some (n + 2), .idle, .empty⟩, [], false⟩) hopen
    (by cases mark <;> rfl)
  have hinner : Leads d w ⟨.inQuotedValue mark, n + 2, some (n + 2), .idle, .empty⟩ []
      ⟨.inQuotedValue mark, n + 2 + row.bytes.length, some (n + 2), .idle, .empty⟩ :=
    leads_row hrow row.of_mem
  have hturn : turn d ⟨.inQuotedValue mark, n + 2 + row.bytes.length, some (n + 2), .idle, .empty⟩
      mark.byte w[n + 2 + row.bytes.length + 1]? =
        ⟨⟨.beforeAttrName, n + 2 + row.bytes.length, none, .idle, .empty⟩,
          events (AttrValue.quoted mark row) n, false⟩ := by
    simp only [turn, readInQuotedValue, if_true]
    rfl
  have hlast := Leads.one hclose hturn
  have hlen : n + (bytes (AttrValue.quoted mark row)).length =
      n + 2 + row.bytes.length + 1 := by
    simp only [bytes, List.length_cons, List.length_append, List.length_nil]
    omega
  have hreach := (((hfirst.trans hmark).trans hinner).trans hlast).reaches AtAttrs.before
  rw [hlen]
  simpa using hreach

/-- A printed value without quotation marks is found, if something stops it. -/
theorem reaches_bare {word : BareWord} (hocc : OccursAt (bytes (AttrValue.bare word)) w n)
    (hstop : Stops w (n + (bytes (AttrValue.bare word)).length)) :
    Reaches d w (AtAttrs (n + (bytes (AttrValue.bare word)).length))
      ⟨.afterAttrName, n, some n, .idle, .empty⟩ (events (AttrValue.bare word) n) := by
  obtain ⟨hequals, hocc⟩ := occursAt_cons.mp hocc
  have hletter := (occursAt_cons.mp hocc).1
  obtain ⟨hbare, hdouble, hsingle⟩ := word.isBare
  have hfirst := Leads.one (d := d) (s := ⟨.afterAttrName, n, some n, .idle, .empty⟩)
    (t := ⟨⟨.beforeAttrValue, n, some n, .idle, .empty⟩, [], false⟩) hequals rfl
  have hturn : turn d ⟨.beforeAttrValue, n + 1, some n, .idle, .empty⟩ word.letter
      w[n + 1 + 1]? = ⟨⟨.inBareValue, n + 1, some (n + 1), .idle, .empty⟩, [], true⟩ := by
    have hspace : Byte.isSpace word.letter = false ∧ word.letter ≠ Byte.tagEnd := by
      simpa [inBareValue] using hbare
    simp [turn, readBeforeAttrValue, hdouble, hsingle, hspace, enter, since]
  have hmark := Leads.one hletter hturn
  have honly : ∀ c ∈ word.bytes, inBareValue c = true :=
    List.forall_mem_cons.mpr ⟨hbare, word.rest.of_mem⟩
  have hinner : Leads d w ⟨.inBareValue, n + 1, some (n + 1), .idle, .empty⟩ []
      ⟨.inBareValue, n + 1 + word.bytes.length, some (n + 1), .idle, .empty⟩ :=
    leads_row hocc honly
  have hlen : n + (bytes (AttrValue.bare word)).length = n + 1 + word.bytes.length := by
    simp only [bytes, List.length_cons]
    omega
  rw [hlen] at hstop ⊢
  obtain ⟨c, hw, hc⟩ := hstop.exists_byte
  have hend : turn d ⟨.inBareValue, n + 1 + word.bytes.length, some (n + 1), .idle, .empty⟩ c
      w[n + 1 + word.bytes.length + 1]? =
        ⟨⟨.beforeAttrName, n + 1 + word.bytes.length, none, .idle, .empty⟩,
          events (AttrValue.bare word) n, true⟩ := by
    simp only [turn, readInBareValue, if_pos hc]
    rfl
  have hpath := ((hfirst.trans hmark).trans hinner).trans (Leads.one hw hend)
  exact hpath.reaches AtAttrs.before

/-- Any printed value is found. -/
theorem reaches_value {value : AttrValue} (hocc : OccursAt (bytes value) w n)
    (hstop : Stops w (n + (bytes value).length)) :
    Reaches d w (AtAttrs (n + (bytes value).length))
      ⟨.afterAttrName, n, some n, .idle, .empty⟩ (events value n) := by
  cases value with
  | absent => exact (Leads.refl _).reaches AtAttrs.after
  | quoted mark row => exact reaches_quoted hocc
  | bare word => exact reaches_bare hocc hstop

/-- An attribute is read with the space in front of it. -/
theorem reaches_attr {a : Attribute} (h : AtAttrs n s owed) (hocc : OccursAt (bytes a) w n)
    (hstop : Stops w (n + (bytes a).length)) :
    Reaches d w (AtAttrs (n + (bytes a).length)) s (owed ++ events a n) := by
  obtain ⟨hspace, hocc⟩ := occursAt_cons.mp hocc
  obtain ⟨hname, hvalue⟩ := occursAt_append.mp hocc
  have hlen : n + (bytes a).length = n + 1 + (bytes a.name).length + (bytes a.value).length := by
    simp only [bytes, List.length_cons, List.length_append]
    omega
  rw [hlen] at hstop ⊢
  -- The byte behind the name announces the value, or stands behind the attribute.
  obtain ⟨c, hw, hc⟩ : ∃ c, w[n + 1 + (bytes a.name).length]? = some c ∧
      Byte.endsName c = true := by
    cases hval : a.value with
    | absent =>
      rw [hval] at hstop
      obtain ⟨c, hnext, hc⟩ := hstop.exists_byte
      exact ⟨c, hnext, (ends_of_stop hc).2⟩
    | quoted mark row =>
      rw [hval] at hvalue
      exact ⟨_, (occursAt_cons.mp hvalue).1, rfl⟩
    | bare word =>
      rw [hval] at hvalue
      exact ⟨_, (occursAt_cons.mp hvalue).1, rfl⟩
  have hnamed := (reaches_space (d := d) h hspace).leads fun s' owed' h' =>
    leads_name h' hname hw hc
  have hreach := hnamed.trans_reaches (reaches_value hvalue hstop)
  simpa [events] using hreach

/-- Attributes are read one after the other up to the end of their tag. -/
theorem reaches_attrs {attrs : List Attribute} (h : AtAttrs n s owed)
    (hocc : OccursAt (bytes attrs) w n) (hstop : Stops w (n + (bytes attrs).length)) :
    Reaches d w (AtAttrs (n + (bytes attrs).length)) s (owed ++ events attrs n) := by
  apply reaches_row _ _ h hocc hstop
  · intro a n s owed h hocc hstop
    exact reaches_attr h hocc hstop
  · intro a n hocc
    exact Or.inl (occursAt_cons.mp hocc).1

end TemplateLexer.Printing
