import TemplateLexer.Proofs.Rendering
import TemplateLexer.Proofs.Spelling

/-!
# Names as a scan finds them

A scan goes over a name once, from mode to mode, and finds the events of its split (`names_split`).
What is left to be split in each mode (`splitIn`) ties the two together: wherever the name ends, its
events are those reported so far and those of what is left (`Residue`). A byte that does not divide
the part under way leaves this as it is, a byte that does takes one event from it, and where the
name ends the part under way is all that is left.
-/

set_option autoImplicit false

namespace TemplateLexer

open Layout Rendering

variable {d : Dialect} {w name arg rest : List UInt8} {a b e n : Nat} {c : UInt8} {inside : Bool}
  {es last before after : List Event} {s : Scan} {x : Event} {mode mode' : Mode}
  {next : Option UInt8}

/-! ## Names in an input -/

/-- The bytes of a span lead from its start to its end. -/
theorem length_bytesAt (hab : a ≤ e) (he : e ≤ w.length) : a + (bytesAt w ⟨a, e⟩).length = e := by
  have hle : e - a ≤ w.length - a := Nat.sub_le_sub_right he a
  rw [bytesAt, Span.length, List.length_take, List.length_drop, Nat.min_eq_left hle]
  exact Nat.add_sub_cancel' hab

/-- A span of one byte more has that byte at its end. -/
theorem bytesAt_concat (han : a ≤ n) (hw : w[n]? = some c) :
    bytesAt w ⟨a, n + 1⟩ = bytesAt w ⟨a, n⟩ ++ [c] := by
  rw [← bytesAt_append_cons han hw (Nat.lt_succ_self n), bytesAt_self]

/-- What is left of an input begins with the bytes of a span and goes on behind it. -/
theorem drop_eq_bytesAt_append (han : a ≤ n) : w.drop a = bytesAt w ⟨a, n⟩ ++ w.drop n := by
  obtain ⟨k, rfl⟩ := Nat.exists_eq_add_of_le han
  rw [bytesAt, Span.length, Nat.add_sub_cancel_left, ← List.drop_drop, List.take_append_drop]

/-- From one offset to another an input has the bytes of a name. -/
structure NameBytes (w : List UInt8) (b n : Nat) : Prop where
  first : ∃ c, w[b]? = some c ∧ Byte.endsSection c = false
  rest : Only inName w (b + 1) n

/-- A name may end in front of a byte. -/
def NameStops (w : List UInt8) (n : Nat) : Prop :=
  ∃ c, w[n]? = some c ∧ Byte.endsName c = true

/-- The bytes of a name are a longest run where it may end. -/
theorem NameBytes.nameRun_eq (h : NameBytes w b n) (hstop : NameStops w n) :
    nameRun (w.drop b) = bytesAt w ⟨b, n⟩ := by
  obtain ⟨c, hw, hc⟩ := h.first
  obtain ⟨c', hw', hc'⟩ := hstop
  have hdrop : w.drop b = c :: (bytesAt w ⟨b + 1, n⟩ ++ c' :: w.drop (n + 1)) := by
    have hbehind : w.drop n = c' :: w.drop (n + 1) := by
      obtain ⟨hlt, hget⟩ := List.getElem?_eq_some_iff.mp hw'
      rw [List.drop_eq_getElem_cons hlt, hget]
    rw [drop_eq_bytesAt_append (Nat.le_of_succ_le h.rest.le), bytesAt_cons hw h.rest.le, hbehind]
    rfl
  have hrest : (bytesAt w ⟨b + 1, n⟩ ++ c' :: w.drop (n + 1)).takeWhile inName =
      bytesAt w ⟨b + 1, n⟩ := by
    have hstops : inName c' = false := by simp [inName, hc']
    rw [List.takeWhile_append_of_pos (forall_mem_bytesAt h.rest), List.takeWhile_cons, hstops]
    exact List.append_nil _
  rw [hdrop, nameRun, hc, hrest, bytesAt_cons hw h.rest.le]
  rfl

/-! ## What is left to be split -/

/-- The events of what is left of a name in a mode, from where the part under way begins. -/
def splitIn : Mode → Nat → List UInt8 → List Event
  | .inDirName => longEvents
  | .inDirArg | .inDirDynamicArg => argEvents
  | .inDirModifier => modifierEvents
  | _ => fun n name => [.attribName ⟨n, n + name.length⟩]

/-- The end of a name is not among the events that its bytes are split into. -/
theorem attribNameEnd_notMem_splitIn : .attribNameEnd e ∉ splitIn mode n name := by
  have hcontinues : ¬ (Event.attribNameEnd e).continuesName = true := nofun
  unfold splitIn
  split
  · obtain ⟨stop, mid, hlong, hmid⟩ := exists_longEvents n name
    rw [hlong]
    exact fun hmem => (List.mem_cons.mp hmem).elim nofun fun hin => hcontinues (hmid _ hin)
  · exact fun hmem => hcontinues (continuesName_argEvents _ hmem)
  · exact fun hmem => hcontinues (continuesName_argEvents _ hmem)
  · exact fun hmem => hcontinues (continuesName_eachModifier _ hmem)
  · simp

/-- Nothing in the part of a name under way divides it. -/
def Undivided (part : List UInt8) : Mode → Prop
  | .inDirName => ∀ c ∈ part, inDirective c = true
  | .inDirArg => cutAtDot false part = none ∧ endsBracketed false part = false
  | .inDirDynamicArg => cutAtDot false part = none ∧ endsBracketed false part = true
  | .inDirModifier => Byte.dot ∉ part
  | _ => True

/-- Wherever the name ends that began at an offset, its events are those reported and those of what
is left to be split. -/
structure Residue (w : List UInt8) (b : Nat) (s : Scan) (es : List Event) : Prop where
  undivided : Undivided (bytesAt w s.pending) s.mode
  split : ∀ e, s.cursor ≤ e → NameStops w e →
    nameEvents b (bytesAt w ⟨b, e⟩) =
      es ++ splitIn s.mode s.pending.start (bytesAt w ⟨s.pending.start, e⟩)

namespace Residue

variable {m m' : Matcher} {shape shape' : ArgShape}

/-- A byte that does not divide the part under way goes on with it. -/
theorem keep (h : Residue w b ⟨mode, n, some a, m, shape⟩ es)
    (hsame : splitIn mode' = splitIn mode) (hun : Undivided (bytesAt w ⟨a, n + 1⟩) mode') :
    Residue w b ⟨mode', n + 1, some a, m', shape'⟩ (es ++ []) := by
  refine ⟨hun, fun e he hstop => ?_⟩
  rw [List.append_nil, hsame]
  exact h.split e (Nat.le_of_succ_le he) hstop

/-- A byte that divides the part under way leaves what is behind it. -/
theorem cut (h : Residue w b ⟨mode, n, some a, m, shape⟩ es) (han : a ≤ n) (hw : w[n]? = some c)
    (hcut : ∀ rest, splitIn mode a (bytesAt w ⟨a, n⟩ ++ c :: rest) =
      x :: splitIn mode' (n + 1) rest) (hun : Undivided [] mode') :
    Residue w b ⟨mode', n + 1, some (n + 1), m', shape'⟩ (es ++ [x]) := by
  have hnone : bytesAt w ⟨n + 1, n + 1⟩ = [] := bytesAt_self
  refine ⟨?_, fun e he hstop => ?_⟩
  · change Undivided (bytesAt w ⟨n + 1, n + 1⟩) mode'
    rwa [hnone]
  · have hall : nameEvents b (bytesAt w ⟨b, e⟩) = es ++ splitIn mode a (bytesAt w ⟨a, e⟩) :=
      h.split e (Nat.le_of_succ_le he) hstop
    rw [hall, ← bytesAt_append_cons han hw he, hcut, List.append_cons]
    rfl

end Residue

/-- The name under way that began at an offset, with the events reported of it and what is left to
be split. -/
structure Spelt (w : List UInt8) (b : Nat) (s : Scan) (es : List Event) : Prop where
  begun : Begun w b s es
  bytes : NameBytes w b s.cursor
  residue : Residue w b s es

/-! ### The first byte of a name -/

/-- A name that begins with a sigil is a directive with an argument. -/
theorem nameEvents_sigil {shorthand : Shorthand} (h : Shorthand.ofSigil? c = some shorthand) :
    nameEvents n (c :: rest) = .dirName ⟨n, n + 1⟩ (some shorthand) :: argEvents (n + 1) rest := by
  simp only [nameEvents, h]

/-- A name that begins with `v-` is a directive in its long form. -/
theorem nameEvents_long :
    nameEvents n (Byte.letterV :: Byte.hyphen :: rest) =
      longEvents n (Byte.letterV :: Byte.hyphen :: rest) := by
  have hsigil : Shorthand.ofSigil? Byte.letterV = none := rfl
  have hprefix : [Byte.letterV, Byte.hyphen] <+: Byte.letterV :: Byte.hyphen :: rest := ⟨rest, rfl⟩
  simp only [nameEvents, hsigil, if_pos hprefix]

/-- Any other name is that of a plain attribute. -/
theorem nameEvents_plain (h : Shorthand.ofSigil? c = none)
    (hlong : ¬ (c = Byte.letterV ∧ rest.head? = some Byte.hyphen)) :
    nameEvents n (c :: rest) = [.attribName ⟨n, n + (c :: rest).length⟩] := by
  have hprefix : ¬ [Byte.letterV, Byte.hyphen] <+: c :: rest := by
    intro hprefix
    obtain ⟨hv, tail, htail⟩ := List.cons_prefix_cons.mp hprefix
    exact hlong ⟨hv.symm, by rw [← htail]; rfl⟩
  simp only [nameEvents, h, if_neg hprefix]

/-- Behind the first byte of a long form, all of it is left to be split. -/
theorem residue_long {m : Matcher} {shape : ArgShape} (hw : w[n]? = some Byte.letterV)
    (hhyphen : w[n + 1]? = some Byte.hyphen) :
    Residue w n ⟨.inDirName, n + 1, some n, m, shape⟩ [] := by
  refine ⟨?_, fun e he hstop => ?_⟩
  · change ∀ c ∈ bytesAt w ⟨n, n + 1⟩, inDirective c = true
    rw [bytesAt_cons hw (Nat.lt_succ_self n), bytesAt_self]
    exact List.forall_mem_singleton.mpr rfl
  · -- No name ends in front of the hyphen, so both bytes belong to it.
    have hbehind : n + 1 < e := by
      refine Nat.lt_of_le_of_ne he ?_
      rintro rfl
      obtain ⟨c, hc, hends⟩ := hstop
      rw [hhyphen] at hc
      cases hc
      cases hends
    have hbytes : bytesAt w ⟨n, e⟩ =
        Byte.letterV :: Byte.hyphen :: bytesAt w ⟨n + 1 + 1, e⟩ := by
      rw [bytesAt_cons hw he, bytesAt_cons hhyphen hbehind]
    change nameEvents n (bytesAt w ⟨n, e⟩) = longEvents n (bytesAt w ⟨n, e⟩)
    rw [hbytes, nameEvents_long]

/-- Behind a sigil, the argument is left to be split. -/
theorem residue_sigil {m : Matcher} {shape : ArgShape} {shorthand : Shorthand}
    (hw : w[n]? = some c) (hsigil : Shorthand.ofSigil? c = some shorthand) :
    Residue w n ⟨.inDirArg, n + 1, some (n + 1), m, shape⟩
      [.dirName ⟨n, n + 1⟩ (some shorthand)] := by
  refine ⟨?_, fun e he hstop => ?_⟩
  · change Undivided (bytesAt w ⟨n + 1, n + 1⟩) .inDirArg
    rw [bytesAt_self]
    exact ⟨rfl, rfl⟩
  · rw [bytesAt_cons hw he, nameEvents_sigil hsigil]
    rfl

/-- Behind the first byte of a plain name, nothing can be split off any more. -/
theorem residue_plain {m : Matcher} {shape : ArgShape} (hw : w[n]? = some c)
    (hsigil : Shorthand.ofSigil? c = none)
    (hlong : ¬ (c = Byte.letterV ∧ w[n + 1]? = some Byte.hyphen)) :
    Residue w n ⟨.inAttrName, n + 1, some n, m, shape⟩ [] := by
  refine ⟨trivial, fun e he hstop => ?_⟩
  have hsecond : ¬ (c = Byte.letterV ∧
      (bytesAt w ⟨n + 1, e⟩).head? = some Byte.hyphen) := by
    rintro ⟨hv, hhyphen⟩
    rw [List.head?_eq_getElem?] at hhyphen
    exact hlong ⟨hv, (getElem?_of_bytesAt hhyphen).2⟩
  change nameEvents n (bytesAt w ⟨n, e⟩) =
    [.attribName ⟨n, n + (bytesAt w ⟨n, e⟩).length⟩]
  rw [bytesAt_cons hw he, nameEvents_plain hsigil hsecond]

/-- The first byte of a name leaves the whole name to be split, or what is behind its sigil. -/
theorem Spelt.start {start : Option Nat} (hw : w[n]? = some c)
    (hc : Byte.endsSection c = false) :
    Spelt w n (Scan.attrStart ⟨mode, n, start, .idle, .empty⟩ c w[n + 1]?).onward
      (Scan.attrStart ⟨mode, n, start, .idle, .empty⟩ c w[n + 1]?).events := by
  have hspells : Spells w n [] (Scan.attrStart ⟨mode, n, start, .idle, .empty⟩ c w[n + 1]?) :=
    Begun.start hw hc
  have hcursor : (Scan.attrStart ⟨mode, n, start, .idle, .empty⟩ c w[n + 1]?).onward.cursor =
      n + 1 := by
    unfold Scan.attrStart
    split
    · rfl
    · split <;> rfl
  refine ⟨hspells.begun, ?_, ?_⟩
  · rw [hcursor]
    exact ⟨⟨c, hw, hc⟩, .refl⟩
  · unfold Scan.attrStart
    split
    · next hlong =>
      obtain ⟨rfl, hhyphen⟩ := hlong
      exact residue_long hw hhyphen
    · next hlong =>
      split
      · next shorthand hsigil => exact residue_sigil hw hsigil
      · next hsigil => exact residue_plain hw hsigil hlong

/-! ### The other bytes of a name -/

/-- The argument under way is reported as its bytes say. -/
theorem pendingArg_eq (han : a ≤ n) (hn : n ≤ w.length) :
    Scan.pendingArg ⟨mode, n, some a, .idle, shapeOf w a n⟩ = argEvent a (bytesAt w ⟨a, n⟩) := by
  have hbytes : shapeOf w a n = ArgShape.ofBytes (bytesAt w ⟨a, n⟩) := rfl
  have hiff : shapeOf w a n = .enclosed ↔ 2 ≤ (bytesAt w ⟨a, n⟩).length ∧
      (bytesAt w ⟨a, n⟩).head? = some Byte.bracketOpen ∧
        (bytesAt w ⟨a, n⟩).getLast? = some Byte.bracketClose := by
    rw [hbytes, ArgShape.ofBytes_eq_enclosed_iff, exists_eq_cons_concat_iff]
  have hstop : a + (bytesAt w ⟨a, n⟩).length = n := length_bytesAt han hn
  simp only [Scan.pendingArg, Scan.pending, Option.getD_some, argEvent, hiff, hstop]

/-- A byte of the long form leaves less to be split, or the argument or modifiers behind it. -/
theorem Residue.next_long {m : Matcher} {shape : ArgShape}
    (h : Residue w b ⟨.inDirName, n, some b, m, shape⟩ es) (hbn : b ≤ n) (hw : w[n]? = some c)
    (hc : Byte.endsName c = false) :
    Residue w b (Scan.readInDirName ⟨.inDirName, n, some b, m, shape⟩ c).onward
      (es ++ (Scan.readInDirName ⟨.inDirName, n, some b, m, shape⟩ c).events) := by
  have hname : ∀ c ∈ bytesAt w ⟨b, n⟩, inDirective c = true := h.undivided
  have hstop : b + (bytesAt w ⟨b, n⟩).length = n :=
    length_bytesAt hbn (Nat.le_of_lt (List.getElem?_eq_some_iff.mp hw).1)
  simp only [Scan.readInDirName, hc, Bool.false_eq_true, if_false]
  split
  · next hcolon =>
    subst hcolon
    refine h.cut hbn hw (fun rest => ?_) ⟨rfl, rfl⟩
    have hcut := longEvents_cut hname (c := Byte.colon) rfl b rest
    rw [hstop, if_pos rfl] at hcut
    exact hcut
  · next hcolon =>
    split
    · next hdot =>
      subst hdot
      refine h.cut hbn hw (fun rest => ?_) (List.not_mem_nil)
      have hcut := longEvents_cut hname (c := Byte.dot) rfl b rest
      rw [hstop, if_neg hcolon] at hcut
      exact hcut
    · next hdot =>
      refine h.keep rfl ?_
      change ∀ c ∈ bytesAt w ⟨b, n + 1⟩, inDirective c = true
      rw [bytesAt_concat hbn hw]
      refine List.forall_mem_append.mpr ⟨hname, List.forall_mem_singleton.mpr ?_⟩
      simp [inDirective, hcolon, hdot]

/-- A byte that does not divide an argument decides whether the argument ends inside brackets. -/
theorem undivided_concat (h : cutAtDot false arg = none)
    (hc : ¬ (c = Byte.dot ∧ endsBracketed false arg = false)) (hin : inside = bracketed
      (endsBracketed false arg) c) :
    cutAtDot false (arg ++ [c]) = none ∧ endsBracketed false (arg ++ [c]) = inside :=
  ⟨cutAtDot_concat h hc, (endsBracketed_concat arg).trans hin.symm⟩

/-- A byte of an argument stays part of it, or its dot leaves the modifiers to be split. -/
theorem Residue.next_arg (h : Residue w b ⟨.inDirArg, n, some a, .idle, shapeOf w a n⟩ es)
    (han : a ≤ n) (hw : w[n]? = some c) (hc : Byte.endsName c = false) :
    Residue w b (Scan.readInDirArg ⟨.inDirArg, n, some a, .idle, shapeOf w a n⟩ c).onward
      (es ++ (Scan.readInDirArg ⟨.inDirArg, n, some a, .idle, shapeOf w a n⟩ c).events) := by
  obtain ⟨hwhole, hout⟩ : cutAtDot false (bytesAt w ⟨a, n⟩) = none ∧
      endsBracketed false (bytesAt w ⟨a, n⟩) = false := h.undivided
  have hn : n ≤ w.length := Nat.le_of_lt (List.getElem?_eq_some_iff.mp hw).1
  simp only [Scan.readInDirArg, hc, Bool.false_eq_true, if_false]
  split
  · next hopen =>
    subst hopen
    refine h.keep rfl ?_
    rw [bytesAt_concat han hw]
    exact undivided_concat hwhole (fun hdot => absurd hdot.1 (by decide)) rfl
  · next hopen =>
    split
    · next hdot =>
      subst hdot
      refine h.cut han hw (fun rest => ?_) List.not_mem_nil
      have hcut := argEvents_dot hwhole hout a rest
      rw [length_bytesAt han hn] at hcut
      rw [pendingArg_eq han hn]
      exact hcut
    · next hdot =>
      refine h.keep rfl ?_
      rw [bytesAt_concat han hw]
      refine undivided_concat hwhole (fun hc => hdot hc.1) ?_
      simp [bracketed, hout, hopen]

/-- A byte inside of brackets stays part of the argument, also a dot. -/
theorem Residue.next_brackets
    (h : Residue w b ⟨.inDirDynamicArg, n, some a, .idle, shapeOf w a n⟩ es) (han : a ≤ n)
    (hw : w[n]? = some c) (hc : Byte.endsName c = false) :
    Residue w b
      (Scan.readInDirDynamicArg ⟨.inDirDynamicArg, n, some a, .idle, shapeOf w a n⟩ c).onward
      (es ++ (Scan.readInDirDynamicArg ⟨.inDirDynamicArg, n, some a, .idle, shapeOf w a n⟩
        c).events) := by
  obtain ⟨hwhole, hin⟩ : cutAtDot false (bytesAt w ⟨a, n⟩) = none ∧
      endsBracketed false (bytesAt w ⟨a, n⟩) = true := h.undivided
  have hinside : ¬ (c = Byte.dot ∧ endsBracketed false (bytesAt w ⟨a, n⟩) = false) := by
    rw [hin]
    exact fun hdot => nomatch hdot.2
  simp only [Scan.readInDirDynamicArg, hc, Bool.false_eq_true, if_false]
  split
  · next hclose =>
    subst hclose
    refine h.keep rfl ?_
    rw [bytesAt_concat han hw]
    exact undivided_concat hwhole hinside rfl
  · next hclose =>
    refine h.keep rfl ?_
    rw [bytesAt_concat han hw]
    refine undivided_concat hwhole hinside ?_
    simp [bracketed, hin, hclose]

/-- A byte of a modifier stays part of it, or its dot leaves the others to be split. -/
theorem Residue.next_modifier {m : Matcher} {shape : ArgShape}
    (h : Residue w b ⟨.inDirModifier, n, some a, m, shape⟩ es) (han : a ≤ n)
    (hw : w[n]? = some c) (hc : Byte.endsName c = false) :
    Residue w b (Scan.readInDirModifier ⟨.inDirModifier, n, some a, m, shape⟩ c).onward
      (es ++ (Scan.readInDirModifier ⟨.inDirModifier, n, some a, m, shape⟩ c).events) := by
  have hfree : Byte.dot ∉ bytesAt w ⟨a, n⟩ := h.undivided
  have hstop : a + (bytesAt w ⟨a, n⟩).length = n :=
    length_bytesAt han (Nat.le_of_lt (List.getElem?_eq_some_iff.mp hw).1)
  simp only [Scan.readInDirModifier, hc, Bool.false_eq_true, if_false]
  split
  · next hdot =>
    subst hdot
    refine h.cut han hw (fun rest => ?_) List.not_mem_nil
    have hcut := modifierEvents_dot hfree a rest
    rw [hstop] at hcut
    exact hcut
  · next hdot =>
    refine h.keep rfl ?_
    change Byte.dot ∉ bytesAt w ⟨a, n + 1⟩
    rw [bytesAt_concat han hw, List.mem_append, List.mem_singleton]
    exact fun hmem => hmem.elim hfree fun heq => hdot heq.symm

/-- A byte that does not end a name leaves less of it to be split. -/
theorem Residue.spells (h : Residue w b s es) (hbegun : Begun w b s es)
    (hw : w[s.cursor]? = some c) (hc : Byte.endsName c = false) :
    Residue w b (s.turn d c next).onward (es ++ (s.turn d c next).events) := by
  cases hbegun with
  | plain hname =>
    simp only [Scan.turn, Scan.readInAttrName, hc, Bool.false_eq_true, if_false]
    exact h.keep rfl trivial
  | long _ _ hrest => exact h.next_long (Nat.le_of_succ_le hrest.le) hw hc
  | arg _ harg => exact h.next_arg harg.le hw hc
  | brackets _ harg => exact h.next_brackets harg.le hw hc
  | modifier _ _ hmod => exact h.next_modifier hmod.le hw hc

/-- Every byte of a name keeps what is left of it to be split. -/
theorem Spelt.spells (h : Spelt w b s es) (hw : w[s.cursor]? = some c)
    (hc : Byte.endsName c = false) :
    Spelt w b (s.turn d c next).onward (es ++ (s.turn d c next).events) := by
  have hspells : Spells w b es (s.turn d c next) := h.begun.spells hw hc
  have hin : inName c = true := by simp [inName, hc]
  refine ⟨hspells.begun, ?_, h.residue.spells h.begun hw hc⟩
  rw [Turn.cursor_onward hspells.done, Scan.cursor_turn]
  exact ⟨h.bytes.first, h.bytes.rest.concat hw hin⟩

/-! ### The end of a name -/

/-- Where a name ends, what is left of it is its last part. -/
theorem Spelt.stop (h : Spelt w b s es) (hw : w[s.cursor]? = some c)
    (hc : Byte.endsName c = true) :
    s.turn d c next = ⟨⟨.afterAttrName, s.cursor, some s.cursor, .idle, .empty⟩,
      splitIn s.mode s.pending.start (bytesAt w s.pending) ++ [.attribNameEnd s.cursor],
      true⟩ := by
  have hlength : s.cursor ≤ w.length := Nat.le_of_lt (List.getElem?_eq_some_iff.mp hw).1
  have hundivided := h.residue.undivided
  -- Each part under way holds no byte that divides it, so its split is what the turn reports.
  cases h.begun with
  | @plain n hname =>
    have hstop : b + (bytesAt w ⟨b, n⟩).length = n :=
      length_bytesAt (Nat.le_of_succ_le hname.rest.le) hlength
    simp only [Scan.turn, Scan.readInAttrName, if_pos hc, splitIn, Scan.pending,
      Option.getD_some, hstop]
    rfl
  | @long n hv hh hrest =>
    have hstop : b + (bytesAt w ⟨b, n⟩).length = n :=
      length_bytesAt (Nat.le_of_succ_le hrest.le) hlength
    have hlast := longEvents_last (n := b) hundivided
    simp only [Scan.turn, Scan.readInDirName, if_pos hc, splitIn, Scan.pending,
      Option.getD_some] at hlast ⊢
    rw [hlast, hstop]
    rfl
  | @arg a n head hhead harg =>
    have hlast := argEvents_closed (n := a) hundivided.1 hundivided.2
    simp only [Scan.turn, Scan.readInDirArg, if_pos hc, splitIn, Scan.pending,
      Option.getD_some, pendingArg_eq harg.le hlength] at hlast ⊢
    rw [hlast]
    rfl
  | @brackets a n head hhead harg =>
    have hstop : a + (bytesAt w ⟨a, n⟩).length = n := length_bytesAt harg.le hlength
    have hbracket : c ≠ Byte.bracketClose := by
      rintro rfl
      cases hc
    have hlast := argEvents_open (n := a) hundivided.1 hundivided.2
    simp only [Scan.turn, Scan.readInDirDynamicArg, if_neg hbracket, if_pos hc, splitIn,
      Scan.pending, Option.getD_some] at hlast ⊢
    rw [hlast, hstop]
    rfl
  | @modifier j n es hdir hdot hmod =>
    have hstop : j + 1 + (bytesAt w ⟨j + 1, n⟩).length = n := length_bytesAt hmod.le hlength
    have hlast := modifierEvents_last (n := j + 1) hundivided
    simp only [Scan.turn, Scan.readInDirModifier, if_pos hc, splitIn, Scan.pending,
      Option.getD_some] at hlast ⊢
    rw [hlast, hstop]
    rfl

/-! ## Names in the events of a template -/

/-- A row of events ends with the split of a name that stops at an offset. -/
def EndsWithName (w : List UInt8) (es : List Event) (e : Nat) : Prop :=
  ∃ first b, es = first ++ nameEvents b (bytesAt w ⟨b, e⟩) ∧ NameBytes w b e ∧ NameStops w e

/-- In front of the end of every name in a row of events stands the split of the name. -/
def NamesTold (w : List UInt8) (es : List Event) : Prop :=
  ∀ before e after, es = before ++ .attribNameEnd e :: after → EndsWithName w before e

/-- Events that end no name can follow. -/
theorem NamesTold.append (h : NamesTold w es) (hlast : ∀ e, .attribNameEnd e ∉ last) :
    NamesTold w (es ++ last) := by
  intro before e after heq
  rcases List.append_eq_append_iff.mp heq with ⟨front, -, hin⟩ | ⟨behind, hes, hin⟩
  · exact (hlast e (by rw [hin]; simp)).elim
  · cases behind with
    | nil => exact (hlast e (by rw [← List.nil_append last, ← hin]; simp)).elim
    | cons x behind =>
      obtain ⟨rfl, -⟩ := List.cons.inj hin
      exact h before e behind hes

/-- The end of a name can follow its events. -/
theorem NamesTold.concat (h : NamesTold w es) (hname : EndsWithName w es n) :
    NamesTold w (es ++ [.attribNameEnd n]) := by
  intro before e after heq
  rcases List.append_eq_append_iff.mp heq with ⟨front, hbefore, hin⟩ | ⟨behind, hes, hin⟩
  · cases front with
    | nil =>
      cases hin
      rwa [hbefore, List.append_nil]
    | cons x front =>
      obtain ⟨-, hnil⟩ := List.cons.inj hin
      simp at hnil
  · cases behind with
    | nil =>
      cases hin
      rwa [hes, List.append_nil] at hname
    | cons x behind =>
      obtain ⟨rfl, -⟩ := List.cons.inj hin
      exact h before e behind hes

/-- The modes in the name of an attribute. -/
def Mode.isName : Mode → Bool
  | .inAttrName | .inDirName | .inDirArg | .inDirDynamicArg | .inDirModifier => true
  | _ => false

namespace Scan

/-- The start of an attribute ends no name. -/
theorem attribNameEnd_notMem_attrStart :
    .attribNameEnd e ∉ (s.attrStart c next).events := by
  unfold attrStart
  split
  · exact List.not_mem_nil
  · split <;> simp

/-- A text ends no name. -/
theorem attribNameEnd_notMem_pendingText : .attribNameEnd e ∉ s.pendingText n := by
  simp only [pendingText]
  split <;> simp

/-- An argument is not the end of a name. -/
theorem attribNameEnd_ne_pendingArg : .attribNameEnd e ≠ s.pendingArg := by
  intro h
  simp only [pendingArg] at h
  split at h <;> cases h

/-- The end of a name is reported only in a name, by a byte that ends it. -/
theorem attribNameEnd_notMem_turn (h : s.mode.isName = true → Byte.endsName c = false) :
    .attribNameEnd e ∉ (s.turn d c next).events := by
  unfold turn
  cases hmode : s.mode with
  | inAttrName | inDirName | inDirArg | inDirDynamicArg | inDirModifier =>
    have hc : Byte.endsName c = false := h (by rw [hmode]; rfl)
    simp only [readInAttrName, readInDirName, readInDirArg, readInDirDynamicArg, readInDirModifier,
      hc, Bool.false_eq_true, if_false]
    repeat' split
    all_goals simp [attribNameEnd_ne_pendingArg]
  | _ =>
    simp only [readText, readInterpolationOpen, readInterpolation, readInterpolationClose,
      readBeforeTagName, readInTagName, readInSelfClosingTag, readBeforeClosingTagName,
      readInClosingTagName, readAfterClosingTagName, readBeforeAttrName, readAfterAttrName,
      readBeforeAttrValue, readInQuotedValue, readInBareValue]
    repeat' split
    all_goals
      simp [attribNameEnd_notMem_pendingText, attribNameEnd_notMem_attrStart, absentValue]

/-- The ending of a template ends no name. -/
theorem attribNameEnd_notMem_ending : .attribNameEnd e ∉ s.ending := by
  unfold ending leftover
  repeat' split
  all_goals simp [attribNameEnd_notMem_pendingText]

/-- Between two attributes, a name is entered with the start of an attribute. -/
theorem readBeforeAttrName_eq_attrStart (h : s.mode.isName = false)
    (hnext : (s.readBeforeAttrName c next).scan.mode.isName = true) :
    Byte.endsSection c = false ∧ s.readBeforeAttrName c next = s.attrStart c next := by
  unfold readBeforeAttrName at hnext ⊢
  split at hnext
  · cases hnext
  · next hend =>
    split at hnext
    · cases hnext
    · next hslash =>
      split at hnext
      · rw [h] at hnext
        cases hnext
      · next hspace =>
        simp only [if_neg hend, if_neg hslash, if_neg hspace]
        exact ⟨by simp [Byte.endsSection, hend, hslash, hspace], trivial⟩

/-- Behind a name, the next one is entered with the start of an attribute, and the one in front of it
has no value. -/
theorem readAfterAttrName_eq_attrStart (h : s.mode.isName = false)
    (hnext : (s.readAfterAttrName c next).scan.mode.isName = true) :
    Byte.endsSection c = false ∧ s.readAfterAttrName c next =
      { s.attrStart c next with events := s.absentValue :: (s.attrStart c next).events } := by
  unfold readAfterAttrName at hnext ⊢
  split at hnext
  · cases hnext
  · next hequals =>
    split at hnext
    · cases hnext
    · next hend =>
      split at hnext
      · rw [h] at hnext
        cases hnext
      · next hspace =>
        simp only [if_neg hequals, if_neg hend, if_neg hspace]
        exact ⟨by simpa [Byte.endsSection, hspace] using hend, trivial⟩

/-- A name is entered only with its first byte. -/
theorem turn_eq_attrStart (h : s.mode.isName = false)
    (hnext : (s.turn d c next).onward.mode.isName = true) :
    Byte.endsSection c = false ∧ (s.mode = .beforeAttrName ∨ s.mode = .afterAttrName) ∧
      ∃ front, s.turn d c next =
        { s.attrStart c next with events := front ++ (s.attrStart c next).events } := by
  rw [Turn.mode_onward] at hnext
  unfold turn at hnext ⊢
  cases hmode : s.mode with
  | inAttrName | inDirName | inDirArg | inDirDynamicArg | inDirModifier =>
    rw [hmode] at h
    cases h
  | beforeAttrName =>
    simp only [hmode] at hnext
    obtain ⟨hc, hstart⟩ := readBeforeAttrName_eq_attrStart h hnext
    exact ⟨hc, Or.inl rfl, [], hstart⟩
  | afterAttrName =>
    simp only [hmode] at hnext
    obtain ⟨hc, hstart⟩ := readAfterAttrName_eq_attrStart h hnext
    exact ⟨hc, Or.inr rfl, [s.absentValue], hstart⟩
  | _ =>
    -- No other mode leads into a name.
    exfalso
    simp only [hmode, readText, readInterpolationOpen, readInterpolation, readInterpolationClose,
      readBeforeTagName, readInTagName, readInSelfClosingTag, readBeforeClosingTagName,
      readInClosingTagName, readAfterClosingTagName, readBeforeAttrValue, readInQuotedValue,
      readInBareValue] at hnext
    repeat' split at hnext
    all_goals simp [enter, since, closed, matching, hmode, Mode.isName] at hnext

end Scan

/-! ## Runs -/

/-- What a scan has found, with the name under way and all names in front of it. -/
structure Spelling (d : Dialect) (w : List UInt8) (s : Scan) (es : List Event) : Prop where
  underway : Underway d w s es
  told : NamesTold w es
  name : s.mode.isName = true → ∃ b first name, es = first ++ name ∧ Spelt w b s name

/-- Between two names a scan compares no marker and has read no argument. -/
theorem eq_of_underway (h : Underway d w s es)
    (hmode : s.mode = .beforeAttrName ∨ s.mode = .afterAttrName) :
    ∃ mode start, s = ⟨mode, s.cursor, start, .idle, .empty⟩ := by
  cases h with
  | beforeAttrName => exact ⟨_, _, rfl⟩
  | afterAttrName => exact ⟨_, _, rfl⟩
  | _ => exact (hmode.elim nofun nofun)

/-- Every turn keeps the names told, and what is left of the one under way. -/
theorem Spelling.kept (ho : d.opening ≠ []) (hcl : d.closing ≠ []) :
    Scan.Kept d w (Spelling d w) := by
  intro s es c h hw
  have hunderway := Underway.kept ho hcl s es c h.underway hw
  cases hmode : s.mode.isName with
  | false =>
    -- Outside of names no end of a name is reported, and a name is entered with its first byte.
    have hnone : ∀ e, .attribNameEnd e ∉ (s.turn d c w[s.cursor + 1]?).events := fun e =>
      Scan.attribNameEnd_notMem_turn (by rw [hmode]; exact nofun)
    refine ⟨hunderway, h.told.append hnone, fun hnext => ?_⟩
    obtain ⟨hc, hbetween, front, hturn⟩ := Scan.turn_eq_attrStart hmode hnext
    obtain ⟨mode, start, hs⟩ := eq_of_underway h.underway hbetween
    have hstart : Spelt w s.cursor (s.attrStart c w[s.cursor + 1]?).onward
        (s.attrStart c w[s.cursor + 1]?).events := by
      rw [hs]
      exact Spelt.start hw hc
    rw [hturn]
    exact ⟨s.cursor, es ++ front, _, (List.append_assoc ..).symm, hstart⟩
  | true =>
    obtain ⟨b, first, name, rfl, hspelt⟩ := h.name hmode
    cases hc : Byte.endsName c with
    | false =>
      have hnone : ∀ e, .attribNameEnd e ∉ (s.turn d c w[s.cursor + 1]?).events := fun e =>
        Scan.attribNameEnd_notMem_turn fun _ => hc
      exact ⟨hunderway, h.told.append hnone, fun _ =>
        ⟨b, first, _, List.append_assoc .., hspelt.spells hw hc⟩⟩
    | true =>
      have hturn : s.turn d c w[s.cursor + 1]? = ⟨_, _ ++ [_], true⟩ := hspelt.stop hw hc
      have hstops : NameStops w s.cursor := ⟨c, hw, hc⟩
      refine ⟨hunderway, ?_, ?_⟩
      · have hnone : ∀ e, .attribNameEnd e ∉
            splitIn s.mode s.pending.start (bytesAt w s.pending) :=
          fun _ => attribNameEnd_notMem_splitIn
        have hsplit : nameEvents b (bytesAt w ⟨b, s.cursor⟩) =
            name ++ splitIn s.mode s.pending.start (bytesAt w s.pending) :=
          hspelt.residue.split s.cursor (Nat.le_refl _) hstops
        rw [hturn, ← List.append_assoc]
        refine (h.told.append hnone).concat ⟨first, b, ?_, hspelt.bytes, hstops⟩
        rw [hsplit, List.append_assoc]
      · rw [hturn]
        exact nofun

/-- A scan that has read nothing has told no names. -/
theorem Spelling.fresh : Spelling d w {} [] := by
  have hnil : NamesTold w [] := fun before e after hnil => by simp at hnil
  exact ⟨.fresh, hnil, nofun⟩

/-- The names in all of a template, up to the one that it ends in. -/
theorem Options.spelling_run (o : Options) (rawText : Bool) (template : String) :
    Spelling (o.dialect rawText) (utf8Bytes template) ((o.dialect rawText).run template).scan
      ((o.dialect rawText).run template).events := by
  refine Dialect.run_of_kept (Spelling.kept ?_ ?_) Spelling.fresh
  · exact utf8Bytes_ne_nil o.delimiters.opening_ne_empty
  · exact utf8Bytes_ne_nil o.delimiters.closing_ne_empty

/-- In front of the end of every name stand the events of the name, from the one that opens the
attribute on; the name is the longest run of bytes from there, and its events are those of its
split. -/
theorem names_split (o : Options) (rawText : Bool) (template : String)
    (h : (o.dialect rawText).events template = before ++ .attribNameEnd e :: after) :
    ∃ first head mid b, before = first ++ head :: mid ∧
      head.opening? = some b ∧ (∀ x ∈ mid, x.opening? = none) ∧
      b + (nameRun ((utf8Bytes template).drop b)).length = e ∧
      bytesAt (utf8Bytes template) ⟨b, e⟩ = nameRun ((utf8Bytes template).drop b) ∧
      head :: mid = nameEvents b (bytesAt (utf8Bytes template) ⟨b, e⟩) := by
  have htold : NamesTold (utf8Bytes template) ((o.dialect rawText).events template) :=
    (o.spelling_run rawText template).told.append fun _ => Scan.attribNameEnd_notMem_ending
  obtain ⟨first, b, hbefore, hbytes, hstops⟩ := htold before e after h
  have hbe : b + 1 ≤ e := hbytes.rest.le
  have hrun : nameRun ((utf8Bytes template).drop b) = bytesAt (utf8Bytes template) ⟨b, e⟩ :=
    hbytes.nameRun_eq hstops
  have hlength : b + (bytesAt (utf8Bytes template) ⟨b, e⟩).length = e := by
    obtain ⟨c, hw, -⟩ := hstops
    exact length_bytesAt (Nat.le_of_succ_le hbe)
      (Nat.le_of_lt (List.getElem?_eq_some_iff.mp hw).1)
  have hne : bytesAt (utf8Bytes template) ⟨b, e⟩ ≠ [] := by
    rw [← List.length_pos_iff]
    omega
  obtain ⟨head, mid, hname, hhead, hmid⟩ := exists_opening (n := b) hne
  rw [hname] at hbefore
  exact ⟨first, head, mid, b, hbefore, hhead, hmid, by rw [hrun, hlength], hrun.symm, hname.symm⟩

/-- Two groups of brackets in one argument, with a dot inside, and three modifiers, one of them
empty. -/
theorem names_split_groups :
    (Options.dialect {} false).events "<a @[b.c][d]e.f..g=h>" =
        [.openTagName ⟨1, 2⟩, .dirName ⟨3, 4⟩ (some .on), .dirArg ⟨4, 13⟩, .dirModifier ⟨14, 15⟩,
          .dirModifier ⟨16, 16⟩, .dirModifier ⟨17, 18⟩] ++
        .attribNameEnd 18 :: [.attribData ⟨19, 20⟩, .attribEnd .bare 20, .openTagEnd 20,
          .endOfInput] ∧
      ∃ first head mid b,
        [.openTagName ⟨1, 2⟩, .dirName ⟨3, 4⟩ (some .on), .dirArg ⟨4, 13⟩, .dirModifier ⟨14, 15⟩,
          .dirModifier ⟨16, 16⟩, .dirModifier ⟨17, 18⟩] = first ++ head :: mid ∧
        head.opening? = some b ∧ (∀ x ∈ mid, x.opening? = none) ∧
        b + (nameRun ((utf8Bytes "<a @[b.c][d]e.f..g=h>").drop b)).length = 18 ∧
        bytesAt (utf8Bytes "<a @[b.c][d]e.f..g=h>") ⟨b, 18⟩ =
          nameRun ((utf8Bytes "<a @[b.c][d]e.f..g=h>").drop b) ∧
        head :: mid = nameEvents b (bytesAt (utf8Bytes "<a @[b.c][d]e.f..g=h>") ⟨b, 18⟩) := by
  have hevents : (Options.dialect {} false).events "<a @[b.c][d]e.f..g=h>" =
      [.openTagName ⟨1, 2⟩, .dirName ⟨3, 4⟩ (some .on), .dirArg ⟨4, 13⟩, .dirModifier ⟨14, 15⟩,
        .dirModifier ⟨16, 16⟩, .dirModifier ⟨17, 18⟩] ++
      .attribNameEnd 18 :: [.attribData ⟨19, 20⟩, .attribEnd .bare 20, .openTagEnd 20,
        .endOfInput] := by
    decide +kernel
  exact ⟨hevents, names_split {} false "<a @[b.c][d]e.f..g=h>" hevents⟩

end TemplateLexer
