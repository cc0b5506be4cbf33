import TemplateLexer.Proofs.Layout
import Mathlib.Data.List.TakeWhile

/-!
# The spelling of names

The name of an attribute can be read by splitting it: it reaches as far as it can (`nameRun`), it is
cut at the colon or the dot behind the long form of a directive, the argument at the first dot
outside brackets (`cutAtDot`), and the modifiers at their dots. `nameEvents` gives the events of a
name in this way, without a scan. Every division has one lemma for the byte that divides and one
for the part that nothing divides.
-/

set_option autoImplicit false

namespace TemplateLexer

open Layout

/-! ## Splitting a name -/

/-- The longest run of bytes that can be the name of an attribute. Its first byte may be the sign of
a value, the others may not. -/
def nameRun : List UInt8 → List UInt8
  | [] => []
  | c :: rest => if Byte.endsSection c then [] else c :: rest.takeWhile inName

/-- Whether a byte is inside brackets, given whether the one in front of it is. Brackets do not
nest. -/
def bracketed (inside : Bool) (c : UInt8) : Bool :=
  if c = Byte.bracketOpen then true else if c = Byte.bracketClose then false else inside

/-- The bytes in front of the first dot outside brackets, and those behind it. -/
def cutAtDot (inside : Bool) : List UInt8 → Option (List UInt8 × List UInt8)
  | [] => none
  | c :: rest =>
    if c = Byte.dot ∧ inside = false then some ([], rest)
    else (cutAtDot (bracketed inside c) rest).map fun p => (c :: p.1, p.2)

/-- Whether bytes end inside brackets. -/
def endsBracketed (inside : Bool) (bytes : List UInt8) : Bool :=
  bytes.foldl bracketed inside

/-- The events of modifiers in a row, the first of which begins at an offset. Behind each of them
there is one dot. -/
def eachModifier (n : Nat) : List (List UInt8) → List Event
  | [] => []
  | modifier :: rest =>
    .dirModifier ⟨n, n + modifier.length⟩ :: eachModifier (n + modifier.length + 1) rest

/-- The events of modifiers, one for each piece between two dots. -/
def modifierEvents (n : Nat) (bytes : List UInt8) : List Event :=
  eachModifier n (bytes.splitOn Byte.dot)

/-- An argument in brackets of its own is reported without them. -/
def argEvent (n : Nat) (arg : List UInt8) : Event :=
  if 2 ≤ arg.length ∧ arg.head? = some Byte.bracketOpen ∧
      arg.getLast? = some Byte.bracketClose then
    .dirDynamicArg ⟨n + 1, n + arg.length - 1⟩
  else .dirArg ⟨n, n + arg.length⟩

/-- The events of an argument with the modifiers behind it. -/
def argEvents (n : Nat) (bytes : List UInt8) : List Event :=
  match cutAtDot false bytes with
  | some (arg, rest) => argEvent n arg :: modifierEvents (n + arg.length + 1) rest
  | none =>
    if endsBracketed false bytes then
      [.error .missingDynamicArgumentEnd (n + bytes.length), .dirArg ⟨n, n + bytes.length⟩]
    else [argEvent n bytes]

/-- A byte of the long form of a directive that is neither a colon nor a dot. -/
def inDirective (c : UInt8) : Bool :=
  c != Byte.colon && c != Byte.dot

/-- The events of a directive in its long form with what is behind it. -/
def longEvents (n : Nat) (bytes : List UInt8) : List Event :=
  let name := bytes.takeWhile inDirective
  .dirName ⟨n, n + name.length⟩ none ::
    match bytes.dropWhile inDirective with
    | [] => []
    | c :: rest =>
      if c = Byte.colon then argEvents (n + name.length + 1) rest
      else modifierEvents (n + name.length + 1) rest

/-- The events of a name that begins at an offset. -/
def nameEvents (n : Nat) (name : List UInt8) : List Event :=
  match name with
  | [] => []
  | c :: rest =>
    match Shorthand.ofSigil? c with
    | some shorthand => .dirName ⟨n, n + 1⟩ (some shorthand) :: argEvents (n + 1) rest
    | none =>
      if [Byte.letterV, Byte.hyphen] <+: c :: rest then longEvents n (c :: rest)
      else [.attribName ⟨n, n + (c :: rest).length⟩]

/-- The offset where an event opens an attribute. -/
def Event.opening? : Event → Option Nat
  | .attribName s | .dirName s _ => some s.start
  | _ => none

variable {name arg rest modifier first second : List UInt8} {n : Nat} {c : UInt8} {inside : Bool}
  {x : Event}

/-! ## The parts of a split -/

/-- If the first row has no dot to cut at, the cut is that of the second one. -/
theorem cutAtDot_append (h : cutAtDot inside first = none) :
    cutAtDot inside (first ++ second) =
      (cutAtDot (endsBracketed inside first) second).map fun p => (first ++ p.1, p.2) := by
  induction first generalizing inside with
  | nil => simp [endsBracketed]
  | cons c first ih =>
    rw [cutAtDot] at h
    split at h
    · cases h
    · next hc =>
      rw [List.cons_append, cutAtDot, if_neg hc, ih (Option.map_eq_none_iff.mp h), Option.map_map]
      rfl

/-- Whether a row ends inside of brackets hangs on its last byte and on the bytes in front of it. -/
theorem endsBracketed_concat (bytes : List UInt8) :
    endsBracketed inside (bytes ++ [c]) = bracketed (endsBracketed inside bytes) c := by
  simp [endsBracketed]

/-- A byte adds no dot to cut at, unless it is one outside of brackets. -/
theorem cutAtDot_concat (h : cutAtDot inside arg = none)
    (hc : ¬ (c = Byte.dot ∧ endsBracketed inside arg = false)) :
    cutAtDot inside (arg ++ [c]) = none := by
  rw [cutAtDot_append h, cutAtDot, if_neg hc]
  rfl

/-- An argument in front of a dot is followed by modifiers. -/
theorem argEvents_dot (h : cutAtDot false arg = none) (hout : endsBracketed false arg = false)
    (n : Nat) (rest : List UInt8) :
    argEvents n (arg ++ Byte.dot :: rest) =
      argEvent n arg :: modifierEvents (n + arg.length + 1) rest := by
  have hcut : cutAtDot false (arg ++ Byte.dot :: rest) = some (arg, rest) := by
    rw [cutAtDot_append h, cutAtDot, if_pos ⟨rfl, hout⟩, Option.map_some, List.append_nil]
  rw [argEvents, hcut]

/-- An argument without a dot to cut at is the whole of it. -/
theorem argEvents_closed (h : cutAtDot false arg = none)
    (hout : endsBracketed false arg = false) : argEvents n arg = [argEvent n arg] := by
  rw [argEvents, h, hout]
  rfl

/-- An argument that ends inside of brackets lacks the closing one. -/
theorem argEvents_open (h : cutAtDot false arg = none) (hin : endsBracketed false arg = true) :
    argEvents n arg =
      [.error .missingDynamicArgumentEnd (n + arg.length), .dirArg ⟨n, n + arg.length⟩] := by
  rw [argEvents, h, hin]
  rfl

example : argEvents 4 (utf8Bytes "[b.c") =
    [.error .missingDynamicArgumentEnd 8, .dirArg ⟨4, 8⟩] := by
  decide +kernel

/-- A modifier in front of a dot is followed by others. -/
theorem modifierEvents_dot (h : Byte.dot ∉ modifier) (n : Nat) (rest : List UInt8) :
    modifierEvents n (modifier ++ Byte.dot :: rest) =
      .dirModifier ⟨n, n + modifier.length⟩ :: modifierEvents (n + modifier.length + 1) rest := by
  rw [modifierEvents, List.splitOn_append_cons_self_of_not_mem h, eachModifier]
  rfl

/-- A modifier without a dot is the last one. -/
theorem modifierEvents_last (h : Byte.dot ∉ modifier) :
    modifierEvents n modifier = [.dirModifier ⟨n, n + modifier.length⟩] := by
  have hone : modifier.splitOn Byte.dot = [modifier] :=
    List.splitOnP_eq_singleton fun c hc => by
      rw [beq_eq_false_iff_ne]
      rintro rfl
      exact h hc
  rw [modifierEvents, hone]
  rfl

/-- The long form ends at the first byte that is not part of it, a colon or a dot. -/
theorem longEvents_cut (h : ∀ c ∈ name, inDirective c = true) (hc : inDirective c = false)
    (n : Nat) (rest : List UInt8) :
    longEvents n (name ++ c :: rest) = .dirName ⟨n, n + name.length⟩ none ::
      if c = Byte.colon then argEvents (n + name.length + 1) rest
      else modifierEvents (n + name.length + 1) rest := by
  have htake : (name ++ c :: rest).takeWhile inDirective = name := by
    rw [List.takeWhile_append_of_pos h, List.takeWhile_cons, hc]
    exact List.append_nil name
  have hdrop : (name ++ c :: rest).dropWhile inDirective = c :: rest := by
    rw [List.dropWhile_append_of_pos h, List.dropWhile_cons, hc]
    rfl
  simp only [longEvents, htake, hdrop]

/-- A long form without such a byte is the whole name. -/
theorem longEvents_last (h : ∀ c ∈ name, inDirective c = true) :
    longEvents n name = [.dirName ⟨n, n + name.length⟩ none] := by
  have htake : name.takeWhile inDirective = name := List.takeWhile_eq_self_iff.mpr h
  have hdrop : name.dropWhile inDirective = [] := List.dropWhile_eq_nil_iff.mpr h
  simp only [longEvents, htake, hdrop]

/-! ## The events of a name -/

/-- The events behind the first one of a name. -/
def Event.continuesName : Event → Bool
  | .dirArg _ | .dirDynamicArg _ | .dirModifier _ | .error .missingDynamicArgumentEnd _ => true
  | _ => false

/-- An event that goes on with a name opens none. -/
theorem Event.opening?_of_continuesName (h : x.continuesName = true) : x.opening? = none := by
  cases x <;> first | rfl | cases h

/-- Modifiers go on with a name. -/
theorem continuesName_eachModifier {modifiers : List (List UInt8)} :
    ∀ x ∈ eachModifier n modifiers, x.continuesName = true := by
  induction modifiers generalizing n with
  | nil => exact nofun
  | cons modifier modifiers ih => exact List.forall_mem_cons.mpr ⟨rfl, ih⟩

/-- An argument goes on with a name. -/
theorem continuesName_argEvent : (argEvent n arg).continuesName = true := by
  unfold argEvent
  split <;> rfl

/-- An argument with its modifiers goes on with a name, and so does the error of a missing
bracket. -/
theorem continuesName_argEvents : ∀ x ∈ argEvents n rest, x.continuesName = true := by
  unfold argEvents
  split
  · exact List.forall_mem_cons.mpr ⟨continuesName_argEvent, continuesName_eachModifier⟩
  · split
    · exact List.forall_mem_cons.mpr ⟨rfl, List.forall_mem_singleton.mpr rfl⟩
    · exact List.forall_mem_singleton.mpr continuesName_argEvent

/-- The events of a long form begin with its name, and go on with it. -/
theorem exists_longEvents (n : Nat) (name : List UInt8) :
    ∃ stop mid, longEvents n name = .dirName ⟨n, stop⟩ none :: mid ∧
      ∀ x ∈ mid, x.continuesName = true := by
  refine ⟨_, _, rfl, ?_⟩
  split
  · exact nofun
  · split
    · exact continuesName_argEvents
    · exact continuesName_eachModifier

/-- The first event of a name opens an attribute where the name begins, and no other one does. -/
theorem exists_opening (h : name ≠ []) :
    ∃ head mid, nameEvents n name = head :: mid ∧ head.opening? = some n ∧
      ∀ x ∈ mid, x.opening? = none := by
  obtain ⟨c, rest, rfl⟩ := List.exists_cons_of_ne_nil h
  rw [nameEvents]
  split
  · exact ⟨_, _, rfl, rfl, fun x hx =>
      Event.opening?_of_continuesName (continuesName_argEvents x hx)⟩
  · split
    · obtain ⟨stop, mid, hlong, hmid⟩ := exists_longEvents n (c :: rest)
      exact ⟨_, mid, hlong, rfl, fun x hx => Event.opening?_of_continuesName (hmid x hx)⟩
    · exact ⟨_, _, rfl, rfl, nofun⟩

end TemplateLexer
