import Mathlib
import TemplateLexer.Proofs.Layout.Progress

/-!
# The grammar of the events

The events of a template, whatever it is, form a word of one language: complete items, then perhaps
what is left of an item that the template does not finish, then the end. Which of the three forms an
unfinished rest has, if there is one, is decided by the mode in which the scan ends
(`events_mem_document`).
-/

set_option autoImplicit false

namespace TemplateLexer.Grammar

open Layout
open scoped Computability

/-! ## The language -/

/-- The rows of a single event of one kind. -/
def each {α : Type} (f : α → Event) : Language Event :=
  {es | ∃ a, es = [f a]}

/-- The argument of a directive, in brackets or not. -/
def argument : Language Event :=
  each Event.dirArg + each Event.dirDynamicArg

/-- The name of a directive in its long form. -/
def longName : Language Event :=
  each fun span => Event.dirName span none

/-- The name of a directive that a sigil stands for. -/
def sigilName : Language Event :=
  each fun a : Span × Shorthand => Event.dirName a.1 (some a.2)

/-- Any number of modifiers. -/
def modifiers : Language Event :=
  (each Event.dirModifier)∗

/-- A directive: only one in its long form can do without an argument. -/
def directive : Language Event :=
  (longName * (1 + argument) + sigilName * argument) * modifiers

/-- A directive whose argument lacks a closing bracket has no modifiers. -/
def unclosedDirective : Language Event :=
  (longName + sigilName) * each (Event.error .missingDynamicArgumentEnd) * each Event.dirArg

/-- The name of an attribute. An argument that lacks its closing bracket leaves an error in it. -/
def name : Language Event :=
  each Event.attribName + directive + unclosedDirective

/-- A value, with the way in which it was written. -/
def value : Language Event :=
  each Event.attribData *
    (each (Event.attribEnd .single) + each (Event.attribEnd .double) +
      each (Event.attribEnd .bare))

/-- An attribute, with or without a value. -/
def attr : Language Event :=
  name * each Event.attribNameEnd * (each (Event.attribEnd .absent) + value)

/-- An opening tag that has not ended yet. -/
def openedTag : Language Event :=
  each Event.openTagName * attr∗

/-- An opening tag, up to its end. -/
def openTag : Language Event :=
  openedTag * (each Event.openTagEnd + each Event.selfClosingTag)

/-- A complete item of a template. -/
def item : Language Event :=
  each Event.text + each Event.interpolation + each Event.closeTag + openTag

/-- The words of which something is missing at the end. -/
def properPrefix (L : Language Event) : Language Event :=
  {es | ∃ rest, rest ≠ [] ∧ es ++ rest ∈ L}

/-- What is reported of an interpolation that is never closed. -/
def unfinishedInterpolation : Language Event :=
  each (Event.error .missingInterpolationEnd) * each Event.text

/-- What is reported of a tag that the template ends in, outside of values. -/
def unfinishedTag : Language Event :=
  (properPrefix openTag + each Event.closeTag) * each (Event.error .eofInTag)

/-- The beginnings of an opening tag that stop behind the end of a name. -/
def namedPrefix : Language Event :=
  {es | es ∈ properPrefix openTag ∧ ∃ first n, es = first ++ [Event.attribNameEnd n]}

/-- An opening tag that stops in a value, of which a part may be there. -/
def unfinishedValue : Language Event :=
  namedPrefix * (1 + each Event.attribData)

/-- What a template can leave unfinished. -/
inductive Outcome where
  | nothing
  | interpolation
  | tag
  | value
  deriving DecidableEq, Repr

/-- What a scan leaves unfinished in a mode. -/
def Outcome.ofMode : Mode → Outcome
  | .text | .interpolationOpen | .beforeTagName | .beforeClosingTagName | .reserved _ => nothing
  | .interpolation | .interpolationClose => interpolation
  | .inTagName | .inSelfClosingTag | .inClosingTagName | .afterClosingTagName | .beforeAttrName
  | .inAttrName | .inDirName | .inDirArg | .inDirDynamicArg | .inDirModifier | .afterAttrName
  | .beforeAttrValue => tag
  | .inQuotedValue _ | .inBareValue => value

/-- How what is left unfinished is reported. -/
def Outcome.tail : Outcome → Language Event
  | nothing => 1
  | interpolation => unfinishedInterpolation
  | tag => unfinishedTag
  | value => unfinishedValue

/-- The rows of events of a template that leaves something unfinished, or nothing. -/
def document (k : Outcome) : Language Event :=
  item∗ * k.tail * {[Event.endOfInput]}

/-! ## The words that a layout describes -/

variable {d : Dialect} {w : List UInt8} {i j n : Nat} {es : List Event}

/-- A single event is a word of its kind. -/
theorem mem_each {α : Type} (f : α → Event) (a : α) : [f a] ∈ each f :=
  ⟨a, rfl⟩

/-- One event in front of a word is a word of the concatenation. -/
theorem cons_mem_mul {L M : Language Event} {e : Event} (h : [e] ∈ L) (hes : es ∈ M) :
    e :: es ∈ L * M :=
  Language.append_mem_mul h hes

/-- A row of words goes on with one more word. -/
theorem append_mem_kstar {L : Language Event} {first last : List Event} (h : first ∈ L∗)
    (hlast : last ∈ L) : first ++ last ∈ L∗ :=
  Set.mem_of_mem_of_subset (Language.append_mem_mul h hlast) (kstar_mul_le_kstar (a := L))

/-- The event of an argument is a word of arguments. -/
theorem argument_of_arg {a k : Nat} {e : Event} (h : Arg w a k e) : [e] ∈ argument := by
  cases h with
  | static _ _ => exact Or.inl (mem_each _ _)
  | dynamic _ _ => exact Or.inr (mem_each _ _)

/-- What stands in front of an argument is a name, long or with a sigil. -/
theorem head_of_argHead {a : Nat} {e : Event} (h : ArgHead w i a e) :
    [e] ∈ longName + sigilName := by
  cases h with
  | long _ _ => exact Or.inl (mem_each (fun span => Event.dirName span none) _)
  | sigil s _ =>
    exact Or.inr (mem_each (fun a : Span × Shorthand => Event.dirName a.1 (some a.2)) (_, s))

/-- A name and an argument make a directive without modifiers. -/
theorem directive_of_head {head arg : Event} (hhead : [head] ∈ longName + sigilName)
    (harg : [arg] ∈ argument) : [head, arg] ∈ directive := by
  have hboth : [head, arg] ∈ longName * (1 + argument) + sigilName * argument := by
    rcases hhead with hlong | hsigil
    · exact Or.inl (cons_mem_mul hlong (Or.inr harg))
    · exact Or.inr (cons_mem_mul hsigil harg)
  exact Language.append_mem_mul hboth (Language.nil_mem_kstar _)

/-- The events of a directive are a word of directives: modifiers come last. -/
theorem directive_of_layout (h : Layout.Directive w i j es) : es ∈ directive := by
  induction h with
  | @long j _ =>
    have hlong : [Event.dirName ⟨i, j⟩ none] ∈ longName := ⟨⟨i, j⟩, rfl⟩
    have hhead : [Event.dirName ⟨i, j⟩ none] ∈ longName * (1 + argument) + sigilName * argument :=
      Or.inl (cons_mem_mul hlong (Or.inl Language.nil_mem_one))
    exact Language.append_mem_mul hhead (Language.nil_mem_kstar _)
  | arg hhead harg => exact directive_of_head (head_of_argHead hhead) (argument_of_arg harg)
  | modifier _ _ _ ih =>
    obtain ⟨first, hfirst, mods, hmods, rfl⟩ := Language.mem_mul.mp ih
    rw [List.append_assoc]
    exact Language.append_mem_mul hfirst (append_mem_kstar hmods (mem_each _ _))

/-- The events of a name are a word of names. -/
theorem name_of_layout (h : Layout.Name w i j es) : es ∈ name := by
  cases h with
  | plain _ => exact Or.inl (Or.inl (mem_each _ _))
  | directive hdir => exact Or.inl (Or.inr (directive_of_layout hdir))
  | unclosed hhead _ =>
    exact Or.inr (Language.append_mem_mul
      (Language.append_mem_mul (head_of_argHead hhead) (mem_each _ _)) (mem_each _ _))

/-- The events of an attribute are a word of attributes. -/
theorem attr_of_layout (h : Layout.Attr w i j es) : es ∈ attr := by
  have hnamed : ∀ {n : Nat} {first : List Event}, Layout.Name w i n first →
      first ++ [Event.attribNameEnd n] ∈ name * each Event.attribNameEnd := by
    intro n first hname
    exact Language.append_mem_mul (name_of_layout hname) (mem_each _ _)
  cases h with
  | absent hname =>
    rw [List.append_cons]
    exact Language.append_mem_mul (hnamed hname) (Or.inl (mem_each _ _))
  | quoted mark hname _ _ _ =>
    rw [List.append_cons]
    refine Language.append_mem_mul (hnamed hname) (Or.inr ?_)
    refine cons_mem_mul (mem_each _ _) (Or.inl ?_)
    cases mark with
    | double => exact Or.inr (mem_each _ _)
    | single => exact Or.inl (mem_each _ _)
  | bare hname _ =>
    rw [List.append_cons]
    refine Language.append_mem_mul (hnamed hname) (Or.inr ?_)
    exact cons_mem_mul (mem_each _ _) (Or.inr (mem_each _ _))

/-- White space and slashes leave no events, so the attributes follow one another. -/
theorem attrs_of_layout {b : Nat} (h : Layout.Attrs w b n es) : es ∈ attr∗ := by
  induction h with
  | nil => exact Language.nil_mem_kstar _
  | gap _ _ _ ih => exact ih
  | attr _ ha ih => exact append_mem_kstar ih (attr_of_layout ha)

/-- The name of a tag and its attributes are an opening tag without its end. -/
theorem openedTag_of_layout {a b : Nat} (h : Layout.Attrs w b n es) :
    .openTagName ⟨a, b⟩ :: es ∈ openedTag :=
  cons_mem_mul (mem_each _ _) (attrs_of_layout h)

/-- What is described by a layout is a row of complete items. -/
theorem items_of_laid (h : Laid d w i es) : es ∈ item∗ := by
  induction h with
  | nil => exact Language.nil_mem_kstar _
  | text _ _ _ _ ih => exact append_mem_kstar ih (Or.inl (Or.inl (Or.inl (mem_each _ _))))
  | interpolation _ _ _ _ _ ih =>
    exact append_mem_kstar ih (Or.inl (Or.inl (Or.inr (mem_each _ _))))
  | closeTag _ _ _ _ _ ih => exact append_mem_kstar ih (Or.inl (Or.inr (mem_each _ _)))
  | openTag _ _ _ hattrs _ hstop ih =>
    refine append_mem_kstar ih (Or.inr ?_)
    refine Language.append_mem_mul (openedTag_of_layout hattrs) ?_
    cases hstop with
    | openTag => exact Or.inl (mem_each _ _)
    | selfClosing => exact Or.inr (mem_each _ _)

/-! ## What is left unfinished -/

/-- A name at whose end the attribute ends as well is an attribute without a value. -/
theorem bareAttr_mem {n : Nat} {first : List Event} (h : first ∈ name) :
    (first ++ [.attribNameEnd n]) ++ [.attribEnd .absent n] ∈ attr :=
  Language.append_mem_mul (Language.append_mem_mul h (mem_each _ _)) (Or.inl (mem_each _ _))

/-- An opening tag can be cut inside an attribute. -/
theorem properPrefix_of_attr {first part rest : List Event} (h : first ∈ openedTag)
    (hpart : part ++ rest ∈ attr) : first ++ part ∈ properPrefix openTag := by
  obtain ⟨head, hhead, attrs, hattrs, rfl⟩ := Language.mem_mul.mp h
  have hall := append_mem_kstar hattrs hpart
  have htag : (head ++ (attrs ++ (part ++ rest))) ++ [Event.openTagEnd 0] ∈ openTag :=
    Language.append_mem_mul (Language.append_mem_mul hhead hall) (Or.inl (mem_each _ _))
  refine ⟨rest ++ [.openTagEnd 0], by simp, ?_⟩
  simpa only [List.append_assoc] using htag

/-- An opening tag can be cut behind an attribute. -/
theorem properPrefix_of_openedTag {first : List Event} (h : first ∈ openedTag) :
    first ∈ properPrefix openTag :=
  ⟨[.openTagEnd 0], by simp, Language.append_mem_mul h (Or.inl (mem_each _ _))⟩

/-- Nothing at all is the beginning of an opening tag. -/
theorem nil_mem_properPrefix : [] ∈ properPrefix openTag := by
  have hopened : [Event.openTagName ⟨0, 0⟩] ∈ openedTag :=
    cons_mem_mul (mem_each _ _) (Language.nil_mem_kstar _)
  have htag : [Event.openTagName ⟨0, 0⟩, Event.openTagEnd 0] ∈ openTag :=
    Language.append_mem_mul hopened (Or.inl (mem_each _ _))
  exact ⟨_, List.cons_ne_nil _ _, htag⟩

/-- In a tag, the events are complete items and behind them an opening tag without its end. -/
theorem Tagged.split (h : Tagged d w n es) :
    ∃ items first, es = items ++ first ∧ items ∈ item∗ ∧ first ∈ openedTag := by
  obtain ⟨hl, _, _, hattrs⟩ := h
  exact ⟨_, _, rfl, items_of_laid hl, openedTag_of_layout hattrs⟩

/-- The beginning of a tag in front of the error of its end is an unfinished tag. -/
theorem unfinishedTag_of_prefix {items part : List Event} (hitems : items ∈ item∗)
    (hpart : part ∈ properPrefix openTag) :
    (items ++ part) ++ [.error .eofInTag n] ∈ item∗ * unfinishedTag := by
  rw [List.append_assoc]
  exact Language.append_mem_mul hitems (Language.append_mem_mul (Or.inl hpart) (mem_each _ _))

/-- A template can end between two attributes. -/
theorem unfinishedTag_of_tagged {m : Nat} (h : Tagged d w n es) :
    es ++ [.error .eofInTag m] ∈ item∗ * unfinishedTag := by
  obtain ⟨items, first, rfl, hitems, hfirst⟩ := Tagged.split h
  exact unfinishedTag_of_prefix hitems (properPrefix_of_openedTag hfirst)

/-- A template can end within the name of an attribute. -/
theorem unfinishedTag_of_part {m : Nat} {part rest : List Event} (h : Tagged d w n es)
    (hpart : part ++ rest ∈ attr) :
    (es ++ part) ++ [.error .eofInTag m] ∈ item∗ * unfinishedTag := by
  obtain ⟨items, first, rfl, hitems, hfirst⟩ := Tagged.split h
  rw [List.append_assoc items]
  exact unfinishedTag_of_prefix hitems (properPrefix_of_attr hfirst hpart)

/-- A template can end within the argument of a directive. -/
theorem unfinishedTag_of_head {m a : Nat} {head : Event} (h : Tagged d w i es)
    (hhead : ArgHead w i a head) :
    (es ++ [head]) ++ [.error .eofInTag m] ∈ item∗ * unfinishedTag := by
  have hdir : [head, Event.dirArg ⟨0, 0⟩] ∈ directive :=
    directive_of_head (head_of_argHead hhead) (Or.inl (mem_each _ _))
  have hname : [head, Event.dirArg ⟨0, 0⟩] ∈ name := Or.inl (Or.inr hdir)
  exact unfinishedTag_of_part h (bareAttr_mem (n := 0) hname)

/-- A template can end within a value, with no error to say so. -/
theorem unfinishedValue_of_named {m : Nat} {first data : List Event} (h : Tagged d w i es)
    (hname : Layout.Name w i m first) (hdata : data ∈ 1 + each Event.attribData) :
    (es ++ (first ++ [.attribNameEnd m])) ++ data ∈ item∗ * unfinishedValue := by
  obtain ⟨items, opened, rfl, hitems, hopened⟩ := Tagged.split h
  have hpart := properPrefix_of_attr hopened (bareAttr_mem (n := m) (name_of_layout hname))
  have hnamed : opened ++ (first ++ [.attribNameEnd m]) ∈ namedPrefix :=
    ⟨hpart, opened ++ first, m, by rw [List.append_assoc]⟩
  rw [List.append_assoc items, List.append_assoc items]
  exact Language.append_mem_mul hitems (Language.append_mem_mul hnamed hdata)

/-- Text at the end, if there is any, is one more item. -/
theorem items_of_pendingText {mode : Mode} {matcher : Matcher} (hl : Laid d w i es) :
    es ++ Scan.pendingText ⟨mode, n, some i, matcher, .empty⟩ n ∈ item∗ * 1 := by
  rw [mul_one]
  simp only [Scan.pendingText, Option.getD_some]
  split
  · exact append_mem_kstar (items_of_laid hl) (Or.inl (Or.inl (Or.inl (mem_each _ _))))
  · rw [List.append_nil]
    exact items_of_laid hl

/-- The opening marker at least is left of an unfinished interpolation. -/
theorem unfinishedInterpolation_of_laid {mode : Mode} {matcher : Matcher} (ho : d.opening ≠ [])
    (hl : Laid d w i es) (hn : i + d.opening.length ≤ n) :
    es ++ (.error .missingInterpolationEnd i ::
      Scan.pendingText ⟨mode, n, some i, matcher, .empty⟩ n) ∈ item∗ * unfinishedInterpolation := by
  have hpos := List.length_pos_iff.mpr ho
  have hlt : i < n := by omega
  simp only [Scan.pendingText, Option.getD_some, if_pos hlt]
  exact Language.append_mem_mul (items_of_laid hl) (cons_mem_mul (mem_each _ _) (mem_each _ _))

/-- What is reported of an unfinished value is its bytes, if there are any. -/
theorem dataRest_mem (span : Span) :
    (if span.isEmpty then [] else [Event.attribData span]) ∈ 1 + each Event.attribData := by
  split
  · exact Or.inl Language.nil_mem_one
  · exact Or.inr (mem_each _ _)

/-- What is reported at the end completes the items to a document of the outcome that the mode
shows. -/
theorem leftover_of_underway {s : Scan} (ho : d.opening ≠ []) (h : Underway d w s es) :
    es ++ s.leftover ∈ item∗ * (Outcome.ofMode s.mode).tail := by
  cases h with
  | text hl _ _ => exact items_of_pendingText hl
  | interpolationOpen hl _ _ _ _ _ => exact items_of_pendingText hl
  | interpolation hl _ hn _ => exact unfinishedInterpolation_of_laid ho hl hn
  | interpolationClose hl _ hm _ _ _ =>
    exact unfinishedInterpolation_of_laid ho hl (Nat.le_add_right_of_le hm)
  | beforeTagName hl _ => exact items_of_pendingText hl
  -- Nothing has been reported of a tag whose name is under way.
  | inTagName hl _ _ =>
    rw [← List.append_nil es]
    exact unfinishedTag_of_prefix (items_of_laid hl) nil_mem_properPrefix
  | beforeClosingTagName hl _ => exact items_of_pendingText hl
  | inClosingTagName hl _ _ =>
    rw [← List.append_nil es]
    exact unfinishedTag_of_prefix (items_of_laid hl) nil_mem_properPrefix
  | afterClosingTagName hl _ _ _ =>
    rw [List.append_assoc]
    exact Language.append_mem_mul (items_of_laid hl)
      (cons_mem_mul (Or.inr (mem_each _ _)) (mem_each _ _))
  | beforeAttrName h => exact unfinishedTag_of_tagged h
  | inSelfClosingTag h => exact unfinishedTag_of_tagged h
  | inAttrName h _ => exact unfinishedTag_of_tagged h
  | inDirName h _ _ _ => exact unfinishedTag_of_tagged h
  | inDirArg h hhead _ => exact unfinishedTag_of_head h hhead
  | inDirDynamicArg h hhead _ => exact unfinishedTag_of_head h hhead
  | inDirModifier h hdir _ _ =>
    have hname : _ ∈ name := Or.inl (Or.inr (directive_of_layout hdir))
    have hattr := bareAttr_mem (n := 0) hname
    rw [List.append_assoc] at hattr
    exact unfinishedTag_of_part h hattr
  | afterAttrName h hname _ =>
    exact unfinishedTag_of_part h (bareAttr_mem (name_of_layout hname))
  | beforeAttrValue h hname _ =>
    exact unfinishedTag_of_part h (bareAttr_mem (name_of_layout hname))
  | inQuotedValue mark h hname _ _ => exact unfinishedValue_of_named h hname (dataRest_mem _)
  | inBareValue h hname _ => exact unfinishedValue_of_named h hname (dataRest_mem _)

/-! ## What is left unfinished shows in the events -/

/-- Whether an event is an error of one kind. -/
def reports (code : ErrorCode) : Event → Bool
  | .error other _ => other == code
  | _ => false

/-- The events that leave an attribute open. -/
def opensAttr : Event → Bool
  | .attribNameEnd _ | .attribData _ => true
  | _ => false

/-- What a row of events with its end leaves unfinished. -/
def Outcome.ofEvents (es : List Event) : Outcome :=
  if es.any (reports .missingInterpolationEnd) then interpolation
  else if es.any (reports .eofInTag) then tag
  else if es.dropLast.getLast?.any opensAttr then value
  else nothing

/-- The rows that report nothing unfinished. -/
def quiet : Language Event :=
  {es | ∀ e ∈ es, reports .missingInterpolationEnd e = false ∧ reports .eofInTag e = false}

variable {L M : Language Event}

/-- Quiet rows stay quiet one behind the other. -/
theorem mul_le_quiet (hL : L ≤ quiet) (hM : M ≤ quiet) : L * M ≤ quiet := by
  intro es hes e he
  obtain ⟨first, hfirst, last, hlast, rfl⟩ := Language.mem_mul.mp hes
  rcases List.mem_append.mp he with hmem | hmem
  · exact hL hfirst e hmem
  · exact hM hlast e hmem

/-- Nothing at all is quiet. -/
theorem one_le_quiet : (1 : Language Event) ≤ quiet := by
  intro es hes e he
  rw [(Language.mem_one es).mp hes] at he
  cases he

/-- Any number of quiet rows is quiet. -/
theorem kstar_le_quiet (hL : L ≤ quiet) : L∗ ≤ quiet :=
  kstar_le_of_mul_le_left one_le_quiet (mul_le_quiet le_rfl hL)

/-- Events that are no errors of the two kinds make quiet rows. -/
theorem each_le_quiet {α : Type} {f : α → Event}
    (h : ∀ a, reports .missingInterpolationEnd (f a) = false ∧ reports .eofInTag (f a) = false) :
    each f ≤ quiet := by
  rintro es ⟨a, rfl⟩ e he
  rw [List.mem_singleton.mp he]
  exact h a

/-- An attribute is quiet: the only error in it is that of an argument. -/
theorem attr_le_quiet : attr ≤ quiet := by
  have harg : argument ≤ quiet :=
    add_le (each_le_quiet fun _ => ⟨rfl, rfl⟩) (each_le_quiet fun _ => ⟨rfl, rfl⟩)
  have hlong : longName ≤ quiet := each_le_quiet fun _ => ⟨rfl, rfl⟩
  have hsigil : sigilName ≤ quiet := each_le_quiet fun _ => ⟨rfl, rfl⟩
  have hdir : directive ≤ quiet :=
    mul_le_quiet
      (add_le (mul_le_quiet hlong (add_le one_le_quiet harg)) (mul_le_quiet hsigil harg))
      (kstar_le_quiet (each_le_quiet fun _ => ⟨rfl, rfl⟩))
  have hunclosed : unclosedDirective ≤ quiet :=
    mul_le_quiet (mul_le_quiet (add_le hlong hsigil) (each_le_quiet fun _ => ⟨rfl, rfl⟩))
      (each_le_quiet fun _ => ⟨rfl, rfl⟩)
  have hname : name ≤ quiet :=
    add_le (add_le (each_le_quiet fun _ => ⟨rfl, rfl⟩) hdir) hunclosed
  have hend : ∀ quote, each (Event.attribEnd quote) ≤ quiet := fun _ =>
    each_le_quiet fun _ => ⟨rfl, rfl⟩
  have hvalue : value ≤ quiet :=
    mul_le_quiet (each_le_quiet fun _ => ⟨rfl, rfl⟩)
      (add_le (add_le (hend .single) (hend .double)) (hend .bare))
  exact mul_le_quiet (mul_le_quiet hname (each_le_quiet fun _ => ⟨rfl, rfl⟩))
    (add_le (hend .absent) hvalue)

/-- An opening tag is quiet. -/
theorem openTag_le_quiet : openTag ≤ quiet :=
  mul_le_quiet
    (mul_le_quiet (each_le_quiet fun _ => ⟨rfl, rfl⟩) (kstar_le_quiet attr_le_quiet))
    (add_le (each_le_quiet fun _ => ⟨rfl, rfl⟩) (each_le_quiet fun _ => ⟨rfl, rfl⟩))

/-- Complete items are quiet. -/
theorem items_le_quiet : item∗ ≤ quiet :=
  kstar_le_quiet (add_le (add_le (add_le (each_le_quiet fun _ => ⟨rfl, rfl⟩)
    (each_le_quiet fun _ => ⟨rfl, rfl⟩)) (each_le_quiet fun _ => ⟨rfl, rfl⟩)) openTag_le_quiet)

/-- The beginning of an opening tag is quiet. -/
theorem properPrefix_le_quiet : properPrefix openTag ≤ quiet := by
  rintro es ⟨rest, -, hrest⟩ e he
  exact openTag_le_quiet hrest e (List.mem_append_left rest he)

/-- In a quiet row neither of the two errors is found. -/
theorem any_reports_of_quiet (h : es ∈ quiet) :
    es.any (reports .missingInterpolationEnd) = false ∧ es.any (reports .eofInTag) = false := by
  simp only [List.any_eq_false, Bool.not_eq_true]
  exact ⟨fun e he => (h e he).1, fun e he => (h e he).2⟩

/-- An item ends with an event that opens no attribute. -/
theorem exists_last_of_item (h : es ∈ item) :
    ∃ first e, es = first ++ [e] ∧ opensAttr e = false := by
  rcases h with ((⟨a, rfl⟩ | ⟨a, rfl⟩) | ⟨a, rfl⟩) | htag
  · exact ⟨[], _, rfl, rfl⟩
  · exact ⟨[], _, rfl, rfl⟩
  · exact ⟨[], _, rfl, rfl⟩
  · obtain ⟨first, -, last, hlast, rfl⟩ := Language.mem_mul.mp htag
    rcases hlast with ⟨n, rfl⟩ | ⟨n, rfl⟩
    · exact ⟨first, _, rfl, rfl⟩
    · exact ⟨first, _, rfl, rfl⟩

/-- The rows that leave no attribute open. -/
def closedRows : Language Event :=
  {es | es.getLast?.any opensAttr = false}

/-- Complete items leave no attribute open. -/
theorem items_le_closedRows : item∗ ≤ closedRows := by
  refine kstar_le_of_mul_le_left ?_ ?_
  · intro es hes
    rw [(Language.mem_one es).mp hes]
    exact rfl
  · intro es hes
    obtain ⟨first, -, last, hlast, rfl⟩ := Language.mem_mul.mp hes
    obtain ⟨init, e, rfl, he⟩ := exists_last_of_item hlast
    show (first ++ (init ++ [e])).getLast?.any opensAttr = false
    rw [← List.append_assoc, List.getLast?_concat]
    exact he

/-- The reports of a row are those of its parts. -/
theorem any_reports_append {code : ErrorCode} {first last : List Event} (h : first ∈ quiet)
    (hcode : code ≠ .missingDynamicArgumentEnd) :
    (first ++ last).any (reports code) = last.any (reports code) := by
  obtain ⟨hinterp, htag⟩ := any_reports_of_quiet h
  rw [List.any_append]
  cases code with
  | eofInTag => rw [htag, Bool.false_or]
  | missingInterpolationEnd => rw [hinterp, Bool.false_or]
  | missingDynamicArgumentEnd => exact absurd rfl hcode

/-- A document shows what it leaves unfinished. -/
theorem ofEvents_of_mem_document {k : Outcome} (h : es ∈ document k) :
    Outcome.ofEvents es = k := by
  obtain ⟨row, hrow, last, rfl, rfl⟩ := Language.mem_mul.mp h
  obtain ⟨items, hitems, tail, htail, rfl⟩ := Language.mem_mul.mp hrow
  have hquiet : items ∈ quiet := items_le_quiet hitems
  have hinterp : ∀ {first last : List Event}, first ∈ quiet →
      (first ++ last).any (reports .missingInterpolationEnd) =
        last.any (reports .missingInterpolationEnd) :=
    fun hfirst => any_reports_append hfirst (by decide)
  have htag : ∀ {first last : List Event}, first ∈ quiet →
      (first ++ last).any (reports .eofInTag) = last.any (reports .eofInTag) :=
    fun hfirst => any_reports_append hfirst (by decide)
  rw [Outcome.ofEvents, List.dropLast_concat, List.append_assoc, hinterp hquiet, htag hquiet]
  cases k with
  | nothing =>
    obtain rfl := (Language.mem_one tail).mp htail
    have hlast : items.getLast?.any opensAttr = false := items_le_closedRows hitems
    simp [reports, hlast]
  | interpolation =>
    obtain ⟨first, ⟨a, rfl⟩, text, ⟨span, rfl⟩, rfl⟩ := Language.mem_mul.mp htail
    rfl
  | tag =>
    obtain ⟨first, hfirst, last, ⟨a, rfl⟩, rfl⟩ := Language.mem_mul.mp htail
    have hquiet₁ : first ∈ quiet := by
      rcases hfirst with hpart | ⟨span, rfl⟩
      · exact properPrefix_le_quiet hpart
      · exact each_le_quiet (fun _ => ⟨rfl, rfl⟩) (mem_each Event.closeTag span)
    rw [List.append_assoc, hinterp hquiet₁, htag hquiet₁]
    rfl
  | value =>
    obtain ⟨named, ⟨hpart, first, n, rfl⟩, data, hdata, rfl⟩ := Language.mem_mul.mp htail
    have hquiet₁ := properPrefix_le_quiet hpart
    rw [List.append_assoc, hinterp hquiet₁, htag hquiet₁]
    rcases hdata with hnil | ⟨span, rfl⟩
    · obtain rfl := (Language.mem_one data).mp hnil
      simp [reports, opensAttr]
    · simp [reports, opensAttr]

/-! ## The events of a template -/

/-- The events of a template form a document of the outcome that the last mode shows. -/
theorem events_mem_ofMode (o : Options) (rawText : Bool) (template : String) :
    (o.dialect rawText).events template ∈
      document (Outcome.ofMode ((o.dialect rawText).run template).scan.mode) := by
  have hrow := leftover_of_underway (utf8Bytes_ne_nil o.delimiters.opening_ne_empty)
    (o.underway_run rawText template)
  rw [Dialect.events, Scan.ending, ← List.append_assoc]
  exact Language.append_mem_mul hrow rfl

/-- Whatever the outcome, at most one item is unfinished, and the end comes last. -/
theorem document_le (k : Outcome) :
    document k ≤ item∗ * (1 + unfinishedInterpolation + unfinishedTag + unfinishedValue) *
      {[Event.endOfInput]} := by
  refine mul_le_mul' (mul_le_mul' le_rfl ?_) le_rfl
  intro es hes
  cases k with
  | nothing => exact Or.inl (Or.inl (Or.inl hes))
  | interpolation => exact Or.inl (Or.inl (Or.inr hes))
  | tag => exact Or.inl (Or.inr hes)
  | value => exact Or.inr hes

/-- The events of every template are items, perhaps an unfinished one, and the end. What is left
unfinished, if anything, is told by the mode in which the scan ends, and the events show it: they
belong to the documents of no other outcome. -/
theorem events_mem_document (o : Options) (rawText : Bool) (template : String) :
    (o.dialect rawText).events template ∈
        item∗ * (1 + unfinishedInterpolation + unfinishedTag + unfinishedValue) *
          {[Event.endOfInput]} ∧
      ∀ k, (o.dialect rawText).events template ∈ document k ↔
        Outcome.ofMode ((o.dialect rawText).run template).scan.mode = k := by
  have hmem := events_mem_ofMode o rawText template
  refine ⟨document_le _ hmem, fun k => ⟨fun hk => ?_, ?_⟩⟩
  · rw [← ofEvents_of_mem_document hmem]
    exact ofEvents_of_mem_document hk
  · rintro rfl
    exact hmem

end TemplateLexer.Grammar
