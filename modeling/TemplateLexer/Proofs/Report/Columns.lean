import Mathlib.Data.List.DropRight
import TemplateLexer.Proofs.Report.Written
import TemplateLexer.Report.Line

/-!
# Columns of a line

The columns of a line are found again although they are not marked. The number in front is known
from the place of the line, a kind and offsets hold no blank, and a detail does not end in one, so
that nothing of it is lost where a line is trimmed (`columns_inj`). What is shown of an event is
always of this form (`columnar_ofEvent`).
-/

set_option autoImplicit false

namespace TemplateLexer.Report

variable {xs ys : List Char} {m n : Nat} {r r' : Record}

/-! ## Blanks at the end -/

/-- A text whose last character, if there is one, is no blank. -/
def EndsInk (xs : List Char) : Prop :=
  ∀ c, xs.getLast? = some c → c ≠ ' '

/-- Trimming drops the blanks at the end, and nothing else. -/
theorem toList_trimRight (text : String) :
    (trimRight text).toList = text.toList.rdropWhile (· == ' ') := by
  rw [trimRight, String.toList_ofList, List.rdropWhile]

/-- Only blanks are lost where a text is trimmed. -/
theorem exists_blanks (text : String) :
    ∃ k, text.toList = (trimRight text).toList ++ List.replicate k ' ' := by
  have hblanks : text.toList.rtakeWhile (· == ' ') =
      List.replicate (text.toList.rtakeWhile (· == ' ')).length ' ' := by
    apply List.eq_replicate_of_mem
    intro c hc
    simpa using List.mem_rtakeWhile_imp hc
  refine ⟨(text.toList.rtakeWhile (· == ' ')).length, ?_⟩
  rw [toList_trimRight, ← hblanks, List.rdropWhile_append_rtakeWhile]

/-- Blanks behind a text that does not end in one are dropped again. -/
theorem rdropWhile_blanks (h : EndsInk xs) (k : Nat) :
    (xs ++ List.replicate k ' ').rdropWhile (· == ' ') = xs := by
  induction k with
  | zero =>
    rw [List.replicate_zero, List.append_nil, List.rdropWhile_eq_self_iff]
    intro hne
    have hlast := h _ (List.getLast?_eq_some_getLast hne)
    simpa using hlast
  | succ k ih =>
    rw [List.replicate_succ', ← List.append_assoc, List.rdropWhile_concat_pos _ _ _ rfl, ih]

/-- Texts that do not end in a blank are told apart whatever blanks follow. -/
theorem eq_of_blanks (hxs : EndsInk xs) (hys : EndsInk ys)
    (h : xs ++ List.replicate m ' ' = ys ++ List.replicate n ' ') : xs = ys := by
  have htrim := congrArg (List.rdropWhile (· == ' ')) h
  rwa [rdropWhile_blanks hxs, rdropWhile_blanks hys] at htrim

/-! ## Kinds -/

/-- The characters of the name of a kind. -/
def inKind (c : Char) : Bool :=
  c.isLower || c == '-'

/-- The first run of characters that can be those of a kind. -/
def firstKind (xs : List Char) : List Char :=
  (xs.dropWhile (! inKind ·)).takeWhile inKind

/-- Blanks behind a line do not change its kind. -/
theorem firstKind_append_blanks (xs : List Char) (k : Nat) :
    firstKind (xs ++ List.replicate k ' ') = firstKind xs := by
  have hblanks : ∀ c ∈ List.replicate k ' ', inKind c = false := by
    intro c hc
    rw [List.eq_of_mem_replicate hc]
    decide
  have hdrop : (List.replicate k ' ').dropWhile (! inKind ·) = [] := by
    rw [List.dropWhile_eq_nil_iff]
    intro c hc
    rw [hblanks c hc]
    rfl
  have htake : (List.replicate k ' ').takeWhile inKind = [] := by
    cases k with
    | zero => rfl
    | succ k => rfl
  rw [firstKind, firstKind, List.dropWhile_append]
  split
  · next hempty => rw [hdrop, List.isEmpty_iff.mp hempty]
  · rw [List.takeWhile_append, htake, List.append_nil]
    split
    · next hall => exact ((List.takeWhile_prefix _).eq_of_length hall).symm
    · rfl

/-- A kind is the first run of its sort behind characters of another sort. -/
theorem firstKind_append {ws us : List Char} (hws : ∀ c ∈ ws, inKind c = false)
    (hxs : ∀ c ∈ xs, inKind c = true) (hne : xs ≠ []) (hus : EndsWord inKind us) :
    firstKind (ws ++ (xs ++ us)) = xs := by
  have hstart : EndsWord (! inKind ·) (xs ++ us) := by
    obtain ⟨c, xs, rfl⟩ := List.exists_cons_of_ne_nil hne
    exact endsWord_cons (by simp [hxs])
  rw [firstKind, dropWhile_word (by simpa using hws) hstart, takeWhile_word hxs hus]

/-! ## Lines of columns -/

/-- A record whose columns can be told apart: its kind is a word, and its detail fits on a line and
does not end in a blank. -/
structure Columnar (r : Record) : Prop where
  kind_ne : r.kind.toList ≠ []
  kind : ∀ c ∈ r.kind.toList, inKind c = true
  ends : EndsInk (detail r).toList
  line : '\n' ∉ (detail r).toList

/-- The offsets and the detail of a record, as they stand behind its kind. -/
def behindKind (r : Record) : List Char :=
  List.replicate (16 - r.kind.length) ' ' ++ ' ' :: ((offsets r).toList ++
    (List.replicate (10 - (offsets r).length) ' ' ++ ' ' :: (detail r).toList))

/-- A line before it is trimmed. -/
def whole (n : Nat) (r : Record) : List Char :=
  (padLeft 4 (toString n)).toList ++ ([' ', ' '] ++ (r.kind.toList ++ behindKind r))

/-- A whole line is the trimmed one with blanks behind it. -/
theorem exists_whole_eq (n : Nat) (r : Record) :
    ∃ k, whole n r = (line n r).toList ++ List.replicate k ' ' := by
  obtain ⟨k, hk⟩ := exists_blanks (padLeft 4 (toString n) ++ "  " ++ padRight 16 r.kind ++ " " ++
    padRight 10 (offsets r) ++ " " ++ detail r)
  refine ⟨k, ?_⟩
  rw [line, ← hk]
  simp [whole, behindKind, padRight]

/-- Offsets are written with digits, dots and the sign of a single place. -/
theorem of_mem_offsets {c : Char} (h : c ∈ (offsets r).toList) :
    c.isDigit = true ∨ c = '.' ∨ c = '@' := by
  have hpoint : ∀ n : Nat, c ∈ ("@" ++ toString n).toList →
      c.isDigit = true ∨ c = '.' ∨ c = '@' := by
    intro n hc
    rw [String.toList_append, List.mem_append] at hc
    rcases hc with hc | hc
    · exact .inr (.inr (by simpa using hc))
    · exact .inl (isDigit_of_mem_number hc)
  unfold offsets at h
  split at h
  · simp only [Span.render, String.toList_append, List.mem_append] at h
    rcases h with (h | h) | h
    · exact .inl (isDigit_of_mem_number h)
    · exact .inr (.inl (by simpa using h))
    · exact .inl (isDigit_of_mem_number h)
  · exact hpoint _ h
  · exact hpoint _ h
  · cases h

/-- Any other character is missing from offsets. -/
theorem not_mem_offsets {c : Char} (hdigit : c.isDigit = false) (hdot : c ≠ '.') (hat : c ≠ '@') :
    c ∉ (offsets r).toList := by
  intro h
  rcases of_mem_offsets h with h | h | h
  · rw [hdigit] at h
    cases h
  · exact hdot h
  · exact hat h

/-- A blank ends a word, and so do several. -/
theorem endsWord_blanks (k : Nat) (us : List Char) :
    EndsWord (· != ' ') (List.replicate k ' ' ++ ' ' :: us) := by
  cases k with
  | zero => exact endsWord_cons rfl
  | succ k => exact endsWord_cons rfl

/-- A kind holds no blank. -/
theorem Columnar.ne_blank (h : Columnar r) : ∀ c ∈ r.kind.toList, (c != ' ') = true := by
  intro c hc
  have hkind := h.kind c hc
  rw [bne_iff_ne]
  rintro rfl
  cases hkind

/-- Offsets hold no blank. -/
theorem ne_blank_of_mem_offsets : ∀ c ∈ (offsets r).toList, (c != ' ') = true := by
  intro c hc
  rw [bne_iff_ne]
  rintro rfl
  exact not_mem_offsets (by decide) (by decide) (by decide) hc

/-- Two records with the same line at the same place agree in all their columns. -/
theorem columns_inj (hr : Columnar r) (hr' : Columnar r') (h : line n r = line n r') :
    r.kind = r'.kind ∧ offsets r = offsets r' ∧ detail r = detail r' := by
  obtain ⟨i, hi⟩ := exists_whole_eq n r
  obtain ⟨j, hj⟩ := exists_whole_eq n r'
  -- The blanks that one line lost are added to the other, so that both lack the same number.
  have hwhole : whole n r ++ List.replicate j ' ' = whole n r' ++ List.replicate i ' ' := by
    rw [hi, hj, h, List.append_assoc, List.append_assoc, List.replicate_append_replicate,
      List.replicate_append_replicate, Nat.add_comm]
  simp only [whole, List.append_assoc] at hwhole
  have hkinds := List.append_cancel_left (List.append_cancel_left hwhole)
  simp only [behindKind, List.append_assoc, List.cons_append] at hkinds
  obtain ⟨hkind, hbehind⟩ := word_inj hr.ne_blank hr'.ne_blank (endsWord_blanks _ _)
    (endsWord_blanks _ _) hkinds
  rw [String.toList_inj] at hkind
  rw [hkind] at hbehind
  have hcolumns := (List.cons.inj (List.append_cancel_left hbehind)).2
  obtain ⟨hoffsets, hdetails⟩ := word_inj ne_blank_of_mem_offsets ne_blank_of_mem_offsets
    (endsWord_blanks _ _) (endsWord_blanks _ _) hcolumns
  rw [String.toList_inj] at hoffsets
  rw [hoffsets] at hdetails
  have hdetail := (List.cons.inj (List.append_cancel_left hdetails)).2
  exact ⟨hkind, hoffsets, String.toList_inj.mp (eq_of_blanks hr.ends hr'.ends hdetail)⟩

/-- In front of the kind there are digits and blanks only. -/
theorem of_mem_front {c : Char} (h : c ∈ (padLeft 4 (toString n)).toList ++ [' ', ' ']) :
    c = ' ' ∨ c.isDigit = true := by
  simp only [padLeft, String.toList_append, String.toList_ofList, List.mem_append,
    List.mem_replicate] at h
  rcases h with (⟨-, h⟩ | h) | h
  · exact .inl h
  · exact .inr (isDigit_of_mem_number h)
  · exact .inl (by simpa using h)

/-- A kind holds no digit. -/
theorem not_inKind_of_isDigit {c : Char} (h : c.isDigit = true) : inKind c = false := by
  rw [inKind, Bool.or_eq_false_iff]
  constructor
  · change (decide (97 ≤ c.val) && decide (c.val ≤ 122)) = false
    simp only [Char.isDigit, ge_iff_le, UInt32.le_iff_toNat_le] at *
    grind
  · rw [beq_eq_false_iff_ne]
    rintro rfl
    cases h

/-- The kind of a record is the first of its sort on its line. -/
theorem firstKind_line (hr : Columnar r) (n : Nat) :
    firstKind (line n r).toList = r.kind.toList := by
  obtain ⟨k, hk⟩ := exists_whole_eq n r
  have hbehind : EndsWord inKind (behindKind r) := by
    unfold behindKind
    cases 16 - r.kind.length with
    | zero => exact endsWord_cons (by decide)
    | succ k => exact endsWord_cons (by decide)
  rw [← firstKind_append_blanks _ k, ← hk, whole, ← List.append_assoc]
  refine firstKind_append (fun c hc => ?_) hr.kind hr.kind_ne hbehind
  rcases of_mem_front hc with rfl | hdigit
  · rfl
  · exact not_inKind_of_isDigit hdigit

/-- A line holds no line feed. -/
theorem newline_not_mem_line (hr : Columnar r) (n : Nat) : '\n' ∉ (line n r).toList := by
  intro hmem
  obtain ⟨k, hk⟩ := exists_whole_eq n r
  have hwhole : '\n' ∈ whole n r := by
    rw [hk]
    exact List.mem_append_left _ hmem
  rw [whole, ← List.append_assoc] at hwhole
  rcases List.mem_append.mp hwhole with hfront | hrest
  · rcases of_mem_front hfront with h | h
    · cases h
    · cases h
  rcases List.mem_append.mp hrest with hkind | hbehind
  · cases hr.kind _ hkind
  · simp only [behindKind, List.mem_append, List.mem_cons, List.mem_replicate] at hbehind
    rcases hbehind with ⟨-, h⟩ | h | h | ⟨-, h⟩ | h | h
    · cases h
    · cases h
    · exact not_mem_offsets (by decide) (by decide) (by decide) h
    · cases h
    · cases h
    · exact hr.line h

/-! ## Lines of events -/

/-- The details that are shown of events. -/
inductive Detail : String → Prop
  | absent : Detail ""
  | code (code : ErrorCode) : Detail code.name
  | quote (quote : Quote) : Detail quote.name
  | text (text : String) : Detail (Quoted.quote text)
  | announced (text : String) (shorthand : Shorthand) :
      Detail (Quoted.quote text ++ " (" ++ shorthand.directive ++ ")")

/-- The detail of an event does not end in a blank. -/
theorem Detail.endsInk {detail : String} (h : Detail detail) : EndsInk detail.toList := by
  intro c hc
  cases h with
  | absent => cases hc
  | code code => cases code <;> cases hc <;> decide
  | quote quote => cases quote <;> cases hc <;> decide
  | text text =>
    rw [Quoted.quote, String.toList_ofList, List.getLast?_concat] at hc
    cases hc
    decide
  | announced text shorthand =>
    rw [String.toList_append, show ")".toList = [')'] from rfl, List.getLast?_concat] at hc
    cases hc
    decide

/-- The detail of an event fits on a line. -/
theorem Detail.newline_not_mem {detail : String} (h : Detail detail) :
    '\n' ∉ detail.toList := by
  cases h with
  | absent => decide
  | code code => cases code <;> decide
  | quote quote => cases quote <;> decide
  | text text => exact Quoted.newline_not_mem_quote text
  | announced text shorthand =>
    have hdirective : '\n' ∉ shorthand.directive.toList := by cases shorthand <;> decide
    have htext := Quoted.newline_not_mem_quote text
    simp [hdirective, htext]

/-- A text is shown alone if it is the name of the directive, or if there is none. -/
theorem detail_of_text (hcode : r.code = none) (hquote : r.quote = none)
    (hdirective : r.directive = none ∨ r.directive = r.text) :
    detail r = "" ∨ ∃ text, detail r = Quoted.quote text := by
  unfold detail
  rw [hcode, hquote]
  cases htext : r.text with
  | none => exact .inl rfl
  | some text =>
    rw [htext] at hdirective
    rcases hdirective with hnone | hsame
    · rw [hnone]
      exact .inr ⟨text, rfl⟩
    · rw [hsame]
      exact .inr ⟨text, if_pos rfl⟩

/-- The detail of an event that announces a directive is its text, with the directive if this is
another. -/
theorem detail_of_directive {name : String} (hcode : r.code = none) (hquote : r.quote = none)
    (hname : r.directive = some name) :
    detail r = "" ∨ ∃ text, detail r =
      if name = text then Quoted.quote text else Quoted.quote text ++ " (" ++ name ++ ")" := by
  unfold detail
  rw [hcode, hquote, hname]
  cases r.text with
  | none => exact .inl rfl
  | some text => exact .inr ⟨text, rfl⟩

/-- A quoted text is a detail of an event. -/
theorem Detail.of_text (h : detail r = "" ∨ ∃ text, detail r = Quoted.quote text) :
    Detail (detail r) := by
  rcases h with h | ⟨text, h⟩
  · rw [h]
    exact .absent
  · rw [h]
    exact .text text

/-- What is shown of an event in the last column is one of the details. -/
theorem detail_ofEvent (template : String) (e : Event) :
    Detail (detail (Record.ofEvent template e)) := by
  cases e with
  | error code offset => exact .code code
  | attribEnd quote offset => exact .quote quote
  | dirName span shorthand =>
    cases shorthand with
    | none => exact .of_text (detail_of_text rfl rfl (.inr rfl))
    | some shorthand =>
      rcases detail_of_directive (r := Record.ofEvent template (.dirName span (some shorthand)))
        rfl rfl rfl with h | ⟨text, h⟩
      · exact .of_text (.inl h)
      · rw [h]
        split
        · exact .text text
        · exact .announced text shorthand
  | _ => exact .of_text (detail_of_text rfl rfl (.inl rfl))

/-- A record keeps the kind of its event. -/
theorem kind_ofEvent (template : String) (e : Event) :
    (Record.ofEvent template e).kind = e.kind := by
  cases e <;> rfl

/-- Every event has a kind. -/
theorem kind_ne_nil (e : Event) : e.kind.toList ≠ [] := by
  unfold Event.kind
  split <;> decide

/-- The kind of an event is a word. -/
theorem inKind_of_mem_kind (e : Event) : ∀ c ∈ e.kind.toList, inKind c = true := by
  rw [← List.all_eq_true]
  unfold Event.kind
  split <;> decide

/-- What is shown of an event is a line of columns. -/
theorem columnar_ofEvent (template : String) (e : Event) :
    Columnar (Record.ofEvent template e) where
  kind_ne := kind_ofEvent template e ▸ kind_ne_nil e
  kind := kind_ofEvent template e ▸ inKind_of_mem_kind e
  ends := (detail_ofEvent template e).endsInk
  line := (detail_ofEvent template e).newline_not_mem

end TemplateLexer.Report
