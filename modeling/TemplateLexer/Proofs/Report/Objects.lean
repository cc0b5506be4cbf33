import TemplateLexer.Proofs.Report.Columns
import TemplateLexer.Report.Json

/-!
# Reading objects back

A line of JSON is taken apart from left to right: every part of it is told from what stands behind
it. An escaped character is told by its first characters (`escape_inj`), a text by the quotation
mark behind it (`string_inj`), a number by the mark behind its digits (`render_inj`), and so a whole
object by its fields (`object_inj`). A record is told by its line, then (`line_inj`).
-/

set_option autoImplicit false

namespace TemplateLexer.Report.Json

variable {u v : List Char}

/-! ## Characters -/

/-- The ways in which a character can be written. -/
inductive Escaped : Char → List Char → Prop
  | letter {c l : Char} (h : letter? c = some l) : Escaped c ['\\', l]
  | code {c : Char} (h : c.toNat < 0x20) : Escaped c (code c)
  | plain {c : Char} (h : letter? c = none) (hc : 0x20 ≤ c.toNat) : Escaped c [c]

/-- Every character is written in one of the ways there are. -/
theorem escaped (c : Char) : Escaped c (escape c) := by
  unfold escape
  split
  · next l h => exact .letter h
  · next h =>
    split
    · next hc => exact .code hc
    · next hc => exact .plain h (Nat.le_of_not_lt hc)

/-- The characters with a letter of their own, and these letters. -/
def letters : List (Char × Char) :=
  [('\x08', 'b'), ('\t', 't'), ('\n', 'n'), ('\x0c', 'f'), ('\r', 'r'), ('"', '"'), ('\\', '\\')]

/-- The letters of the table are all that are used. -/
theorem mem_letters {c l : Char} (h : letter? c = some l) : (c, l) ∈ letters := by
  unfold letter? at h
  split at h <;> cases h <;> decide

/-- A letter stands for one character only. -/
theorem letter?_inj {c d l : Char} (hc : letter? c = some l) (hd : letter? d = some l) :
    c = d := by
  have hall : ∀ p ∈ letters, ∀ q ∈ letters, p.2 = q.2 → p.1 = q.1 := by decide
  exact hall _ (mem_letters hc) _ (mem_letters hd) rfl

/-- No letter is the one in front of the digits of a code. -/
theorem letter?_ne_u (c : Char) : letter? c ≠ some 'u' := by
  intro h
  have hall : ∀ p ∈ letters, p.2 ≠ 'u' := by decide
  exact hall _ (mem_letters h) rfl

/-- A hexadecimal digit stands for one number only. -/
theorem digitChar_inj {m n : Nat} (hm : m < 16) (hn : n < 16) (h : m.digitChar = n.digitChar) :
    m = n := by
  have hall : ∀ i : Fin 16, ∀ j : Fin 16, i.val.digitChar = j.val.digitChar → i = j := by decide
  exact congrArg Fin.val (hall ⟨m, hm⟩ ⟨n, hn⟩ h)

/-- A character is told by its code. -/
theorem code_inj {c d : Char} (hc : c.toNat < 0x20) (hd : d.toNat < 0x20)
    (h : code c ++ u = code d ++ v) : c = d ∧ u = v := by
  simp only [code, List.cons_append, List.nil_append, List.cons.injEq, true_and] at h
  obtain ⟨hhigh, hlow, hrest⟩ := h
  have hdiv := digitChar_inj (by omega) (by omega) hhigh
  have hmod := digitChar_inj (by omega) (by omega) hlow
  exact ⟨Char.toNat_inj.mp (by omega), hrest⟩

/-- A letter is not taken for a code. -/
theorem letter_ne_code {c d l : Char} (h : letter? c = some l) :
    ['\\', l] ++ u ≠ code d ++ v := by
  intro heq
  simp only [code, List.cons_append, List.nil_append, List.cons.injEq, true_and] at heq
  rw [heq.1] at h
  exact letter?_ne_u c h

/-- The sign of an escape is not taken for a character as it is. -/
theorem backslash_ne_plain {d : Char} (h : letter? d = none) : '\\' :: u ≠ d :: v := by
  intro heq
  rw [← (List.cons.inj heq).1] at h
  cases h

/-- A written character is told from what stands behind it. -/
theorem escape_inj {c d : Char} (h : escape c ++ u = escape d ++ v) : c = d ∧ u = v := by
  have hc := escaped c
  have hd := escaped d
  generalize escape c = written at h hc
  generalize escape d = written' at h hd
  cases hc with
  | letter hl =>
    cases hd with
    | letter hl' =>
      simp only [List.cons_append, List.nil_append, List.cons.injEq, true_and] at h
      rw [h.1] at hl
      exact ⟨letter?_inj hl hl', h.2⟩
    | code hlt => exact absurd h (letter_ne_code hl)
    | plain hnone hle => exact absurd h (backslash_ne_plain hnone)
  | code hlt =>
    cases hd with
    | letter hl => exact absurd h.symm (letter_ne_code hl)
    | code hlt' => exact code_inj hlt hlt' h
    | plain hnone hle => exact absurd h (backslash_ne_plain hnone)
  | plain hnone hle =>
    cases hd with
    | letter hl => exact absurd h.symm (backslash_ne_plain hnone)
    | code hlt => exact absurd h.symm (backslash_ne_plain hnone)
    | plain hnone' hle' => exact List.cons.inj h

/-! ## Texts -/

/-- No written character begins with a quotation mark. -/
theorem escape_ne_quote (c : Char) : escape c ++ u ≠ '"' :: v := by
  have hc := escaped c
  generalize escape c = written at hc ⊢
  intro h
  cases hc with
  | letter hl => cases (List.cons.inj h).1
  | code hlt => cases (List.cons.inj h).1
  | plain hnone hle =>
    rw [(List.cons.inj h).1] at hnone
    cases hnone

/-- An escaped text is told by the quotation mark behind it. -/
theorem flatMap_escape_inj {xs ys : List Char}
    (h : xs.flatMap escape ++ '"' :: u = ys.flatMap escape ++ '"' :: v) : xs = ys ∧ u = v := by
  induction xs generalizing ys with
  | nil =>
    cases ys with
    | nil => exact ⟨rfl, (List.cons.inj h).2⟩
    | cons d ys =>
      rw [List.flatMap_cons, List.append_assoc] at h
      exact absurd h.symm (escape_ne_quote d)
  | cons c xs ih =>
    cases ys with
    | nil =>
      rw [List.flatMap_cons, List.append_assoc] at h
      exact absurd h (escape_ne_quote c)
    | cons d ys =>
      rw [List.flatMap_cons, List.flatMap_cons, List.append_assoc, List.append_assoc] at h
      obtain ⟨rfl, hrest⟩ := escape_inj h
      obtain ⟨rfl, huv⟩ := ih hrest
      exact ⟨rfl, huv⟩

/-- A text is written between quotation marks, whatever stands behind it. -/
theorem toList_string_append (text : String) (u : List Char) :
    (string text).toList ++ u = '"' :: (text.toList.flatMap escape ++ '"' :: u) := by
  simp [string]

/-- A written text is told from what stands behind it. -/
theorem string_inj {s t : String} (h : (string s).toList ++ u = (string t).toList ++ v) :
    s = t ∧ u = v := by
  rw [toList_string_append, toList_string_append] at h
  obtain ⟨hst, huv⟩ := flatMap_escape_inj (List.cons.inj h).2
  exact ⟨String.toList_inj.mp hst, huv⟩

/-! ## Values and objects -/

/-- A number is not taken for a text. -/
theorem number_ne_string (n : Nat) (text : String) :
    (toString n).toList ++ u ≠ (string text).toList ++ v := by
  rw [toList_string_append]
  intro h
  cases hdigits : (toString n).toList with
  | nil =>
    rw [toList_number] at hdigits
    exact Nat.toDigits_ne_nil hdigits
  | cons c digits =>
    rw [hdigits] at h
    have hc : c ∈ (toString n).toList := hdigits ▸ List.mem_cons_self
    have hdigit := isDigit_of_mem_number hc
    rw [(List.cons.inj h).1] at hdigit
    cases hdigit

/-- A written value is told from what stands behind it, if this is no digit. -/
theorem render_inj {a b : Value} (hu : EndsWord Char.isDigit u) (hv : EndsWord Char.isDigit v)
    (h : a.render.toList ++ u = b.render.toList ++ v) : a = b ∧ u = v := by
  cases a with
  | number m =>
    cases b with
    | number n =>
      obtain ⟨rfl, huv⟩ := number_inj hu hv h
      exact ⟨rfl, huv⟩
    | text t => exact absurd h (number_ne_string m t)
  | text s =>
    cases b with
    | number n => exact absurd h.symm (number_ne_string n s)
    | text t =>
      obtain ⟨rfl, huv⟩ := string_inj h
      exact ⟨rfl, huv⟩

/-- A field as it is written. -/
def member (field : String × Value) : String :=
  string field.1 ++ ":" ++ field.2.render

/-- A field is told by its name and its value, if no digit stands behind it. -/
theorem member_inj {f g : String × Value} (hu : EndsWord Char.isDigit u)
    (hv : EndsWord Char.isDigit v) (h : (member f).toList ++ u = (member g).toList ++ v) :
    f = g ∧ u = v := by
  simp only [member, String.toList_append, List.append_assoc] at h
  obtain ⟨hname, hvalue⟩ := string_inj h
  obtain ⟨hvalue, huv⟩ := render_inj hu hv (List.append_cancel_left hvalue)
  exact ⟨Prod.ext hname hvalue, huv⟩

/-- What stands behind the first field of an object. -/
def moreMembers (fields : List (String × Value)) : List Char :=
  fields.flatMap (fun field => ',' :: (member field).toList) ++ ['\x7d']

/-- No digit stands behind a field. -/
theorem endsWord_moreMembers (fields : List (String × Value)) :
    EndsWord Char.isDigit (moreMembers fields) := by
  cases fields with
  | nil => exact endsWord_cons (by decide)
  | cons field fields => exact endsWord_cons (by decide)

/-- The fields behind the first one are told one after the other. -/
theorem moreMembers_inj {fs gs : List (String × Value)} (h : moreMembers fs = moreMembers gs) :
    fs = gs := by
  induction fs generalizing gs with
  | nil =>
    cases gs with
    | nil => rfl
    | cons g gs => cases (List.cons.inj h).1
  | cons f fs ih =>
    cases gs with
    | nil => cases (List.cons.inj h).1
    | cons g gs =>
      rw [moreMembers, moreMembers, List.flatMap_cons, List.flatMap_cons, List.append_assoc,
        List.append_assoc] at h
      obtain ⟨rfl, hrest⟩ := member_inj (endsWord_moreMembers fs) (endsWord_moreMembers gs)
        (List.cons.inj h).2
      rw [ih hrest]

/-- The fields between the braces are the first one and those behind it. -/
theorem intercalate_members (f : String × Value) (fs : List (String × Value)) :
    [','].intercalate ((f :: fs).map (String.toList ∘ member)) ++ ['\x7d'] =
      (member f).toList ++ moreMembers fs := by
  induction fs generalizing f with
  | nil => simp [moreMembers]
  | cons g fs ih =>
    have hrest := ih g
    rw [List.map_cons] at hrest
    rw [List.map_cons, List.map_cons, List.intercalate_cons_cons, List.append_assoc, hrest]
    simp [moreMembers]

/-- An object is written with its first field in front of the others. -/
theorem toList_object_cons (f : String × Value) (fs : List (String × Value)) :
    (object (f :: fs)).toList = '\x7b' :: ((member f).toList ++ moreMembers fs) := by
  have hobject : object (f :: fs) =
      "\x7b" ++ ",".intercalate ((f :: fs).map member) ++ "\x7d" := rfl
  rw [← intercalate_members, hobject]
  simp [String.toList_intercalate]

/-- An object is told by its fields. -/
theorem object_inj {f g : String × Value} {fs gs : List (String × Value)}
    (h : object (f :: fs) = object (g :: gs)) : f :: fs = g :: gs := by
  have hlist := congrArg String.toList h
  rw [toList_object_cons, toList_object_cons] at hlist
  obtain ⟨rfl, hrest⟩ := member_inj (endsWord_moreMembers fs) (endsWord_moreMembers gs)
    (List.cons.inj hlist).2
  rw [moreMembers_inj hrest]

/-! ## Records -/

/-- The value of a field, if it is a number. -/
def number? : Option Value → Option Nat
  | some (.number n) => some n
  | _ => none

/-- The value of a field, if it is a text. -/
def text? : Option Value → Option String
  | some (.text s) => some s
  | _ => none

/-- The record with given fields. -/
def ofFields (fields : List (String × Value)) : Record where
  kind := (text? (fields.lookup "kind")).getD ""
  start := number? (fields.lookup "start")
  stop := number? (fields.lookup "end")
  text := text? (fields.lookup "text")
  directive := text? (fields.lookup "directive")
  quote := text? (fields.lookup "quote")
  code := text? (fields.lookup "code")

/-- A field that is left out is read as absent. -/
theorem ofFields_fields (r : Record) : ofFields (fields r) = r := by
  obtain ⟨kind, start, stop, text, directive, quote, code⟩ := r
  cases start <;> cases stop <;> cases text <;> cases directive <;> cases quote <;> cases code
  all_goals rfl

/-- The fields behind the kind. -/
def moreFields (r : Record) : List (String × Value) :=
  (fields r).tail

/-- The first field of a record is its kind. -/
theorem fields_eq_cons (r : Record) : fields r = ("kind", .text r.kind) :: moreFields r :=
  rfl

/-- A record is told by its line. -/
theorem line_inj {r r' : Record} (h : line r = line r') : r = r' := by
  rw [line, line, fields_eq_cons, fields_eq_cons] at h
  have hfields := object_inj h
  rw [← fields_eq_cons, ← fields_eq_cons] at hfields
  rw [← ofFields_fields r, hfields, ofFields_fields]

/-! ## Kinds and line feeds -/

/-- A character of a kind stands for itself. -/
theorem escape_of_inKind {c : Char} (h : inKind c = true) : escape c = [c] := by
  have hc := escaped c
  generalize escape c = written at hc ⊢
  cases hc with
  | letter hl =>
    have hall : ∀ p ∈ letters, inKind p.1 = false := by decide
    have hnot := hall _ (mem_letters hl)
    simp [h] at hnot
  | code hlt =>
    have hall : ∀ n : Fin 32, inKind (Char.ofNat n) = false := by decide
    have hnot := hall ⟨c.toNat, hlt⟩
    simp [h] at hnot
  | plain hnone hle => rfl

/-- A kind is written as it is. -/
theorem flatMap_escape_of_inKind {xs : List Char} (h : ∀ c ∈ xs, inKind c = true) :
    xs.flatMap escape = xs := by
  induction xs with
  | nil => rfl
  | cons c xs ih =>
    rw [List.forall_mem_cons] at h
    rw [List.flatMap_cons, escape_of_inKind h.1, ih h.2, List.singleton_append]

/-- The kind of a record is the first of its sort behind the first colon. -/
theorem firstKind_line {r : Record} (hne : r.kind.toList ≠ [])
    (hkind : ∀ c ∈ r.kind.toList, inKind c = true) :
    firstKind ((line r).toList.dropWhile (· != ':')) = r.kind.toList := by
  have hline : (line r).toList = '\x7b' :: ((string "kind").toList ++
      (':' :: ((string r.kind).toList ++ moreMembers (moreFields r)))) := by
    rw [line, fields_eq_cons, toList_object_cons]
    simp [member, Value.render]
  have hname : ∀ c ∈ '\x7b' :: (string "kind").toList, (c != ':') = true := by
    rw [← List.all_eq_true]
    decide
  have hcolon : EndsWord (· != ':')
      (':' :: ((string r.kind).toList ++ moreMembers (moreFields r))) := endsWord_cons rfl
  have hdrop := dropWhile_word hname hcolon
  rw [List.cons_append] at hdrop
  rw [hline, hdrop, toList_string_append, flatMap_escape_of_inKind hkind]
  have hmarks : ∀ c ∈ [':', '"'], inKind c = false :=
    List.forall_mem_cons.mpr ⟨rfl, List.forall_mem_singleton.mpr rfl⟩
  exact firstKind_append hmarks hkind hne (endsWord_cons (by decide))

/-- No escaped character breaks a line. -/
theorem newline_not_mem_escape (c : Char) : '\n' ∉ escape c := by
  have hc := escaped c
  generalize escape c = written at hc ⊢
  cases hc with
  | letter hl =>
    have hall : ∀ p ∈ letters, '\n' ∉ ['\\', p.2] := by decide
    exact hall _ (mem_letters hl)
  | code hlt =>
    have hall : ∀ n : Fin 32, '\n' ∉ code (Char.ofNat n) := by decide
    have hnot := hall ⟨c.toNat, hlt⟩
    simpa using hnot
  | plain hnone hle =>
    rw [List.mem_singleton]
    rintro rfl
    cases hnone

/-- No text breaks a line. -/
theorem newline_not_mem_string (text : String) : '\n' ∉ (string text).toList := by
  have hnot := newline_not_mem_escape
  simp [string, hnot]

/-- No field breaks a line. -/
theorem newline_not_mem_member (f : String × Value) : '\n' ∉ (member f).toList := by
  have hname := newline_not_mem_string f.1
  have hvalue : '\n' ∉ f.2.render.toList := by
    cases f.2 with
    | number n => exact not_mem_number (by decide)
    | text s => exact newline_not_mem_string s
  simp [member, hname, hvalue]

/-- A line holds no line feed. -/
theorem newline_not_mem_line (r : Record) : '\n' ∉ (line r).toList := by
  rw [line, fields_eq_cons, toList_object_cons]
  have hmember := newline_not_mem_member
  simp [moreMembers, hmember]

end TemplateLexer.Report.Json
