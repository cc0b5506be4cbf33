import TemplateLexer.Command.Run

/-!
# Reading a report back

A report is a text of lines, and a line is made of words and numbers. A word ends at the first
character that is none of its own (`word_inj`), so a number ends at the first character that is no
digit (`number_inj`). The lines of a text are read back from it as long as none of them holds a
line feed itself (`linesOf_unlines`).
-/

set_option autoImplicit false

namespace TemplateLexer.Report

/-! ## Words -/

section

variable {p : Char → Bool} {xs ys u v : List Char}

/-- No character of a kind stands at the front of a text. -/
def EndsWord (p : Char → Bool) (u : List Char) : Prop :=
  ∀ c, u.head? = some c → p c = false

/-- A word ends in front of a character that is none of its own. -/
theorem endsWord_cons {c : Char} (h : p c = false) : EndsWord p (c :: u) := by
  intro b hb
  rwa [← Option.some.inj hb]

/-- A word is read up to its end. -/
theorem takeWhile_word (hxs : ∀ c ∈ xs, p c = true) (hu : EndsWord p u) :
    (xs ++ u).takeWhile p = xs := by
  rw [List.takeWhile_append_of_pos hxs]
  cases u with
  | nil => exact List.append_nil xs
  | cons c u => rw [List.takeWhile_cons_of_neg (by simp [hu c rfl]), List.append_nil]

/-- What stands behind a word is left when it is read. -/
theorem dropWhile_word (hxs : ∀ c ∈ xs, p c = true) (hu : EndsWord p u) :
    (xs ++ u).dropWhile p = u := by
  have hsplit := List.takeWhile_append_dropWhile (p := p) (l := xs ++ u)
  rw [takeWhile_word hxs hu] at hsplit
  exact List.append_cancel_left hsplit

/-- A word is told from what stands behind it. -/
theorem word_inj (hxs : ∀ c ∈ xs, p c = true) (hys : ∀ c ∈ ys, p c = true) (hu : EndsWord p u)
    (hv : EndsWord p v) (h : xs ++ u = ys ++ v) : xs = ys ∧ u = v := by
  have htake := congrArg (List.takeWhile p) h
  have hdrop := congrArg (List.dropWhile p) h
  rw [takeWhile_word hxs hu, takeWhile_word hys hv] at htake
  rw [dropWhile_word hxs hu, dropWhile_word hys hv] at hdrop
  exact ⟨htake, hdrop⟩

end

/-! ## Numbers -/

/-- A number is written with its decimal digits. -/
theorem toList_number (n : Nat) : (toString n).toList = Nat.toDigits 10 n :=
  Nat.toList_repr

/-- A number is written with digits only. -/
theorem isDigit_of_mem_number {n : Nat} {c : Char} (h : c ∈ (toString n).toList) :
    c.isDigit = true := by
  rw [toList_number] at h
  exact Nat.isDigit_of_mem_toDigits (by decide) (by decide) h

/-- A character that is no digit occurs in no number. -/
theorem not_mem_number {n : Nat} {c : Char} (h : c.isDigit = false) : c ∉ (toString n).toList := by
  intro hmem
  rw [isDigit_of_mem_number hmem] at h
  cases h

/-- A number is told by its digits. -/
theorem eq_of_number_eq {m n : Nat} (h : (toString m).toList = (toString n).toList) : m = n := by
  rw [toList_number, toList_number] at h
  have hvalue := congrArg (Nat.ofDigitChars 10 · 0) h
  simpa only [Nat.ofDigitChars_ten_toDigits] using hvalue

/-- A number is told from what stands behind it. -/
theorem number_inj {m n : Nat} {u v : List Char} (hu : EndsWord Char.isDigit u)
    (hv : EndsWord Char.isDigit v) (h : (toString m).toList ++ u = (toString n).toList ++ v) :
    m = n ∧ u = v := by
  obtain ⟨hdigits, hrest⟩ := word_inj (fun _ => isDigit_of_mem_number)
    (fun _ => isDigit_of_mem_number) hu hv h
  exact ⟨eq_of_number_eq hdigits, hrest⟩

end TemplateLexer.Report

namespace TemplateLexer.Command

/-! ## Lines -/

/-- The lines of a text, without the line feeds that end them. -/
def linesOf (text : String) : List String :=
  (text.toList.splitOn '\n').dropLast.map String.ofList

/-- Lines are written with a line feed behind each. -/
theorem toList_unlines (lines : List String) :
    (unlines lines).toList = lines.flatMap fun line => line.toList ++ ['\n'] := by
  have hfold : ∀ (ls : List String) (written : String),
      (ls.foldl (fun written line => written ++ line ++ "\n") written).toList =
        written.toList ++ ls.flatMap fun line => line.toList ++ ['\n'] := by
    intro ls
    induction ls with
    | nil => intro written; simp
    | cons l ls ih => intro written; simp [ih]
  simpa [unlines] using hfold lines ""

/-- Lines without a line feed of their own are the pieces of their text, and nothing stands behind
the last one. -/
theorem splitOn_unlines {lines : List String} (h : ∀ line ∈ lines, '\n' ∉ line.toList) :
    (unlines lines).toList.splitOn '\n' = lines.map String.toList ++ [[]] := by
  rw [toList_unlines]
  induction lines with
  | nil => rfl
  | cons line lines ih =>
    rw [List.forall_mem_cons] at h
    rw [List.flatMap_cons, List.append_assoc, List.singleton_append,
      List.splitOn_append_cons_self_of_not_mem h.1, ih h.2]
    rfl

/-- Lines without a line feed of their own can be read back. -/
theorem linesOf_unlines {lines : List String} (h : ∀ line ∈ lines, '\n' ∉ line.toList) :
    linesOf (unlines lines) = lines := by
  rw [linesOf, splitOn_unlines h, List.dropLast_concat, List.map_map]
  simp [Function.comp_def]

end TemplateLexer.Command
