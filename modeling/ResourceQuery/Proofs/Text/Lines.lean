/-!
# Lines

A text is cut into lines behind each of its line breaks. There are as many lines as line breaks, and
what stands behind a line break is cut as if nothing stood in front of it.
-/

namespace ResourceQuery.Text

/-- The lines of a text that a line break ends, without it, and what stands behind the last one. -/
def lines : List Char → List (List Char) × List Char
  | [] => ([], [])
  | c :: cs =>
    if c = '\n' then ([] :: (lines cs).1, (lines cs).2)
    else
      match (lines cs).1 with
      | [] => ([], c :: (lines cs).2)
      | line :: later => ((c :: line) :: later, (lines cs).2)

theorem lines_break (cs : List Char) : lines ('\n' :: cs) = ([] :: (lines cs).1, (lines cs).2) :=
  rfl

/-- An unbroken text in front of a line belongs to it. -/
theorem lines_of_unbroken {line : List Char} (h : '\n' ∉ line) (rest : List Char) :
    lines (line ++ '\n' :: rest) = (line :: (lines rest).1, (lines rest).2) := by
  induction line with
  | nil => exact lines_break rest
  | cons c line ih =>
    have hc : c ≠ '\n' := fun hc => h (hc ▸ List.mem_cons_self)
    have hline : '\n' ∉ line := fun hmem => h (List.mem_cons_of_mem c hmem)
    rw [List.cons_append, lines, if_neg hc, ih hline]

/-- Each line break ends a line. -/
theorem length_lines (cs : List Char) : (lines cs).1.length = cs.count '\n' := by
  induction cs with
  | nil => rfl
  | cons c cs ih =>
    by_cases hc : c = '\n'
    · subst hc
      rw [lines_break, List.length_cons, ih, List.count_cons_self]
    · rw [List.count_cons_of_ne hc, ← ih, lines, if_neg hc]
      split
      next hnone => rw [hnone]
      next line later hsome => rw [hsome, List.length_cons, List.length_cons]

/-- A text up to a line break is cut into lines by itself. -/
theorem lines_append_break (cs rest : List Char) :
    lines (cs ++ '\n' :: rest) =
      ((lines (cs ++ ['\n'])).1 ++ (lines rest).1, (lines rest).2) := by
  induction cs with
  | nil => rfl
  | cons c cs ih =>
    by_cases hc : c = '\n'
    · subst hc
      rw [List.cons_append, List.cons_append, lines_break, lines_break, ih]
      rfl
    · -- there is a line behind the character, so that it belongs to that line
      have hlength : (lines (cs ++ ['\n'])).1.length = cs.count '\n' + 1 := by
        rw [length_lines, List.count_append]
        rfl
      obtain ⟨line, later, hlines⟩ :=
        List.exists_cons_of_ne_nil (List.ne_nil_of_length_eq_add_one hlength)
      rw [List.cons_append, List.cons_append, lines, lines, if_neg hc, if_neg hc, ih, hlines]
      rfl

/-- Texts that each end with a line break are cut into lines one by one. -/
theorem lines_flatMap {α : Type} (text : α → List Char) (items : List α) :
    lines (items.flatMap fun item => text item ++ ['\n']) =
      (items.flatMap fun item => (lines (text item ++ ['\n'])).1, []) := by
  induction items with
  | nil => rfl
  | cons item items ih =>
    rw [List.flatMap_cons, List.flatMap_cons, List.append_assoc, List.singleton_append,
      lines_append_break, ih]

end ResourceQuery.Text
