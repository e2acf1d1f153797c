/-!
# Lines of a text

A text is cut into lines at line feeds and nowhere else: a carriage return stays in its line. A
text without a line feed is one line, so there is always a first line, and a text that ends in a
line feed has an empty last line.
-/

set_option autoImplicit false

namespace PrologTokens.Text

/-- The lines of a text, without the line feeds that separate them. -/
def lines : List Char → List (List Char)
  | [] => [[]]
  | c :: text =>
    if c = '\n' then [] :: lines text
    else
      match lines text with
      | [] => [[c]]
      | line :: others => (c :: line) :: others

/-- Every text has a first line. -/
theorem lines_ne_nil (text : List Char) : lines text ≠ [] := by
  cases text with
  | nil => simp [lines]
  | cons c text =>
    rw [lines]
    split
    · simp
    · split <;> simp

/-- The lines, put together again with line feeds between them, are the text. -/
theorem intercalate_lines (text : List Char) : ['\n'].intercalate (lines text) = text := by
  induction text with
  | nil => simp [lines]
  | cons c text ih =>
    rw [lines]
    split
    · rename_i h
      subst h
      cases hl : lines text with
      | nil => exact absurd hl (lines_ne_nil text)
      | cons line others => rw [hl] at ih; simp [List.intercalate, ← ih]
    · split
      · rename_i hl
        exact absurd hl (lines_ne_nil text)
      · rename_i line others hl
        rw [hl] at ih
        cases others <;> simp_all [List.intercalate]

/-- No line holds a line feed. -/
theorem newline_not_mem_of_mem_lines {text line : List Char} (h : line ∈ lines text) :
    '\n' ∉ line := by
  induction text generalizing line with
  | nil => simp [lines] at h; simp [h]
  | cons c text ih =>
    rw [lines] at h
    split at h
    · rcases List.mem_cons.1 h with rfl | h
      · simp
      · exact ih h
    · rename_i hc
      split at h
      · rename_i hl
        exact absurd hl (lines_ne_nil text)
      · rename_i first others hl
        rcases List.mem_cons.1 h with rfl | h
        · have := @ih first (by simp [hl])
          simp only [List.mem_cons, not_or]
          exact ⟨fun hn => hc hn.symm, this⟩
        · exact ih (by simp [hl, h])

end PrologTokens.Text
