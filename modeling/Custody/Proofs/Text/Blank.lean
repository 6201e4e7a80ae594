import Custody.Text.Blank

/-! # Blanks at the ends of a text

What is trimmed from a text without blanks are the blanks that were put around it.
-/

namespace Custody.Blank

private theorem dropWhile_solid {cs : List Char} (solid : ∀ c ∈ cs, isBlank c = false) :
    cs.dropWhile isBlank = cs := by
  cases cs with
  | nil => rfl
  | cons c cs => rw [List.dropWhile_cons_of_neg (by simp [solid c List.mem_cons_self])]

/-- Blanks around a text without blanks are all that is trimmed. -/
theorem trim_append_append {before text after : String}
    (blankBefore : ∀ c ∈ before.toList, isBlank c = true)
    (solid : ∀ c ∈ text.toList, isBlank c = false)
    (blankAfter : ∀ c ∈ after.toList, isBlank c = true) :
    trim (before ++ text ++ after) = text := by
  have solid' : ∀ c ∈ text.toList.reverse, isBlank c = false :=
    fun c member => solid c (List.mem_reverse.mp member)
  have blankAfter' : ∀ c ∈ after.toList.reverse, isBlank c = true :=
    fun c member => blankAfter c (List.mem_reverse.mp member)
  rw [trim, String.toList_append, String.toList_append, List.append_assoc,
    List.dropWhile_append_of_pos blankBefore]
  cases empty : text.toList with
  | nil =>
    have none : after.toList.dropWhile isBlank = [] := by
      rw [← List.append_nil after.toList, List.dropWhile_append_of_pos blankAfter,
        List.dropWhile_nil]
    rw [List.nil_append, none, List.reverse_nil, List.dropWhile_nil, List.reverse_nil, ← empty,
      String.ofList_toList]
  | cons c cs =>
    have first : isBlank c = false := solid c (empty ▸ List.mem_cons_self)
    rw [List.cons_append, List.dropWhile_cons_of_neg (by simp [first]), ← List.cons_append, ← empty,
      List.reverse_append, List.dropWhile_append_of_pos blankAfter', dropWhile_solid solid',
      List.reverse_reverse, String.ofList_toList]

theorem trim_eq_self {text : String} (solid : ∀ c ∈ text.toList, isBlank c = false) :
    trim text = text := by
  have bare : trim ("" ++ text ++ "") = text := trim_append_append (by simp) solid (by simp)
  rwa [String.empty_append, String.append_empty] at bare

end Custody.Blank
