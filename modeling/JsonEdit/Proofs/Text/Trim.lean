import JsonEdit.Text.Blank
import Mathlib.Data.List.DropRight

/-!
# Trimming

A text that neither begins nor ends with a blank is what is left of it when blanks are put
around it and removed again.  The blanks in front and those behind are removed by two passes,
and the second one does not see what the first one has left at the front, unless nothing is left
at all.
-/

namespace JsonEdit.Text

/-- A text that neither begins nor ends with a blank. -/
structure Tight (cs : List Char) : Prop where
  head : ∀ c, cs.head? = some c → isBlank c = false
  last : ∀ c, cs.getLast? = some c → isBlank c = false

theorem trimChars_eq_rdropWhile (cs : List Char) :
    trimChars cs = (cs.dropWhile isBlank).rdropWhile isBlank := rfl

/-- Blanks behind a text go before anything else does. -/
theorem rdropWhile_append {back : List Char} (hback : allBlank back = true) (cs : List Char) :
    (cs ++ back).rdropWhile isBlank = cs.rdropWhile isBlank := by
  have hreverse : ∀ c ∈ back.reverse, isBlank c = true := by
    intro c hc
    exact List.all_eq_true.mp hback c (List.mem_reverse.mp hc)
  rw [List.rdropWhile, List.reverse_append, List.dropWhile_append_of_pos hreverse]
  rfl

/-- Blanks around a text change nothing of what is left of it.  If the text is blank itself, the
removal from the front goes on through the blanks behind it. -/
theorem trimChars_surround {front back : List Char} (hfront : allBlank front = true)
    (hback : allBlank back = true) (cs : List Char) :
    trimChars (front ++ cs ++ back) = trimChars cs := by
  rw [trimChars_eq_rdropWhile, trimChars_eq_rdropWhile, List.append_assoc,
    List.dropWhile_append_of_pos (List.all_eq_true.mp hfront), List.dropWhile_append]
  by_cases hempty : cs.dropWhile isBlank = []
  · have hdrop : back.dropWhile isBlank = [] :=
      List.dropWhile_eq_nil_iff.mpr (List.all_eq_true.mp hback)
    simp [hempty, hdrop]
  · simp only [List.isEmpty_iff, hempty, if_false]
    exact rdropWhile_append hback _

theorem trimChars_of_tight {cs : List Char} (h : Tight cs) : trimChars cs = cs := by
  have hfront : cs.dropWhile isBlank = cs := by
    cases cs with
    | nil => rfl
    | cons c rest => simp [h.head c rfl]
  have hback : cs.rdropWhile isBlank = cs := by
    rw [List.rdropWhile_eq_self_iff]
    intro hne
    rw [h.last _ (List.getLast?_eq_some_getLast hne)]
    exact Bool.false_ne_true
  rw [trimChars_eq_rdropWhile, hfront, hback]

end JsonEdit.Text
