import Mathlib.Data.List.Basic

namespace LeakTrace

variable {α : Type} [DecidableEq α] {a : α} {seen l : List α}

/-- The elements that are not seen before, each once, in order. -/
def unseen (seen l : List α) : List α := (l.filter (· ∉ seen)).eraseDups

theorem unseen_nil (l : List α) : unseen [] l = l.eraseDups := by simp [unseen]

theorem unseen_cons_of_mem (h : a ∈ seen) : unseen seen (a :: l) = unseen seen l := by
  rw [unseen, List.filter_cons_of_neg (by simpa using h), unseen]

theorem unseen_cons_of_not_mem (h : a ∉ seen) :
    unseen seen (a :: l) = a :: unseen (seen ++ [a]) l := by
  have hlater : (l.filter (· ∉ seen)).filter (fun b => !b == a) = l.filter (· ∉ seen ++ [a]) := by
    rw [List.filter_filter]
    refine List.filter_congr fun b _ => ?_
    by_cases hb : b = a <;> simp [hb]
  rw [unseen, List.filter_cons_of_pos (by simpa using h), List.eraseDups_cons, hlater, unseen]

theorem unseen_concat_of_mem (h : a ∈ seen) : unseen (seen ++ [a]) l = unseen seen l := by
  have hsame : l.filter (· ∉ seen ++ [a]) = l.filter (· ∉ seen) := by
    refine List.filter_congr fun b _ => ?_
    by_cases hb : b = a <;> simp [hb, h]
  rw [unseen, hsame, unseen]

end LeakTrace
