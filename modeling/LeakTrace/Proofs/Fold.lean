import Mathlib.Algebra.GroupWithZero.Nat

namespace LeakTrace

variable {α β : Type} {f : β → α → β} {Q : β → Prop} {R : α → Prop}

theorem of_foldl (h : ∀ b a, Q (f b a) → Q b ∨ R a) {l : List α} {b : β}
    (hl : Q (l.foldl f b)) : Q b ∨ ∃ a ∈ l, R a := by
  induction l generalizing b with
  | nil => exact .inl hl
  | cons a l ih =>
    rcases ih hl with hstep | ⟨c, hc, hR⟩
    · refine (h b a hstep).imp_right fun hR => ?_
      exact ⟨a, List.mem_cons_self, hR⟩
    · exact .inr ⟨c, List.mem_cons_of_mem a hc, hR⟩

theorem foldl_iff (h : ∀ b a, Q (f b a) ↔ Q b ∨ R a) (l : List α) (b : β) :
    Q (l.foldl f b) ↔ Q b ∨ ∃ a ∈ l, R a := by
  induction l generalizing b with
  | nil => simp
  | cons a l ih =>
    rw [List.foldl_cons, ih, h, or_assoc]
    simp only [List.mem_cons, exists_eq_or_imp]

variable {count : β → Nat}

theorem foldl_sum {weight : α → Nat} (h : ∀ b a, count (f b a) = count b + weight a) (l : List α)
    (b : β) : count (l.foldl f b) = count b + (l.map weight).sum := by
  induction l generalizing b with
  | nil => rfl
  | cons a l ih => rw [List.foldl_cons, ih, h, List.map_cons, List.sum_cons, Nat.add_assoc]

theorem foldl_countP {p : α → Bool} (h : ∀ b a, count (f b a) = count b + if p a then 1 else 0)
    (l : List α) (b : β) : count (l.foldl f b) = count b + l.countP p := by
  induction l generalizing b with
  | nil => rfl
  | cons a l ih =>
    rw [List.foldl_cons, ih, h, List.countP_cons]
    omega

end LeakTrace
