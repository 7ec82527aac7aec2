import LeakTrace.Text.Blank
import Mathlib.Data.List.DropRight

namespace LeakTrace.Text

variable {c : Char} {a b cs : List Char}

theorem isBlank_of_isAlphanum (h : c.isAlphanum = true) : isBlank c = false := by
  have hrange : (48 ≤ c.toNat ∧ c.toNat ≤ 57) ∨ (65 ≤ c.toNat ∧ c.toNat ≤ 90) ∨
      97 ≤ c.toNat ∧ c.toNat ≤ 122 := by
    change (decide (65 ≤ c.val ∧ c.val ≤ 90) || decide (97 ≤ c.val) && decide (c.val ≤ 122) ||
      decide (48 ≤ c.val) && decide (c.val ≤ 57)) = true at h
    simp only [Bool.or_eq_true, Bool.and_eq_true, decide_eq_true_eq, UInt32.le_iff_toNat_le] at h
    rcases h with (h | h) | h
    · exact .inr (.inl h)
    · exact .inr (.inr h)
    · exact .inl h
  simp only [isBlank, Bool.or_eq_false_iff, Bool.and_eq_false_iff, decide_eq_false_iff_not,
    beq_eq_false_iff_ne]
  omega

theorem trimEnd_append_cons (hc : isBlank c = false) :
    trimEnd (a ++ c :: b) = a ++ c :: trimEnd b := by
  have hreverse : (a ++ c :: b).reverse = b.reverse ++ c :: a.reverse := by simp
  rw [trimEnd, trimEnd, hreverse, List.dropWhile_append]
  split
  · next hall => simp [hc, List.isEmpty_iff.mp hall]
  · simp

theorem trimEnd_concat (hc : isBlank c = true) : trimEnd (cs ++ [c]) = trimEnd cs := by
  simp [trimEnd, hc]

theorem trimStart_append_cons (ha : ∀ d ∈ a, isBlank d = true) (hc : isBlank c = false) :
    trimStart (a ++ c :: b) = c :: b := by
  rw [trimStart, List.dropWhile_append_of_pos ha]
  exact trimStart_cons_of_not hc

theorem blank_cases (cs : List Char) :
    (∀ d ∈ cs, isBlank d = true) ∨
      ∃ a c b, cs = a ++ c :: b ∧ (∀ d ∈ a, isBlank d = true) ∧ isBlank c = false := by
  induction cs with
  | nil => exact .inl (by simp)
  | cons d cs ih =>
    cases hd : isBlank d with
    | false => exact .inr ⟨[], d, cs, rfl, by simp, hd⟩
    | true =>
      rcases ih with hall | ⟨a, c, b, rfl, ha, hc⟩
      · exact .inl (List.forall_mem_cons.mpr ⟨hd, hall⟩)
      · exact .inr ⟨d :: a, c, b, rfl, List.forall_mem_cons.mpr ⟨hd, ha⟩, hc⟩

theorem trimStart_of_blanks (h : ∀ d ∈ cs, isBlank d = true) : trimStart cs = [] :=
  List.dropWhile_eq_nil_iff.mpr h

theorem trimEnd_of_blanks (h : ∀ d ∈ cs, isBlank d = true) : trimEnd cs = [] := by
  simpa [trimEnd, List.dropWhile_eq_nil_iff] using h

theorem trim_of_blanks (h : ∀ d ∈ cs, isBlank d = true) : trim cs = [] := by
  rw [trim, trimStart_of_blanks h, trimEnd_nil]

theorem trim_trimEnd (cs : List Char) : trim (trimEnd cs) = trim cs := by
  rcases blank_cases cs with hall | ⟨a, c, b, rfl, ha, hc⟩
  · rw [trimEnd_of_blanks hall, trim_nil, trim_of_blanks hall]
  · have htwice : trimEnd (trimEnd b) = trimEnd b := by
      simp [trimEnd, List.dropWhile_idempotent]
    rw [trim, trim, trimEnd_append_cons hc, trimStart_append_cons ha hc,
      trimStart_append_cons ha hc, ← List.nil_append (c :: trimEnd b), ← List.nil_append (c :: b),
      trimEnd_append_cons hc, trimEnd_append_cons hc, htwice]

/-- No word reaches over a blank. -/
theorem words_append_blank (hc : isBlank c = true) (a b : List Char) :
    words (a ++ c :: b) = words a ++ words b := by
  rw [words, List.splitOnP_append_cons a b hc, List.filter_append]
  rfl

theorem words_eq_singleton (h : ∀ d ∈ cs, isBlank d = false) (hne : cs ≠ []) : words cs = [cs] := by
  rw [words, List.splitOnP_eq_singleton h]
  simp [hne]

theorem words_append_cons (ha : ∀ d ∈ a, isBlank d = false) (hb : ∀ d ∈ b, isBlank d = false)
    (hane : a ≠ []) (hbne : b ≠ []) (hc : isBlank c = true) : words (a ++ c :: b) = [a, b] := by
  rw [words_append_blank hc, words_eq_singleton ha hane, words_eq_singleton hb hbne]
  rfl

private theorem splitOnP_pieces (p : Char → Bool) (cs : List Char) :
    ∃ first rest, cs.splitOnP p = first :: rest ∧ first <+: cs ∧ ∀ w ∈ rest, w <:+: cs := by
  induction cs with
  | nil => exact ⟨[], [], List.splitOnP_nil, List.prefix_rfl, by simp⟩
  | cons c cs ih =>
    obtain ⟨first, rest, hsplit, hfirst, hrest⟩ := ih
    have hcons : cs <:+: c :: cs := (List.suffix_cons c cs).isInfix
    rw [List.splitOnP_cons_eq_if_modifyHead, hsplit]
    split
    · refine ⟨[], first :: rest, rfl, List.nil_prefix, List.forall_mem_cons.mpr ⟨?_, ?_⟩⟩
      · exact hfirst.isInfix.trans hcons
      · exact fun w hw => (hrest w hw).trans hcons
    · refine ⟨c :: first, rest, rfl, List.cons_prefix_cons.mpr ⟨rfl, hfirst⟩, ?_⟩
      exact fun w hw => (hrest w hw).trans hcons

theorem infix_of_mem_words (h : a ∈ words cs) : a <:+: cs := by
  obtain ⟨first, rest, hsplit, hfirst, hrest⟩ := splitOnP_pieces isBlank cs
  have hpiece : a ∈ first :: rest := hsplit ▸ List.mem_of_mem_filter h
  rcases List.mem_cons.mp hpiece with rfl | hlater
  · exact hfirst.isInfix
  · exact hrest a hlater

theorem exists_trim (cs : List Char) : ∃ front behind, cs = front ++ trim cs ++ behind ∧
    (∀ d ∈ front, isBlank d = true) ∧ ∀ d ∈ behind, isBlank d = true := by
  refine ⟨cs.takeWhile isBlank, ((trimStart cs).reverse.takeWhile isBlank).reverse, ?_, ?_, ?_⟩
  · rw [trim, trimEnd, List.append_assoc, ← List.reverse_append, List.takeWhile_append_dropWhile,
      List.reverse_reverse, trimStart, List.takeWhile_append_dropWhile]
  · exact fun d hd => List.mem_takeWhile_imp hd
  · exact fun d hd => List.mem_takeWhile_imp (List.mem_reverse.mp hd)

theorem trim_eq_nil_iff : trim cs = [] ↔ ∀ c ∈ cs, isBlank c = true := by
  refine ⟨fun h => ?_, trim_of_blanks⟩
  obtain ⟨front, behind, hcs, hfront, hbehind⟩ := exists_trim cs
  rw [h, List.append_nil] at hcs
  intro c hc
  rw [hcs] at hc
  exact (List.mem_append.mp hc).elim (hfront c) (hbehind c)

theorem trim_blanks_append (ha : ∀ d ∈ a, isBlank d = true) : trim (a ++ cs) = trim cs := by
  rw [trim, trim, trimStart, List.dropWhile_append_of_pos ha, trimStart]

theorem trim_cons_blank (hc : isBlank c = true) (cs : List Char) : trim (c :: cs) = trim cs :=
  trim_blanks_append (a := [c]) (List.forall_mem_singleton.mpr hc)

theorem trim_append_blanks (hb : ∀ d ∈ b, isBlank d = true) : trim (cs ++ b) = trim cs := by
  have hend : trimEnd (cs ++ b) = trimEnd cs := by
    rw [trimEnd, List.reverse_append, List.dropWhile_append_of_pos, trimEnd]
    exact fun d hd => hb d (List.mem_reverse.mp hd)
  rw [← trim_trimEnd, hend, trim_trimEnd]

theorem trim_concat_blank (hc : isBlank c = true) (cs : List Char) : trim (cs ++ [c]) = trim cs :=
  trim_append_blanks (List.forall_mem_singleton.mpr hc)

theorem trim_framed (hane : a ≠ []) (hbne : b ≠ []) (ha : ∀ c ∈ a.head?, isBlank c = false)
    (hb : ∀ c ∈ b.getLast?, isBlank c = false) (cs : List Char) :
    trim (a ++ cs ++ b) = a ++ cs ++ b := by
  refine trim_eq_self ?_ ?_
  · rwa [List.append_assoc, List.head?_append_of_ne_nil _ hane]
  · rwa [List.getLast?_append_of_ne_nil _ hbne]

theorem trim_trim (cs : List Char) : trim (trim cs) = trim cs := by
  obtain ⟨front, behind, hcs, hfront, hbehind⟩ := exists_trim cs
  conv_rhs => rw [hcs, trim_append_blanks hbehind, trim_blanks_append hfront]

end LeakTrace.Text
