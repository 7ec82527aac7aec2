import LeakTrace.Text.Blank
import LeakTrace.Text.Cut
import LeakTrace.Text.Decimal
import Mathlib.Data.List.Infix

namespace LeakTrace.Text

variable {mark : String} {c : Char} {a b cs : List Char}

theorem Has.mem (h : Has mark cs) (hc : c ∈ mark.toList) : c ∈ cs := h.subset hc

theorem Has.mono (h : Has mark a) (ha : a <:+: cs) : Has mark cs := h.trans ha

theorem prefix_append_cons {p : List Char} (hc : c ∉ p) (h : p <+: a ++ c :: b) : p <+: a := by
  obtain ⟨rest, hrest⟩ := h
  rcases List.append_eq_append_iff.mp hrest with ⟨short, rfl, -⟩ | ⟨excess, rfl, hexcess⟩
  · exact List.prefix_append p short
  · cases excess with
    | nil => simp
    | cons d excess =>
      obtain rfl : c = d := (List.cons.inj hexcess).1
      exact absurd (List.mem_append_right a List.mem_cons_self) hc

theorem has_append_cons (hc : c ∉ mark.toList) :
    Has mark (a ++ c :: b) ↔ Has mark a ∨ Has mark b := by
  constructor
  · intro h
    induction a with
    | nil =>
      rcases List.infix_cons_iff.mp h with hhere | hlater
      · exact .inl (prefix_append_cons (a := []) hc hhere).isInfix
      · exact .inr hlater
    | cons d a ih =>
      rcases List.infix_cons_iff.mp h with hhere | hlater
      · exact .inl (prefix_append_cons (a := d :: a) hc hhere).isInfix
      · exact (ih hlater).imp_left fun ha => ha.mono (List.suffix_cons d a).isInfix
  · rintro (h | h)
    · exact h.mono (List.prefix_append a (c :: b)).isInfix
    · exact h.mono (List.append_cons a c b ▸ (List.suffix_append (a ++ [c]) b).isInfix)

/-- A mark does not reach into the text behind `a`, or out of it, where no end of `a` agrees with
its beginning. -/
theorem has_append_left (h : ∀ s ∈ a.tails, s ≠ [] → ¬s <+: mark.toList ∧ ¬mark.toList <+: s) :
    Has mark (a ++ b) ↔ Has mark b := by
  induction a with
  | nil => rfl
  | cons c a ih =>
    obtain ⟨hshort, hlong⟩ := h (c :: a) (by simp) (by simp)
    have hlater : ∀ s ∈ a.tails, s ≠ [] → ¬s <+: mark.toList ∧ ¬mark.toList <+: s := fun s hs =>
      h s (List.mem_cons_of_mem _ hs)
    have hnot : ¬mark.toList <+: c :: (a ++ b) := fun hbegins =>
      (List.prefix_or_prefix_of_prefix hbegins (List.prefix_append (c :: a) b)).elim hlong hshort
    rw [List.cons_append, Has, List.infix_cons_iff]
    exact (or_iff_right hnot).trans (ih hlater)

/-- The same for a text that stands behind, from the other side. -/
theorem has_append_right (h : ∀ s ∈ b.inits, s ≠ [] → ¬s <:+ mark.toList ∧ ¬mark.toList <:+ s) :
    Has mark (a ++ b) ↔ Has mark a := by
  induction b using List.reverseRecOn with
  | nil => rw [List.append_nil]
  | append_singleton b c ih =>
    obtain ⟨hshort, hlong⟩ := h (b ++ [c]) (by simp) (by simp)
    have hearlier : ∀ s ∈ b.inits, s ≠ [] → ¬s <:+ mark.toList ∧ ¬mark.toList <:+ s := fun s hs =>
      h s (by rw [List.mem_inits] at hs ⊢; exact hs.trans (List.prefix_append b [c]))
    have hnot : ¬mark.toList <:+ (a ++ b) ++ [c] := fun hends =>
      (List.suffix_or_suffix_of_suffix hends ⟨a, by simp⟩).elim hlong hshort
    rw [← List.append_assoc, Has, List.infix_concat_iff]
    exact (or_iff_right hnot).trans (ih hearlier)

theorem has_concat_iff {m : List Char} (hmark : mark.toList = m ++ [c]) (hc : c ∉ cs) :
    Has mark (cs ++ [c]) ↔ m <:+ cs := by
  have hnot : ¬mark.toList <:+: cs := fun h => hc (h.subset (by simp [hmark]))
  rw [Has, List.infix_concat_iff, or_iff_left hnot, hmark, List.suffix_append_inj_of_length_eq rfl]
  exact and_iff_left rfl

theorem not_has_dropLast (h : mark.toList ≠ []) : ¬Has mark mark.toList.dropLast := by
  intro hhas
  have hlength := hhas.length_le
  have hpos := List.length_pos_iff.mpr h
  rw [List.length_dropLast] at hlength
  omega

theorem cut_of_begins (b : List Char) : cut mark (mark.toList ++ b) = some ([], b) := by
  have hafter : afterPrefix mark (mark.toList ++ b) = some b := afterPrefix_eq_some.mpr rfl
  cases h : mark.toList ++ b with
  | nil => rw [cut, ← h, hafter]; rfl
  | cons c cs => rw [cut, ← h, hafter]

theorem cut_append (h : ¬Has mark (a ++ mark.toList.dropLast)) (b : List Char) :
    cut mark (a ++ mark.toList ++ b) = some (a, b) := by
  induction a with
  | nil => exact cut_of_begins b
  | cons c a ih =>
    have hlater : ¬Has mark (a ++ mark.toList.dropLast) := fun hhas =>
      h (hhas.mono (List.suffix_cons c _).isInfix)
    have hhere : afterPrefix mark (c :: (a ++ mark.toList ++ b)) = none := by
      rw [afterPrefix_eq_none]
      intro hbegins
      -- the mark that stands behind keeps its last character after one that begins here
      have hfirst : c :: a ++ mark.toList.dropLast <+: c :: (a ++ mark.toList ++ b) := by
        rw [← List.cons_append, ← List.cons_append, List.append_assoc, List.prefix_append_right_inj]
        exact (List.dropLast_prefix _).trans (List.prefix_append _ b)
      have hlength : mark.toList.length ≤ (c :: a ++ mark.toList.dropLast).length := by
        simp only [List.cons_append, List.length_cons, List.length_append, List.length_dropLast]
        omega
      exact h (List.prefix_of_prefix_length_le hbegins hfirst hlength).isInfix
    rw [List.cons_append, List.cons_append, cut, hhere, ih hlater]
    rfl

theorem cut_append_cons (hmark : mark.toList = [c]) (hc : c ∉ a) (b : List Char) :
    cut mark (a ++ c :: b) = some (a, b) := by
  have hnot : ¬Has mark (a ++ mark.toList.dropLast) := by
    rw [hmark, List.dropLast_singleton, List.append_nil]
    exact fun hhas => hc (hhas.mem (hmark ▸ List.mem_singleton_self c))
  have hcut := cut_append hnot b
  rwa [hmark, List.append_assoc, List.singleton_append] at hcut

theorem cut_concat (hc : c ∉ mark.toList) (cs : List Char) :
    cut mark (cs ++ [c]) = (cut mark cs).map fun (a, b) => (a, b ++ [c]) := by
  have hafter : ∀ cs, afterPrefix mark (cs ++ [c]) = (afterPrefix mark cs).map (· ++ [c]) := by
    intro cs
    cases h : afterPrefix mark cs with
    | none =>
      rw [afterPrefix_eq_none] at h
      exact afterPrefix_eq_none.mpr fun hbegins => h (prefix_append_cons hc hbegins)
    | some rest =>
      rw [afterPrefix_eq_some] at h
      exact afterPrefix_eq_some.mpr (by rw [h, List.append_assoc])
  induction cs with
  | nil =>
    have hhere := hafter []
    rw [List.nil_append] at hhere ⊢
    rw [cut, cut, hhere, cut]
    cases afterPrefix mark [] <;> rfl
  | cons d cs ih =>
    have hhere := hafter (d :: cs)
    rw [List.cons_append] at hhere ⊢
    rw [cut, cut, hhere]
    cases afterPrefix mark (d :: cs) with
    | some rest => rfl
    | none =>
      rw [Option.map_none, ih, Option.map_map, Option.map_map]
      rfl

theorem not_has_of_cut (h : cut mark cs = some (a, b)) (hmark : mark.toList ≠ []) :
    ¬Has mark a := by
  have hempty : ¬Has mark [] := fun hhas => hmark (List.infix_nil.mp hhas)
  induction cs generalizing a with
  | nil =>
    obtain ⟨rest, -, he⟩ := Option.map_eq_some_iff.mp h
    obtain rfl : [] = a := (Prod.mk.inj he).1
    exact hempty
  | cons c cs ih =>
    rw [cut] at h
    split at h
    · obtain rfl : [] = a := (Prod.mk.inj (Option.some.inj h)).1
      exact hempty
    · next hhere =>
      obtain ⟨⟨a', b'⟩, hlater, he⟩ := Option.map_eq_some_iff.mp h
      obtain ⟨rfl, rfl⟩ : c :: a' = a ∧ b' = b := by simpa using he
      intro hhas
      rcases List.infix_cons_iff.mp hhas with hbegins | hhas
      · refine afterPrefix_eq_none.mp hhere (hbegins.trans ⟨mark.toList ++ b', ?_⟩)
        rw [eq_of_cut hlater, List.cons_append, List.append_assoc]
      · exact ih hlater hhas

/-- A mark of one character cuts a text at the first such character and nowhere else. -/
theorem cut_eq_some_iff_of_singleton (hmark : mark.toList = [c]) :
    cut mark cs = some (a, b) ↔ c ∉ a ∧ cs = a ++ c :: b := by
  constructor
  · intro h
    have hnot := not_has_of_cut h (by simp [hmark])
    have hcs := eq_of_cut h
    rw [Has, hmark, List.singleton_infix_iff] at hnot
    rw [hmark, List.append_assoc, List.singleton_append] at hcs
    exact ⟨hnot, hcs⟩
  · rintro ⟨hnot, rfl⟩
    exact cut_append_cons hmark hnot b

theorem cut_eq_none_iff_of_singleton (hmark : mark.toList = [c]) : cut mark cs = none ↔ c ∉ cs := by
  rw [cut_eq_none, Has, hmark, List.singleton_infix_iff]

theorem cutLast_append (h : ¬Has mark (mark.toList.tail ++ b)) (a : List Char) :
    cutLast mark (a ++ mark.toList ++ b) = some (a, b) := by
  induction a with
  | nil =>
    have hafter : afterPrefix mark (mark.toList ++ b) = some b := afterPrefix_eq_some.mpr rfl
    cases hmark : mark.toList with
    | nil => exact absurd (by rw [Has, hmark]; exact List.nil_infix) h
    | cons c cs =>
      rw [hmark] at h hafter
      have hlater : cutLast mark (cs ++ b) = none := cutLast_eq_none.mpr h
      rw [List.nil_append, List.cons_append, cutLast, hlater]
      exact congrArg (Option.map fun rest => ([], rest)) hafter
  | cons c a ih => rw [List.cons_append, List.cons_append, cutLast, ih]

theorem mem_or_of_mem_intercalate {separator : List Char} {entries : List (List Char)}
    (h : c ∈ separator.intercalate entries) : c ∈ separator ∨ ∃ e ∈ entries, c ∈ e := by
  induction entries with
  | nil => exact absurd h (by simp)
  | cons first rest ih =>
    cases rest with
    | nil => exact .inr ⟨first, List.mem_cons_self, by rwa [List.intercalate_singleton] at h⟩
    | cons second rest =>
      rw [List.intercalate_cons_cons, List.mem_append, List.mem_append] at h
      rcases h with (hfirst | hseparator) | hlater
      · exact .inr ⟨first, List.mem_cons_self, hfirst⟩
      · exact .inl hseparator
      · refine (ih hlater).imp_right ?_
        rintro ⟨e, he, hc⟩
        exact ⟨e, List.mem_cons_of_mem first he, hc⟩

section

variable {old new : Char}

theorem mem_exchange (hnew : c ≠ new) (h : c ∈ exchange old new cs) : c ∈ cs := by
  obtain ⟨d, hd, heq⟩ := List.mem_map.mp h
  split at heq
  · exact absurd heq.symm hnew
  · exact heq ▸ hd

theorem mem_exchange_of_ne (hold : c ≠ old) (h : c ∈ cs) : c ∈ exchange old new cs :=
  List.mem_map.mpr ⟨c, h, if_neg hold⟩

theorem not_mem_exchange (hne : new ≠ old) : old ∉ exchange old new cs := by
  intro hmem
  obtain ⟨c, -, hc⟩ := List.mem_map.mp hmem
  split at hc
  · exact hne hc
  · next hold => exact hold hc

theorem exchange_eq_self (h : old ∉ cs) : exchange old new cs = cs := by
  rw [exchange]
  conv_rhs => rw [← List.map_id cs]
  refine List.map_congr_left fun c hc => ?_
  exact if_neg fun hold : c = old => h (hold ▸ hc)

theorem exchange_exchange (h : old ∉ cs) : exchange old new (exchange new old cs) = cs := by
  rw [exchange, exchange, List.map_map]
  conv_rhs => rw [← List.map_id cs]
  refine List.map_congr_left fun c hc => ?_
  have hold : c ≠ old := fun heq => h (heq ▸ hc)
  by_cases hnew : c = new <;> simp [hold, hnew]

theorem Has.exchange (hold : old ∉ mark.toList) (h : Has mark cs) : Has mark (exchange old new cs) := by
  have hinfix : Text.exchange old new mark.toList <:+: Text.exchange old new cs := h.map _
  rwa [exchange_eq_self hold] at hinfix

end

end LeakTrace.Text
