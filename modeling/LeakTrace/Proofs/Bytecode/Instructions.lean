import LeakTrace.Proofs.Bytecode.ResultCalls

namespace LeakTrace

open Text

namespace Text

variable {blank : Char} {word cs : List Char}

theorem trim_word_append (hword : ∀ c ∈ word, isBlank c = false) (hne : word ≠ []) (cs : List Char) :
    trim (word ++ cs) = word ++ trimEnd cs := by
  have hstart : trimStart (word ++ cs) = word ++ cs := by
    refine trimStart_eq_self fun c hc => ?_
    rw [List.head?_append_of_ne_nil _ hne] at hc
    exact hword c (List.mem_of_mem_head? hc)
  obtain ⟨front, last, rfl⟩ := (List.eq_nil_or_concat word).resolve_left hne
  have hlast : isBlank last = false := hword last (by simp)
  rw [trim, hstart, List.concat_eq_append, List.append_assoc, List.singleton_append,
    trimEnd_append_cons hlast, List.append_assoc, List.singleton_append]

theorem cutBlank_append_cons (hword : ∀ c ∈ word, isBlank c = false) (hblank : isBlank blank = true)
    (cs : List Char) : cutBlank (word ++ blank :: cs) = some (word, cs) := by
  induction word with
  | nil => rw [List.nil_append, cutBlank, if_pos hblank]
  | cons c word ih =>
    obtain ⟨hc, hlater⟩ := List.forall_mem_cons.mp hword
    rw [List.cons_append, cutBlank, if_neg (by simp [hc]), ih hlater]
    rfl

private theorem cutBlank_eq_none (hword : ∀ c ∈ word, isBlank c = false) :
    cutBlank word = none := by
  induction word with
  | nil => rfl
  | cons c word ih =>
    obtain ⟨hc, hlater⟩ := List.forall_mem_cons.mp hword
    rw [cutBlank, if_neg (by simp [hc]), ih hlater]
    rfl

private theorem trimEnd_cons_cases (hblank : isBlank blank = true) (cs : List Char) :
    trimEnd (blank :: cs) = [] ∧ trim cs = [] ∨ trimEnd (blank :: cs) = blank :: trimEnd cs := by
  rcases blank_cases cs with hall | ⟨a, c, b, rfl, -, hc⟩
  · exact .inl ⟨trimEnd_of_blanks (List.forall_mem_cons.mpr ⟨hblank, hall⟩), trim_of_blanks hall⟩
  · right
    rw [trimEnd_append_cons hc, ← List.cons_append, trimEnd_append_cons hc, List.cons_append]

end Text

namespace Opcode

variable {mnemonic : List Char}

theorem ne_nil_of_decode (h : decode mnemonic ≠ .unsupported) : mnemonic ≠ [] := by
  rintro rfl
  exact h (by decide)

private theorem ofWord?_eq_none (h : Begins "move-result" mnemonic) :
    ofWord? (String.ofList mnemonic) = none := by
  have hne : ∀ word : String, ¬Begins "move-result" word.toList → String.ofList mnemonic ≠ word := by
    rintro word hnot rfl
    exact hnot (by rwa [String.toList_ofList])
  unfold ofWord?
  split <;> first | rfl | (next heq => exact absurd heq (hne _ (by decide)))

private theorem decode_of_begins (h : Begins "move-result" mnemonic) :
    decode mnemonic = .moveResult := by
  have hfamily : ofFamily? families mnemonic = some .moveResult := by
    rw [ofFamily?, families, List.find?_cons_of_pos (by simpa using h)]
    rfl
  rw [decode, ofWord?_eq_none h, hfamily]
  rfl

end Opcode

namespace ThreeAddress

variable {blank : Char} {mnemonic operands : List Char}

theorem translate_of_parts (hmnemonic : ∀ c ∈ mnemonic, isBlank c = false) (hne : mnemonic ≠ [])
    (hblank : isBlank blank = true)
    (hnone : cutResult? (trim (mnemonic ++ blank :: operands)) = none) :
    translate (mnemonic ++ blank :: operands) =
      (lower? (Opcode.decode mnemonic) (trim operands)).elim (unsupported (String.ofList mnemonic))
        statement := by
  have hrefuse : refuse mnemonic = unsupported (String.ofList mnemonic) := by
    rw [refuse, words_eq_singleton hmnemonic hne]
    rfl
  have hparts : ∃ rest, (cutBlank (trim (mnemonic ++ blank :: operands))).getD
      (trim (mnemonic ++ blank :: operands), []) = (mnemonic, rest) ∧ trim rest = trim operands := by
    rw [trim_word_append hmnemonic hne]
    rcases trimEnd_cons_cases hblank operands with ⟨hend, hnothing⟩ | hend
    · refine ⟨[], ?_, by rw [hnothing, trim_nil]⟩
      rw [hend, List.append_nil, cutBlank_eq_none hmnemonic]
      rfl
    · refine ⟨trimEnd operands, ?_, trim_trimEnd operands⟩
      rw [hend, cutBlank_append_cons hmnemonic hblank]
      rfl
  obtain ⟨rest, hparts, hrest⟩ := hparts
  rw [translate_of_call hnone, ofInstruction, hparts]
  dsimp only
  rw [hrest, hrefuse]
  cases lower? (Opcode.decode mnemonic) (trim operands) <;> rfl

/-- Only a mnemonic of those that receive a result begins like one. -/
theorem cutResult?_eq_none (hmnemonic : ∀ c ∈ mnemonic, isBlank c = false) (hne : mnemonic ≠ [])
    (hblank : isBlank blank = true) (hopcode : Opcode.decode mnemonic ≠ .moveResult)
    (operands : List Char) : cutResult? (trim (mnemonic ++ blank :: operands)) = none := by
  have hmark : blank ∉ "move-result".toList := by
    intro hmem
    have hno : ∀ c ∈ "move-result".toList, isBlank c = false := by simp [isBlank]
    exact absurd (hno blank hmem) (by simp [hblank])
  refine if_neg fun hbegins => hopcode (Opcode.decode_of_begins ?_)
  rw [trim_word_append hmnemonic hne] at hbegins
  rcases trimEnd_cons_cases hblank operands with ⟨hend, -⟩ | hend
  · rwa [hend, List.append_nil] at hbegins
  · rw [hend] at hbegins
    exact prefix_append_cons hmark hbegins

end ThreeAddress

end LeakTrace
