import LeakTrace.Proofs.Bytecode.Instructions

namespace LeakTrace

open Text

namespace Operands

variable {cs part rest : List Char} {n : Nat}

private theorem splitOn_of_cut (h : cut "," cs = some (part, rest)) :
    cs.splitOn ',' = part :: rest.splitOn ',' := by
  obtain ⟨hpart, rfl⟩ := (cut_eq_some_iff_of_singleton rfl).mp h
  exact List.splitOn_append_cons_self_of_not_mem hpart rest

private theorem splitOn_of_not_cut (h : cut "," cs = none) : cs.splitOn ',' = [cs] :=
  List.splitOn_eq_singleton ((cut_eq_none_iff_of_singleton rfl).mp h)

private theorem splitAtMost_succ (n : Nat) (cs : List Char) :
    splitAtMost (n + 1) cs = if n < (cs.splitOn ',').length then
      (cs.splitOn ',').take n ++ [[','].intercalate ((cs.splitOn ',').drop n)]
    else cs.splitOn ',' := by
  induction n generalizing cs with
  | zero =>
    rw [if_pos (List.length_pos_iff.mpr (List.splitOn_ne_nil ',' cs)), List.take_zero, List.drop_zero,
      List.intercalate_splitOn]
    rfl
  | succ n ih =>
    rw [splitAtMost]
    cases hcut : cut "," cs with
    | none =>
      rw [splitOn_of_not_cut hcut, if_neg (by simp)]
    | some p =>
      obtain ⟨part, rest⟩ := p
      rw [splitOn_of_cut hcut, List.length_cons, List.take_succ_cons, List.drop_succ_cons]
      dsimp only
      rw [ih rest]
      by_cases hn : n < (rest.splitOn ',').length
      · rw [if_pos hn, if_pos (Nat.succ_lt_succ hn), List.cons_append]
      · rw [if_neg hn, if_neg fun h => hn (Nat.lt_of_succ_lt_succ h)]

/-- The operands as which a text is read where there should be `n`: the texts up to the first commas,
and all that is left behind them. -/
def operandsOf : Nat → List Char → List (List Char)
  | 0, _ => []
  | n + 1, cs =>
    ((cs.splitOn ',').take n ++ [[','].intercalate ((cs.splitOn ',').drop n)]).map trim

private theorem nil_mem_operandsOf (h : (cs.splitOn ',').length < n) : [] ∈ operandsOf n cs := by
  cases n with
  | zero => exact absurd h (by simp)
  | succ n =>
    have hdrop : (cs.splitOn ',').drop n = [] := List.drop_eq_nil_iff.mpr (Nat.le_of_lt_succ h)
    rw [operandsOf, hdrop]
    simp

private theorem length_operandsOf (h : [] ∉ operandsOf n cs) : (operandsOf n cs).length = n := by
  have hn : n ≤ (cs.splitOn ',').length := Nat.le_of_not_lt fun hlt => h (nil_mem_operandsOf hlt)
  cases n with
  | zero => rfl
  | succ n =>
    rw [operandsOf, List.length_map, List.length_append, List.length_take, List.length_singleton,
      Nat.min_eq_left (Nat.le_of_succ_le hn)]

/-- A text is read as its operands unless one of them is empty. -/
theorem fixed_eq (n : Nat) (cs : List Char) :
    fixed n cs = if [] ∈ operandsOf n cs then none
      else some ((operandsOf n cs).map String.ofList) := by
  rw [fixed]
  cases n with
  | zero => rfl
  | succ n =>
    by_cases hn : n < (cs.splitOn ',').length
    · have hparts : (splitAtMost (n + 1) cs).map trim = operandsOf (n + 1) cs := by
        rw [splitAtMost_succ, if_pos hn, operandsOf]
      rw [hparts]
      by_cases hmem : [] ∈ operandsOf (n + 1) cs
      · rw [if_pos hmem, if_neg fun h => h.2 hmem]
      · rw [if_neg hmem, if_pos ⟨length_operandsOf hmem, hmem⟩]
    · have hfew : (cs.splitOn ',').length < n + 1 := Nat.lt_succ_of_le (Nat.le_of_not_lt hn)
      have hlength : ((splitAtMost (n + 1) cs).map trim).length ≠ n + 1 := by
        rw [splitAtMost_succ, if_neg hn, List.length_map]
        exact Nat.ne_of_lt hfew
      rw [if_pos (nil_mem_operandsOf hfew), if_neg fun h => hlength h.1]

private theorem nil_not_mem_operandsOf (hparts : ∀ o ∈ cs.splitOn ',', trim o ≠ [])
    (hn : n ≤ (cs.splitOn ',').length) : [] ∉ operandsOf n cs := by
  cases n with
  | zero => simp [operandsOf]
  | succ n =>
    rw [operandsOf, List.mem_map]
    rintro ⟨o, ho, htrim⟩
    rcases List.mem_append.mp ho with htake | hlast
    · exact hparts o (List.mem_of_mem_take htake) htrim
    · obtain rfl := List.mem_singleton.mp hlast
      have hdrop := List.drop_eq_getElem_cons hn
      refine hparts _ (List.getElem_mem hn) (trim_eq_nil_iff.mpr fun c hc => ?_)
      refine trim_eq_nil_iff.mp htrim c ?_
      rw [hdrop]
      cases (cs.splitOn ',').drop (n + 1) with
      | nil => rwa [List.intercalate_singleton]
      | cons next later =>
        rw [List.intercalate_cons_cons]
        exact List.mem_append_left _ (List.mem_append_left _ hc)

end Operands

/-- The operands are registers, numbers and labels. -/
def Opcode.hasPlainOperands : Opcode → Bool
  | .move | .moveException | .returnVoid | .returnValue | .throw | .goto | .branch .. | .arrayGet
  | .arrayPut | .arrayLength | .convert _ | .unary _ | .binary .. => true
  | _ => false

namespace ThreeAddress

open Operands

variable {op : Opcode}

private theorem lower?_of_plain (h : op.hasPlainOperands = true) (operands : List Char) :
    lower? op operands = (fixed (operandCount op) operands).bind (ofOperands? op) := by
  cases op with
  | invoke => exact absurd h (by simp [Opcode.hasPlainOperands])
  | _ => rfl

private theorem exists_ofOperands?_of_plain (h : op.hasPlainOperands = true) {os : List String}
    (hos : os.length = operandCount op) : ∃ s, ofOperands? op os = some s := by
  cases op with
  | returnVoid => exact ⟨_, rfl⟩
  | returnValue | throw | moveException | goto =>
    obtain ⟨a, rfl⟩ := List.length_eq_one_iff.mp hos
    exact ⟨_, rfl⟩
  | move | arrayLength | convert =>
    obtain ⟨a, b, rfl⟩ := List.length_eq_two.mp hos
    exact ⟨_, rfl⟩
  | unary u =>
    obtain ⟨a, b, rfl⟩ := List.length_eq_two.mp hos
    cases u <;> exact ⟨_, rfl⟩
  | arrayGet | arrayPut =>
    obtain ⟨a, b, c, rfl⟩ := List.length_eq_three.mp hos
    exact ⟨_, rfl⟩
  | branch condition zero =>
    cases zero with
    | true =>
      obtain ⟨a, b, rfl⟩ := List.length_eq_two.mp hos
      exact ⟨_, rfl⟩
    | false =>
      obtain ⟨a, b, c, rfl⟩ := List.length_eq_three.mp hos
      exact ⟨_, rfl⟩
  | binary operator form =>
    cases form with
    | twoAddress =>
      obtain ⟨a, b, rfl⟩ := List.length_eq_two.mp hos
      exact ⟨_, rfl⟩
    | threeRegister | literal =>
      obtain ⟨a, b, c, rfl⟩ := List.length_eq_three.mp hos
      exact ⟨_, rfl⟩
  | _ => exact absurd h (by simp [Opcode.hasPlainOperands])

variable {text mnemonic operands : List Char} {blank : Char}

private theorem translate_of_plain (hmnemonic : ∀ c ∈ mnemonic, isBlank c = false)
    (hblank : isBlank blank = true) (hplain : (Opcode.decode mnemonic).hasPlainOperands = true)
    (operands : List Char) : translate (mnemonic ++ blank :: operands) =
      ((fixed (operandCount (Opcode.decode mnemonic)) (trim operands)).bind
        (ofOperands? (Opcode.decode mnemonic))).elim (unsupported (String.ofList mnemonic)) statement := by
  have hne : mnemonic ≠ [] := Opcode.ne_nil_of_decode fun hopcode => by
    simp [hopcode, Opcode.hasPlainOperands] at hplain
  have hopcode : Opcode.decode mnemonic ≠ .moveResult := fun hopcode => by
    simp [hopcode, Opcode.hasPlainOperands] at hplain
  have hnone := cutResult?_eq_none hmnemonic hne hblank hopcode operands
  rw [translate_of_parts hmnemonic hne hblank hnone, lower?_of_plain hplain]

private theorem translate_of_empty_operand (hmnemonic : ∀ c ∈ mnemonic, isBlank c = false)
    (hblank : isBlank blank = true) (hplain : (Opcode.decode mnemonic).hasPlainOperands = true)
    (h : [] ∈ operandsOf (operandCount (Opcode.decode mnemonic)) (trim operands)) :
    translate (mnemonic ++ blank :: operands) = unsupported (String.ofList mnemonic) := by
  rw [translate_of_plain hmnemonic hblank hplain, fixed_eq, if_pos h]
  rfl

private theorem translate_of_operands (hmnemonic : ∀ c ∈ mnemonic, isBlank c = false)
    (hblank : isBlank blank = true) (hplain : (Opcode.decode mnemonic).hasPlainOperands = true)
    (h : [] ∉ operandsOf (operandCount (Opcode.decode mnemonic)) (trim operands)) :
    ∃ s, ofOperands? (Opcode.decode mnemonic)
        ((operandsOf (operandCount (Opcode.decode mnemonic)) (trim operands)).map String.ofList) = some s ∧
      translate (mnemonic ++ blank :: operands) = statement s := by
  obtain ⟨s, hs⟩ := exists_ofOperands?_of_plain hplain
    ((List.length_map String.ofList).trans (length_operandsOf h))
  refine ⟨s, hs, ?_⟩
  rw [translate_of_plain hmnemonic hblank hplain, fixed_eq, if_neg h, Option.bind_some, hs]
  rfl

private theorem translate_of_lone_result (hmnemonic : ∀ c ∈ mnemonic, isBlank c = false)
    (hblank : isBlank blank = true) (hopcode : Opcode.decode mnemonic = .moveResult)
    (hequals : '=' ∉ trim (mnemonic ++ blank :: operands)) :
    translate (mnemonic ++ blank :: operands) = unsupported (String.ofList mnemonic) := by
  have hne : mnemonic ≠ [] := Opcode.ne_nil_of_decode (by simp [hopcode])
  have hnone : cutResult? (trim (mnemonic ++ blank :: operands)) = none := by
    rw [cutResult?, (cut_eq_none_iff_of_singleton rfl).mpr hequals, ite_self]
  rw [translate_of_parts hmnemonic hne hblank hnone, hopcode]
  rfl

/-- An instruction that takes a fixed number of registers, numbers and labels is read as that many
operands. It is lowered to the statement of its opcode on them unless one is empty, as where there are
too few. With more parts between commas than that, none of which is empty, it is lowered as well, and the
last operand holds the commas that are left. A lone instruction that receives a result is never lowered. -/
theorem surplus_operands_kept (htext : trim text = mnemonic ++ blank :: operands)
    (hmnemonic : ∀ c ∈ mnemonic, isBlank c = false) (hblank : isBlank blank = true) :
    ((Opcode.decode mnemonic).hasPlainOperands = true →
      let n := operandCount (Opcode.decode mnemonic)
      let parts := (trim operands).splitOn ','
      let os := operandsOf n (trim operands)
      ([] ∈ os → translate text = unsupported (String.ofList mnemonic)) ∧
      ([] ∉ os → ∃ s, ofOperands? (Opcode.decode mnemonic) (os.map String.ofList) = some s ∧
        translate text = statement s) ∧
      (parts.length < n → [] ∈ os) ∧
      (n < parts.length → (∀ o ∈ parts, trim o ≠ []) → [] ∉ os)) ∧
    (Opcode.decode mnemonic = .moveResult → '=' ∉ text →
      translate text = unsupported (String.ofList mnemonic)) := by
  have hsame : translate text = translate (mnemonic ++ blank :: operands) :=
    translate_congr (by rw [← htext, trim_trim])
  rw [hsame]
  refine ⟨fun hplain => ⟨?_, ?_, nil_mem_operandsOf, fun hn hparts => ?_⟩, fun hresult hequals => ?_⟩
  · exact translate_of_empty_operand hmnemonic hblank hplain
  · exact translate_of_operands hmnemonic hblank hplain
  · exact nil_not_mem_operandsOf hparts (Nat.le_of_lt hn)
  · refine translate_of_lone_result hmnemonic hblank hresult fun hmem => hequals ?_
    rw [← htext, trim_trim] at hmem
    exact (trim_isInfix text).subset hmem

/-- A register that is left over stands in the source of a move. A return takes any operands, a move with
one register is not lowered, and neither is a lone instruction that receives a result. -/
theorem thirdRegister_kept :
    translate "move v0, v1, v2".toList = statement "v0 = v1, v2" ∧
      translate "return-void v0".toList = statement "return" ∧
      translate "move v0".toList = unsupported "move" ∧
      translate "move-result v0, v1".toList = unsupported "move-result" := by
  refine ⟨?_, ?_, ?_, ?_⟩
  · have htext : trim "move v0, v1, v2".toList = "move".toList ++ ' ' :: "v0, v1, v2".toList := by
      decide
    have hkept := (surplus_operands_kept htext (by simp [isBlank]) (by decide)).1 (by decide)
    obtain ⟨s, hs, htranslate⟩ := hkept.2.1 (hkept.2.2.2 (by decide) (by decide))
    obtain rfl : "v0 = v1, v2" = s := Option.some.inj (Eq.trans (by decide) hs)
    exact htranslate
  · have htext : trim "return-void v0".toList = "return-void".toList ++ ' ' :: "v0".toList := by decide
    have hkept := (surplus_operands_kept htext (by simp [isBlank]) (by decide)).1 (by decide)
    obtain ⟨s, hs, htranslate⟩ := hkept.2.1 (by decide)
    obtain rfl : "return" = s := Option.some.inj hs
    exact htranslate
  · have htext : trim "move v0".toList = "move".toList ++ ' ' :: "v0".toList := by decide
    have hkept := (surplus_operands_kept htext (by simp [isBlank]) (by decide)).1 (by decide)
    exact hkept.1 (hkept.2.2.1 (by decide))
  · have htext : trim "move-result v0, v1".toList = "move-result".toList ++ ' ' :: "v0, v1".toList := by
      decide
    exact (surplus_operands_kept htext (by simp [isBlank]) (by decide)).2 (by decide) (by decide)

/-- Surplus operands do not keep an instruction from being lowered, even if none of them is empty. -/
theorem surplus_operand_not_rejected :
    ¬∀ (text mnemonic operands : List Char) (blank : Char), trim text = mnemonic ++ blank :: operands →
      (∀ c ∈ mnemonic, isBlank c = false) → isBlank blank = true →
      (Opcode.decode mnemonic).hasPlainOperands = true →
      operandCount (Opcode.decode mnemonic) < (operands.splitOn ',').length →
      (∀ o ∈ operands.splitOn ',', trim o ≠ []) → (translate text).isUnsupported = true := by
  intro hrejected
  have hunsupported := hrejected "move v0, v1, v2".toList "move".toList "v0, v1, v2".toList ' '
    (by decide) (by simp [isBlank]) (by decide) (by decide) (by decide) (by decide)
  have hlowered : (translate "move v0, v1, v2".toList).isUnsupported = false := by
    rw [translate_of_call (by decide)]
    decide
  exact Bool.false_ne_true (hlowered.symm.trans hunsupported)

end ThreeAddress

end LeakTrace
