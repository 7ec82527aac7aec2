import LeakTrace.Proofs.Bytecode.RegisterLists

namespace LeakTrace.ThreeAddress

open Text

/-- The instruction is a call of the method by the reference, alone or with a register that receives its
result, and the statement is what it is lowered to. -/
inductive Calls (m : MethodRef) (reference : List Char) : List Char → String → Prop
  | alone {cs mnemonic operands : List Char} {kind : InvokeKind} {range : Bool}
      {registers : List String} {expression : String} (no_result : cutResult? (trim cs) = none)
      (parts : cutBlank (trim cs) = some (mnemonic, operands))
      (opcode : Opcode.decode mnemonic = .invoke kind range)
      (list : Operands.registerList? range (trim operands) = some (registers, reference))
      (method : MethodRef.read reference = .ok m)
      (call : call? kind registers m = some expression) : Calls m reference cs expression
  | received {cs result call register : List Char} {expression : String}
      (parts : cutResult? (trim cs) = some (result, call))
      (destination : (words result)[1]? = some register) (inner : Calls m reference call expression) :
      Calls m reference cs (String.ofList register ++ " = " ++ expression)

variable {m : MethodRef} {reference cs : List Char} {s : String}

theorem translate_of_calls (h : Calls m reference cs s) : translate cs = statement s := by
  induction h with
  | alone hnone hparts hopcode hlist hmethod hcall =>
    rw [translate_of_call hnone, ofInstruction, hparts]
    simp [hopcode, lower?, hlist, hmethod, Except.toOption, hcall]
  | received hparts hregister _ ih => rw [translate_of_result hparts hregister, ih, assignTo]

theorem Calls.read_eq_ok (h : Calls m reference cs s) : MethodRef.read reference = .ok m := by
  induction h with
  | alone _ _ _ _ hmethod _ => exact hmethod
  | received _ _ _ ih => exact ih

private theorem blank_mem_of_call? {kind : InvokeKind} {registers : List String}
    (h : call? kind registers m = some s) : ' ' ∈ s.toList := by
  unfold call? at h
  split at h
  · split at h
    · exact absurd h (by simp)
    · obtain rfl := Option.some.inj h
      simp
  · obtain rfl := Option.some.inj h
    simp

theorem Calls.blank_mem (h : Calls m reference cs s) : ' ' ∈ s.toList := by
  induction h with
  | alone _ _ _ _ _ hcall => exact blank_mem_of_call? hcall
  | received _ _ _ _ => simp

private theorem exists_suffix_of_trim {rest : List Char} (h : rest <:+ trim cs) :
    ∃ rest', rest' <:+ cs ∧ trim rest' = trim rest := by
  obtain ⟨front, behind, hcs, -, hbehind⟩ := exists_trim cs
  obtain ⟨a, ha⟩ := h
  refine ⟨rest ++ behind, ⟨front ++ a, ?_⟩, trim_append_blanks hbehind⟩
  rw [hcs, ← ha]
  simp

private theorem exists_suffix_of_registerList? {range : Bool} {registers : List String}
    (h : Operands.registerList? range cs = some (registers, reference)) :
    ∃ rest, rest <:+ cs ∧ trim rest = reference := by
  simp only [Operands.registerList?, bind, Option.bind_eq_some_iff] at h
  obtain ⟨inner, hinner, ⟨list, rest⟩, hcut, behind, hcomma, hregisters⟩ := h
  obtain rfl : trim behind = reference := by
    split at hregisters
    · obtain ⟨_, -, heq⟩ := Option.bind_eq_some_iff.mp hregisters
      exact (Prod.mk.inj (Option.some.inj heq)).2
    · exact (Prod.mk.inj (Option.some.inj hregisters)).2
  refine ⟨behind, ?_, rfl⟩
  have hbehind : behind <:+ trimStart rest := ⟨_, (afterPrefix_eq_some.mp hcomma).symm⟩
  have hrest : rest <:+ inner := ⟨_, (eq_of_cut hcut).symm⟩
  have hlist : inner <:+ cs := ⟨_, (afterPrefix_eq_some.mp hinner).symm⟩
  exact hbehind.trans ((List.dropWhile_suffix isBlank).trans (hrest.trans hlist))

/-- The reference of a call is what ends its instruction. -/
theorem Calls.exists_suffix (h : Calls m reference cs s) :
    ∃ rest, rest <:+ cs ∧ trim rest = reference := by
  induction h with
  | alone _ hparts _ hlist _ _ =>
    obtain ⟨c, -, hcs⟩ := eq_append_of_cutBlank hparts
    obtain ⟨rest, hrest, rfl⟩ := exists_suffix_of_registerList? hlist
    obtain ⟨rest, hrest, htrim⟩ := exists_suffix_of_trim hrest
    have hoperands := hrest.trans (hcs ▸ (List.suffix_cons c _).trans (List.suffix_append _ _))
    obtain ⟨rest, hrest, htrim'⟩ := exists_suffix_of_trim hoperands
    exact ⟨rest, hrest, htrim'.trans htrim⟩
  | received hparts _ _ ih =>
    obtain ⟨rest, hrest, rfl⟩ := ih
    rw [cutResult?] at hparts
    split at hparts
    · obtain ⟨rest, hrest, htrim⟩ := exists_suffix_of_trim
        (hrest.trans ⟨_, (eq_of_cut hparts).symm⟩)
      exact ⟨rest, hrest, htrim⟩
    · exact absurd hparts (by simp)

theorem calls_static (target : List Char) (h : MethodRef.read target = .ok m) :
    Calls m (trim target) ("invoke-static \x7bv0\x7d, ".toList ++ target)
      ("staticinvoke " ++ m.text ++ "(v0)") := by
  have htext : "invoke-static \x7bv0\x7d, ".toList ++ target = "invoke-static".toList ++
      ' ' :: ('\x7b' :: "v0".toList ++ '\x7d' :: ',' :: ' ' :: target) := rfl
  have hmnemonic : ∀ c ∈ "invoke-static".toList, isBlank c = false := by simp [isBlank]
  have hblank : isBlank ' ' = true := by decide
  have hopcode : Opcode.decode "invoke-static".toList = .invoke .static false := by decide
  have hnone := cutResult?_eq_none hmnemonic (by decide) hblank (by decide)
    ('\x7b' :: "v0".toList ++ '\x7d' :: ',' :: ' ' :: target)
  -- the blanks at the end of the target are the only ones that trimming can reach
  have hend : trimEnd (' ' :: ('\x7b' :: "v0".toList ++ '\x7d' :: ',' :: ' ' :: target)) =
      ' ' :: ('\x7b' :: "v0".toList ++ '\x7d' :: ',' :: trimEnd (' ' :: target)) :=
    trimEnd_append_cons (a := " \x7bv0\x7d".toList) (by decide)
  have hparts : cutBlank (trim ("invoke-static \x7bv0\x7d, ".toList ++ target)) =
      some ("invoke-static".toList,
        '\x7b' :: "v0".toList ++ '\x7d' :: ',' :: trimEnd (' ' :: target)) := by
    rw [htext, trim_word_append hmnemonic (by decide), hend, cutBlank_append_cons hmnemonic hblank]
  have hlist : Operands.registerList? false
      (trim ('\x7b' :: "v0".toList ++ '\x7d' :: ',' :: trimEnd (' ' :: target))) =
        some (["v0"], trim target) := by
    have hregisters : Operands.registers? false "v0".toList = some ["v0"] := by decide
    rw [Operands.trim_braces, Operands.registerList?_braces (by decide), hregisters, trim_trimEnd,
      trim_trimEnd, trim_cons_blank hblank]
    rfl
  have hcall : call? .static ["v0"] m = some ("staticinvoke " ++ m.text ++ "(v0)") := by
    simp [call?, InvokeKind.hasReceiver, InvokeKind.keyword, ← String.toList_inj]
  exact .alone hnone hparts hopcode hlist (MethodRef.read_trim_eq_ok.mpr h) hcall

end LeakTrace.ThreeAddress
