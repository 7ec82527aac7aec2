import LeakTrace.Proofs.Bytecode.ResultCalls

namespace LeakTrace

open Text

/-- The mnemonic of the instruction is one of those that receive a result. -/
def ReceivesResult (text : String) : Prop :=
  ∃ mnemonic ∈ (words text.toList).head?, Begins moveResultMark mnemonic

instance : DecidablePred ReceivesResult := fun text =>
  inferInstanceAs (Decidable (∃ mnemonic ∈ (words text.toList).head?, Begins moveResultMark mnemonic))

/-- The text holds the mark only if its mnemonic begins with it. -/
def MarkedByMnemonic (text : String) : Prop :=
  Has moveResultMark text.toList → ReceivesResult text

instance : DecidablePred MarkedByMnemonic := fun text =>
  inferInstanceAs (Decidable (Has moveResultMark text.toList → ReceivesResult text))

private theorem ReceivesResult.has_mark {text : String} (h : ReceivesResult text) :
    Has moveResultMark text.toList := by
  obtain ⟨mnemonic, hfirst, hbegins⟩ := h
  have hword : mnemonic ∈ words text.toList := List.mem_of_mem_head? hfirst
  exact hbegins.isInfix.trans (infix_of_mem_words hword)

namespace Code

variable {code : Code} {n : Int64} {text : String}

private theorem append_equals_ne (a b : String) : a ++ "=" ++ b ≠ a ∧ a ++ "=" ++ b ≠ b := by
  have hequals : "=".length = 1 := rfl
  constructor
  · intro h
    have hlength := congrArg String.length h
    rw [String.length_append, String.length_append] at hlength
    omega
  · intro h
    have hlength := congrArg String.length h
    rw [String.length_append, String.length_append] at hlength
    omega

/-- A line stands for itself if it holds the mark and nothing precedes it, or if neither it nor the
next line holds the mark. -/
theorem joined_eq_self_iff :
    code.joined n text = text ↔
      if Has moveResultMark text.toList then code.line? (n - 1) = none
      else ∀ next, code.line? (n + 1) = some next → ¬Has moveResultMark next.toList := by
  rw [joined]
  split
  · cases code.line? (n - 1) with
    | none => simp
    | some previous => simp [(append_equals_ne text previous).1]
  · cases code.line? (n + 1) with
    | none => simp
    | some next =>
      by_cases hnext : Has moveResultMark next.toList
      · simp [hnext, (append_equals_ne next text).2]
      · simp [hnext]

private theorem joined_eq_self_iff_of_marked (htext : MarkedByMnemonic text)
    (hnext : ∀ next, code.line? (n + 1) = some next → MarkedByMnemonic next)
    (hnot : ¬ReceivesResult text) :
    code.joined n text = text ↔
      ∀ next, code.line? (n + 1) = some next → ¬ReceivesResult next := by
  rw [joined_eq_self_iff, if_neg fun hmark => hnot (htext hmark)]
  constructor
  · intro h next hline hreceives
    exact h next hline hreceives.has_mark
  · intro h next hline hmark
    exact h next hline (hnext next hline hmark)

end Code

namespace Resolver

variable {files : FileTree} {r : Resolver} {statement : String}

/-- What a statement refers to: the code of its method, in the table of its class, and the text of
its line. -/
structure Finds (files : FileTree) (r : Resolver) (statement : String) (ref : StatementRef)
    (code : Code) (text : String) : Prop where
  read : StatementRef.read? statement = some ref
  code_of_method : ∃ table : ClassTable,
    (r.table files ref.key).1 = .ok (some table) ∧ table[ref.method]? = some code
  line : code.line? ref.line = some text

variable {ref ref' : StatementRef} {code code' : Code} {text text' : String}

theorem Finds.unique (h : Finds files r statement ref code text)
    (h' : Finds files r statement ref' code' text') : ref = ref' ∧ code = code' ∧ text = text' := by
  obtain rfl : ref = ref' := Option.some.inj (h.read.symm.trans h'.read)
  obtain ⟨table, htable, hcode⟩ := h.code_of_method
  obtain ⟨table', htable', hcode'⟩ := h'.code_of_method
  obtain rfl : table = table' := Option.some.inj (Except.ok.inj (htable.symm.trans htable'))
  obtain rfl : code = code' := Option.some.inj (hcode.symm.trans hcode')
  exact ⟨rfl, rfl, Option.some.inj (h.line.symm.trans h'.line)⟩

private theorem resolve_eq_some_iff {i : Instruction} :
    (r.resolve files statement).1 = .ok (some i) ↔ ∃ ref code text,
      Finds files r statement ref code text ∧
        i = ⟨ref.cls ++ ";", ref.method, ref.line, code.joined ref.line text⟩ := by
  constructor
  · intro h
    rw [resolve] at h
    split at h
    · cases h
    · next ref href =>
      dsimp only at h
      cases htable : (r.table files ref.key).1 with
      | error failure => rw [htable] at h; cases h
      | ok entry =>
        rw [htable] at h
        have hentry := Except.ok.inj h
        obtain ⟨table, rfl, hi⟩ := Option.bind_eq_some_iff.mp hentry
        obtain ⟨code, hcode, hi⟩ := Option.bind_eq_some_iff.mp hi
        obtain ⟨text, hline, hi⟩ := Option.bind_eq_some_iff.mp hi
        exact ⟨ref, code, text, ⟨href, ⟨table, htable, hcode⟩, hline⟩, (Option.some.inj hi).symm⟩
  · rintro ⟨ref, code, text, ⟨href, ⟨table, htable, hcode⟩, hline⟩, rfl⟩
    rw [resolve_of_table href htable, ClassTable.instruction?, hcode]
    exact congrArg _ (by rw [Option.bind_eq_bind, Option.bind_some, hline]; rfl)

/-- The text that a statement is resolved to is the one of its line unless the mark of receiving
instructions stands in it, or in the next line. If the mark stands in mnemonics only, and the line
receives nothing, that is unless the next line receives a result. -/
theorem resolved_text_unchanged_iff {i : Instruction}
    (h : (r.resolve files statement).1 = .ok (some i)) :
    ∃ ref code text, Finds files r statement ref code text ∧
      (i.text = text ↔
        if Has moveResultMark text.toList then code.line? (ref.line - 1) = none
        else ∀ next, code.line? (ref.line + 1) = some next → ¬Has moveResultMark next.toList) ∧
      (MarkedByMnemonic text →
        (∀ next, code.line? (ref.line + 1) = some next → MarkedByMnemonic next) →
        ¬ReceivesResult text →
        (i.text = text ↔
          ∀ next, code.line? (ref.line + 1) = some next → ¬ReceivesResult next)) := by
  obtain ⟨ref, code, text, hfinds, rfl⟩ := resolve_eq_some_iff.mp h
  exact ⟨ref, code, text, hfinds, Code.joined_eq_self_iff, Code.joined_eq_self_iff_of_marked⟩

/-- A method with a string constant that reads like the mnemonic of a receiving instruction. -/
def quotingCode : Code :=
  .ofList [("0", "invoke-virtual \x7bv0\x7d, La;->f()V"), ("1", "const-string v1, \"move-result\""),
    ("2", "const/4 v2, 0x0"), ("3", "return-void")]

def quotingTable : ClassTable := .ofList [("m()V", quotingCode)]

def quotingResolver : Resolver := ⟨⟨[], "app", 4095⟩, none, .ofList [("La", some quotingTable)]⟩

private theorem finds_quoting {line : Int64} {statement text : String}
    (hread : StatementRef.read? statement = some ⟨"La", "m()V", line⟩)
    (hline : quotingCode.line? line = some text) :
    Finds ⟨∅⟩ quotingResolver statement ⟨"La", "m()V", line⟩ quotingCode text where
  read := hread
  code_of_method := by
    have hkey : StatementRef.key ⟨"La", "m()V", line⟩ = "La" := by
      change String.ofList (exchange '/' '_' "La".toList) = "La"
      decide +kernel
    refine ⟨quotingTable, ?_, by simp [quotingTable]⟩
    simp [hkey, table_fst, quotingResolver]
  line := hline

theorem quotingCode_two_unchanged :
    ∃ i, (quotingResolver.resolve ⟨∅⟩ "La;->m()V(2)").1 = .ok (some i) ∧
      i.text = "const/4 v2, 0x0" := by
  have hfinds : Finds ⟨∅⟩ quotingResolver "La;->m()V(2)" ⟨"La", "m()V", 2⟩ quotingCode
      "const/4 v2, 0x0" := finds_quoting (by decide +kernel) (by decide +kernel)
  have hnext : quotingCode.line? (2 + 1) = some "return-void" := by decide +kernel
  have htext : MarkedByMnemonic "const/4 v2, 0x0" ∧ ¬ReceivesResult "const/4 v2, 0x0" := by
    decide +kernel
  have hlater : MarkedByMnemonic "return-void" ∧ ¬ReceivesResult "return-void" := by decide +kernel
  have hresolve := resolve_eq_some_iff.mpr ⟨_, _, _, hfinds, rfl⟩
  obtain ⟨ref, code, text, hfinds', -, hmarked⟩ := resolved_text_unchanged_iff hresolve
  obtain ⟨rfl, rfl, rfl⟩ := hfinds.unique hfinds'
  refine ⟨_, hresolve, (hmarked htext.1 ?_ htext.2).mpr ?_⟩
  · intro next hline
    obtain rfl := Option.some.inj (hnext.symm.trans hline)
    exact hlater.1
  · intro next hline
    obtain rfl := Option.some.inj (hnext.symm.trans hline)
    exact hlater.2

/-- A call in front of that constant is joined to it, although neither line receives a result. -/
theorem quotingCode_zero_joined :
    ¬∀ (files : FileTree) (r : Resolver) (statement : String) (ref : StatementRef) (code : Code)
      (text : String) (i : Instruction), Finds files r statement ref code text →
      (r.resolve files statement).1 = .ok (some i) → ¬ReceivesResult text →
      (∀ next, code.line? (ref.line + 1) = some next → ¬ReceivesResult next) → i.text = text := by
  intro h
  have hfinds : Finds ⟨∅⟩ quotingResolver "La;->m()V(0)" ⟨"La", "m()V", 0⟩ quotingCode
      "invoke-virtual \x7bv0\x7d, La;->f()V" := finds_quoting (by decide +kernel) (by decide +kernel)
  have hnext : quotingCode.line? (0 + 1) = some "const-string v1, \"move-result\"" := by
    decide +kernel
  have hcall : ¬ReceivesResult "invoke-virtual \x7bv0\x7d, La;->f()V" ∧
      ¬Has moveResultMark "invoke-virtual \x7bv0\x7d, La;->f()V".toList := by decide +kernel
  have hconstant : ¬ReceivesResult "const-string v1, \"move-result\"" ∧
      Has moveResultMark "const-string v1, \"move-result\"".toList := by decide +kernel
  have hreceives : ∀ next, quotingCode.line? (0 + 1) = some next → ¬ReceivesResult next := by
    intro next hline
    obtain rfl := Option.some.inj (hnext.symm.trans hline)
    exact hconstant.1
  have hresolve := resolve_eq_some_iff.mpr ⟨_, _, _, hfinds, rfl⟩
  have hsame := h _ _ _ _ _ _ _ hfinds hresolve hcall.1 hreceives
  dsimp only at hsame
  rw [Code.joined_eq_self_iff, if_neg hcall.2] at hsame
  exact hsame _ hnext hconstant.2

end Resolver

end LeakTrace
