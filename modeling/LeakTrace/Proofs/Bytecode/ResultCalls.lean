import LeakTrace.Bytecode.Resolver
import LeakTrace.Bytecode.ThreeAddress
import LeakTrace.Proofs.Text.Blanks
import LeakTrace.Proofs.Text.Marks

namespace LeakTrace

open Text

/-- The instruction that receives a result in a register. -/
def receiving (suffix register : String) : String :=
  moveResultMark ++ suffix ++ " " ++ register

/-- The text has no white space, and no equals sign. -/
def isOperand (s : String) : Bool := s.toList.all fun c => !isBlank c && c ≠ '='

private theorem isOperand_iff {s : String} :
    isOperand s = true ↔ ∀ c ∈ s.toList, isBlank c = false ∧ c ≠ '=' := by
  simp [isOperand]

section

variable {suffix register : String}

private theorem toList_receiving : (receiving suffix register).toList =
    (moveResultMark.toList ++ suffix.toList) ++ ' ' :: register.toList := by
  simp [receiving]

private theorem equals_not_mem_receiving (hsuffix : isOperand suffix = true)
    (hregister : isOperand register = true) : '=' ∉ (receiving suffix register).toList := by
  rw [isOperand_iff] at hsuffix hregister
  rw [toList_receiving, List.mem_append, List.mem_append]
  rintro ((hin | hin) | hin)
  · exact absurd hin (by decide)
  · exact (hsuffix _ hin).2 rfl
  · exact (hregister _ (List.mem_of_ne_of_mem (by decide) hin)).2 rfl

private theorem words_receiving (hsuffix : isOperand suffix = true)
    (hregister : isOperand register = true)
    (hne : register ≠ "") : words (receiving suffix register).toList =
      [moveResultMark.toList ++ suffix.toList, register.toList] := by
  rw [isOperand_iff] at hsuffix hregister
  have hmnemonic : ∀ c ∈ moveResultMark.toList ++ suffix.toList, isBlank c = false := by
    intro c hc
    rcases List.mem_append.mp hc with hin | hin
    · exact (isOperand_iff.mp (by decide : isOperand moveResultMark = true) c hin).1
    · exact (hsuffix c hin).1
  rw [toList_receiving]
  exact words_append_cons hmnemonic (fun c hc => (hregister c hc).1) (by simp [moveResultMark])
    (by simpa using hne) (by decide)

end

/-- The result of line `n` is received on the next line. -/
structure Code.Receives (code : Code) (n : Int64) (call suffix register : String) : Prop where
  call_line : code.line? n = some call
  call_not_receiving : ¬Has moveResultMark call.toList
  receiving_line : code.line? (n + 1) = some (receiving suffix register)
  suffix_operand : isOperand suffix = true
  register_operand : isOperand register = true
  register_ne : register ≠ ""

namespace ThreeAddress

/-- The statement with its value in a register. -/
def assignTo (register : String) : ThreeAddress → ThreeAddress
  | statement expression => statement (register ++ " = " ++ expression)
  | unsupported mnemonic => unsupported mnemonic

theorem translate_of_call {cs : List Char} (h : cutResult? (trim cs) = none) :
    translate cs = ofInstruction (trim cs) := by
  rw [translate]
  split
  · rfl
  · next hsome => exact absurd (h ▸ hsome) (by simp)

theorem translate_of_result {cs result call register : List Char}
    (h : cutResult? (trim cs) = some (result, call))
    (hregister : (words result)[1]? = some register) :
    translate cs = (translate call).assignTo (String.ofList register) := by
  rw [translate]
  split
  · next hnone => exact absurd (h ▸ hnone) (by simp)
  · next hsome =>
    obtain ⟨rfl, rfl⟩ := Prod.mk.inj (Option.some.inj (h.symm.trans hsome))
    rw [hregister]
    cases translate call <;> rfl

theorem translate_congr {cs cs' : List Char} (h : trim cs = trim cs') :
    translate cs = translate cs' := by
  rw [translate, translate]
  revert h
  generalize trim cs = text
  rintro rfl
  rfl

/-- A call with its receiving instruction in front is the statement of the call, assigned to the
register; a call that cannot be lowered stays what it is. -/
theorem translate_receiving {suffix register : String} (hsuffix : isOperand suffix = true)
    (hregister : isOperand register = true) (hne : register ≠ "") (call : String) :
    translate (receiving suffix register ++ "=" ++ call).toList =
      (translate call.toList).assignTo register := by
  have htrim : trim (receiving suffix register ++ "=" ++ call).toList =
      (receiving suffix register).toList ++ "=".toList ++ trimEnd call.toList := by
    have hstart : trimStart (receiving suffix register ++ "=" ++ call).toList =
        (receiving suffix register).toList ++ '=' :: call.toList := by
      simp [receiving, moveResultMark, trimStart, isBlank]
    rw [trim, hstart, trimEnd_append_cons (by decide)]
    simp
  have hequals : ¬Has "=" ((receiving suffix register).toList ++ "=".toList.dropLast) := by
    intro h
    exact equals_not_mem_receiving hsuffix hregister (by simpa using h.mem (c := '=') (by decide))
  have hcut : cutResult? (trim (receiving suffix register ++ "=" ++ call).toList) =
      some ((receiving suffix register).toList, trimEnd call.toList) := by
    rw [cutResult?, htrim, cut_append hequals, if_pos]
    exact ⟨(suffix ++ " " ++ register ++ "=").toList ++ trimEnd call.toList,
      by simp [receiving, moveResultMark]⟩
  have hwords : (words (receiving suffix register).toList)[1]? = some register.toList := by
    rw [words_receiving hsuffix hregister hne]
    rfl
  rw [translate_of_result hcut hwords, String.ofList_toList,
    translate_congr (trim_trimEnd call.toList)]

end ThreeAddress

namespace Code

variable {code : Code} {n : Int64} {call suffix register : String}

private theorem has_receiving (suffix register : String) :
    Has moveResultMark (receiving suffix register).toList :=
  ⟨[], (suffix ++ " " ++ register).toList, by simp [receiving]⟩

private theorem Receives.joined_call (h : code.Receives n call suffix register) :
    code.joined n call = receiving suffix register ++ "=" ++ call := by
  rw [joined, if_neg h.call_not_receiving, h.receiving_line]
  exact if_pos (has_receiving suffix register)

private theorem Receives.joined_receiving (h : code.Receives n call suffix register) :
    code.joined (n + 1) (receiving suffix register) = receiving suffix register ++ "=" ++ call := by
  rw [joined, if_pos (has_receiving suffix register), Int64.add_sub_cancel, h.call_line]

end Code

namespace ClassTable

variable {table : ClassTable} {code : Code} {method : String} {n : Int64}
  {call suffix register : String}

theorem instruction?_received (hcode : table[method]? = some code)
    (h : code.Receives n call suffix register) (cls : String) :
    table.instruction? ⟨cls, method, n⟩ =
        some ⟨cls ++ ";", method, n, receiving suffix register ++ "=" ++ call⟩ ∧
      table.instruction? ⟨cls, method, n + 1⟩ =
        some ⟨cls ++ ";", method, n + 1, receiving suffix register ++ "=" ++ call⟩ := by
  constructor
  · simp [instruction?, hcode, h.call_line, h.joined_call]
  · simp [instruction?, hcode, h.receiving_line, h.joined_receiving]

end ClassTable

namespace Resolver

variable {files : FileTree} {r : Resolver}

theorem table_fst (r : Resolver) (key : String) :
    (r.table files key).1 = (r.cached[key]?.map Except.ok).getD (r.load files key) := by
  rw [table]
  cases r.cached[key]? with
  | some entry => rfl
  | none => cases r.load files key <;> rfl

theorem table_cases (files : FileTree) (r : Resolver) (key : String) :
    (r.table files key).2 = r ∨ r.cached[key]? = none ∧ ∃ entry, r.load files key = .ok entry ∧
      (r.table files key).2 = { r with cached := r.cached.insert key entry } := by
  rw [table]
  cases r.cached[key]? with
  | some entry => exact .inl rfl
  | none =>
    cases hload : r.load files key with
    | error failure => exact .inl rfl
    | ok entry => exact .inr ⟨rfl, entry, rfl, rfl⟩

/-- A table that was looked for does not change what is found later. -/
theorem table_table (r : Resolver) (key key' : String) :
    ((r.table files key).2.table files key').1 = (r.table files key').1 := by
  rcases table_cases files r key with hsame | ⟨hcached, entry, hload, hinsert⟩
  · rw [hsame]
  have hsources : ({ r with cached := r.cached.insert key entry } : Resolver).load files key' =
      r.load files key' := rfl
  rw [hinsert, table_fst, table_fst, hsources, Std.TreeMap.getElem?_insert]
  split
  · next hkey =>
    obtain rfl : key = key' := Std.LawfulEqCmp.eq_of_compare hkey
    rw [hcached, hload]
    rfl
  · rfl

theorem resolve_cases (files : FileTree) (r : Resolver) (statement : String) :
    (r.resolve files statement).2 = r ∨
      ∃ key, (r.resolve files statement).2 = (r.table files key).2 := by
  rw [resolve]
  split
  · exact .inl rfl
  · exact .inr ⟨_, rfl⟩

/-- What a statement is resolved to does not depend on the statements that were resolved before. -/
theorem resolve_resolve (r : Resolver) (statement statement' : String) :
    ((r.resolve files statement).2.resolve files statement').1 =
      (r.resolve files statement').1 := by
  rcases resolve_cases files r statement with hafter | ⟨key, hafter⟩
  · rw [hafter]
  · rw [hafter, resolve, resolve]
    split
    · rfl
    · next s _ => exact congrArg (Except.map _) (table_table r key s.key)

theorem resolve_of_table {table : ClassTable} {statement : String} {ref : StatementRef}
    (href : StatementRef.read? statement = some ref)
    (htable : (r.table files ref.key).1 = .ok (some table)) :
    (r.resolve files statement).1 = .ok (table.instruction? ref) := by
  rw [resolve, href]
  exact congrArg (Except.map _) htable

end Resolver

end LeakTrace
