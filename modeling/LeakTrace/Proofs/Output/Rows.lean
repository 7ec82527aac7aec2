import LeakTrace.Output.Rows
import LeakTrace.Proofs.Bytecode.ResultCalls

namespace LeakTrace

namespace LoweredPath

variable {skip : Bool} {p q : LoweredPath} {i j : Instruction} {lowered : ThreeAddress}

/-- What an instruction adds to the rows: nothing if its return is skipped or if it repeats the last
row, and its own row otherwise. -/
theorem rows_add (p : LoweredPath) (i : Instruction) (lowered : ThreeAddress) :
    (p.add skip i lowered).rows =
      if (skip && lowered.statement? = some "return") = true then p.rows
      else if (p.rows.getLast?.any fun last =>
          last.method = i.methodText && last.statement = lowered.text) = true then p.rows
      else p.rows ++ [⟨p.rows.length, i.methodText, i.line, lowered.text⟩] := by
  rw [add]
  split
  · rfl
  · split <;> (rw [addRow]; split <;> rfl)

private theorem rows_add_congr (h : p.rows = q.rows) :
    (p.add skip i lowered).rows = (q.add skip i lowered).rows := by
  rw [rows_add, rows_add, h]

private theorem length_rows_add_le : (p.add skip i lowered).rows.length ≤ p.rows.length + 1 := by
  rw [rows_add]
  split
  · exact Nat.le_succ _
  · split
    · exact Nat.le_succ _
    · simp

private theorem rows_add_add (h : j.methodText = i.methodText) :
    ((p.add skip i lowered).add skip j lowered).rows = (p.add skip i lowered).rows := by
  rw [rows_add (p.add skip i lowered)]
  split
  · rfl
  next hskip =>
  rw [if_pos]
  rw [rows_add, if_neg hskip, h]
  split
  · next hrepeated => exact hrepeated
  · simp

private theorem rows_foldl_add_congr (instructions : List Instruction) (h : p.rows = q.rows) :
    (instructions.foldl (fun p i => p.add skip i i.lowered) p).rows =
      (instructions.foldl (fun p i => p.add skip i i.lowered) q).rows := by
  induction instructions generalizing p q with
  | nil => exact h
  | cons i instructions ih => exact ih (rows_add_congr h)

variable {bindings : Bindings} {before : List Instruction}

theorem ofInstructions_append (hbefore : before ≠ []) (after : List Instruction) :
    ofInstructions bindings skip (before ++ after) =
      after.foldl (fun p i => p.add skip i i.lowered) (ofInstructions bindings skip before) := by
  cases before with
  | nil => exact absurd rfl hbefore
  | cons first rest => exact List.foldl_append

private theorem rows_ofInstructions_repeated (hbefore : before ≠ [])
    (hmethod : j.methodText = i.methodText)
    (hlowered : j.lowered = i.lowered) (after : List Instruction) :
    (ofInstructions bindings skip (before ++ i :: j :: after)).rows =
      (ofInstructions bindings skip (before ++ i :: after)).rows := by
  rw [ofInstructions_append hbefore, ofInstructions_append hbefore]
  refine rows_foldl_add_congr after ?_
  beta_reduce
  rw [hlowered]
  exact rows_add_add hmethod

private theorem length_rows_ofInstructions_le (hbefore : before ≠ []) (i : Instruction) :
    (ofInstructions bindings skip (before ++ [i])).rows.length ≤
      (ofInstructions bindings skip before).rows.length + 1 := by
  rw [ofInstructions_append hbefore]
  exact length_rows_add_le

end LoweredPath

/-- Line `n` and the line that receives its result are resolved to one text, whichever is resolved
first. It is lowered to the statement of line `n`, assigned to the register, or is not supported as
line `n` is not. So behind the head of a path the two of them give at most one row. -/
theorem received_call_one_row {files : FileTree} {r : Resolver} {table : ClassTable} {code : Code}
    {cls method call suffix register s s' : String} {n : Int64}
    (hs : StatementRef.read? s = some ⟨cls, method, n⟩)
    (hs' : StatementRef.read? s' = some ⟨cls, method, n + 1⟩)
    (htable : (r.table files (StatementRef.key ⟨cls, method, n⟩)).1 = .ok (some table))
    (hcode : table[method]? = some code) (h : code.Receives n call suffix register) :
    ∃ i j : Instruction, i.line = n ∧ j.line = n + 1 ∧ i.text = j.text ∧
      (r.resolve files s).1 = .ok (some i) ∧ (r.resolve files s').1 = .ok (some j) ∧
      ((r.resolve files s).2.resolve files s').1 = .ok (some j) ∧
      ((r.resolve files s').2.resolve files s).1 = .ok (some i) ∧
      (∀ e, ThreeAddress.translate call.toList = .statement e →
        ThreeAddress.translate i.text.toList = .statement (register ++ " = " ++ e)) ∧
      (∀ m, ThreeAddress.translate call.toList = .unsupported m →
        ThreeAddress.translate i.text.toList = .unsupported m) ∧
      ∀ bindings skip before, before ≠ [] → ∀ x ∈ [i, j], ∀ y ∈ [i, j],
        (LoweredPath.ofInstructions bindings skip (before ++ [x, y])).rows.length ≤
            (LoweredPath.ofInstructions bindings skip before).rows.length + 1 ∧
          ∀ after, (LoweredPath.ofInstructions bindings skip (before ++ x :: y :: after)).rows =
            (LoweredPath.ofInstructions bindings skip (before ++ x :: after)).rows := by
  obtain ⟨hi, hj⟩ := ClassTable.instruction?_received hcode h cls
  have hri : (r.resolve files s).1 = .ok (table.instruction? ⟨cls, method, n⟩) :=
    Resolver.resolve_of_table hs htable
  have hrj : (r.resolve files s').1 = .ok (table.instruction? ⟨cls, method, n + 1⟩) :=
    Resolver.resolve_of_table hs' htable
  rw [hi] at hri
  rw [hj] at hrj
  have htranslate :=
    ThreeAddress.translate_receiving h.suffix_operand h.register_operand h.register_ne call
  refine ⟨⟨cls ++ ";", method, n, receiving suffix register ++ "=" ++ call⟩,
    ⟨cls ++ ";", method, n + 1, receiving suffix register ++ "=" ++ call⟩,
    rfl, rfl, rfl, hri, hrj, ?_, ?_, ?_, ?_, ?_⟩
  · rw [Resolver.resolve_resolve, hrj]
  · rw [Resolver.resolve_resolve, hri]
  · intro e he
    rw [htranslate, he]
    rfl
  · intro m hm
    rw [htranslate, hm]
    rfl
  · intro bindings skip before hbefore x hx y hy
    obtain ⟨hmethod, hlowered⟩ : y.methodText = x.methodText ∧ y.lowered = x.lowered := by
      simp only [List.mem_cons, List.not_mem_nil, or_false] at hx hy
      rcases hx with rfl | rfl <;> rcases hy with rfl | rfl <;> exact ⟨rfl, rfl⟩
    refine ⟨?_, LoweredPath.rows_ofInstructions_repeated hbefore hmethod hlowered⟩
    rw [LoweredPath.rows_ofInstructions_repeated hbefore hmethod hlowered []]
    exact LoweredPath.length_rows_ofInstructions_le hbefore x

def getIdCode : Code :=
  .ofList [("0", "invoke-virtual \x7bp0\x7d, Lcom/app/Main;->getId()Ljava/lang/String;"),
    ("1", "move-result-object v0"), ("2", "return-void")]

def getIdTable : ClassTable := .ofList [("onCreate(Landroid/os/Bundle;)V", getIdCode)]

def getIdResolver : Resolver :=
  ⟨⟨[], "app", 4095⟩, none, .ofList [("Lcom_app_Main", some getIdTable)]⟩

private theorem getId_receives : getIdCode.Receives 0
    "invoke-virtual \x7bp0\x7d, Lcom/app/Main;->getId()Ljava/lang/String;" "-object" "v0" where
  call_line := by decide +kernel
  call_not_receiving := by decide +kernel
  receiving_line := by decide +kernel
  suffix_operand := by decide +kernel
  register_operand := by decide +kernel
  register_ne := by decide

theorem getId_one_row :
    ∃ i j : Instruction, i.text = j.text ∧
      (getIdResolver.resolve ⟨∅⟩ "Lcom/app/Main;->onCreate(Landroid/os/Bundle;)V(0)").1 =
        .ok (some i) ∧
      (getIdResolver.resolve ⟨∅⟩ "Lcom/app/Main;->onCreate(Landroid/os/Bundle;)V(1)").1 =
        .ok (some j) ∧
      ThreeAddress.translate i.text.toList =
        .statement "v0 = virtualinvoke p0.<com.app.Main: java.lang.String getId()>()" ∧
      (LoweredPath.ofInstructions Bindings.empty false [i, i, j]).rows =
        (LoweredPath.ofInstructions Bindings.empty false [i, i]).rows := by
  have hfirst : StatementRef.read? "Lcom/app/Main;->onCreate(Landroid/os/Bundle;)V(0)" =
      some ⟨"Lcom/app/Main", "onCreate(Landroid/os/Bundle;)V", 0⟩ := by decide +kernel
  have hsecond : StatementRef.read? "Lcom/app/Main;->onCreate(Landroid/os/Bundle;)V(1)" =
      some ⟨"Lcom/app/Main", "onCreate(Landroid/os/Bundle;)V", 0 + 1⟩ := by decide +kernel
  have hkey : StatementRef.key ⟨"Lcom/app/Main", "onCreate(Landroid/os/Bundle;)V", 0⟩ =
      "Lcom_app_Main" := by decide +kernel
  have htable : (getIdResolver.table ⟨∅⟩ "Lcom_app_Main").1 = .ok (some getIdTable) := by
    simp [Resolver.table_fst, getIdResolver]
  have hcode : getIdTable["onCreate(Landroid/os/Bundle;)V"]? = some getIdCode := by
    simp [getIdTable]
  have hcall : ThreeAddress.translate
      "invoke-virtual \x7bp0\x7d, Lcom/app/Main;->getId()Ljava/lang/String;".toList =
        .statement "virtualinvoke p0.<com.app.Main: java.lang.String getId()>()" := by
    rw [ThreeAddress.translate_of_call (by decide +kernel)]
    decide +kernel
  obtain ⟨i, j, -, -, htext, hi, hj, -, -, hstatement, -, hrows⟩ :=
    received_call_one_row hfirst hsecond (hkey ▸ htable) hcode getId_receives
  refine ⟨i, j, htext, hi, hj, (hstatement _ hcall).trans (by decide), ?_⟩
  exact (hrows Bindings.empty false [i] (by simp) i (by simp) j (by simp)).2 []

end LeakTrace
