import LeakTrace.Proofs.Bytecode.Calls
import LeakTrace.Proofs.Output.Collapse

namespace LeakTrace

open Text

namespace Text

variable {mark : String} {a b cs : List Char}

private theorem not_has_of_cutLast (h : cutLast mark cs = some (a, b)) (hmark : mark.toList ≠ []) :
    ¬Has mark b := by
  induction cs generalizing a with
  | nil =>
    obtain ⟨rest, hhere, -⟩ := Option.map_eq_some_iff.mp h
    exact absurd (List.append_eq_nil_iff.mp (afterPrefix_eq_some.mp hhere).symm).1 hmark
  | cons c cs ih =>
    rw [cutLast] at h
    split at h
    · next hlater =>
      obtain ⟨-, rfl⟩ := Prod.mk.inj (Option.some.inj h)
      exact ih hlater
    · next hlater =>
      obtain ⟨rest, hhere, heq⟩ := Option.map_eq_some_iff.mp h
      obtain ⟨-, rfl⟩ := Prod.mk.inj heq
      obtain ⟨d, mark', hcons⟩ := List.exists_cons_of_ne_nil hmark
      have hsplit := afterPrefix_eq_some.mp hhere
      rw [hcons] at hsplit
      obtain ⟨-, rfl⟩ := List.cons.inj hsplit
      exact fun hhas => cutLast_eq_none.mp hlater (hhas.mono (List.suffix_append mark' rest).isInfix)

end Text

/-- What stands behind the last closing brace that a comma and a blank follow is the reference. -/
def SetOff (reference text : List Char) : Prop :=
  ∃ list rest, text = list ++ "\x7d, ".toList ++ rest ∧ ¬Has "\x7d, " rest ∧ trim rest = reference

private theorem setOff_iff {reference text : List Char} : SetOff reference text ↔
    ∃ list rest, cutLast "\x7d, " text = some (list, rest) ∧ trim rest = reference := by
  constructor
  · rintro ⟨list, rest, rfl, hnot, htrim⟩
    have hlast : ¬Has "\x7d, " ("\x7d, ".toList.tail ++ rest) :=
      mt (has_append_left (by decide)).mp hnot
    exact ⟨list, rest, cutLast_append hlast list, htrim⟩
  · rintro ⟨list, rest, hcut, htrim⟩
    exact ⟨list, rest, eq_of_cutLast hcut, not_has_of_cutLast hcut (by decide), htrim⟩

namespace Instruction

variable {i : Instruction} {bindings : Bindings} {m t : MethodRef} {reference : List Char}
  {s target : String} {cls : TypeDescriptor}

private theorem reflectiveTarget?_of_setOff (hcall : ThreeAddress.Calls m reference i.text.toList s)
    (hm : m.isReflectiveInvoke = true) (hset : SetOff reference i.text.toList)
    (hcls : TypeDescriptor.read i.cls.toList = .ok cls)
    (htarget : bindings.reflectiveTarget? cls.text = some target)
    (ht : MethodRef.read target.toList = .ok t) :
    i.reflectiveTarget? bindings = some (.statement ("staticinvoke " ++ t.text ++ "(v0)")) := by
  obtain ⟨list, rest, hcut, rfl⟩ := setOff_iff.mp hset
  have hread := MethodRef.read_trim_eq_ok.mp hcall.read_eq_ok
  have hstatic := ThreeAddress.translate_of_calls (ThreeAddress.calls_static target.toList ht)
  simp only [reflectiveTarget?, bind, pure, hcut, hread, hm, hcls, htarget, hstatic, Except.toOption,
    Option.bind_some, if_true]

/-- No other reference of a call is known. -/
theorem reflectiveTarget?_eq_none (hcall : ThreeAddress.Calls m reference i.text.toList s)
    (hm : m.isReflectiveInvoke = true) (hset : ¬SetOff reference i.text.toList) :
    i.reflectiveTarget? bindings = none := by
  rw [Option.eq_none_iff_forall_ne_some]
  intro lowered hsome
  simp only [reflectiveTarget?, bind, Option.bind_eq_some_iff] at hsome
  obtain ⟨⟨list, rest⟩, hcut, m', hm', hsome⟩ := hsome
  have hread' : MethodRef.read rest = .ok m' := by
    cases hrest : MethodRef.read rest with
    | error fault => exact absurd (hrest ▸ hm') (by simp [Except.toOption])
    | ok m'' =>
      rw [hrest] at hm'
      exact congrArg Except.ok (Option.some.inj hm')
  have hinvoke : m'.isReflectiveInvoke = true := by
    by_contra hnot
    simp [hnot] at hsome
  obtain ⟨rest', hrest', rfl⟩ := hcall.exists_suffix
  have hread := MethodRef.read_trim_eq_ok.mp hcall.read_eq_ok
  have hrest : rest <:+ i.text.toList := ⟨_, (eq_of_cutLast hcut).symm⟩
  refine hset (setOff_iff.mpr ⟨list, rest, hcut, ?_⟩)
  rcases List.suffix_or_suffix_of_suffix hrest hrest' with hsuffix | hsuffix
  · exact (MethodRef.trim_eq_of_reflective hsuffix hread hm hread' hinvoke).symm
  · exact MethodRef.trim_eq_of_reflective hsuffix hread' hinvoke hread hm

end Instruction

namespace Lowering

private theorem head?_emitted (ls : List Lowering) : (emitted ls).head? = ls.head? := by
  induction ls using List.reverseRecOn with
  | nil => rfl
  | append_singleton ls l ih =>
    rw [emitted_concat, List.head?_append]
    split
    · next hsame =>
      cases ls with
      | nil => exact absurd hsame (by simp)
      | cons a ls => exact ih
    · rw [List.head?_append, ih]

theorem ofInstructions_append (bindings : Bindings) (before : List Instruction) (i : Instruction)
    (after : List Instruction) : ofInstructions bindings (before ++ i :: after) =
      ofInstructions bindings before ++
        ⟨i, if before = [] then i.loweredFirst bindings else i.lowered⟩ ::
          after.map fun i => ⟨i, i.lowered⟩ := by
  cases before with
  | nil => rfl
  | cons first rest => simp [ofInstructions]

end Lowering

namespace LoweredPath

open Lowering

variable {skip : Bool} {bindings : Bindings} {before : List Instruction} {i : Instruction}

private theorem isReturn_of_calls {m : MethodRef} {reference cs : List Char} {s : String}
    (h : ThreeAddress.Calls m reference cs s) (i : Instruction) :
    Lowering.isReturn ⟨i, .statement s⟩ = false := by
  have hne : s ≠ "return" := by
    rintro rfl
    exact absurd h.blank_mem (by decide)
  simpa [Lowering.isReturn, ThreeAddress.statement?] using hne

private theorem head?_rows (hskipped : ∀ l ∈ Lowering.ofInstructions bindings before,
      (skip && l.isReturn) = true) {l : Lowering}
    (hl : l = ⟨i, if before = [] then i.loweredFirst bindings else i.lowered⟩)
    (hreturn : l.isReturn = false) (after : List Instruction) :
    (ofInstructions bindings skip (before ++ i :: after)).rows.head? = some (l.row 0) := by
  have hbefore : kept skip (Lowering.ofInstructions bindings before) = [] := by
    simpa [kept] using hskipped
  have hkept : (kept skip (Lowering.ofInstructions bindings (before ++ i :: after))).head? = some l := by
    rw [Lowering.ofInstructions_append, ← hl, kept, List.filter_append, ← kept, hbefore,
      List.nil_append, List.filter_cons_of_pos (by simp [hreturn])]
    rfl
  rw [(shows_ofInstructions bindings skip _).rows, List.head?_mapIdx, head?_emitted, hkept]
  rfl

/-- The path begins, but for returns that are skipped, with an instruction that is lowered to a call of
the reflective method, and the log names a method as the target of its class. The first row is a static
call of this method if the instruction is the first of the path and its reference is set off, and the
call that the instruction is lowered to otherwise. -/
theorem first_row_of_reflective_call {m t : MethodRef} {reference : List Char} {s target : String}
    {cls : TypeDescriptor}
    (hskipped : ∀ l ∈ Lowering.ofInstructions bindings before, (skip && l.isReturn) = true)
    (hcall : ThreeAddress.Calls m reference i.text.toList s) (hm : m.isReflectiveInvoke = true)
    (hcls : TypeDescriptor.read i.cls.toList = .ok cls)
    (htarget : bindings.reflectiveTarget? cls.text = some target)
    (ht : MethodRef.read target.toList = .ok t) (after : List Instruction) :
    ∃ row, (ofInstructions bindings skip (before ++ i :: after)).rows.head? = some row ∧
      row.index = 0 ∧ row.method = i.methodText ∧ row.line = i.line ∧
      (before = [] ∧ SetOff reference i.text.toList →
        row.statement = "staticinvoke " ++ t.text ++ "(v0)") ∧
      (¬(before = [] ∧ SetOff reference i.text.toList) → row.statement = s) := by
  have hlowered : i.lowered = .statement s := ThreeAddress.translate_of_calls hcall
  by_cases hset : before = [] ∧ SetOff reference i.text.toList
  · obtain ⟨rfl, hset⟩ := hset
    have hfirst : i.loweredFirst bindings = .statement ("staticinvoke " ++ t.text ++ "(v0)") := by
      rw [Instruction.loweredFirst,
        Instruction.reflectiveTarget?_of_setOff hcall hm hset hcls htarget ht, Option.getD_some]
    have hhead := head?_rows hskipped (by rw [if_pos rfl, hfirst])
      (isReturn_of_calls (ThreeAddress.calls_static target.toList ht) i) after
    exact ⟨_, hhead, rfl, rfl, rfl, fun _ => rfl, fun hnot => absurd ⟨rfl, hset⟩ hnot⟩
  · have hfirst : (if before = [] then i.loweredFirst bindings else i.lowered) = .statement s := by
      split
      · next hbefore =>
        rw [Instruction.loweredFirst,
          Instruction.reflectiveTarget?_eq_none hcall hm fun h => hset ⟨hbefore, h⟩,
          Option.getD_none, hlowered]
      · exact hlowered
    have hhead := head?_rows hskipped (by rw [hfirst]) (isReturn_of_calls hcall i) after
    exact ⟨_, hhead, rfl, rfl, rfl, fun h => absurd h hset, fun _ => rfl⟩

def invokeMethod : MethodRef :=
  ⟨.object "java.lang.reflect.Method", "invoke",
    [.object "java.lang.Object", .array (.object "java.lang.Object")], .object "java.lang.Object"⟩

def secretMethod : MethodRef := ⟨.object "com.app.Secret", "getId", [], .object "java.lang.String"⟩

def secretBindings : Bindings :=
  Bindings.empty.noteReflective "com.app.Main" (String.ofList secretMethod.encode)

private theorem read_mainClass :
    TypeDescriptor.read "Lcom/app/Main;".toList = .ok (.object "com.app.Main") := by cbv

private theorem target_mainClass :
    secretBindings.reflectiveTarget? (TypeDescriptor.object "com.app.Main").text =
    some (String.ofList secretMethod.encode) := by cbv

private theorem read_secretMethod :
    MethodRef.read (String.ofList secretMethod.encode).toList = .ok secretMethod := by cbv

/-- A call by reflection, with the text that stands between the comma and the reference. -/
def hiddenCall (gap : List Char) : List Char :=
  "invoke-virtual \x7bv1, v2, v3\x7d,".toList ++ gap ++ invokeMethod.encode

def hiddenStatement : String := "virtualinvoke v1." ++ invokeMethod.text ++ "(v2, v3)"

private theorem calls_hiddenCall {gap : List Char} (hgap : gap = [] ∨ gap = [' ']) :
    ThreeAddress.Calls invokeMethod invokeMethod.encode (hiddenCall gap) hiddenStatement := by
  have hread : MethodRef.read invokeMethod.encode = .ok invokeMethod := by cbv
  have hcall : ThreeAddress.call? .virtual ["v1", "v2", "v3"] invokeMethod = some hiddenStatement := by
    decide +kernel
  have hopcode : Opcode.decode "invoke-virtual".toList = .invoke .virtual false := by decide
  have hnone : ThreeAddress.cutResult? (trim (hiddenCall gap)) = none := by
    rcases hgap with rfl | rfl <;> decide +kernel
  have hparts : cutBlank (trim (hiddenCall gap)) = some ("invoke-virtual".toList,
      "\x7bv1, v2, v3\x7d,".toList ++ gap ++ invokeMethod.encode) := by
    rcases hgap with rfl | rfl <;> decide +kernel
  have hlist : Operands.registerList? false
      (trim ("\x7bv1, v2, v3\x7d,".toList ++ gap ++ invokeMethod.encode)) =
        some (["v1", "v2", "v3"], invokeMethod.encode) := by
    rcases hgap with rfl | rfl <;> decide +kernel
  exact .alone hnone hparts hopcode hlist hread hcall

def receivedCall : Instruction :=
  ⟨"Lcom/app/Main;", "run()V", 3,
    String.ofList ((receiving "-object" "v0").toList ++ '=' :: hiddenCall [' '])⟩

theorem receivedCall_first_row :
    ∃ row, (ofInstructions secretBindings true [receivedCall]).rows.head? = some row ∧
      row.statement = "staticinvoke <com.app.Secret: java.lang.String getId()>(v0)" := by
  have hskipped : ∀ l ∈ Lowering.ofInstructions secretBindings [], (true && l.isReturn) = true := by
    simp [Lowering.ofInstructions]
  have hcall : ThreeAddress.Calls invokeMethod invokeMethod.encode receivedCall.text.toList
      (String.ofList "v0".toList ++ " = " ++ hiddenStatement) := by
    have hparts : ThreeAddress.cutResult? (trim receivedCall.text.toList) =
        some ((receiving "-object" "v0").toList, hiddenCall [' ']) := by
      rw [receivedCall, String.toList_ofList]
      decide +kernel
    have hregister : (words (receiving "-object" "v0").toList)[1]? = some "v0".toList := by
      decide +kernel
    exact .received hparts hregister (calls_hiddenCall (.inr rfl))
  have hset : SetOff invokeMethod.encode receivedCall.text.toList := by
    rw [receivedCall, String.toList_ofList]
    exact ⟨(receiving "-object" "v0").toList ++ "=invoke-virtual \x7bv1, v2, v3".toList,
      invokeMethod.encode, by decide +kernel⟩
  obtain ⟨row, hrow, -, -, -, hstatic, -⟩ :=
    first_row_of_reflective_call hskipped hcall rfl read_mainClass target_mainClass
      read_secretMethod []
  exact ⟨row, hrow, hstatic ⟨rfl, hset⟩⟩

/-- The same call without a blank before its reference. -/
def crampedCall : Instruction := ⟨"Lcom/app/Main;", "run()V", 3, String.ofList (hiddenCall [])⟩

/-- It is lowered as well, but its row is not the call of the target. -/
theorem crampedCall_first_row_not_static :
    ¬∀ (bindings : Bindings) (skip : Bool) (before after : List Instruction) (i : Instruction)
      (m t : MethodRef) (reference : List Char) (s target : String) (cls : TypeDescriptor),
      (∀ l ∈ Lowering.ofInstructions bindings before, (skip && l.isReturn) = true) →
      ThreeAddress.Calls m reference i.text.toList s → m.isReflectiveInvoke = true →
      TypeDescriptor.read i.cls.toList = .ok cls →
      bindings.reflectiveTarget? cls.text = some target → MethodRef.read target.toList = .ok t →
      ∃ row, (ofInstructions bindings skip (before ++ i :: after)).rows.head? = some row ∧
        row.statement = "staticinvoke " ++ t.text ++ "(v0)" := by
  intro hevery
  have hskipped : ∀ l ∈ Lowering.ofInstructions secretBindings [], (true && l.isReturn) = true := by
    simp [Lowering.ofInstructions]
  have hcall : ThreeAddress.Calls invokeMethod invokeMethod.encode crampedCall.text.toList
      hiddenStatement := by
    rw [crampedCall, String.toList_ofList]
    exact calls_hiddenCall (.inl rfl)
  obtain ⟨row, hrow, hstatic⟩ := hevery secretBindings true [] [] crampedCall invokeMethod secretMethod
    _ _ _ _ hskipped hcall rfl read_mainClass target_mainClass
    read_secretMethod
  have hset : ¬SetOff invokeMethod.encode crampedCall.text.toList := by
    have hcut : cutLast "\x7d, " (hiddenCall []) = none := by decide +kernel
    rw [setOff_iff, crampedCall, String.toList_ofList, hcut]
    simp
  have hlowered : crampedCall.loweredFirst secretBindings = .statement hiddenStatement := by
    rw [Instruction.loweredFirst, Instruction.reflectiveTarget?_eq_none hcall rfl hset,
      Option.getD_none]
    exact ThreeAddress.translate_of_calls hcall
  have hfirst := head?_rows hskipped (by rw [if_pos rfl, hlowered]) (isReturn_of_calls hcall crampedCall)
    []
  obtain rfl := Option.some.inj (hrow.symm.trans hfirst)
  exact absurd hstatic (by decide)

end LoweredPath

end LeakTrace
