import LeakTrace.Proofs.Output.Rows
import Mathlib.Data.List.Induction
import Mathlib.Data.List.SplitBy

namespace LeakTrace

/-- An instruction of a path, and what it is lowered to. -/
structure Lowering where
  instruction : Instruction
  lowered : ThreeAddress
deriving DecidableEq, Repr

namespace Lowering

/-- The instructions of a path with what they are lowered to. A reflective call at the head of the path
is lowered to a call of its recorded target. -/
def ofInstructions (bindings : Bindings) : List Instruction → List Lowering
  | [] => []
  | first :: rest => ⟨first, first.loweredFirst bindings⟩ :: rest.map fun i => ⟨i, i.lowered⟩

/-- It returns from its method without a value. -/
def isReturn (l : Lowering) : Bool := l.lowered.statement? = some "return"

def isUnsupported (l : Lowering) : Bool := l.lowered.isUnsupported

/-- The method and the statement, as a row shows them. -/
def shown (l : Lowering) : String × String := (l.instruction.methodText, l.lowered.text)

/-- The row of the given index. -/
def row (l : Lowering) (index : Nat) : PathRow :=
  ⟨index, l.instruction.methodText, l.instruction.line, l.lowered.text⟩

/-- What is left of a path whose returns may be skipped. -/
def kept (skip : Bool) (ls : List Lowering) : List Lowering :=
  ls.filter fun l => !(skip && l.isReturn)

/-- The maximal runs that say the same. -/
def runs (ls : List Lowering) : List (List Lowering) := ls.splitBy fun a b => a.shown = b.shown

/-- The first of each run. -/
def emitted (ls : List Lowering) : List Lowering := (runs ls).filterMap List.head?

/-- All but the first of each run. -/
def repeated (ls : List Lowering) : List Lowering := (runs ls).flatMap List.tail

theorem map_instruction_ofInstructions (bindings : Bindings) (instructions : List Instruction) :
    (ofInstructions bindings instructions).map instruction = instructions := by
  cases instructions with
  | nil => rfl
  | cons first rest => simp [ofInstructions, Function.comp_def]

private theorem countP_isUnsupported_kept (skip : Bool) (ls : List Lowering) :
    (kept skip ls).countP isUnsupported = ls.countP isUnsupported := by
  rw [kept, List.countP_filter]
  refine List.countP_congr fun l _ => ?_
  obtain ⟨i, lowered⟩ := l
  cases lowered with
  | statement text => simp [isUnsupported, ThreeAddress.isUnsupported]
  | unsupported mnemonic =>
    simp [isUnsupported, isReturn, ThreeAddress.isUnsupported, ThreeAddress.statement?]

variable {ls : List Lowering} {l a : Lowering}

private theorem runs_concat_of_ne (h : ∀ a ∈ ls.getLast?, a.shown ≠ l.shown) :
    runs (ls ++ [l]) = runs ls ++ [[l]] :=
  List.splitBy_append_cons [] fun a ha => decide_eq_false (h a ha)

private theorem runs_concat_of_eq (ls : List Lowering) (h : a.shown = l.shown) :
    ∃ before run, runs (ls ++ [a]) = before ++ [run ++ [a]] ∧
      runs (ls ++ [a] ++ [l]) = before ++ [run ++ [a] ++ [l]] := by
  have hne : runs (ls ++ [a]) ≠ [] := List.splitBy_ne_nil.mpr (by simp)
  obtain ⟨before, last, hruns⟩ : ∃ before last, runs (ls ++ [a]) = before ++ [last] :=
    ⟨_, _, (List.dropLast_concat_getLast hne).symm⟩
  obtain ⟨hflatten, hnil, hchains, hbounds⟩ := List.splitBy_eq_iff.mp hruns
  have hlast : last ≠ [] := fun heq => hnil (by simp [heq])
  obtain ⟨run, b, rfl⟩ : ∃ run b, last = run ++ [b] :=
    ⟨_, _, (List.dropLast_concat_getLast hlast).symm⟩
  obtain ⟨hls, rfl⟩ : ls = before.flatten ++ run ∧ a = b := by
    rw [List.flatten_concat, ← List.append_assoc] at hflatten
    exact ⟨(List.append_inj' hflatten rfl).1, List.singleton_inj.mp (List.append_inj' hflatten rfl).2⟩
  refine ⟨before, run, hruns, List.splitBy_eq_iff.mpr ⟨?_, ?_, ?_, ?_⟩⟩
  · rw [List.flatten_concat, hls]
    simp only [List.append_assoc]
  · simpa using hnil
  · intro m hm
    rcases List.mem_append.mp hm with hm | hm
    · exact hchains m (List.mem_append_left _ hm)
    · obtain rfl := List.mem_singleton.mp hm
      refine List.isChain_append.mpr ⟨hchains _ (by simp), List.isChain_singleton l, ?_⟩
      simpa using h
  · obtain ⟨hbefore, -, hbound⟩ := List.isChain_append.mp hbounds
    refine List.isChain_append.mpr ⟨hbefore, List.isChain_singleton _, fun m hm m' hm' => ?_⟩
    obtain ⟨hm₁, hm₂, hdiffer⟩ := hbound m hm (run ++ [a]) rfl
    obtain rfl : run ++ [a] ++ [l] = m' := by simpa using hm'
    refine ⟨hm₁, by simp, ?_⟩
    rwa [List.head_append_of_ne_nil]

theorem emitted_concat (ls : List Lowering) (l : Lowering) :
    emitted (ls ++ [l]) =
      if (ls.getLast?.any fun a => a.shown = l.shown) = true then emitted ls else emitted ls ++ [l] := by
  split
  · next hsame =>
    rcases List.eq_nil_or_concat ls with rfl | ⟨ls, a, rfl⟩
    · exact absurd hsame (by simp)
    rw [List.concat_eq_append] at hsame ⊢
    obtain ⟨before, run, hruns, hruns'⟩ := runs_concat_of_eq ls (by simpa using hsame)
    rw [emitted, emitted, hruns, hruns', List.filterMap_append, List.filterMap_append]
    cases run <;> rfl
  · next hdiffer =>
    have hne : ∀ a ∈ ls.getLast?, a.shown ≠ l.shown := by
      intro a ha heq
      exact hdiffer (by rw [Option.mem_def.mp ha, Option.any_some, decide_eq_true heq])
    rw [emitted, runs_concat_of_ne hne, List.filterMap_append]
    rfl

private theorem map_shown_getLast?_emitted (ls : List Lowering) :
    (emitted ls).getLast?.map shown = ls.getLast?.map shown := by
  induction ls using List.reverseRecOn with
  | nil => rfl
  | append_singleton ls l ih =>
    rw [emitted_concat, List.getLast?_concat]
    split
    · next hsame =>
      rw [ih]
      cases hlast : ls.getLast? with
      | none => exact absurd (hlast ▸ hsame) (by simp)
      | some a =>
        rw [hlast, Option.any_some, decide_eq_true_eq] at hsame
        rw [Option.map_some, Option.map_some, hsame]
    · rw [List.getLast?_concat]

private theorem countP_emitted_add_countP_repeated (p : Lowering → Bool) (ls : List Lowering) :
    (emitted ls).countP p + (repeated ls).countP p = ls.countP p := by
  have hruns : ∀ gs : List (List Lowering),
      (gs.filterMap List.head?).countP p + (gs.flatMap List.tail).countP p = gs.flatten.countP p := by
    intro gs
    induction gs with
    | nil => rfl
    | cons g gs ih =>
      cases g with
      | nil => exact ih
      | cons a g =>
        simp only [List.filterMap_cons, List.head?_cons, List.flatMap_cons, List.tail_cons,
          List.flatten_cons, List.cons_append, List.countP_cons, List.countP_append, ← ih]
        omega
  have hflatten : (runs ls).flatten = ls := List.flatten_splitBy _ ls
  rw [emitted, repeated, hruns, hflatten]

end Lowering

namespace LoweredPath

open Lowering

variable {skip : Bool} {bindings : Bindings}

private theorem bytecode_add (p : LoweredPath) (i : Instruction) (lowered : ThreeAddress) :
    (p.add skip i lowered).bytecode = p.bytecode ++ [i.bytecodeRow p.bytecode.length] := by
  rw [add]
  split
  · rfl
  · split <;> (rw [addRow]; split <;> rfl)

/-- An instruction is counted before it is compared with the last row. A return is supported. -/
theorem unsupported_add (p : LoweredPath) (i : Instruction) (lowered : ThreeAddress) :
    (p.add skip i lowered).unsupported =
      p.unsupported + if lowered.isUnsupported = true then 1 else 0 := by
  rw [add]
  split
  · next hskipped =>
    cases lowered with
    | statement text => rfl
    | unsupported mnemonic => exact absurd hskipped (by simp [ThreeAddress.statement?])
  · split
    · rw [addRow]
      split <;> rfl
    · rw [addRow]
      split <;> rfl

/-- What the loop has made of the beginning of a path. -/
structure Shows (skip : Bool) (ls : List Lowering) (p : LoweredPath) : Prop where
  rows : p.rows = (emitted (kept skip ls)).mapIdx fun n l => l.row n
  bytecode : p.bytecode = (ls.map instruction).mapIdx fun n i => i.bytecodeRow n
  unsupported : p.unsupported = ls.countP isUnsupported

private theorem shows_empty (skip : Bool) : Shows skip [] empty := ⟨rfl, rfl, rfl⟩

private theorem kept_concat (skip : Bool) (ls : List Lowering) (l : Lowering) :
    kept skip (ls ++ [l]) =
      if (skip && l.isReturn) = true then kept skip ls else kept skip ls ++ [l] := by
  simp only [kept, List.filter_append, List.filter_singleton]
  cases skip && l.isReturn with
  | true => simp
  | false => simp

/-- The last row shows what the last of the path shows that was not skipped. -/
theorem Shows.add {ls : List Lowering} {p : LoweredPath} (h : Shows skip ls p) (l : Lowering) :
    Shows skip (ls ++ [l]) (p.add skip l.instruction l.lowered) where
  rows := by
    have hlast : (p.rows.getLast?.any fun last =>
        last.method = l.instruction.methodText && last.statement = l.lowered.text) =
          ((kept skip ls).getLast?.map shown).any (· = l.shown) := by
      rw [← map_shown_getLast?_emitted, h.rows, List.getLast?_mapIdx]
      cases (emitted (kept skip ls)).getLast? with
      | none => rfl
      | some a => simp [row, shown]
    rw [rows_add, hlast, kept_concat, Option.any_map, h.rows, List.length_mapIdx]
    change (if (skip && l.isReturn) = true then _ else _) = _
    split
    · rfl
    · rw [emitted_concat]
      split
      · rfl
      · exact List.mapIdx_concat.symm
  bytecode := by
    rw [bytecode_add, h.bytecode, List.map_append, List.map_singleton, List.mapIdx_concat,
      List.length_mapIdx]
  unsupported := by
    rw [unsupported_add, h.unsupported, List.countP_append, List.countP_singleton]
    rfl

private theorem shows_foldl (skip : Bool) (ls : List Lowering) :
    Shows skip ls (ls.foldl (fun p l => p.add skip l.instruction l.lowered) empty) := by
  induction ls using List.reverseRecOn with
  | nil => exact shows_empty skip
  | append_singleton ls l ih =>
    rw [List.foldl_append]
    exact ih.add l

theorem shows_ofInstructions (bindings : Bindings) (skip : Bool) (instructions : List Instruction) :
    Shows skip (Lowering.ofInstructions bindings instructions)
      (ofInstructions bindings skip instructions) := by
  have hfoldl := shows_foldl skip (Lowering.ofInstructions bindings instructions)
  cases instructions with
  | nil => exact hfoldl
  | cons first rest =>
    rw [Lowering.ofInstructions, List.foldl_cons, List.foldl_map] at hfoldl
    exact hfoldl

/-- What repeats the row before it is counted, though it has no row. -/
theorem unsupported_ofInstructions (bindings : Bindings) (skip : Bool)
    (instructions : List Instruction) :
    let ls := kept skip (Lowering.ofInstructions bindings instructions)
    (ofInstructions bindings skip instructions).unsupported =
      (emitted ls).countP isUnsupported + (repeated ls).countP isUnsupported := by
  intro ls
  rw [countP_emitted_add_countP_repeated, countP_isUnsupported_kept]
  exact (shows_ofInstructions bindings skip instructions).unsupported

/-- Every instruction has a row of bytecode, and these are numbered in order. The rows of statements
are the lowered instructions, the first one with its reflective target if it has one, without the
returns that are skipped, each maximal run that shows the same method and statement cut down to its
first, and numbered without gaps. -/
theorem rows_collapsed (bindings : Bindings) (skip : Bool) (instructions : List Instruction) :
    let p := ofInstructions bindings skip instructions
    p.bytecode = instructions.mapIdx (fun n i => i.bytecodeRow n) ∧
      p.rows = (emitted (kept skip (Lowering.ofInstructions bindings instructions))).mapIdx
        fun n l => l.row n := by
  intro p
  have hshows := shows_ofInstructions bindings skip instructions
  exact ⟨map_instruction_ofInstructions bindings instructions ▸ hshows.bytecode, hshows.rows⟩

end LoweredPath

end LeakTrace
