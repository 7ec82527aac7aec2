import LeakTrace.Proofs.Graph.Reachable
import LeakTrace.Proofs.Graph.Reversal
import LeakTrace.Path.Synthesis

namespace LeakTrace

open Relation

/-- The node is the one that is taken from the set: its least or its greatest. -/
def SinkSelection.Picks : SinkSelection → Set Node → Node → Prop
  | .first, s, n => IsLeast s n
  | .last, s, n => IsGreatest s n

namespace Subgraph

/-- The terminal that counts as the sink: the least that matches the recorded sink; where none does,
the least or the greatest of all. -/
def IsChosenSink (g : Subgraph) (recorded : Option Sink) (fallback : SinkSelection) (n : Node) : Prop :=
  IsLeast {t | t ∈ g.terminals ∧ recorded.any (·.matches? t) = true} n ∨
    (∀ t ∈ g.terminals, ¬recorded.any (·.matches? t) = true) ∧ fallback.Picks {t | t ∈ g.terminals} n

variable {g : Subgraph} {recorded : Option Sink} {fallback : SinkSelection} {n : Node}

private theorem find?_recorded (recorded : Option Sink) (terminals : List Node) :
    (recorded.bind fun s => terminals.find? s.matches?) =
      terminals.find? fun t => recorded.any (·.matches? t) := by
  cases recorded with
  | none =>
    symm
    simp
  | some s => rfl

private theorem selectSink?_eq_none_iff :
    g.selectSink? recorded fallback = none ↔ g.terminals = [] := by
  simp only [selectSink?, find?_recorded, Option.or_eq_none_iff]
  cases fallback with
  | first =>
    rw [List.head?_eq_none_iff, and_iff_right_iff_imp]
    intro hnil
    rw [hnil, List.find?_nil]
  | last =>
    rw [List.getLast?_eq_none_iff, and_iff_right_iff_imp]
    intro hnil
    rw [hnil, List.find?_nil]

private theorem selectSink?_eq_some_iff :
    g.selectSink? recorded fallback = some n ↔ g.IsChosenSink recorded fallback n := by
  have hsorted := g.sortedLT_terminals
  simp only [selectSink?, find?_recorded, Option.or_eq_some_iff,
    Ascending.find?_eq_some_iff hsorted, List.find?_eq_none, IsChosenSink]
  cases fallback with
  | first => rw [Ascending.head?_eq_some_iff hsorted, SinkSelection.Picks]
  | last => rw [Ascending.getLast?_eq_some_iff hsorted, SinkSelection.Picks]

end Subgraph

/-- A partition of a built graph has, reversed once more, all successors of the source and of what is
reachable from it, in ascending order, and its terminals are the reachable nodes without successors.
Unless there is a circle in it a sink is selected, and whatever is selected is the chosen one. -/
theorem FlowGraph.partition?_build_reversed {config : Config} {bindings : Bindings}
    {lines : List Fragment} {source : Node} {part : Subgraph}
    (hpart : (build config bindings lines).partition? source = some part) :
    (∀ p, part.forward.contains p = true ↔ ReflTransGen (build config bindings lines).Edge source p ∧
        ∃ d, (build config bindings lines).Edge p d) ∧
      (∀ p next, part.forward[p]? = some next →
        next.SortedLT ∧ ∀ d, d ∈ next ↔ (build config bindings lines).Edge p d) ∧
      part.terminals.SortedLT ∧
      (∀ n, n ∈ part.terminals ↔ TransGen (build config bindings lines).Edge source n ∧
        ∀ b, ¬(build config bindings lines).Edge n b) ∧
      ∀ recorded fallback,
        (part.selectSink? recorded fallback = none → ∃ n, TransGen part.Edge n n) ∧
          ∀ sink, part.selectSink? recorded fallback = some sink ↔
            part.IsChosenSink recorded fallback sink := by
  obtain ⟨-, hedge, -⟩ := partition?_spec hpart
  have hcontains : ∀ p, part.forward.contains p = true ↔
      ReflTransGen (build config bindings lines).Edge source p ∧
        ∃ d, (build config bindings lines).Edge p d := by
    intro p
    rw [Subgraph.contains_forward, exists_congr (hedge p), exists_and_left]
  refine ⟨hcontains, ?_, part.sortedLT_terminals, fun _ => mem_terminals_partition? hpart, ?_⟩
  · intro p next hnext
    obtain ⟨hsorted, hmem⟩ := Subgraph.forward_spec hnext
    have hkey : part.forward.contains p = true := by
      rw [Std.TreeMap.contains_eq_isSome_getElem?, hnext, Option.isSome_some]
    refine ⟨hsorted, fun d => ?_⟩
    rw [hmem, hedge, and_iff_right ((hcontains p).mp hkey).1]
  · intro recorded fallback
    refine ⟨fun hnone => ?_, fun _ => Subgraph.selectSink?_eq_some_iff⟩
    have hfirst : ∃ b, (build config bindings lines).Edge source b := by
      by_contra! hleaf
      rw [partition?_build_eq_none.mpr hleaf] at hpart
      exact absurd hpart (by simp)
    obtain ⟨b, hb⟩ := hfirst
    have hkey := Std.TreeMap.mem_keys.mpr ((mem_partition? hpart).mpr (.single hb))
    exact Subgraph.exists_cycle_of_terminals_eq_nil (List.ne_nil_of_mem hkey)
      (Subgraph.selectSink?_eq_none_iff.mp hnone)

/-- Two nodes that were derived from one source; the later one called a sink. -/
def fork : List Fragment :=
  [⟨⟨11, "La;->early()V(1)"⟩, ⟨10, "La;->x()V(0)"⟩, none⟩,
    ⟨⟨12, "Lcom/app/Main;->leak()V(7)"⟩, ⟨10, "La;->x()V(0)"⟩, none⟩]

def forkPart : Subgraph :=
  ⟨⟨10, "La;->x()V(0)"⟩, FlowGraph.reverseEdges ∅ ⟨10, "La;->x()V(0)"⟩
    [⟨11, "La;->early()V(1)"⟩, ⟨12, "Lcom/app/Main;->leak()V(7)"⟩]⟩

def leakCall : Sink := ⟨"com.app.Main->leak(7)", ""⟩

/-- The recorded sink is chosen, though another terminal is less. -/
theorem fork_chosen_sink :
    (FlowGraph.build {} .empty fork).partition? ⟨10, "La;->x()V(0)"⟩ = some forkPart ∧
      forkPart.IsChosenSink (some leakCall) .first ⟨12, "Lcom/app/Main;->leak()V(7)"⟩ ∧
      forkPart.IsChosenSink none .first ⟨11, "La;->early()V(1)"⟩ := by
  have hpart : (FlowGraph.build {} .empty fork).partition? ⟨10, "La;->x()V(0)"⟩ = some forkPart :=
    FlowGraph.partition?_of_leaves (by decide +kernel) (by decide +kernel)
  obtain ⟨-, -, -, -, hsink⟩ := FlowGraph.partition?_build_reversed hpart
  exact ⟨hpart, ((hsink (some leakCall) .first).2 _).mp (by decide +kernel),
    ((hsink none .first).2 _).mp (by decide +kernel)⟩

end LeakTrace
