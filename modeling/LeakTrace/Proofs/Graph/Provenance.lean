import LeakTrace.Extraction.Reconstruction
import LeakTrace.Proofs.Graph.Closure
import LeakTrace.Proofs.Graph.SplicedLines
import LeakTrace.Proofs.Graph.TopLevel
import LeakTrace.Proofs.Log.Dumps

namespace LeakTrace

/-- A bridge between two lines that the property holds of has it as well. -/
def KeptByBridges (P : Fragment → Prop) : Prop :=
  ∀ previous first, P previous → P first → P ⟨consumer previous, first.node, none⟩

variable {P : Fragment → Prop}

/-- The property holds of every line that a graph comes to. -/
def HoldsOf (P : Fragment → Prop) (lookup : GraphId → Option (List Fragment)) : Prop :=
  ∀ g lines, lookup g = some lines → ∀ f ∈ lines, P f

private theorem Splicer.Builds.holdsOf {graphs : GraphSet} {calls built : List GraphId}
    {s : Splicer}
    (h : Builds graphs calls (ofGraphs graphs) built s) (hbridge : KeptByBridges P)
    (hraw : HoldsOf P graphs.get?) : HoldsOf P s.result? := by
  induction h with
  | nil => simp [HoldsOf, ofGraphs, result?]
  | @concat built s g lines hbuilds hready ih =>
    have hlines := hraw g lines hready.lines_eq
    intro t out ht f hf
    rw [result?_build] at ht
    split at ht
    · obtain rfl := Option.some.inj ht
      cases Placed.of_mem hf with
      | kept hf => exact hlines f (mem_ordinaryLines.mp hf).1
      | nested _ hinner hf => exact ih _ _ hinner f hf
      | bridge hpair _ hfirst =>
        have hprevious := hlines _ (hpair.subset List.mem_cons_self)
        exact hbridge _ _ hprevious (ih _ _ hfirst _ List.mem_cons_self)
    · exact ih t out ht f hf

namespace TaintLog

variable {log : TaintLog} {lines : List String} {g : GraphId} {f : Fragment}
  {out : List Fragment}

/-- The splicer of a log when all graphs of the log are spliced. -/
def splicer (log : TaintLog) : Splicer :=
  log.graphs.ids.foldl Splicer.splice (.ofGraphs log.closedGraphs)

theorem visits_splicer (log : TaintLog) : ∃ built, Splicer.Visits log.closedGraphs.ids
    (.ofGraphs log.closedGraphs) log.graphs.ids built log.splicer :=
  Splicer.Visits.calls (.ofGraphs log.closedGraphs) log.graphs.ids

private theorem builds_splicer (log : TaintLog) :
    ∃ built, Splicer.Builds log.closedGraphs log.graphs.ids
    (.ofGraphs log.closedGraphs) built log.splicer := by
  obtain ⟨built, hvisits⟩ := visits_splicer log
  exact ⟨built, hvisits.builds_called (Splicer.divided_ofGraphs log.closedGraphs)⟩

theorem graphs_reconstruct (log : TaintLog) : log.reconstruct.graphs =
    ((Splicer.ofGraphs log.closedGraphs).spliceAll log.graphs.ids log.boundaries).1 := rfl

theorem bindings_reconstruct (log : TaintLog) : log.reconstruct.bindings = log.bindings := rfl

private theorem get?_reconstruct (log : TaintLog) (g : GraphId) : log.reconstruct.graphs.get? g =
    if g ∈ log.graphs.ids ∧ g ∉ log.boundaries then log.splicer.result? g else none :=
  Splicer.get?_spliceAll (.ofGraphs log.closedGraphs) log.graphs.ids log.boundaries g

private theorem get?_reconstruct_eq_some (h : log.reconstruct.graphs.get? g = some out) :
    g ∈ log.graphs.ids ∧ g ∉ log.boundaries ∧ log.splicer.result? g = some out := by
  rw [get?_reconstruct] at h
  split at h
  · next hg => exact ⟨hg.1, hg.2, h⟩
  · exact absurd h (by simp)

theorem mem_ids_reconstruct (h : g ∈ log.reconstruct.graphs.ids) :
    g ∈ log.graphs.ids ∧ g ∉ log.boundaries := by
  obtain ⟨out, hout⟩ := Option.isSome_iff_exists.mp (GraphSet.contains_iff_mem_ids.mpr h)
  obtain ⟨hin, htop, -⟩ := get?_reconstruct_eq_some hout
  exact ⟨hin, htop⟩

private theorem mem_ids_reconstruct_of_top (hin : g ∈ log.graphs.ids) (htop : g ∉ log.boundaries) :
    g ∈ log.reconstruct.graphs.ids := by
  obtain ⟨built, hvisits⟩ := visits_splicer log
  have hdumped : log.closedGraphs.contains g = true := by
    rw [GraphSet.contains_iff_mem_ids, closedGraphs, GraphSet.close, GraphSet.ids_map]
    exact hin
  rw [← GraphSet.contains_iff_mem_ids, GraphSet.contains, get?_reconstruct, if_pos ⟨hin, htop⟩]
  exact hvisits.isSome_called (Splicer.divided_ofGraphs log.closedGraphs) hin hdumped

theorem keyed_cache (lines : List String) : (ofLines lines).cache.Keyed :=
  fun _ _ hc => (dumps_of_cached hc).1

theorem exists_own_of_closedGraphs (h : (ofLines lines).closedGraphs.get? g = some out) :
    ∃ own, out = closeGraph (ofLines lines).cache own ∧ ∀ f, f ∈ own ↔ Dumps lines g f := by
  rw [closedGraphs, GraphSet.close, GraphSet.get?_map] at h
  obtain ⟨own, hown, rfl⟩ := Option.map_eq_some_iff.mp h
  refine ⟨own, rfl, fun f => ?_⟩
  rw [← mem_fragments_ofLines, fragments, hown, Option.getD_some]

/-- Closing a graph of a log keeps what was dumped under it and adds nothing that was not dumped. -/
theorem get?_closedGraphs (h : (ofLines lines).closedGraphs.get? g = some out) :
    (∀ f, Dumps lines g f → f ∈ out) ∧ ∀ f ∈ out, ∃ t, Dumps lines t f := by
  obtain ⟨own, rfl, hdumps⟩ := exists_own_of_closedGraphs h
  have hcompletes : (ofLines lines).cache.Completes own {f | ∃ t, Dumps lines t f} :=
    ⟨fun f hf => ⟨g, (hdumps f).mp hf⟩, fun _ _ _ _ _ hc => (dumps_of_cached hc).2⟩
  obtain ⟨hkept, hleast⟩ := closeGraph_least (keyed_cache lines) own
  exact ⟨fun f hf => hkept ((hdumps f).mpr hf), hleast _ hcompletes⟩

end TaintLog

/-- What holds of every dumped fragment holds of every reconstructed line, if bridges keep it. -/
theorem forall_reconstruct {lines : List String} (hbridge : KeptByBridges P)
    (hdumped : ∀ g f, Dumps lines g f → P f) :
    HoldsOf P (TaintLog.ofLines lines).reconstruct.graphs.get? := by
  intro g out hg
  obtain ⟨-, -, hout⟩ := TaintLog.get?_reconstruct_eq_some hg
  obtain ⟨built, hbuilds⟩ := (TaintLog.ofLines lines).builds_splicer
  refine hbuilds.holdsOf hbridge (fun t raw ht f hf => ?_) g out hout
  obtain ⟨u, hdump⟩ := (TaintLog.get?_closedGraphs ht).2 f hf
  exact hdumped u f hdump

private theorem consumer_eq (f : Fragment) :
    consumer f = f.node ∨ consumer f = f.left ∨ f.right = some (consumer f) := by
  rw [consumer]
  split
  · exact .inr (.inl rfl)
  · cases f.right with
    | none => exact .inl rfl
    | some right => exact .inr (.inr rfl)

/-- A bridge that leads from the first line of a spliced graph to a node that some dumped fragment
names. -/
structure DumpBridge (lines : List String) (f : Fragment) : Prop where
  right_none : f.right = none
  node_dumped : ∃ t d, Dumps lines t d ∧ (f.node = d.node ∨ f.node = d.left ∨ d.right = some f.node)
  left_spliced : ∃ t first rest,
    (TaintLog.ofLines lines).splicer.result? t = some (first :: rest) ∧ f.left = first.node

/-- A reconstruction has the dumped graphs that do not stand beyond a boundary. The list of each
holds all that was dumped under it, boundary lines apart, and what else it holds was dumped
elsewhere or is a bridge. -/
theorem reconstruct_keeps_dumps (lines : List String) :
    let log := TaintLog.ofLines lines
    (∀ g, g ∈ log.reconstruct.graphs.ids ↔ (∃ f, Dumps lines g f) ∧ g ∉ log.boundaries) ∧
      ∀ g out, log.reconstruct.graphs.get? g = some out →
        (∀ f, Dumps lines g f → f.node.isBoundary = false → f ∈ out) ∧
        ∀ f ∈ out, (∃ t, Dumps lines t f) ∨ DumpBridge lines f := by
  intro log
  refine ⟨fun g => ?_, fun g out hg => ?_⟩
  · rw [← TaintLog.mem_ids_ofLines]
    exact ⟨TaintLog.mem_ids_reconstruct,
      fun ⟨hin, htop⟩ => TaintLog.mem_ids_reconstruct_of_top hin htop⟩
  · obtain ⟨-, -, hout⟩ := TaintLog.get?_reconstruct_eq_some hg
    obtain ⟨built, hbuilds⟩ := log.builds_splicer
    have hdivided := hbuilds.divided (Splicer.divided_ofGraphs log.closedGraphs)
    obtain ⟨closed, hclosed⟩ := Option.isSome_iff_exists.mp (hdivided.dumped g out hout)
    refine ⟨fun f hf hord => ?_, fun f hf => ?_⟩
    · have hmem := (TaintLog.get?_closedGraphs hclosed).1 f hf
      exact hbuilds.ordinaryLines_subset hout hclosed (mem_ordinaryLines.mpr ⟨hmem, hord⟩)
    · cases hbuilds.stems g out hout f hf with
      | line _ hlines hf =>
        exact .inl ((TaintLog.get?_closedGraphs hlines).2 f (mem_ordinaryLines.mp hf).1)
      | @bridge t previous boundary first rest hpair _ hfirst =>
        obtain ⟨u, raw, -, hraw, hinfix⟩ := hpair
        have hprevious : previous ∈ raw := hinfix.subset List.mem_cons_self
        obtain ⟨v, hdump⟩ := (TaintLog.get?_closedGraphs hraw).2 previous hprevious
        exact .inr ⟨rfl, ⟨v, previous, hdump, consumer_eq previous⟩, t, first, rest, hfirst, rfl⟩

end LeakTrace
