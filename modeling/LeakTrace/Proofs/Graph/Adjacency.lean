import LeakTrace.Proofs.Graph.Partition

namespace LeakTrace

/-- A flow can start at the node. -/
structure Bindings.Starts (bindings : Bindings) (n : Node) : Prop where
  not_root : n.isRoot = false
  not_boundary : n.isBoundary = false
  recorded : bindings.isSource n.time = true

/-- The node is derived in one of the lines, with framework links repaired, or is a predecessor. -/
def Config.Mentions (config : Config) (lines : List Fragment) (n : Node) : Prop :=
  ∃ d ∈ config.derivations none lines, n = d.1 ∨ n ∈ d.2

/-- A line's derived node is its own, unless framework links are repaired and it belongs to the
framework. -/
theorem Config.mem_derivations {config : Config} {previousLeft : Option Node}
    {lines : List Fragment} {d : Node × List Node}
    (h : d ∈ config.derivations previousLeft lines) :
    ∃ line ∈ lines, d.2 = line.predecessors ∧ (d.1 = line.node ∨
      config.repairFrameworkLinks = true ∧ config.isFramework d.1.statement = true) := by
  induction lines generalizing previousLeft with
  | nil => exact absurd h (by simp [derivations])
  | cons line lines ih =>
    rw [derivations] at h
    rcases List.mem_cons.mp h with rfl | h
    · refine ⟨line, List.mem_cons_self, rfl, ?_⟩
      cases previousLeft with
      | none => exact .inl rfl
      | some previous =>
        simp only [derivedNode]
        split
        · next hrepair =>
          simp only [Bool.and_eq_true] at hrepair
          exact .inr ⟨hrepair.1.1.1, hrepair.1.2⟩
        · exact .inl rfl
    · obtain ⟨line', hmem, hd⟩ := ih h
      exact ⟨line', List.mem_cons_of_mem line hmem, hd⟩

namespace FlowGraph

variable {config : Config} {bindings : Bindings} {g : FlowGraph} {n : Node}

private theorem mem_sources_noteSource {m : Node} :
    n ∈ (noteSource bindings g m).sources ↔ n ∈ g.sources ∨ n = m ∧ bindings.Starts n := by
  rw [noteSource]
  split
  · next h =>
    simp only [Bool.and_eq_true, Bool.not_eq_true'] at h
    rw [Std.TreeSet.mem_insert, Std.LawfulEqCmp.compare_eq_iff_eq, or_comm, eq_comm]
    refine or_congr_right ⟨?_, And.left⟩
    rintro rfl
    exact ⟨rfl, h.1.1, h.1.2, h.2⟩
  · next h =>
    simp only [Bool.and_eq_true, Bool.not_eq_true'] at h
    have hnone : ¬(n = m ∧ bindings.Starts n) := by
      rintro ⟨rfl, hstart⟩
      exact h ⟨⟨hstart.not_root, hstart.not_boundary⟩, hstart.recorded⟩
    simp only [hnone, or_false]

@[simp] theorem sources_addEdge (a b : Node) : (addEdge g a b).sources = g.sources := by
  rw [addEdge]
  split
  · rfl
  · split
    · rfl
    · rfl

private theorem mem_sources_addDerivation (d : Node × List Node) :
    n ∈ (addDerivation bindings g d).sources ↔
      n ∈ g.sources ∨ (n = d.1 ∨ n ∈ d.2) ∧ bindings.Starts n := by
  obtain ⟨derived, preds⟩ := d
  have hstep : ∀ (g : FlowGraph) (p : Node),
      n ∈ ((g.noteSource bindings p).addEdge p derived).sources ↔
        n ∈ g.sources ∨ n = p ∧ bindings.Starts n := by
    intro g p
    rw [sources_addEdge, mem_sources_noteSource]
  have hpreds := foldl_iff (Q := fun g : FlowGraph => n ∈ g.sources) hstep preds
    (g.noteSource bindings derived)
  rw [mem_sources_noteSource, or_assoc] at hpreds
  rw [addDerivation, hpreds]
  simp only [or_and_right, ← and_assoc, exists_and_right, exists_eq_right']

theorem mem_sources_build {lines : List Fragment} :
    n ∈ (build config bindings lines).sources ↔ config.Mentions lines n ∧ bindings.Starts n := by
  have hfold := foldl_iff (f := addDerivation bindings) (Q := fun g => n ∈ g.sources)
    (fun _ d => mem_sources_addDerivation d) (config.derivations none lines) empty
  have hempty : n ∉ empty.sources := by simp [empty]
  rw [iff_false_intro hempty, false_or] at hfold
  exact hfold.trans (by simp [Config.Mentions, ← and_assoc])

variable {a b : Node}

@[simp] theorem edge_noteSource (m : Node) : (noteSource bindings g m).Edge a b ↔ g.Edge a b := by
  rw [noteSource]
  split
  · rfl
  · rfl

/-- An edge between the nodes can be part of a flow. -/
def CanFlow (a b : Node) : Prop := a.isRoot = false ∧ isDropped a b = false

private theorem edge_addEdge {c d : Node} :
    (addEdge g c d).Edge a b ↔ g.Edge a b ∨ (a = c ∧ b = d) ∧ CanFlow a b := by
  rw [addEdge]
  split
  · next hroot =>
    have hnone : ¬((a = c ∧ b = d) ∧ CanFlow a b) := by
      rintro ⟨⟨rfl, rfl⟩, hflow⟩
      exact absurd (hflow.1.symm.trans hroot) (by decide)
    simp only [hnone, or_false]
  · next hroot =>
    split
    · next hdropped =>
      have hnone : ¬((a = c ∧ b = d) ∧ CanFlow a b) := by
        rintro ⟨⟨rfl, rfl⟩, hflow⟩
        exact absurd (hflow.2.symm.trans hdropped) (by decide)
      simp only [hnone, or_false]
      rfl
    · next hdropped =>
      rw [Edge, mem_getD_insert_insert]
      refine or_congr_right ⟨?_, ?_⟩
      · rintro ⟨rfl, rfl⟩
        exact ⟨⟨rfl, rfl⟩, eq_false_of_ne_true hroot, eq_false_of_ne_true hdropped⟩
      · rintro ⟨⟨rfl, rfl⟩, -⟩
        exact ⟨rfl, rfl⟩

private theorem edge_addDerivation (d : Node × List Node) :
    (addDerivation bindings g d).Edge a b ↔ g.Edge a b ∨ (d.1 = b ∧ a ∈ d.2) ∧ CanFlow a b := by
  obtain ⟨derived, preds⟩ := d
  have hstep : ∀ (g : FlowGraph) (p : Node),
      ((g.noteSource bindings p).addEdge p derived).Edge a b ↔
        g.Edge a b ∨ (a = p ∧ b = derived) ∧ CanFlow a b := by
    intro g p
    rw [edge_addEdge, edge_noteSource]
  have hpreds := foldl_iff (Q := fun g : FlowGraph => g.Edge a b) hstep preds
    (g.noteSource bindings derived)
  rw [edge_noteSource] at hpreds
  refine hpreds.trans (or_congr_right ⟨?_, ?_⟩)
  · rintro ⟨p, hp, ⟨rfl, rfl⟩, hflow⟩
    exact ⟨⟨rfl, hp⟩, hflow⟩
  · rintro ⟨⟨rfl, hp⟩, hflow⟩
    exact ⟨a, hp, ⟨rfl, rfl⟩, hflow⟩

/-- The edges are the recorded ones that can be part of a flow. -/
theorem edge_build {lines : List Fragment} :
    (build config bindings lines).Edge a b ↔
      (∃ d ∈ config.derivations none lines, d.1 = b ∧ a ∈ d.2) ∧ CanFlow a b := by
  have hfold := foldl_iff (f := addDerivation bindings) (Q := fun g => g.Edge a b)
    (fun _ d => edge_addDerivation d) (config.derivations none lines) empty
  have hempty : ¬empty.Edge a b := by simp [empty, Edge]
  rw [iff_false_intro hempty, false_or] at hfold
  exact hfold.trans (by simp only [← and_assoc, exists_and_right])

private theorem contains_of_edge (h : g.Edge a b) : g.successors.contains a = true := by
  obtain ⟨next, hnext, -⟩ := edge_iff.mp h
  rw [Std.TreeMap.contains_eq_isSome_getElem?, hnext]
  rfl

/-- No node is listed without a successor. -/
def IsTidy (g : FlowGraph) : Prop := ∀ a, g.successors.contains a = true → ∃ b, g.Edge a b

private theorem isTidy_empty : empty.IsTidy := by
  intro a h
  simp [empty] at h

theorem IsTidy.noteSource (h : g.IsTidy) (m : Node) : (noteSource bindings g m).IsTidy := by
  rw [FlowGraph.noteSource]
  split
  · exact h
  · exact h

theorem IsTidy.addEdge (h : g.IsTidy) (c d : Node) : (g.addEdge c d).IsTidy := by
  intro a ha
  have hbefore : (g.addEdge c d).Edge a d ∨ g.successors.contains a = true := by
    rw [FlowGraph.addEdge] at ha ⊢
    split at ha
    · exact .inr ha
    · next hroot =>
      split at ha
      · exact .inr ha
      · next hdropped =>
        rw [Std.TreeMap.contains_insert, Bool.or_eq_true, beq_iff_eq,
          Std.LawfulEqCmp.compare_eq_iff_eq] at ha
        refine ha.imp_left fun hc => ?_
        rw [if_neg hroot, if_neg hdropped, Edge, mem_getD_insert_insert]
        exact .inr ⟨hc, rfl⟩
  rcases hbefore with hedge | hlisted
  · exact ⟨d, hedge⟩
  · obtain ⟨b, hb⟩ := h a hlisted
    exact ⟨b, edge_addEdge.mpr (.inl hb)⟩

theorem IsTidy.addDerivation (h : g.IsTidy) (d : Node × List Node) :
    (addDerivation bindings g d).IsTidy :=
  List.foldlRecOn d.2 _ (h.noteSource d.1) fun _ hg p _ => (hg.noteSource p).addEdge p d.1

/-- The nodes that a built graph lists are those that have a successor. -/
theorem contains_successors_build {lines : List Fragment} :
    (build config bindings lines).successors.contains a = true ↔
      ∃ b, (build config bindings lines).Edge a b := by
  have htidy : (build config bindings lines).IsTidy :=
    List.foldlRecOn _ _ isTidy_empty fun _ hg d _ => hg.addDerivation d
  exact ⟨htidy a, fun ⟨_, hb⟩ => contains_of_edge hb⟩

theorem CanFlow.not_boundary (h : CanFlow a b) : b.isBoundary = false := by
  have hdropped := h.2
  simp only [isDropped, Bool.or_eq_false_iff] at hdropped
  exact hdropped.1.2

end FlowGraph

end LeakTrace
