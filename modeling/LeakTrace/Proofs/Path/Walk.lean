import LeakTrace.Path.Synthesis
import LeakTrace.Proofs.Graph.Partition
import Mathlib.Data.List.Nodup

namespace LeakTrace

open Relation

/-- The second node was derived directly from the first, and the walk goes beyond the first. -/
def Subgraph.Leads (g : Subgraph) (sink a b : Node) : Prop := a ≠ sink ∧ g.Edge a b

theorem Subgraph.reaches_of_leads {g : Subgraph} {sink a b : Node}
    (h : ReflTransGen (g.Leads sink) a b) : ReflTransGen g.Edge a b :=
  ReflTransGen.mono (fun _ _ hstep => hstep.2) _ _ h

namespace Walk

/-- The walk met the node's statement, and at the node's time first. -/
def Sees (w : Walk) (n : Node) : Prop := w.firstSeen[n.statement]? = some n.time

/-- The walk that met the nodes, in this order. -/
def ofMet (g : Subgraph) (met : List Node) : Walk := met.foldl (meet g) empty

private theorem ofMet_concat (g : Subgraph) (met : List Node) (n : Node) :
    ofMet g (met ++ [n]) = (ofMet g met).meet g n := by
  rw [ofMet, List.foldl_append]
  rfl

def timesOf (statement : String) (met : List Node) : List Time :=
  (met.filter fun n => n.statement = statement).map Node.time

private theorem mem_timesOf {statement : String} {met : List Node} {t : Time} :
    t ∈ timesOf statement met ↔ ∃ n ∈ met, n.statement = statement ∧ n.time = t := by
  simp [timesOf, and_assoc]

private theorem firstSeen_meet (g : Subgraph) (w : Walk) (n : Node) (statement : String) :
    (w.meet g n).firstSeen[statement]? =
      (w.firstSeen[statement]?.toList ++ timesOf statement [n]).min? := by
  rw [meet, Std.TreeMap.getElem?_insert]
  by_cases h : n.statement = statement
  · subst h
    cases hw : w.firstSeen[n.statement]? with
    | none => simp [timesOf]
    | some t => simp [timesOf]
  · have hne : ¬compare n.statement statement = .eq :=
      fun hc => h (Std.LawfulEqCmp.eq_of_compare hc)
    rw [if_neg hne]
    cases hw : w.firstSeen[statement]? with
    | none => simp [timesOf, h]
    | some t => simp [timesOf, h]

private theorem firstSeen_ofMet (g : Subgraph) (met : List Node) (statement : String) :
    (ofMet g met).firstSeen[statement]? = (timesOf statement met).min? := by
  have hfold : ∀ (met : List Node) (w : Walk), (met.foldl (meet g) w).firstSeen[statement]? =
      (w.firstSeen[statement]?.toList ++ timesOf statement met).min? := by
    intro met
    induction met with
    | nil =>
      intro w
      cases hw : w.firstSeen[statement]? with
      | none => simp [timesOf, hw]
      | some t => simp [timesOf, hw]
    | cons n met ih =>
      intro w
      have hsplit : timesOf statement (n :: met) = timesOf statement [n] ++ timesOf statement met := by
        rw [timesOf, ← List.singleton_append, List.filter_append, List.map_append]
        rfl
      rw [List.foldl_cons, ih, firstSeen_meet, hsplit, ← List.append_assoc]
      cases w.firstSeen[statement]?.toList ++ timesOf statement [n] with
      | nil => rfl
      | cons t ts =>
        simp only [List.min?_cons', Option.toList_some, List.cons_append, List.nil_append,
          List.foldl_append]
  rw [ofMet, hfold]
  simp [empty]

theorem sees_ofMet {g : Subgraph} {met : List Node} {n : Node} :
    (ofMet g met).Sees n ↔ n ∈ met ∧ ∀ m ∈ met, m.statement = n.statement → n.time ≤ m.time := by
  rw [Sees, firstSeen_ofMet, List.min?_eq_some_iff]
  simp only [mem_timesOf]
  constructor
  · rintro ⟨⟨m, hm, hstatement, htime⟩, hleast⟩
    have heq : m = n := by
      cases m; cases n
      simp_all
    exact ⟨heq ▸ hm, fun k hk hs => hleast k.time ⟨k, hk, hs, rfl⟩⟩
  · rintro ⟨hn, hleast⟩
    refine ⟨⟨n, hn, rfl, rfl⟩, ?_⟩
    rintro t ⟨m, hm, hstatement, rfl⟩
    exact hleast m hm hstatement

theorem contains_firstSeen_ofMet {g : Subgraph} {met : List Node} {statement : String} :
    (ofMet g met).firstSeen.contains statement = true ↔ ∃ n ∈ met, n.statement = statement := by
  rw [Std.TreeMap.contains_eq_isSome_getElem?, firstSeen_ofMet, List.isSome_min?_iff]
  simp [timesOf]

/-- What a scan of derived nodes queues: nodes of unseen and distinct times, after which no time of a
derived node is unseen. -/
structure Queues (source : Node) (derived : List Node) (unseen unseen' : Std.TreeSet Time)
    (fresh : List Node) : Prop where
  derived_mem : ∀ n ∈ fresh, n ∈ derived
  times_nodup : (fresh.map Node.time).Nodup
  was_unseen : ∀ t ∈ fresh.map Node.time, t ∈ unseen
  unseen_iff : ∀ t, t ∈ unseen' ↔ t ∈ unseen ∧ t ∉ fresh.map Node.time
  seen : ∀ n ∈ derived, n.time ∉ unseen'
  not_older : ∀ n ∈ derived, source.time ≤ n.time

private theorem enqueue_ok {source : Node} {derived queue queue' : List Node}
    {unseen unseen' : Std.TreeSet Time}
    (h : enqueue source derived unseen queue = .ok (unseen', queue')) :
    ∃ fresh, queue' = queue ++ fresh ∧ Queues source derived unseen unseen' fresh := by
  induction derived generalizing unseen queue with
  | nil =>
    obtain ⟨rfl, rfl⟩ : unseen = unseen' ∧ queue = queue' := by simpa [enqueue] using h
    exact ⟨[], by simp, by simp, by simp, by simp, by simp, by simp, by simp⟩
  | cons n derived ih =>
    rw [enqueue] at h
    split at h
    · exact absurd h (by simp)
    · next hold =>
      have hn : source.time ≤ n.time := Int64.not_lt.mp hold
      split at h
      · next hc =>
        obtain ⟨fresh, rfl, hq⟩ := ih h
        have hunseen : ∀ t, t ∈ unseen.erase n.time ↔ t ∈ unseen ∧ n.time ≠ t := by
          intro t
          rw [Std.TreeSet.mem_erase, ne_eq, Std.LawfulEqCmp.compare_eq_iff_eq, and_comm]
        have hnew : n.time ∉ fresh.map Node.time := by
          intro hm
          exact ((hunseen n.time).mp (hq.was_unseen _ hm)).2 rfl
        refine ⟨n :: fresh, by simp, ?_, ?_, ?_, ?_, ?_, ?_⟩
        · exact List.forall_mem_cons.mpr
            ⟨List.mem_cons_self, fun m hm => List.mem_cons_of_mem n (hq.derived_mem m hm)⟩
        · exact List.nodup_cons.mpr ⟨hnew, hq.times_nodup⟩
        · exact List.forall_mem_cons.mpr
            ⟨hc, fun t ht => ((hunseen t).mp (hq.was_unseen t ht)).1⟩
        · intro t
          rw [hq.unseen_iff, hunseen, List.map_cons, List.mem_cons, not_or, and_assoc, ne_comm]
        · refine List.forall_mem_cons.mpr ⟨?_, hq.seen⟩
          intro hm
          exact ((hunseen n.time).mp ((hq.unseen_iff _).mp hm).1).2 rfl
        · exact List.forall_mem_cons.mpr ⟨hn, hq.not_older⟩
      · next hc =>
        obtain ⟨fresh, hqueue, hq⟩ := ih h
        refine ⟨fresh, hqueue, ?_, hq.times_nodup, hq.was_unseen, hq.unseen_iff, ?_, ?_⟩
        · exact fun m hm => List.mem_cons_of_mem n (hq.derived_mem m hm)
        · exact List.forall_mem_cons.mpr
            ⟨fun hm => hc ((hq.unseen_iff _).mp hm).1, hq.seen⟩
        · exact List.forall_mem_cons.mpr ⟨hn, hq.not_older⟩

private theorem enqueue_error {source n : Node} {derived queue : List Node}
    {unseen : Std.TreeSet Time}
    (h : enqueue source derived unseen queue = .error n) : n ∈ derived ∧ n.time < source.time := by
  induction derived generalizing unseen queue with
  | nil => exact absurd h (by simp [enqueue])
  | cons m derived ih =>
    rw [enqueue] at h
    split at h
    · next hold =>
      obtain rfl : m = n := Except.error.inj h
      exact ⟨List.mem_cons_self, hold⟩
    · split at h
      · obtain ⟨hmem, hold⟩ := ih h
        exact ⟨List.mem_cons_of_mem m hmem, hold⟩
      · obtain ⟨hmem, hold⟩ := ih h
        exact ⟨List.mem_cons_of_mem m hmem, hold⟩

/-- What holds while a subgraph is walked, of the nodes met and those queued behind them. -/
structure Visits (g : Subgraph) (sink : Node) (unseen : Std.TreeSet Time) (met queue : List Node) :
    Prop where
  starts : (met ++ queue).head? = some g.source
  reached : ∀ n ∈ met ++ queue, ReflTransGen (g.Leads sink) g.source n
  not_older : ∀ n ∈ met ++ queue, g.source.time ≤ n.time
  times_nodup : ((met ++ queue).map Node.time).Nodup
  unseen_new : ∀ t ∈ (met ++ queue).map Node.time, t ∉ unseen
  seen_time : ∀ n ∈ g.predecessors, n.time ∉ unseen → n.time ∈ (met ++ queue).map Node.time
  followed : ∀ n ∈ met, ∀ m, g.Leads sink n m → m.time ∉ unseen

namespace Visits

variable {g : Subgraph} {sink n : Node} {unseen unseen' : Std.TreeSet Time}
  {met queue queue' : List Node}

theorem start (g : Subgraph) (sink : Node) : Visits g sink g.derivedTimes [] [g.source] where
  starts := rfl
  reached := by
    intro n hn
    rw [List.mem_singleton.mp hn]
  not_older := by
    intro n hn
    rw [List.mem_singleton.mp hn]
    exact Int64.le_refl _
  times_nodup := List.nodup_singleton _
  unseen_new := by
    intro t ht
    rw [List.mem_singleton.mp ht, Subgraph.derivedTimes, Std.TreeSet.mem_erase]
    simp
  seen_time := by
    intro n hn hseen
    by_contra hne
    have hkey : n.time ∈ g.predecessors.keys.map Node.time :=
      List.mem_map_of_mem (Std.TreeMap.mem_keys.mpr hn)
    apply hseen
    rw [Subgraph.derivedTimes, Std.TreeSet.mem_erase, Std.TreeSet.mem_ofList,
      List.contains_iff_mem]
    refine ⟨fun heq => ?_, hkey⟩
    exact hne (List.mem_singleton.mpr (Std.LawfulEqCmp.eq_of_compare heq).symm)
  followed := by simp

/-- The first queued node is met, when nothing that follows it is unseen. -/
theorem meet (h : Visits g sink unseen met (n :: queue))
    (hfollowed : ∀ m, g.Leads sink n m → m.time ∉ unseen) :
    Visits g sink unseen (met ++ [n]) queue := by
  have happend : met ++ [n] ++ queue = met ++ n :: queue := by simp
  refine ⟨?_, ?_, ?_, ?_, ?_, ?_, ?_⟩
  · exact happend ▸ h.starts
  · exact happend ▸ h.reached
  · exact happend ▸ h.not_older
  · exact happend ▸ h.times_nodup
  · exact happend ▸ h.unseen_new
  · exact happend ▸ h.seen_time
  · intro m hm k hlead
    rcases List.mem_append.mp hm with hm | hm
    · exact h.followed m hm k hlead
    · rw [List.mem_singleton.mp hm] at hlead
      exact hfollowed k hlead

private theorem scan {derived fresh : List Node} (h : Visits g sink unseen met queue)
    (hn : n ∈ met ++ queue) (hderived : ∀ m ∈ derived, g.Leads sink n m)
    (hq : Queues g.source derived unseen unseen' fresh) :
    Visits g sink unseen' met (queue ++ fresh) := by
  have hless : ∀ t, t ∈ unseen' → t ∈ unseen := fun t ht => ((hq.unseen_iff t).mp ht).1
  have hfresh : ∀ m ∈ fresh, g.Leads sink n m := fun m hm => hderived m (hq.derived_mem m hm)
  refine ⟨?_, ?_, ?_, ?_, ?_, ?_, ?_⟩
  · rw [← List.append_assoc, List.head?_append, h.starts]
    rfl
  · intro m hm
    rw [← List.append_assoc] at hm
    rcases List.mem_append.mp hm with hm | hm
    · exact h.reached m hm
    · exact (h.reached n hn).tail (hfresh m hm)
  · intro m hm
    rw [← List.append_assoc] at hm
    rcases List.mem_append.mp hm with hm | hm
    · exact h.not_older m hm
    · exact hq.not_older m (hq.derived_mem m hm)
  · rw [← List.append_assoc, List.map_append, List.nodup_append]
    refine ⟨h.times_nodup, hq.times_nodup, ?_⟩
    rintro t ht u hu rfl
    exact h.unseen_new t ht (hq.was_unseen t hu)
  · intro t ht hunseen
    rw [← List.append_assoc, List.map_append] at ht
    rcases List.mem_append.mp ht with ht | ht
    · exact h.unseen_new t ht (hless t hunseen)
    · exact ((hq.unseen_iff t).mp hunseen).2 ht
  · intro m hm hseen
    rw [← List.append_assoc, List.map_append, List.mem_append]
    by_cases hold : m.time ∈ unseen
    · rw [hq.unseen_iff, not_and_not_right] at hseen
      exact .inr (hseen hold)
    · exact .inl (h.seen_time m hm hold)
  · intro m hm k hlead hunseen
    exact h.followed m hm k hlead (hless _ hunseen)

private theorem meet_sink (h : Visits g sink unseen met (sink :: queue)) :
    Visits g sink unseen (met ++ [sink]) queue := h.meet fun _ hlead => absurd rfl hlead.1

private theorem advance (h : Visits g sink unseen met (n :: queue)) (hne : n ≠ sink)
    (hok : enqueue g.source (g.forward.getD n []) unseen queue = .ok (unseen', queue')) :
    Visits g sink unseen' (met ++ [n]) queue' := by
  obtain ⟨fresh, rfl, hq⟩ := enqueue_ok hok
  have hlead : ∀ m, m ∈ g.forward.getD n [] ↔ g.Leads sink n m := fun m =>
    Subgraph.mem_forward.trans (and_iff_right hne).symm
  have hscan : Visits g sink unseen' met (n :: queue ++ fresh) :=
    h.scan (List.mem_append_right _ List.mem_cons_self) (fun m hm => (hlead m).mp hm) hq
  exact hscan.meet fun m hm => hq.seen m ((hlead m).mpr hm)

theorem run_ok {w w' : Walk} (h : Visits g sink unseen met queue) (hw : w = ofMet g met)
    (hrun : Walk.run g g.forward sink unseen queue w = .ok w') :
    ∃ unseen' met', w' = ofMet g met' ∧ Visits g sink unseen' met' [] := by
  -- along the walk, with the list of nodes met as its history
  fun_induction Walk.run g g.forward sink unseen queue w generalizing met with
  | case1 unseen w =>
    obtain rfl := Except.ok.inj hrun
    exact ⟨unseen, met, hw, h⟩
  | case2 unseen w queue ih => exact ih h.meet_sink (by rw [hw, ofMet_concat]) hrun
  | case3 unseen w n queue hne violation herr => exact absurd hrun (by simp)
  | case4 unseen w n queue hne unseen' queue' hok ih =>
    exact ih (h.advance hne hok) (by rw [hw, ofMet_concat]) hrun

theorem run_error {w : Walk} {violation : Node} (h : Visits g sink unseen met queue)
    (hrun : Walk.run g g.forward sink unseen queue w = .error violation) :
    TransGen (g.Leads sink) g.source violation ∧ violation.time < g.source.time := by
  fun_induction Walk.run g g.forward sink unseen queue w generalizing met with
  | case1 unseen w => exact absurd hrun (by simp)
  | case2 unseen w queue ih => exact ih h.meet_sink hrun
  | case3 unseen w n queue hne violation' herr =>
    obtain rfl := Except.error.inj hrun
    obtain ⟨hmem, hold⟩ := enqueue_error herr
    have hn : ReflTransGen (g.Leads sink) g.source n :=
      h.reached n (List.mem_append_right _ List.mem_cons_self)
    exact ⟨TransGen.tail' hn ⟨hne, Subgraph.mem_forward.mp hmem⟩, hold⟩
  | case4 unseen w n queue hne unseen' queue' hok ih => exact ih (h.advance hne hok) hrun

end Visits

end Walk

end LeakTrace
