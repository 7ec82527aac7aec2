import LeakTrace.Proofs.Graph.Builds

namespace LeakTrace

open Relation

/-- No graph that references lead to leads back to itself. -/
def GraphSet.AcyclicFrom (graphs : GraphSet) (g : GraphId) : Prop :=
  ∀ h, ReflTransGen graphs.Refers g h → ¬TransGen graphs.Refers h h

/-- Expands a graph down to the given depth of nesting; what lies deeper is left out. -/
def GraphSet.expandTo (graphs : GraphSet) : Nat → GraphId → Option (List Fragment)
  | 0, _ => none
  | depth + 1, g => (graphs.get? g).map (replaceBoundaries (graphs.expandTo depth) none)

/-- The plain recursive expansion of a graph. Nesting that runs in no cycle is not deeper than there
are graphs. -/
def GraphSet.expansion (graphs : GraphSet) : GraphId → Option (List Fragment) :=
  graphs.expandTo graphs.size

private theorem inlined_congr {E E' : GraphId → Option (List Fragment)} {t : GraphId}
    (h : E t = E' t)
    (previous : Option Fragment) : inlined E previous t = inlined E' previous t := by
  rw [inlined, inlined, h]

private theorem replaceBoundaries_congr {E E' : GraphId → Option (List Fragment)}
    {lines : List Fragment}
    (h : ∀ t ∈ boundaryReferences lines, E t = E' t) (previous : Option Fragment) :
    replaceBoundaries E previous lines = replaceBoundaries E' previous lines := by
  induction lines generalizing previous with
  | nil => rfl
  | cons line lines ih =>
    have hhead : line.node.boundaryTargets.flatMap (inlined E previous) =
        line.node.boundaryTargets.flatMap (inlined E' previous) := by
      rw [List.flatMap_def, List.flatMap_def]
      refine congrArg _ (List.map_congr_left fun t ht => inlined_congr (h t ?_) previous)
      exact List.mem_flatMap.mpr ⟨line, List.mem_cons_self .., ht⟩
    have htail := ih (fun t ht => h t ?_) (some line)
    · rw [replaceBoundaries, replaceBoundaries, hhead, htail]
    · obtain ⟨l, hl, ht⟩ := List.mem_flatMap.mp ht
      exact List.mem_flatMap.mpr ⟨l, List.mem_cons_of_mem line hl, ht⟩

namespace GraphSet

variable {graphs : GraphSet} {g t : GraphId}

theorem AcyclicFrom.reaches (h : graphs.AcyclicFrom g) (ht : ReflTransGen graphs.Refers g t) :
    graphs.AcyclicFrom t := fun u hu => h u (ht.trans hu)

theorem acyclicFrom_of_lt
    (h : (graphs.entries.all fun p => (boundaryReferences p.2).all fun t => p.1 < t) = true)
    (g : GraphId) : graphs.AcyclicFrom g := by
  have hstep : ∀ a b, graphs.Refers a b → a < b := by
    rintro a b ⟨lines, hlines, hb, -⟩
    have hline := List.all_eq_true.mp h (a, lines) (get?_eq_some_iff.mp hlines)
    exact of_decide_eq_true (List.all_eq_true.mp hline b hb)
  have hlt : ∀ a b, TransGen graphs.Refers a b → a < b := by
    intro a b hab
    induction hab with
    | single hab => exact hstep _ _ hab
    | tail _ hbc ih => exact UInt64.lt_trans ih (hstep _ _ hbc)
  exact fun a _ ha => UInt64.lt_irrefl a (hlt a a ha)

private theorem expandTo_of_not_contains (h : graphs.contains g = false) (depth : Nat) :
    graphs.expandTo depth g = none := by
  cases depth with
  | zero => rfl
  | succ depth => rw [expandTo, get?_eq_none_iff.mpr h, Option.map_none]

/-- Where nothing runs in a cycle, an expansion is complete as soon as the depth allows for all
graphs that can be reached. -/
theorem expandTo_eq_expandTo {depth depth' : Nat} (reach : List GraphId)
    (hg : graphs.AcyclicFrom g)
    (hreach : ∀ u, ReflTransGen graphs.Refers g u → graphs.contains u = true → u ∈ reach)
    (hd : reach.length ≤ depth) (hd' : reach.length ≤ depth') :
    graphs.expandTo depth g = graphs.expandTo depth' g := by
  induction depth generalizing depth' reach g with
  | zero =>
    have hnil : reach = [] := List.eq_nil_of_length_eq_zero (by omega)
    have hnot : graphs.contains g = false := by
      cases hc : graphs.contains g with
      | false => rfl
      | true => exact absurd (hnil ▸ hreach g .refl hc) List.not_mem_nil
    rw [expandTo_of_not_contains hnot, expandTo_of_not_contains hnot]
  | succ depth ih =>
    cases hget : graphs.get? g with
    | none =>
      have hnot := get?_eq_none_iff.mp hget
      rw [expandTo_of_not_contains hnot, expandTo_of_not_contains hnot]
    | some lines =>
      have hmem : g ∈ reach := hreach g .refl (by rw [contains, hget]; rfl)
      have hlength := List.length_erase_of_mem hmem
      have hpos := List.length_pos_of_mem hmem
      obtain ⟨depth', rfl⟩ : ∃ n, depth' = n + 1 := ⟨depth' - 1, by omega⟩
      rw [expandTo, expandTo, hget, Option.map_some, Option.map_some]
      refine congrArg some (replaceBoundaries_congr (fun t ht => ?_) none)
      cases hc : graphs.contains t with
      | false => rw [expandTo_of_not_contains hc, expandTo_of_not_contains hc]
      | true =>
        have hstep : graphs.Refers g t := ⟨lines, hget, ht, hc⟩
        -- the graph itself is not met again below, so it makes room for one level
        apply ih (reach.erase g) (hg.reaches (.single hstep)) _ (by omega) (by omega)
        intro u hu hcu
        have hne : u ≠ g := by
          rintro rfl
          exact hg u .refl (.head' hstep hu)
        exact (List.mem_erase_of_ne hne).mpr (hreach u (.head hstep hu) hcu)

theorem expansion_eq (hg : graphs.AcyclicFrom g) :
    graphs.expansion g = (graphs.get? g).map (replaceBoundaries graphs.expansion none) := by
  have hdeeper : graphs.expansion g = graphs.expandTo (graphs.size + 1) g := by
    apply expandTo_eq_expandTo graphs.ids hg
    · intro u _ hu
      exact contains_iff_mem_ids.mp hu
    · simp [ids, size]
    · simp [ids, size]
  rw [hdeeper]
  rfl

private theorem expansion_of_not_contains (h : graphs.contains g = false) :
    graphs.expansion g = none :=
  expandTo_of_not_contains h _

end GraphSet

namespace Splicer

/-- What holds of a splicer that was given these graphs, whatever it has spliced since: what is done
is right where nothing runs in a cycle. -/
structure Sound (graphs : GraphSet) (s : Splicer) : Prop extends Divided graphs s where
  result_eq : ∀ g lines, s.result? g = some lines → graphs.AcyclicFrom g →
    graphs.expansion g = some lines

variable {graphs : GraphSet} {s s' : Splicer} {calls built : List GraphId} {g : GraphId}
  {lines : List Fragment}

theorem sound_ofGraphs (graphs : GraphSet) : Sound graphs (ofGraphs graphs) where
  toDivided := divided_ofGraphs graphs
  result_eq := by simp [ofGraphs, result?]

private theorem Ready.result?_eq (h : Ready graphs calls s g lines) (hs : Sound graphs s)
    (hacyclic : graphs.AcyclicFrom g) :
    ∀ t ∈ boundaryReferences lines, graphs.expansion t = s.result? t := by
  intro t ht
  cases hc : graphs.contains t with
  | false =>
    rw [GraphSet.expansion_of_not_contains hc]
    cases hr : s.result? t with
    | none => rfl
    | some out => exact absurd (hs.dumped t out hr) (by simp [hc])
  | true =>
    have hstep : graphs.Refers g t := ⟨lines, h.lines_eq, ht, hc⟩
    cases hr : s.result? t with
    | none => exact absurd (.head hstep (h.named t hstep hr)) (hacyclic g .refl)
    | some out => exact hs.result_eq t out hr (hacyclic.reaches (.single hstep))

theorem Sound.build (h : Sound graphs s) (hready : Ready graphs calls s g lines) :
    Sound graphs (s.build g lines) where
  toDivided := h.toDivided.build hready.lines_eq
  result_eq := by
    intro t out ht hacyclic
    rw [result?_build] at ht
    split at ht
    · next heq =>
      subst heq
      rw [← Option.some.inj ht, GraphSet.expansion_eq hacyclic, hready.lines_eq, Option.map_some]
      exact congrArg some (replaceBoundaries_congr (hready.result?_eq h hacyclic) none)
    · exact h.result_eq t out ht hacyclic

private theorem Builds.sound (h : Builds graphs calls s built s') (hs : Sound graphs s) :
    Sound graphs s' := by
  induction h with
  | nil => exact hs
  | concat _ hready ih => exact ih.build hready

private theorem sound_foldl_splice (h : Sound graphs s) (history : List GraphId) :
    Sound graphs (history.foldl splice s) := by
  obtain ⟨built, hvisits⟩ := Visits.calls s history
  exact (hvisits.builds_called h.toDivided).sound h

theorem splices_splice (h : Sound graphs s) (g : GraphId) :
    Sound graphs (s.splice g) ∧ Keeps s (s.splice g) :=
  ⟨sound_foldl_splice h [g], (h.foldl_splice [g]).2⟩

theorem Sound.result?_splice (h : Sound graphs s) (hg : graphs.AcyclicFrom g) :
    (s.splice g).result? g = graphs.expansion g := by
  have hsound := (splices_splice h g).1
  cases hc : graphs.contains g with
  | true =>
    obtain ⟨lines, hlines⟩ := Option.isSome_iff_exists.mp (h.isSome_splice hc)
    rw [hlines, hsound.result_eq g lines hlines hg]
  | false =>
    rw [GraphSet.expansion_of_not_contains hc]
    cases hr : (s.splice g).result? g with
    | none => rfl
    | some lines => exact absurd (hsound.dumped g lines hr) (by simp [hc])

end Splicer

/-- Whatever was spliced before and in whatever order, splicing a graph from which references run in
no cycle gives its plain expansion; and this, for each graph on the way, is its list of lines with
the expansions of the graphs that they name in the place of the boundary lines. -/
theorem splice_eq_expansion (graphs : GraphSet) (history : List GraphId) (g : GraphId)
    (hg : graphs.AcyclicFrom g) :
    ((history.foldl Splicer.splice (.ofGraphs graphs)).splice g).result? g = graphs.expansion g ∧
      ∀ t, ReflTransGen graphs.Refers g t →
        graphs.expansion t = (graphs.get? t).map (replaceBoundaries graphs.expansion none) := by
  have hsound := Splicer.sound_foldl_splice (Splicer.sound_ofGraphs graphs) history
  refine ⟨hsound.result?_splice hg, ?_⟩
  intro t ht
  exact GraphSet.expansion_eq (hg.reaches ht)

/-- A graph that names two others, of which the first names the second. -/
def sharedNesting : GraphSet where
  entries :=
    [(1, [⟨⟨50, "read"⟩, ⟨49, "7-8(-2)"⟩, none⟩, ⟨⟨49, "7-8(-2)"⟩, ⟨48, "STARTPATH"⟩, none⟩]),
      (7, [⟨⟨31, "copy"⟩, ⟨30, "8(-2)"⟩, none⟩, ⟨⟨30, "8(-2)"⟩, ⟨29, "STARTPATH"⟩, none⟩]),
      (8, [⟨⟨10, "write"⟩, ⟨9, "STARTPATH"⟩, none⟩])]
  nodup := by decide

theorem splice_sharedNesting :
    sharedNesting.AcyclicFrom 1 ∧
      (([7, 99, 1].foldl Splicer.splice (.ofGraphs sharedNesting)).splice 1).result? 1 =
        some [⟨⟨50, "read"⟩, ⟨49, "7-8(-2)"⟩, none⟩,
          ⟨⟨50, "read"⟩, ⟨31, "copy"⟩, none⟩, ⟨⟨31, "copy"⟩, ⟨30, "8(-2)"⟩, none⟩,
          ⟨⟨31, "copy"⟩, ⟨10, "write"⟩, none⟩, ⟨⟨10, "write"⟩, ⟨9, "STARTPATH"⟩, none⟩,
          ⟨⟨50, "read"⟩, ⟨10, "write"⟩, none⟩, ⟨⟨10, "write"⟩, ⟨9, "STARTPATH"⟩, none⟩] := by
  have hacyclic : sharedNesting.AcyclicFrom 1 :=
    GraphSet.acyclicFrom_of_lt (by decide +kernel) 1
  refine ⟨hacyclic, (splice_eq_expansion sharedNesting [7, 99, 1] 1 hacyclic).1.trans ?_⟩
  decide +kernel

end LeakTrace
