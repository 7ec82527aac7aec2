import LeakTrace.Proofs.Graph.Expansion

namespace LeakTrace

open Relation

/-- The lines that splicing keeps as they are. -/
def ordinaryLines (lines : List Fragment) : List Fragment :=
  lines.filter fun f => !f.node.isBoundary

theorem mem_ordinaryLines {lines : List Fragment} {f : Fragment} :
    f ∈ ordinaryLines lines ↔ f ∈ lines ∧ f.node.isBoundary = false := by
  rw [ordinaryLines, List.mem_filter, Bool.not_eq_true']

private theorem isBoundary_of_mem_boundaryTargets {n : Node} {t : GraphId}
    (h : t ∈ n.boundaryTargets) :
    n.isBoundary = true := by
  rw [Node.boundaryTargets] at h
  split at h
  · assumption
  · exact absurd h List.not_mem_nil

private theorem pair_infix_cons {α : Type} {a b x y : α} {l : List α} :
    [a, b] <:+: x :: y :: l ↔ (a = x ∧ b = y) ∨ [a, b] <:+: y :: l := by
  rw [List.infix_cons_iff]
  simp only [List.cons_prefix_cons, List.nil_prefix, and_true]

variable {nested : GraphId → Option (List Fragment)} {previous : Option Fragment}
  {lines : List Fragment} {line f : Fragment} {t : GraphId}

theorem mem_inlined :
    f ∈ inlined nested previous t ↔ ∃ first rest, nested t = some (first :: rest) ∧
      (f ∈ first :: rest ∨ ∃ p ∈ previous, ⟨consumer p, first.node, none⟩ = f) := by
  rw [inlined]
  split
  · next first rest heq =>
    rw [List.mem_append, bridge, Option.mem_toList, Option.map_eq_some_iff, or_comm]
    constructor
    · intro h
      exact ⟨first, rest, heq, h⟩
    · rintro ⟨first', rest', heq', h⟩
      obtain ⟨rfl, rfl⟩ := List.cons.inj (Option.some.inj (heq.symm.trans heq'))
      exact h
  · next hempty =>
    constructor
    · intro h
      exact absurd h List.not_mem_nil
    · rintro ⟨first, rest, heq, -⟩
      exact absurd heq (hempty first rest)

/-- What stands in a graph after its boundary lines were replaced: its ordinary lines, the lines of
the nested graphs, and bridges between a line right before a boundary line and the first line of a
nested graph. -/
inductive Placed (nested : GraphId → Option (List Fragment)) (previous : Option Fragment)
    (lines : List Fragment) : Fragment → Prop
  | kept {f : Fragment} : f ∈ ordinaryLines lines → Placed nested previous lines f
  | nested {t : GraphId} {out : List Fragment} {f : Fragment} :
      t ∈ boundaryReferences lines → nested t = some out → f ∈ out → Placed nested previous lines f
  | bridge {t : GraphId} {p boundary first : Fragment} {rest : List Fragment} :
      [p, boundary] <:+: previous.toList ++ lines → t ∈ boundary.node.boundaryTargets →
      nested t = some (first :: rest) →
      Placed nested previous lines ⟨consumer p, first.node, none⟩

namespace Placed

theorem of_mem (h : f ∈ replaceBoundaries nested previous lines) :
    Placed nested previous lines f := by
  induction lines generalizing previous with
  | nil => exact absurd h List.not_mem_nil
  | cons line lines ih =>
    rw [replaceBoundaries] at h
    rcases List.mem_append.mp h with hf | hf
    · split at hf
      · obtain ⟨t, ht, hf⟩ := List.mem_flatMap.mp hf
        obtain ⟨first, rest, hfirst, hf | ⟨p, hp, rfl⟩⟩ := mem_inlined.mp hf
        · exact .nested (List.mem_append_left _ ht) hfirst hf
        · obtain rfl := Option.mem_def.mp hp
          exact .bridge (pair_infix_cons.mpr (.inl ⟨rfl, rfl⟩)) ht hfirst
      · next hord =>
        rw [List.mem_singleton.mp hf]
        exact .kept (mem_ordinaryLines.mpr ⟨List.mem_cons_self, by simpa using hord⟩)
    · cases ih hf with
      | kept hf =>
        obtain ⟨hf, hord⟩ := mem_ordinaryLines.mp hf
        exact .kept (mem_ordinaryLines.mpr ⟨List.mem_cons_of_mem line hf, hord⟩)
      | nested ht hout hf => exact .nested (List.mem_append_right _ ht) hout hf
      | bridge hpair ht hfirst =>
        exact .bridge (hpair.trans (List.suffix_append previous.toList _).isInfix) ht hfirst

private theorem mem_of_inlined (ht : t ∈ line.node.boundaryTargets)
    (hf : f ∈ inlined nested previous t) :
    f ∈ replaceBoundaries nested previous (line :: lines) := by
  rw [replaceBoundaries, if_pos (isBoundary_of_mem_boundaryTargets ht)]
  exact List.mem_append_left _ (List.mem_flatMap.mpr ⟨t, ht, hf⟩)

theorem mem (h : Placed nested previous lines f) : f ∈ replaceBoundaries nested previous lines := by
  induction lines generalizing previous with
  | nil =>
    cases h with
    | kept hf => exact absurd hf List.not_mem_nil
    | nested ht hout hf => exact absurd ht List.not_mem_nil
    | bridge hpair ht hfirst =>
      have htwo := hpair.length_le
      have hone : previous.toList.length ≤ 1 := by cases previous <;> simp
      rw [List.append_nil, List.length_cons, List.length_singleton] at htwo
      omega
  | cons line lines ih =>
    have htail : Placed nested (some line) lines f →
        f ∈ replaceBoundaries nested previous (line :: lines) :=
      fun hf => List.mem_append_right _ (ih hf)
    cases h with
    | kept hf =>
      obtain ⟨hf, hord⟩ := mem_ordinaryLines.mp hf
      rcases List.mem_cons.mp hf with rfl | hf
      · rw [replaceBoundaries, if_neg (by simp [hord])]
        exact List.mem_append_left _ (List.mem_singleton_self f)
      · exact htail (.kept (mem_ordinaryLines.mpr ⟨hf, hord⟩))
    | nested ht hout hf =>
      rcases List.mem_append.mp ht with ht | ht
      · obtain ⟨first, rest, rfl⟩ := List.exists_cons_of_ne_nil (List.ne_nil_of_mem hf)
        exact mem_of_inlined ht (mem_inlined.mpr ⟨first, rest, hout, .inl hf⟩)
      · exact htail (.nested ht hout hf)
    | @bridge t p boundary first rest hpair ht hfirst =>
      cases previous with
      | none => exact htail (.bridge hpair ht hfirst)
      | some q =>
        rcases pair_infix_cons.mp hpair with ⟨rfl, rfl⟩ | hpair
        · exact mem_of_inlined ht (mem_inlined.mpr ⟨first, rest, hfirst, .inr ⟨p, rfl, rfl⟩⟩)
        · exact htail (.bridge hpair ht hfirst)

end Placed

/-- In one of the graphs that references lead to, the one line stands right before the other. -/
def GraphSet.Precedes (graphs : GraphSet) (g : GraphId) (previous line : Fragment) : Prop :=
  ∃ t lines, ReflTransGen graphs.Refers g t ∧ graphs.get? t = some lines ∧
    [previous, line] <:+: lines

/-- What a line of a spliced graph goes back to: an ordinary line of one of the graphs that
references lead to, or a bridge in one of them. -/
inductive Splicer.Stems (graphs : GraphSet) (s : Splicer) (g : GraphId) : Fragment → Prop
  | line {t : GraphId} {lines : List Fragment} {f : Fragment} :
      ReflTransGen graphs.Refers g t → graphs.get? t = some lines → f ∈ ordinaryLines lines →
      Stems graphs s g f
  | bridge {t : GraphId} {previous boundary first : Fragment} {rest : List Fragment} :
      graphs.Precedes g previous boundary → t ∈ boundary.node.boundaryTargets →
      s.result? t = some (first :: rest) → Stems graphs s g ⟨consumer previous, first.node, none⟩

namespace Splicer

variable {graphs : GraphSet} {s s' : Splicer} {g : GraphId} {calls built : List GraphId}
  {out : List Fragment}

namespace Stems

theorem keeps (h : Stems graphs s g f) (hk : Keeps s s') : Stems graphs s' g f := by
  cases h with
  | line hreach hlines hf => exact .line hreach hlines hf
  | bridge hpair ht hfirst => exact .bridge hpair ht (hk _ _ hfirst)

theorem above (h : Stems graphs s t f) (hstep : graphs.Refers g t) : Stems graphs s g f := by
  cases h with
  | line hreach hlines hf => exact .line (.head hstep hreach) hlines hf
  | bridge hpair hu hfirst =>
    obtain ⟨a, lines, hreach, hlines, hinfix⟩ := hpair
    exact .bridge ⟨a, lines, .head hstep hreach, hlines, hinfix⟩ hu hfirst

end Stems

namespace Builds

theorem stems (h : Builds graphs calls (ofGraphs graphs) built s) :
    ∀ g out, s.result? g = some out → ∀ f ∈ out, Stems graphs s g f := by
  induction h with
  | nil => simp [ofGraphs, result?]
  | @concat built s g lines hbuilds hready ih =>
    intro a out hout f hf
    have hk := keeps_build hready.waits lines
    rw [result?_build] at hout
    split at hout
    · next heq =>
      subst heq
      obtain rfl := Option.some.inj hout
      cases Placed.of_mem hf with
      | kept hf => exact .line .refl hready.lines_eq hf
      | @nested t inner _ ht hinner hf =>
        have hdumped := (hbuilds.divided (divided_ofGraphs graphs)).dumped t inner hinner
        exact ((ih t inner hinner f hf).above ⟨lines, hready.lines_eq, ht, hdumped⟩).keeps hk
      | bridge hpair ht hfirst =>
        exact .bridge ⟨g, lines, .refl, hready.lines_eq, hpair⟩ ht (hk _ _ hfirst)
    · exact (ih a out hout f hf).keeps hk

theorem ordinaryLines_subset (h : Builds graphs calls (ofGraphs graphs) built s)
    (hout : s.result? g = some out) (hlines : graphs.get? g = some lines) :
    ordinaryLines lines ⊆ out := by
  induction h with
  | nil => simp [ofGraphs, result?] at hout
  | @concat built s t lines' hbuilds hready ih =>
    rw [result?_build] at hout
    split at hout
    · next heq =>
      subst heq
      obtain rfl : lines' = lines := Option.some.inj (hready.lines_eq.symm.trans hlines)
      obtain rfl := Option.some.inj hout
      exact fun f hf => (Placed.kept hf).mem
    · exact ih hout

end Builds

end Splicer

/-- Splicing a dumped graph gives a list that holds its ordinary lines, and in which every boundary
line is replaced or dropped: a line of the list whose node is a boundary node is a bridge, because
the line right before a boundary line named that node as the consumer. Where no such line names a
boundary node, no node in the list is one. -/
theorem spliced_boundary_node (graphs : GraphSet) (history : List GraphId) {g : GraphId}
    {lines : List Fragment} (hg : graphs.get? g = some lines) :
    let s := (history.foldl Splicer.splice (.ofGraphs graphs)).splice g
    ∃ out, s.result? g = some out ∧ ordinaryLines lines ⊆ out ∧
      (∀ f ∈ out, f.node.isBoundary = true →
        ∃ previous boundary t first rest, graphs.Precedes g previous boundary ∧
          t ∈ boundary.node.boundaryTargets ∧ s.result? t = some (first :: rest) ∧
          f = ⟨consumer previous, first.node, none⟩) ∧
      ((∀ previous boundary, graphs.Precedes g previous boundary →
          boundary.node.isBoundary = true → (consumer previous).isBoundary = false) →
        ∀ f ∈ out, f.node.isBoundary = false) := by
  intro s
  have hs := Splicer.divided_ofGraphs graphs
  obtain ⟨out, hout⟩ := Option.isSome_iff_exists.mp
    ((hs.foldl_splice history).1.isSome_splice (GraphSet.contains_of_get? hg))
  obtain ⟨built, hvisits⟩ := Splicer.Visits.calls (.ofGraphs graphs) (history ++ [g])
  rw [List.foldl_append] at hvisits
  have hbuilds := hvisits.builds_called hs
  have hstems : ∀ f ∈ out, Splicer.Stems graphs s g f := hbuilds.stems g out hout
  refine ⟨out, hout, hbuilds.ordinaryLines_subset hout hg, fun f hf hb => ?_,
    fun hordinary f hf => ?_⟩
  · cases hstems f hf with
    | line _ _ hf => exact absurd ((mem_ordinaryLines.mp hf).2.symm.trans hb) (by decide)
    | bridge hpair ht hfirst => exact ⟨_, _, _, _, _, hpair, ht, hfirst, rfl⟩
  · cases hstems f hf with
    | line _ _ hf => exact (mem_ordinaryLines.mp hf).2
    | bridge hpair ht _ => exact hordinary _ _ hpair (isBoundary_of_mem_boundaryTargets ht)

/-- A reader of one operand is the consumer itself, also where it reads from several graphs. -/
theorem sharedNesting_no_boundary_node :
    ∃ lines, sharedNesting.get? 1 = some lines ∧
      ∃ out, (([7].foldl Splicer.splice (.ofGraphs sharedNesting)).splice 1).result? 1 = some out ∧
        ordinaryLines lines ⊆ out ∧ ∀ f ∈ out, f.node.isBoundary = false := by
  have hlines : sharedNesting.get? 1 = some
      [⟨⟨50, "read"⟩, ⟨49, "7-8(-2)"⟩, none⟩, ⟨⟨49, "7-8(-2)"⟩, ⟨48, "STARTPATH"⟩, none⟩] := rfl
  have hpairs : ∀ p ∈ sharedNesting.entries, ∀ previous ∈ p.2, ∀ boundary ∈ p.2,
      [previous, boundary] <:+: p.2 → (consumer previous).isBoundary = false := by decide +kernel
  obtain ⟨out, hout, hkept, -, hordinary⟩ := spliced_boundary_node sharedNesting [7] hlines
  refine ⟨_, hlines, out, hout, hkept, hordinary ?_⟩
  rintro previous boundary ⟨t, lines, -, hget, hpair⟩ -
  have hentry := GraphSet.get?_eq_some_iff.mp hget
  exact hpairs _ hentry previous (hpair.subset (by simp)) boundary (hpair.subset (by simp)) hpair

/-- A reader of which both operands are boundary nodes. -/
def binaryReader : GraphSet where
  entries :=
    [(1, [⟨⟨50, "read"⟩, ⟨49, "7(-2)"⟩, some ⟨48, "8(-2)"⟩⟩,
        ⟨⟨49, "7(-2)"⟩, ⟨47, "STARTPATH"⟩, none⟩]),
      (7, [⟨⟨11, "write"⟩, ⟨10, "STARTPATH"⟩, none⟩])]
  nodup := by decide

/-- The right operand is taken for the consumer, whatever it is. -/
theorem binaryReader_bridge_at_boundary :
    ¬∀ (graphs : GraphSet) (g : GraphId) (out : List Fragment),
      ((Splicer.ofGraphs graphs).splice g).result? g = some out →
        ∀ f ∈ out, f.node.isBoundary = false := by
  intro h
  have hout : ((Splicer.ofGraphs binaryReader).splice 1).result? 1 =
      some [⟨⟨50, "read"⟩, ⟨49, "7(-2)"⟩, some ⟨48, "8(-2)"⟩⟩,
        ⟨⟨48, "8(-2)"⟩, ⟨11, "write"⟩, none⟩, ⟨⟨11, "write"⟩, ⟨10, "STARTPATH"⟩, none⟩] := by
    decide +kernel
  have hbridge := h binaryReader 1 _ hout ⟨⟨48, "8(-2)"⟩, ⟨11, "write"⟩, none⟩ (by simp)
  exact absurd hbridge (by decide +kernel)

end LeakTrace
