import LeakTrace.Proofs.Graph.Closure
import LeakTrace.Proofs.Graph.SplicedLines

namespace LeakTrace

open Relation

/-- One of the lines derives the second node directly from the first. A chain of lines is a path of
such steps. -/
def Derives (lines : List Fragment) (a b : Node) : Prop :=
  ∃ f ∈ lines, a ∈ f.predecessors ∧ f.node = b

/-- What splicing makes of a graph. -/
def GraphSet.spliced (graphs : GraphSet) (g : GraphId) : Option (List Fragment) :=
  ((Splicer.ofGraphs graphs).splice g).result? g

theorem Derives.mono {lines lines' : List Fragment} (h : lines ⊆ lines') {a b : Node}
    (hab : Derives lines a b) : Derives lines' a b := by
  obtain ⟨f, hf, ha, hb⟩ := hab
  exact ⟨f, h hf, ha, hb⟩

private theorem derives_consumer {lines : List Fragment} {f : Fragment} (hf : f ∈ lines) :
    ReflTransGen (Derives lines) (consumer f) f.node := by
  rw [consumer]
  split
  · have hleft : f.left ∈ f.predecessors := by simp
    exact .single ⟨f, hf, hleft, rfl⟩
  · cases hright : f.right with
    | none => exact .refl
    | some right =>
      have hmem : right ∈ f.predecessors := by simp [hright]
      exact .single ⟨f, hf, hmem, rfl⟩

private theorem ordinaryLines_subset_replaceBoundaries (nested : GraphId → Option (List Fragment))
    (previous : Option Fragment) (lines : List Fragment) :
    ordinaryLines lines ⊆ replaceBoundaries nested previous lines :=
  fun _ hf => (Placed.kept hf).mem

private theorem inlined_subset_replaceBoundaries (nested : GraphId → Option (List Fragment))
    {previous boundary : Fragment} {t : GraphId} (ht : t ∈ boundary.node.boundaryTargets)
    (start : Option Fragment) (before after : List Fragment) :
    inlined nested (some previous) t ⊆
      replaceBoundaries nested start (before ++ previous :: boundary :: after) := by
  intro f hf
  obtain ⟨first, rest, hfirst, hf | ⟨p, hp, rfl⟩⟩ := mem_inlined.mp hf
  · have href : t ∈ boundaryReferences (before ++ previous :: boundary :: after) :=
      List.mem_flatMap.mpr ⟨boundary, by simp, ht⟩
    exact (Placed.nested href hfirst hf).mem
  · obtain rfl := Option.mem_some_iff.mp hp
    have hpair : [previous, boundary] <:+:
        start.toList ++ (before ++ previous :: boundary :: after) :=
      ⟨start.toList ++ before, after, by simp⟩
    exact (Placed.bridge hpair ht hfirst).mem

/-- Where a boundary line follows another line, the consumer that this one names derives from every
nested graph that is not empty, and so does all that derives from the consumer over ordinary lines;
in particular the node of the line itself, unless that is a boundary node too. -/
theorem consumer_derives_nested {graphs : GraphSet} {g t : GraphId}
    {before after rest : List Fragment} {previous boundary first : Fragment}
    (hg : graphs.AcyclicFrom g)
    (hlines : graphs.get? g = some (before ++ previous :: boundary :: after))
    (ht : t ∈ boundary.node.boundaryTargets)
    (hnested : graphs.spliced t = some (first :: rest)) :
    ∃ out, graphs.spliced g = some out ∧
      (∀ x, ReflTransGen (Derives (ordinaryLines (before ++ previous :: boundary :: after)))
        (consumer previous) x → TransGen (Derives out) first.node x) ∧
      (previous.node.isBoundary = false → TransGen (Derives out) first.node previous.node) := by
  have hsound := Splicer.sound_ofGraphs graphs
  have hdumped : graphs.contains t = true :=
    (Splicer.splices_splice hsound t).1.dumped t (first :: rest) hnested
  have hreference : t ∈ boundaryReferences (before ++ previous :: boundary :: after) :=
    List.mem_flatMap.mpr ⟨boundary, by simp, ht⟩
  have hstep : graphs.Refers g t := ⟨_, hlines, hreference, hdumped⟩
  have hexpansion : graphs.expansion t = some (first :: rest) := by
    rw [← hnested]
    exact (hsound.result?_splice (hg.reaches (.single hstep))).symm
  let lines := before ++ previous :: boundary :: after
  let out := replaceBoundaries graphs.expansion none lines
  have hout : graphs.spliced g = some out := by
    rw [GraphSet.spliced, hsound.result?_splice hg, GraphSet.expansion_eq hg, hlines]
    rfl
  have hbridge : Derives out first.node (consumer previous) := by
    have hmem : ⟨consumer previous, first.node, none⟩ ∈
        inlined graphs.expansion (some previous) t := by
      simp [inlined, hexpansion, bridge]
    exact ⟨_, inlined_subset_replaceBoundaries _ ht none before after hmem, by simp, rfl⟩
  have hkept : ordinaryLines lines ⊆ out := ordinaryLines_subset_replaceBoundaries _ none lines
  have hreach : ∀ x, ReflTransGen (Derives (ordinaryLines lines)) (consumer previous) x →
      TransGen (Derives out) first.node x := by
    intro x hx
    exact (TransGen.single hbridge).trans_left
      (ReflTransGen.mono (fun _ _ => Derives.mono hkept) _ _ hx)
  refine ⟨out, hout, hreach, fun hprevious => ?_⟩
  have hmem : previous ∈ ordinaryLines lines :=
    List.mem_filter.mpr ⟨by simp [lines], by simp [hprevious]⟩
  exact hreach _ (derives_consumer hmem)

def firstReader : Fragment := ⟨⟨50, "x"⟩, ⟨49, "7(-2)"⟩, none⟩

def secondReader : Fragment := ⟨⟨51, "y"⟩, ⟨49, "7(-2)"⟩, none⟩

def boundaryLine : Fragment := ⟨⟨49, "7(-2)"⟩, ⟨48, "STARTPATH"⟩, none⟩

def nestedLine : Fragment := ⟨⟨11, "write"⟩, ⟨10, "STARTPATH"⟩, none⟩

/-- Two instances read from one boundary, behind which one graph was dumped. -/
def twoReaders : GraphSet where
  entries := [(1, [firstReader, boundaryLine, secondReader]), (7, [nestedLine])]
  nodup := by decide

/-- The instance that the line before the boundary line names is reached. -/
theorem first_reader_derives_nested :
    twoReaders.AcyclicFrom 1 ∧ twoReaders.spliced 7 = some [nestedLine] ∧
      ∃ out, twoReaders.spliced 1 = some out ∧
        TransGen (Derives out) nestedLine.node firstReader.node := by
  have hacyclic : twoReaders.AcyclicFrom 1 := GraphSet.acyclicFrom_of_lt (by decide +kernel) 1
  have hnested : twoReaders.spliced 7 = some [nestedLine] := by decide +kernel
  have hlines : twoReaders.get? 1 = some ([] ++ firstReader :: boundaryLine :: [secondReader]) := rfl
  obtain ⟨out, hout, -, hreader⟩ :=
    consumer_derives_nested hacyclic hlines (by decide +kernel) hnested
  exact ⟨hacyclic, hnested, out, hout, hreader (by decide +kernel)⟩

private theorem close_twoReaders :
    twoReaders.close (FragmentCache.ofList (twoReaders.entries.flatMap Prod.snd)) = twoReaders := by
  generalize hcache : FragmentCache.ofList (twoReaders.entries.flatMap Prod.snd) = cache
  have hboundary : cache.get? boundaryLine.node = some boundaryLine := by
    rw [← hcache]
    decide +kernel
  have hknown : ∀ n ∈ boundaryLine.node :: boundaryLine.predecessors,
      (cache.erase boundaryLine.node).get? n = none := by
    rw [← hcache]
    decide +kernel
  have hroot : ∀ n ∈ nestedLine.predecessors, cache.get? n = none := by
    rw [← hcache]
    decide +kernel
  have hfirst : closeLine (cache, []) firstReader =
      (cache.erase boundaryLine.node, [firstReader, boundaryLine]) :=
    closeLine_of_known List.not_mem_nil hboundary (by decide)
      fun n hn => hknown n (List.mem_cons_of_mem _ hn)
  have hsecond : closeLine (cache.erase boundaryLine.node, [firstReader, boundaryLine])
      boundaryLine = (cache.erase boundaryLine.node, [firstReader, boundaryLine]) := by
    have hold : boundaryLine ∈ [firstReader, boundaryLine] := by decide
    rw [closeLine, if_pos hold]
  have hthird : closeLine (cache.erase boundaryLine.node, [firstReader, boundaryLine])
      secondReader =
        (cache.erase boundaryLine.node, [firstReader, boundaryLine, secondReader]) := by
    refine closeLine_of_unknown (by decide) fun n hn => hknown n ?_
    rw [List.mem_singleton.mp hn]
    exact List.mem_cons_self
  have hnested : closeLine (cache, []) nestedLine = (cache, [nestedLine]) :=
    closeLine_of_unknown List.not_mem_nil hroot
  apply GraphSet.ext
  rw [GraphSet.entries_close, twoReaders, List.map_cons, List.map_cons, List.map_nil]
  simp only [closeGraph, List.foldl_cons, List.foldl_nil, hfirst, hsecond, hthird, hnested]

/-- An instance with a boundary node among its predecessors need not be reached, also when the
graphs are closed against all that was recorded: the other reader of the boundary takes the bridge. -/
theorem second_reader_not_derived :
    ¬∀ (raw : GraphSet) (cache : FragmentCache) (g t : GraphId) (lines rest out : List Fragment)
      (line boundary first : Fragment), (∀ a, (raw.close cache).AcyclicFrom a) →
        (raw.close cache).get? g = some lines → line ∈ lines → line.node.isBoundary = false →
        boundary ∈ lines → boundary.node ∈ line.predecessors →
        t ∈ boundary.node.boundaryTargets →
        (raw.close cache).spliced t = some (first :: rest) →
        (raw.close cache).spliced g = some out → TransGen (Derives out) first.node line.node := by
  intro h
  have hacyclic : ∀ a, twoReaders.AcyclicFrom a := GraphSet.acyclicFrom_of_lt (by decide +kernel)
  have hout : twoReaders.spliced 1 = some [firstReader, ⟨firstReader.node, nestedLine.node, none⟩,
      nestedLine, secondReader] := by decide +kernel
  have hnested : twoReaders.spliced 7 = some [nestedLine] := by decide +kernel
  have hclosed := h twoReaders (FragmentCache.ofList (twoReaders.entries.flatMap Prod.snd))
  rw [close_twoReaders] at hclosed
  have hchain := hclosed 1 7 [firstReader, boundaryLine, secondReader] [] _ secondReader boundaryLine
    nestedLine hacyclic rfl (by decide) (by decide +kernel) (by decide) (by decide) (by decide +kernel)
    hnested hout
  have hlast : ∀ f ∈ [firstReader, ⟨firstReader.node, nestedLine.node, none⟩, nestedLine,
      secondReader], f.node = secondReader.node → f = secondReader := by decide
  have hnone : ∀ f ∈ [firstReader, ⟨firstReader.node, nestedLine.node, none⟩, nestedLine,
      secondReader], f.node ≠ boundaryLine.node := by decide
  obtain ⟨b, hb, f, hf, hpred, hnode⟩ := TransGen.tail'_iff.mp hchain
  obtain rfl := hlast f hf hnode
  obtain rfl : b = boundaryLine.node := List.mem_singleton.mp hpred
  rcases ReflTransGen.cases_tail hb with heq | ⟨c, -, f, hf, -, hnode⟩
  · exact absurd heq (by decide)
  · exact hnone f hf hnode

end LeakTrace
