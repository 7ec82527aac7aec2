import LeakTrace.Proofs.Graph.Visits
import Mathlib.Logic.Relation

namespace LeakTrace

open Relation

/-- A boundary line of the graph names the other one, and that one was dumped. -/
def GraphSet.Refers (graphs : GraphSet) (g t : GraphId) : Prop :=
  ∃ lines, graphs.get? g = some lines ∧ t ∈ boundaryReferences lines ∧ graphs.contains t = true

theorem GraphSet.Refers.dumped {graphs : GraphSet} {g t : GraphId} (h : graphs.Refers g t) :
    graphs.contains g = true := by
  obtain ⟨lines, hlines, -⟩ := h
  exact contains_of_get? hlines

namespace Splicer

variable {graphs : GraphSet} {s s' s'' : Splicer} {g t : GraphId} {lines : List Fragment}
  {calls offPath targets built : List GraphId}

/-- A dumped graph is raw until it is done, and no other graph is either. -/
structure Divided (graphs : GraphSet) (s : Splicer) : Prop where
  dumped : ∀ g lines, s.result? g = some lines → graphs.contains g = true
  raw_get? : ∀ g, s.raw.get? g = if (s.result? g).isSome then none else graphs.get? g

theorem divided_ofGraphs (graphs : GraphSet) : Divided graphs (ofGraphs graphs) where
  dumped := by simp [ofGraphs, result?]
  raw_get? := by simp [ofGraphs, result?]

namespace Divided

theorem get? (h : Divided graphs s) (hwaits : s.result? g = none) :
    s.raw.get? g = graphs.get? g := by
  rw [h.raw_get?, hwaits]
  rfl

theorem build (h : Divided graphs s) (hlines : graphs.get? g = some lines) :
    Divided graphs (s.build g lines) where
  dumped := by
    intro t out ht
    rw [result?_build] at ht
    split at ht
    · next heq => exact heq ▸ GraphSet.contains_of_get? hlines
    · exact h.dumped t out ht
  raw_get? := by
    intro t
    rw [raw_build, GraphSet.get?_remove, result?_build]
    split
    · rfl
    · exact h.raw_get? t

theorem raw_get?_ne_none (h : Divided graphs s) (hg : graphs.contains g = true)
    (hwaits : s.result? g = none) : s.raw.get? g ≠ none := by
  rw [h.get? hwaits]
  intro hnone
  exact absurd hg (by simp [GraphSet.contains, hnone])

end Divided

/-- What was done stays as it is. -/
def Keeps (s s' : Splicer) : Prop := ∀ g lines, s.result? g = some lines → s'.result? g = some lines

theorem Keeps.refl (s : Splicer) : Keeps s s := fun _ _ h => h

theorem Keeps.trans (h : Keeps s s') (h' : Keeps s' s'') : Keeps s s'' :=
  fun g lines hg => h' g lines (h g lines hg)

theorem Keeps.none (h : Keeps s s') (hg : s'.result? g = none) : s.result? g = none := by
  cases hr : s.result? g with
  | none => rfl
  | some lines => exact absurd ((h g lines hr).symm.trans hg) (by simp)

theorem keeps_build (h : s.result? g = none) (lines : List Fragment) :
    Keeps s (s.build g lines) := by
  intro t out ht
  have hne : g ≠ t := by
    rintro rfl
    exact absurd (h.symm.trans ht) (by simp)
  rw [result?_build, if_neg hne]
  exact ht

/-- It is time to build the graph. -/
structure Ready (graphs : GraphSet) (calls : List GraphId) (s : Splicer) (g : GraphId)
    (lines : List Fragment) : Prop where
  lines_eq : graphs.get? g = some lines
  waits : s.result? g = none
  called : ∃ c ∈ calls, ReflTransGen graphs.Refers c g
  named : ∀ t, graphs.Refers g t → s.result? t = none → TransGen graphs.Refers t g

/-- The listed graphs are built, one after the other. -/
inductive Builds (graphs : GraphSet) (calls : List GraphId) (s : Splicer) :
    List GraphId → Splicer → Prop
  | nil : Builds graphs calls s [] s
  | concat {built : List GraphId} {s' : Splicer} {g : GraphId} {lines : List Fragment} :
      Builds graphs calls s built s' → Ready graphs calls s' g lines →
      Builds graphs calls s (built ++ [g]) (s'.build g lines)

namespace Builds

theorem trans {built' : List GraphId} (h : Builds graphs calls s built s')
    (h' : Builds graphs calls s' built' s'') : Builds graphs calls s (built ++ built') s'' := by
  induction h' with
  | nil =>
    rw [List.append_nil]
    exact h
  | concat _ hready ih =>
    rw [← List.append_assoc]
    exact ih.concat hready

theorem keeps (h : Builds graphs calls s built s') : Keeps s s' := by
  induction h with
  | nil => exact Keeps.refl s
  | concat _ hready ih => exact ih.trans (keeps_build hready.waits _)

theorem divided (h : Builds graphs calls s built s') (hs : Divided graphs s) :
    Divided graphs s' := by
  induction h with
  | nil => exact hs
  | concat _ hready ih => exact ih.build hready.lines_eq

theorem called (h : Builds graphs calls s built s') :
    ∀ g ∈ built, graphs.contains g = true ∧ ∃ c ∈ calls, ReflTransGen graphs.Refers c g := by
  induction h with
  | nil => simp
  | concat _ hready ih =>
    intro u hu
    rcases List.mem_append.mp hu with hu | hu
    · exact ih u hu
    · rw [List.mem_singleton.mp hu]
      exact ⟨GraphSet.contains_of_get? hready.lines_eq, hready.called⟩

end Builds

/-- A graph that may be entered: a call leads to it, and so does every graph that waits on the
path. -/
structure Entered (graphs : GraphSet) (calls : List GraphId) (s : Splicer)
    (offPath : List GraphId) (g : GraphId) : Prop where
  called : ∃ c ∈ calls, ReflTransGen graphs.Refers c g
  onPath : ∀ a, graphs.contains a = true → s.result? a = none → a ∉ offPath →
    TransGen graphs.Refers a g

namespace Entered

theorem keeps (h : Entered graphs calls s offPath g) (hk : Keeps s s') :
    Entered graphs calls s' offPath g :=
  ⟨h.called, fun a ha hwaits => h.onPath a ha (hk.none hwaits)⟩

theorem below (h : Entered graphs calls s offPath g) (hstep : graphs.Refers g t) :
    Entered graphs calls s (offPath.erase g) t where
  called := by
    obtain ⟨c, hc, hreach⟩ := h.called
    exact ⟨c, hc, hreach.tail hstep⟩
  onPath := by
    intro a ha hwaits hoff
    by_cases hag : a = g
    · exact hag ▸ .single hstep
    · exact (h.onPath a ha hwaits fun hin => hoff ((List.mem_erase_of_ne hag).mpr hin)).tail hstep

end Entered

/-- The references of what is done lead to what is done, or to graphs on the path. -/
def Settled (graphs : GraphSet) (s : Splicer) (offPath : List GraphId) : Prop :=
  ∀ a t, (s.result? a).isSome = true → graphs.Refers a t → s.result? t = none → t ∉ offPath

namespace Visits

theorem divided (h : Visits offPath s targets built s') (hs : Divided graphs s) :
    Divided graphs s' := by
  induction h with
  | nil => exact hs
  | skip hskip hrest ih => exact ih hs
  | build hoff hwaits hraw hbelow hrest ihbelow ihrest =>
    exact ihrest ((ihbelow hs).build ((hs.get? hwaits).symm.trans hraw))

private theorem builds (h : Visits offPath s targets built s') (hnodup : offPath.Nodup)
    (hs : Divided graphs s)
    (hentered : ∀ t ∈ targets, graphs.contains t = true → Entered graphs calls s offPath t) :
    Builds graphs calls s built s' := by
  induction h with
  | nil => exact .nil
  | skip hskip hrest ih => exact ih hnodup hs fun u hu => hentered u (List.mem_cons_of_mem _ hu)
  | @build offPath targets below built s inner s' t lines hoff hwaits hraw hbelow hrest
      ihbelow ihrest =>
    have hlines : graphs.get? t = some lines := (hs.get? hwaits).symm.trans hraw
    have hhere := hentered t List.mem_cons_self (GraphSet.contains_of_get? hlines)
    have hinner : Builds graphs calls s below inner :=
      ihbelow (hnodup.erase t) hs fun u hu hcu => hhere.below ⟨lines, hlines, hu, hcu⟩
    have hready : Ready graphs calls inner t lines := by
      refine ⟨hlines, hbelow.waits_iff.mpr ⟨hwaits, hbelow.not_mem_below hnodup⟩,
        hhere.called, fun u hrefers huwaits => ?_⟩
      obtain ⟨lines', hlines', hu, hcu⟩ := hrefers
      obtain rfl : lines = lines' := Option.some.inj (hlines.symm.trans hlines')
      have hstep : graphs.Refers t u := ⟨lines, hlines, hu, hcu⟩
      -- a graph that the visit below left waiting stands on the path
      have hon : u ∉ offPath.erase t := fun hin =>
        (hbelow.divided hs).raw_get?_ne_none hcu huwaits (hbelow.passed u hu hin huwaits)
      by_cases hut : u = t
      · exact .single (hut ▸ hstep)
      · exact hhere.onPath u hcu (hinner.keeps.none huwaits) fun hin =>
          hon ((List.mem_erase_of_ne hut).mpr hin)
    have hbuilt := hinner.concat hready
    have hafter := ihrest hnodup (hbuilt.divided hs) fun u hu hcu =>
      (hentered u (List.mem_cons_of_mem t hu) hcu).keeps hbuilt.keeps
    have htrans := hbuilt.trans hafter
    rw [List.append_assoc] at htrans
    exact htrans

private theorem settled (h : Visits offPath s targets built s') (hnodup : offPath.Nodup)
    (hs : Divided graphs s) (hsettled : Settled graphs s offPath) : Settled graphs s' offPath := by
  induction h with
  | nil => exact hsettled
  | skip hskip hrest ih => exact ih hnodup hs hsettled
  | @build offPath targets below built s inner s' t lines hoff hwaits hraw hbelow hrest
      ihbelow ihrest =>
    have hlines : graphs.get? t = some lines := (hs.get? hwaits).symm.trans hraw
    have hdivided := hbelow.divided hs
    have hinner : Settled graphs inner (offPath.erase t) :=
      ihbelow (hnodup.erase t) hs fun a u ha hstep huwaits hin =>
        hsettled a u ha hstep huwaits (List.mem_of_mem_erase hin)
    refine ihrest hnodup (hdivided.build hlines) fun a u ha hstep huwaits hin => ?_
    obtain ⟨htu, huwaits⟩ := waits_build.mp huwaits
    have hin' : u ∈ offPath.erase t := (List.mem_erase_of_ne (Ne.symm htu)).mpr hin
    by_cases hta : t = a
    · subst hta
      obtain ⟨lines', hlines', hu, hcu⟩ := hstep
      obtain rfl : lines = lines' := Option.some.inj (hlines.symm.trans hlines')
      exact hdivided.raw_get?_ne_none hcu huwaits (hbelow.passed u hu hin' huwaits)
    · rw [result?_build, if_neg hta] at ha
      exact hinner a u ha hstep huwaits hin'

end Visits

/-- Calls on a splicer build graphs that they lead to. -/
theorem Visits.builds_called (h : Visits s.raw.ids s calls built s') (hs : Divided graphs s) :
    Builds graphs calls s built s' := by
  refine h.builds s.raw.nodup hs fun c hc _ => ⟨⟨c, hc, .refl⟩, fun a ha hwaits hon => ?_⟩
  exact absurd (GraphSet.mem_ids_of_get?_ne_none (hs.raw_get?_ne_none ha hwaits)) hon

/-- What is called for is done, if it was dumped. -/
theorem Visits.isSome_called (h : Visits s.raw.ids s calls built s') (hs : Divided graphs s)
    (hg : g ∈ calls) (hdumped : graphs.contains g = true) : (s'.result? g).isSome = true := by
  rw [Option.isSome_iff_ne_none]
  intro hwaits
  have hraw := hs.raw_get?_ne_none hdumped (h.waits_iff.mp hwaits).1
  exact (h.divided hs).raw_get?_ne_none hdumped hwaits
    (h.passed g hg (GraphSet.mem_ids_of_get?_ne_none hraw) hwaits)

theorem Divided.foldl_splice (h : Divided graphs s) (calls : List GraphId) :
    Divided graphs (calls.foldl splice s) ∧ Keeps s (calls.foldl splice s) := by
  obtain ⟨built, hvisits⟩ := Visits.calls s calls
  exact ⟨hvisits.divided h, (hvisits.builds_called h).keeps⟩

theorem Divided.isSome_splice (h : Divided graphs s) (hg : graphs.contains g = true) :
    ((s.splice g).result? g).isSome = true := by
  obtain ⟨built, hvisits⟩ := Visits.calls s [g]
  exact hvisits.isSome_called h (List.mem_singleton_self g) hg

/-- Every call for a dumped graph gives the lines that the splicer holds for it in the end. -/
theorem Divided.result?_call (h : Divided graphs s) (before after : List GraphId)
    (hg : graphs.contains g = true) :
    ((before ++ g :: after).foldl splice s).result? g =
      ((before.foldl splice s).splice g).result? g := by
  have hearly := (h.foldl_splice before).1
  obtain ⟨lines, hlines⟩ := Option.isSome_iff_exists.mp (hearly.isSome_splice hg)
  have hkept := ((hearly.foldl_splice [g]).1.foldl_splice after).2 g lines hlines
  rw [hlines, List.foldl_append, List.foldl_cons]
  exact hkept

/-- All that references lead to from what is called for is done. -/
theorem Visits.isSome_of_reaches {c : GraphId}
    (h : Visits graphs.ids (ofGraphs graphs) calls built s) (hc : c ∈ calls)
    (hreach : ReflTransGen graphs.Refers c g) (hg : graphs.contains g = true) :
    (s.result? g).isSome = true := by
  have hs := divided_ofGraphs graphs
  have hnone : Settled graphs (ofGraphs graphs) graphs.ids := by simp [Settled, ofGraphs, result?]
  have hsettled := h.settled graphs.nodup hs hnone
  induction hreach with
  | refl => exact h.isSome_called hs hc hg
  | @tail b t _ hstep ih =>
    rw [Option.isSome_iff_ne_none]
    exact fun hwaits =>
      hsettled b t (ih hstep.dumped) hstep hwaits (GraphSet.contains_iff_mem_ids.mp hg)

/-- The calls build the graphs that they lead to, and no others. -/
theorem Visits.mem_built_iff (h : Visits graphs.ids (ofGraphs graphs) calls built s) :
    g ∈ built ↔ graphs.contains g = true ∧ ∃ c ∈ calls, ReflTransGen graphs.Refers c g := by
  refine ⟨(h.builds_called (divided_ofGraphs graphs)).called g, fun ⟨hg, c, hc, hreach⟩ => ?_⟩
  by_contra hnot
  have hwaits := h.waits_iff.mpr ⟨by simp [ofGraphs, result?], hnot⟩
  exact Option.isSome_iff_ne_none.mp (h.isSome_of_reaches hc hreach hg) hwaits

end Splicer

end LeakTrace
