import LeakTrace.Proofs.Graph.Visits
import Mathlib.Logic.Function.Iterate

namespace LeakTrace

namespace Splicer

inductive Task
  | enter (graph : GraphId)
  | build (graph : GraphId)
deriving DecidableEq, Repr

/-- A splicer at work on one call, over a stack of tasks in place of recursion. A graph that is entered
puts the graphs that it names on the stack, and its own build below them. -/
structure Worklist where
  splicer : Splicer
  /-- What is still to be done, the next task first. -/
  stack : List Task
  /-- The graphs that were entered and wait for their build. -/
  inProgress : List GraphId
  /-- The graphs that were built, in order. -/
  built : List GraphId

/-- The graph can still be entered. -/
def isPending (s : Splicer) (g : GraphId) : Bool := !s.done.contains g && s.raw.contains g

namespace Worklist

/-- Does the next task. -/
def step (w : Worklist) : Worklist :=
  match w.stack with
  | [] => w
  | .enter g :: stack =>
    if w.splicer.done.contains g || w.inProgress.contains g then { w with stack := stack }
    else
      match w.splicer.raw.get? g with
      | none => { w with stack := stack }
      | some lines =>
        let nested := (boundaryReferences lines).filter w.splicer.isPending
        { w with
          stack := nested.map .enter ++ .build g :: stack
          inProgress := g :: w.inProgress }
  | .build g :: stack =>
    { splicer := w.splicer.build g ((w.splicer.raw.get? g).getD [])
      stack := stack
      inProgress := w.inProgress.erase g
      built := w.built ++ [g] }

/-- Doing some tasks leads from the one to the other. -/
def Leads (w w' : Worklist) : Prop := ∃ n, step^[n] w = w'

theorem Leads.refl (w : Worklist) : Leads w w := ⟨0, rfl⟩

theorem Leads.trans {w w' w'' : Worklist} (h : Leads w w') (h' : Leads w' w'') : Leads w w'' := by
  obtain ⟨n, rfl⟩ := h
  obtain ⟨m, rfl⟩ := h'
  exact ⟨m + n, Function.iterate_add_apply step m n w⟩

private theorem leads_step (w : Worklist) : Leads w w.step := ⟨1, rfl⟩

variable {s : Splicer} {g : GraphId} {stack : List Task} {inProgress log : List GraphId}

private theorem step_pass (h : g ∉ inProgress → s.result? g = none → s.raw.get? g = none) :
    step ⟨s, .enter g :: stack, inProgress, log⟩ = ⟨s, stack, inProgress, log⟩ := by
  simp only [step, Bool.or_eq_true, List.contains_iff_mem]
  split
  · rfl
  · next hnew =>
    rw [not_or] at hnew
    rw [h hnew.2 (result?_eq_none_iff.mpr hnew.1)]

private theorem step_enter {lines : List Fragment} (hwaits : s.result? g = none)
    (hnew : g ∉ inProgress)
    (hlines : s.raw.get? g = some lines) :
    step ⟨s, .enter g :: stack, inProgress, log⟩ =
      ⟨s, ((boundaryReferences lines).filter s.isPending).map .enter ++ .build g :: stack,
        g :: inProgress, log⟩ := by
  have hdone : ¬s.done.contains g = true := result?_eq_none_iff.mp hwaits
  simp [step, hdone, hnew, hlines]

private theorem step_build {lines : List Fragment} (hlines : s.raw.get? g = some lines) :
    step ⟨s, .build g :: stack, g :: inProgress, log⟩ =
      ⟨s.build g lines, stack, inProgress, log ++ [g]⟩ := by
  simp [step, hlines]

end Worklist

open Worklist

private theorem get?_eq_none_of_not_isPending {s : Splicer} {g : GraphId}
    (h : s.isPending g = false)
    (hwaits : s.result? g = none) : s.raw.get? g = none := by
  have hdone := result?_eq_none_iff.mp hwaits
  rw [isPending, Bool.and_eq_false_iff] at h
  rcases h with h | h
  · simp [hdone] at h
  · exact GraphSet.get?_eq_none_iff.mpr h

/-- A visit is worked off on the stack, above whatever else lies there. Targets of which nothing can
come need not be put there in the first place. -/
theorem Visits.leads {offPath targets built : List GraphId} {s s' : Splicer}
    (h : Visits offPath s targets built s') (hnodup : offPath.Nodup) (pending : GraphId → Bool)
    (hpending : ∀ t, pending t = false → s.result? t = none → s.raw.get? t = none)
    (inProgress : List GraphId)
    (hon : ∀ t, s.raw.get? t ≠ none → (t ∈ offPath ↔ t ∉ inProgress)) (stack : List Task)
    (log : List GraphId) :
    Leads ⟨s, (targets.filter pending).map .enter ++ stack, inProgress, log⟩
      ⟨s', stack, inProgress, log ++ built⟩ := by
  induction h generalizing pending inProgress stack log with
  | nil =>
    rw [List.append_nil]
    exact .refl _
  | @skip offPath targets built s s' t hskip hrest ih =>
    by_cases ht : pending t = true
    · rw [List.filter_cons_of_pos ht, List.map_cons, List.cons_append]
      refine (leads_step _).trans ?_
      rw [step_pass fun hnew hwaits => ?_]
      · exact ih hnodup pending hpending inProgress hon stack log
      · by_contra hraw
        exact hraw (hskip ((hon t hraw).mpr hnew) hwaits)
    · rw [List.filter_cons_of_neg ht]
      exact ih hnodup pending hpending inProgress hon stack log
  | @build offPath targets below built s inner s' t lines hoff hwaits hlines hbelow hrest
      ihbelow ihrest =>
    have hraw : s.raw.get? t ≠ none := by simp [hlines]
    have ht : pending t = true := by
      by_contra ht
      exact hraw (hpending t (by simpa using ht) hwaits)
    have hinner : inner.raw.get? t = some lines := by
      rw [hbelow.raw_get?, if_neg (hbelow.not_mem_below hnodup), hlines]
    have honBelow : ∀ u, s.raw.get? u ≠ none → (u ∈ offPath.erase t ↔ u ∉ t :: inProgress) := by
      intro u hu
      rw [hnodup.mem_erase_iff, hon u hu, List.mem_cons, not_or]
    have hpendingAfter : ∀ u, pending u = false → (inner.build t lines).result? u = none →
        (inner.build t lines).raw.get? u = none := by
      intro u hu huwaits
      by_contra hne
      have hbefore := hbelow.waits_iff.mp (waits_build.mp huwaits).2
      exact hbelow.raw_of_raw_build hne (hpending u hu hbefore.1)
    have hafter := ihrest hnodup pending hpendingAfter inProgress
      (fun u hu => hon u (hbelow.raw_of_raw_build hu)) stack (log ++ below ++ [t])
    rw [show log ++ below ++ [t] ++ built = log ++ (below ++ t :: built) by simp] at hafter
    rw [List.filter_cons_of_pos ht, List.map_cons, List.cons_append]
    refine (leads_step _).trans ?_
    rw [step_enter hwaits ((hon t hraw).mp hoff) hlines]
    refine (ihbelow (hnodup.erase t) s.isPending (fun _ => get?_eq_none_of_not_isPending)
      (t :: inProgress) honBelow _ log).trans ?_
    refine (leads_step _).trans ?_
    rw [step_build hinner]
    exact hafter

/-- The calls are worked off, one after the other, and the listed graphs are built on the way. -/
inductive WorkedOff : Splicer → List GraphId → List GraphId → Splicer → Prop
  | nil {s : Splicer} : WorkedOff s [] [] s
  | cons {s s' s'' : Splicer} {g : GraphId} {calls built built' : List GraphId} :
      Leads ⟨s, [.enter g], [], []⟩ ⟨s', [], [], built⟩ → WorkedOff s' calls built' s'' →
      WorkedOff s (g :: calls) (built ++ built') s''

theorem Visits.workedOff {offPath calls built : List GraphId} {s s' : Splicer}
    (h : Visits offPath s calls built s') (hnodup : offPath.Nodup)
    (hoff : ∀ t, s.raw.get? t ≠ none → t ∈ offPath) : WorkedOff s calls built s' := by
  induction calls generalizing s built with
  | nil =>
    cases h
    exact .nil
  | cons g calls ih =>
    obtain ⟨here, rest, s₁, rfl, hhere, hrest⟩ := h.uncons
    have hleads := hhere.leads hnodup (fun _ => true) (by simp) []
      (fun t ht => by simp [hoff t ht]) [] []
    refine .cons hleads (ih hrest fun t ht => hoff t fun hnone => ht ?_)
    rw [hhere.raw_get?, hnone, ite_self]

end Splicer

end LeakTrace
