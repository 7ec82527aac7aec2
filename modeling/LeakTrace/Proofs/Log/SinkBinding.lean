import LeakTrace.Proofs.Log.Bindings
import Mathlib.Data.List.Induction

namespace LeakTrace

def recordedSink? (line : String) : Option Sink := (record? line).bind Record.sink?

def dumpedGraph? (line : String) : Option GraphId := (record? line).bind Record.dumpedGraph?

def latestSink? (lines : List String) : Option Sink := (lines.filterMap recordedSink?).getLast?

/-- One of the lines dumps the graph, and a sink stands before it. -/
def DumpedBehindSink (g : GraphId) (lines : List String) : Prop :=
  ∃ before line after, lines = before ++ line :: after ∧
    dumpedGraph? line = some g ∧ (latestSink? before).isSome = true

/-- The first line that dumps the graph behind a sink stands behind `s` as the latest one. -/
def FirstDumpedBehind (g : GraphId) (s : Sink) (lines : List String) : Prop :=
  ∃ before line after, lines = before ++ line :: after ∧
    dumpedGraph? line = some g ∧ latestSink? before = some s ∧ ¬DumpedBehindSink g before

variable {lines : List String} {g : GraphId} {s : Sink}

theorem exists_place_concat {α : Type} {P : List α → α → List α → Prop} {l : List α} {x : α} :
    (∃ before a after, l ++ [x] = before ++ a :: after ∧ P before a after) ↔
      (∃ before a after, l = before ++ a :: after ∧ P before a (after ++ [x])) ∨ P l x [] := by
  constructor
  · rintro ⟨before, a, after, heq, hP⟩
    rcases List.eq_nil_or_concat after with rfl | ⟨after, last, rfl⟩
    · obtain ⟨rfl, hlast⟩ := List.append_inj' heq rfl
      obtain rfl : x = a := List.singleton_inj.mp hlast
      exact .inr hP
    · rw [List.concat_eq_append] at heq hP
      rw [← List.cons_append, ← List.append_assoc] at heq
      obtain ⟨rfl, hlast⟩ := List.append_inj' heq rfl
      obtain rfl : x = last := List.singleton_inj.mp hlast
      exact .inl ⟨before, a, after, rfl, hP⟩
  · rintro (⟨before, a, after, rfl, hP⟩ | hP)
    · exact ⟨before, a, after ++ [x], by simp, hP⟩
    · exact ⟨l, x, [], rfl, hP⟩

theorem getLast?_filterMap_concat {α β : Type} (read : α → Option β) (l : List α) (x : α) :
    ((l ++ [x]).filterMap read).getLast? = (read x).or (l.filterMap read).getLast? := by
  rw [List.filterMap_append]
  cases h : read x with
  | none => simp [h]
  | some b => simp [h]

private theorem latestSink?_concat (lines : List String) (line : String) :
    latestSink? (lines ++ [line]) = (recordedSink? line).or (latestSink? lines) :=
  getLast?_filterMap_concat recordedSink? lines line

private theorem dumpedBehindSink_concat {line : String} :
    DumpedBehindSink g (lines ++ [line]) ↔
      DumpedBehindSink g lines ∨
        dumpedGraph? line = some g ∧ (latestSink? lines).isSome = true :=
  exists_place_concat

private theorem firstDumpedBehind_concat {line : String} :
    FirstDumpedBehind g s (lines ++ [line]) ↔
      FirstDumpedBehind g s lines ∨
        dumpedGraph? line = some g ∧ latestSink? lines = some s ∧ ¬DumpedBehindSink g lines :=
  exists_place_concat

namespace TaintLog

private theorem sink?_addLine (log : TaintLog) (line : String) (g : GraphId) :
    (log.addLine line).bindings.sink? g =
      (log.bindings.sink? g).or
        (if dumpedGraph? line = some g then log.bindings.pendingSink else none) :=
  (takes_addLine log line).sink? g

private theorem pendingSink_ofLines (lines : List String) :
    (ofLines lines).bindings.pendingSink = latestSink? lines := by
  induction lines using List.reverseRecOn with
  | nil => rfl
  | append_singleton lines line ih =>
    rw [ofLines_concat, (takes_addLine _ line).pendingSink, ih, latestSink?_concat]
    rfl

/-- A graph is free as long as it was not dumped behind a sink. -/
theorem sink?_ofLines (lines : List String) (g : GraphId) :
    ((ofLines lines).bindings.sink? g = none ↔ ¬DumpedBehindSink g lines) ∧
      ∀ s, (ofLines lines).bindings.sink? g = some s ↔ FirstDumpedBehind g s lines := by
  induction lines using List.reverseRecOn with
  | nil =>
    simp [DumpedBehindSink, FirstDumpedBehind, ofLines, empty, Bindings.empty, Bindings.sink?]
  | append_singleton lines line ih =>
    obtain ⟨hfree, hbound⟩ := ih
    rw [ofLines_concat, sink?_addLine, pendingSink_ofLines, dumpedBehindSink_concat]
    simp only [firstDumpedBehind_concat, ← hbound, ← hfree]
    cases hs : (ofLines lines).bindings.sink? g with
    | some s =>
      have hdumped : DumpedBehindSink g lines := by
        by_contra hno
        rw [hfree.mpr hno] at hs
        exact absurd hs (by simp)
      simp [hdumped]
    | none =>
      have hno : ¬DumpedBehindSink g lines := hfree.mp hs
      by_cases hline : dumpedGraph? line = some g
      · simp [hno, hline]
      · simp [hno, hline]

/-- A binding is for good. -/
theorem sink?_append (h : (ofLines lines).bindings.sink? g = some s) (later : List String) :
    (ofLines (lines ++ later)).bindings.sink? g = some s := by
  rw [ofLines, List.foldl_append]
  refine List.foldlRecOn (motive := fun log => log.bindings.sink? g = some s) later addLine h ?_
  intro log hlog line _
  rw [sink?_addLine, hlog, Option.some_or]

end TaintLog

/-- A graph is bound to the sink that is the latest one at the first of its dump lines behind a
sink, and to none if there is no such line; once it is bound, no later line changes that. So a graph
that is dumped for the first time behind a sink is bound to the latest one there. -/
theorem sink_bound_once (lines : List String) (g : GraphId) :
    (∀ s, (TaintLog.ofLines lines).bindings.sink? g = some s ↔ FirstDumpedBehind g s lines) ∧
      (∀ s later, (TaintLog.ofLines lines).bindings.sink? g = some s →
        (TaintLog.ofLines (lines ++ later)).bindings.sink? g = some s) ∧
      ∀ before line after, lines = before ++ line :: after → dumpedGraph? line = some g →
        (∀ l ∈ before, dumpedGraph? l ≠ some g) → (latestSink? before).isSome = true →
        (TaintLog.ofLines lines).bindings.sink? g = latestSink? before := by
  have hbound := (TaintLog.sink?_ofLines lines g).2
  refine ⟨hbound, fun s later hs => TaintLog.sink?_append hs later, ?_⟩
  intro before line after hlines hline hfirst hsome
  obtain ⟨s, hs⟩ := Option.isSome_iff_exists.mp hsome
  have hnever : ¬DumpedBehindSink g before := by
    rintro ⟨b, l, a, rfl, hl, -⟩
    exact hfirst l (List.mem_append_right b List.mem_cons_self) hl
  rw [hs]
  exact (hbound s).mpr ⟨before, line, after, hlines, hline, hs, hnever⟩

def dumpOfFive : String := "DumpTaint-5: ->g()id(4)->left->f()id(3)"

/-- A graph that is dumped before the first sink, behind it, and behind the second one. -/
def redumped : List String :=
  [dumpOfFive, "SinkFound: g(), d", dumpOfFive, "SinkFound: h(), e", dumpOfFive]

private theorem dumpedGraph?_dumpOfFive : dumpedGraph? dumpOfFive = some 5 := by decide +kernel

private theorem firstDumpedBehind_redumped : FirstDumpedBehind 5 ⟨"g()", "d"⟩ redumped := by
  have hnever : ¬DumpedBehindSink 5 ([] ++ [dumpOfFive] ++ ["SinkFound: g(), d"]) := by
    rw [dumpedBehindSink_concat, dumpedBehindSink_concat]
    rintro ((⟨before, line, after, hnil, -⟩ | ⟨-, hsome⟩) | ⟨hdump, -⟩)
    · simp at hnil
    · exact absurd hsome (by decide +kernel)
    · exact absurd hdump (by decide +kernel)
  exact ⟨_, dumpOfFive, ["SinkFound: h(), e", dumpOfFive], rfl, dumpedGraph?_dumpOfFive,
    by decide +kernel, hnever⟩

/-- The sink in the middle is the one that counts, and it is the latest one where the log starts
with it. -/
theorem redumped_bound_once :
    (TaintLog.ofLines redumped).bindings.sink? 5 = some ⟨"g()", "d"⟩ ∧
      (TaintLog.ofLines (redumped ++ redumped)).bindings.sink? 5 = some ⟨"g()", "d"⟩ ∧
      (TaintLog.ofLines redumped.tail).bindings.sink? 5 = latestSink? ["SinkFound: g(), d"] := by
  obtain ⟨hiff, hkept, -⟩ := sink_bound_once redumped 5
  have hbound := (hiff _).mpr firstDumpedBehind_redumped
  have hfirst := (sink_bound_once redumped.tail 5).2.2 ["SinkFound: g(), d"] dumpOfFive _ rfl
    dumpedGraph?_dumpOfFive (by decide +kernel) (by decide +kernel)
  exact ⟨hbound, hkept _ redumped hbound, hfirst⟩

/-- A graph that is dumped for the first time before any sink is not left without one. -/
theorem late_sink_bound :
    ¬∀ (lines : List String) (g : GraphId) (before : List String) (line : String)
      (after : List String), lines = before ++ line :: after → dumpedGraph? line = some g →
      (∀ l ∈ before, dumpedGraph? l ≠ some g) →
      (TaintLog.ofLines lines).bindings.sink? g = latestSink? before := by
  intro h
  have hfree : (TaintLog.ofLines redumped).bindings.sink? 5 = none :=
    h redumped 5 [] dumpOfFive _ rfl dumpedGraph?_dumpOfFive (by simp)
  have hbound := ((TaintLog.sink?_ofLines redumped 5).2 _).mpr firstDumpedBehind_redumped
  rw [hfree] at hbound
  exact absurd hbound (by simp)

end LeakTrace
