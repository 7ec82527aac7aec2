import LeakTrace.Extraction.Run
import LeakTrace.Proofs.Output.Emitter
import LeakTrace.Proofs.Path.Names
import Mathlib.Algebra.GroupWithZero.Nat

namespace LeakTrace

open FileTree Emitter

variable {config : Config} {bindings : Bindings} {out : Route} {report report' : Report}
  {rank : Nat}
  {p : LeakPath} {w w' : Workspace}

theorem Config.slash_not_mem_drawing {r : Reconstruction} {drawing : String × String}
    (h : drawing ∈ config.drawings r) : '/' ∉ drawing.1.toList := by
  rw [drawings] at h
  split at h
  · obtain ⟨o, ho, h⟩ := List.mem_flatMap.mp h
    obtain ⟨⟨graph, lines⟩, -, rfl⟩ := List.mem_map.mp ho
    obtain ⟨partition, hpartition, rfl⟩ := List.mem_map.mp h
    obtain ⟨g, -, rfl⟩ := List.mem_map.mp hpartition
    have hgraph : '/' ∉ Text.ofUInt64 graph := Text.not_mem_digits (by decide)
    have htime : '/' ∉ Text.ofInt64 g.source.time := Text.not_mem_ofInt64 (by decide) (by decide)
    have hmark : '/' ∉ "_".toList := by decide
    simp only [Subgraph.outcome, Subgraph.drawing, String.toList_append, String.toList_ofList,
      List.mem_append, hgraph, htime, hmark, or_self, not_false_eq_true]
  · exact absurd h List.not_mem_nil

/-- The two files of a path are there. -/
structure FileTree.ShowsPath (t : FileTree) (out : Route) (name : String) (l : LoweredPath) : Prop where
  rows : t.content? (pathFile out pathsDir name) =
    some (Text.Utf8.encode (Csv.render (PathRow.header :: l.rows.map PathRow.fields)))
  bytecode : t.content? (pathFile out bytecodeDir name) =
    some (Text.Utf8.encode (Csv.render (BytecodeRow.header :: l.bytecode.map BytecodeRow.fields)))

private theorem Emitter.not_pathFile {dir name : String} {names : List String}
    (hdir : dir ∈ renewedDirs)
    (hslash : '/' ∉ name.toList) (hname : name ∉ names) :
    ¬PathFile out names (pathFile out dir name).destination := by
  rintro ⟨dir', -, other, hother, heq⟩
  rw [destination_pathFile hdir hslash] at heq
  obtain ⟨-, hsame⟩ : dir = dir' ∧ name = other := by simpa using heq
  exact hname (hsame ▸ hother)

/-- To write paths of other names leaves the files of a path as they are. -/
theorem FileTree.ShowsPath.mono {t t' : FileTree} {name : String} {l : LoweredPath}
    {names : List String} (h : t.ShowsPath out name l)
    (hchanges : ChangesOnly (PathFile out names) t t') (hslash : '/' ∉ name.toList)
    (hname : name ∉ names) : t'.ShowsPath out name l where
  rows := hchanges.content? (not_pathFile pathsDir_mem hslash hname) h.rows
  bytecode := hchanges.content? (not_pathFile bytecodeDir_mem hslash hname) h.bytecode

namespace Job

/-- The files of the workspaces are related. -/
abbrev FilesRelated (R : FileTree → FileTree → Prop) : Workspace → Workspace → Prop :=
  InvImage R Workspace.files

instance {R : FileTree → FileTree → Prop} [IsPreorder FileTree R] :
    IsPreorder Workspace (FilesRelated R) where
  refl w := refl_of R w.files
  trans _ _ _ h h' := trans_of R h h'

private theorem succeeds_onFiles {α : Type} {action : FileAction α} {a : α}
    (h : Succeeds (onFiles action) w a w') : Succeeds action w.files a w'.files := by
  obtain ⟨hresult, rfl⟩ := Prod.mk.inj h
  exact Prod.ext hresult rfl

private theorem filesRelated_resolve {statement : String} {i : Option Instruction}
    (h : Succeeds (resolve statement) w i w') : FilesRelated Eq w w' := by
  obtain ⟨-, rfl⟩ := Prod.mk.inj h
  rfl

private theorem succeeds_resolvePath {instructions : List (Option Instruction)}
    (h : Succeeds (resolvePath p) w instructions w') :
    FilesRelated Eq w w' ∧ instructions.length = p.length := by
  obtain ⟨hfiles, hvalues⟩ := h.mapM fun _ _ _ _ => filesRelated_resolve
  refine ⟨hfiles, ?_⟩
  rw [← hvalues.length_eq, LeakPath.statements, List.length_map, LeakPath.length]

/-- What is written for ranked paths, from the given rank on: their names and lowered forms. -/
def written (config : Config) (bindings : Bindings) (rank : Nat)
    (ps : List (LeakPath × List (Option Instruction))) : List (String × LoweredPath) :=
  (ps.zipIdx rank).map fun ((p, instructions), n) =>
    (p.name n,
      LoweredPath.ofInstructions bindings config.skipVoidReturns (instructions.filterMap id))

variable {ps : List (LeakPath × List (Option Instruction))}

theorem map_fst_written : (written config bindings rank ps).map Prod.fst =
    Ranking.names rank (ps.map Prod.fst) := by
  induction ps generalizing rank with
  | nil => rfl
  | cons x ps ih =>
    rw [List.map_cons, Ranking.names_cons, ← ih]
    rfl

theorem slash_not_mem_written {f : String × LoweredPath}
    (h : f ∈ written config bindings rank ps) : '/' ∉ f.1.toList := by
  obtain ⟨⟨⟨p, instructions⟩, n⟩, -, rfl⟩ := List.mem_map.mp h
  exact p.slash_not_mem_name n

private theorem writePaths_cons (x : LeakPath × List (Option Instruction)) :
    writePaths config bindings out report rank (x :: ps) =
      writePath config bindings out report rank x.1 x.2 >>= fun report =>
        writePaths config bindings out report (rank + 1) ps := rfl

private theorem succeeds_writePath {instructions : List (Option Instruction)}
    (h : Succeeds (writePath config bindings out report rank p instructions) w report' w') :
    let l := LoweredPath.ofInstructions bindings config.skipVoidReturns (instructions.filterMap id)
    report' = { report with
      droppedStatements := report.droppedStatements + instructions.countP Option.isNone
      unsupportedInstructions := report.unsupportedInstructions + l.unsupported } ∧
    ChangesOnly (PathFile out [p.name rank]) w.files w'.files ∧
    w'.files.ShowsPath out (p.name rank) l := by
  rw [writePath, succeeds_bind] at h
  obtain ⟨u, w₁, hfiles, hreport⟩ := h
  obtain ⟨rfl, rfl⟩ := succeeds_pure.mp hreport
  obtain ⟨hchanges, hrows, hbytecode⟩ :=
    changesOnly_writePath (p.slash_not_mem_name rank) (succeeds_onFiles hfiles)
  exact ⟨rfl, hchanges, hrows, hbytecode⟩

/-- The paths are written one after the other. Each has a name of its own, so all files that were
written are still there in the end. -/
theorem succeeds_writePaths
    (h : Succeeds (writePaths config bindings out report rank ps) w report' w') :
    report' = { report with
      droppedStatements :=
        report.droppedStatements + (ps.map fun x => x.2.countP Option.isNone).sum
      unsupportedInstructions := report.unsupportedInstructions +
        ((written config bindings rank ps).map fun f => f.2.unsupported).sum } ∧
    ChangesOnly (PathFile out (Ranking.names rank (ps.map Prod.fst))) w.files w'.files ∧
    ∀ f ∈ written config bindings rank ps, w'.files.ShowsPath out f.1 f.2 := by
  induction ps generalizing rank report w with
  | nil =>
    obtain ⟨rfl, rfl⟩ := succeeds_pure.mp h
    exact ⟨rfl, .refl _, fun f hf => absurd hf List.not_mem_nil⟩
  | cons x ps ih =>
    rw [writePaths_cons, succeeds_bind] at h
    obtain ⟨between, w₁, hfirst, hrest⟩ := h
    obtain ⟨rfl, hchanges, hshown⟩ := succeeds_writePath hfirst
    obtain ⟨rfl, hchanges', hshown'⟩ := ih hrest
    have hnew : x.1.name rank ∉ Ranking.names (rank + 1) (ps.map Prod.fst) := by
      intro hmem
      obtain ⟨q, n, hle, hname⟩ := Ranking.mem_names hmem
      have hsame : rank = n := LeakPath.name_injective hname
      omega
    refine ⟨?_, ?_, ?_⟩
    · simp only [written, List.zipIdx_cons, List.map_cons, List.sum_cons, Nat.add_assoc]
    · rw [List.map_cons, Ranking.names_cons]
      refine (hchanges.mono ?_).trans (hchanges'.mono ?_)
      · rintro q ⟨dir, hdir, name, hname, hq⟩
        exact ⟨dir, hdir, name, List.mem_singleton.mp hname ▸ List.mem_cons_self, hq⟩
      · rintro q ⟨dir, hdir, name, hname, hq⟩
        exact ⟨dir, hdir, name, List.mem_cons_of_mem _ hname, hq⟩
    · intro f hf
      rw [written, List.zipIdx_cons, List.map_cons] at hf
      rcases List.mem_cons.mp hf with rfl | hf
      · exact hshown.mono hchanges' (x.1.slash_not_mem_name rank) hnew
      · exact hshown' f hf

/-- The stages of an extraction that succeeded: from the directories as they were made to the state
before the first path is written, and to that before the summary. -/
structure Stages (config : Config) (log : TaintLog) (out : Route) (w : Workspace) (report : Report)
    (after : Workspace) (created : FileTree) (steps : List (LeakPath × List (Option Instruction)))
    (drawn pathsWritten : Workspace) : Prop where
  create : Succeeds (Emitter.create out) w.files () created
  draw : ChangesOnly (fun q => q ∈ Route.trail out.origin out.names ∨
    out.destination ++ [graphsDir] <+: q) created drawn.files
  drawEach : Chain (fun d t t' => Succeeds (writeGraph out d.1 d.2) t () t')
    (config.drawings log.reconstruct) created drawn.files
  ranked : steps.map Prod.fst = config.paths log.reconstruct
  lookedUp : ∀ x ∈ steps, x.2.length = x.1.length
  write : Succeeds (writePaths config log.bindings out (.ofReconstruction config log.reconstruct) 1
    steps) drawn report pathsWritten
  summarize : Succeeds (writeSummary out (summaryRows log.bindings 1 (config.paths log.reconstruct)))
    pathsWritten.files () after.files

theorem succeeds_extract {log : TaintLog} {after : Workspace}
    (h : Succeeds (extract config log out) w report after) :
    ∃ created steps drawn pathsWritten,
      Stages config log out w report after created steps drawn pathsWritten := by
  rw [extract] at h
  obtain ⟨_, created, hcreate, h⟩ := succeeds_bind.mp h
  obtain ⟨_, drawn, hdraw, h⟩ := succeeds_bind.mp h
  obtain ⟨resolved, w₁, hresolve, h⟩ := succeeds_bind.mp h
  obtain ⟨written, w₂, hwrite, h⟩ := succeeds_bind.mp h
  obtain ⟨_, w₃, hsummary, h⟩ := succeeds_bind.mp h
  obtain ⟨rfl, rfl⟩ := succeeds_pure.mp h
  obtain ⟨hsame, hvalues⟩ := hresolve.mapM fun _ _ _ _ hp => (succeeds_resolvePath hp).1
  have hdrawn : FilesRelated (ChangesOnly fun q => q ∈ Route.trail out.origin out.names ∨
      out.destination ++ [graphsDir] <+: q) created drawn := by
    refine hdraw.forIn fun drawing hmem _ s r s' hbody => ?_
    obtain ⟨_, s₁, hgraph, hbody⟩ := succeeds_bind.mp hbody
    obtain ⟨-, rfl⟩ := succeeds_pure.mp hbody
    exact changesOnly_writeGraph (Config.slash_not_mem_drawing hmem) (succeeds_onFiles hgraph)
  have heach : Chain (fun d w w' => Succeeds (writeGraph out d.1 d.2) w.files () w'.files)
      (config.drawings log.reconstruct) created drawn := by
    refine hdraw.forIn_chain fun drawing _ _ s r s' hbody => ?_
    obtain ⟨_, s₁, hgraph, hbody⟩ := succeeds_bind.mp hbody
    obtain ⟨rfl, rfl⟩ := succeeds_pure.mp hbody
    exact ⟨⟨_, rfl⟩, succeeds_onFiles hgraph⟩
  have hfiles : drawn.files = w₁.files := hsame
  obtain ⟨hlength, hlooked⟩ := List.forall₂_iff_zip.mp hvalues
  refine ⟨created.files, (config.paths log.reconstruct).zip resolved, w₁, w₂, ?_⟩
  exact {
    create := succeeds_onFiles hcreate
    draw := hfiles ▸ hdrawn
    drawEach := hfiles ▸ heach.map Workspace.files fun _ _ _ _ => id
    ranked := List.map_fst_zip (Nat.le_of_eq hlength)
    lookedUp := by
      intro x hx
      obtain ⟨_, _, hp⟩ := hlooked hx
      exact (succeeds_resolvePath hp).2
    write := hwrite
    summarize := succeeds_onFiles hsummary }

end Job

end LeakTrace
