import LeakTrace.Proofs.Extraction.Paths
import LeakTrace.Proofs.Extraction.Run

namespace LeakTrace

open FileTree Emitter

variable {t : FileTree} {d : Path} {names : List String} {config : Config} {log : TaintLog}
  {out : Route} {report : Report} {w after : Workspace}

/-- Below the directory there is a file for each name, and nothing else. -/
structure FileTree.HoldsExactly (t : FileTree) (d : Path) (names : List String) : Prop where
  files : ∀ name ∈ names, ∃ content, t.lookup? (d ++ [name ++ ".csv"]) = some (.file content)
  others : ∀ rest, rest ≠ [] → (∀ name ∈ names, rest ≠ [name ++ ".csv"]) →
    t.lookup? (d ++ rest) = none

namespace FileTree.HoldsExactly

private theorem exists_name (h : t.HoldsExactly d names) {rest : Path} {e : Entry}
    (hbelow : (rest, e) ∈ t.below d) : ∃ name ∈ names, rest = [name ++ ".csv"] := by
  obtain ⟨hrest, hthere⟩ := mem_below.mp hbelow
  by_contra hother
  have hnone := h.others rest hrest fun name hname heq => hother ⟨name, hname, heq⟩
  rw [hnone] at hthere
  exact absurd hthere (by simp)

private theorem isFile (h : t.HoldsExactly d names) {x : Path × Entry} (hx : x ∈ t.below d) :
    ∃ content, x.2 = .file content := by
  obtain ⟨rest, e⟩ := x
  obtain ⟨name, hname, rfl⟩ := h.exists_name hx
  obtain ⟨content, hcontent⟩ := h.files name hname
  exact ⟨content, Option.some.inj ((mem_below.mp hx).2.symm.trans hcontent)⟩

private theorem perm_below (h : t.HoldsExactly d names) (hnames : names.Nodup) :
    ((t.below d).map Prod.fst).Perm (names.map fun name => [name ++ ".csv"]) := by
  have hfiles : (names.map fun name => [name ++ ".csv"]).Nodup :=
    List.Pairwise.map _ (fun a b hne heq => hne (by simpa using heq)) hnames
  rw [List.perm_ext_iff_of_nodup (t.nodup_below d) hfiles]
  intro rest
  rw [List.mem_map, List.mem_map]
  constructor
  · rintro ⟨⟨rest, e⟩, hbelow, rfl⟩
    obtain ⟨name, hname, rfl⟩ := h.exists_name hbelow
    exact ⟨name, hname, rfl⟩
  · rintro ⟨name, hname, rfl⟩
    obtain ⟨content, hcontent⟩ := h.files name hname
    exact ⟨(_, .file content), mem_below.mpr ⟨List.cons_ne_nil _ [], hcontent⟩, rfl⟩

end FileTree.HoldsExactly

theorem FileTree.ShowsPath.lookup? {name dir : String} {l : LoweredPath}
    (h : t.ShowsPath out name l) (hdir : dir ∈ renewedDirs) (hslash : '/' ∉ name.toList) :
    ∃ content, t.lookup? (out.destination ++ [dir] ++ [name ++ ".csv"]) = some (.file content) := by
  rw [← destination_pathFile hdir hslash]
  rw [renewedDirs, List.mem_pair] at hdir
  rcases hdir with rfl | rfl
  · exact ⟨_, lookup?_of_content? h.rows⟩
  · exact ⟨_, lookup?_of_content? h.bytecode⟩

namespace Job

private theorem map_path_summaryRows (bindings : Bindings) (rank : Nat) (ps : List LeakPath) :
    (summaryRows bindings rank ps).map SummaryRow.path = Ranking.names rank ps := by
  induction ps generalizing rank with
  | nil => rfl
  | cons p ps ih =>
    rw [summaryRows, List.map_cons, Ranking.names_cons, ih]
    rfl

private theorem map_length_summaryRows (bindings : Bindings) (rank : Nat) (ps : List LeakPath) :
    (summaryRows bindings rank ps).map SummaryRow.length = ps.map LeakPath.length := by
  induction ps generalizing rank with
  | nil => rfl
  | cons p ps ih =>
    rw [summaryRows, List.map_cons, List.map_cons, ih]
    rfl

/-- A directory that was bare when it was made has the files of the paths in the end, since drawings
and the summary stand elsewhere. -/
theorem holdsExactly_extract (ht : w.files.IsTree) (hout : Direct w.files out)
    (h : Succeeds (extract config log out) w report after) {dir : String}
    (hdir : dir ∈ renewedDirs) :
    after.files.find? (out.join dir) = some (out.destination ++ [dir]) ∧
      after.files.HoldsExactly (out.destination ++ [dir])
        (Ranking.names 1 (config.paths log.reconstruct)) := by
  obtain ⟨created, steps, drawn, pathsWritten, hstages⟩ := succeeds_extract h
  obtain ⟨hreadable, hmade, hbare⟩ := bare_create ht hout hstages.create hdir
  obtain ⟨-, hwritten, hshown⟩ := succeeds_writePaths hstages.write
  obtain ⟨hlast, -, hstem, hroot⟩ := changesOnly_writeSummary hstages.summarize
  rw [hstages.ranked] at hwritten
  have hthere : after.files.lookup? (out.destination ++ [dir]) = some .directory :=
    hlast.directories _ (hwritten.directories _ (hstages.draw.directories _ hmade))
  have hbelow : ∀ rest, rest ≠ [] →
      after.files.lookup? (out.destination ++ [dir] ++ rest) =
        pathsWritten.files.lookup? (out.destination ++ [dir] ++ rest) := by
    intro rest hrest
    refine hlast.elsewhere _ fun heq => hrest ?_
    obtain ⟨-, hnil⟩ : dir = summaryFile ∧ rest = [] := by simpa using heq
    exact hnil
  refine ⟨?_, ⟨fun name hname => ?_, fun rest hrest hother => ?_⟩⟩
  · rw [← step_of_renewed hdir]
    exact find?_join (slash_not_mem_of_renewed hdir) hreadable hstem hroot
      (by rw [step_of_renewed hdir, hthere]; rfl)
  · rw [← hstages.ranked, ← @map_fst_written config log.bindings] at hname
    obtain ⟨f, hf, rfl⟩ := List.mem_map.mp hname
    rw [hbelow _ (List.cons_ne_nil _ [])]
    exact (hshown f hf).lookup? hdir (slash_not_mem_written hf)
  · have hpath : ¬PathFile out (Ranking.names 1 (config.paths log.reconstruct))
        (out.destination ++ [dir] ++ rest) := by
      rintro ⟨dir', -, name, hname, heq⟩
      obtain ⟨-, hfile⟩ : dir = dir' ∧ rest = [name ++ ".csv"] := by simpa using heq
      exact hother name hname hfile
    have hgraph : ¬(out.destination ++ [dir] ++ rest ∈ Route.trail out.origin out.names ∨
        out.destination ++ [graphsDir] <+: out.destination ++ [dir] ++ rest) := by
      rintro (hmem | hunder)
      · exact hout.outside dir hdir _ hmem (List.prefix_append _ _)
      · have hgraphs : graphsDir = dir := by
          simpa [List.append_assoc, List.prefix_append_right_inj, List.cons_prefix_cons] using hunder
        exact absurd (hgraphs ▸ hdir) (by decide)
    rw [hbelow rest hrest, hwritten.elsewhere _ hpath,
      hstages.draw.elsewhere _ hgraph]
    exact hbare rest hrest

end Job

/-- Wherever the route to the output directory does not go astray, each of the two directories for
paths has one file for each ranked path in the end, whatever was there before, and nothing else. The
files have the same names in both, which are distinct. The summary has one row for each ranked path in
the order of ranks, with that name and the number of the path's statements. -/
theorem ranked_paths_written (config : Config) (log : TaintLog) (out : Route) {w after : Workspace}
    {report : Report} (ht : w.files.IsTree) (hout : Direct w.files out)
    (h : Succeeds (Job.extract config log out) w report after) :
    let ps := config.paths log.reconstruct
    let names := Ranking.names 1 ps
    names.Nodup ∧
      (∀ dir ∈ [pathsDir, bytecodeDir], ∃ d, after.files.find? (out.join dir) = some d ∧
        ((after.files.below d).map Prod.fst).Perm (names.map fun name => [name ++ ".csv"]) ∧
        ∀ x ∈ after.files.below d, ∃ content, x.2 = .file content) ∧
      ∃ rows : List SummaryRow,
        after.files.content? (out.join summaryFile) =
          some (Text.Utf8.encode (Csv.render (SummaryRow.header :: rows.map SummaryRow.fields))) ∧
        rows.map SummaryRow.path = names ∧
        rows.map SummaryRow.length = ps.map LeakPath.length := by
  intro ps names
  have hnodup : names.Nodup := Ranking.nodup_names 1 ps
  refine ⟨hnodup, fun dir hdir => ?_, ?_⟩
  · obtain ⟨hfind, hholds⟩ := Job.holdsExactly_extract ht hout h hdir
    exact ⟨_, hfind, hholds.perm_below hnodup, fun x hx => hholds.isFile hx⟩
  · obtain ⟨created, steps, drawn, pathsWritten, hstages⟩ := Job.succeeds_extract h
    obtain ⟨-, hcontent, -⟩ := changesOnly_writeSummary hstages.summarize
    exact ⟨_, hcontent, Job.map_path_summaryRows _ _ _, Job.map_length_summaryRows _ _ _⟩

/-- An output directory that holds a path of an earlier run. -/
def staleOutput : FileTree where
  entries := .ofList [(["w"], Entry.directory), (["w", "out"], .directory),
    (["w", "out", "paths"], .directory), (["w", "out", "paths", "path_9_9_9_9.csv"], .file [])]

def staleWorkspace : Workspace := ⟨staleOutput, .ofDirs { start := ["w"], text := "app" } none⟩

def routeFromW (text : String) : Route := { start := ["w"], text := text }

theorem directLeak_succeeds :
    ∃ report after, Succeeds (Job.extract {} (TaintLog.ofLines directLeak) (routeFromW "out"))
      staleWorkspace report after := by
  have hok : (Id.run ((Job.extract {} (TaintLog.ofLines directLeak) (routeFromW "out")).run.run
      staleWorkspace)).1.isOk = true := by
    rw [Job.extract]
    simp only [paths_directLeak]
    decide +kernel
  obtain ⟨report, after, hrun, -⟩ := exists_succeeds hok
  exact ⟨report, after, hrun⟩

theorem directLeak_written :
    ∃ report after, Succeeds (Job.extract {} (TaintLog.ofLines directLeak) (routeFromW "out"))
        staleWorkspace report after ∧
      (staleOutput.below ["w", "out", "paths"]).map Prod.fst = [["path_9_9_9_9.csv"]] ∧
      (after.files.below ["w", "out", "paths"]).map Prod.fst = [["path_1_5_3_4.csv"]] ∧
      (after.files.below ["w", "out", "paths_bytecode"]).map Prod.fst = [["path_1_5_3_4.csv"]] := by
  obtain ⟨report, after, hrun⟩ := directLeak_succeeds
  have htree : staleOutput.IsTree := by decide +kernel
  have hdirect : Direct staleOutput (routeFromW "out") := direct_of_no_dots htree (by decide +kernel)
  obtain ⟨-, hdirs, -⟩ := ranked_paths_written {} (TaintLog.ofLines directLeak) (routeFromW "out")
    htree hdirect hrun
  have hnames : (Ranking.names 1 [directPath]).map (fun name => [name ++ ".csv"]) =
      [["path_1_5_3_4.csv"]] := by decide +kernel
  have hbelow : ∀ dir ∈ [pathsDir, bytecodeDir],
      (after.files.below ["w", "out", dir]).map Prod.fst = [["path_1_5_3_4.csv"]] := by
    intro dir hdir
    obtain ⟨d, hfind, hperm, -⟩ := hdirs dir hdir
    have hd : d = ["w", "out", dir] := by
      rw [find?_eq_destination hfind, destination_renewed hdir]
      rfl
    rw [paths_directLeak, hnames, hd] at hperm
    exact List.perm_singleton.mp hperm
  exact ⟨report, after, hrun, by decide +kernel, hbelow pathsDir (by simp),
    hbelow bytecodeDir (by simp)⟩

/-- The route passes a directory that is missing, so it does not lead to the old paths before that
directory is made. Then it does, and they are still there. -/
theorem stale_path_kept :
    ¬∀ (config : Config) (log : TaintLog) (out : Route) (w after : Workspace) (report : Report),
      w.files.IsTree → Succeeds (Job.extract config log out) w report after →
      ∀ dir ∈ [pathsDir, bytecodeDir], ∃ d, after.files.find? (out.join dir) = some d ∧
        ((after.files.below d).map Prod.fst).Perm
          ((Ranking.names 1 (config.paths log.reconstruct)).map fun name => [name ++ ".csv"]) := by
  intro h
  have hok : (Id.run ((Job.extract {} (TaintLog.ofLines []) (routeFromW "out/new/..")).run.run
      staleWorkspace)).1.isOk = true := by decide +kernel
  obtain ⟨report, after, hrun, hafter⟩ := exists_succeeds hok
  obtain ⟨d, hfind, hperm⟩ := h _ _ _ _ _ report (by decide +kernel) hrun pathsDir (by simp)
  have hd : d = ["w", "out", "paths"] := (find?_eq_destination hfind).trans (by decide +kernel)
  have hkept : (after.files.below ["w", "out", "paths"]).map Prod.fst = [["path_9_9_9_9.csv"]] := by
    rw [hafter]
    decide +kernel
  have hnone : Ranking.names 1 (Config.paths {} (TaintLog.ofLines []).reconstruct) = [] := by
    decide +kernel
  rw [hd, hkept, hnone] at hperm
  exact absurd hperm.length_eq (by simp)

end LeakTrace
