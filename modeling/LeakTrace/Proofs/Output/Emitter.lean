import LeakTrace.Output.Emitter
import LeakTrace.Proofs.Files.Effects

namespace LeakTrace

namespace Emitter

open FileTree FileAction

variable {t t' t'' : FileTree} {root dir : Route} {name : String} {u : Unit}

/-- What a directory and its surroundings are after it was removed, if it was there, and made. -/
structure Renewed (dir : Route) (t t' : FileTree) : Prop where
  readable : dir.isReadable = true
  made : t'.lookup? dir.destination = some .directory
  elsewhere : ∀ q, ¬dir.destination <+: q → q ∉ Route.trail dir.origin dir.names →
    t'.lookup? q = t.lookup? q
  directories : ∀ q, ¬dir.destination <+: q → t.lookup? q = some .directory →
    t'.lookup? q = some .directory
  bare : (t.find? dir = none → t.IsBare dir.destination) →
    (∀ rest, rest ≠ [] → dir.destination ++ rest ∉ Route.trail dir.origin dir.names) →
    t'.IsBare dir.destination

/-- The directory is removed if the route leads to it, and then the route's directories are made. -/
theorem succeeds_renew (h : Succeeds (renew dir) t u t') :
    ∃ t₁ q, Succeeds (makeDirectory dir) t₁ q t' ∧
      (t.find? dir = none ∧ t₁ = t ∨ t.find? dir = some dir.destination ∧
        t₁ = ⟨t.entries.filter fun q _ => !dir.destination.isPrefixOf q⟩) := by
  rw [renew, succeeds_get_bind] at h
  cases hfind : t.find? dir with
  | none =>
    simp only [hfind] at h
    obtain ⟨q, t₁, hmake, h⟩ := succeeds_bind.mp h
    obtain ⟨-, rfl⟩ := succeeds_pure.mp h
    exact ⟨t, q, hmake, .inl ⟨rfl, rfl⟩⟩
  | some p =>
    obtain rfl := find?_eq_destination hfind
    simp only [hfind] at h
    obtain ⟨v, t₁, hremove, h⟩ := succeeds_bind.mp h
    obtain ⟨q, t₂, hmake, h⟩ := succeeds_bind.mp h
    obtain ⟨-, rfl⟩ := succeeds_pure.mp h
    obtain ⟨-, rfl⟩ := succeeds_removeDirectory hremove
    exact ⟨_, q, hmake, .inr ⟨rfl, rfl⟩⟩

private theorem renewed (hdir : dir.destination ≠ []) (h : Succeeds (renew dir) t u t') :
    Renewed dir t t' := by
  obtain ⟨t₁, q, hmake, hremoved⟩ := succeeds_renew h
  obtain ⟨hreadable, hchanges, hdirectories⟩ := succeeds_makeDirectory hmake
  have hout : ∀ q, ¬dir.destination <+: q → t₁.lookup? q = t.lookup? q := by
    intro q hq
    rcases hremoved with ⟨-, rfl⟩ | ⟨-, rfl⟩
    · rfl
    · rw [lookup?_filter hdir, if_neg hq]
  refine ⟨hreadable, hdirectories _ dir.destination_mem_tail_trail, ?_, ?_, ?_⟩
  · intro q hq htrail
    rw [hchanges.elsewhere q htrail, hout q hq]
  · intro q hq hdirectory
    exact hchanges.directories q ((hout q hq).trans hdirectory)
  · intro hnone htrail rest hrest
    rw [hchanges.elsewhere _ (htrail rest hrest)]
    rcases hremoved with ⟨hfind, rfl⟩ | ⟨-, rfl⟩
    · exact hnone hfind rest hrest
    · rw [lookup?_filter hdir, if_pos (List.prefix_append _ _)]

private theorem of_file_renew (hdir : dir.destination ≠ []) (h : Succeeds (renew dir) t u t')
    {q : Path}
    {content : List UInt8} (hfile : t'.lookup? q = some (.file content)) :
    t.lookup? q = some (.file content) := by
  obtain ⟨t₁, p, hmake, hremoved⟩ := succeeds_renew h
  have hbefore : t₁.lookup? q = some (.file content) :=
    ((addsOnly_makeDirectory hmake).of_file hfile).resolve_left not_false
  rcases hremoved with ⟨-, rfl⟩ | ⟨-, rfl⟩
  · exact hbefore
  · rw [lookup?_filter hdir] at hbefore
    split at hbefore
    · exact absurd hbefore (by simp)
    · exact hbefore

/-- The names of the directories that are emptied. -/
def renewedDirs : List String := [pathsDir, bytecodeDir]

@[simp] theorem pathsDir_mem : pathsDir ∈ renewedDirs := List.mem_cons_self

@[simp] theorem bytecodeDir_mem : bytecodeDir ∈ renewedDirs :=
  List.mem_cons_of_mem _ (List.mem_singleton_self bytecodeDir)

theorem slash_not_mem_of_renewed (h : name ∈ renewedDirs) : '/' ∉ name.toList := by
  rw [renewedDirs, List.mem_pair] at h
  rcases h with rfl | rfl <;> decide

theorem step_of_renewed (h : name ∈ renewedDirs) (p : Path) : p.step name = p ++ [name] := by
  refine Path.step_of_isName ?_ p
  rw [renewedDirs, List.mem_pair] at h
  rcases h with rfl | rfl <;> decide

theorem destination_renewed (h : name ∈ renewedDirs) :
    (root.join name).destination = root.destination ++ [name] := by
  rw [Route.destination_join (slash_not_mem_of_renewed h), step_of_renewed h]

/-- The route does not go astray: it passes nothing that is emptied, and if the output directory stands
there, so do all directories that it passes. -/
structure Direct (t : FileTree) (root : Route) : Prop where
  outside : ∀ name ∈ renewedDirs, ∀ q ∈ Route.trail root.origin root.names,
    ¬root.destination ++ [name] <+: q
  reached : t.lookup? root.destination = some .directory →
    ∀ q ∈ Route.trail root.origin root.names, t.lookup? q = some .directory

/-- A route without two dots does not go astray in a tree. -/
theorem direct_of_no_dots (ht : t.IsTree) (hroot : ".." ∉ root.names) : Direct t root := by
  constructor
  · intro name _ q hq hunder
    have habove : q <+: root.destination := Route.isPrefix_of_mem_trail hroot hq
    have hlength := (hunder.trans habove).length_le
    rw [List.length_append, List.length_singleton] at hlength
    omega
  · intro hdirectory q hq
    obtain ⟨rest, hrest⟩ := Route.isPrefix_of_mem_trail hroot hq
    cases rest with
    | nil =>
      rw [List.append_nil] at hrest
      rw [hrest]
      exact hdirectory
    | cons x rest =>
      refine ht.directory_above (List.cons_ne_nil x rest) ?_
      rw [hrest]
      exact fun hnone => absurd (hdirectory.symm.trans hnone) (by simp)

private theorem find?_renewed (hname : name ∈ renewedDirs)
    (hreadable : (root.join name).isReadable = true)
    (htrail : ∀ q ∈ Route.trail root.origin root.names, t.lookup? q = some .directory)
    (hthere : t.lookup? (root.destination ++ [name]) = some .directory) :
    t.find? (root.join name) = some (root.destination ++ [name]) := by
  have hstem : t.follow? root.origin root.stem = some root.destination := by
    rw [← root.foldl_stem]
    exact follow?_of_directories fun q hq => htrail q (root.mem_trail_stem.mp hq)
  rw [← step_of_renewed hname] at hthere ⊢
  exact find?_join (slash_not_mem_of_renewed hname) hreadable hstem
    (htrail _ root.destination_mem_trail) (by rw [hthere]; rfl)

private theorem Direct.not_mem_trail (h : Direct t root) {other : String}
    (hname : name ∈ renewedDirs)
    (hother : other ∈ renewedDirs) {rest : Path} (hne : rest ≠ [] ∨ name ≠ other) :
    root.destination ++ [name] ++ rest ∉
      Route.trail (root.join other).origin (root.join other).names := by
  rw [Route.mem_trail_join (slash_not_mem_of_renewed hother), step_of_renewed hother, not_or]
  refine ⟨fun hmem => h.outside name hname _ hmem (List.prefix_append _ _), fun heq => ?_⟩
  obtain ⟨hsame, hnil⟩ : name = other ∧ rest = [] := by simpa using heq
  exact hne.elim (fun hrest => hrest hnil) fun hne => hne hsame

private theorem Direct.lookup?_other (h : Direct t root) {other : String}
    (hname : name ∈ renewedDirs)
    (hother : other ∈ renewedDirs) (hne : name ≠ other) (hrenewed : Renewed (root.join other) t' t'')
    (rest : Path) :
    t''.lookup? (root.destination ++ [name] ++ rest) =
      t'.lookup? (root.destination ++ [name] ++ rest) := by
  refine hrenewed.elsewhere _ ?_ (h.not_mem_trail hname hother (.inr hne))
  rw [destination_renewed hother, List.append_assoc, List.prefix_append_right_inj]
  simp [List.cons_prefix_cons, Ne.symm hne]

/-- A directory is bare when it was renewed, although it was not removed if the route does not lead to
it: then nothing stands below it. Up to then the other directory may have been renewed. -/
theorem Direct.bare (h : Direct t root) (ht : t.IsTree) (hname : name ∈ renewedDirs)
    (hentries : ∀ rest, t'.lookup? (root.destination ++ [name] ++ rest) =
      t.lookup? (root.destination ++ [name] ++ rest))
    (htrail : ∀ q ∈ Route.trail root.origin root.names, t.lookup? q = some .directory →
      t'.lookup? q = some .directory)
    (hrenewed : Renewed (root.join name) t' t'') : t''.IsBare (root.destination ++ [name]) := by
  rw [← destination_renewed hname]
  refine hrenewed.bare (fun hfind => ?_) (fun rest hrest => ?_)
  · rw [destination_renewed hname]
    intro rest hrest
    rw [hentries rest]
    refine ht.isBare (fun hdirectory => ?_) rest hrest
    have hroot : t.lookup? root.destination = some .directory :=
      ht.directory_above (List.cons_ne_nil name []) (by rw [hdirectory]; simp)
    have hpassed : ∀ q ∈ Route.trail root.origin root.names, t'.lookup? q = some .directory :=
      fun q hq => htrail q hq (h.reached hroot q hq)
    have hthere : t'.lookup? (root.destination ++ [name]) = some .directory := by
      have hsame := hentries []
      rw [List.append_nil] at hsame
      rw [hsame]
      exact hdirectory
    rw [find?_renewed hname hrenewed.readable hpassed hthere] at hfind
    exact absurd hfind (by simp)
  · rw [destination_renewed hname]
    exact h.not_mem_trail hname hname (.inl hrest)

theorem bare_create (ht : t.IsTree) (hdirect : Direct t root) (h : Succeeds (create root) t u t')
    (hname : name ∈ renewedDirs) :
    (root.join name).isReadable = true ∧
      t'.lookup? (root.destination ++ [name]) = some .directory ∧
      t'.IsBare (root.destination ++ [name]) := by
  rw [create, succeeds_bind] at h
  obtain ⟨v, t₁, hpaths, hbytecode⟩ := h
  have hne : pathsDir ≠ bytecodeDir := by decide
  have hd : (root.join pathsDir).destination = root.destination ++ [pathsDir] :=
    destination_renewed pathsDir_mem
  have hd' : (root.join bytecodeDir).destination = root.destination ++ [bytecodeDir] :=
    destination_renewed bytecodeDir_mem
  have hfirst : Renewed (root.join pathsDir) t t₁ := renewed (by simp [hd]) hpaths
  have hsecond : Renewed (root.join bytecodeDir) t₁ t' := renewed (by simp [hd']) hbytecode
  have hkept := hdirect.lookup?_other pathsDir_mem bytecodeDir_mem hne hsecond
  have hbefore := hdirect.lookup?_other bytecodeDir_mem pathsDir_mem hne.symm hfirst
  have hbare : t₁.IsBare (root.destination ++ [pathsDir]) :=
    hdirect.bare ht pathsDir_mem (fun _ => rfl) (fun _ _ hdirectory => hdirectory) hfirst
  have hbare' : t'.IsBare (root.destination ++ [bytecodeDir]) := by
    refine hdirect.bare ht bytecodeDir_mem hbefore (fun q hq hdirectory => ?_) hsecond
    exact hfirst.directories q (hd ▸ hdirect.outside pathsDir pathsDir_mem q hq) hdirectory
  rw [renewedDirs, List.mem_pair] at hname
  rcases hname with rfl | rfl
  · have hmade := hkept []
    rw [List.append_nil] at hmade
    refine ⟨hfirst.readable, hmade.trans (hd ▸ hfirst.made), fun rest hrest => ?_⟩
    rw [hkept rest]
    exact hbare rest hrest
  · exact ⟨hsecond.readable, hd' ▸ hsecond.made, hbare'⟩

theorem of_file_create (h : Succeeds (create root) t u t') {q : Path} {content : List UInt8}
    (hfile : t'.lookup? q = some (.file content)) : t.lookup? q = some (.file content) := by
  rw [create, succeeds_bind] at h
  obtain ⟨v, t₁, hpaths, hbytecode⟩ := h
  have hne : ∀ name ∈ renewedDirs, (root.join name).destination ≠ [] := by
    intro name hname
    rw [destination_renewed hname]
    simp
  exact of_file_renew (hne pathsDir pathsDir_mem) hpaths
    (of_file_renew (hne bytecodeDir bytecodeDir_mem) hbytecode hfile)

/-- The file of a path in one of the directories. -/
def pathFile (root : Route) (dir name : String) : Route := (root.join dir).join (name ++ ".csv")

private theorem step_append {ending : String} (hending : 2 < ending.length) (p : Path)
    (name : String) :
    p.step (name ++ ending) = p ++ [name ++ ending] := by
  have hne : ∀ short : String, short.length ≤ 2 → name ++ ending ≠ short := by
    intro short hshort heq
    have hlength := congrArg String.length heq
    rw [String.length_append] at hlength
    omega
  rw [Path.step, if_neg (not_or.mpr ⟨hne "" (by decide), hne "." (by decide)⟩),
    if_neg (hne ".." (by decide))]

private theorem slash_not_mem_append {ending : String} (hname : '/' ∉ name.toList)
    (hending : '/' ∉ ending.toList) : '/' ∉ (name ++ ending).toList := by
  rw [String.toList_append, List.mem_append]
  exact not_or.mpr ⟨hname, hending⟩

theorem destination_pathFile {dir : String} (hdir : dir ∈ renewedDirs) (hname : '/' ∉ name.toList) :
    (pathFile root dir name).destination = root.destination ++ [dir] ++ [name ++ ".csv"] := by
  rw [pathFile, Route.destination_join (slash_not_mem_append hname (by decide)),
    step_append (by decide), destination_renewed hdir]

/-- Where the two files of the named paths stand. -/
def PathFile (root : Route) (names : List String) (q : Path) : Prop :=
  ∃ dir ∈ renewedDirs, ∃ name ∈ names, q = root.destination ++ [dir] ++ [name ++ ".csv"]

theorem changesOnly_writePath {rows : List PathRow} {bytecode : List BytecodeRow}
    (hname : '/' ∉ name.toList) (h : Succeeds (writePath root name rows bytecode) t u t') :
    ChangesOnly (PathFile root [name]) t t' ∧
      t'.content? (pathFile root pathsDir name) =
        some (Text.Utf8.encode (Csv.render (PathRow.header :: rows.map PathRow.fields))) ∧
      t'.content? (pathFile root bytecodeDir name) =
        some (Text.Utf8.encode (Csv.render (BytecodeRow.header :: bytecode.map BytecodeRow.fields))) := by
  rw [writePath, succeeds_bind] at h
  obtain ⟨v, t₁, hpaths, hbytecode⟩ := h
  obtain ⟨hfirst, hcontent⟩ := changesOnly_write hpaths
  obtain ⟨hsecond, hcontent'⟩ := changesOnly_write hbytecode
  change ChangesOnly (· = (pathFile root pathsDir name).destination) t t₁ at hfirst
  change ChangesOnly (· = (pathFile root bytecodeDir name).destination) t₁ t' at hsecond
  rw [destination_pathFile pathsDir_mem hname] at hfirst
  rw [destination_pathFile bytecodeDir_mem hname] at hsecond
  refine ⟨(hfirst.mono ?_).trans (hsecond.mono ?_), hsecond.content? ?_ hcontent, hcontent'⟩
  · rintro q rfl
    exact ⟨pathsDir, pathsDir_mem, name, List.mem_singleton_self name, rfl⟩
  · rintro q rfl
    exact ⟨bytecodeDir, bytecodeDir_mem, name, List.mem_singleton_self name, rfl⟩
  · intro heq
    change (pathFile root pathsDir name).destination = _ at heq
    rw [destination_pathFile pathsDir_mem hname] at heq
    have hsame : pathsDir = bytecodeDir := by simpa using heq
    exact absurd hsame (by decide)

theorem changesOnly_writeGraph {dot : String} (hname : '/' ∉ name.toList)
    (h : Succeeds (writeGraph root name dot) t u t') :
    ChangesOnly (fun q => q ∈ Route.trail root.origin root.names ∨
      root.destination ++ [graphsDir] <+: q) t t' := by
  rw [writeGraph, succeeds_bind] at h
  obtain ⟨p, t₁, hmake, hwrite⟩ := h
  have hslash : '/' ∉ graphsDir.toList := by decide
  have hstep : root.destination.step graphsDir = root.destination ++ [graphsDir] :=
    Path.step_of_isName (by decide) _
  obtain ⟨-, hmade, -⟩ := succeeds_makeDirectory hmake
  obtain ⟨hwritten, -⟩ := changesOnly_write hwrite
  refine (hmade.mono fun q hq => ?_).trans (hwritten.mono fun q hq => .inr ?_)
  · rcases (Route.mem_trail_join hslash).mp hq with hq | rfl
    · exact .inl hq
    · rw [hstep]
      exact .inr List.prefix_rfl
  · rw [hq, Route.destination_join (slash_not_mem_append hname (by decide)),
      step_append (by decide), Route.destination_join hslash, hstep]
    exact List.prefix_append _ _

/-- The file of a drawing. -/
def dotFile (root : Route) (name : String) : Route := (root.join graphsDir).join (name ++ ".dot")

theorem destination_dotFile (hname : '/' ∉ name.toList) :
    (dotFile root name).destination = root.destination ++ [graphsDir] ++ [name ++ ".dot"] := by
  have hstep : root.destination.step graphsDir = root.destination ++ [graphsDir] :=
    Path.step_of_isName (by decide) _
  rw [dotFile, Route.destination_join (slash_not_mem_append hname (by decide)),
    step_append (by decide), Route.destination_join (by decide), hstep]

/-- Where the drawings of the names stand. -/
def DotFile (root : Route) (names : List String) (q : Path) : Prop :=
  ∃ name ∈ names, q = root.destination ++ [graphsDir] ++ [name ++ ".dot"]

theorem addsOnly_writeGraph {dot : String} (hname : '/' ∉ name.toList)
    (h : Succeeds (writeGraph root name dot) t u t') :
    AddsOnly (DotFile root [name]) t t' ∧
      t'.content? (dotFile root name) = some (Text.Utf8.encode dot) := by
  rw [writeGraph, succeeds_bind] at h
  obtain ⟨p, t₁, hmake, hwrite⟩ := h
  obtain ⟨hwritten, hcontent⟩ := changesOnly_write hwrite
  change ChangesOnly (· = (dotFile root name).destination) t₁ t' at hwritten
  rw [destination_dotFile hname] at hwritten
  refine ⟨((addsOnly_makeDirectory hmake).mono fun q => False.elim).trans
    (hwritten.mono ?_).addsOnly, hcontent⟩
  rintro q rfl
  exact ⟨name, List.mem_singleton_self name, rfl⟩

theorem changesOnly_writeSummary {rows : List SummaryRow} (h : Succeeds (writeSummary root rows) t u t') :
    ChangesOnly (· = root.destination ++ [summaryFile]) t t' ∧
      t'.content? (root.join summaryFile) =
        some (Text.Utf8.encode (Csv.render (SummaryRow.header :: rows.map SummaryRow.fields))) ∧
      t'.follow? root.origin root.stem = some root.destination ∧
      t'.lookup? root.destination = some .directory := by
  have hslash : '/' ∉ summaryFile.toList := by decide
  have hstep : root.destination.step summaryFile = root.destination ++ [summaryFile] :=
    Path.step_of_isName (by decide) _
  obtain ⟨hchanges, hcontent⟩ := changesOnly_write h
  rw [Route.destination_join hslash, hstep] at hchanges
  obtain ⟨-, dir, -, -, hdir, hdirectory, -⟩ := succeeds_write h
  rw [Route.origin_join hslash, Route.names_join hslash, List.dropLast_concat] at hdir
  obtain rfl : dir = root.destination := (follow?_eq_foldl hdir).trans root.foldl_stem
  exact ⟨hchanges, hcontent, hchanges.follow? (by simp) hdir, hchanges.directories _ hdirectory⟩

end Emitter

end LeakTrace
