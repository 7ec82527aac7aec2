import LeakTrace.Proofs.Bytecode.ResultCalls

namespace LeakTrace.Resolver

open Text

variable {files : FileTree} {listing : FileTree.Listing} {r : Resolver} {dir : Route}
  {key k name : String} {names : List String} {entry : Option ClassTable} {t u : ClassTable}

/-- A call of a resolver. -/
inductive Call
  | table (key : String)
  | resolve (statement : String)
  | preload (listing : FileTree.Listing) (dir : Route)

/-- What a call answers. -/
inductive Answer
  | table (entry : Option ClassTable)
  | instruction (i : Option Instruction)
  | loaded (count : Nat)

/-- Makes a call, with the files as they are then. -/
def call (files : FileTree) (r : Resolver) : Call → Except Failure Answer × Resolver
  | .table key => ((r.table files key).1.map .table, (r.table files key).2)
  | .resolve statement =>
    ((r.resolve files statement).1.map .instruction, (r.resolve files statement).2)
  | .preload listing dir =>
    ((r.preloadBy listing files dir).1.map .loaded, (r.preloadBy listing files dir).2)

/-- Makes calls one after the other, each with files of its own. -/
def after (r : Resolver) (calls : List (FileTree × Call)) : Resolver :=
  calls.foldl (fun r c => (r.call c.1 c.2).2) r

/-- Whatever the files are, the class is answered with the entry: lookups and statements find it, a
preload passes over the class, and nothing changes. -/
structure Answers (r : Resolver) (key : String) (entry : Option ClassTable) : Prop where
  table_eq : ∀ files, r.table files key = (.ok entry, r)
  resolve_eq : ∀ files statement ref, StatementRef.read? statement = some ref → ref.key = key →
    r.resolve files statement = (.ok (entry.bind fun t => t.instruction? ref), r)
  preload_eq : ∀ files dir count name names, tableKey? name = some key →
    preloadNames files dir count r (name :: names) = preloadNames files dir count r names

private theorem preloadNames_nil (count : Nat) :
    preloadNames files dir count r [] = (.ok count, r) := rfl

private theorem preloadNames_cons (count : Nat) : preloadNames files dir count r (name :: names) =
    match tableKey? name with
    | none => preloadNames files dir count r names
    | some key =>
      if r.cached.contains key then preloadNames files dir count r names
      else
        match readTable files (dir.join name) with
        | .error failure => (.error failure, r)
        | .ok t =>
          preloadNames files dir (count + 1) { r with cached := r.cached.insert key (some t) } names :=
  (rfl)

private theorem answers_iff : r.Answers key entry ↔ r.cached[key]? = some entry := by
  constructor
  · intro h
    have htable := h.table_eq ⟨∅⟩
    rw [table] at htable
    split at htable
    · next hcached =>
      obtain ⟨hentry, -⟩ := Prod.mk.inj htable
      rw [hcached, Except.ok.inj hentry]
    · next hcached =>
      -- what was loaded now would stand in the store afterwards
      split at htable
      · obtain ⟨-, hr⟩ := Prod.mk.inj htable
        have hinsert := congrArg (fun r : Resolver => r.cached[key]?) hr
        simp [hcached] at hinsert
      · exact absurd (Prod.mk.inj htable).1 (by simp)
  · intro h
    have htable (files : FileTree) : r.table files key = (.ok entry, r) := by rw [table, h]
    refine ⟨htable, fun files statement ref href hkey => ?_, fun files dir count name names hname => ?_⟩
    · subst hkey
      rw [resolve, href]
      dsimp only
      rw [htable]
      rfl
    · have hknown : r.cached.contains key = true := by
        rw [Std.TreeMap.contains_eq_isSome_getElem?, h, Option.isSome_some]
      rw [preloadNames_cons, hname]
      exact if_pos hknown

private theorem eq_append_of_tableKey? (h : tableKey? name = some key) : name = key ++ ".json" := by
  rw [tableKey?] at h
  split at h
  · next stem extension hcut =>
    split at h
    · next hjson =>
      rw [← String.toList_inj, eq_of_cutLast hcut, hjson.2, ← Option.some.inj h]
      simp
    · simp at h
  · simp at h

private theorem eq_of_tableKey? (h : tableKey? name = some key) {name' : String}
    (h' : tableKey? name' = some key) : name = name' :=
  (eq_append_of_tableKey? h).trans (eq_append_of_tableKey? h').symm

/-- The reading goes on behind a file: its class is known, or its table can be read. -/
def Passes (files : FileTree) (dir : Route) (r : Resolver) (name : String) : Prop :=
  ∀ k, tableKey? name = some k → k ∈ r.cached ∨ ∃ u, readTable files (dir.join name) = .ok u

private theorem passes_of_unnamed (hname : tableKey? name = none) : Passes files dir r name := by
  simp [Passes, hname]

private theorem passes_of_mem (hname : tableKey? name = some k) (hknown : k ∈ r.cached) :
    Passes files dir r name := by
  simp [Passes, hname, hknown]

private theorem passes_iff_of_not_mem (hname : tableKey? name = some k) (hknown : k ∉ r.cached) :
    Passes files dir r name ↔ ∃ u, readTable files (dir.join name) = .ok u := by
  simp [Passes, hname, hknown]

/-- Reading the named files gets the table of the class: the class is not known, and no file before its
own fails. -/
inductive Loads (files : FileTree) (dir : Route) (r : Resolver) (key : String) (t : ClassTable) :
    List String → Prop
  | here {name : String} {names : List String} (named : tableKey? name = some key)
      (unknown : key ∉ r.cached) (read : readTable files (dir.join name) = .ok t) :
      Loads files dir r key t (name :: names)
  | later {name : String} {names : List String} (other : tableKey? name ≠ some key)
      (passed : Passes files dir r name)
      (rest : Loads files dir r key t names) : Loads files dir r key t (name :: names)

private theorem not_loads_nil : ¬Loads files dir r key t [] := nofun

private theorem loads_cons : Loads files dir r key t (name :: names) ↔
    (tableKey? name = some key ∧ key ∉ r.cached ∧ readTable files (dir.join name) = .ok t) ∨
      (tableKey? name ≠ some key ∧ Passes files dir r name ∧ Loads files dir r key t names) := by
  constructor
  · rintro (⟨hnamed, hunknown, hread⟩ | ⟨hother, hpassed, hrest⟩)
    · exact .inl ⟨hnamed, hunknown, hread⟩
    · exact .inr ⟨hother, hpassed, hrest⟩
  · rintro (⟨hnamed, hunknown, hread⟩ | ⟨hother, hpassed, hrest⟩)
    · exact .here hnamed hunknown hread
    · exact .later hother hpassed hrest

theorem Loads.unknown (h : Loads files dir r key t names) : key ∉ r.cached := by
  induction h with
  | here _ unknown _ => exact unknown
  | later _ _ _ ih => exact ih

private theorem loads_cons_of_mem (hname : tableKey? name = some k) (hknown : k ∈ r.cached) :
    Loads files dir r key t (name :: names) ↔ Loads files dir r key t names := by
  rw [loads_cons, hname]
  constructor
  · rintro (⟨hkey, hunknown, -⟩ | ⟨-, -, hrest⟩)
    · exact absurd (Option.some.inj hkey ▸ hknown) hunknown
    · exact hrest
  · intro hrest
    exact .inr ⟨fun hkey => hrest.unknown (Option.some.inj hkey ▸ hknown),
      passes_of_mem hname hknown, hrest⟩

private theorem mem_remembered (r : Resolver) (k : String) (u : ClassTable) (k' : String) :
    k' ∈ ({ r with cached := r.cached.insert k (some u) } : Resolver).cached ↔
      k = k' ∨ k' ∈ r.cached := by
  simp [Std.TreeMap.mem_insert]

private theorem passes_remembered (hname : tableKey? name = some k)
    (hread : readTable files (dir.join name) = .ok u) {other : String} :
    Passes files dir { r with cached := r.cached.insert k (some u) } other ↔
      Passes files dir r other := by
  refine forall₂_congr fun k' hother => ?_
  rw [mem_remembered, or_assoc]
  refine or_iff_right_of_imp fun heq => .inr ⟨u, ?_⟩
  subst heq
  rwa [eq_of_tableKey? hother hname]

private theorem loads_remembered (hname : tableKey? name = some k)
    (hread : readTable files (dir.join name) = .ok u) :
    Loads files dir { r with cached := r.cached.insert k (some u) } key t names ↔
      k ≠ key ∧ Loads files dir r key t names := by
  induction names with
  | nil => simp [not_loads_nil]
  | cons other names ih =>
    rw [loads_cons, loads_cons, ih, mem_remembered, passes_remembered hname hread, not_or]
    by_cases hkey : k = key
    · simp [hkey]
    · simp [hkey]

/-- What a directory adds to the store are the tables that are read, also if a file fails later. -/
theorem cached_preloadNames (files : FileTree) (dir : Route) (count : Nat) (r : Resolver)
    (names : List String) :
    (preloadNames files dir count r names).2.cached[key]? = some entry ↔
      r.cached[key]? = some entry ∨ ∃ t, entry = some t ∧ Loads files dir r key t names := by
  induction names generalizing count r with
  | nil => simp [preloadNames_nil, not_loads_nil]
  | cons name names ih =>
    rw [preloadNames_cons]
    cases hname : tableKey? name with
    | none => simp [ih, loads_cons, hname, passes_of_unnamed hname]
    | some k =>
      dsimp only
      by_cases hknown : k ∈ r.cached
      · rw [if_pos (show r.cached.contains k = true from hknown), ih]
        simp only [loads_cons_of_mem hname hknown]
      · rw [if_neg (show ¬r.cached.contains k = true from hknown)]
        cases hread : readTable files (dir.join name) with
        | error failure => simp [loads_cons, passes_iff_of_not_mem hname hknown, hname, hread]
        | ok u =>
          dsimp only
          rw [ih, Std.TreeMap.getElem?_insert]
          simp only [loads_remembered hname hread, loads_cons, hname,
            passes_iff_of_not_mem hname hknown, hread]
          by_cases hkey : k = key
          · subst hkey
            simp [hknown, eq_comm]
          · simp [hkey]

private theorem exists_ok_preloadNames (count : Nat) :
    (∃ n, (preloadNames files dir count r names).1 = .ok n) ↔
      ∀ name ∈ names, Passes files dir r name := by
  induction names generalizing count r with
  | nil => simp [preloadNames_nil]
  | cons name names ih =>
    rw [preloadNames_cons, List.forall_mem_cons]
    cases hname : tableKey? name with
    | none => simp [ih, passes_of_unnamed hname]
    | some k =>
      dsimp only
      by_cases hknown : k ∈ r.cached
      · rw [if_pos (show r.cached.contains k = true from hknown), ih]
        simp [passes_of_mem hname hknown]
      · rw [if_neg (show ¬r.cached.contains k = true from hknown),
          passes_iff_of_not_mem hname hknown]
        cases hread : readTable files (dir.join name) with
        | error failure => simp
        | ok u =>
          dsimp only
          rw [ih]
          simp [passes_remembered hname hread]

private theorem loads_of_passes (h : ∀ name ∈ names, Passes files dir r name) :
    Loads files dir r key t names ↔ key ∉ r.cached ∧ ∃ name ∈ names,
      tableKey? name = some key ∧ readTable files (dir.join name) = .ok t := by
  induction names with
  | nil => simp [not_loads_nil]
  | cons name names ih =>
    obtain ⟨hpassed, hrest⟩ := List.forall_mem_cons.mp h
    rw [loads_cons, ih hrest, List.exists_mem_cons_iff]
    by_cases hname : tableKey? name = some key
    · -- another file of the class is the same file
      have hsame : (∃ other ∈ names, tableKey? other = some key ∧
          readTable files (dir.join other) = .ok t) → readTable files (dir.join name) = .ok t := by
        rintro ⟨other, -, hother, hread⟩
        rwa [eq_of_tableKey? hname hother]
      grind
    · grind

/-- Reading the directory gets the table of the class. -/
def Preloads (files : FileTree) (listing : FileTree.Listing) (r : Resolver) (dir : Route) (key : String)
    (t : ClassTable) : Prop :=
  ∃ p, files.find? dir = some p ∧ files.lookup? p = some .directory ∧
    Loads files dir r key t (listing.order (files.names p))

/-- A preload keeps all answers, and adds those that it reads a table for. -/
theorem answers_preload (files : FileTree) (listing : FileTree.Listing) (r : Resolver) (dir : Route) :
    (r.preloadBy listing files dir).2.Answers key entry ↔
      r.Answers key entry ∨ ∃ t, entry = some t ∧ Preloads files listing r dir key t := by
  rw [answers_iff, answers_iff, preloadBy]
  cases hfind : files.find? dir with
  | none => simp [Preloads, hfind]
  | some p =>
    dsimp only
    split
    · next hdirectory => simp [cached_preloadNames, Preloads, hfind, hdirectory]
    · next hdirectory => simp [Preloads, hfind, hdirectory]

/-- A directory that is read to the end is read to the end in every order, and adds the same answers.
Only a failure leaves behind what the order put before it. -/
theorem preloadBy_any_listing {n : Nat} (h : (r.preloadBy listing files dir).1 = .ok n)
    (other : FileTree.Listing) :
    (∃ m, (r.preloadBy other files dir).1 = .ok m) ∧ ∀ key entry,
      (r.preloadBy other files dir).2.Answers key entry ↔
        (r.preloadBy listing files dir).2.Answers key entry := by
  rw [preloadBy] at h
  split at h
  · next p hfind =>
    split at h
    · next hdirectory =>
      have hpassed : ∀ name ∈ files.names p, Passes files dir r name := fun name hname =>
        (exists_ok_preloadNames 0).mp ⟨n, h⟩ name ((listing.perm _).mem_iff.mpr hname)
      have hlisted (l : FileTree.Listing) : ∀ name ∈ l.order (files.names p), Passes files dir r name :=
        fun name hname => hpassed name ((l.perm _).mem_iff.mp hname)
      have hpreloads (l : FileTree.Listing) (key : String) (t : ClassTable) :
          Preloads files l r dir key t ↔ key ∉ r.cached ∧ ∃ name ∈ files.names p,
            tableKey? name = some key ∧ readTable files (dir.join name) = .ok t := by
        simp [Preloads, hfind, hdirectory, loads_of_passes (hlisted l), (l.perm _).mem_iff]
      constructor
      · rw [preloadBy, hfind]
        dsimp only
        rw [if_pos hdirectory]
        exact (exists_ok_preloadNames 0).mpr (hlisted other)
      · intro key entry
        simp only [answers_preload, hpreloads]
    · cases h
  · cases h

private theorem answers_table (h : (r.table files key).1 = .ok entry) :
    (r.table files key).2.Answers key entry := by
  rw [answers_iff]
  rw [table] at h ⊢
  cases hcached : r.cached[key]? with
  | some known =>
    rw [hcached] at h
    rw [← Except.ok.inj h]
    exact hcached
  | none =>
    rw [hcached] at h
    cases hload : r.load files key with
    | error failure => simp [hload] at h
    | ok found =>
      rw [hload] at h
      rw [← Except.ok.inj h]
      simp

private theorem answers_resolve {statement : String} {ref : StatementRef} {i : Option Instruction}
    (href : StatementRef.read? statement = some ref) (h : (r.resolve files statement).1 = .ok i) :
    ∃ entry : Option ClassTable, (i = entry.bind fun t => t.instruction? ref) ∧
      (r.resolve files statement).2.Answers ref.key entry := by
  rw [resolve, href] at h ⊢
  dsimp only at h ⊢
  cases htable : (r.table files ref.key).1 with
  | error failure => rw [htable] at h; cases h
  | ok entry =>
    rw [htable] at h
    exact ⟨entry, (Except.ok.inj h).symm, answers_table htable⟩

theorem Answers.table (h : r.Answers key entry) (files : FileTree) (k : String) :
    (r.table files k).2.Answers key entry := by
  rcases table_cases files r k with hsame | ⟨hnone, found, -, hinsert⟩
  · rwa [hsame]
  · rw [answers_iff] at h ⊢
    have hne : ¬compare k key = .eq := by
      intro heq
      rw [← Std.LawfulEqCmp.eq_of_compare heq, hnone] at h
      exact absurd h (by simp)
    rw [hinsert, Std.TreeMap.getElem?_insert, if_neg hne, h]

/-- No call changes an answer. -/
theorem Answers.call (h : r.Answers key entry) (files : FileTree) (c : Call) :
    (r.call files c).2.Answers key entry := by
  cases c with
  | table k => exact h.table files k
  | resolve statement =>
    rcases resolve_cases files r statement with hsame | ⟨k, hsame⟩
    · rwa [Resolver.call, hsame]
    · rw [Resolver.call, hsame]
      exact h.table files k
  | preload listing dir => exact (answers_preload files listing r dir).mpr (.inl h)

theorem Answers.after (h : r.Answers key entry) (calls : List (FileTree × Call)) :
    (r.after calls).Answers key entry := by
  induction calls generalizing r with
  | nil => exact h
  | cons c calls ih => exact ih (h.call c.1 c.2)

private theorem table_of_error {failure : Failure} (h : (r.table files key).1 = .error failure) :
    (r.table files key).2 = r := by
  rcases table_cases files r key with hsame | ⟨hnone, found, hload, -⟩
  · exact hsame
  · rw [table_fst, hnone, hload] at h
    exact absurd h (by simp)

/-- A lookup or a statement that fails leaves nothing behind. -/
theorem call_of_error {c : Call} {failure : Failure} (h : (r.call files c).1 = .error failure)
    (hc : ∀ listing dir, c ≠ .preload listing dir) : (r.call files c).2 = r := by
  cases c with
  | table key =>
    cases htable : (r.table files key).1 with
    | error failure => exact table_of_error htable
    | ok entry =>
      rw [call, htable] at h
      exact absurd h (by simp [Except.map])
  | resolve statement =>
    rw [call, resolve] at h ⊢
    split at h
    · rfl
    · next ref _ =>
      cases htable : (r.table files ref.key).1 with
      | error failure => exact table_of_error htable
      | ok entry =>
        dsimp only at h
        rw [htable] at h
        exact absurd h (by simp [Except.map])
  | preload listing dir => exact absurd rfl (hc listing dir)

/-- A class that was answered, by a lookup or by a statement, or that a directory was read for, is
answered in the same way after any further calls. A directory, in whatever order it is read, adds no
other answers; a call that fails changes no answer, and leaves nothing behind unless it was reading a
directory. -/
theorem answers_stable (r : Resolver) (files : FileTree) (later : List (FileTree × Call)) :
    (∀ key entry, (r.table files key).1 = .ok entry →
      ((r.table files key).2.after later).Answers key entry) ∧
    (∀ statement ref i, StatementRef.read? statement = some ref →
      (r.resolve files statement).1 = .ok i →
      ∃ entry : Option ClassTable, (i = entry.bind fun t => t.instruction? ref) ∧
        ((r.resolve files statement).2.after later).Answers ref.key entry) ∧
    (∀ listing dir key t, Preloads files listing r dir key t →
      ((r.preloadBy listing files dir).2.after later).Answers key (some t)) ∧
    (∀ listing dir key entry, (r.preloadBy listing files dir).2.Answers key entry →
      r.Answers key entry ∨ ∃ t, entry = some t ∧ Preloads files listing r dir key t) ∧
    ∀ c failure, (r.call files c).1 = .error failure →
      (∀ key entry, r.Answers key entry → ((r.call files c).2.after later).Answers key entry) ∧
        ((∀ listing dir, c ≠ .preload listing dir) → (r.call files c).2 = r) := by
  refine ⟨fun key entry h => (answers_table h).after later, fun statement ref i href h => ?_,
    fun listing dir key t h => ?_,
    fun listing dir key entry => (answers_preload files listing r dir).mp,
    fun c failure h => ⟨fun key entry hr => (hr.call files c).after later, call_of_error h⟩⟩
  · obtain ⟨entry, hi, hentry⟩ := answers_resolve href h
    exact ⟨entry, hi, hentry.after later⟩
  · exact ((answers_preload files listing r dir).mpr (.inr ⟨t, rfl, h⟩)).after later

private theorem readTable_of_content {file : Route} {content : List UInt8}
    (h : files.content? file = some content) :
    readTable files file = (ClassTable.read? content).elim (.error .table) .ok := by
  rw [readTable, h]
  dsimp only
  cases ClassTable.read? content <;> rfl

private theorem load_of_content {content : List UInt8}
    (h : files.content? (r.appDir.join (key ++ ".json")) = some content) :
    r.load files key = .map some ((ClassTable.read? content).elim (.error .table) .ok) := by
  delta load
  dsimp only
  rw [List.map_cons, List.find?_cons_of_pos (by rw [h, Option.isSome_some])]
  exact congrArg (Except.map some) (readTable_of_content h)

/-- A directory with a table of the class `A`. -/
def oneTable (content : List UInt8) : FileTree := FileTree.empty.place ["t", "A.json"] (.file content)

def ofOneTable : Resolver := ofDirs ⟨[], "t", 4095⟩ none

/-- A class that has no table when it is looked for, although one is written later and its directory is
read; the same directory where it is read first; and a table that is malformed. -/
theorem answers_oneTable :
    (let later := [(oneTable [0x7b, 0x7d], Call.preload .ascending ofOneTable.appDir)]
    ((ofOneTable.table .empty "A").1 = .ok none ∧
      ((ofOneTable.table .empty "A").2.after later).Answers "A" none) ∧
    (ofOneTable.resolve .empty "A;->get(1)").1 = .ok none ∧
      ∃ entry : Option ClassTable, (none = entry.bind fun t => t.instruction? ⟨"A", "get", 1⟩) ∧
        ((ofOneTable.resolve .empty "A;->get(1)").2.after later).Answers "A" entry) ∧
    (ofOneTable.preload (oneTable [0x7b, 0x7d]) ofOneTable.appDir).2.Answers "A" (some ∅) ∧
    (ofOneTable.Answers "A" (some ∅) ∨ ∃ t, some ∅ = some t ∧
      Preloads (oneTable [0x7b, 0x7d]) .ascending ofOneTable ofOneTable.appDir "A" t) ∧
    (ofOneTable.call (oneTable [0x7b]) (.table "A")).1 = .error .table ∧
      (ofOneTable.call (oneTable [0x7b]) (.table "A")).2 = ofOneTable := by
  have hcached : ofOneTable.cached["A"]? = none := by rfl
  have hmissing : (ofOneTable.table .empty "A").1 = .ok none := by
    rw [table_fst, hcached]
    rfl
  have href : StatementRef.read? "A;->get(1)" = some ⟨"A", "get", 1⟩ := by decide +kernel
  have hresolve : (ofOneTable.resolve .empty "A;->get(1)").1 = .ok none := by
    have hkey : (⟨"A", "get", 1⟩ : StatementRef).key = "A" := by decide
    rw [resolve, href]
    dsimp only
    rw [hkey, hmissing]
    rfl
  have hcontent (content : List UInt8) :
      (oneTable content).content? (ofOneTable.appDir.join ("A" ++ ".json")) = some content := by rfl
  have hpreloads :
      Preloads (oneTable [0x7b, 0x7d]) .ascending ofOneTable ofOneTable.appDir "A" ∅ := by
    have hdecode : Text.Utf8.decode? [0x7b, 0x7d] = some ['\x7b', '\x7d'] := by rfl
    have htext : ClassTable.read? [0x7b, 0x7d] = some ∅ := by
      simp [ClassTable.read?, hdecode, ClassTable.tokens, ClassTable.ofTokens?]
    refine ⟨["t"], by decide +kernel, by decide +kernel, ?_⟩
    rw [show FileTree.Listing.ascending.order ((oneTable [0x7b, 0x7d]).names ["t"]) =
      ["A" ++ ".json"] by decide +kernel]
    refine .here (by decide) (by simp [ofOneTable, ofDirs]) ?_
    rw [readTable_of_content (hcontent _), htext]
    rfl
  have hfails : (ofOneTable.call (oneTable [0x7b]) (.table "A")).1 = .error .table := by
    have hdecode : Text.Utf8.decode? [0x7b] = some ['\x7b'] := by rfl
    have htext : ClassTable.read? [0x7b] = none := by
      simp [ClassTable.read?, hdecode, ClassTable.tokens, ClassTable.ofTokens?, ClassTable.readMethods]
    rw [call, table_fst, hcached, Option.map_none, Option.getD_none, load_of_content (hcontent _), htext]
    rfl
  have hafter :=
    (answers_stable ofOneTable (oneTable [0x7b, 0x7d]) []).2.2.1 .ascending ofOneTable.appDir "A" ∅
      hpreloads
  exact ⟨⟨⟨hmissing, (answers_stable ofOneTable .empty _).1 "A" none hmissing⟩,
    hresolve, (answers_stable ofOneTable .empty _).2.1 _ _ _ href hresolve⟩, hafter,
    (answers_stable ofOneTable _ []).2.2.2.1 .ascending ofOneTable.appDir "A" (some ∅) hafter, hfails,
    ((answers_stable ofOneTable _ []).2.2.2.2 (.table "A") .table hfails).2 (by simp)⟩

end LeakTrace.Resolver
