import LeakTrace.Proofs.Actions
import LeakTrace.Proofs.Files.Routes
import LeakTrace.Proofs.Files.Trees

namespace LeakTrace

namespace FileTree

variable {t t' t'' : FileTree} {p q : Path} {touched also : Path → Prop}

/-- Nothing but what is touched becomes something else, and directories stay. -/
structure ChangesOnly (touched : Path → Prop) (t t' : FileTree) : Prop where
  elsewhere : ∀ q, ¬touched q → t'.lookup? q = t.lookup? q
  directories : ∀ q, t.lookup? q = some .directory → t'.lookup? q = some .directory

namespace ChangesOnly

theorem refl (t : FileTree) : ChangesOnly touched t t := ⟨fun _ _ => rfl, fun _ h => h⟩

theorem trans (h : ChangesOnly touched t t') (h' : ChangesOnly touched t' t'') :
    ChangesOnly touched t t'' :=
  ⟨fun q hq => (h'.elsewhere q hq).trans (h.elsewhere q hq),
    fun q hq => h'.directories q (h.directories q hq)⟩

instance : IsPreorder FileTree (ChangesOnly touched) where
  refl := refl
  trans _ _ _ := trans

theorem mono (h : ChangesOnly touched t t') (hmono : ∀ q, touched q → also q) :
    ChangesOnly also t t' :=
  ⟨fun q hq => h.elsewhere q fun htouched => hq (hmono q htouched), h.directories⟩

theorem follow? (h : ChangesOnly touched t t') {names : List String} (hq : ¬touched q)
    (hfollow : t.follow? p names = some q) : t'.follow? p names = some q := by
  induction names generalizing p with
  | nil => exact hfollow
  | cons name names ih =>
    rw [FileTree.follow?] at hfollow
    split at hfollow
    · next hstep =>
      obtain ⟨hdir, hthere⟩ := hstep
      have hthere' : (t'.lookup? (p.step name)).isSome = true := by
        cases names with
        | nil =>
          obtain rfl : p.step name = q := Option.some.inj hfollow
          rw [h.elsewhere _ hq]
          exact hthere
        | cons name' names =>
          rw [FileTree.follow?] at hfollow
          split at hfollow
          · next hon => rw [h.directories _ hon.1]; rfl
          · exact absurd hfollow (by simp)
      rw [FileTree.follow?, if_pos ⟨h.directories p hdir, hthere'⟩]
      exact ih hfollow
    · exact absurd hfollow (by simp)

theorem find? (h : ChangesOnly touched t t') {r : Route} (hq : ¬touched q)
    (hfind : t.find? r = some q) : t'.find? r = some q := by
  rw [FileTree.find?] at hfind ⊢
  split at hfind
  · next hreadable =>
    rw [if_pos hreadable]
    exact h.follow? hq hfind
  · exact absurd hfind (by simp)

theorem content? (h : ChangesOnly touched t t') {r : Route} {content : List UInt8}
    (hr : ¬touched r.destination) (hcontent : t.content? r = some content) :
    t'.content? r = some content := by
  rw [FileTree.content?, entry?] at hcontent ⊢
  cases hfind : t.find? r with
  | none => rw [hfind] at hcontent; exact absurd hcontent (by simp)
  | some q =>
    have hq : ¬touched q := find?_eq_destination hfind ▸ hr
    rw [hfind, Option.bind_some] at hcontent
    rw [h.find? hq hfind, Option.bind_some, h.elsewhere q hq]
    exact hcontent

end ChangesOnly

/-- Directories are made where nothing stood, and nothing else but what is touched becomes something
else. -/
def AddsOnly (touched : Path → Prop) (t t' : FileTree) : Prop :=
  ChangesOnly (fun q => t.lookup? q = none ∧ t'.lookup? q = some .directory ∨ touched q) t t'

theorem ChangesOnly.addsOnly (h : ChangesOnly touched t t') : AddsOnly touched t t' :=
  h.mono fun _ => .inr

namespace AddsOnly

theorem refl (t : FileTree) : AddsOnly touched t t := ChangesOnly.refl t

theorem trans (h : AddsOnly touched t t') (h' : AddsOnly touched t' t'') :
    AddsOnly touched t t'' := by
  refine ⟨fun q hq => ?_, fun q hq => h'.directories q (h.directories q hq)⟩
  obtain ⟨hmade, htouched⟩ := not_or.mp hq
  by_cases hfirst : t.lookup? q = none ∧ t'.lookup? q = some .directory
  · exact absurd ⟨hfirst.1, h'.directories q hfirst.2⟩ hmade
  · have hkept := h.elsewhere q (not_or.mpr ⟨hfirst, htouched⟩)
    refine (h'.elsewhere q (not_or.mpr ⟨fun hlast => hmade ?_, htouched⟩)).trans hkept
    exact ⟨hkept.symm.trans hlast.1, hlast.2⟩

theorem mono (h : AddsOnly touched t t') (hmono : ∀ q, touched q → also q) : AddsOnly also t t' :=
  ChangesOnly.mono h fun q => Or.imp_right (hmono q)

theorem of_file (h : AddsOnly touched t t') {content : List UInt8}
    (hfile : t'.lookup? q = some (.file content)) :
    touched q ∨ t.lookup? q = some (.file content) := by
  by_cases htouched : touched q
  · exact .inl htouched
  · refine .inr ((h.elsewhere q (not_or.mpr ⟨fun hmade => ?_, htouched⟩)).symm.trans hfile)
    exact absurd (hfile.symm.trans hmade.2) (by simp)

theorem content? (h : AddsOnly touched t t') {r : Route} {content : List UInt8}
    (hr : ¬touched r.destination) (hcontent : t.content? r = some content) :
    t'.content? r = some content := by
  refine ChangesOnly.content? h (not_or.mpr ⟨fun hmade => ?_, hr⟩) hcontent
  exact absurd (hmade.1.symm.trans (lookup?_of_content? hcontent)) (by simp)

end AddsOnly

end FileTree

namespace FileAction

open FileTree

variable {t t' : FileTree} {p q : Path} {r : Route} {names : List String}

private theorem succeeds_makeBelow_cons {name : String}
    (h : Succeeds (makeBelow p (name :: names)) t q t') :
    ∃ t₁, ChangesOnly (· = p.step name) t t₁ ∧ t₁.lookup? (p.step name) = some .directory ∧
      (t.lookup? (p.step name) = none ∨ t₁ = t) ∧
      Succeeds (makeBelow (p.step name) names) t₁ q t' := by
  rw [makeBelow, succeeds_get_bind] at h
  cases hentry : t.lookup? (p.step name) with
  | some e =>
    simp only [hentry] at h
    cases e with
    | directory => exact ⟨t, .refl t, hentry, .inr rfl, h⟩
    | file content => exact absurd h (by simp)
  | none =>
    have hne : p.step name ≠ [] := fun heq => by simp [lookup?, heq] at hentry
    simp only [hentry] at h
    split at h
    · obtain ⟨u, t₁, hset, h⟩ := succeeds_bind.mp h
      obtain rfl := succeeds_set.mp hset
      refine ⟨_, ⟨fun q hq => ?_, fun q hq => ?_⟩, ?_, .inl rfl, h⟩
      · rw [lookup?_insert hne, if_neg hq]
      · rw [lookup?_insert hne, hq, ite_self]
      · rw [lookup?_insert hne, if_pos rfl]
    · exact absurd h (by simp)

/-- Directories are made along the names, where there are none, and nothing else is changed. -/
theorem succeeds_makeBelow (h : Succeeds (makeBelow p names) t q t') :
    ChangesOnly (· ∈ Route.trail p names) t t' ∧
      ∀ q ∈ (Route.trail p names).tail, t'.lookup? q = some .directory := by
  induction names generalizing p t with
  | nil =>
    obtain ⟨-, rfl⟩ := succeeds_pure.mp h
    exact ⟨.refl t, by simp [Route.trail]⟩
  | cons name names ih =>
    obtain ⟨t₁, hfirst, hdirectory, -, hrest⟩ := succeeds_makeBelow_cons h
    obtain ⟨hchanges, hdirectories⟩ := ih hrest
    have hhead : Route.trail (p.step name) names =
        p.step name :: (Route.trail (p.step name) names).tail := by
      cases names <;> rfl
    have hstep : p.step name ∈ Route.trail (p.step name) names := by
      rw [hhead]
      exact List.mem_cons_self
    refine ⟨(hfirst.mono ?_).trans (hchanges.mono fun q hq => List.mem_cons_of_mem p hq), ?_⟩
    · rintro q rfl
      exact List.mem_cons_of_mem p hstep
    · intro q hq
      rw [Route.trail, List.tail_cons, hhead] at hq
      rcases List.mem_cons.mp hq with rfl | hq
      · exact hchanges.directories _ hdirectory
      · exact hdirectories q hq

private theorem addsOnly_makeBelow (h : Succeeds (makeBelow p names) t q t') :
    AddsOnly (fun _ => False) t t' := by
  induction names generalizing p t with
  | nil =>
    obtain ⟨-, rfl⟩ := succeeds_pure.mp h
    exact .refl t
  | cons name names ih =>
    obtain ⟨t₁, hfirst, hdirectory, hnew, hrest⟩ := succeeds_makeBelow_cons h
    rcases hnew with hnone | rfl
    · refine AddsOnly.trans (hfirst.mono ?_) (ih hrest)
      rintro q rfl
      exact .inl ⟨hnone, hdirectory⟩
    · exact ih hrest

theorem addsOnly_makeDirectory (h : Succeeds (makeDirectory r) t q t') :
    AddsOnly (fun _ => False) t t' := by
  rw [makeDirectory] at h
  split at h
  · exact addsOnly_makeBelow h
  · exact absurd h not_succeeds_throw

/-- The directories that a route passes are made, where there are none. -/
theorem succeeds_makeDirectory (h : Succeeds (makeDirectory r) t q t') :
    r.isReadable = true ∧ ChangesOnly (· ∈ Route.trail r.origin r.names) t t' ∧
      ∀ q ∈ (Route.trail r.origin r.names).tail, t'.lookup? q = some .directory := by
  rw [makeDirectory] at h
  split at h
  · next hreadable =>
    exact ⟨hreadable, succeeds_makeBelow h⟩
  · exact absurd h not_succeeds_throw

theorem succeeds_removeDirectory {u : Unit} (h : Succeeds (removeDirectory p) t u t') :
    t.lookup? p = some .directory ∧
      t' = ⟨t.entries.filter fun q _ => !p.isPrefixOf q⟩ := by
  rw [removeDirectory, succeeds_get_bind] at h
  split at h
  · next hdir => exact ⟨hdir, (succeeds_set.mp h).symm⟩
  · exact absurd h not_succeeds_throw

/-- A file is written into a directory that the route leads through, and not in the place of one. -/
theorem succeeds_write {failure : Failure} {content : String} {u : Unit}
    (h : Succeeds (write failure r content) t u t') :
    r.isReadable = true ∧ ∃ dir name, r.names = r.names.dropLast ++ [name] ∧
      t.follow? r.origin r.names.dropLast = some dir ∧ t.lookup? dir = some .directory ∧
      Path.isName name = true ∧ t.lookup? (dir ++ [name]) ≠ some .directory ∧
      t' = ⟨t.entries.insert (dir ++ [name]) (.file (Text.Utf8.encode content))⟩ := by
  rw [write, succeeds_get_bind] at h
  split at h
  · exact absurd h not_succeeds_throw
  · next p htarget =>
    rw [target?] at htarget
    split at htarget
    · next name dir hname hdir =>
      split at htarget
      · next hable =>
        obtain ⟨hreadable, hdirectory, hisName⟩ := hable
        obtain rfl := Option.some.inj htarget
        have hnames : r.names = r.names.dropLast ++ [name] :=
          (List.dropLast_append_getLast? name hname).symm
        split at h
        · exact absurd h not_succeeds_throw
        · next hfree =>
          exact ⟨hreadable, dir, name, hnames, hdir, hdirectory, hisName, hfree,
            (succeeds_set.mp h).symm⟩
      · exact absurd htarget (by simp)
    · exact absurd htarget (by simp)

theorem changesOnly_write {failure : Failure} {content : String} {u : Unit}
    (h : Succeeds (write failure r content) t u t') :
    ChangesOnly (· = r.destination) t t' ∧
      t'.content? r = some (Text.Utf8.encode content) := by
  obtain ⟨hreadable, dir, name, hnames, hdir, hdirectory, hisName, hfree, rfl⟩ := succeeds_write h
  have hne : dir ++ [name] ≠ [] := by simp
  have hdestination : r.destination = dir ++ [name] := by
    rw [Route.destination, hnames, List.foldl_append, ← follow?_eq_foldl hdir, List.foldl_cons,
      List.foldl_nil, Path.step_of_isName hisName]
  rw [hdestination]
  have hchanges : ChangesOnly (· = dir ++ [name]) t
      ⟨t.entries.insert (dir ++ [name]) (.file (Text.Utf8.encode content))⟩ := by
    refine ⟨fun q hq => ?_, fun q hq => ?_⟩
    · rw [lookup?_insert hne, if_neg hq]
    · have hother : q ≠ dir ++ [name] := fun heq => hfree (heq ▸ hq)
      rw [lookup?_insert hne, if_neg hother]
      exact hq
  refine ⟨hchanges, ?_⟩
  have hfile := lookup?_insert hne t (.file (Text.Utf8.encode content)) (dir ++ [name])
  rw [if_pos rfl] at hfile
  have hlast := hchanges.follow? (by simp) hdir
  have hfollow : FileTree.follow? ⟨t.entries.insert (dir ++ [name])
      (.file (Text.Utf8.encode content))⟩ r.origin r.names = some (dir ++ [name]) := by
    rw [hnames, follow?_append, hlast, Option.bind_some, follow?, Path.step_of_isName hisName,
      if_pos ⟨hchanges.directories dir hdirectory, by rw [hfile]; rfl⟩, follow?]
  rw [content?, entry?, find?, if_pos hreadable, hfollow, Option.bind_some, hfile]

end FileAction

end LeakTrace
