import LeakTrace.Files.Route

namespace LeakTrace

namespace Route

variable {r : Route} {p q : Path} {x : String} {xs ys : List String}

/-- The path that the names spell, whatever stands there. -/
def destination (r : Route) : Path := r.names.foldl Path.step r.origin

/-- The names that stand in front of what is joined: a slash at the end gives none. -/
def stem (r : Route) : List String :=
  if r.text = "" ∨ r.text.toList.getLast? = some '/' then r.names.dropLast else r.names

private theorem splitOn_of_not_mem {cs : List Char} (h : '/' ∉ cs) : cs.splitOn '/' = [cs] := by
  refine List.splitOnP_eq_singleton fun c hc => ?_
  have hne : c ≠ '/' := fun heq => h (heq ▸ hc)
  simpa using hne

private theorem toList_join (hx : '/' ∉ x.toList) : (r.join x).text.toList =
    if r.text = "" ∨ r.text.toList.getLast? = some '/' then r.text.toList ++ x.toList
    else r.text.toList ++ '/' :: x.toList := by
  have hbegins : ¬Text.Begins "/" x.toList := fun ⟨rest, hrest⟩ => hx (hrest ▸ by simp)
  rw [join, if_neg hbegins]
  split
  · simp
  · simp

theorem origin_join (hx : '/' ∉ x.toList) : (r.join x).origin = r.origin := by
  have hstart : (r.join x).start = r.start := by
    rw [join]
    split
    · rfl
    · split <;> rfl
  have hbegins : Text.Begins "/" (r.join x).text.toList ↔ Text.Begins "/" r.text.toList := by
    rw [toList_join hx]
    cases htext : r.text.toList with
    | nil =>
      have hempty : r.text = "" := String.toList_eq_nil_iff.mp htext
      rw [if_pos (.inl hempty), List.nil_append]
      constructor
      · rintro ⟨rest, hrest⟩
        exact absurd (hrest ▸ by simp) hx
      · simp [Text.Begins]
    | cons c cs =>
      split
      · simp [Text.Begins, List.cons_prefix_cons]
      · simp [Text.Begins, List.cons_prefix_cons]
  rw [origin, origin, hstart]
  simp only [hbegins]

private theorem names_cases (r : Route) : r.names = r.stem ∨ r.names = r.stem ++ [""] := by
  rw [stem]
  split
  · next hend =>
    refine .inr ?_
    rcases hend with hempty | hslash
    · rw [names, hempty]
      rfl
    · obtain ⟨cs, hcs⟩ := List.getLast?_eq_some_iff.mp hslash
      rw [names, hcs, List.splitOn_append_cons_self]
      simp
  · exact .inl rfl

theorem names_join (hx : '/' ∉ x.toList) : (r.join x).names = r.stem ++ [x] := by
  rw [names, toList_join hx, stem]
  split
  · next hend =>
    rcases hend with hempty | hslash
    · rw [names, hempty]
      simp [splitOn_of_not_mem hx]
    · obtain ⟨cs, hcs⟩ := List.getLast?_eq_some_iff.mp hslash
      rw [names, hcs, List.append_assoc, List.singleton_append, List.splitOn_append_cons_self,
        List.splitOn_append_cons_self, splitOn_of_not_mem hx]
      simp
  · rw [names, List.splitOn_append_cons_self, splitOn_of_not_mem hx]
    simp

theorem foldl_stem (r : Route) : r.stem.foldl Path.step r.origin = r.destination := by
  rw [destination]
  rcases r.names_cases with h | h
  · rw [h]
  · rw [h, List.foldl_append]
    simp [Path.step]

theorem destination_join (hx : '/' ∉ x.toList) :
    (r.join x).destination = r.destination.step x := by
  rw [destination, origin_join hx, names_join hx, List.foldl_append, foldl_stem]
  rfl

private theorem mem_trail_append :
    q ∈ trail p (xs ++ ys) ↔ q ∈ trail p xs ∨ q ∈ trail (xs.foldl Path.step p) ys := by
  induction xs generalizing p with
  | nil =>
    have hhead : p ∈ trail p ys := by cases ys <;> simp [trail]
    simp only [List.nil_append, trail, List.mem_singleton, List.foldl_nil]
    exact ⟨.inr, fun h => h.elim (fun heq => heq ▸ hhead) id⟩
  | cons x xs ih => simp only [List.cons_append, trail, List.mem_cons, ih, List.foldl_cons, or_assoc]

private theorem foldl_mem_trail : xs.foldl Path.step p ∈ trail p xs := by
  induction xs generalizing p with
  | nil => simp [trail]
  | cons x xs ih => exact List.mem_cons_of_mem p ih

private theorem names_ne_nil (r : Route) : r.names ≠ [] := by
  rw [names]
  simp [List.splitOn_ne_nil]

theorem destination_mem_tail_trail (r : Route) : r.destination ∈ (trail r.origin r.names).tail := by
  rw [destination]
  cases hnames : r.names with
  | nil => exact absurd hnames r.names_ne_nil
  | cons name names => exact foldl_mem_trail

theorem destination_mem_trail (r : Route) : r.destination ∈ trail r.origin r.names :=
  foldl_mem_trail

theorem mem_trail_stem (r : Route) : q ∈ trail r.origin r.stem ↔ q ∈ trail r.origin r.names := by
  rcases r.names_cases with h | h
  · rw [h]
  · have hlast : q = r.stem.foldl Path.step r.origin → q ∈ trail r.origin r.stem :=
      fun heq => heq ▸ foldl_mem_trail
    rw [h, mem_trail_append]
    simpa [trail, Path.step] using hlast

theorem mem_trail_join (hx : '/' ∉ x.toList) :
    q ∈ trail (r.join x).origin (r.join x).names ↔
      q ∈ trail r.origin r.names ∨ q = r.destination.step x := by
  have hlast : r.destination ∈ trail r.origin r.names := r.destination_mem_trail
  rw [origin_join hx, names_join hx, mem_trail_append, mem_trail_stem, foldl_stem]
  simp only [trail, List.mem_cons, List.not_mem_nil, or_false]
  exact ⟨fun h => h.elim .inl fun h => h.elim (fun heq => .inl (heq ▸ hlast)) .inr,
    fun h => h.elim .inl fun h => .inr (.inr h)⟩

/-- A route without two dots passes the directories above the one that it leads to. -/
theorem isPrefix_of_mem_trail (hxs : ".." ∉ xs) (hq : q ∈ trail p xs) :
    q <+: xs.foldl Path.step p := by
  have hstep : ∀ (p : Path) (x : String), x ≠ ".." → p <+: p.step x := by
    intro p x hx
    rw [Path.step, if_neg hx]
    split
    · exact List.prefix_rfl
    · exact List.prefix_append p [x]
  have hfoldl : ∀ (p : Path) (xs : List String), ".." ∉ xs → p <+: xs.foldl Path.step p := by
    intro p xs hxs
    induction xs generalizing p with
    | nil => exact List.prefix_rfl
    | cons x xs ih =>
      obtain ⟨hx, hxs⟩ : ".." ≠ x ∧ ".." ∉ xs := by simpa using hxs
      exact (hstep p x (Ne.symm hx)).trans (ih (p.step x) hxs)
  induction xs generalizing p with
  | nil =>
    obtain rfl := List.mem_singleton.mp hq
    exact List.prefix_rfl
  | cons x xs ih =>
    rcases List.mem_cons.mp hq with rfl | hq
    · exact hfoldl q (x :: xs) hxs
    · exact ih (fun hmem => hxs (List.mem_cons_of_mem x hmem)) hq

end Route

namespace FileTree

variable {t : FileTree} {p q : Path} {xs : List String}

theorem follow?_eq_foldl (h : t.follow? p xs = some q) : q = xs.foldl Path.step p := by
  induction xs generalizing p with
  | nil => exact (Option.some.inj h).symm
  | cons x xs ih =>
    rw [follow?] at h
    split at h
    · exact ih h
    · exact absurd h (by simp)

theorem find?_eq_destination {r : Route} (h : t.find? r = some q) : q = r.destination := by
  rw [find?] at h
  split at h
  · exact follow?_eq_foldl h
  · exact absurd h (by simp)

theorem lookup?_of_content? {r : Route} {content : List UInt8} (h : t.content? r = some content) :
    t.lookup? r.destination = some (.file content) := by
  rw [content?, entry?] at h
  cases hfind : t.find? r with
  | none =>
    rw [hfind] at h
    exact absurd h (by simp)
  | some q =>
    rw [hfind, Option.bind_some, find?_eq_destination hfind] at h
    split at h
    · next heq =>
      rw [heq]
      exact congrArg (some ∘ Entry.file) (Option.some.inj h)
    · exact absurd h (by simp)

theorem follow?_of_directories (h : ∀ q ∈ Route.trail p xs, t.lookup? q = some .directory) :
    t.follow? p xs = some (xs.foldl Path.step p) := by
  induction xs generalizing p with
  | nil => rfl
  | cons x xs ih =>
    have hrest : ∀ q ∈ Route.trail (p.step x) xs, t.lookup? q = some .directory :=
      fun q hq => h q (List.mem_cons_of_mem p hq)
    have hstep : t.lookup? (p.step x) = some .directory := by
      refine hrest _ ?_
      cases xs <;> simp [Route.trail]
    rw [follow?, if_pos ⟨h p List.mem_cons_self, by rw [hstep]; rfl⟩]
    exact ih hrest

theorem find?_join {r : Route} {x : String} (hx : '/' ∉ x.toList)
    (hreadable : (r.join x).isReadable = true) (hfollow : t.follow? r.origin r.stem = some r.destination)
    (hdir : t.lookup? r.destination = some .directory)
    (hthere : (t.lookup? (r.destination.step x)).isSome = true) :
    t.find? (r.join x) = some (r.destination.step x) := by
  rw [find?, if_pos hreadable, Route.origin_join hx, Route.names_join hx, follow?_append, hfollow,
    Option.bind_some, follow?, if_pos ⟨hdir, hthere⟩, follow?]

end FileTree

end LeakTrace
