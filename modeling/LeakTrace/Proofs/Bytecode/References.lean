import LeakTrace.Bytecode.Reference
import LeakTrace.Proofs.Bytecode.Descriptors

namespace LeakTrace

open Text

variable {cs rest a v : List Char}

private theorem eq_or_append_of_not_mem {c : Char} {b w : List Char} (hb : c ∉ b)
    (h : b ++ c :: w = a ++ c :: v) : a = b ∧ v = w ∨ ∃ d, w = d ++ c :: v := by
  rcases List.append_eq_append_iff.mp h with ⟨d, rfl, hd⟩ | ⟨d, rfl, hd⟩
  · cases d with
    | nil =>
      obtain rfl : w = v := by simpa using hd
      exact .inl ⟨List.append_nil b, rfl⟩
    | cons e d =>
      obtain ⟨-, hw⟩ := List.cons.inj hd
      exact .inr ⟨d, hw⟩
  · cases d with
    | nil =>
      obtain rfl : v = w := by simpa using hd
      exact .inl ⟨(List.append_nil a).symm, rfl⟩
    | cons e d =>
      obtain ⟨rfl, -⟩ := List.cons.inj hd
      exact absurd (List.mem_append_right a List.mem_cons_self) hb

private theorem exists_append_of_not_mem_left {c : Char} {b w : List Char} (hb : c ∉ b)
    (h : b ++ w = a ++ c :: v) : ∃ d, w = d ++ c :: v := by
  rcases List.append_eq_append_iff.mp h with ⟨d, -, hd⟩ | ⟨d, rfl, hd⟩
  · exact ⟨d, hd⟩
  · cases d with
    | nil => exact ⟨[], hd.symm⟩
    | cons e d =>
      obtain ⟨rfl, -⟩ := List.cons.inj hd
      exact absurd (List.mem_append_right a List.mem_cons_self) hb

private theorem append_cases {c : Char} {b w : List Char} (h : b ++ w = a ++ c :: v) :
    (∃ d, b = a ++ c :: d ∧ v = d ++ w) ∨ ∃ d, w = d ++ c :: v := by
  rcases List.append_eq_append_iff.mp h with ⟨d, -, hd⟩ | ⟨d, rfl, hd⟩
  · exact .inr ⟨d, hd⟩
  · cases d with
    | nil => exact .inr ⟨[], hd.symm⟩
    | cons e d =>
      obtain ⟨rfl, hv⟩ := List.cons.inj hd
      exact .inl ⟨d, rfl, hv⟩

private theorem not_mem_of_blank {c : Char} (hc : isBlank c = false)
    (h : ∀ d ∈ a, isBlank d = true) :
    c ∉ a := fun hmem => by simp [h c hmem] at hc

namespace TypeDescriptor

variable {whole : String} {t : TypeDescriptor}

/-- A descriptor has no semicolon but the one at its end. -/
theorem Describes.semicolon {d : List Char} (h : Describes d t) (hd : d = a ++ ';' :: v) : v = [] := by
  induction h generalizing a with
  | object _ hnot =>
    rcases eq_or_append_of_not_mem (by simpa using hnot) hd with ⟨-, hend⟩ | ⟨b, hend⟩
    · exact hend
    · exact absurd hend (by simp)
  | array _ ih =>
    cases a with
    | nil => exact absurd hd (by simp)
    | cons c a => exact ih (List.cons.inj hd).2
  | _ => cases a <;> simp at hd

private theorem readWithin_semicolon (h : readWithin whole cs = .ok (t, rest))
    (hcs : cs = a ++ ';' :: v) :
    v = rest ∨ ∃ b, rest = b ++ ';' :: v := by
  obtain ⟨d, hd, rfl⟩ := exists_describes_of_readWithin h
  rcases append_cases hcs with ⟨e, he, rfl⟩ | hlater
  · rw [hd.semicolon he]
    exact .inl rfl
  · exact .inr hlater

theorem Describes.head {c : Char} {d : List Char} (h : Describes (c :: d) t) :
    isBlank c = false ∧ c ≠ '-' := by
  cases h <;> decide

private theorem head_of_readWithin {c : Char} (h : readWithin whole (c :: cs) = .ok (t, rest)) :
    isBlank c = false ∧ c ≠ '-' := by
  obtain ⟨d, hd, heq⟩ := exists_describes_of_readWithin h
  cases d with
  | nil => exact absurd rfl hd.ne_nil
  | cons e d =>
    obtain ⟨rfl, -⟩ := List.cons.inj heq
    exact hd.head

private theorem readList_semicolon {ts : List TypeDescriptor} (h : readList cs = .ok ts)
    (hcs : cs = a ++ ';' :: v) : ∃ ts', readList v = .ok ts' := by
  induction hn : cs.length using Nat.strongRecOn generalizing cs a ts with
  | _ n ih =>
    obtain ⟨t, rest, ts', hfirst, hrest, -⟩ := readList_cons h (by simp [hcs])
    rcases readWithin_semicolon hfirst hcs with rfl | ⟨b, hb⟩
    · exact ⟨ts', hrest⟩
    · exact ih rest.length (hn ▸ length_lt_of_readWithin hfirst) hrest hb rfl

private theorem read_semicolon (h : read cs = .ok t) (hcs : cs = a ++ ';' :: v) :
    ∀ d ∈ v, isBlank d = true := by
  obtain ⟨front, behind, htrim, hfront, hbehind⟩ := exists_trim cs
  rw [htrim, List.append_assoc] at hcs
  obtain ⟨d, hd⟩ := exists_append_of_not_mem_left (not_mem_of_blank (by decide) hfront) hcs
  rcases append_cases hd with ⟨e, he, rfl⟩ | ⟨e, he⟩
  · rw [(read_eq_ok_iff.mp h).semicolon he]
    exact hbehind
  · exact absurd (he ▸ List.mem_append_right e List.mem_cons_self)
      (not_mem_of_blank (by decide) hbehind)

private theorem exists_of_read_object {cls : String} (h : read cs = .ok (object cls)) :
    ∃ front name behind, cs = front ++ 'L' :: name ++ ';' :: behind ∧
      (∀ d ∈ front, isBlank d = true) ∧ (∀ d ∈ behind, isBlank d = true) ∧ ';' ∉ name ∧
      cls = String.ofList (exchange '/' '.' name) := by
  obtain ⟨front, behind, htrim, hfront, hbehind⟩ := exists_trim cs
  have hdescribes := read_eq_ok_iff.mp h
  generalize trim cs = d at htrim hdescribes
  cases hdescribes with
  | object _ hnot => exact ⟨front, _, behind, by simp [htrim], hfront, hbehind, hnot, rfl⟩

end TypeDescriptor

namespace MethodRef

variable {m : MethodRef}

private theorem exists_of_read (h : read cs = .ok m) : ∃ cls parameters result,
    trim cs = cls ++ "->".toList ++ (m.name.toList ++ "(".toList ++
      (parameters ++ ")".toList ++ result)) ∧
    TypeDescriptor.read cls = .ok m.cls ∧
    TypeDescriptor.readList parameters = .ok m.parameters ∧
    TypeDescriptor.read result = .ok m.result := by
  rw [read] at h
  split at h
  · exact absurd h (by simp)
  next cls method harrow =>
  rw [ofParts] at h
  split at h
  · exact absurd h (by simp)
  next name signature hname =>
  split at h
  · exact absurd h (by simp)
  next parameters result hparameters =>
  cases hcls : TypeDescriptor.read cls with
  | error fault => exact absurd (hcls ▸ h) (by simp [bind, Except.bind])
  | ok c =>
  cases hlist : TypeDescriptor.readList parameters with
  | error fault => exact absurd (hlist ▸ hcls ▸ h) (by simp [bind, Except.bind])
  | ok ts =>
  cases hresult : TypeDescriptor.read result with
  | error fault => exact absurd (hresult ▸ hlist ▸ hcls ▸ h) (by simp [bind, Except.bind])
  | ok r =>
  rw [hcls, hlist, hresult] at h
  obtain rfl := Except.ok.inj h
  refine ⟨cls, parameters, result, ?_, hcls, hlist, hresult⟩
  simp only [eq_of_cut harrow, eq_of_cut hname, eq_of_cut hparameters, String.toList_ofList]

/-- The word behind the white space that a text begins with starts with an arrow. -/
def ArrowNext (cs : List Char) : Prop := (trimStart cs).head? = some '-'

private theorem not_arrowNext_of_blank (h : ∀ d ∈ v, isBlank d = true) : ¬ArrowNext v := by
  rw [ArrowNext, trimStart_of_blanks h]
  simp

private theorem not_arrowNext_of_readList {ts : List TypeDescriptor}
    (h : TypeDescriptor.readList v = .ok ts) (w : List Char) : ¬ArrowNext (v ++ ')' :: w) := by
  cases v with
  | nil =>
    rw [ArrowNext, List.nil_append, trimStart_cons_of_not (by decide)]
    simp
  | cons c v =>
    obtain ⟨t, rest, ts', hfirst, -⟩ := TypeDescriptor.readList_cons h (by simp)
    obtain ⟨hblank, hdash⟩ := TypeDescriptor.head_of_readWithin hfirst
    rw [ArrowNext, List.cons_append, trimStart_cons_of_not hblank]
    simpa using hdash

private theorem not_arrowNext_of_member {parameters result behind : List Char}
    {ts : List TypeDescriptor}
    {t : TypeDescriptor} (hparameters : TypeDescriptor.readList parameters = .ok ts)
    (hresult : TypeDescriptor.read result = .ok t) (hbehind : ∀ d ∈ behind, isBlank d = true)
    (h : parameters ++ ')' :: (result ++ behind) = a ++ ';' :: v) : ¬ArrowNext v := by
  rcases append_cases h with ⟨d, hd, rfl⟩ | ⟨d, hd⟩
  · obtain ⟨ts', hlist⟩ := TypeDescriptor.readList_semicolon hparameters hd
    exact not_arrowNext_of_readList hlist _
  · obtain ⟨d, hd⟩ := exists_append_of_not_mem_left (b := [')']) (by decide) hd
    rcases append_cases hd with ⟨e, he, rfl⟩ | ⟨e, he⟩
    · have hblank := TypeDescriptor.read_semicolon hresult he
      exact not_arrowNext_of_blank fun c hc =>
        (List.mem_append.mp hc).elim (hblank c) (hbehind c)
    · exact absurd (he ▸ List.mem_append_right e List.mem_cons_self)
        (not_mem_of_blank (by decide) hbehind)

/-- The class of a reference to the reflective method ends at the only semicolon that an arrow
follows. -/
theorem exists_class_of_reflective (h : read cs = .ok m) (hm : m.isReflectiveInvoke = true) :
    ∃ front name behind, cs = front ++ 'L' :: name ++ ';' :: behind ∧
      (∀ d ∈ front, isBlank d = true) ∧ name.length = "java.lang.reflect.Method".length ∧
      ArrowNext behind ∧ ∀ a v, cs = a ++ ';' :: v → ArrowNext v → a = front ++ 'L' :: name := by
  obtain ⟨cls, parameters, result, htrim, hcls, hparameters, hresult⟩ := exists_of_read h
  obtain ⟨hname, hobject⟩ : m.name = "invoke" ∧ m.cls = .object "java.lang.reflect.Method" := by
    simpa [isReflectiveInvoke] using hm
  obtain ⟨inner, name, gap, rfl, hinner, hgap, hnot, hdotted⟩ :=
    TypeDescriptor.exists_of_read_object (hobject ▸ hcls)
  obtain ⟨front, behind, hcs, hfront, hbehind⟩ := exists_trim cs
  rw [htrim, hname] at hcs
  have hblank : ∀ d ∈ front ++ inner, isBlank d = true := fun d hd =>
    (List.mem_append.mp hd).elim (hfront d) (hinner d)
  have hcs' : cs = (front ++ inner) ++ 'L' :: name ++ ';' ::
      (gap ++ '-' :: ('>' :: "invoke(".toList ++
        (parameters ++ ')' :: (result ++ behind)))) := by
    rw [hcs]
    simp
  refine ⟨front ++ inner, name, _, hcs', hblank, ?_, ?_, ?_⟩
  · rw [hdotted]
    simp [exchange]
  · rw [ArrowNext, trimStart_append_cons hgap (by decide)]
    rfl
  · intro a v ha harrow
    -- a semicolon behind the one of the class stands in the parameters or the result
    have hclass : ';' ∉ (front ++ inner) ++ 'L' :: name := by
      intro hmem
      rcases List.mem_append.mp hmem with hmem | hmem
      · exact not_mem_of_blank (by decide) hblank hmem
      · simp [hnot] at hmem
    rcases eq_or_append_of_not_mem hclass (hcs'.symm.trans ha) with ⟨rfl, -⟩ | ⟨d, hd⟩
    · rfl
    · have hstart : ';' ∉ gap ++ "->invoke(".toList := by
        intro hmem
        rcases List.mem_append.mp hmem with hmem | hmem
        · exact not_mem_of_blank (by decide) hgap hmem
        · exact absurd hmem (by decide)
      have hmember : (gap ++ "->invoke(".toList) ++ (parameters ++ ')' :: (result ++ behind)) =
          d ++ ';' :: v := by
        rw [← hd]
        simp
      obtain ⟨e, he⟩ := exists_append_of_not_mem_left hstart hmember
      exact absurd harrow (not_arrowNext_of_member hparameters hresult hbehind he)

theorem read_trim_eq_ok : read (trim cs) = .ok m ↔ read cs = .ok m := by
  rw [read, read, trim_trim]
  split <;> simp

/-- A text ends in one reference to the reflective method at most, whatever white space is taken into
it. -/
theorem trim_eq_of_reflective {long short : List Char} {m' : MethodRef} (hshort : short <:+ long)
    (h : read long = .ok m) (hm : m.isReflectiveInvoke = true) (h' : read short = .ok m')
    (hm' : m'.isReflectiveInvoke = true) : trim long = trim short := by
  obtain ⟨w, rfl⟩ := hshort
  obtain ⟨front, name, behind, hlong, hfront, hlength, -, hunique⟩ := exists_class_of_reflective h hm
  obtain ⟨front', name', behind', rfl, hfront', hlength', harrow, -⟩ :=
    exists_class_of_reflective h' hm'
  have hclass : (w ++ front') ++ 'L' :: name' = front ++ 'L' :: name := by
    refine List.append_assoc .. ▸ hunique (w ++ (front' ++ 'L' :: name')) behind' ?_ harrow
    simp
  have hw : w ++ front' = front := (List.append_inj' hclass (by simp [hlength, hlength'])).1
  exact trim_blanks_append fun d hd => hfront d (hw ▸ List.mem_append_left _ hd)

end MethodRef

end LeakTrace
