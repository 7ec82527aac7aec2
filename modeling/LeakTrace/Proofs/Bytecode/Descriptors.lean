import LeakTrace.Bytecode.Descriptor
import LeakTrace.Proofs.Text.Blanks
import LeakTrace.Proofs.Text.Marks
import Mathlib.Data.List.Forall2

namespace LeakTrace.TypeDescriptor

open Text

variable {whole : String} {cs rest d : List Char} {t : TypeDescriptor} {ts : List TypeDescriptor}

/-- The text is the descriptor of the type. -/
inductive Describes : List Char → TypeDescriptor → Prop
  | void : Describes ['V'] void
  | boolean : Describes ['Z'] boolean
  | byte : Describes ['B'] byte
  | short : Describes ['S'] short
  | char : Describes ['C'] char
  | int : Describes ['I'] int
  | long : Describes ['J'] long
  | float : Describes ['F'] float
  | double : Describes ['D'] double
  | object {name : List Char} (named : name ≠ []) (unended : ';' ∉ name) :
      Describes ('L' :: name ++ [';']) (object (String.ofList (exchange '/' '.' name)))
  | array {d : List Char} {t : TypeDescriptor} (element : Describes d t) :
      Describes ('[' :: d) (array t)

private theorem describes_of_ofTag? {tag : Char} (h : ofTag? tag = some t) : Describes [tag] t := by
  unfold ofTag? at h
  split at h <;> cases h <;> constructor

private theorem readBase_cases (h : readBase whole cs = .ok (t, rest)) :
    (∃ tag, ofTag? tag = some t ∧ cs = tag :: rest) ∨
      ∃ name, t = object (String.ofList (exchange '/' '.' name)) ∧ name ≠ [] ∧ ';' ∉ name ∧
        cs = 'L' :: name ++ ';' :: rest := by
  cases cs with
  | nil => exact absurd h (by simp [readBase])
  | cons tag cs =>
    rw [readBase] at h
    split at h
    · next htag =>
      obtain ⟨rfl, rfl⟩ := Prod.mk.inj (Except.ok.inj h)
      exact .inl ⟨tag, htag, rfl⟩
    · split at h
      · next htag =>
        split at h
        · exact absurd h (by simp)
        · exact absurd h (by simp)
        · next name rest' hne hcut =>
          obtain ⟨rfl, rfl⟩ := Prod.mk.inj (Except.ok.inj h)
          obtain ⟨hnot, rfl⟩ := (cut_eq_some_iff_of_singleton rfl).mp hcut
          exact .inr ⟨name, rfl, hne, hnot, by rw [htag]; rfl⟩
      · exact absurd h (by simp)

/-- What is read is a descriptor, and what is left is the text behind it. -/
theorem exists_describes_of_readWithin (h : readWithin whole cs = .ok (t, rest)) :
    ∃ d, Describes d t ∧ cs = d ++ rest := by
  fun_induction readWithin whole cs generalizing t with
  | case1 cs ih =>
    cases hread : readWithin whole cs with
    | error fault => exact absurd (hread ▸ h) (by simp [Except.map])
    | ok p =>
      obtain ⟨element, rest'⟩ := p
      rw [hread] at h
      obtain ⟨rfl, rfl⟩ := Prod.mk.inj (Except.ok.inj h)
      obtain ⟨d, hd, rfl⟩ := ih hread
      exact ⟨'[' :: d, .array hd, rfl⟩
  | case2 cs _ =>
    rcases readBase_cases h with ⟨tag, htag, rfl⟩ | ⟨name, rfl, hne, hnot, rfl⟩
    · exact ⟨[tag], describes_of_ofTag? htag, rfl⟩
    · exact ⟨_, .object hne hnot, by simp⟩

/-- A descriptor is read up to its end, whatever follows. -/
theorem Describes.readWithin (h : Describes d t) (whole : String) (rest : List Char) :
    readWithin whole (d ++ rest) = .ok (t, rest) := by
  induction h with
  | object hne hnot =>
    rename_i name
    have hcut : cut ";" (name ++ ';' :: rest) = some (name, rest) := cut_append_cons rfl hnot rest
    have htext : 'L' :: name ++ [';'] ++ rest = 'L' :: (name ++ ';' :: rest) := by simp
    rw [htext, TypeDescriptor.readWithin, readBase, hcut]
    · cases name with
      | nil => exact absurd rfl hne
      | cons c name => rfl
    · simp
  | array _ ih =>
    rw [List.cons_append, TypeDescriptor.readWithin, ih]
    rfl
  | _ => rfl

theorem Describes.readFirst (h : Describes d t) (rest : List Char) :
    readFirst (d ++ rest) = .ok (t, rest) := h.readWithin _ rest

theorem Describes.append_inj {d' rest' : List Char} {t' : TypeDescriptor} (h : Describes d t)
    (h' : Describes d' t') (heq : d ++ rest = d' ++ rest') : d = d' ∧ rest = rest' := by
  have hread := h.readFirst rest
  rw [heq, h'.readFirst rest'] at hread
  obtain ⟨-, rfl⟩ := Prod.mk.inj (Except.ok.inj hread)
  exact ⟨List.append_cancel_right heq, rfl⟩

theorem Describes.ne_nil (h : Describes d t) : d ≠ [] := by
  cases h <;> simp

theorem read_eq_ok_iff : read cs = .ok t ↔ Describes (trim cs) t := by
  rw [read]
  constructor
  · intro h
    split at h
    · exact absurd h (by simp)
    next type rest hfirst =>
    split at h
    · next hrest =>
      obtain rfl := Except.ok.inj h
      obtain ⟨d, hd, htrim⟩ := exists_describes_of_readWithin hfirst
      rwa [htrim, hrest, List.append_nil]
    · exact absurd h (by simp)
  · intro h
    have hfirst := h.readFirst []
    rw [List.append_nil] at hfirst
    rw [hfirst]
    exact if_pos rfl

private theorem readList_of_readFirst (h : readFirst cs = .ok (t, rest)) :
    readList cs = (readList rest).map (t :: ·) := by
  have hne : cs ≠ [] := by
    rintro rfl
    exact absurd h (by simp [readFirst, readWithin, readBase])
  rw [readList, if_neg hne]
  split
  · next hfirst => exact absurd (h.symm.trans hfirst) (by simp)
  · next hfirst =>
    obtain ⟨rfl, rfl⟩ := Prod.mk.inj (Except.ok.inj (h.symm.trans hfirst))
    rfl

theorem readList_cons (h : readList cs = .ok ts) (hne : cs ≠ []) :
    ∃ t rest ts', readFirst cs = .ok (t, rest) ∧ readList rest = .ok ts' ∧ ts = t :: ts' := by
  rw [readList, if_neg hne] at h
  split at h
  · exact absurd h (by simp)
  · next t rest hfirst =>
    cases hrest : readList rest with
    | error fault => exact absurd (hrest ▸ h) (by simp [Except.map])
    | ok ts' =>
      rw [hrest] at h
      exact ⟨t, rest, ts', hfirst, hrest, (Except.ok.inj h).symm⟩

private theorem readList_flatten {ds : List (List Char)} (h : List.Forall₂ Describes ds ts) :
    readList ds.flatten = .ok ts := by
  induction h with
  | nil => simp [readList]
  | cons hd _ ih =>
    rw [List.flatten_cons, readList_of_readFirst (hd.readFirst _), ih]
    rfl

/-- The accepted texts are the sequences of descriptors. -/
theorem readList_eq_ok_iff : readList cs = .ok ts ↔
    ∃ ds : List (List Char), ds.flatten = cs ∧ List.Forall₂ Describes ds ts := by
  constructor
  · intro h
    induction hn : cs.length using Nat.strongRecOn generalizing cs ts with
    | _ n ih =>
      by_cases hne : cs = []
      · subst hne
        obtain rfl : [] = ts := by simpa [readList] using h
        exact ⟨[], rfl, .nil⟩
      · obtain ⟨t, rest, ts', hfirst, hrest, rfl⟩ := readList_cons h hne
        have hshorter : rest.length < n := hn ▸ length_lt_of_readWithin hfirst
        obtain ⟨ds, rfl, hds⟩ := ih _ hshorter hrest rfl
        obtain ⟨d, hd, rfl⟩ := exists_describes_of_readWithin hfirst
        exact ⟨d :: ds, rfl, .cons hd hds⟩
  · rintro ⟨ds, rfl, hds⟩
    exact readList_flatten hds

/-- A text is a sequence of descriptors in one way at most. -/
theorem flatten_inj {ds ds' : List (List Char)} (h : ∀ d ∈ ds, ∃ t, Describes d t)
    (h' : ∀ d ∈ ds', ∃ t, Describes d t) (heq : ds.flatten = ds'.flatten) : ds = ds' := by
  induction ds generalizing ds' with
  | nil =>
    cases ds' with
    | nil => rfl
    | cons d' ds' =>
      obtain ⟨t', hd'⟩ := h' d' List.mem_cons_self
      exact absurd (List.append_eq_nil_iff.mp heq.symm).1 hd'.ne_nil
  | cons d ds ih =>
    obtain ⟨t, hd⟩ := h d List.mem_cons_self
    cases ds' with
    | nil => exact absurd (List.append_eq_nil_iff.mp heq).1 hd.ne_nil
    | cons d' ds' =>
      obtain ⟨t', hd'⟩ := h' d' List.mem_cons_self
      obtain ⟨rfl, hrest⟩ := hd.append_inj hd' heq
      rw [ih (List.forall_mem_cons.mp h).2 (List.forall_mem_cons.mp h').2 hrest]

private theorem readList_append {a b : List Char} {us : List TypeDescriptor}
    (ha : readList a = .ok ts)
    (hb : readList b = .ok us) : readList (a ++ b) = .ok (ts ++ us) := by
  obtain ⟨ds, rfl, hds⟩ := readList_eq_ok_iff.mp ha
  obtain ⟨es, rfl, hes⟩ := readList_eq_ok_iff.mp hb
  rw [← List.flatten_append]
  exact readList_flatten (List.rel_append hds hes)

/-- The class that a type names, for an array the one of its elements. -/
def className? : TypeDescriptor → Option String
  | object name => some name
  | array element => element.className?
  | _ => none

/-- The class that the type names, if any, can be written between its letter and its semicolon. -/
def Describable (t : TypeDescriptor) : Prop :=
  ∀ name ∈ t.className?, name ≠ "" ∧ ';' ∉ name.toList ∧ '/' ∉ name.toList

instance : DecidablePred Describable := fun t =>
  inferInstanceAs (Decidable (∀ name ∈ t.className?, _))

theorem Describable.describes (h : t.Describable) : Describes t.encode t := by
  induction t with
  | object name =>
    obtain ⟨hne, hend, hslash⟩ := h name rfl
    have hnamed : exchange '.' '/' name.toList ≠ [] := by simpa [exchange] using hne
    have hwritten := Describes.object hnamed fun hmem => hend (mem_exchange (by decide) hmem)
    rwa [exchange_exchange hslash, String.ofList_toList] at hwritten
  | array element ih => exact .array (ih h)
  | _ => constructor

private theorem Describes.describable (h : Describes d t) : t.Describable := by
  induction h with
  | object hne hnot =>
    rintro name hname
    obtain rfl := Option.some.inj hname
    rw [String.toList_ofList]
    refine ⟨?_, fun hmem => hnot (mem_exchange (by decide) hmem), not_mem_exchange (by decide)⟩
    simpa [← String.toList_inj, exchange] using hne
  | array _ ih => exact ih
  | _ => exact fun name hname => absurd hname (by simp [className?])

theorem readList_encode_iff :
    readList (ts.flatMap encode) = .ok ts ↔ ∀ t ∈ ts, t.Describable := by
  constructor
  · intro h
    obtain ⟨ds, -, hds⟩ := readList_eq_ok_iff.mp h
    clear h
    induction hds with
    | nil => simp
    | cons hd _ ih => exact List.forall_mem_cons.mpr ⟨hd.describable, ih⟩
  · intro h
    have hall : List.Forall₂ Describes (ts.map encode) ts :=
      List.forall₂_map_left_iff.mpr (List.forall₂_same.mpr fun t ht => (h t ht).describes)
    rw [List.flatMap_def]
    exact readList_flatten hall

/-- A list of types is read from exactly the texts that are their descriptors in sequence, no text is
such a sequence in two ways, and a single type is read from its descriptor with white space around it.
So lists are read part by part, and a list is read back from its descriptors exactly if it has them. -/
theorem readList_accepts_sequences :
    (∀ cs ts, readList cs = .ok ts ↔
      ∃ ds : List (List Char), ds.flatten = cs ∧ List.Forall₂ Describes ds ts) ∧
    (∀ ds ds' : List (List Char), (∀ d ∈ ds, ∃ t, Describes d t) → (∀ d ∈ ds', ∃ t, Describes d t) →
      ds.flatten = ds'.flatten → ds = ds') ∧
    (∀ cs t, read cs = .ok t ↔ Describes (trim cs) t) ∧
    (∀ a b ts us, readList a = .ok ts → readList b = .ok us → readList (a ++ b) = .ok (ts ++ us)) ∧
    ∀ ts : List TypeDescriptor, readList (ts.flatMap encode) = .ok ts ↔ ∀ t ∈ ts, t.Describable := by
  refine ⟨fun cs ts => readList_eq_ok_iff, fun ds ds' h h' heq => flatten_inj h h' heq,
    fun cs t => read_eq_ok_iff, fun a b ts us ha hb => readList_append ha hb, fun ts => ?_⟩
  exact readList_encode_iff

/-- Types whose class names read like other descriptors. -/
def intricateTypes : List TypeDescriptor :=
  [.int, .array (.array (.object "V.[I.L")), .object "L", .array .void]

theorem intricateTypes_read_back :
    (∀ t ∈ intricateTypes, t.Describable) ∧
      readList (intricateTypes.flatMap encode) = .ok intricateTypes ∧
      readList "[J".toList = .ok [.array .long] ∧
      readList (intricateTypes.flatMap encode ++ "[J".toList) =
        .ok (intricateTypes ++ [.array .long]) := by
  obtain ⟨hsequence, -, -, happend, hback⟩ := readList_accepts_sequences
  have hall : ∀ t ∈ intricateTypes, t.Describable := by decide
  have hread := (hback intricateTypes).mpr hall
  have harray : readList "[J".toList = .ok [.array .long] :=
    (hsequence _ _).mpr ⟨["[J".toList], rfl, .cons (.array .long) .nil⟩
  exact ⟨hall, hread, harray, happend _ _ _ _ hread harray⟩

end LeakTrace.TypeDescriptor
