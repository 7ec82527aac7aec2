namespace LeakTrace.Text

/-- What follows `start` in a list that begins with it. -/
def dropStart? {α : Type} [DecidableEq α] : List α → List α → Option (List α)
  | [], l => some l
  | _ :: _, [] => none
  | a :: start, b :: l => if a = b then dropStart? start l else none

/-- What follows the mark, if the text begins with it. -/
def afterPrefix (mark : String) (cs : List Char) : Option (List Char) :=
  dropStart? mark.toList cs

/-- What precedes the mark, if the text ends with it. -/
def beforeSuffix (mark : String) (cs : List Char) : Option (List Char) :=
  (dropStart? mark.toList.reverse cs.reverse).map List.reverse

/-- The texts before and after the first occurrence of the mark. -/
def cut (mark : String) : List Char → Option (List Char × List Char)
  | [] => (afterPrefix mark []).map fun rest => ([], rest)
  | c :: cs =>
    match afterPrefix mark (c :: cs) with
    | some rest => some ([], rest)
    | none => (cut mark cs).map fun (a, b) => (c :: a, b)

/-- The texts before and after the last occurrence of the mark. -/
def cutLast (mark : String) : List Char → Option (List Char × List Char)
  | [] => (afterPrefix mark []).map fun rest => ([], rest)
  | c :: cs =>
    match cutLast mark cs with
    | some (a, b) => some (c :: a, b)
    | none => (afterPrefix mark (c :: cs)).map fun rest => ([], rest)

/-- The text before the first occurrence of the character; all of it where there is none. -/
def before (c : Char) (cs : List Char) : List Char := cs.takeWhile (· ≠ c)

/-- Puts `b` in the place of each `a`. -/
def exchange (a b : Char) (cs : List Char) : List Char := cs.map fun c => if c = a then b else c

/-- The mark occurs in the text. -/
def Has (mark : String) (cs : List Char) : Prop := mark.toList <:+: cs

instance (mark : String) (cs : List Char) : Decidable (Has mark cs) :=
  inferInstanceAs (Decidable (mark.toList <:+: cs))

/-- The text begins with the mark. -/
def Begins (mark : String) (cs : List Char) : Prop := mark.toList <+: cs

instance (mark : String) (cs : List Char) : Decidable (Begins mark cs) :=
  inferInstanceAs (Decidable (mark.toList <+: cs))

theorem dropStart?_eq_some {α : Type} [DecidableEq α] {start l rest : List α} :
    dropStart? start l = some rest ↔ l = start ++ rest := by
  induction start generalizing l with
  | nil => simp [dropStart?]
  | cons a start ih =>
    cases l with
    | nil => simp [dropStart?]
    | cons b l =>
      simp only [dropStart?, List.cons_append, List.cons.injEq]
      by_cases h : a = b
      · simp [h, ih]
      · simp [h, Ne.symm h]

theorem afterPrefix_eq_some {mark : String} {cs rest : List Char} :
    afterPrefix mark cs = some rest ↔ cs = mark.toList ++ rest := dropStart?_eq_some

theorem afterPrefix_eq_none {mark : String} {cs : List Char} :
    afterPrefix mark cs = none ↔ ¬ Begins mark cs := by
  rw [Option.eq_none_iff_forall_ne_some]
  constructor
  · rintro h ⟨rest, rfl⟩
    exact h rest (afterPrefix_eq_some.mpr rfl)
  · intro h rest hr
    exact h ⟨rest, (afterPrefix_eq_some.mp hr).symm⟩

theorem beforeSuffix_eq_some {mark : String} {cs rest : List Char} :
    beforeSuffix mark cs = some rest ↔ cs = rest ++ mark.toList := by
  simp only [beforeSuffix, Option.map_eq_some_iff, dropStart?_eq_some]
  constructor
  · rintro ⟨r, h, rfl⟩
    have := congrArg List.reverse h
    simpa using this
  · rintro rfl
    exact ⟨rest.reverse, by simp, by simp⟩

theorem eq_of_cut {mark : String} {cs a b : List Char} (h : cut mark cs = some (a, b)) :
    cs = a ++ mark.toList ++ b := by
  induction cs generalizing a with
  | nil =>
    obtain ⟨r, hr, he⟩ := Option.map_eq_some_iff.mp h
    obtain ⟨rfl, rfl⟩ : [] = a ∧ r = b := by simpa using he
    simpa using afterPrefix_eq_some.mp hr
  | cons c cs ih =>
    rw [cut] at h
    split at h
    · next r hr =>
      obtain ⟨rfl, rfl⟩ : [] = a ∧ r = b := by simpa using h
      simpa using afterPrefix_eq_some.mp hr
    · obtain ⟨⟨a', b'⟩, hr, he⟩ := Option.map_eq_some_iff.mp h
      obtain ⟨rfl, rfl⟩ : c :: a' = a ∧ b' = b := by simpa using he
      simpa using ih hr

theorem cut_eq_none {mark : String} {cs : List Char} : cut mark cs = none ↔ ¬ Has mark cs := by
  induction cs with
  | nil =>
    simp only [cut, Option.map_eq_none_iff, afterPrefix_eq_none, Begins, Has, List.prefix_nil,
      List.infix_nil]
  | cons c cs ih =>
    rw [cut]
    split
    · next r hr =>
      have := (afterPrefix_eq_some.mp hr)
      simp only [reduceCtorEq, false_iff, Decidable.not_not, Has]
      exact ⟨[], r, by simpa using this.symm⟩
    · next hn =>
      rw [afterPrefix_eq_none] at hn
      rw [Option.map_eq_none_iff, ih, Has, Has, List.infix_cons_iff]
      exact ⟨fun h hh => hh.elim hn h, fun h hh => h (Or.inr hh)⟩

theorem eq_of_cutLast {mark : String} {cs a b : List Char} (h : cutLast mark cs = some (a, b)) :
    cs = a ++ mark.toList ++ b := by
  induction cs generalizing a with
  | nil =>
    obtain ⟨r, hr, he⟩ := Option.map_eq_some_iff.mp h
    obtain ⟨rfl, rfl⟩ : [] = a ∧ r = b := by simpa using he
    simpa using afterPrefix_eq_some.mp hr
  | cons c cs ih =>
    rw [cutLast] at h
    split at h
    · next a' b' hr =>
      obtain ⟨rfl, rfl⟩ : c :: a' = a ∧ b' = b := by simpa using h
      simpa using ih hr
    · obtain ⟨r, hr, he⟩ := Option.map_eq_some_iff.mp h
      obtain ⟨rfl, rfl⟩ : [] = a ∧ r = b := by simpa using he
      simpa using afterPrefix_eq_some.mp hr

theorem cutLast_eq_none {mark : String} {cs : List Char} :
    cutLast mark cs = none ↔ ¬ Has mark cs := by
  induction cs with
  | nil =>
    simp only [cutLast, Option.map_eq_none_iff, afterPrefix_eq_none, Begins, Has, List.prefix_nil,
      List.infix_nil]
  | cons c cs ih =>
    rw [cutLast]
    split
    · next a b hr =>
      have : ¬ cutLast mark cs = none := by simp [hr]
      rw [ih, Decidable.not_not] at this
      simp only [reduceCtorEq, false_iff, Decidable.not_not, Has]
      exact List.infix_cons_iff.mpr (Or.inr this)
    · next hn =>
      rw [Option.map_eq_none_iff, afterPrefix_eq_none, Has, List.infix_cons_iff]
      exact ⟨fun h hh => hh.elim h (ih.mp hn), fun h hh => h (Or.inl hh)⟩

end LeakTrace.Text
