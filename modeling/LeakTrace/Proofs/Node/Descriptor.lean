import LeakTrace.Node.Descriptor
import LeakTrace.Proofs.Text.Marks

namespace LeakTrace.Node

open Text

variable {mark : String} {cs b : List Char} {n : Node}

/-- What the text of a node holds before its opening parenthesis. -/
def descriptorHead (n : Node) : List Char :=
  n.statement.toList ++ (if n.isRoot then [] else ['i', 'd'])

theorem descriptor_eq (n : Node) :
    n.descriptor = n.descriptorHead ++ '(' :: (ofInt64 n.time ++ [')']) := by
  rw [descriptor, descriptorHead]
  split <;> simp

private theorem descriptorHead_of_isRoot (h : n.isRoot = true) :
    n.descriptorHead = rootStatement.toList := by
  rw [descriptorHead, if_pos h, List.append_nil, of_decide_eq_true h]

theorem descriptorHead_of_not_isRoot (h : n.isRoot = false) :
    n.descriptorHead = n.statement.toList ++ ['i', 'd'] := by
  rw [descriptorHead, h]
  rfl

private theorem read?_cases (h : read? cs = some n) :
    n.isRoot = true ∨ n.isRoot = false ∧ n.statement.toList ≠ [] ∧
      ¬Has "STARTPATH(" (trim cs) ∧ n.statement.toList ++ "id(".toList <+: trim cs := by
  cases hroot : n.isRoot with
  | true => exact .inl rfl
  | false =>
    refine .inr ⟨rfl, ?_⟩
    rw [read?] at h
    split at h
    · next before time _ =>
      obtain ⟨t, -, rfl⟩ := Option.map_eq_some_iff.mp h
      simp [isRoot] at hroot
    · next hnone =>
      split at h
      · next statement time hcut =>
        split at h
        · exact absurd h (by simp)
        · next hstatement =>
          obtain ⟨t, -, rfl⟩ := Option.map_eq_some_iff.mp h
          rw [String.toList_ofList]
          exact ⟨hstatement, cut_eq_none.mp hnone, time, (eq_of_cutLast hcut).symm⟩
      · exact absurd h (by simp)

/-- A character that a time with its closing parenthesis can hold. -/
def TimeChar (c : Char) : Prop := c.isDigit = true ∨ c = '-' ∨ c = ')'

instance (c : Char) : Decidable (TimeChar c) :=
  inferInstanceAs (Decidable (c.isDigit = true ∨ c = '-' ∨ c = ')'))

private theorem timeChar_of_mem {t : Time} {c : Char}
    (h : c ∈ ofInt64 t ++ [')']) : TimeChar c := by
  rcases List.mem_append.mp h with h | h
  · exact (mem_ofInt64 h).imp_right .inl
  · exact .inr (.inr (List.mem_singleton.mp h))

/-- A mark with a character that neither `a` nor a time can hold does not stand in them. -/
theorem not_has_append_time {a : List Char} {c : Char} (hmem : c ∈ mark.toList) (ha : c ∉ a)
    (hc : ¬TimeChar c) (t : Time) : ¬Has mark (a ++ (ofInt64 t ++ [')'])) := by
  intro h
  rcases List.mem_append.mp (h.mem hmem) with hin | hin
  · exact ha hin
  · exact hc (timeChar_of_mem hin)

theorem readTime?_ofInt64 (t : Time) : readTime? (ofInt64 t ++ [')']) = some t := by
  have hnot : ∀ c ∈ ofInt64 t, isBlank c = false ∧ c ≠ ')' := by
    intro c hc
    rcases mem_ofInt64 hc with hdigit | rfl
    · exact ⟨isBlank_of_isDigit hdigit, fun h => absurd (h ▸ hdigit) (by decide)⟩
    · decide
  have hbefore : before ')' (ofInt64 t ++ [')']) = ofInt64 t := by
    rw [before, List.takeWhile_append_of_pos fun c hc => decide_eq_true (hnot c hc).2]
    simp
  have htrim : trim (ofInt64 t) = ofInt64 t :=
    trim_eq_self (fun c hc => (hnot c (List.mem_of_mem_head? hc)).1)
      fun c hc => (hnot c (List.mem_of_mem_getLast? hc)).1
  rw [readTime?, hbefore, htrim, readInt64?_ofInt64]

theorem getLast?_descriptor (n : Node) : n.descriptor.getLast? = some ')' := by
  rw [descriptor, List.getLast?_append]
  rfl

private theorem trim_descriptor (hhead : n.descriptorHead ≠ [])
    (h : ∀ c ∈ n.descriptorHead.head?, isBlank c = false) : trim n.descriptor = n.descriptor := by
  refine trim_eq_self ?_ ?_
  · intro c hc
    rw [descriptor_eq, List.head?_append_of_ne_nil _ hhead] at hc
    exact h c hc
  · intro c hc
    rw [getLast?_descriptor] at hc
    obtain rfl : ')' = c := by simpa using hc
    decide

private theorem read?_descriptor_of_isRoot (h : n.isRoot = true) : read? n.descriptor = some n := by
  have hhead := descriptorHead_of_isRoot h
  have hfirst : ∀ c ∈ n.descriptorHead.head?, isBlank c = false := by
    rw [hhead]
    rintro c ⟨⟩
    decide
  have htrim : trim n.descriptor = n.descriptor :=
    trim_descriptor (by rw [hhead]; decide) hfirst
  have hcut : cut "STARTPATH(" n.descriptor = some ([], ofInt64 n.time ++ [')']) := by
    rw [descriptor_eq, hhead]
    exact cut_of_begins _
  simp only [read?, htrim, hcut, readTime?_ofInt64, Option.map_some]
  rw [← of_decide_eq_true h]

/-- The node is a root, or has a statement that trimming leaves as it is and that does not pass for
a root. -/
def Readable (n : Node) : Prop :=
  n.isRoot = true ∨ n.statement ≠ "" ∧ (∀ c ∈ n.statement.toList.head?, isBlank c = false) ∧
    ¬Has "STARTPATH(" n.statement.toList

instance (n : Node) : Decidable n.Readable :=
  letI : Decidable (∀ c ∈ n.statement.toList.head?, isBlank c = false) :=
    Option.decidableForallMem _
  inferInstanceAs (Decidable (n.isRoot = true ∨ n.statement ≠ "" ∧
    (∀ c ∈ n.statement.toList.head?, isBlank c = false) ∧ ¬Has "STARTPATH(" n.statement.toList))

theorem readable_of_read? (h : read? cs = some n) : n.Readable := by
  rcases read?_cases h with hroot | ⟨-, hstatement, hnot, hbegins⟩
  · exact .inl hroot
  have hfirst : n.statement.toList.head? = (trim cs).head? := by
    obtain ⟨rest, hrest⟩ := hbegins
    rw [← hrest, List.append_assoc, List.head?_append_of_ne_nil _ hstatement]
  refine .inr ⟨by simpa using hstatement, ?_, ?_⟩
  · rw [hfirst]
    exact isBlank_head?_trim
  · intro hhas
    exact hnot (hhas.mono ((List.prefix_append _ _).trans hbegins).isInfix)

theorem trim_descriptor_of_readable (hroot : n.isRoot = false) (h : n.Readable) :
    trim n.descriptor = n.descriptor := by
  obtain ⟨hne, hfirst, -⟩ := h.resolve_left (by simp [hroot])
  have hhead := descriptorHead_of_not_isRoot hroot
  refine trim_descriptor (by rw [hhead]; simp) ?_
  rw [hhead, List.head?_append_of_ne_nil _ (by simpa using hne)]
  exact hfirst

theorem descriptor_of_not_isRoot (hroot : n.isRoot = false) :
    n.descriptor = n.statement.toList ++ "id(".toList ++ (ofInt64 n.time ++ [')']) := by
  rw [descriptor_eq, descriptorHead_of_not_isRoot hroot]
  simp

theorem read?_descriptor_of_readable (h : n.Readable) : read? n.descriptor = some n := by
  cases hroot : n.isRoot with
  | true => exact read?_descriptor_of_isRoot hroot
  | false =>
  obtain ⟨hne, -, hnot⟩ := h.resolve_left (by simp [hroot])
  have hsplit := descriptor_of_not_isRoot hroot
  have hcut : cut "STARTPATH(" n.descriptor = none := by
    -- the mark does not reach over the `i`, and there is no `S` behind it
    have hsides : Has "STARTPATH(" n.descriptor → Has "STARTPATH(" n.statement.toList ∨
        Has "STARTPATH(" ("d(".toList ++ (ofInt64 n.time ++ [')'])) := by
      rw [hsplit, List.append_assoc]
      exact (has_append_cons (c := 'i') (by decide)).mp
    rw [cut_eq_none]
    intro hhas
    rcases hsides hhas with hhas | hhas
    · exact hnot hhas
    · exact not_has_append_time (c := 'S') (by decide) (by decide) (by decide) _ hhas
  have hcutLast :
      cutLast "id(" n.descriptor = some (n.statement.toList, ofInt64 n.time ++ [')']) := by
    rw [hsplit]
    exact cutLast_append (not_has_append_time (c := 'i') (by decide) (by decide) (by decide) _) _
  have hstatement : n.statement.toList ≠ [] := by simpa using hne
  simp only [read?, trim_descriptor_of_readable hroot h, hcut, hcutLast, if_neg hstatement,
    readTime?_ofInt64, Option.map_some, String.ofList_toList]

/-- The text of a node that was read is read as that node. -/
theorem read?_descriptor (h : read? cs = some n) : read? n.descriptor = some n :=
  read?_descriptor_of_readable (readable_of_read? h)

/-- The mark has no parenthesis, and it has a character that neither a root nor a time holds. So the
text of a node has it only where the statement does. -/
def IsForeign (mark : String) : Prop :=
  '(' ∉ mark.toList ∧ ')' ∉ mark.toList ∧
    (mark.toList.any fun c => c ∉ rootStatement.toList ∧ ¬TimeChar c) = true

instance (mark : String) : Decidable (IsForeign mark) :=
  inferInstanceAs (Decidable ('(' ∉ mark.toList ∧ ')' ∉ mark.toList ∧
    (mark.toList.any fun c => c ∉ rootStatement.toList ∧ ¬TimeChar c) = true))

private theorem IsForeign.exists_mem (h : IsForeign mark) :
    ∃ c ∈ mark.toList, c ∉ rootStatement.toList ∧ ¬TimeChar c := by
  simpa only [List.any_eq_true, decide_eq_true_eq] using h.2.2

/-- A mark that stands in the text of a node that was read stood in what it was read from. -/
theorem has_of_has_descriptor (hmark : IsForeign mark) (h : read? cs = some n)
    (hhas : Has mark n.descriptor) : Has mark cs := by
  obtain ⟨c, hmem, hroot, htime⟩ := hmark.exists_mem
  rw [descriptor_eq, has_append_cons hmark.1] at hhas
  rcases hhas with hhas | hhas
  · rcases read?_cases h with hn | ⟨hn, -, -, hbegins⟩
    · rw [descriptorHead_of_isRoot hn] at hhas
      exact absurd (hhas.mem hmem) hroot
    · rw [descriptorHead_of_not_isRoot hn] at hhas
      have hhead : n.statement.toList ++ ['i', 'd'] <+: n.statement.toList ++ "id(".toList :=
        ⟨['('], by simp⟩
      exact hhas.mono ((hhead.trans hbegins).isInfix.trans (trim_isInfix cs))
  · exact absurd hhas (not_has_append_time (a := []) hmem List.not_mem_nil htime _)

/-- A mark without a closing parenthesis does not reach over the end of a node's text. -/
theorem has_descriptor_append (hclose : ')' ∉ mark.toList) :
    Has mark (n.descriptor ++ b) ↔ Has mark n.descriptor ∨ Has mark b := by
  have hempty : Has mark [] → Has mark b := fun h => h.mono List.nil_infix
  rw [descriptor, List.append_assoc _ [')'], List.singleton_append, has_append_cons hclose,
    has_append_cons (b := []) hclose]
  tauto

/-- A text that goes on with a mark behind a node's text is cut there, if what the node was read
from did not have the mark. -/
theorem cut_descriptor (hmark : IsForeign mark) (h : read? cs = some n) (hnot : ¬Has mark cs)
    (b : List Char) : cut mark (n.descriptor ++ mark.toList ++ b) = some (n.descriptor, b) := by
  obtain ⟨c, hmem, -⟩ := hmark.exists_mem
  have hdescriptor : ¬Has mark n.descriptor := fun hhas =>
    hnot (has_of_has_descriptor hmark h hhas)
  have hbehind : ¬Has mark mark.toList.dropLast := not_has_dropLast (List.ne_nil_of_mem hmem)
  refine cut_append ?_ b
  rw [has_descriptor_append hmark.2.1]
  exact not_or.mpr ⟨hdescriptor, hbehind⟩

end LeakTrace.Node
