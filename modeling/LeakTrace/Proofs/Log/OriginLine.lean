import LeakTrace.Log.Reading
import LeakTrace.Proofs.Node.Descriptor

namespace LeakTrace

open Text

namespace Node

/-- The line of a log that announces the node. -/
def originLine (n : Node) : String := Reading.sourceMark ++ n.text

end Node

namespace Reading

/-- The marks that decide what a line is before the mark of a source does. -/
def decisiveMarks : List String :=
  [tag, parcelMark, fileMark, dumpMark, sinkMark, reflectiveMark]

variable {mark : String} {n : Node}

private theorem toList_originLine (n : Node) :
    n.originLine.toList = sourceMark.toList ++ n.descriptor := by
  simp [Node.originLine, Node.text]

theorem has_sourceMark_append (hmark : mark ∈ decisiveMarks) {cs : List Char} :
    Has mark (sourceMark.toList ++ cs) ↔ Has mark cs := by
  have hforeign : ∀ m ∈ decisiveMarks,
      ∀ s ∈ sourceMark.toList.tails, s ≠ [] → ¬s <+: m.toList ∧ ¬m.toList <+: s := by
    decide +kernel
  exact has_append_left (hforeign mark hmark)

private theorem has_of_has_originLine (hmark : mark ∈ decisiveMarks) (hroot : n.isRoot = false)
    (h : Has mark n.originLine.toList) : Has mark n.statement.toList := by
  have hforeign : ∀ m ∈ decisiveMarks, '(' ∉ m.toList ∧
      (m.toList.any fun c => ¬Node.TimeChar c) = true ∧
      ∀ s ∈ ['i', 'd'].inits, s ≠ [] → ¬s <:+ m.toList ∧ ¬m.toList <:+ s := by
    decide +kernel
  obtain ⟨hparen, hany, hright⟩ := hforeign mark hmark
  obtain ⟨c, hc, htime⟩ := List.any_eq_true.mp hany
  rw [toList_originLine, has_sourceMark_append hmark, Node.descriptor_eq,
    Node.descriptorHead_of_not_isRoot hroot, has_append_cons hparen, has_append_right hright] at h
  exact h.resolve_right (Node.not_has_append_time (a := []) hc List.not_mem_nil (of_decide_eq_true htime) _)

private theorem payload_originLine (htag : ¬Has tag n.originLine.toList) :
    payload n.originLine.toList = n.originLine.toList := by
  have hlast : n.originLine.toList.getLast? = some ')' := by
    rw [toList_originLine, List.getLast?_append, Node.getLast?_descriptor]
    rfl
  rw [payload, cut_eq_none.mpr htag]
  refine trimEnd_eq_self ?_
  rw [Option.map_none, Option.getD_none, hlast]
  rintro c ⟨⟩
  decide

/-- A source line that no other mark takes away announces an origin, or describes one. -/
theorem ofLine_originLine (hroot : n.isRoot = false)
    (hmarks : ∀ m ∈ decisiveMarks, ¬Has m n.statement.toList) :
    ofLine n.originLine = ofSource n.descriptor := by
  have hnot : ∀ m ∈ decisiveMarks, ¬Has m n.originLine.toList := fun m hm hhas =>
    hmarks m hm (has_of_has_originLine hm hroot hhas)
  simp only [decisiveMarks, List.forall_mem_cons] at hnot
  obtain ⟨htag, hparcel, hfile, hdump, hsink, hreflective, -⟩ := hnot
  have hsource : cut sourceMark n.originLine.toList = some ([], n.descriptor) := by
    rw [toList_originLine]
    exact cut_of_begins _
  rw [ofLine, payload_originLine htag, ofPayload]
  simp only [cut_eq_none.mpr hparcel, cut_eq_none.mpr hfile, cut_eq_none.mpr hdump,
    cut_eq_none.mpr hsink, hsource, if_neg hreflective]

private theorem ofSource_descriptor (hroot : n.isRoot = false) (hread : n.Readable)
    (hclosed : n.statement.toList.getLast? = some ')') :
    ofSource n.descriptor = ⟨.record (.origin n), [n.statement]⟩ := by
  obtain ⟨opened, hopened⟩ := List.getLast?_eq_some_iff.mp hclosed
  have hsplit : n.descriptor = opened ++ ")id(".toList ++ (ofInt64 n.time ++ [')']) := by
    rw [Node.descriptor_of_not_isRoot hroot, hopened]
    simp
  have hlater : ¬Has ")id(" (")id(".toList.tail ++ (ofInt64 n.time ++ [')'])) := by
    rw [has_append_left (by decide)]
    exact Node.not_has_append_time (a := []) (c := 'i') (by decide) List.not_mem_nil (by decide) _
  have hcut : cutLast ")id(" n.descriptor = some (opened, ofInt64 n.time ++ [')']) := by
    rw [hsplit]
    exact cutLast_append hlater opened
  simp only [ofSource, Node.trim_descriptor_of_readable hroot hread, hcut,
    Node.readTime?_ofInt64, ← hopened, String.ofList_toList]

/-- The text of a node reads back exactly if the node is readable; and its origin line tells a
readable node of a closed statement, if the statement has no decisive mark. -/
theorem node_text_read_back (n : Node) :
    (Node.read? n.text.toList = some n ↔ n.Readable) ∧
      (n.isRoot = false → n.Readable → n.statement.toList.getLast? = some ')' →
        (∀ mark ∈ decisiveMarks, ¬Has mark n.statement.toList) →
        ofLine n.originLine = ⟨.record (.origin n), [n.statement]⟩) := by
  have htext : n.text.toList = n.descriptor := by simp [Node.text]
  constructor
  · rw [htext]
    exact ⟨Node.readable_of_read?, Node.read?_descriptor_of_readable⟩
  · intro hroot hread hclosed hmarks
    rw [ofLine_originLine hroot hmarks, ofSource_descriptor hroot hread hclosed]

/-- A node before the beginning of time, whose statement holds both delimiters. -/
def delimiterNode : Node := ⟨-42, "Lcom/app/Ids;->id(I)id(7)V(3)"⟩

theorem delimiterNode_read_back :
    Node.read? delimiterNode.text.toList = some delimiterNode ∧
      ofLine delimiterNode.originLine =
        ⟨.record (.origin delimiterNode), [delimiterNode.statement]⟩ := by
  have hread : delimiterNode.Readable := by decide +kernel
  obtain ⟨hiff, horigin⟩ := node_text_read_back delimiterNode
  exact ⟨hiff.mpr hread, horigin (by decide) hread (by decide +kernel) (by decide +kernel)⟩

end Reading

end LeakTrace
