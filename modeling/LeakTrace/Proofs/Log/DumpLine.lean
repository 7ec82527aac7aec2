import LeakTrace.Log.Reading
import LeakTrace.Proofs.Node.Descriptor

namespace LeakTrace

open Text

namespace Fragment

/-- The nodes that the fragment's node was derived from, as a dump line writes them. -/
def predecessorText (f : Fragment) : List Char :=
  f.left.descriptor ++ (f.right.map fun right => "->right->".toList ++ right.descriptor).getD []

/-- What a dump line says of the fragment's nodes. -/
def record (f : Fragment) : List Char :=
  f.node.descriptor ++ "->left->".toList ++ f.predecessorText

def dumpPayload (graph : GraphId) (f : Fragment) : List Char :=
  Reading.dumpMark.toList ++ (ofUInt64 graph ++ ": ->".toList ++ f.record)

/-- The line of a log that dumps the fragment into the graph. -/
def dumpLine (graph : GraphId) (f : Fragment) : String :=
  String.ofList (Reading.tag.toList ++ f.dumpPayload graph)

example : dumpLine 5 ⟨⟨3, "La;->c(I)V(3)"⟩, ⟨2, "La;->b()V(2)"⟩, some ⟨1, "STARTPATH"⟩⟩ =
    "System.out: DumpTaint-5: ->La;->c(I)V(3)id(3)->left->La;->b()V(2)id(2)" ++
      "->right->STARTPATH(1)" := by
  decide +kernel

end Fragment

namespace Reading

variable {mark : String} {graph : GraphId} {f : Fragment} {text : List Char}

/-- The parts of a text that the nodes of a fragment were read from. -/
structure DumpParts (text : List Char) (f : Fragment) where
  node : List Char
  left : List Char
  right : Option (List Char)
  node_in : node <:+: text
  left_in : left <:+: text
  right_in : ∀ cs ∈ right, cs <:+: text
  read_node : Node.read? node = some f.node
  read_left : Node.read? left = some f.left
  read_right : right.map Node.read? = f.right.map some
  not_left_in_node : ¬Has "->left->" node
  not_right_in_left : ¬Has "->right->" left

private theorem content_ofDescriptors {g : GraphId} {node left : List Char}
    {right : Option (List Char)} :
    (ofDescriptors g node left right).content = .record (.dump graph f) ↔
      g = graph ∧ Node.read? node = some f.node ∧ Node.read? left = some f.left ∧
        right.map Node.read? = f.right.map some := by
  obtain ⟨n, l, r⟩ := f
  cases hnode : Node.read? node with
  | none => simp [ofDescriptors, hnode, fault]
  | some node =>
    cases hleft : Node.read? left with
    | none => simp [ofDescriptors, hnode, hleft, fault]
    | some left =>
      cases right with
      | none => cases r <;> simp [ofDescriptors, hnode, hleft]
      | some right =>
        cases hright : Node.read? right with
        | none => cases r <;> simp [ofDescriptors, hnode, hleft, hright, fault]
        | some right => cases r <;> simp [ofDescriptors, hnode, hleft, hright]

private theorem content_ofDump : (ofDump text).content = .record (.dump graph f) ↔
    ∃ id record node predecessors, cut ": ->" text = some (id, record) ∧
      readUInt64? id = some graph ∧ cut "->left->" record = some (node, predecessors) ∧
      Node.read? node = some f.node ∧
      Node.read? (cutPredecessors predecessors).1 = some f.left ∧
      (cutPredecessors predecessors).2.map Node.read? = f.right.map some := by
  cases hid : cut ": ->" text with
  | none => simp [ofDump, hid, fault]
  | some parts =>
    obtain ⟨id, record⟩ := parts
    cases hgraph : readUInt64? id with
    | none => simp [ofDump, hid, hgraph, fault]
    | some g =>
      cases hnode : cut "->left->" record with
      | none => simp [ofDump, hid, hgraph, hnode, fault]
      | some parts =>
        obtain ⟨node, predecessors⟩ := parts
        simp [ofDump, hid, hgraph, hnode, content_ofDescriptors]

private theorem content_ofPayload (h : (ofPayload text).content = .record (.dump graph f)) :
    ¬Has parcelMark text ∧ ¬Has fileMark text ∧
      ∃ head tail, cut dumpMark text = some (head, tail) ∧
        (ofDump tail).content = .record (.dump graph f) := by
  have hboundary (id : List Char) : (ofBoundary id).content ≠ .record (.dump graph f) := by
    rw [ofBoundary]
    split <;> simp [fault]
  have hsink (body : List Char) : (ofSink body).content ≠ .record (.dump graph f) := by
    rw [ofSink]
    split <;> simp [fault]
  have hreflective (p : List Char) : (ofReflective p).content ≠ .record (.dump graph f) := by
    rw [ofReflective]
    repeat' split
    all_goals simp [fault]
  have hsource (body : List Char) : (ofSource body).content ≠ .record (.dump graph f) := by
    rw [ofSource]
    repeat' split
    all_goals simp [fault]
  cases hparcel : cut parcelMark text with
  | some parts => exact absurd h (by simp [ofPayload, hparcel, hboundary])
  | none =>
  cases hfile : cut fileMark text with
  | some parts => exact absurd h (by simp [ofPayload, hparcel, hfile, hboundary])
  | none =>
  refine ⟨cut_eq_none.mp hparcel, cut_eq_none.mp hfile, ?_⟩
  cases hdump : cut dumpMark text with
  | some parts => exact ⟨parts.1, parts.2, rfl, by simpa [ofPayload, hparcel, hfile, hdump] using h⟩
  | none =>
  simp only [ofPayload, hparcel, hfile, hdump] at h
  split at h
  · exact absurd h (hsink _)
  · split at h
    · split at h
      · exact absurd h (hreflective _)
      · exact absurd h (hsource _)
    · exact absurd h (by simp)

private theorem cutPredecessors_cases (cs : List Char) :
    ¬Has "->right->" (cutPredecessors cs).1 ∧ (cutPredecessors cs).1 <:+: cs ∧
      ∀ right ∈ (cutPredecessors cs).2, right <:+: cs := by
  rw [cutPredecessors]
  split
  · next left right hcut =>
    have heq := eq_of_cut hcut
    refine ⟨not_has_of_cut hcut (by decide), ?_, ?_⟩
    · exact ⟨[], "->right->".toList ++ right, by simp [heq]⟩
    · rintro cs ⟨⟩
      exact ⟨left ++ "->right->".toList, [], by simp [heq]⟩
  · next hcut => exact ⟨cut_eq_none.mp hcut, List.infix_rfl, by simp⟩

private theorem dumpParts_of_ofDump (h : (ofDump text).content = .record (.dump graph f)) :
    Nonempty (DumpParts text f) := by
  obtain ⟨id, record, node, predecessors, hid, -, hnode, hn, hl, hr⟩ := content_ofDump.mp h
  obtain ⟨hstop, hleft, hright⟩ := cutPredecessors_cases predecessors
  have hrecord : record <:+: text := ⟨id ++ ": ->".toList, [], by simp [eq_of_cut hid]⟩
  have hinside : node <:+: record :=
    ⟨[], "->left->".toList ++ predecessors, by simp [eq_of_cut hnode]⟩
  have hpredecessors : predecessors <:+: text :=
    List.IsInfix.trans ⟨node ++ "->left->".toList, [], by simp [eq_of_cut hnode]⟩ hrecord
  exact ⟨{
    node, left := (cutPredecessors predecessors).1, right := (cutPredecessors predecessors).2
    node_in := hinside.trans hrecord
    left_in := hleft.trans hpredecessors
    right_in := fun cs hcs => (hright cs hcs).trans hpredecessors
    read_node := hn
    read_left := hl
    read_right := hr
    not_left_in_node := not_has_of_cut hnode (by decide)
    not_right_in_left := hstop }⟩

namespace DumpParts

private theorem read_descriptors (parts : DumpParts text f) :
    Node.read? f.node.descriptor = some f.node ∧ Node.read? f.left.descriptor = some f.left ∧
      (f.right.map Node.descriptor).map Node.read? = f.right.map some := by
  refine ⟨Node.read?_descriptor parts.read_node, Node.read?_descriptor parts.read_left, ?_⟩
  have hright := parts.read_right
  cases hr : f.right with
  | none => rfl
  | some right =>
    rw [hr] at hright
    obtain ⟨cs, -, hcs⟩ := Option.map_eq_some_iff.mp hright
    exact congrArg some (Node.read?_descriptor hcs)

private theorem cutPredecessors_text (parts : DumpParts text f) :
    cutPredecessors f.predecessorText = (f.left.descriptor, f.right.map Node.descriptor) := by
  rw [cutPredecessors, Fragment.predecessorText]
  cases f.right with
  | none =>
    have hnot : ¬Has "->right->" f.left.descriptor := fun h =>
      parts.not_right_in_left (Node.has_of_has_descriptor (by decide) parts.read_left h)
    rw [Option.map_none, Option.getD_none, List.append_nil, cut_eq_none.mpr hnot]
    rfl
  | some right =>
    rw [Option.map_some, Option.getD_some, ← List.append_assoc,
      Node.cut_descriptor (by decide) parts.read_left parts.not_right_in_left]
    rfl

private theorem cut_record (parts : DumpParts text f) :
    cut "->left->" f.record = some (f.node.descriptor, f.predecessorText) :=
  Node.cut_descriptor (by decide) parts.read_node parts.not_left_in_node f.predecessorText

private theorem content_ofDump_record (parts : DumpParts text f) (graph : GraphId) :
    (ofDump (ofUInt64 graph ++ ": ->".toList ++ f.record)).content = .record (.dump graph f) := by
  have hid : ¬Has ": ->" (ofUInt64 graph ++ ": ->".toList.dropLast) := by
    intro h
    rcases List.mem_append.mp (h.mem (c := '>') (by decide)) with hdigit | hmark
    · exact absurd (isDigit_of_mem_digits hdigit) (by decide)
    · exact absurd hmark (by decide)
  refine content_ofDump.mpr ⟨_, _, _, _, cut_append hid _, readUInt64?_ofUInt64 graph,
    parts.cut_record, ?_⟩
  rw [parts.cutPredecessors_text]
  exact parts.read_descriptors

/-- A mark of words does not reach over the characters that part a dump line, so it stands there
only if it stood in the text that the nodes were read from. The letter is one that the line's own
words do not have. -/
theorem has_of_has_dumpPayload (parts : DumpParts text f) (hmark : Node.IsForeign mark)
    (harrow : '>' ∉ mark.toList) (hword : 'o' ∈ mark.toList)
    (h : Has mark (f.dumpPayload graph)) : Has mark text := by
  have hnode {n : Node} {cs : List Char} (hread : Node.read? cs = some n) (hin : cs <:+: text)
      (h : Has mark n.descriptor) : Has mark text :=
    (Node.has_of_has_descriptor hmark hread h).mono hin
  have hsplit : f.dumpPayload graph =
      (dumpMark.toList ++ ofUInt64 graph ++ ": -".toList) ++ '>' :: f.record := by
    simp [Fragment.dumpPayload]
  rw [hsplit, has_append_cons harrow, Fragment.record, List.append_assoc f.node.descriptor,
    Node.has_descriptor_append hmark.2.1] at h
  rcases h with h | h | h
  · rcases List.mem_append.mp (h.mem hword) with hin | hin
    · rcases List.mem_append.mp hin with hin | hin
      · exact absurd hin (by decide)
      · exact absurd (isDigit_of_mem_digits hin) (by decide)
    · exact absurd hin (by decide)
  · exact hnode parts.read_node parts.node_in h
  change Has mark ("->left-".toList ++ '>' :: f.predecessorText) at h
  rw [has_append_cons harrow, Fragment.predecessorText,
    Node.has_descriptor_append hmark.2.1] at h
  rcases h with h | h | h
  · exact absurd (h.mem hword) (by decide)
  · exact hnode parts.read_left parts.left_in h
  cases hr : f.right with
  | none =>
    rw [hr] at h
    exact absurd (h.mem hword) (by simp)
  | some right =>
    have hright := parts.read_right
    rw [hr] at h hright
    obtain ⟨cs, hcs, hread⟩ := Option.map_eq_some_iff.mp hright
    change Has mark ("->right-".toList ++ '>' :: right.descriptor) at h
    rw [has_append_cons harrow] at h
    rcases h with h | h
    · exact absurd (h.mem hword) (by decide)
    · exact hnode hread (parts.right_in cs hcs) h

end DumpParts

private theorem payload_dumpLine (graph : GraphId) (f : Fragment) :
    payload (f.dumpLine graph).toList = f.dumpPayload graph := by
  have hpredecessors : f.predecessorText.getLast? = some ')' := by
    rw [Fragment.predecessorText]
    cases f.right with
    | none => rw [Option.map_none, Option.getD_none, List.append_nil, Node.getLast?_descriptor]
    | some right =>
      rw [Option.map_some, Option.getD_some, List.getLast?_append, List.getLast?_append,
        Node.getLast?_descriptor]
      rfl
  have hlast : (f.dumpPayload graph).getLast? = some ')' := by
    rw [Fragment.dumpPayload, Fragment.record, List.getLast?_append, List.getLast?_append,
      List.getLast?_append, hpredecessors]
    rfl
  rw [payload, Fragment.dumpLine, String.toList_ofList, cut_of_begins]
  refine trimEnd_eq_self ?_
  rw [Option.map_some, Option.getD_some, hlast]
  rintro c ⟨⟩
  decide

/-- A line that was read as a dump and the line of the fragment that it tells are read as the
same. -/
theorem ofLine_dumpLine {line : String} (h : (ofLine line).content = .record (.dump graph f)) :
    (ofLine (f.dumpLine graph)).content = .record (.dump graph f) := by
  obtain ⟨hparcel, hfile, head, tail, hcut, hdump⟩ := content_ofPayload h
  obtain ⟨parts⟩ := dumpParts_of_ofDump hdump
  have htail : tail <:+: payload line.toList :=
    ⟨head ++ dumpMark.toList, [], by rw [List.append_nil]; exact (eq_of_cut hcut).symm⟩
  have hnoParcel : cut parcelMark (f.dumpPayload graph) = none := by
    rw [cut_eq_none]
    intro hhas
    exact hparcel
      ((parts.has_of_has_dumpPayload (by decide) (by decide) (by decide) hhas).mono htail)
  have hnoFile : cut fileMark (f.dumpPayload graph) = none := by
    rw [cut_eq_none]
    intro hhas
    exact hfile
      ((parts.has_of_has_dumpPayload (by decide) (by decide) (by decide) hhas).mono htail)
  have hmark : cut dumpMark (f.dumpPayload graph) =
      some ([], ofUInt64 graph ++ ": ->".toList ++ f.record) := by
    rw [Fragment.dumpPayload]
    exact cut_of_begins _
  rw [ofLine, payload_dumpLine, ofPayload]
  simp only [hnoParcel, hnoFile, hmark]
  exact parts.content_ofDump_record graph

/-- A log line of another make: text before the tag and the mark, signs and zeros in the numbers,
text around the root, and white space around nodes whose statements hold marks themselves. -/
def looseDumpLine : String :=
  "x System.out: y DumpTaint-+05: -> La;->id(I)V(3)id( 7 )z" ++
    "->left->aSTARTPATH(8)b->right->c->left->d id(9)"

def looseDump : Fragment := ⟨⟨7, "La;->id(I)V(3)"⟩, ⟨8, "STARTPATH"⟩, some ⟨9, "c->left->d "⟩⟩

theorem looseDumpLine_dumpLine :
    (ofLine looseDumpLine).content = .record (.dump 5 looseDump) ∧
      (ofLine (looseDump.dumpLine 5)).content = .record (.dump 5 looseDump) := by
  have hread : (ofLine looseDumpLine).content = .record (.dump 5 looseDump) := by decide +kernel
  exact ⟨hread, ofLine_dumpLine hread⟩

end Reading

end LeakTrace
