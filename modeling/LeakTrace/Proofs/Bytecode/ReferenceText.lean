import LeakTrace.Bytecode.Reference
import LeakTrace.Proofs.Bytecode.Descriptors

namespace LeakTrace

open Text

namespace TypeDescriptor

variable {c : Char} {d d' : List Char} {t t' : TypeDescriptor}

theorem Describes.isBlank_head? (h : Describes d t) : ∀ c ∈ d.head?, isBlank c = false := by
  cases h <;> rintro c ⟨⟩ <;> decide

theorem Describes.isBlank_getLast? (h : Describes d t) : ∀ c ∈ d.getLast?, isBlank c = false := by
  induction h with
  | object =>
    intro c hc
    rw [List.getLast?_concat] at hc
    obtain rfl := Option.some.inj hc
    decide
  | array hd ih =>
    rwa [List.getLast?_cons_of_ne_nil hd.ne_nil]
  | _ => rintro c ⟨⟩; decide

private theorem Describes.trim_append (h : Describes d t) (h' : Describes d' t')
    (middle : List Char) :
    trim (d ++ middle ++ d') = d ++ middle ++ d' :=
  trim_framed h.ne_nil h'.ne_nil h.isBlank_head? h'.isBlank_getLast? middle

theorem Describes.read (h : Describes d t) : read d = .ok t := by
  rw [read_eq_ok_iff, trim_eq_self h.isBlank_head? h.isBlank_getLast?]
  exact h

private theorem Describes.not_has_arrow (h : Describes d t)
    (hname : ∀ name ∈ t.className?, ¬Has "->" name.toList) : ¬Has "->" (d ++ ['-']) := by
  induction h with
  | object =>
    rename_i name _ _
    have hnot := hname _ rfl
    rw [String.toList_ofList] at hnot
    have hparts : 'L' :: name ++ [';'] ++ ['-'] = [] ++ 'L' :: (name ++ ';' :: ['-']) := by simp
    rw [hparts, has_append_cons (by decide), has_append_cons (by decide)]
    rintro (hhas | hhas | hhas)
    · exact absurd hhas (by decide)
    · exact hnot (hhas.exchange (by decide))
    · exact absurd hhas (by decide)
  | array _ ih =>
    rename_i d _ _
    have hparts : '[' :: d ++ ['-'] = [] ++ '[' :: (d ++ ['-']) := rfl
    rw [hparts, has_append_cons (by decide)]
    exact fun hhas => hhas.elim (by decide) (ih hname)
  | _ => decide

private theorem Describes.close_not_mem (h : Describes d t)
    (hname : ∀ name ∈ t.className?, ')' ∉ name.toList) : ')' ∉ d := by
  induction h with
  | object =>
    rename_i name _ _
    have hnot := hname _ rfl
    rw [String.toList_ofList] at hnot
    have hin : ')' ∉ name := fun hmem => hnot (mem_exchange_of_ne (by decide) hmem)
    simpa using hin
  | array _ ih => simpa using ih hname
  | _ => decide

end TypeDescriptor

open TypeDescriptor

/-- The types of the reference have descriptors, and neither these nor its name hold a mark at which the
text is cut before. -/
structure MethodRef.IsWritable (m : MethodRef) : Prop where
  described : ∀ t ∈ m.cls :: m.result :: m.parameters, t.Describable
  no_arrow : ∀ name ∈ m.cls.className?, ¬Has "->" name.toList
  no_open : '(' ∉ m.name.toList
  no_close : ∀ t ∈ m.parameters, ∀ name ∈ t.className?, ')' ∉ name.toList

/-- The same for a field, whose type ends the text. -/
structure FieldRef.IsWritable (f : FieldRef) : Prop where
  described : f.cls.Describable ∧ f.type.Describable
  no_arrow : ∀ name ∈ f.cls.className?, ¬Has "->" name.toList
  no_colon : ':' ∉ f.name.toList

namespace MethodRef

variable {m : MethodRef}

private theorem ofParts_encode (h : m.IsWritable) :
    ofParts m.cls.encode m.encodeMember = .ok m := by
  have hcls := h.described m.cls (by simp)
  have hresult := h.described m.result (by simp)
  have hparameters : ∀ t ∈ m.parameters, t.Describable := fun t ht => h.described t (by simp [ht])
  have hname : cut "(" m.encodeMember =
      some (m.name.toList, m.parameters.flatMap TypeDescriptor.encode ++ ')' :: m.result.encode) := by
    rw [encodeMember, List.append_assoc, List.cons_append]
    exact cut_append_cons rfl h.no_open _
  have hclose : ')' ∉ m.parameters.flatMap TypeDescriptor.encode := by
    intro hmem
    obtain ⟨t, ht, hmem⟩ := List.mem_flatMap.mp hmem
    exact (hparameters t ht).describes.close_not_mem (h.no_close t ht) hmem
  rw [ofParts, hname]
  dsimp only
  rw [cut_append_cons rfl hclose, hcls.describes.read]
  dsimp only
  rw [readList_encode_iff.mpr hparameters, hresult.describes.read, String.ofList_toList]
  rfl

private theorem read_encode (h : m.IsWritable) : read m.encode = .ok m := by
  have hcls := (h.described m.cls (by simp)).describes
  have hresult := (h.described m.result (by simp)).describes
  have htrim : trim m.encode = m.encode := by
    have hparts : m.encode = m.cls.encode ++ ("->".toList ++ (m.name.toList ++
        '(' :: m.parameters.flatMap TypeDescriptor.encode ++ [')'])) ++ m.result.encode := by
      simp [encode, encodeMember]
    rw [hparts]
    exact hcls.trim_append hresult _
  rw [read, htrim, encode, cut_append (hcls.not_has_arrow h.no_arrow)]
  exact ofParts_encode h

end MethodRef

namespace FieldRef

variable {f : FieldRef}

private theorem read_encode (h : f.IsWritable) : read f.encode = .ok f := by
  have hcls := h.described.1.describes
  have htype := h.described.2.describes
  have htrim : trim f.encode = f.encode := by
    have hparts : f.encode = f.cls.encode ++ ("->".toList ++ (f.name.toList ++ [':'])) ++
        f.type.encode := by
      simp [encode]
    rw [hparts]
    exact hcls.trim_append htype _
  have hmember : f.encode = f.cls.encode ++ "->".toList ++ (f.name.toList ++ ':' :: f.type.encode) := by
    simp [encode]
  rw [read, htrim, hmember, cut_append (hcls.not_has_arrow h.no_arrow)]
  dsimp only
  rw [cut_append_cons rfl h.no_colon, hcls.read]
  dsimp only
  rw [htype.read, String.ofList_toList]
  rfl

end FieldRef

/-- A method is read back from its reference, whole or in two halves, and a field from its own. -/
theorem references_read_back :
    (∀ m : MethodRef, m.IsWritable →
      MethodRef.read m.encode = .ok m ∧ MethodRef.ofParts m.cls.encode m.encodeMember = .ok m) ∧
    ∀ f : FieldRef, f.IsWritable → FieldRef.read f.encode = .ok f := by
  refine ⟨fun m hm => ⟨MethodRef.read_encode hm, MethodRef.ofParts_encode hm⟩, fun f hf => ?_⟩
  exact FieldRef.read_encode hf

/-- A method of an array class whose name holds an arrow, and a field whose name does. -/
def arrowedMethod : MethodRef :=
  ⟨.array (.object "a.B)-"), "<init>->x)", [.int, .array (.object "->(")], .array .void⟩

def arrowedField : FieldRef := ⟨.object "a.B:", "->(x)", .array (.object "a->b:c")⟩

theorem arrowed_read_back :
    (arrowedMethod.IsWritable ∧ MethodRef.read arrowedMethod.encode = .ok arrowedMethod ∧
      MethodRef.ofParts "[La/B)-;".toList "<init>->x)(I[L->(;)[V".toList = .ok arrowedMethod) ∧
      arrowedField.IsWritable ∧
      FieldRef.read "La/B:;->->(x):[La->b:c;".toList = .ok arrowedField := by
  have hm : arrowedMethod.IsWritable := ⟨by decide, by decide, by decide, by decide⟩
  have hf : arrowedField.IsWritable := ⟨by decide, by decide, by decide⟩
  obtain ⟨hmethods, hfields⟩ := references_read_back
  obtain ⟨hread, hparts⟩ := hmethods arrowedMethod hm
  have hcls : arrowedMethod.cls.encode = "[La/B)-;".toList := by decide
  have hmember : arrowedMethod.encodeMember = "<init>->x)(I[L->(;)[V".toList := by decide
  have hfield : arrowedField.encode = "La/B:;->->(x):[La->b:c;".toList := by decide
  rw [hcls, hmember] at hparts
  exact ⟨⟨hm, hread, hparts⟩, hf, hfield ▸ hfields arrowedField hf⟩

end LeakTrace
