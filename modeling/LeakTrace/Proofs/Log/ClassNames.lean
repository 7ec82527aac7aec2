import LeakTrace.Output.Rows
import LeakTrace.Proofs.Bytecode.Descriptors
import LeakTrace.Proofs.Log.OriginLine
import LeakTrace.Proofs.Log.SinkBinding

namespace LeakTrace

open Text

/-- A character of a name: no white space, and none that separates names. -/
def NameChar (c : Char) : Prop := isBlank c = false ∧ c ∉ "/.;:->()[,".toList

instance : DecidablePred NameChar := fun _ => inferInstanceAs (Decidable (_ ∧ _))

/-- Letters, digits, underscores and dollar signs, and at least one of them. -/
def isIdentifier (cs : List Char) : Bool :=
  cs ≠ [] && cs.all fun c => c.isAlphanum || c = '_' || c = '$'

private theorem nameChar_of_identifier {cs : List Char} {c : Char} (h : isIdentifier cs = true)
    (hc : c ∈ cs) :
    NameChar c := by
  simp only [isIdentifier, Bool.and_eq_true, List.all_eq_true, Bool.or_eq_true,
    decide_eq_true_eq] at h
  rcases h.2 c hc with (halphanum | rfl) | rfl
  · refine ⟨isBlank_of_isAlphanum halphanum, fun hseparator => ?_⟩
    have hnone : "/.;:->()[,".toList.any Char.isAlphanum = false := by decide
    exact List.any_eq_false.mp hnone c hseparator halphanum
  · decide
  · decide

/-- Names, with no other separators than these. -/
def NamesWith (separators : String) (cs : List Char) : Prop :=
  ∀ c ∈ cs, NameChar c ∨ c ∈ separators.toList

instance (separators : String) : DecidablePred (NamesWith separators) := List.decidableBAll _

namespace NamesWith

variable {separators separators' : String} {cs : List Char} {c : Char}

private theorem not_mem (h : NamesWith separators cs) (hc : ¬NameChar c)
    (hseparator : c ∉ separators.toList) :
    c ∉ cs := fun hmem => (h c hmem).elim hc hseparator

private theorem not_isBlank (h : NamesWith separators cs)
    (hseparators : separators.toList.any isBlank = false) : ∀ c ∈ cs, isBlank c = false := by
  intro c hmem
  rcases h c hmem with hname | hseparator
  · exact hname.1
  · exact Bool.of_not_eq_true (List.any_eq_false.mp hseparators c hseparator)

theorem mono (h : NamesWith separators cs) (hsub : separators.toList ⊆ separators'.toList) :
    NamesWith separators' cs := fun c hmem => (h c hmem).imp_right fun hc => hsub hc

@[simp] theorem namesWith_append {a b : List Char} :
    NamesWith separators (a ++ b) ↔ NamesWith separators a ∧ NamesWith separators b :=
  List.forall_mem_append

@[simp] theorem namesWith_cons :
    NamesWith separators (c :: cs) ↔ (NameChar c ∨ c ∈ separators.toList) ∧ NamesWith separators cs :=
  List.forall_mem_cons

end NamesWith

/-- A class name, with slashes between its parts. -/
structure ClassName where
  text : List Char
  ne_nil : text ≠ []
  chars : NamesWith "/" text

/-- The class name that is made of these parts. -/
def ClassName.ofIdentifiers (parts : List (List Char)) (hne : parts ≠ [])
    (hparts : parts.all isIdentifier = true) : ClassName where
  text := ['/'].intercalate parts
  ne_nil := by
    obtain ⟨first, rest, rfl⟩ := List.exists_cons_of_ne_nil hne
    have hfirst : first ≠ [] := by
      have hidentifier := List.all_eq_true.mp hparts first List.mem_cons_self
      simp only [isIdentifier, Bool.and_eq_true, decide_eq_true_eq] at hidentifier
      exact hidentifier.1
    cases rest with
    | nil => simpa using hfirst
    | cons second rest => simp [List.intercalate_cons_cons, hfirst]
  chars c hc := by
    rcases mem_or_of_mem_intercalate hc with hslash | ⟨part, hpart, hc⟩
    · exact .inr hslash
    · exact .inl (nameChar_of_identifier (List.all_eq_true.mp hparts part hpart) hc)

/-- How a class is written. -/
inductive Spelling
  | descriptor
  | slashed
  | dotted
deriving DecidableEq, Repr

namespace ClassName

variable (n : ClassName)

def descriptor : List Char := 'L' :: n.text ++ [';']

def dotted : List Char := exchange '/' '.' n.text

def spell : Spelling → List Char
  | .descriptor => n.descriptor
  | .slashed => n.text
  | .dotted => n.dotted

theorem getLast?_descriptor : n.descriptor.getLast? = some ';' := List.getLast?_concat

private theorem descriptor_chars : NamesWith "/;" n.descriptor := by
  rw [descriptor, NamesWith.namesWith_append, NamesWith.namesWith_cons]
  exact ⟨⟨.inl (by decide), n.chars.mono (by decide)⟩, by decide⟩

private theorem dotted_chars : NamesWith "." n.dotted := by
  intro c hc
  by_cases hdot : c = '.'
  · exact .inr (by simp [hdot])
  · have hslash : c ≠ '/' := fun h => not_mem_exchange (by decide) (h ▸ hc)
    exact .inl ((n.chars c (mem_exchange hdot hc)).resolve_right (by simpa using hslash))

private theorem spell_chars (s : Spelling) : NamesWith "/.;" (n.spell s) := by
  cases s with
  | descriptor => exact n.descriptor_chars.mono (by decide)
  | slashed => exact n.chars.mono (by decide)
  | dotted => exact n.dotted_chars.mono (by decide)

private theorem spell_ne_nil (s : Spelling) : n.spell s ≠ [] := by
  cases s with
  | descriptor => simp [spell, descriptor]
  | slashed => exact n.ne_nil
  | dotted => simpa [spell, dotted, exchange] using n.ne_nil

private theorem read_descriptor :
    TypeDescriptor.read n.descriptor = .ok (.object (String.ofList n.dotted)) := by
  rw [TypeDescriptor.read_eq_ok_iff, trim_eq_self]
  · exact .object n.ne_nil (n.chars.not_mem (by decide) (by decide))
  · rintro c ⟨⟩
    decide
  · rw [n.getLast?_descriptor]
    rintro c ⟨⟩
    decide

end ClassName

namespace Reading

private theorem dottedClass_of_not_mem {cls : List Char} (h : ';' ∉ cls) :
    dottedClass cls = exchange '/' '.' cls := by
  have hnone : (afterPrefix "L" cls).bind (beforeSuffix ";") = none := by
    rw [Option.bind_eq_none_iff]
    intro rest hrest
    rw [Option.eq_none_iff_forall_ne_some]
    intro name hname
    rw [afterPrefix_eq_some, beforeSuffix_eq_some.mp hname] at hrest
    exact h (by rw [hrest]; simp)
  rw [dottedClass, hnone]
  rfl

private theorem dottedClass_spell (n : ClassName) (s : Spelling) :
    dottedClass (n.spell s) = n.dotted := by
  cases s with
  | descriptor =>
    have hafter : afterPrefix "L" n.descriptor = some (n.text ++ ";".toList) :=
      afterPrefix_eq_some.mpr rfl
    have hbefore : beforeSuffix ";" (n.text ++ ";".toList) = some n.text :=
      beforeSuffix_eq_some.mpr rfl
    rw [ClassName.spell, dottedClass, hafter, Option.bind_some, hbefore]
    rfl
  | slashed => exact dottedClass_of_not_mem (n.chars.not_mem (by decide) (by decide))
  | dotted =>
    rw [ClassName.spell, dottedClass_of_not_mem (n.dotted_chars.not_mem (by decide) (by decide))]
    exact exchange_eq_self (not_mem_exchange (by decide))

end Reading

namespace Sink

private theorem classDescriptor_of_not_mem {cls : List Char} (h : ';' ∉ cls) :
    classDescriptor cls = 'L' :: exchange '.' '/' cls ++ [';'] := by
  rw [classDescriptor, if_neg]
  rintro ⟨-, hlast⟩
  exact h (List.mem_of_getLast? hlast)

private theorem classDescriptor_spell (n : ClassName) (s : Spelling) :
    classDescriptor (n.spell s) = n.descriptor := by
  cases s with
  | descriptor => exact if_pos ⟨rfl, n.getLast?_descriptor⟩
  | slashed =>
    rw [ClassName.spell, classDescriptor_of_not_mem (n.chars.not_mem (by decide) (by decide)),
      exchange_eq_self (n.chars.not_mem (by decide) (by decide))]
    rfl
  | dotted =>
    rw [ClassName.spell, classDescriptor_of_not_mem (n.dotted_chars.not_mem (by decide) (by decide)),
      ClassName.dotted, exchange_exchange (n.chars.not_mem (by decide) (by decide))]
    rfl

private theorem classAndMethod?_spell (n : ClassName) (s : Spelling) (method : List Char)
    (detail : String) :
    (Sink.mk (String.ofList (n.spell s ++ "->".toList ++ method)) detail).classAndMethod? =
      some (String.ofList n.descriptor, String.ofList (before '(' method)) := by
  have harrow : ¬Has "->" (n.spell s ++ "->".toList.dropLast) := by
    intro h
    have hmem := h.mem (c := '>') (by decide)
    exact (List.mem_append.mp hmem).elim ((n.spell_chars s).not_mem (by decide) (by decide)) (by decide)
  rw [classAndMethod?, String.toList_ofList, cut_append harrow, Option.map_some]
  dsimp only
  rw [classDescriptor_spell]

end Sink

/-- A reference to a method of the class, `LM;->name(Params)Ret`. -/
def ClassName.methodText (n : ClassName) (name params result : List Char) : List Char :=
  n.descriptor ++ '-' :: '>' :: (name ++ '(' :: (params ++ ')' :: result))

/-- A reference to a method of some class. -/
inductive IsMethodText : List Char → Prop
  | mk (n : ClassName) (name params result : List Char) (name_chars : NamesWith "" name)
      (params_chars : NamesWith "/;[" params) (result_chars : NamesWith "/;[" result) :
      IsMethodText (n.methodText name params result)

def IsNumber (cs : List Char) : Prop := ∀ c ∈ cs, c.isDigit = true ∨ c = '-'

instance : DecidablePred IsNumber := List.decidableBAll _

private theorem IsNumber.not_mem {cs : List Char} {c : Char} (h : IsNumber cs)
    (hdigit : c.isDigit = false)
    (hsign : c ≠ '-') : c ∉ cs := fun hmem =>
  (h c hmem).elim (fun hc => absurd hc (by simp [hdigit])) hsign

private theorem IsMethodText.chars {cs : List Char} (h : IsMethodText cs) :
    NamesWith "/;->()[" cs := by
  obtain ⟨n, name, params, result, hname, hparams, hresult⟩ := h
  simp only [ClassName.methodText, NamesWith.namesWith_append, NamesWith.namesWith_cons]
  exact ⟨n.descriptor_chars.mono (by decide), by decide, by decide, hname.mono (by decide), by decide,
    hparams.mono (by decide), by decide, hresult.mono (by decide)⟩

private theorem IsMethodText.gt_mem {cs : List Char} (h : IsMethodText cs) : '>' ∈ cs := by
  obtain ⟨n, name, params, result, -, -, -⟩ := h
  simp [ClassName.methodText]

namespace Reading

/-- What follows the mark in the line of a reflective source. -/
def reflectiveBody (cls line target : List Char) : List Char :=
  cls ++ '-' :: '>' :: (reflectiveMark.toList ++ '(' :: (line ++ ')' :: ',' :: ' ' :: target))

/-- The line that records a reflective source. -/
def reflectiveLine (cls line target : List Char) : String :=
  String.ofList (sourceMark.toList ++ reflectiveBody cls line target)

/-- The name completes the mark of a dump with the arrow behind it. -/
def EndsLikeDump (cls : List Char) : Prop := "DumpTaint".toList <:+ cls

instance : DecidablePred EndsLikeDump := fun _ => inferInstanceAs (Decidable (_ <:+ _))

variable {cls line target : List Char}

private theorem colon_not_mem_reflectiveBody (hcls : NamesWith "/.;" cls) (hline : IsNumber line)
    (htarget : IsMethodText target) : ':' ∉ reflectiveBody cls line target := by
  simp only [reflectiveBody, List.mem_append, List.mem_cons, not_or]
  exact ⟨hcls.not_mem (by decide) (by decide), by decide, by decide, by decide, by decide,
    hline.not_mem (by decide) (by decide), by decide, by decide, by decide,
    htarget.chars.not_mem (by decide) (by decide)⟩

private theorem has_reflectiveLine_iff {mark : String} (hmark : mark ∈ decisiveMarks) :
    Has mark (reflectiveLine cls line target).toList ↔ Has mark (reflectiveBody cls line target) := by
  rw [reflectiveLine, String.toList_ofList, has_sourceMark_append hmark]

private theorem not_has_reflectiveLine {mark : String}
    (hmark : mark ∈ [tag, parcelMark, fileMark, sinkMark])
    (hcls : NamesWith "/.;" cls) (hline : IsNumber line) (htarget : IsMethodText target) :
    ¬Has mark (reflectiveLine cls line target).toList := by
  have hcolon : ∀ m ∈ [tag, parcelMark, fileMark, sinkMark], ':' ∈ m.toList ∧ m ∈ decisiveMarks := by
    decide
  obtain ⟨hmem, hmark⟩ := hcolon mark hmark
  rw [has_reflectiveLine_iff hmark]
  exact fun h => colon_not_mem_reflectiveBody hcls hline htarget (h.mem hmem)

private theorem not_has_dumpMark {cs : List Char} (h : '-' ∉ cs) : ¬Has dumpMark cs := fun hhas =>
  h (hhas.mem (by decide))

private theorem not_has_dumpMark_methodText (h : IsMethodText target) :
    ¬Has dumpMark (',' :: ' ' :: target) := by
  obtain ⟨n, name, params, result, hname, hparams, hresult⟩ := h
  have hpieces : ',' :: ' ' :: n.methodText name params result = (',' :: ' ' :: 'L' :: n.text) ++
      ';' :: (['-'] ++ '>' :: (name ++ '(' :: (params ++ ')' :: result))) := by
    simp [ClassName.methodText, ClassName.descriptor]
  rw [hpieces, has_append_cons (c := ';') (by decide), has_append_cons (c := '>') (by decide), not_or,
    not_or]
  refine ⟨not_has_dumpMark ?_, by decide, not_has_dumpMark ?_⟩
  · simpa using n.chars.not_mem (c := '-') (by decide) (by decide)
  · simp only [List.mem_append, List.mem_cons, not_or]
    exact ⟨hname.not_mem (by decide) (by decide), by decide, hparams.not_mem (by decide) (by decide),
      by decide, hresult.not_mem (by decide) (by decide)⟩

private theorem has_dumpMark_reflectiveLine_iff (hcls : NamesWith "/.;" cls) (hline : IsNumber line)
    (htarget : IsMethodText target) :
    Has dumpMark (reflectiveLine cls line target).toList ↔ EndsLikeDump cls := by
  have hpieces : reflectiveBody cls line target = (cls ++ ['-']) ++ '>' ::
      (reflectiveMark.toList ++ '(' :: (line ++ ')' :: (',' :: ' ' :: target))) := by
    simp [reflectiveBody]
  rw [has_reflectiveLine_iff (by decide), hpieces, has_append_cons (c := '>') (by decide),
    has_append_cons (c := '(') (by decide), has_append_cons (c := ')') (by decide),
    has_concat_iff (c := '-') (m := "DumpTaint".toList) rfl (hcls.not_mem (by decide) (by decide))]
  refine or_iff_left ?_
  rintro (hin | hin | hin)
  · exact not_has_dumpMark (by decide) hin
  · exact hline.not_mem (by decide) (by decide) (hin.mem (c := 'T') (by decide))
  · exact not_has_dumpMark_methodText htarget hin

private theorem exists_toList_reflectiveLine (cls line target : List Char) :
    ∃ front, (reflectiveLine cls line target).toList = front ++ ' ' :: target :=
  ⟨sourceMark.toList ++ (cls ++ '-' :: '>' :: (reflectiveMark.toList ++ '(' :: (line ++ [')', ',']))),
    by simp [reflectiveLine, reflectiveBody]⟩

private theorem payload_reflectiveLine (hcls : NamesWith "/.;" cls) (hline : IsNumber line)
    (htarget : IsMethodText target) :
    payload (reflectiveLine cls line target).toList = (reflectiveLine cls line target).toList := by
  have htag : ¬Has tag (reflectiveLine cls line target).toList :=
    not_has_reflectiveLine (by decide) hcls hline htarget
  obtain ⟨front, hfront⟩ := exists_toList_reflectiveLine cls line target
  rw [payload, cut_eq_none.mpr htag, Option.map_none, Option.getD_none, hfront]
  refine trimEnd_eq_self fun c hc => htarget.chars.not_isBlank (by decide) c ?_
  rw [List.append_cons, List.getLast?_append_of_ne_nil _ (List.ne_nil_of_mem htarget.gt_mem)] at hc
  exact List.mem_of_getLast? hc

private theorem ofReflective_reflectiveLine (hcls : NamesWith "/.;" cls) (hne : cls ≠ [])
    (htarget : IsMethodText target) :
    ofReflective (reflectiveLine cls line target).toList =
      ⟨.record (.reflective (String.ofList (dottedClass cls)) (String.ofList target)), []⟩ := by
  have hgt : '>' ∉ cls := hcls.not_mem (by decide) (by decide)
  have harrow : ((cut "->" (reflectiveLine cls line target).toList).map Prod.fst) =
      some (sourceMark.toList ++ cls) := by
    have hnot : ¬Has "->" ((sourceMark.toList ++ cls) ++ "->".toList.dropLast) := by
      intro h
      have hmem := h.mem (c := '>') (by decide)
      simp only [List.mem_append, hgt, or_false] at hmem
      exact absurd hmem (by decide)
    have hsplit : (reflectiveLine cls line target).toList = sourceMark.toList ++ cls ++ "->".toList ++
        (reflectiveMark.toList ++ '(' :: (line ++ ')' :: ',' :: ' ' :: target)) := by
      simp [reflectiveLine, reflectiveBody]
    rw [hsplit, cut_append hnot, Option.map_some]
  have hclass : (words (sourceMark.toList ++ cls)).getLast? = some cls := by
    have hblank : sourceMark.toList ++ cls = "SourceFound:".toList ++ ' ' :: cls := rfl
    rw [hblank, words_append_blank (by decide), words_eq_singleton (hcls.not_isBlank (by decide)) hne,
      List.getLast?_concat]
  have hmethod : (words (reflectiveLine cls line target).toList).getLast? = some target := by
    obtain ⟨front, hfront⟩ := exists_toList_reflectiveLine cls line target
    rw [hfront, words_append_blank (by decide),
      words_eq_singleton (htarget.chars.not_isBlank (by decide)) (List.ne_nil_of_mem htarget.gt_mem),
      List.getLast?_concat]
  have hother : cls ≠ target := fun h => hgt (h ▸ htarget.gt_mem)
  rw [ofReflective, harrow, Option.getD_some, hclass, hmethod]
  exact if_neg hother

private theorem ofDump_of_not_has {tail : List Char} (h : ¬Has ": ->" tail) :
    ofDump tail = fault .dumpWithoutNode [] := by
  rw [ofDump, cut_eq_none.mpr h]

private theorem not_has_node_reflectiveLine (hcls : NamesWith "/.;" cls) (hne : cls ≠ [])
    (hline : IsNumber line)
    (htarget : IsMethodText target) : ¬Has ": ->" (reflectiveLine cls line target).toList := by
  have hbody := colon_not_mem_reflectiveBody hcls hline htarget
  obtain ⟨c, rest, rfl⟩ := List.exists_cons_of_ne_nil hne
  have hc : c ∉ ": ->".toList := by
    intro hc
    have hforeign : (": ->".toList.all fun d => ¬NameChar d ∧ d ∉ "/.;".toList) = true := by decide
    obtain ⟨hnot, hseparator⟩ := of_decide_eq_true (List.all_eq_true.mp hforeign c hc)
    exact (hcls c List.mem_cons_self).elim hnot hseparator
  rw [reflectiveLine, String.toList_ofList, reflectiveBody, List.cons_append, has_append_cons hc]
  rintro (hin | hin)
  · exact absurd (hin.mem (c := '>') (by decide)) (by decide)
  · exact hbody (List.mem_cons_of_mem _ (hin.mem (by decide)))

/-- A reflective source is recorded, unless its class completes the mark of a dump. -/
theorem ofLine_reflectiveLine (hcls : NamesWith "/.;" cls) (hne : cls ≠ []) (hline : IsNumber line)
    (htarget : IsMethodText target) :
    ofLine (reflectiveLine cls line target) =
      if EndsLikeDump cls then fault .dumpWithoutNode []
      else ⟨.record (.reflective (String.ofList (dottedClass cls)) (String.ofList target)), []⟩ := by
  have hnot {mark : String} (hmark : mark ∈ [tag, parcelMark, fileMark, sinkMark]) :
      cut mark (reflectiveLine cls line target).toList = none :=
    cut_eq_none.mpr (not_has_reflectiveLine hmark hcls hline htarget)
  have hdump := has_dumpMark_reflectiveLine_iff hcls hline htarget
  rw [ofLine, payload_reflectiveLine hcls hline htarget, ofPayload, hnot (by decide), hnot (by decide)]
  dsimp only
  by_cases hends : EndsLikeDump cls
  · rw [if_pos hends]
    cases hcut : cut dumpMark (reflectiveLine cls line target).toList with
    | none => exact absurd (hdump.mpr hends) (cut_eq_none.mp hcut)
    | some p =>
      refine ofDump_of_not_has fun h => not_has_node_reflectiveLine hcls hne hline htarget (h.mono ?_)
      rw [eq_of_cut hcut]
      exact (List.suffix_append _ _).isInfix
  · have hsource : cut sourceMark (reflectiveLine cls line target).toList =
        some ([], reflectiveBody cls line target) := by
      rw [reflectiveLine, String.toList_ofList]
      exact cut_of_begins _
    have hreflective : Has reflectiveMark (reflectiveLine cls line target).toList :=
      ⟨sourceMark.toList ++ cls ++ "->".toList, '(' :: (line ++ ')' :: ',' :: ' ' :: target),
        by simp [reflectiveLine, reflectiveBody]⟩
    rw [if_neg hends, cut_eq_none.mpr (mt hdump.mp hends), hnot (by decide), hsource]
    dsimp only
    rw [if_pos hreflective, ofReflective_reflectiveLine hcls hne htarget]

theorem EndsLikeDump.exchange {old new : Char} {cs : List Char} (hold : old ∉ "DumpTaint".toList)
    (h : EndsLikeDump cs) : EndsLikeDump (exchange old new cs) := by
  have hsuffix : Text.exchange old new "DumpTaint".toList <:+ Text.exchange old new cs := h.map _
  rwa [exchange_eq_self hold] at hsuffix

private theorem endsLikeDump_spell_iff (n : ClassName) (s : Spelling) :
    EndsLikeDump (n.spell s) ↔ s ≠ .descriptor ∧ EndsLikeDump n.text := by
  cases s with
  | descriptor =>
    have hnot : ¬EndsLikeDump n.descriptor := by
      rintro ⟨front, hfront⟩
      have hlast := n.getLast?_descriptor
      have ht : "DumpTaint".toList.getLast? = some 't' := by decide
      rw [← hfront, List.getLast?_append, ht] at hlast
      exact absurd hlast (by simp)
    simpa [ClassName.spell] using hnot
  | slashed => simp [ClassName.spell]
  | dotted =>
    have hdotted : EndsLikeDump n.dotted ↔ EndsLikeDump n.text := by
      refine ⟨fun h => ?_, EndsLikeDump.exchange (by decide)⟩
      have hback : EndsLikeDump (Text.exchange '.' '/' n.dotted) := h.exchange (by decide)
      rwa [ClassName.dotted, exchange_exchange (n.chars.not_mem (by decide) (by decide))] at hback
    simpa [ClassName.spell] using hdotted

end Reading

def recordedTarget? (cls line : String) : Option String :=
  (record? line).bind (Record.target? cls)

namespace TaintLog

variable {cls target line : String}

/-- A class has the method that was recorded for it last. -/
theorem reflectiveTarget?_ofLines (lines : List String) (cls : String) :
    (ofLines lines).bindings.reflectiveTarget? cls =
      (lines.filterMap (recordedTarget? cls)).getLast? := by
  induction lines using List.reverseRecOn with
  | nil => rfl
  | append_singleton lines line ih =>
    rw [ofLines_concat, (takes_addLine _ line).reflectiveTarget?, ih, getLast?_filterMap_concat]
    rfl

private theorem reflectiveTarget?_of_last (h : recordedTarget? cls line = some target)
    (before : List String)
    {after : List String} (hafter : ∀ l ∈ after, recordedTarget? cls l = none) :
    (ofLines (before ++ line :: after)).bindings.reflectiveTarget? cls = some target := by
  rw [reflectiveTarget?_ofLines, List.filterMap_append, List.filterMap_cons_some h,
    List.filterMap_eq_nil_iff.mpr hafter, List.getLast?_concat]

end TaintLog

/-- The instruction calls by reflection, and its reference is found. -/
def Instruction.CallsByReflection (i : Instruction) : Prop :=
  ∃ list reference m, cutLast "\x7d, " i.text.toList = some (list, reference) ∧
    MethodRef.read reference = .ok m ∧ m.isReflectiveInvoke = true

private theorem Instruction.reflectiveTarget?_of_class {i : Instruction} {bindings : Bindings}
    {target : String}
    (n : ClassName) (hcls : i.cls = String.ofList n.descriptor) (hcall : i.CallsByReflection)
    (htarget : bindings.reflectiveTarget? (String.ofList n.dotted) = some target) :
    i.reflectiveTarget? bindings =
      some (ThreeAddress.translate ("invoke-static \x7bv0\x7d, ".toList ++ target.toList)) := by
  obtain ⟨list, reference, m, hcut, hread, hm⟩ := hcall
  have hclass : TypeDescriptor.read i.cls.toList = .ok (.object (String.ofList n.dotted)) := by
    rw [hcls, String.toList_ofList, n.read_descriptor]
  simp only [reflectiveTarget?, bind, pure, hcut, hread, hm, hclass, TypeDescriptor.text, htarget,
    Except.toOption, Option.bind_some, if_true]

/-- The spellings of a class agree. A reflective source is recorded under its dotted name, which is the
name of the type that is read from its descriptor, so that it is found for every reflective call in the class
until another one is recorded; and sinks that differ in the spelling match the same nodes. A reflective
source is taken for a dump if the name, not written as a descriptor, ends in `DumpTaint`. -/
theorem class_spellings_agree (n : ClassName) :
    (∀ (s : Spelling) line target, IsNumber line → IsMethodText target →
      Reading.ofLine (Reading.reflectiveLine (n.spell s) line target) =
        if s ≠ .descriptor ∧ Reading.EndsLikeDump n.text then Reading.fault .dumpWithoutNode []
        else ⟨.record (.reflective (String.ofList n.dotted) (String.ofList target)), []⟩) ∧
    (∃ t, TypeDescriptor.read n.descriptor = .ok t ∧ t.text = String.ofList n.dotted) ∧
    (∀ (s : Spelling) line target before after (i : Instruction), IsNumber line → IsMethodText target →
      ¬(s ≠ .descriptor ∧ Reading.EndsLikeDump n.text) →
      (∀ l ∈ after, recordedTarget? (String.ofList n.dotted) l = none) →
      i.cls = String.ofList n.descriptor → i.CallsByReflection →
      i.reflectiveTarget? (TaintLog.ofLines
          (before ++ Reading.reflectiveLine (n.spell s) line target :: after)).bindings =
        some (ThreeAddress.translate ("invoke-static \x7bv0\x7d, ".toList ++ target))) ∧
    ∀ (s s' : Spelling) method detail detail',
      (Sink.mk (String.ofList (n.spell s ++ "->".toList ++ method)) detail).classAndMethod? =
        some (String.ofList n.descriptor, String.ofList (before '(' method)) ∧
      ∀ node, (Sink.mk (String.ofList (n.spell s ++ "->".toList ++ method)) detail).matches? node =
        (Sink.mk (String.ofList (n.spell s' ++ "->".toList ++ method)) detail').matches? node := by
  have hreading : ∀ (s : Spelling) line target, IsNumber line → IsMethodText target →
      Reading.ofLine (Reading.reflectiveLine (n.spell s) line target) =
        if s ≠ .descriptor ∧ Reading.EndsLikeDump n.text then Reading.fault .dumpWithoutNode []
        else ⟨.record (.reflective (String.ofList n.dotted) (String.ofList target)), []⟩ := by
    intro s line target hline htarget
    rw [Reading.ofLine_reflectiveLine (n.spell_chars s) (n.spell_ne_nil s) hline htarget,
      Reading.dottedClass_spell]
    exact if_congr (Reading.endsLikeDump_spell_iff n s) rfl rfl
  refine ⟨hreading, ⟨_, n.read_descriptor, rfl⟩, ?_, ?_⟩
  · intro s line target before after i hline htarget hname hafter hcls hcall
    have hrecorded : recordedTarget? (String.ofList n.dotted)
        (Reading.reflectiveLine (n.spell s) line target) = some (String.ofList target) := by
      rw [recordedTarget?, record?, hreading s line target hline htarget, if_neg hname]
      exact if_pos rfl
    have hlast := TaintLog.reflectiveTarget?_of_last hrecorded before hafter
    have hfound := Instruction.reflectiveTarget?_of_class n hcls hcall hlast
    rwa [String.toList_ofList (l := target)] at hfound
  · intro s s' method detail detail'
    refine ⟨Sink.classAndMethod?_spell n s method detail, fun node => ?_⟩
    rw [Sink.matches?, Sink.matches?, Sink.classAndMethod?_spell, Sink.classAndMethod?_spell]

namespace ClassName

def main : ClassName := ofIdentifiers ["com".toList, "app".toList, "Main".toList] (by decide) (by decide)

/-- A class that is named like the dumps of a log. -/
def dumpTaint : ClassName :=
  ofIdentifiers ["com".toList, "app".toList, "DumpTaint".toList] (by decide) (by decide)

end ClassName

def secretText : List Char := "Lcom/app/Secret;->get()Ljava/lang/String;".toList

private theorem isMethodText_secretText : IsMethodText secretText :=
  .mk ⟨"com/app/Secret".toList, by decide, by decide⟩ "get".toList [] "Ljava/lang/String;".toList
    (by decide) (by decide) (by decide)

def invokeText : String :=
  "Ljava/lang/reflect/Method;->invoke(Ljava/lang/Object;[Ljava/lang/Object;)Ljava/lang/Object;"

def invokeInMain : Instruction :=
  ⟨"Lcom/app/Main;", "run()V", 3,
    String.ofList ("invoke-virtual \x7bv1, v2, v3".toList ++ "\x7d, ".toList ++ invokeText.toList)⟩

private theorem callsByReflection_invokeInMain : invokeInMain.CallsByReflection := by
  have hlater : ¬Has "\x7d, " ("\x7d, ".toList.tail ++ invokeText.toList) := fun h =>
    absurd (h.mem (c := '\x7d') (by decide)) (by decide)
  have hread : MethodRef.read invokeText.toList = .ok ⟨.object "java.lang.reflect.Method", "invoke",
      [.object "java.lang.Object", .array (.object "java.lang.Object")], .object "java.lang.Object"⟩ := by
    cbv
  have hcut := cutLast_append hlater "invoke-virtual \x7bv1, v2, v3".toList
  exact ⟨_, _, _, by rw [invokeInMain, String.toList_ofList, hcut], hread, rfl⟩

/-- A class that is written with dots is found where a descriptor names it. -/
theorem main_found :
    (IsNumber "40".toList ∧ IsMethodText secretText) ∧
    Reading.ofLine (Reading.reflectiveLine (ClassName.main.spell .dotted) "40".toList secretText) =
      ⟨.record (.reflective "com.app.Main" (String.ofList secretText)), []⟩ ∧
    (¬(Spelling.dotted ≠ .descriptor ∧ Reading.EndsLikeDump ClassName.main.text) ∧
      invokeInMain.CallsByReflection) ∧
    invokeInMain.reflectiveTarget? (TaintLog.ofLines
        [Reading.reflectiveLine (ClassName.main.spell .dotted) "40".toList secretText]).bindings =
      some (ThreeAddress.translate ("invoke-static \x7bv0\x7d, ".toList ++ secretText)) := by
  have hline : IsNumber "40".toList := by decide
  have hname : ¬(Spelling.dotted ≠ .descriptor ∧ Reading.EndsLikeDump ClassName.main.text) := by
    decide
  have hagree := class_spellings_agree ClassName.main
  have hread := hagree.1 .dotted _ _ hline isMethodText_secretText
  rw [if_neg hname] at hread
  exact ⟨⟨hline, isMethodText_secretText⟩, hread, ⟨hname, callsByReflection_invokeInMain⟩,
    hagree.2.2.1 .dotted _ _ [] [] invokeInMain hline isMethodText_secretText hname (by simp) rfl
      callsByReflection_invokeInMain⟩

/-- A class whose name ends in `DumpTaint` is not recorded. -/
theorem dumpTaint_not_recorded :
    ¬∀ (n : ClassName) (s : Spelling) (line target : List Char), IsNumber line → IsMethodText target →
      Reading.ofLine (Reading.reflectiveLine (n.spell s) line target) =
        ⟨.record (.reflective (String.ofList n.dotted) (String.ofList target)), []⟩ := by
  intro hrecorded
  have hread := hrecorded .dumpTaint .dotted "40".toList secretText (by decide) isMethodText_secretText
  rw [Reading.ofLine_reflectiveLine (ClassName.dumpTaint.spell_chars .dotted)
    (ClassName.dumpTaint.spell_ne_nil .dotted) (by decide) isMethodText_secretText,
    if_pos (by decide)] at hread
  exact absurd hread (by simp [Reading.fault])

end LeakTrace
