import LeakTrace.Proofs.Bytecode.Instructions
import LeakTrace.Proofs.Bytecode.References

namespace LeakTrace

open Text

namespace Operands

variable {p q : Char} {n : Nat}

private theorem toList_registerName (p : Char) (n : Nat) :
    (registerName p n).toList = p :: digits n :=
  String.toList_ofList

private theorem isAlphanum_of_mem_registerName (hp : p.isAlpha = true) :
    ∀ c ∈ (registerName p n).toList, c.isAlphanum = true := by
  intro c hc
  rw [toList_registerName] at hc
  rcases List.mem_cons.mp hc with rfl | hdigit
  · simp [Char.isAlphanum, hp]
  · simp [Char.isAlphanum, isDigit_of_mem_digits hdigit]

private theorem not_mem_registerName {c : Char} (hp : p.isAlpha = true)
    (hc : c.isAlphanum = false) :
    c ∉ (registerName p n).toList := fun hmem => by
  simp [isAlphanum_of_mem_registerName hp c hmem] at hc

private theorem readRegister?_registerName (p : Char) (a : UInt32) :
    readRegister? (registerName p a.toNat).toList = some (p, a) := by
  have hnumber : readUInt32? (digits a.toNat) = some a := readUInt32?_ofUInt32 a
  rw [toList_registerName, readRegister?, hnumber]
  rfl

/-- The text is one entry of a list that is separated by commas and white space. -/
def IsEntry (cs : List Char) : Prop := cs ≠ [] ∧ ∀ c ∈ cs, isBlank c = false ∧ c ≠ ','

variable {cs : List Char} {entries : List (List Char)}

theorem IsEntry.isBlank_head? (h : IsEntry cs) : ∀ c ∈ cs.head?, isBlank c = false :=
  fun c hc => (h.2 c (List.mem_of_mem_head? hc)).1

theorem IsEntry.isBlank_getLast? (h : IsEntry cs) : ∀ c ∈ cs.getLast?, isBlank c = false :=
  fun c hc => (h.2 c (List.mem_of_mem_getLast? hc)).1

private theorem IsEntry.trim_eq (h : IsEntry cs) : trim cs = cs :=
  trim_eq_self h.isBlank_head? h.isBlank_getLast?

private theorem IsEntry.comma_not_mem (h : IsEntry cs) : ',' ∉ cs := fun hmem => (h.2 _ hmem).2 rfl

private theorem map_trim_splitOn_blank_cons (cs : List Char) :
    ((' ' :: cs).splitOn ',').map trim = (cs.splitOn ',').map trim := by
  obtain ⟨first, rest, hsplit⟩ := List.exists_cons_of_ne_nil (List.splitOn_ne_nil ',' cs)
  rw [List.splitOn_cons_eq_if_modifyHead, if_neg (by decide), hsplit, List.modifyHead_cons,
    List.map_cons, List.map_cons, trim_cons_blank (by decide)]

private theorem map_trim_splitOn_intercalate (hne : entries ≠ []) (h : ∀ e ∈ entries, IsEntry e) :
    (([',', ' '].intercalate entries).splitOn ',').map trim = entries := by
  induction entries with
  | nil => exact absurd rfl hne
  | cons first rest ih =>
    obtain ⟨hfirst, hrest⟩ := List.forall_mem_cons.mp h
    cases rest with
    | nil =>
      rw [List.intercalate_singleton, List.splitOn_eq_singleton hfirst.comma_not_mem,
        List.map_singleton, hfirst.trim_eq]
    | cons second rest =>
      have hparts : [',', ' '].intercalate (first :: second :: rest) =
          first ++ ',' :: ' ' :: [',', ' '].intercalate (second :: rest) := by
        rw [List.intercalate_cons_cons, List.append_assoc]
        rfl
      rw [hparts, List.splitOn_append_cons_self_of_not_mem hfirst.comma_not_mem, List.map_cons,
        hfirst.trim_eq, map_trim_splitOn_blank_cons, ih (by simp) hrest]

private theorem registerNames_intercalate {names : List String}
    (h : ∀ r ∈ names, IsEntry r.toList) :
    registerNames (", ".intercalate names).toList = names := by
  by_cases hne : names = []
  · subst hne
    rfl
  have hentries : ∀ e ∈ names.map String.toList, IsEntry e := by simpa using h
  have hall : (names.map String.toList).filter (· ≠ []) = names.map String.toList :=
    List.filter_eq_self.mpr fun e he => by simpa using (hentries e he).1
  have hnames : (names.map String.toList).map String.ofList = names := by simp
  rw [registerNames, String.toList_intercalate]
  change (((([',', ' '].intercalate (names.map String.toList)).splitOn ',').map trim).filter
    (· ≠ [])).map String.ofList = names
  rw [map_trim_splitOn_intercalate (by simpa using hne) hentries, hall, hnames]

private theorem isEntry_registerName (hp : p.isAlpha = true) :
    IsEntry (registerName p n).toList := by
  refine ⟨by simp [toList_registerName], fun c hc => ?_⟩
  have halphanum := isAlphanum_of_mem_registerName hp c hc
  refine ⟨isBlank_of_isAlphanum halphanum, ?_⟩
  rintro rfl
  exact absurd halphanum (by decide)

private theorem registerRange?_of_cut {first last : List Char}
    (h : cut ".." (trim cs) = some (first, last)) :
    registerRange? cs = (readRegister? (trim first)).bind fun a =>
      (readRegister? (trim last)).bind fun b => registersBetween? a b := by
  rw [registerRange?]
  split
  · next hnil =>
    rw [hnil] at h
    exact absurd h (by simp [cut, afterPrefix, dropStart?])
  · rw [h]
    rfl

private theorem registerRange?_of_entries {first last : List Char} (hfirst : IsEntry first)
    (hlast : IsEntry last) (hdot : '.' ∉ first) : registerRange? (first ++ " .. ".toList ++ last) =
      (readRegister? first).bind fun a => (readRegister? last).bind fun b => registersBetween? a b := by
  have htrim : trim (first ++ " .. ".toList ++ last) = first ++ " .. ".toList ++ last :=
    trim_framed hfirst.1 hlast.1 hfirst.isBlank_head? hlast.isBlank_getLast? _
  have htext : first ++ " .. ".toList ++ last = first ++ [' '] ++ "..".toList ++ ' ' :: last := by simp
  have hdots : ¬Has ".." (first ++ [' '] ++ "..".toList.dropLast) := by
    rw [List.append_assoc]
    change ¬Has ".." (first ++ ' ' :: ['.'])
    rw [has_append_cons (by decide)]
    rintro (hhas | hhas)
    · exact hdot (hhas.mem (by decide))
    · exact absurd hhas (by decide)
  have hcut : cut ".." (trim (first ++ " .. ".toList ++ last)) = some (first ++ [' '], ' ' :: last) := by
    rw [htrim, htext]
    exact cut_append hdots _
  have htrimFirst : trim (first ++ [' ']) = first := by
    rw [trim_concat_blank (by decide), hfirst.trim_eq]
  have htrimLast : trim (' ' :: last) = last := by
    rw [trim_cons_blank (by decide), hlast.trim_eq]
  rw [registerRange?_of_cut hcut, htrimFirst, htrimLast]

private theorem registerRange?_names (hp : p.isAlpha = true) (hq : q.isAlpha = true)
    (a b : UInt32) :
    registerRange? ((registerName p a.toNat).toList ++ " .. ".toList ++
      (registerName q b.toNat).toList) = registersBetween? (p, a) (q, b) := by
  rw [registerRange?_of_entries (isEntry_registerName hp) (isEntry_registerName hq)
    (not_mem_registerName hp (by decide)), readRegister?_registerName, readRegister?_registerName]
  rfl

/-- The registers that stand between braces. -/
def registers? (range : Bool) (list : List Char) : Option (List String) :=
  if range then registerRange? list else some (registerNames list)

theorem trim_braces (list reference : List Char) :
    trim ('\x7b' :: list ++ '\x7d' :: ',' :: reference) =
      '\x7b' :: list ++ '\x7d' :: ',' :: trimEnd reference := by
  rw [trim, List.cons_append, trimStart_cons_of_not (by decide), ← List.cons_append, List.append_cons,
    trimEnd_append_cons (by decide), ← List.append_cons]

theorem registerList?_braces {range : Bool} {list : List Char} (h : '\x7d' ∉ list)
    (reference : List Char) :
    registerList? range ('\x7b' :: list ++ '\x7d' :: ',' :: reference) =
      (registers? range list).map fun registers => (registers, trim reference) := by
  have hopen : afterPrefix "\x7b" ('\x7b' :: list ++ '\x7d' :: ',' :: reference) =
      some (list ++ '\x7d' :: ',' :: reference) := afterPrefix_eq_some.mpr rfl
  have hcut : cut "\x7d" (list ++ '\x7d' :: ',' :: reference) = some (list, ',' :: reference) :=
    cut_append_cons rfl h _
  have hstart : trimStart (',' :: reference) = ',' :: reference := trimStart_cons_of_not (by decide)
  have hcomma : afterPrefix "," (',' :: reference) = some reference := afterPrefix_eq_some.mpr rfl
  simp only [registerList?, hopen, hcut, hstart, hcomma, bind, Option.bind_some]
  cases range with
  | false => rfl
  | true => exact Option.map_eq_bind.symm

end Operands

namespace ThreeAddress

open Operands

variable {mnemonic list : List Char} {kind : InvokeKind} {range : Bool}

private theorem statement?_eq_none_iff {t : ThreeAddress} :
    t.statement? = none ↔ t.isUnsupported = true := by
  cases t <;> simp [statement?, isUnsupported]

private theorem toOption_read_trim (reference : List Char) :
    (MethodRef.read (trim reference)).toOption = (MethodRef.read reference).toOption := by
  have hok : ∀ {r : Except DescriptorFault MethodRef} {m : MethodRef}, r.toOption = some m ↔ r = .ok m := by
    intro r m
    cases r <;> simp [Except.toOption]
  ext m
  rw [hok, hok]
  exact MethodRef.read_trim_eq_ok

private theorem statement?_of_call (hmnemonic : ∀ c ∈ mnemonic, isBlank c = false)
    (hopcode : Opcode.decode mnemonic = .invoke kind range) (hlist : '\x7d' ∉ list)
    (reference : List Char) :
    (translate (mnemonic ++ ' ' :: ('\x7b' :: list ++ '\x7d' :: ',' :: ' ' :: reference))).statement? =
      (registers? range list).bind fun registers =>
        (MethodRef.read reference).toOption.bind (call? kind registers) := by
  have hne : mnemonic ≠ [] := Opcode.ne_nil_of_decode (by simp [hopcode])
  have hblank : isBlank ' ' = true := by decide
  have hnone := cutResult?_eq_none hmnemonic hne hblank (by simp [hopcode])
    ('\x7b' :: list ++ '\x7d' :: ',' :: ' ' :: reference)
  have hreference : trim (trimEnd (' ' :: reference)) = trim reference := by
    rw [trim_trimEnd, trim_cons_blank hblank]
  have hlowered : lower? (.invoke kind range)
      ('\x7b' :: list ++ '\x7d' :: ',' :: trimEnd (' ' :: reference)) =
        (registers? range list).bind fun registers =>
          (MethodRef.read reference).toOption.bind (call? kind registers) := by
    rw [lower?, registerList?_braces hlist, hreference]
    cases registers? range list with
    | none => rfl
    | some registers =>
      rw [← toOption_read_trim]
      rfl
  rw [translate_of_parts hmnemonic hne hblank hnone, hopcode, trim_braces, hlowered]
  cases (registers? range list).bind fun registers =>
    (MethodRef.read reference).toOption.bind (call? kind registers) <;> rfl

/-- A call by its mnemonic, what stands between its braces, and its reference. -/
def callText (mnemonic list reference : String) : String :=
  mnemonic ++ " \x7b" ++ list ++ "\x7d, " ++ reference

/-- A call that names the first and the last of its registers. -/
def rangeCall (kind : InvokeKind) (first last reference : String) : String :=
  callText ("invoke-" ++ kind.name ++ "/range") (first ++ " .. " ++ last) reference

/-- A call that names each of its registers. -/
def listCall (kind : InvokeKind) (registers : List String) (reference : String) : String :=
  callText ("invoke-" ++ kind.name) (", ".intercalate registers) reference

private theorem statement?_callText {mnemonic : String}
    (hmnemonic : ∀ c ∈ mnemonic.toList, isBlank c = false)
    (hopcode : Opcode.decode mnemonic.toList = .invoke kind range) {list : String}
    (hlist : '\x7d' ∉ list.toList) (reference : String) :
    (translate (callText mnemonic list reference).toList).statement? =
      (registers? range list.toList).bind fun registers =>
        (MethodRef.read reference.toList).toOption.bind (call? kind registers) := by
  have htext : (callText mnemonic list reference).toList = mnemonic.toList ++
      ' ' :: ('\x7b' :: list.toList ++ '\x7d' :: ',' :: ' ' :: reference.toList) := by
    simp [callText]
  rw [htext]
  exact statement?_of_call hmnemonic hopcode hlist reference.toList

variable {p q : Char}

private theorem statement?_rangeCall (kind : InvokeKind) (hp : p.isAlpha = true)
    (hq : q.isAlpha = true)
    (a b : UInt32) (reference : String) :
    (translate (rangeCall kind (registerName p a.toNat) (registerName q b.toNat)
        reference).toList).statement? =
      (registersBetween? (p, a) (q, b)).bind fun registers =>
        (MethodRef.read reference.toList).toOption.bind (call? kind registers) := by
  have hopcode : Opcode.decode ("invoke-" ++ kind.name ++ "/range").toList = .invoke kind true := by
    cases kind <;> decide
  have hblank : ∀ c ∈ ("invoke-" ++ kind.name ++ "/range").toList, isBlank c = false := by
    cases kind <;> simp [InvokeKind.name, isBlank]
  have hlist : '\x7d' ∉ (registerName p a.toNat ++ " .. " ++ registerName q b.toNat).toList := by
    simp [not_mem_registerName hp, not_mem_registerName hq]
  rw [rangeCall, statement?_callText hblank hopcode hlist, registers?, if_pos rfl,
    ← registerRange?_names hp hq, String.toList_append, String.toList_append]

private theorem brace_not_mem_intercalate {names : List String}
    (h : ∀ r ∈ names, '\x7d' ∉ r.toList) :
    '\x7d' ∉ (", ".intercalate names).toList := by
  intro hmem
  rw [String.toList_intercalate] at hmem
  rcases mem_or_of_mem_intercalate hmem with hcomma | ⟨r, hr, hmem⟩
  · exact absurd hcomma (by decide)
  · obtain ⟨name, hname, rfl⟩ := List.mem_map.mp hr
    exact h name hname hmem

private theorem statement?_listCall (kind : InvokeKind) {names : List String}
    (hentries : ∀ r ∈ names, IsEntry r.toList) (hbrace : ∀ r ∈ names, '\x7d' ∉ r.toList)
    (reference : String) :
    (translate (listCall kind names reference).toList).statement? =
      (MethodRef.read reference.toList).toOption.bind (call? kind names) := by
  have hopcode : Opcode.decode ("invoke-" ++ kind.name).toList = .invoke kind false := by
    cases kind <;> decide
  have hblank : ∀ c ∈ ("invoke-" ++ kind.name).toList, isBlank c = false := by
    cases kind <;> simp [InvokeKind.name, isBlank]
  rw [listCall, statement?_callText hblank hopcode (brace_not_mem_intercalate hbrace), registers?,
    if_neg (by simp), registerNames_intercalate hentries, Option.bind_some]

/-- A call with a range of registers is lowered to the statement of the call with a list of the same
registers, which is a call of the method on them if the reference can be read; and it is not lowered if
the range goes down, or from one letter to another. -/
theorem range_lowered_as_list (kind : InvokeKind) (hp : p.isAlpha = true) (a b : UInt32)
    (reference : String) :
    (a ≤ b →
      let registers := (List.range' a.toNat (b.toNat - a.toNat + 1)).map (registerName p)
      (translate (rangeCall kind (registerName p a.toNat) (registerName p b.toNat)
          reference).toList).statement? =
        (translate (listCall kind registers reference).toList).statement? ∧
      (translate (listCall kind registers reference).toList).statement? =
        (MethodRef.read reference.toList).toOption.bind (call? kind registers)) ∧
    ∀ q : Char, q.isAlpha = true → b < a ∨ p ≠ q →
      (translate (rangeCall kind (registerName p a.toNat) (registerName q b.toNat)
        reference).toList).isUnsupported = true := by
  refine ⟨fun hle => ?_, fun q hq hbackward => ?_⟩
  · have hbetween : registersBetween? (p, a) (p, b) =
        some ((List.range' a.toNat (b.toNat - a.toNat + 1)).map (registerName p)) :=
      if_pos ⟨rfl, hle⟩
    have hentries : ∀ r ∈ (List.range' a.toNat (b.toNat - a.toNat + 1)).map (registerName p),
        IsEntry r.toList := List.forall_mem_map.mpr fun n _ => isEntry_registerName hp
    have hlist := statement?_listCall kind hentries
      (List.forall_mem_map.mpr fun n _ => not_mem_registerName hp (by decide)) reference
    refine ⟨?_, hlist⟩
    rw [statement?_rangeCall kind hp hp, hbetween, Option.bind_some, hlist]
  · have hbetween : registersBetween? (p, a) (q, b) = none := by
      refine if_neg fun h => ?_
      rcases hbackward with hlt | hne
      · exact UInt32.not_le.mpr hlt h.2
      · exact hne h.1
    rw [← statement?_eq_none_iff, statement?_rangeCall kind hp hq, hbetween, Option.bind_none]

/-- Three registers, the receiver among them, and a reference that holds a comma and a brace. -/
theorem threeRegisters_lowered_as_list :
    (translate "invoke-virtual/range \x7bv8 .. v10\x7d, La;->,\x7d(I)V".toList).statement? =
        some "virtualinvoke v8.<a: void ,\x7d(int)>(v9, v10)" ∧
      (translate "invoke-virtual \x7bv8, v9, v10\x7d, La;->,\x7d(I)V".toList).statement? =
        some "virtualinvoke v8.<a: void ,\x7d(int)>(v9, v10)" ∧
      (translate "invoke-virtual/range \x7bv10 .. v8\x7d, La;->,\x7d(I)V".toList).isUnsupported = true ∧
      (translate "invoke-virtual/range \x7bv8 .. p10\x7d, La;->,\x7d(I)V".toList).isUnsupported =
        true := by
  have hv : 'v'.isAlpha = true := by decide
  have hup : (8 : UInt32) ≤ 10 := by decide
  have hdown : (8 : UInt32) < 10 := by decide
  obtain ⟨hrange, hlist⟩ := (range_lowered_as_list .virtual hv 8 10 "La;->,\x7d(I)V").1 hup
  have hcall : (MethodRef.read "La;->,\x7d(I)V".toList).toOption.bind
      (call? .virtual ((List.range' 8 3).map (registerName 'v'))) =
        some "virtualinvoke v8.<a: void ,\x7d(int)>(v9, v10)" := by cbv
  have hbackward := (range_lowered_as_list .virtual hv 10 8 "La;->,\x7d(I)V").2 'v' hv (.inl hdown)
  have hacross := (range_lowered_as_list .virtual hv 8 10 "La;->,\x7d(I)V").2 'p' (by decide)
    (.inr (by decide))
  exact ⟨hrange.trans (hlist.trans hcall), hlist.trans hcall, hbackward, hacross⟩

end ThreeAddress

end LeakTrace
