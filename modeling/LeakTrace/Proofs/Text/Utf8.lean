import LeakTrace.Text.Utf8
import Mathlib.Data.List.Basic
import Mathlib.Tactic.SplitIfs

namespace LeakTrace.Text.Utf8

open String (utf8EncodeChar)

/-- The bytes are the beginning of a character, or all of it. -/
def Opens (part : List UInt8) : Prop := part ≠ [] ∧ ∃ c, part <+: utf8EncodeChar c

/-- Of the bytes of `part` and `rest` none are a character at the front, and `part` is what is
replaced there: the longest beginning of a character, or one byte that begins none. -/
structure IsInvalidPart (part rest : List UInt8) : Prop where
  not_char : ∀ c, ¬utf8EncodeChar c <+: part ++ rest
  longest : (Opens part ∧ ∀ b ∈ rest.head?, ¬Opens (part ++ [b])) ∨ ∃ b, part = [b] ∧ ¬Opens [b]

/-- The text that bytes stand for. -/
inductive Decodes : List UInt8 → List Char → Prop
  | nil : Decodes [] []
  | char {bs : List UInt8} {cs : List Char} (c : Char) :
      Decodes bs cs → Decodes (utf8EncodeChar c ++ bs) (c :: cs)
  | invalid {part bs : List UInt8} {cs : List Char} :
      IsInvalidPart part bs → Decodes bs cs → Decodes (part ++ bs) (replacement :: cs)

variable {part part' bs bs' rest rest' : List UInt8} {cs cs' : List Char} {b : UInt8} {c c' : Char}

private theorem Opens.of_begins (h : Opens part) {short : List UInt8} (hne : short ≠ [])
    (hshort : short <+: part) : Opens short :=
  ⟨hne, h.2.imp fun _ hc => hshort.trans hc⟩

/-- No encoded character is the beginning of another one. -/
theorem encode_inj (h : utf8EncodeChar c ++ bs = utf8EncodeChar c' ++ bs') : c = c' ∧ bs = bs' := by
  have hbytes := congrArg List.toByteArray h
  rw [List.toByteArray_append, List.toByteArray_append] at hbytes
  have hread := congrArg (fun bytes => ByteArray.utf8DecodeChar? bytes 0) hbytes
  simp only [ByteArray.utf8DecodeChar?_utf8EncodeChar_append] at hread
  obtain rfl := Option.some.inj hread
  exact ⟨rfl, List.append_cancel_left h⟩

theorem IsInvalidPart.ne_nil (h : IsInvalidPart part rest) : part ≠ [] := by
  rcases h.longest with ⟨hopens, -⟩ | ⟨b, rfl, -⟩
  · exact hopens.1
  · simp

/-- Of two parts that are replaced at the same place neither is longer. -/
theorem IsInvalidPart.begins (h : IsInvalidPart part rest) (h' : IsInvalidPart part' rest')
    (heq : part ++ rest = part' ++ rest') : part' <+: part := by
  have hpart : part <+: part' ++ rest' := heq ▸ List.prefix_append part rest
  rcases List.prefix_or_prefix_of_prefix hpart (List.prefix_append part' rest') with hle | hle
  · obtain ⟨more, rfl⟩ := hle
    cases more with
    | nil => simp
    | cons x more =>
      have hhead : x ∈ rest.head? := by
        rw [List.append_assoc, List.append_cancel_left_eq] at heq
        rw [heq]
        rfl
      have hlonger : part ++ [x] <+: part ++ x :: more := ⟨more, by simp⟩
      have hopens : Opens (part ++ x :: more) := by
        rcases h'.longest with ⟨hopens, -⟩ | ⟨b, hb, -⟩
        · exact hopens
        · have hlength := congrArg List.length hb
          have hpos := List.length_pos_iff.mpr h.ne_nil
          simp only [List.length_append, List.length_cons, List.length_nil] at hlength
          omega
      rcases h.longest with ⟨-, hstop⟩ | ⟨b, rfl, hstop⟩
      · exact absurd (hopens.of_begins (by simp) hlonger) (hstop x hhead)
      · exact absurd (hopens.of_begins (by simp) (List.prefix_append [b] _)) hstop
  · exact hle

/-- The text of any bytes is determined. -/
theorem Decodes.unique (h : Decodes bs cs) (h' : Decodes bs cs') : cs = cs' := by
  induction h generalizing cs' with
  | nil =>
    generalize hnil : ([] : List UInt8) = all at h'
    cases h' with
    | nil => rfl
    | char c _ => simp [String.utf8EncodeChar_ne_nil] at hnil
    | invalid hpart _ => simp [hpart.ne_nil] at hnil
  | @char bs cs c _ ih =>
    generalize hall : utf8EncodeChar c ++ bs = all at h'
    cases h' with
    | nil => simp [String.utf8EncodeChar_ne_nil] at hall
    | char c' hrest =>
      obtain ⟨rfl, rfl⟩ := encode_inj hall
      rw [ih hrest]
    | invalid hpart _ => exact absurd ⟨bs, hall⟩ (hpart.not_char c)
  | @invalid part bs cs hpart _ ih =>
    generalize hall : part ++ bs = all at h'
    cases h' with
    | nil => simp [hpart.ne_nil] at hall
    | @char bs' cs' c' _ => exact absurd ⟨bs', hall.symm⟩ (hpart.not_char c')
    | @invalid part' bs' cs' hpart' hrest =>
      have hlength : part.length = part'.length :=
        Nat.le_antisymm (hpart'.begins hpart hall.symm).length_le
          (hpart.begins hpart' hall).length_le
      obtain ⟨rfl, rfl⟩ := List.append_inj hall hlength
      rw [ih hrest]

private theorem toNat_cases (c : Char) :
    c.toNat < 0xD800 ∨ 0xDFFF < c.toNat ∧ c.toNat < 0x110000 := c.valid

variable {t : List UInt8}

private theorem encode_cons_cases (h : utf8EncodeChar c = b :: t) :
    (t = [] ∧ c.toNat < 0x80 ∧ b.toNat = c.toNat) ∨
    (∃ y, t = [y] ∧ 0x80 ≤ c.toNat ∧ c.toNat < 0x800 ∧
      b.toNat = c.toNat / 64 + 0xC0 ∧ y.toNat = c.toNat % 64 + 0x80) ∨
    (∃ y z, t = [y, z] ∧ 0x800 ≤ c.toNat ∧ c.toNat < 0x10000 ∧
      b.toNat = c.toNat / 4096 + 0xE0 ∧ y.toNat = c.toNat / 64 % 64 + 0x80 ∧
      z.toNat = c.toNat % 64 + 0x80) ∨
    (∃ y z w, t = [y, z, w] ∧ 0x10000 ≤ c.toNat ∧
      b.toNat = c.toNat / 262144 + 0xF0 ∧ y.toNat = c.toNat / 4096 % 64 + 0x80 ∧
      z.toNat = c.toNat / 64 % 64 + 0x80 ∧ w.toNat = c.toNat % 64 + 0x80) := by
  have hval : c.val.toNat = c.toNat := rfl
  have hvalid := toNat_cases c
  have hbyte : ∀ {m n : Nat}, m < 256 → m = n → m.toUInt8.toNat = n := by
    rintro m n hm rfl
    exact UInt8.toNat_ofNat_of_lt' hm
  simp only [utf8EncodeChar, hval] at h
  repeat' split at h
  · obtain ⟨rfl, rfl⟩ := List.cons.inj h
    exact .inl ⟨rfl, by omega, hbyte (by omega) rfl⟩
  · obtain ⟨rfl, rfl⟩ := List.cons.inj h
    exact .inr (.inl ⟨_, rfl, by omega, by omega, hbyte (by omega) (by omega),
      hbyte (by omega) rfl⟩)
  · obtain ⟨rfl, rfl⟩ := List.cons.inj h
    exact .inr (.inr (.inl ⟨_, _, rfl, by omega, by omega, hbyte (by omega) (by omega),
      hbyte (by omega) rfl, hbyte (by omega) rfl⟩))
  · obtain ⟨rfl, rfl⟩ := List.cons.inj h
    exact .inr (.inr (.inr ⟨_, _, _, rfl, by omega, hbyte (by omega) (by omega),
      hbyte (by omega) rfl, hbyte (by omega) rfl, hbyte (by omega) rfl⟩))

private theorem exists_encode (c : Char) : ∃ b t, utf8EncodeChar c = b :: t :=
  List.exists_cons_of_ne_nil String.utf8EncodeChar_ne_nil

/-- The bytes that complete a character of which `more + 1` bytes are missing. -/
def Completes (low high : UInt8) : Nat → List UInt8 → Prop
  | 0, t => ∃ b, t = [b] ∧ low ≤ b ∧ b ≤ high
  | more + 1, t => ∃ b t', t = b :: t' ∧ (low ≤ b ∧ b ≤ high) ∧ Completes 0x80 0xBF more t'

/-- The bits of a character with those of one more byte. -/
def extend (value : Nat) (b : UInt8) : Nat := value * 64 + (b.toNat - 0x80)

/-- The bytes of `part` are the beginning of exactly the characters that the state is open for. -/
structure IsOpen (part : List UInt8) (value : Nat) (low high : UInt8) (more : Nat) : Prop where
  ne_nil : part ≠ []
  low_le : low ≤ high
  complete : ∀ t, Completes low high more t →
    utf8EncodeChar (Char.ofNat (t.foldl extend value)) = part ++ t
  only : ∀ c t, utf8EncodeChar c = part ++ t → Completes low high more t

variable {value more : Nat} {low high : UInt8}

private theorem exists_completes (h : low ≤ high) (more : Nat) :
    ∃ t, Completes low high more t := by
  induction more generalizing low high with
  | zero => exact ⟨[low], low, rfl, UInt8.le_refl low, h⟩
  | succ more ih =>
    obtain ⟨t, ht⟩ := ih (show (0x80 : UInt8) ≤ 0xBF by decide)
    exact ⟨low :: t, low, t, rfl, ⟨UInt8.le_refl low, h⟩, ht⟩

theorem Completes.head (h : Completes low high more t) : ∃ b t', t = b :: t' ∧ low ≤ b ∧ b ≤ high := by
  cases more with
  | zero =>
    obtain ⟨b, rfl, hb⟩ := h
    exact ⟨b, [], rfl, hb⟩
  | succ more =>
    obtain ⟨b, t', rfl, hb, -⟩ := h
    exact ⟨b, t', rfl, hb⟩

namespace IsOpen

private theorem opens (h : IsOpen part value low high more) : Opens part := by
  obtain ⟨t, ht⟩ := exists_completes h.low_le more
  exact ⟨h.ne_nil, _, t, (h.complete t ht).symm⟩

/-- The last byte that is missing completes a character. -/
theorem last (h : IsOpen part value low high 0) (hb : low ≤ b ∧ b ≤ high) :
    utf8EncodeChar (Char.ofNat (extend value b)) = part ++ [b] :=
  h.complete [b] ⟨b, rfl, hb⟩

/-- An earlier one leaves the character open. -/
theorem next (h : IsOpen part value low high (more + 1)) (hb : low ≤ b ∧ b ≤ high) :
    IsOpen (part ++ [b]) (extend value b) 0x80 0xBF more where
  ne_nil := by simp
  low_le := by decide
  complete t ht := by
    have hcomplete := h.complete (b :: t) ⟨b, t, rfl, hb, ht⟩
    rwa [List.foldl_cons, List.append_cons] at hcomplete
  only c t hc := by
    rw [List.append_assoc, List.singleton_append] at hc
    obtain ⟨b', t', heq, -, ht⟩ := h.only c (b :: t) hc
    obtain ⟨rfl, rfl⟩ := List.cons.inj heq
    exact ht

private theorem isInvalidPart (h : IsOpen part value low high more)
    (hrest : ∀ b ∈ rest.head?, ¬(low ≤ b ∧ b ≤ high)) : IsInvalidPart part rest where
  not_char c hc := by
    rcases List.prefix_or_prefix_of_prefix hc (List.prefix_append part rest) with hle | ⟨t, ht⟩
    · obtain ⟨t, ht⟩ := exists_completes h.low_le more
      obtain ⟨short, rfl⟩ := hle
      have hlonger := h.complete t ht
      rw [← List.append_nil (utf8EncodeChar (Char.ofNat _)), List.append_assoc] at hlonger
      obtain ⟨-, hnil⟩ := encode_inj hlonger
      obtain ⟨b, t', rfl, -⟩ := ht.head
      simp at hnil
    · obtain ⟨b, t', rfl, hb⟩ := (h.only c t ht.symm).head
      rw [← ht, List.prefix_append_right_inj] at hc
      obtain ⟨rest', rfl⟩ := hc
      exact hrest b rfl hb
  longest := by
    refine .inl ⟨h.opens, ?_⟩
    rintro b hb ⟨-, c, t, hc⟩
    rw [List.append_assoc, List.singleton_append] at hc
    obtain ⟨b', t', heq, hin⟩ := (h.only c (b :: t) hc.symm).head
    obtain ⟨rfl, -⟩ := List.cons.inj heq
    exact hrest b hb hin

end IsOpen

private theorem toNat_ofNat {n : Nat} (h : n < 0xD800 ∨ 0xDFFF < n ∧ n < 0x110000) :
    (Char.ofNat n).toNat = n := by
  have hvalid : n.isValidChar := h
  rw [Char.ofNat, dif_pos hvalid]
  exact UInt32.toNat_ofNatLT

private theorem le_and_le_iff :
    low ≤ b ∧ b ≤ high ↔ low.toNat ≤ b.toNat ∧ b.toNat ≤ high.toNat := by
  rw [UInt8.le_iff_toNat_le, UInt8.le_iff_toNat_le]

private theorem tail_iff :
    (0x80 : UInt8) ≤ b ∧ b ≤ 0xBF ↔ 0x80 ≤ b.toNat ∧ b.toNat ≤ 0xBF := le_and_le_iff

variable {y z w : UInt8}

private theorem encode_two (hb : 0xC2 ≤ b.toNat ∧ b.toNat ≤ 0xDF)
    (hy : 0x80 ≤ y.toNat ∧ y.toNat ≤ 0xBF)
    (hc : c.toNat = extend (b.toNat - 0xC0) y) : utf8EncodeChar c = [b, y] := by
  unfold extend at hc
  obtain ⟨b', t, h⟩ := exists_encode c
  rcases encode_cons_cases h with ⟨rfl, hbytes⟩ | ⟨y', rfl, hbytes⟩ | ⟨y', z', rfl, hbytes⟩ |
    ⟨y', z', w', rfl, hbytes⟩
  · omega
  · obtain rfl : b' = b := UInt8.toNat_inj.mp (by omega)
    obtain rfl : y' = y := UInt8.toNat_inj.mp (by omega)
    exact h
  · omega
  · omega

private theorem isOpen_two (hb : 0xC2 ≤ b.toNat ∧ b.toNat ≤ 0xDF) :
    IsOpen [b] (b.toNat - 0xC0) 0x80 0xBF 0 where
  ne_nil := by simp
  low_le := by decide
  complete t ht := by
    obtain ⟨y, rfl, hy⟩ := ht
    rw [tail_iff] at hy
    rw [List.foldl_cons, List.foldl_nil]
    exact encode_two hb hy (toNat_ofNat (by unfold extend; omega))
  only c t h := by
    rw [List.singleton_append] at h
    rcases encode_cons_cases h with ⟨rfl, hbytes⟩ | ⟨y, rfl, hbytes⟩ | ⟨y, z, rfl, hbytes⟩ |
      ⟨y, z, w, rfl, hbytes⟩
    · omega
    · exact ⟨y, rfl, tail_iff.mpr (by omega)⟩
    · omega
    · omega

private theorem encode_three (hb : 0xE0 ≤ b.toNat ∧ b.toNat ≤ 0xEF)
    (hy : 0x80 ≤ y.toNat ∧ y.toNat ≤ 0xBF) (hz : 0x80 ≤ z.toNat ∧ z.toNat ≤ 0xBF)
    (hlow : b.toNat = 0xE0 → 0xA0 ≤ y.toNat) (hc : c.toNat = extend (extend (b.toNat - 0xE0) y) z) :
    utf8EncodeChar c = [b, y, z] := by
  unfold extend at hc
  obtain ⟨b', t, h⟩ := exists_encode c
  rcases encode_cons_cases h with ⟨rfl, hbytes⟩ | ⟨y', rfl, hbytes⟩ | ⟨y', z', rfl, hbytes⟩ |
    ⟨y', z', w', rfl, hbytes⟩
  · omega
  · omega
  · obtain rfl : b' = b := UInt8.toNat_inj.mp (by omega)
    obtain rfl : y' = y := UInt8.toNat_inj.mp (by omega)
    obtain rfl : z' = z := UInt8.toNat_inj.mp (by omega)
    exact h
  · omega

private theorem isOpen_three (hb : 0xE0 ≤ b.toNat ∧ b.toNat ≤ 0xEF)
    (hlow : low.toNat = if b.toNat = 0xE0 then 0xA0 else 0x80)
    (hhigh : high.toNat = if b.toNat = 0xED then 0x9F else 0xBF) :
    IsOpen [b] (b.toNat - 0xE0) low high 1 where
  ne_nil := by simp
  low_le := by
    rw [UInt8.le_iff_toNat_le, hlow, hhigh]
    split_ifs <;> omega
  complete t ht := by
    obtain ⟨y, t, rfl, hy, z, rfl, hz⟩ := ht
    rw [le_and_le_iff, hlow, hhigh] at hy
    rw [tail_iff] at hz
    rw [List.foldl_cons, List.foldl_cons, List.foldl_nil]
    refine encode_three hb ?_ hz ?_ (toNat_ofNat ?_)
    · split_ifs at hy <;> omega
    · split_ifs at hy <;> omega
    · unfold extend
      split_ifs at hy <;> omega
  only c t h := by
    rw [List.singleton_append] at h
    rcases encode_cons_cases h with ⟨rfl, hbytes⟩ | ⟨y, rfl, hbytes⟩ | ⟨y, z, rfl, hbytes⟩ |
      ⟨y, z, w, rfl, hbytes⟩
    · omega
    · omega
    · have hvalid := toNat_cases c
      refine ⟨y, [z], rfl, ?_, z, rfl, tail_iff.mpr (by omega)⟩
      rw [le_and_le_iff, hlow, hhigh]
      split_ifs <;> omega
    · omega

private theorem encode_four (hb : 0xF0 ≤ b.toNat ∧ b.toNat ≤ 0xF4)
    (hy : 0x80 ≤ y.toNat ∧ y.toNat ≤ 0xBF) (hz : 0x80 ≤ z.toNat ∧ z.toNat ≤ 0xBF)
    (hw : 0x80 ≤ w.toNat ∧ w.toNat ≤ 0xBF) (hlow : b.toNat = 0xF0 → 0x90 ≤ y.toNat)
    (hc : c.toNat = extend (extend (extend (b.toNat - 0xF0) y) z) w) :
    utf8EncodeChar c = [b, y, z, w] := by
  unfold extend at hc
  obtain ⟨b', t, h⟩ := exists_encode c
  rcases encode_cons_cases h with ⟨rfl, hbytes⟩ | ⟨y', rfl, hbytes⟩ | ⟨y', z', rfl, hbytes⟩ |
    ⟨y', z', w', rfl, hbytes⟩
  · omega
  · omega
  · omega
  · obtain rfl : b' = b := UInt8.toNat_inj.mp (by omega)
    obtain rfl : y' = y := UInt8.toNat_inj.mp (by omega)
    obtain rfl : z' = z := UInt8.toNat_inj.mp (by omega)
    obtain rfl : w' = w := UInt8.toNat_inj.mp (by omega)
    exact h

private theorem isOpen_four (hb : 0xF0 ≤ b.toNat ∧ b.toNat ≤ 0xF4)
    (hlow : low.toNat = if b.toNat = 0xF0 then 0x90 else 0x80)
    (hhigh : high.toNat = if b.toNat = 0xF4 then 0x8F else 0xBF) :
    IsOpen [b] (b.toNat - 0xF0) low high 2 where
  ne_nil := by simp
  low_le := by
    rw [UInt8.le_iff_toNat_le, hlow, hhigh]
    split_ifs <;> omega
  complete t ht := by
    obtain ⟨y, t, rfl, hy, z, t', rfl, hz, w, rfl, hw⟩ := ht
    rw [le_and_le_iff, hlow, hhigh] at hy
    rw [tail_iff] at hz hw
    rw [List.foldl_cons, List.foldl_cons, List.foldl_cons, List.foldl_nil]
    refine encode_four hb ?_ hz hw ?_ (toNat_ofNat ?_)
    · split_ifs at hy <;> omega
    · split_ifs at hy <;> omega
    · unfold extend
      split_ifs at hy <;> omega
  only c t h := by
    rw [List.singleton_append] at h
    rcases encode_cons_cases h with ⟨rfl, hbytes⟩ | ⟨y, rfl, hbytes⟩ | ⟨y, z, rfl, hbytes⟩ |
      ⟨y, z, w, rfl, hbytes⟩
    · omega
    · omega
    · omega
    · have hvalid := toNat_cases c
      refine ⟨y, [z, w], rfl, ?_, z, [w], rfl, tail_iff.mpr (by omega), w, rfl,
        tail_iff.mpr (by omega)⟩
      rw [le_and_le_iff, hlow, hhigh]
      split_ifs <;> omega

private theorem encode_one (hb : b.toNat < 0x80) (hc : c.toNat = b.toNat) :
    utf8EncodeChar c = [b] := by
  obtain ⟨b', t, h⟩ := exists_encode c
  rcases encode_cons_cases h with ⟨rfl, hbytes⟩ | ⟨y', rfl, hbytes⟩ | ⟨y', z', rfl, hbytes⟩ |
    ⟨y', z', w', rfl, hbytes⟩
  · obtain rfl : b' = b := UInt8.toNat_inj.mp (by omega)
    exact h
  · omega
  · omega
  · omega

private theorem not_opens (hb : 0x80 ≤ b.toNat ∧ b.toNat < 0xC2 ∨ 0xF4 < b.toNat) : ¬Opens [b] := by
  rintro ⟨-, c, t, h⟩
  have hvalid := toNat_cases c
  rcases encode_cons_cases h.symm with ⟨-, hbytes⟩ | ⟨y, -, hbytes⟩ | ⟨y, z, -, hbytes⟩ |
    ⟨y, z, w, -, hbytes⟩
  all_goals omega

private theorem start_cases (b : UInt8) :
    (∃ c, utf8EncodeChar c = [b] ∧ start b = ([.char c], .idle)) ∨
    (∃ value low high more, IsOpen [b] value low high more ∧
      start b = ([], .within value low high more)) ∨
    ¬Opens [b] ∧ start b = ([.invalid], .idle) := by
  generalize hstart : start b = out
  simp only [start, Bool.and_eq_true, decide_eq_true_eq, beq_iff_eq] at hstart
  repeat' split at hstart
  all_goals subst hstart
  · next h1 => exact .inl ⟨_, encode_one h1 (toNat_ofNat (by omega)), rfl⟩
  · next h2 => exact .inr (.inl ⟨_, _, _, _, isOpen_two h2, rfl⟩)
  · next hE0 =>
    have hopen : IsOpen [b] (b.toNat - 0xE0) 0xA0 0xBF 1 :=
      isOpen_three (by omega) (by rw [if_pos hE0]; rfl) (by rw [if_neg (by omega)]; rfl)
    rw [hE0] at hopen
    exact .inr (.inl ⟨_, _, _, _, hopen, rfl⟩)
  · next hE0 hED =>
    have hopen : IsOpen [b] (b.toNat - 0xE0) 0x80 0x9F 1 :=
      isOpen_three (by omega) (by rw [if_neg hE0]; rfl) (by rw [if_pos hED]; rfl)
    rw [hED] at hopen
    exact .inr (.inl ⟨_, _, _, _, hopen, rfl⟩)
  · next hE0 hED _ =>
    have hopen : IsOpen [b] (b.toNat - 0xE0) 0x80 0xBF 1 :=
      isOpen_three (by omega) (by rw [if_neg hE0]; rfl) (by rw [if_neg hED]; rfl)
    exact .inr (.inl ⟨_, _, _, _, hopen, rfl⟩)
  · next hF0 =>
    have hopen : IsOpen [b] (b.toNat - 0xF0) 0x90 0xBF 2 :=
      isOpen_four (by omega) (by rw [if_pos hF0]; rfl) (by rw [if_neg (by omega)]; rfl)
    rw [hF0] at hopen
    exact .inr (.inl ⟨_, _, _, _, hopen, rfl⟩)
  · next hF0 _ =>
    have hopen : IsOpen [b] (b.toNat - 0xF0) 0x80 0xBF 2 :=
      isOpen_four (by omega) (by rw [if_neg hF0]; rfl) (by rw [if_neg (by omega)]; rfl)
    exact .inr (.inl ⟨_, _, _, _, hopen, rfl⟩)
  · next hF0 _ hF4 =>
    have hopen : IsOpen [b] (b.toNat - 0xF0) 0x80 0x8F 2 :=
      isOpen_four (by omega) (by rw [if_neg hF0]; rfl) (by rw [if_pos hF4]; rfl)
    rw [hF4] at hopen
    exact .inr (.inl ⟨_, _, _, _, hopen, rfl⟩)
  · exact .inr (.inr ⟨not_opens (by omega), rfl⟩)

private theorem isInvalidPart_singleton (h : ¬Opens [b]) : IsInvalidPart [b] rest where
  not_char c hc := by
    refine h ⟨by simp, c, ?_⟩
    obtain ⟨x, t, hx⟩ := exists_encode c
    rw [hx] at hc ⊢
    obtain ⟨rfl, -⟩ := List.cons_prefix_cons.mp hc
    exact List.prefix_append [x] t
  longest := .inr ⟨b, rfl, h⟩

/-- The bytes of an open character and those that follow have a text, and the decoder, open for
that character, finds it. -/
theorem decodes_pieces (bs : List UInt8) :
    Decodes bs ((pieces .idle bs).map Piece.toChar) ∧
      ∀ part value low high more, IsOpen part value low high more →
        Decodes (part ++ bs) ((pieces (.within value low high more) bs).map Piece.toChar) := by
  induction bs with
  | nil =>
    refine ⟨.nil, fun part value low high more hopen => ?_⟩
    exact .invalid (hopen.isInvalidPart (by simp)) .nil
  | cons b bs ih =>
    obtain ⟨hidle, hwithin⟩ := ih
    have hstart : Decodes (b :: bs) (((start b).1 ++ pieces (start b).2 bs).map Piece.toChar) := by
      rcases start_cases b with ⟨c, hc, h⟩ | ⟨value, low, high, more, hopen, h⟩ | ⟨hnot, h⟩
      · rw [h, ← List.singleton_append, ← hc]
        exact .char c hidle
      · rw [h]
        exact hwithin [b] value low high more hopen
      · rw [h]
        exact .invalid (isInvalidPart_singleton hnot) hidle
    refine ⟨hstart, fun part value low high more hopen => ?_⟩
    by_cases hb : low ≤ b ∧ b ≤ high
    · have hin : (decide (low ≤ b) && decide (b ≤ high)) = true := by simpa using hb
      cases more with
      | zero =>
        rw [pieces, step, if_pos hin, List.append_cons, ← hopen.last hb]
        exact .char _ hidle
      | succ more =>
        rw [pieces, step, if_pos hin, List.append_cons]
        exact hwithin _ _ _ _ _ (hopen.next hb)
    · have hout : ¬(decide (low ≤ b) && decide (b ≤ high)) = true := by simpa using hb
      have hpart : IsInvalidPart part (b :: bs) := by
        refine hopen.isInvalidPart fun x hx => ?_
        obtain rfl : b = x := by simpa using hx
        exact hb
      rw [pieces, step, if_neg hout]
      exact .invalid hpart hstart

/-- The decoder finds the text of any bytes. -/
theorem decodes_iff {bs : List UInt8} {cs : List Char} : Decodes bs cs ↔ cs = decodeLossy bs := by
  have hdecode : Decodes bs (decodeLossy bs) := (decodes_pieces bs).1
  constructor
  · intro h
    exact h.unique hdecode
  · rintro rfl
    exact hdecode

/-- No byte of an open character is an ASCII byte. -/
def State.Guarded : State → Prop
  | .idle => True
  | .within _ low _ _ => 0x80 ≤ low.toNat

private theorem guarded_start (b : UInt8) : (start b).2.Guarded := by
  unfold start
  dsimp only
  repeat' split
  all_goals first | exact trivial | exact Nat.le_of_ble_eq_true rfl

private theorem guarded_step {s : State} (h : s.Guarded) (b : UInt8) : (step s b).2.Guarded := by
  cases s with
  | idle => exact guarded_start b
  | within value low high more =>
    rw [step]
    split_ifs
    · cases more with
      | zero => trivial
      | succ more => exact Nat.le_refl 0x80
    · exact guarded_start b

private theorem pieces_cons (s : State) (b : UInt8) (bs : List UInt8) :
    pieces s (b :: bs) = (step s b).1 ++ pieces (step s b).2 bs := rfl

private theorem pieces_append_ascii {s : State} (hs : s.Guarded) (hb : b.toNat < 0x80) :
    pieces s (bs ++ b :: rest) = pieces s bs ++ .char (Char.ofNat b.toNat) :: pieces .idle rest := by
  induction bs generalizing s with
  | nil =>
    have hlow : ∀ v low high more, s = .within v low high more → 0x80 ≤ low.toNat := by
      rintro v low high more rfl
      exact hs
    rw [List.nil_append, pieces_cons, step_ascii s hb hlow, List.append_assoc]
    rfl
  | cons x bs ih =>
    rw [List.cons_append, pieces_cons, pieces_cons, ih (guarded_step hs x), List.append_assoc]

/-- An ASCII byte ends what stands before it. -/
theorem decodeLossy_append_ascii (hb : b.toNat < 0x80) (bs rest : List UInt8) :
    decodeLossy (bs ++ b :: rest) =
      decodeLossy bs ++ Char.ofNat b.toNat :: decodeLossy rest := by
  have hidle : State.idle.Guarded := trivial
  rw [decodeLossy, pieces_append_ascii hidle hb, List.map_append, List.map_cons]
  rfl

private theorem encode_ascii (hb : b.toNat < 0x80) : utf8EncodeChar (Char.ofNat b.toNat) = [b] :=
  encode_one hb (toNat_ofNat (by omega))

/-- An ASCII character of the text stands for its own byte. -/
theorem mem_decodeLossy (hb : b.toNat < 0x80) : Char.ofNat b.toNat ∈ decodeLossy bs ↔ b ∈ bs := by
  constructor
  · intro h
    have hdecodes := decodes_iff.mpr (rfl : decodeLossy bs = decodeLossy bs)
    generalize decodeLossy bs = cs at h hdecodes
    induction hdecodes with
    | nil => simp at h
    | char c _ ih =>
      rcases List.mem_cons.mp h with rfl | h
      · rw [encode_ascii hb]
        exact List.mem_cons_self
      · exact List.mem_append_right _ (ih h)
    | invalid _ _ ih =>
      rcases List.mem_cons.mp h with hc | h
      · have hreplacement : (Char.ofNat b.toNat).toNat = 0xFFFD := congrArg Char.toNat hc
        rw [toNat_ofNat (by omega)] at hreplacement
        omega
      · exact List.mem_append_right _ (ih h)
  · intro h
    obtain ⟨before, rest, rfl⟩ := List.append_of_mem h
    rw [decodeLossy_append_ascii hb]
    exact List.mem_append_right _ List.mem_cons_self

theorem decodeLossy_eq_nil : decodeLossy bs = [] ↔ bs = [] := by
  constructor
  · intro h
    generalize hcs : decodeLossy bs = cs at h
    cases decodes_iff.mpr hcs.symm with
    | nil => rfl
    | char _ _ => cases h
    | invalid _ _ => cases h
  · rintro rfl
    rfl

theorem getLast?_decodeLossy (hb : b.toNat < 0x80) :
    (decodeLossy bs).getLast? = some (Char.ofNat b.toNat) ↔ bs.getLast? = some b := by
  constructor
  · intro h
    have hmem : b ∈ bs := (mem_decodeLossy hb).mp (List.mem_of_getLast? h)
    obtain ⟨after, before, hbs, hnot⟩ := List.eq_append_cons_of_mem (List.mem_reverse.mpr hmem)
    obtain rfl : bs = before.reverse ++ b :: after.reverse := by
      rw [← List.reverse_reverse bs, hbs]
      simp
    rw [decodeLossy_append_ascii hb, List.getLast?_append_cons] at h
    cases hafter : decodeLossy after.reverse with
    | nil =>
      rw [decodeLossy_eq_nil.mp hafter]
      simp
    | cons c cs =>
      rw [hafter, List.getLast?_cons_cons, ← hafter] at h
      have hlater := (mem_decodeLossy hb).mp (List.mem_of_getLast? h)
      exact absurd (List.mem_reverse.mp hlater) hnot
  · intro h
    obtain ⟨before, rfl⟩ := List.getLast?_eq_some_iff.mp h
    rw [decodeLossy_append_ascii hb, decodeLossy_eq_nil.mpr rfl, List.getLast?_concat]

end LeakTrace.Text.Utf8
