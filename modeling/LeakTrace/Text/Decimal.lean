namespace LeakTrace.Text

def digits (n : Nat) : List Char := Nat.toDigits 10 n

/-- The value of a text made of ASCII digits alone, of which there is at least one. -/
def digitsValue? (cs : List Char) : Option Nat :=
  if cs ≠ [] ∧ cs.all Char.isDigit then some (Nat.ofDigitChars 10 cs 0) else none

/-- A natural number after an optional plus sign. -/
def readNat? : List Char → Option Nat
  | '+' :: cs => digitsValue? cs
  | cs => digitsValue? cs

/-- A whole number after an optional sign. -/
def readInt? : List Char → Option Int
  | '-' :: cs => (digitsValue? cs).map fun n => -(n : Int)
  | cs => (readNat? cs).map Int.ofNat

def readUInt32? (cs : List Char) : Option UInt32 :=
  (readNat? cs).bind fun n => if n < UInt32.size then some (UInt32.ofNat n) else none

def readUInt64? (cs : List Char) : Option UInt64 :=
  (readNat? cs).bind fun n => if n < UInt64.size then some (UInt64.ofNat n) else none

def readInt64? (cs : List Char) : Option Int64 :=
  (readInt? cs).bind fun n =>
    if Int64.minValue.toInt ≤ n ∧ n ≤ Int64.maxValue.toInt then some (Int64.ofInt n) else none

/-- The shortest decimal form of a whole number. -/
def ofInt : Int → List Char
  | .ofNat n => digits n
  | .negSucc n => '-' :: digits (n + 1)

def ofUInt32 (n : UInt32) : List Char := digits n.toNat

def ofUInt64 (n : UInt64) : List Char := digits n.toNat

def ofInt64 (n : Int64) : List Char := ofInt n.toInt

private theorem digits_ne_nil (n : Nat) : digits n ≠ [] := Nat.toDigits_ne_nil

theorem isDigit_of_mem_digits {n : Nat} {c : Char} (h : c ∈ digits n) : c.isDigit = true :=
  Nat.isDigit_of_mem_toDigits (by decide) (by decide) h

@[simp] theorem digitsValue?_digits (n : Nat) : digitsValue? (digits n) = some n := by
  have hd : (digits n).all Char.isDigit = true :=
    List.all_eq_true.mpr fun _ h => isDigit_of_mem_digits h
  simp only [digitsValue?, digits_ne_nil, ne_eq, not_false_eq_true, hd, and_self, if_true]
  exact congrArg some (Nat.ofDigitChars_toDigits (by decide) (by decide))

private theorem digits_eq_cons (n : Nat) : ∃ c cs, digits n = c :: cs ∧ c.isDigit = true := by
  cases h : digits n with
  | nil => exact absurd h (digits_ne_nil n)
  | cons c cs => exact ⟨c, cs, rfl, isDigit_of_mem_digits (n := n) (by simp [h])⟩

@[simp] theorem readNat?_digits (n : Nat) : readNat? (digits n) = some n := by
  obtain ⟨c, cs, h, hc⟩ := digits_eq_cons n
  rw [readNat?, digitsValue?_digits]
  rintro cs' h'
  rw [h'] at h
  obtain ⟨rfl, -⟩ := List.cons.inj h
  exact absurd hc (by decide)

@[simp] theorem readInt?_ofInt (n : Int) : readInt? (ofInt n) = some n := by
  cases n with
  | ofNat n =>
    obtain ⟨c, cs, h, hc⟩ := digits_eq_cons n
    rw [ofInt, readInt?, readNat?_digits]
    · rfl
    · rintro cs' h'
      rw [h'] at h
      obtain ⟨rfl, -⟩ := List.cons.inj h
      exact absurd hc (by decide)
  | negSucc n => simp [ofInt, readInt?, Int.negSucc_eq]

@[simp] theorem readUInt64?_ofUInt64 (n : UInt64) : readUInt64? (ofUInt64 n) = some n := by
  simp [readUInt64?, ofUInt64, n.toNat_lt_size]

@[simp] theorem readUInt32?_ofUInt32 (n : UInt32) : readUInt32? (ofUInt32 n) = some n := by
  simp [readUInt32?, ofUInt32, n.toNat_lt_size]

@[simp] theorem readInt64?_ofInt64 (n : Int64) : readInt64? (ofInt64 n) = some n := by
  have h : Int64.minValue.toInt ≤ n.toInt ∧ n.toInt ≤ Int64.maxValue.toInt :=
    ⟨n.minValue_le_toInt, n.toInt_le⟩
  rw [readInt64?, ofInt64, readInt?_ofInt, Option.bind_some, if_pos h, Int64.ofInt_toInt]

theorem mem_ofInt64 {n : Int64} {c : Char} (h : c ∈ ofInt64 n) : c.isDigit = true ∨ c = '-' := by
  rw [ofInt64] at h
  cases hn : n.toInt with
  | ofNat n =>
    rw [hn] at h
    exact .inl (isDigit_of_mem_digits h)
  | negSucc n =>
    rw [hn] at h
    rcases List.mem_cons.mp h with rfl | h
    · exact .inr rfl
    · exact .inl (isDigit_of_mem_digits h)

end LeakTrace.Text
