import LeakTrace.Text.Utf8
import Std.Data.TreeMap

namespace LeakTrace

/-- The instructions of one method by line number. -/
abbrev Code := Std.TreeMap String String

/-- The code of each method of a class. -/
abbrev ClassTable := Std.TreeMap String Code

namespace ClassTable

/-- The parts of a table's text that are not white space. -/
inductive Token
  | left
  | right
  | colon
  | comma
  | string (text : String)
deriving DecidableEq, Repr

def hexDigit? (c : Char) : Option Nat :=
  if '0' ≤ c ∧ c ≤ '9' then some (c.toNat - '0'.toNat)
  else if 'a' ≤ c ∧ c ≤ 'f' then some (c.toNat - 'a'.toNat + 10)
  else if 'A' ≤ c ∧ c ≤ 'F' then some (c.toNat - 'A'.toNat + 10)
  else none

/-- Four hexadecimal digits. -/
def readHex : List Char → Option (Nat × List Char)
  | a :: b :: c :: d :: rest => do
    let a ← hexDigit? a
    let b ← hexDigit? b
    let c ← hexDigit? c
    let d ← hexDigit? d
    return (((a * 16 + b) * 16 + c) * 16 + d, rest)
  | _ => none

/-- A code point by its number; one beyond U+FFFF is written as two surrogates, and a surrogate
stands for nothing alone. -/
def readCodePoint (cs : List Char) : Option (Char × List Char) := do
  let (n, rest) ← readHex cs
  if 0xD800 ≤ n ∧ n ≤ 0xDBFF then
    match rest with
    | '\\' :: 'u' :: rest =>
      let (m, rest) ← readHex rest
      if 0xDC00 ≤ m ∧ m ≤ 0xDFFF then
        some (Char.ofNat (0x10000 + (n - 0xD800) * 0x400 + (m - 0xDC00)), rest)
      else none
    | _ => none
  else if 0xDC00 ≤ n ∧ n ≤ 0xDFFF then none
  else some (Char.ofNat n, rest)

/-- The character that an escape stands for, from what follows the backslash. -/
def readEscape : List Char → Option (Char × List Char)
  | '"' :: rest => some ('"', rest)
  | '\\' :: rest => some ('\\', rest)
  | '/' :: rest => some ('/', rest)
  | 'b' :: rest => some ('\x08', rest)
  | 'f' :: rest => some ('\x0c', rest)
  | 'n' :: rest => some ('\n', rest)
  | 'r' :: rest => some ('\r', rest)
  | 't' :: rest => some ('\t', rest)
  | 'u' :: rest => readCodePoint rest
  | _ => none

private theorem length_le_of_readHex {cs rest : List Char} {n : Nat}
    (h : readHex cs = some (n, rest)) :
    rest.length ≤ cs.length := by
  match cs with
  | [] | [_] | [_, _] | [_, _, _] => simp [readHex] at h
  | a :: b :: c :: d :: rest' =>
    simp only [readHex, Option.bind_eq_bind, Option.bind_eq_some_iff, Option.pure_def,
      Option.some.injEq, Prod.mk.injEq] at h
    obtain ⟨_, -, _, -, _, -, _, -, -, rfl⟩ := h
    simp only [List.length_cons]
    omega

private theorem length_le_of_readCodePoint {cs rest : List Char} {c : Char}
    (h : readCodePoint cs = some (c, rest)) : rest.length ≤ cs.length := by
  simp only [readCodePoint, Option.bind_eq_bind, Option.bind_eq_some_iff, Prod.exists] at h
  obtain ⟨n, r, hr, h⟩ := h
  have hle := length_le_of_readHex hr
  split at h
  · split at h
    · next r' =>
      simp only [Option.bind_eq_some_iff, Prod.exists] at h
      obtain ⟨m, r'', hm, h⟩ := h
      have := length_le_of_readHex hm
      split at h
      · obtain ⟨-, rfl⟩ := Prod.mk.inj (Option.some.inj h)
        simp only [List.length_cons] at hle
        omega
      · simp at h
    · simp at h
  · split at h
    · simp at h
    · obtain ⟨-, rfl⟩ := Prod.mk.inj (Option.some.inj h)
      exact hle

private theorem length_le_of_readEscape {cs rest : List Char} {c : Char}
    (h : readEscape cs = some (c, rest)) : rest.length ≤ cs.length := by
  unfold readEscape at h
  split at h
  case h_9 => have := length_le_of_readCodePoint h; simp only [List.length_cons]; omega
  case h_10 => simp at h
  all_goals
    obtain ⟨-, rfl⟩ := Prod.mk.inj (Option.some.inj h)
    simp

/-- The text of a string, from what follows the opening quote. Control characters are refused. -/
def readString (cs : List Char) : Option (List Char × List Char) :=
  match cs with
  | [] => none
  | '"' :: rest => some ([], rest)
  | '\\' :: rest =>
    match _h : readEscape rest with
    | none => none
    | some (c, rest') => (readString rest').map fun (text, rest) => (c :: text, rest)
  | c :: rest =>
    if c.toNat < 0x20 then none
    else (readString rest).map fun (text, rest) => (c :: text, rest)
termination_by cs.length
decreasing_by
  · have := length_le_of_readEscape _h
    simp only [List.length_cons]
    omega
  · simp

private theorem length_lt_of_readString {cs text rest : List Char}
    (h : readString cs = some (text, rest)) : rest.length < cs.length := by
  fun_induction readString cs generalizing text with
  | case1 => simp at h
  | case2 rest' =>
    obtain ⟨-, rfl⟩ := Prod.mk.inj (Option.some.inj h)
    simp
  | case3 => simp at h
  | case4 rest' c rest'' he ih =>
    obtain ⟨⟨t, r⟩, hr, heq⟩ := Option.map_eq_some_iff.mp h
    obtain ⟨-, rfl⟩ := Prod.mk.inj heq
    have := ih hr
    have := length_le_of_readEscape he
    simp only [List.length_cons]
    omega
  | case5 => simp at h
  | case6 c rest' _ _ _ ih =>
    obtain ⟨⟨t, r⟩, hr, heq⟩ := Option.map_eq_some_iff.mp h
    obtain ⟨-, rfl⟩ := Prod.mk.inj heq
    have := ih hr
    simp only [List.length_cons]
    omega

/-- The tokens of a text. -/
def tokens (cs : List Char) : Option (List Token) :=
  match cs with
  | [] => some []
  | '\x7b' :: rest => (tokens rest).map (.left :: ·)
  | '\x7d' :: rest => (tokens rest).map (.right :: ·)
  | ':' :: rest => (tokens rest).map (.colon :: ·)
  | ',' :: rest => (tokens rest).map (.comma :: ·)
  | '"' :: rest =>
    match _h : readString rest with
    | none => none
    | some (text, rest') => (tokens rest').map (.string (String.ofList text) :: ·)
  | c :: rest => if c = ' ' ∨ c = '\t' ∨ c = '\n' ∨ c = '\r' then tokens rest else none
termination_by cs.length
decreasing_by
  · simp
  · simp
  · simp
  · simp
  · have := length_lt_of_readString _h
    simp only [List.length_cons]
    omega
  · simp

/-- The members of an object of strings, after the ones that are read already. -/
def readLines (code : Code) : List Token → Option (Code × List Token)
  | .string line :: .colon :: .string text :: .comma :: ts => readLines (code.insert line text) ts
  | .string line :: .colon :: .string text :: .right :: ts => some (code.insert line text, ts)
  | _ => none

/-- An object of strings, from what follows its opening brace. -/
def readCode : List Token → Option (Code × List Token)
  | .right :: ts => some (∅, ts)
  | ts => readLines ∅ ts

private theorem length_lt_of_readLines {code code' : Code} {ts rest : List Token}
    (h : readLines code ts = some (code', rest)) : rest.length < ts.length := by
  fun_induction readLines code ts with
  | case1 code line text ts ih =>
    have := ih h
    simp only [List.length_cons]
    omega
  | case2 =>
    obtain ⟨-, rfl⟩ := Prod.mk.inj (Option.some.inj h)
    simp only [List.length_cons]
    omega
  | case3 => simp at h

private theorem length_lt_of_readCode {code : Code} {ts rest : List Token}
    (h : readCode ts = some (code, rest)) : rest.length < ts.length := by
  unfold readCode at h
  split at h
  · obtain ⟨-, rfl⟩ := Prod.mk.inj (Option.some.inj h)
    simp
  · exact length_lt_of_readLines h

/-- The members of an object of objects of strings, after the ones that are read already. -/
def readMethods (table : ClassTable) (ts : List Token) : Option (ClassTable × List Token) :=
  match ts with
  | .string method :: .colon :: .left :: ts =>
    match _h : readCode ts with
    | some (code, .comma :: ts) => readMethods (table.insert method code) ts
    | some (code, .right :: ts) => some (table.insert method code, ts)
    | _ => none
  | _ => none
termination_by ts.length
decreasing_by
  have := length_lt_of_readCode _h
  simp only [List.length_cons] at this ⊢
  omega

/-- Reads the text of a table. -/
def ofTokens? : List Token → Option ClassTable
  | [.left, .right] => some ∅
  | .left :: ts =>
    match readMethods ∅ ts with
    | some (table, []) => some table
    | _ => none
  | _ => none

/-- Reads the bytes of a table, which is an object of objects of strings in strict JSON; where a
name is repeated the last one counts. -/
def read? (content : List UInt8) : Option ClassTable := do
  ofTokens? (← tokens (← Text.Utf8.decode? content))

end ClassTable

end LeakTrace
