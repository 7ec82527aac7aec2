namespace LeakTrace.Text.Utf8

/-- What the decoder remembers between two bytes. -/
inductive State
  /-- No character is open. -/
  | idle
  /-- The open character has the bits `value` so far; its next byte must lie between `low` and
  `high`, and `more` bytes follow that one. -/
  | within (value : Nat) (low high : UInt8) (more : Nat)
deriving DecidableEq, Repr

/-- One decoded position: a character, or a byte sequence that is none. -/
inductive Piece
  | char (c : Char)
  | invalid
deriving DecidableEq, Repr

/-- The state and output after a byte that is read with no character open. The second byte of some
characters has a narrower range, which excludes overlong forms, surrogates and values beyond
U+10FFFF. -/
def start (b : UInt8) : List Piece × State :=
  let n := b.toNat
  if n < 0x80 then ([.char (Char.ofNat n)], .idle)
  else if 0xC2 ≤ n && n ≤ 0xDF then ([], .within (n - 0xC0) 0x80 0xBF 0)
  else if n == 0xE0 then ([], .within 0 0xA0 0xBF 1)
  else if n == 0xED then ([], .within 0xD 0x80 0x9F 1)
  else if 0xE1 ≤ n && n ≤ 0xEF then ([], .within (n - 0xE0) 0x80 0xBF 1)
  else if n == 0xF0 then ([], .within 0 0x90 0xBF 2)
  else if 0xF1 ≤ n && n ≤ 0xF3 then ([], .within (n - 0xF0) 0x80 0xBF 2)
  else if n == 0xF4 then ([], .within 4 0x80 0x8F 2)
  else ([.invalid], .idle)

/-- What an open character leaves behind when no further byte belongs to it. -/
def State.close : State → List Piece
  | .idle => []
  | .within .. => [.invalid]

/-- Reads one byte. A byte that does not continue the open character closes it and is read anew. -/
def step (s : State) (b : UInt8) : List Piece × State :=
  match s with
  | .idle => start b
  | .within value low high more =>
    if low ≤ b && b ≤ high then
      let value' := value * 64 + (b.toNat - 0x80)
      match more with
      | 0 => ([.char (Char.ofNat value')], .idle)
      | more + 1 => ([], .within value' 0x80 0xBF more)
    else
      let (pieces, next) := start b
      (.invalid :: pieces, next)

def pieces (s : State) : List UInt8 → List Piece
  | [] => s.close
  | b :: bs =>
    let (out, next) := step s b
    out ++ pieces next bs

/-- The character U+FFFD. -/
def replacement : Char := Char.ofNat 0xFFFD

def Piece.toChar : Piece → Char
  | .char c => c
  | .invalid => replacement

def Piece.toChar? : Piece → Option Char
  | .char c => some c
  | .invalid => none

/-- The bytes of a text. -/
def encode (s : String) : List UInt8 := s.toUTF8.data.toList

/-- Decodes any bytes. There is one U+FFFD for each maximal run of bytes that begins a character and
is not completed, and one for each other byte that cannot begin a character. -/
def decodeLossy (bs : List UInt8) : List Char := (pieces .idle bs).map Piece.toChar

/-- Decodes bytes that are well formed throughout. -/
def decode? (bs : List UInt8) : Option (List Char) := (pieces .idle bs).mapM Piece.toChar?

theorem step_ascii (s : State) {b : UInt8} (hb : b.toNat < 0x80)
    (hs : ∀ v low high more, s = .within v low high more → 0x80 ≤ low.toNat) :
    step s b = (s.close ++ [.char (Char.ofNat b.toNat)], .idle) := by
  cases s with
  | idle => simp [step, start, hb, State.close]
  | within v low high more =>
    have h := hs v low high more rfl
    have hlt : ¬ low ≤ b := by rw [UInt8.le_iff_toNat_le]; omega
    simp [step, start, hb, hlt, State.close]

end LeakTrace.Text.Utf8
