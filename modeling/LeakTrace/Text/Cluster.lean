import LeakTrace.Text.Property.GraphemeBreak
import LeakTrace.Text.Width

namespace LeakTrace.Text

/-- What a cluster ends in, as far as it matters for the next character. -/
inductive ClusterEnd
  | other
  | control
  /-- A sign that belongs to the character behind it. -/
  | prepended
  /-- A leading consonant of a Hangul syllable. -/
  | leading
  /-- A vowel of a Hangul syllable. -/
  | vowel
  /-- A final consonant of a Hangul syllable. -/
  | final
  /-- A consonant that takes part in conjuncts, with marks, and maybe with a linker among them. -/
  | consonant (linked : Bool)
  /-- A regional indicator that has no partner yet. -/
  | regional
  /-- A pictograph, maybe with marks. -/
  | pictograph
  /-- A zero width joiner behind a pictograph. -/
  | joiner
deriving DecidableEq, Repr

namespace ClusterEnd

/-- The end of a cluster of one character. -/
def ofChar (c : Char) : ClusterEnd :=
  if within breakControl c then .control
  else if c.toNat ≤ 0xA0 then .other
  else if within breakPrepend c then .prepended
  else if within [(0x1100, 0x115F), (0xA960, 0xA97C)] c then .leading
  else if within [(0x1160, 0x11A7), (0xD7B0, 0xD7C6), (0x16D63, 0x16D63), (0x16D67, 0x16D6A)] c then
    .vowel
  else if within [(0x11A8, 0x11FF), (0xD7CB, 0xD7FB)] c then .final
  else if within [(0xAC00, 0xD7A3)] c then if (c.toNat - 0xAC00) % 28 = 0 then .vowel else .final
  else if within conjunctConsonant c then .consonant false
  else if isRegionalIndicator c then .regional
  else if within extendedPictographic c then .pictograph
  else .other

/-- The end of the cluster with a mark more that has no column of its own. -/
def mark (e : ClusterEnd) (c : Char) : ClusterEnd :=
  match e with
  | .pictograph => if isCode zeroWidthJoiner c then .joiner else .pictograph
  | .consonant linked =>
    if isCode 0x200C c then .other else .consonant (linked || within conjunctLinker c)
  | _ => .other

/-- The characters belong together: the second is no mark, and the first is what a cluster ends
in. -/
def binds (e : ClusterEnd) (c : Char) : Bool :=
  match e with
  | .prepended => true
  | .leading =>
    within [(0x1100, 0x11A7), (0xA960, 0xA97C), (0xAC00, 0xD7A3), (0xD7B0, 0xD7C6),
      (0x16D63, 0x16D63), (0x16D67, 0x16D6A)] c
  | .vowel =>
    within [(0x1160, 0x11FF), (0xD7B0, 0xD7C6), (0xD7CB, 0xD7FB), (0x16D63, 0x16D63),
      (0x16D67, 0x16D6A)] c
  | .final => within [(0x11A8, 0x11FF), (0xD7CB, 0xD7FB)] c
  | .consonant linked => linked && within conjunctConsonant c
  | .regional => isRegionalIndicator c
  | .joiner => within extendedPictographic c
  | _ => false

/-- The end of the cluster with one more character, if this belongs to it. -/
def extend? (e : ClusterEnd) (c : Char) : Option ClusterEnd :=
  if e = .control ∨ within breakControl c then none
  else if 0xA0 < c.toNat ∧ (within graphemeExtend c ∨ isCode zeroWidthJoiner c ∨ isEmojiModifier c)
  then some (e.mark c)
  else if within spacingMark c then some .other
  else if e.binds c then some (if e = .regional then .other else .ofChar c)
  else none

/-- The rest of a cluster of the given end, and the clusters behind it. -/
def split : ClusterEnd → List Char → List Char × List (List Char)
  | _, [] => ([], [])
  | e, c :: cs =>
    match e.extend? c with
    | some e =>
      let (rest, next) := split e cs
      (c :: rest, next)
    | none =>
      let (rest, next) := split (.ofChar c) cs
      ([], (c :: rest) :: next)

private theorem split_append (e : ClusterEnd) (cs : List Char) :
    (e.split cs).1 ++ (e.split cs).2.flatten = cs := by
  induction cs generalizing e with
  | nil => simp [split]
  | cons c cs ih => rw [split]; split <;> simp [ih]

end ClusterEnd

/-- The clusters of a text, in order: the pieces that a reader takes for one character each. -/
def clusters : List Char → List (List Char)
  | [] => []
  | c :: cs =>
    let (rest, next) := ClusterEnd.split (.ofChar c) cs
    (c :: rest) :: next

@[simp] theorem flatten_clusters (cs : List Char) : (clusters cs).flatten = cs := by
  cases cs with
  | nil => rfl
  | cons c cs => simp [clusters, ClusterEnd.split_append]

end LeakTrace.Text
