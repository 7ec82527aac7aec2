import LeakTrace.Text.Cluster

namespace LeakTrace.Wrap

/-- The clusters that there is room for, and the characters behind them. -/
def cut (room : Nat) : List (List Char) → List Char × List Char
  | [] => ([], [])
  | g :: gs =>
    if room < Text.width g then ([], (g :: gs).flatten)
    else
      let (front, back) := cut (room - Text.width g) gs
      (g ++ front, back)

theorem cut_append (room : Nat) (gs : List (List Char)) :
    (cut room gs).1 ++ (cut room gs).2 = gs.flatten := by
  induction gs generalizing room with
  | nil => rfl
  | cons g gs ih => rw [cut]; split <;> simp [ih]

/-- Cuts a word where the room ends, but not before its first character. -/
def cutWord (room : Nat) (word : List Char) : List Char × List Char :=
  match cut room (Text.clusters word) with
  | ([], c :: back) => ([c], back)
  | parts => parts

private theorem cutWord_append (room : Nat) (word : List Char) :
    (cutWord room word).1 ++ (cutWord room word).2 = word := by
  have h := cut_append room (Text.clusters word)
  rw [Text.flatten_clusters] at h
  unfold cutWord
  split
  · next c back heq => simpa [heq] using h
  · exact h

private theorem length_cutWord_lt {room : Nat} {word : List Char} (h : word ≠ []) :
    (cutWord room word).2.length < word.length := by
  have happ := congrArg List.length (cutWord_append room word)
  rw [List.length_append] at happ
  have hfront : (cutWord room word).1 ≠ [] := by
    have hcut := cut_append room (Text.clusters word)
    rw [Text.flatten_clusters] at hcut
    unfold cutWord
    split
    · simp
    · next hno =>
      intro h0
      rw [h0, List.nil_append] at hcut
      obtain ⟨c, back, rfl⟩ := List.exists_cons_of_ne_nil h
      exact hno c back (Prod.ext h0 hcut)
  have := List.length_pos_iff.2 hfront
  omega

/-- A begun line, ready for the next word. -/
def ready (line : List Char) : List Char := if line = [] then [] else line ++ [' ']

/-- The columns that a begun line leaves to no word. -/
def used (line : List Char) : Nat := Text.width line + if line = [] then 0 else 1

/-- The work that is left: twice what the words hold, and a begun line. -/
def work (line : List Char) : List (List Char) → Nat
  | [] => if line = [] then 0 else 1
  | word :: words => work line words + 2 * word.length + 2

private theorem work_le_add_one (line line' : List Char) (words : List (List Char)) :
    work line words ≤ work line' words + 1 := by
  induction words with
  | nil => simp only [work]; split <;> omega
  | cons word words ih => simp only [work]; omega

private theorem work_lt_cons (line line' word : List Char) (words : List (List Char)) :
    work line words < work line' (word :: words) := by
  have := work_le_add_one line line' words
  simp only [work]
  omega

private theorem work_nil_lt {line : List Char} (words : List (List Char)) (h : line ≠ []) :
    work [] words < work line words := by
  induction words with
  | nil => simp only [work, if_neg h, ↓reduceIte]; omega
  | cons word words ih => simp only [work]; omega

private theorem work_cutWord_lt {limit : Nat} {line word : List Char} (words : List (List Char))
    (hfit : ¬ used line + Text.width word ≤ limit)
    (h : ¬ (line ≠ [] ∧ (limit - used line ≤ 2 ∨ Text.width word ≤ limit))) :
    work [] ((cutWord (limit - used line) word).2 :: words) < work line (word :: words) := by
  have hword : word ≠ [] := by
    rintro rfl
    have h0 : Text.width [] = 0 := rfl
    by_cases hline : line = []
    · rw [hline, h0] at hfit
      exact hfit (Nat.zero_le _)
    · exact h ⟨hline, .inr (by omega)⟩
  have hcut := @length_cutWord_lt (limit - used line) word hword
  have := work_le_add_one [] line words
  simp only [work]
  omega

/-- The lines that a begun line and the words behind it are laid out to. A line that has room for
less than two more columns is full. -/
def fill (limit : Nat) (line : List Char) : List (List Char) → List (List Char)
  | [] => if line = [] then [] else [line]
  | word :: words =>
    if used line + Text.width word ≤ limit then
      let line := ready line ++ word
      if limit - 2 < Text.width line then line :: fill limit [] words else fill limit line words
    else if line ≠ [] ∧ (limit - used line ≤ 2 ∨ Text.width word ≤ limit) then
      line :: fill limit [] (word :: words)
    else
      (ready line ++ (cutWord (limit - used line) word).1) ::
        fill limit [] ((cutWord (limit - used line) word).2 :: words)
termination_by words => work line words
decreasing_by
  · exact work_lt_cons _ _ _ _
  · exact work_lt_cons _ _ _ _
  · next h => exact work_nil_lt _ h.1
  · next hfit h => exact work_cutWord_lt _ hfit h

/-- The lines that a line is broken into. It is broken at blanks; a word that is wider than a line
is cut, and its first part fills the line before it if that has room for more than two columns. -/
def lines (limit : Nat) (line : List Char) : List (List Char) :=
  if Text.width line ≤ limit then [line] else fill limit [] (line.splitOn ' ')

end LeakTrace.Wrap
