import LeakTrace.Graph.Dot
import LeakTrace.Proofs.Text.Marks
import Mathlib.Algebra.Ring.Parity
import Mathlib.Data.List.DropRight

namespace LeakTrace.Dot

open Text

variable {c : Char} {a b cs : List Char}

/-- What stands for a character in an escaped text. -/
def escaped : Char → List Char
  | '\\' => ['\\', '\\']
  | '"' => ['\\', '"']
  | '\n' => ['\\', 'n']
  | '\r' => []
  | '<' => ['\\', '<']
  | '>' => ['\\', '>']
  | c => [c]

/-- Plain characters, and backslashes that each take the next character with them. -/
inductive Quotable : List Char → Prop
  | nil : Quotable []
  | plain {c : Char} {cs : List Char} (quote : c ≠ '"') (backslash : c ≠ '\\') (rest : Quotable cs) :
      Quotable (c :: cs)
  | taken (c : Char) {cs : List Char} (rest : Quotable cs) : Quotable ('\\' :: c :: cs)

/-- Reads a quoted text from what follows its opening quote, and gives what follows the closing one. -/
def readQuoted : List Char → Option (List Char × List Char)
  | [] => none
  | '"' :: rest => some ([], rest)
  | '\\' :: c :: rest => (readQuoted rest).map fun (text, rest) => ('\\' :: c :: text, rest)
  | c :: rest => (readQuoted rest).map fun (text, rest) => (c :: text, rest)

/-- The first quoted text of a line, and what follows it. -/
def firstQuoted? (line : String) : Option (List Char × List Char) :=
  (cut "\"" line.toList).bind fun (_, text) => readQuoted text

/-- The number of backslashes that a text ends with. -/
def backslashesAtEnd (cs : List Char) : Nat := (cs.rtakeWhile (· = '\\')).length

private theorem replace_singleton (c : Char) (text : List Char) (d : Char) :
    replace c text [d] = if d = c then text else [d] := List.flatMap_singleton _ d

private theorem escapeChars_singleton (c : Char) : escapeChars [c] = escaped c := by
  unfold escaped
  split
  case h_7 hbackslash hquote hnewline hreturn hless hgreater =>
    simp only [escapeChars, escapes, List.foldl_cons, List.foldl_nil, replace_singleton,
      if_neg hbackslash, if_neg hquote, if_neg hnewline, if_neg hreturn, if_neg hless,
      if_neg hgreater]
  all_goals rfl

private theorem escapeChars_eq_flatMap (cs : List Char) : escapeChars cs = cs.flatMap escaped := by
  induction cs with
  | nil => rfl
  | cons c cs ih =>
    rw [← List.singleton_append, escapeChars_append, escapeChars_singleton, ih, List.flatMap_append,
      List.flatMap_singleton]

private theorem toList_escape (s : String) : (escape s).toList = s.toList.flatMap escaped := by
  rw [escape, String.toList_ofList, escapeChars_eq_flatMap]

private theorem escape_append (s t : String) : escape (s ++ t) = escape s ++ escape t := by
  rw [escape, String.toList_append, escapeChars_append, String.ofList_append, escape, escape]

private theorem not_mem_escaped (c : Char) : '\n' ∉ escaped c ∧ '\r' ∉ escaped c := by
  unfold escaped
  split
  case h_7 _ _ hnewline hreturn _ _ =>
    simp only [List.mem_singleton]
    exact ⟨fun h => hnewline h.symm, fun h => hreturn h.symm⟩
  all_goals decide

private theorem not_mem_escape (s : String) :
    '\n' ∉ (escape s).toList ∧ '\r' ∉ (escape s).toList := by
  rw [toList_escape, List.mem_flatMap, List.mem_flatMap]
  exact ⟨fun ⟨c, _, h⟩ => (not_mem_escaped c).1 h, fun ⟨c, _, h⟩ => (not_mem_escaped c).2 h⟩

private theorem Quotable.escaped_append (c : Char) (h : Quotable cs) :
    Quotable (escaped c ++ cs) := by
  unfold escaped
  split
  case h_4 => exact h
  case h_7 hbackslash hquote _ _ _ _ => exact .plain hquote hbackslash h
  all_goals exact .taken _ h

private theorem quotable_escape (s : String) : Quotable (escape s).toList := by
  rw [toList_escape]
  induction s.toList with
  | nil => exact .nil
  | cons c cs ih => exact ih.escaped_append c

private theorem backslashesAtEnd_le (cs : List Char) : backslashesAtEnd cs ≤ cs.length :=
  (List.rtakeWhile_suffix _ cs).length_le

private theorem backslashesAtEnd_cons (c : Char) (cs : List Char) :
    backslashesAtEnd (c :: cs) =
      if backslashesAtEnd cs = cs.length then cs.length + if c = '\\' then 1 else 0
      else backslashesAtEnd cs := by
  simp only [backslashesAtEnd, List.rtakeWhile, List.length_reverse, List.reverse_cons,
    List.takeWhile_append]
  split
  · by_cases hc : c = '\\' <;> simp [hc]
  · rfl

private theorem odd_backslashesAtEnd_taken (c : Char) (cs : List Char) :
    Odd (backslashesAtEnd ('\\' :: c :: cs)) ↔ Odd (backslashesAtEnd cs) := by
  have hle := backslashesAtEnd_le cs
  rw [Nat.odd_iff, Nat.odd_iff, backslashesAtEnd_cons, backslashesAtEnd_cons, List.length_cons,
    if_pos rfl]
  by_cases hall : backslashesAtEnd cs = cs.length
  · by_cases hc : c = '\\'
    · rw [if_pos hall, if_pos hc, if_pos rfl]
      omega
    · rw [if_pos hall, if_neg hc, if_neg (by omega)]
      omega
  · rw [if_neg hall, if_neg (by omega)]

/-- A quote stands behind an odd number of backslashes. -/
theorem Quotable.odd_of_quote (h : Quotable cs) (hcs : cs = a ++ '"' :: b) :
    Odd (backslashesAtEnd a) := by
  induction h generalizing a with
  | nil => simp at hcs
  | plain hquote hbackslash _ ih =>
    cases a with
    | nil => exact absurd (List.cons.inj hcs).1 hquote
    | cons d a =>
      obtain ⟨rfl, hrest⟩ := List.cons.inj hcs
      have hodd := ih hrest
      rw [backslashesAtEnd_cons, if_neg hbackslash, Nat.add_zero]
      split
      · next hall => rwa [← hall]
      · exact hodd
  | taken c _ ih =>
    match a with
    | [] => simp at hcs
    | [d] =>
      obtain ⟨rfl, -⟩ := List.cons.inj hcs
      exact odd_one
    | d :: e :: a =>
      obtain ⟨rfl, htail⟩ := List.cons.inj hcs
      obtain ⟨rfl, hrest⟩ := List.cons.inj htail
      exact (odd_backslashesAtEnd_taken c a).mpr (ih hrest)

/-- A quoted text ends at the first quote behind it. -/
theorem Quotable.readQuoted (h : Quotable cs) (rest : List Char) :
    readQuoted (cs ++ '"' :: rest) = some (cs, rest) := by
  induction h with
  | nil => rfl
  | plain hquote hbackslash _ ih =>
    rw [List.cons_append, Dot.readQuoted, ih]
    · rfl
    · exact fun h => absurd h hquote
    · exact fun _ _ h => absurd h hbackslash
  | taken c _ ih =>
    rw [List.cons_append, List.cons_append, Dot.readQuoted, ih]
    rfl

private theorem firstQuoted?_of_quoted {front : String} (hfront : '"' ∉ front.toList)
    (s behind : String) :
    firstQuoted? (front ++ "\"" ++ escape s ++ "\"" ++ behind) =
      some ((escape s).toList, behind.toList) := by
  have hline : (front ++ "\"" ++ escape s ++ "\"" ++ behind).toList =
      front.toList ++ '"' :: ((escape s).toList ++ '"' :: behind.toList) := by
    simp
  have hcut : cut "\"" (front.toList ++ '"' :: ((escape s).toList ++ '"' :: behind.toList)) =
      some (front.toList, (escape s).toList ++ '"' :: behind.toList) :=
    cut_append_cons rfl hfront _
  rw [firstQuoted?, hline, hcut, Option.bind_some]
  exact (quotable_escape s).readQuoted behind.toList

private theorem firstQuoted?_nodeLine (id : Nat) (label : String) :
    firstQuoted? (nodeLine id label) = some ((escape label).toList, "];\n".toList) := by
  have hfront : '"' ∉ ("    " ++ nodeName id ++ " [label=").toList := by
    have hdigits : '"' ∉ digits id := fun h => absurd (isDigit_of_mem_digits h) (by decide)
    simpa [nodeName] using hdigits
  rw [← firstQuoted?_of_quoted hfront]
  simp [nodeLine, String.append_assoc]

private theorem firstQuoted?_header (title : String) :
    firstQuoted? (header title) =
      some ((escape title).toList, " \x7b\n    node [shape=box, fontname=\"monospace\"];\n".toList) := by
  have hfront : '"' ∉ "digraph ".toList := by decide
  rw [← firstQuoted?_of_quoted hfront]
  simp [header, String.append_assoc]

/-- The replacements come to one rule for each character, so parts of a text are escaped one by one.
What is escaped stays on its line, has every quote behind an odd number of backslashes, and is the whole
quoted text wherever it is a label or a title. -/
theorem escape_stays_quoted (s : String) :
    (escape s).toList = s.toList.flatMap escaped ∧
      (∀ t, escape (s ++ t) = escape s ++ escape t) ∧
      '\n' ∉ (escape s).toList ∧ '\r' ∉ (escape s).toList ∧
      (∀ a b, (escape s).toList = a ++ '"' :: b → Odd (backslashesAtEnd a)) ∧
      (∀ id, firstQuoted? (nodeLine id s) = some ((escape s).toList, "];\n".toList)) ∧
      firstQuoted? (header s) = some ((escape s).toList,
        " \x7b\n    node [shape=box, fontname=\"monospace\"];\n".toList) := by
  refine ⟨toList_escape s, escape_append s, (not_mem_escape s).1, (not_mem_escape s).2, ?_,
    fun id => firstQuoted?_nodeLine id s, firstQuoted?_header s⟩
  exact fun a b hquote => (quotable_escape s).odd_of_quote hquote

/-- A text that tries to get out of its quotes. -/
def escapingText : String := "\\\"];\n\\"

theorem escapingText_stays_quoted :
    (escape escapingText).toList = ['\\', '\\', '\\'] ++ '"' :: "];\\n\\\\".toList ∧
      Odd (backslashesAtEnd ['\\', '\\', '\\']) := by
  have htext : (escape escapingText).toList =
      ['\\', '\\', '\\'] ++ '"' :: "];\\n\\\\".toList := by
    decide +kernel
  obtain ⟨-, -, -, -, hodd, -⟩ := escape_stays_quoted escapingText
  exact ⟨htext, hodd _ _ htext⟩

end LeakTrace.Dot
