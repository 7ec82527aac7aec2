import LeakTrace.Log.Lines
import LeakTrace.Log.TaintLog
import LeakTrace.Proofs.Text.Blanks
import LeakTrace.Proofs.Text.Marks
import LeakTrace.Proofs.Text.Utf8
import Mathlib.Data.List.ModifyLast

namespace LeakTrace

namespace Text

variable {c : Char} {a b cs : List Char}

/-- The lines of a text. A line feed ends a line, with a carriage return before it or without; the
last line need not be ended. -/
def lines : List Char → List (List Char)
  | [] => []
  | '\n' :: cs => [] :: lines cs
  | '\r' :: '\n' :: cs => [] :: lines cs
  | c :: cs =>
    match lines cs with
    | [] => [[c]]
    | line :: rest => (c :: line) :: rest

/-- The line without a carriage return at its end. -/
def dropReturn (line : List Char) : List Char :=
  if line.getLast? = some '\r' then line.dropLast else line

/-- The lines of a text, where a carriage return at the end of the last line belongs to none even if
no line feed follows it. -/
def closedLines (cs : List Char) : List (List Char) :=
  if cs.getLast? = some '\n' then lines cs else (lines cs).modifyLast dropReturn

private theorem lines_cons (hc : c ≠ '\n') (hreturn : c = '\r' → cs.head? ≠ some '\n') :
    lines (c :: cs) = match lines cs with
      | [] => [[c]]
      | line :: rest => (c :: line) :: rest := by
  rw [lines.eq_def]
  split
  · contradiction
  · simp_all
  · simp_all
  · next h => rw [(List.cons.inj h).1, (List.cons.inj h).2]

private theorem lines_ne_nil (h : cs ≠ []) : lines cs ≠ [] := by
  unfold lines
  split
  · contradiction
  · simp
  · simp
  · split <;> simp

private theorem lines_single (h : '\n' ∉ cs) (hne : cs ≠ []) : lines cs = [cs] := by
  induction cs with
  | nil => contradiction
  | cons c cs ih =>
    obtain ⟨hc, hcs⟩ : '\n' ≠ c ∧ '\n' ∉ cs := by simpa using h
    have hhead : cs.head? ≠ some '\n' := fun hhead => hcs (List.mem_of_head? hhead)
    rw [lines_cons hc.symm fun _ => hhead]
    cases cs with
    | nil => rfl
    | cons d cs => rw [ih hcs (by simp)]

private theorem dropReturn_concat (cs : List Char) : dropReturn (cs ++ ['\r']) = cs := by
  rw [dropReturn, List.getLast?_concat, if_pos rfl, List.dropLast_concat]

private theorem dropReturn_of_ne (h : cs.getLast? ≠ some '\r') : dropReturn cs = cs := if_neg h

private theorem dropReturn_cons (h : c = '\r' → cs ≠ []) :
    dropReturn (c :: cs) = c :: dropReturn cs := by
  cases cs with
  | nil =>
    have hc : c ≠ '\r' := fun hc => h hc rfl
    exact dropReturn_of_ne (by simpa using hc)
  | cons d cs =>
    rw [dropReturn, dropReturn, List.getLast?_cons_cons, List.dropLast_cons_cons]
    split <;> rfl

private theorem lines_append (h : '\n' ∉ a) (b : List Char) :
    lines (a ++ '\n' :: b) = dropReturn a :: lines b := by
  induction a with
  | nil => rfl
  | cons c a ih =>
    obtain ⟨hc, ha⟩ : '\n' ≠ c ∧ '\n' ∉ a := by simpa using h
    by_cases hlast : c = '\r' ∧ a = []
    · obtain ⟨rfl, rfl⟩ := hlast
      rfl
    · have hreturn : c = '\r' → a ≠ [] := fun hc ha => hlast ⟨hc, ha⟩
      have hhead : c = '\r' → (a ++ '\n' :: b).head? ≠ some '\n' := by
        intro hc hfeed
        obtain ⟨d, a, rfl⟩ := List.exists_cons_of_ne_nil (hreturn hc)
        exact ha (List.mem_of_head? hfeed)
      rw [List.cons_append, lines_cons hc.symm hhead, ih ha, dropReturn_cons hreturn]

private theorem closedLines_single (h : '\n' ∉ cs) (hne : cs ≠ []) :
    closedLines cs = [dropReturn cs] := by
  have hlast : cs.getLast? ≠ some '\n' := fun hlast => h (List.mem_of_getLast? hlast)
  rw [closedLines, if_neg hlast, lines_single h hne]
  rfl

private theorem closedLines_append (h : '\n' ∉ a) (b : List Char) :
    closedLines (a ++ '\n' :: b) = dropReturn a :: closedLines b := by
  rw [closedLines, closedLines, lines_append h, List.getLast?_append_cons]
  cases b with
  | nil => rfl
  | cons c b =>
    rw [List.getLast?_cons_cons]
    split
    · rfl
    · exact List.modifyLast_append_of_right_ne_nil dropReturn [dropReturn a] (lines (c :: b))
        (lines_ne_nil (List.cons_ne_nil c b))

example : lines ['a', '\r', '\r', '\n', '\n', 'b', '\r'] = [['a', '\r'], [], ['b', '\r']] := rfl

end Text

namespace Log

open Text (closedLines dropReturn)
open Text.Utf8

variable {raw bs rest : List UInt8}

private theorem rawLines_single (h : lineFeed ∉ bs) (hne : bs ≠ []) :
    rawLines bs = [dropFinal carriageReturn bs] := by
  have hlast : bs.getLast? ≠ some lineFeed := fun hlast => h (List.mem_of_getLast? hlast)
  rw [rawLines, if_neg hne, dropFinal, if_neg hlast, List.splitOn_eq_singleton h]
  rfl

private theorem rawLines_append (h : lineFeed ∉ raw) (rest : List UInt8) :
    rawLines (raw ++ lineFeed :: rest) = dropFinal carriageReturn raw :: rawLines rest := by
  have hne : raw ++ lineFeed :: rest ≠ [] := by simp
  rw [rawLines, if_neg hne]
  cases rest with
  | nil =>
    have hfinal : dropFinal lineFeed (raw ++ [lineFeed]) = raw := by
      rw [dropFinal, List.getLast?_concat, if_pos rfl, List.dropLast_concat]
    rw [hfinal, List.splitOn_eq_singleton h]
    rfl
  | cons b rest =>
    have hfinal : dropFinal lineFeed (raw ++ lineFeed :: b :: rest) =
        raw ++ lineFeed :: dropFinal lineFeed (b :: rest) := by
      rw [dropFinal, dropFinal, List.getLast?_append_cons, List.getLast?_cons_cons,
        List.dropLast_append_cons, List.dropLast_cons_cons]
      split <;> rfl
    rw [hfinal, List.splitOn_append_cons_self, List.splitOn_eq_singleton h, rawLines,
      if_neg (List.cons_ne_nil b rest)]
    rfl

private theorem line_cases (bs : List UInt8) :
    lineFeed ∉ bs ∨ ∃ raw rest, bs = raw ++ lineFeed :: rest ∧ lineFeed ∉ raw := by
  by_cases h : lineFeed ∈ bs
  · exact .inr (List.eq_append_cons_of_mem h)
  · exact .inl h

private theorem lineFeed_lt : lineFeed.toNat < 0x80 := by decide

private theorem carriageReturn_lt : carriageReturn.toNat < 0x80 := by decide

private theorem not_mem_decodeLossy (h : lineFeed ∉ raw) : '\n' ∉ decodeLossy raw := fun hmem =>
  h ((mem_decodeLossy lineFeed_lt).mp hmem)

private theorem decodeLossy_dropFinal (raw : List UInt8) :
    decodeLossy (dropFinal carriageReturn raw) = dropReturn (decodeLossy raw) := by
  have hiff : (decodeLossy raw).getLast? = some '\r' ↔ raw.getLast? = some carriageReturn :=
    getLast?_decodeLossy carriageReturn_lt
  by_cases h : raw.getLast? = some carriageReturn
  · obtain ⟨bs, rfl⟩ := List.getLast?_eq_some_iff.mp h
    have htext : decodeLossy (bs ++ [carriageReturn]) = decodeLossy bs ++ ['\r'] :=
      decodeLossy_append_ascii carriageReturn_lt bs []
    rw [htext, Text.dropReturn_concat, dropFinal, if_pos h, List.dropLast_concat]
  · rw [dropFinal, if_neg h, Text.dropReturn_of_ne (h ∘ hiff.mp)]

/-- The bytes and their text have the same lines. -/
theorem map_decodeLossy_rawLines (bs : List UInt8) :
    (rawLines bs).map decodeLossy = closedLines (decodeLossy bs) := by
  induction hlength : bs.length using Nat.strong_induction_on generalizing bs with
  | _ n ih =>
  rcases line_cases bs with hone | ⟨raw, rest, rfl, hraw⟩
  · by_cases hne : bs = []
    · subst hne
      rfl
    · rw [rawLines_single hone hne, List.map_singleton, decodeLossy_dropFinal,
        Text.closedLines_single (not_mem_decodeLossy hone) (mt decodeLossy_eq_nil.mp hne)]
  · have hshorter : rest.length < n := by
      rw [← hlength, List.length_append, List.length_cons]
      omega
    have htext : decodeLossy (raw ++ lineFeed :: rest) =
        decodeLossy raw ++ '\n' :: decodeLossy rest := decodeLossy_append_ascii lineFeed_lt raw rest
    rw [rawLines_append hraw, List.map_cons, decodeLossy_dropFinal, ih _ hshorter rest rfl, htext,
      Text.closedLines_append (not_mem_decodeLossy hraw)]

end Log

namespace Reading

/-- A carriage return at the end of a line is not read. -/
theorem ofLine_dropReturn (line : List Char) :
    ofLine (String.ofList (Text.dropReturn line)) = ofLine (String.ofList line) := by
  by_cases h : line.getLast? = some '\r'
  · obtain ⟨cs, rfl⟩ := List.getLast?_eq_some_iff.mp h
    have hreturn : '\r' ∉ tag.toList := by decide
    have hpayload : payload (cs ++ ['\r']) = payload cs := by
      rw [payload, payload, Text.cut_concat hreturn]
      cases Text.cut tag cs with
      | none => exact Text.trimEnd_concat rfl
      | some parts => exact Text.trimEnd_concat rfl
    rw [Text.dropReturn_concat, ofLine, ofLine, String.toList_ofList, String.toList_ofList, hpayload]
  · rw [Text.dropReturn_of_ne h]

end Reading

namespace TaintLog

private theorem ofLines_closedLines (cs : List Char) :
    ofLines ((Text.closedLines cs).map String.ofList) =
      ofLines ((Text.lines cs).map String.ofList) := by
  rw [Text.closedLines]
  split
  · rfl
  · rcases List.eq_nil_or_concat (Text.lines cs) with hnil | ⟨first, last, hlines⟩
    · rw [hnil]
      rfl
    · rw [hlines, List.concat_eq_append, List.modifyLast_concat, ofLines, ofLines, List.map_append,
        List.map_append, List.foldl_append, List.foldl_append]
      simp only [List.map_cons, List.map_nil, List.foldl_cons, List.foldl_nil]
      rw [addLine, addLine, Reading.ofLine_dropReturn]

/-- A log is read from its bytes as from the text that the bytes stand for. Its lines are those of
the text, except that a carriage return at the end of a last line that no line feed ends is dropped;
the log is the same as if it was not. -/
theorem ofLines_splitLines (bs : List UInt8) :
    ∃ text, (∀ cs, Text.Utf8.Decodes bs cs ↔ cs = text) ∧
      Log.splitLines bs =
        ((if text.getLast? = some '\n' then Text.lines text
          else (Text.lines text).modifyLast Text.dropReturn).map String.ofList) ∧
      ofLines (Log.splitLines bs) = ofLines ((Text.lines text).map String.ofList) := by
  have hlines : Log.splitLines bs =
      (Text.closedLines (Text.Utf8.decodeLossy bs)).map String.ofList := by
    rw [← Log.map_decodeLossy_rawLines, List.map_map]
    rfl
  refine ⟨Text.Utf8.decodeLossy bs, fun cs => Text.Utf8.decodes_iff, hlines, ?_⟩
  rw [hlines, ofLines_closedLines]

end TaintLog

end LeakTrace
