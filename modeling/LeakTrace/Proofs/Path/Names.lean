import LeakTrace.Path.Basic
import LeakTrace.Text.Decimal
import Mathlib.Data.List.Basic

namespace LeakTrace

theorem Text.digits_injective {m n : Nat} (h : digits m = digits n) : m = n := by
  have hvalue := congrArg digitsValue? h
  rw [digitsValue?_digits, digitsValue?_digits] at hvalue
  exact Option.some.inj hvalue

theorem Text.not_mem_digits {n : Nat} {c : Char} (hc : c.isDigit = false) : c ∉ digits n := by
  intro hmem
  have hdigit := isDigit_of_mem_digits hmem
  rw [hc] at hdigit
  exact absurd hdigit (by simp)

theorem Text.not_mem_ofInt64 {n : Int64} {c : Char} (hc : c.isDigit = false) (hsign : c ≠ '-') :
    c ∉ ofInt64 n := by
  intro hmem
  rcases mem_ofInt64 hmem with hdigit | hminus
  · rw [hc] at hdigit
    exact absurd hdigit (by simp)
  · exact hsign hminus

namespace LeakPath

private theorem toList_name (rank : Nat) (p : LeakPath) :
    (p.name rank).toList = "path_".toList ++ Text.digits rank ++ ['_'] ++ Text.ofUInt64 p.graph ++
      ['_'] ++ Text.ofInt64 p.source.time ++ ['_'] ++ Text.ofInt64 p.sink.time := by
  unfold name
  exact String.toList_ofList

/-- The rank stands between the first two marks, and has none itself. -/
theorem name_injective {m n : Nat} {p q : LeakPath} (h : p.name m = q.name n) : m = n := by
  have hchars := congrArg String.toList h
  rw [toList_name, toList_name] at hchars
  have hunmarked : ∀ n, '_' ∉ Text.digits n := fun n => Text.not_mem_digits (by decide)
  generalize "path_".toList = start at hchars
  simp only [List.append_assoc, List.cons_append, List.nil_append] at hchars
  have hranked := List.append_cancel_left hchars
  refine Text.digits_injective ?_
  have hm := congrArg (List.takeWhile (· ≠ '_')) hranked
  have htake : ∀ n rest, (Text.digits n ++ '_' :: rest).takeWhile (· ≠ '_') = Text.digits n := by
    intro n rest
    have hother : ∀ c ∈ Text.digits n, decide (c ≠ '_') = true := by
      intro c hc
      exact decide_eq_true fun heq : c = '_' => hunmarked n (heq ▸ hc)
    rw [List.takeWhile_append_of_pos hother, List.takeWhile_cons_of_neg (by simp), List.append_nil]
  rwa [htake, htake] at hm

theorem slash_not_mem_name (rank : Nat) (p : LeakPath) : '/' ∉ (p.name rank).toList := by
  have hdigits : ∀ n, '/' ∉ Text.digits n := fun n => Text.not_mem_digits (by decide)
  have hint : ∀ n, '/' ∉ Text.ofInt64 n := fun n => Text.not_mem_ofInt64 (by decide) (by decide)
  have hstart : '/' ∉ "path_".toList := by decide
  have hmark : '/' ∉ ['_'] := by decide
  rw [toList_name]
  generalize "path_".toList = start at hstart
  simp only [List.mem_append, Text.ofUInt64, hdigits, hint, hstart, hmark, or_self, not_false_eq_true]

end LeakPath

/-- The names under which ranked paths are written, from the given rank on. -/
def Ranking.names (rank : Nat) (ps : List LeakPath) : List String :=
  (ps.zipIdx rank).map fun (p, n) => LeakPath.name n p

namespace Ranking

theorem names_cons (rank : Nat) (p : LeakPath) (ps : List LeakPath) :
    names rank (p :: ps) = p.name rank :: names (rank + 1) ps := by
  rw [names, List.zipIdx_cons, List.map_cons]
  rfl

theorem mem_names {rank : Nat} {ps : List LeakPath} {name : String} (h : name ∈ names rank ps) :
    ∃ (p : LeakPath) (n : Nat), rank ≤ n ∧ name = p.name n := by
  obtain ⟨⟨p, n⟩, hmem, rfl⟩ := List.mem_map.mp h
  exact ⟨p, n, List.le_snd_of_mem_zipIdx hmem, rfl⟩

theorem nodup_names (rank : Nat) (ps : List LeakPath) : (names rank ps).Nodup := by
  induction ps generalizing rank with
  | nil => exact List.nodup_nil
  | cons p ps ih =>
    rw [names_cons, List.nodup_cons]
    refine ⟨fun hmem => ?_, ih (rank + 1)⟩
    obtain ⟨q, n, hle, hname⟩ := mem_names hmem
    have hsame : rank = n := LeakPath.name_injective hname
    omega

end Ranking

end LeakTrace
