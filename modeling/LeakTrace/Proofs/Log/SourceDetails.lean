import LeakTrace.Proofs.Log.SinkBinding

namespace LeakTrace

def recordedDetail? (line : String) : Option String := (record? line).bind Record.detail?

def announcedStatement? (line : String) : Option String :=
  ((record? line).bind Record.origin?).map Node.statement

def latestDetail? (lines : List String) : Option String := (lines.filterMap recordedDetail?).getLast?

/-- The last line that announces an origin for the statement stands behind `detail` as the latest
description. -/
def LastAnnouncedBehind (statement detail : String) (lines : List String) : Prop :=
  ∃ before line after, lines = before ++ line :: after ∧ announcedStatement? line = some statement ∧
    latestDetail? before = some detail ∧ ∀ l ∈ after, announcedStatement? l ≠ some statement

variable {lines : List String} {line statement detail : String}

private theorem latestDetail?_concat (lines : List String) (line : String) :
    latestDetail? (lines ++ [line]) = (recordedDetail? line).or (latestDetail? lines) :=
  getLast?_filterMap_concat recordedDetail? lines line

private theorem latestDetail?_append (before between : List String) :
    latestDetail? (before ++ between) = (latestDetail? between).or (latestDetail? before) := by
  rw [latestDetail?, List.filterMap_append, List.getLast?_append]
  rfl

private theorem LastAnnouncedBehind.latestDetail?_ne_none
    (h : LastAnnouncedBehind statement detail lines) :
    latestDetail? lines ≠ none := by
  obtain ⟨before, line, after, rfl, -, hdetail, -⟩ := h
  rw [latestDetail?_append, hdetail]
  cases latestDetail? (line :: after) with
  | none => simp
  | some later => simp

private theorem lastAnnouncedBehind_concat :
    LastAnnouncedBehind statement detail (lines ++ [line]) ↔
      if announcedStatement? line = some statement then latestDetail? lines = some detail
      else LastAnnouncedBehind statement detail lines := by
  have hplace : LastAnnouncedBehind statement detail (lines ++ [line]) ↔
      (∃ before origin after, lines = before ++ origin :: after ∧
        announcedStatement? origin = some statement ∧ latestDetail? before = some detail ∧
        ∀ l ∈ after ++ [line], announcedStatement? l ≠ some statement) ∨
      (announcedStatement? line = some statement ∧ latestDetail? lines = some detail ∧
        ∀ l ∈ [], announcedStatement? l ≠ some statement) :=
    exists_place_concat
  have hlater : ∀ after, (∀ l ∈ after ++ [line], announcedStatement? l ≠ some statement) ↔
      (∀ l ∈ after, announcedStatement? l ≠ some statement) ∧
        announcedStatement? line ≠ some statement := by
    simp [or_imp, forall_and]
  simp only [hplace, hlater]
  split
  · next hline => simp [hline]
  · next hline => simp [hline, LastAnnouncedBehind]

namespace TaintLog

private theorem pendingDetail_ofLines (lines : List String) :
    (ofLines lines).bindings.pendingDetail = latestDetail? lines := by
  induction lines using List.reverseRecOn with
  | nil => rfl
  | append_singleton lines line ih =>
    rw [ofLines_concat, (takes_addLine _ line).pendingDetail, ih, latestDetail?_concat]
    rfl

private theorem detail?_ofLines_concat (lines : List String) (line statement : String) :
    (ofLines (lines ++ [line])).bindings.detail? statement =
      if announcedStatement? line = some statement then
        (latestDetail? lines).or ((ofLines lines).bindings.detail? statement)
      else (ofLines lines).bindings.detail? statement := by
  rw [ofLines_concat, (takes_addLine _ line).detail?, pendingDetail_ofLines]
  rfl

/-- A statement has the description that is the latest one at its last origin. -/
theorem detail?_ofLines (lines : List String) (statement : String) :
    ∀ detail, (ofLines lines).bindings.detail? statement = some detail ↔
      LastAnnouncedBehind statement detail lines := by
  induction lines using List.reverseRecOn with
  | nil => simp [LastAnnouncedBehind, ofLines, empty, Bindings.empty, Bindings.detail?]
  | append_singleton lines line ih =>
    intro detail
    rw [detail?_ofLines_concat, lastAnnouncedBehind_concat]
    split
    · cases hlatest : latestDetail? lines with
      | some latest => simp
      | none =>
        have hnone : (ofLines lines).bindings.detail? statement = none := by
          by_contra hsome
          obtain ⟨old, hold⟩ := Option.ne_none_iff_exists'.mp hsome
          exact ((ih old).mp hold).latestDetail?_ne_none hlatest
        simp [hnone]
    · exact ih detail

end TaintLog

/-- An origin takes the latest description before it for its statement, and no other line changes what
a statement has. So a statement has the one that is the latest at its last origin; and an origin takes
the latest one behind the previous origin wherever there is one. -/
theorem origin_takes_latest_detail (lines : List String) :
    (∀ line statement, (TaintLog.ofLines (lines ++ [line])).bindings.detail? statement =
        if announcedStatement? line = some statement then
          (latestDetail? lines).or ((TaintLog.ofLines lines).bindings.detail? statement)
        else (TaintLog.ofLines lines).bindings.detail? statement) ∧
      (∀ statement detail, (TaintLog.ofLines lines).bindings.detail? statement = some detail ↔
        LastAnnouncedBehind statement detail lines) ∧
      ∀ before between line statement detail, lines = before ++ between ++ [line] →
        announcedStatement? line = some statement → latestDetail? between = some detail →
        (TaintLog.ofLines lines).bindings.detail? statement = some detail := by
  refine ⟨TaintLog.detail?_ofLines_concat lines, TaintLog.detail?_ofLines lines, ?_⟩
  intro before between line statement detail hlines hline hdetail
  rw [hlines, TaintLog.detail?_ofLines_concat, if_pos hline, latestDetail?_append, hdetail]
  rfl

/-- A description, an origin right behind it, and another origin. -/
def twoOrigins : List String :=
  ["SourceFound: La;->f()V(1), imei", "SourceFound: La;->x()V(0)id(5)",
    "SourceFound: La;->y()V(2)id(9)"]

private theorem announcedStatement?_first :
    announcedStatement? twoOrigins[1] = some "La;->x()V(0)" := by
  decide +kernel

private theorem latestDetail?_first : latestDetail? (twoOrigins.take 1) = some "imei" := by
  decide +kernel

theorem first_origin_described :
    announcedStatement? twoOrigins[1] = some "La;->x()V(0)" ∧
      latestDetail? (twoOrigins.take 1) = some "imei" ∧
      (TaintLog.ofLines (twoOrigins.take 2)).bindings.detail? "La;->x()V(0)" = some "imei" := by
  obtain ⟨-, -, hbehind⟩ := origin_takes_latest_detail (twoOrigins.take 2)
  have hdetail := hbehind [] _ _ _ _ rfl announcedStatement?_first latestDetail?_first
  exact ⟨announcedStatement?_first, latestDetail?_first, hdetail⟩

/-- An origin right behind another one takes the description that this one has taken already. -/
theorem second_origin_described :
    ¬∀ (lines : List String) (first second statement : String),
      (announcedStatement? first).isSome = true → (announcedStatement? second).isSome = true →
      (TaintLog.ofLines (lines ++ [first] ++ [second])).bindings.detail? statement =
        (TaintLog.ofLines (lines ++ [first])).bindings.detail? statement := by
  intro h
  have hsecond : announcedStatement? twoOrigins[2] = some "La;->y()V(2)" := by decide +kernel
  have hlatest : latestDetail? (twoOrigins.take 1 ++ [twoOrigins[1]]) = some "imei" := by
    decide +kernel
  have hsame := h (twoOrigins.take 1) twoOrigins[1] twoOrigins[2] "La;->y()V(2)"
    (by simp [announcedStatement?_first]) (by simp [hsecond])
  rw [TaintLog.detail?_ofLines_concat, if_pos hsecond, hlatest, TaintLog.detail?_ofLines_concat,
    announcedStatement?_first] at hsame
  have hnone : (TaintLog.ofLines (twoOrigins.take 1)).bindings.detail? "La;->y()V(2)" = none := by
    decide +kernel
  rw [hnone] at hsame
  exact absurd hsame (by simp)

end LeakTrace
