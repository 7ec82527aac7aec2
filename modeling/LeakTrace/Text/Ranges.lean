namespace LeakTrace.Text

/-- Ranges of code points, each from its first to its last. -/
abbrev Ranges := List (Nat × Nat)

/-- The character is in one of the ranges. -/
def within (ranges : Ranges) (c : Char) : Bool :=
  ranges.any fun (low, high) => low ≤ c.toNat && c.toNat ≤ high

end LeakTrace.Text
