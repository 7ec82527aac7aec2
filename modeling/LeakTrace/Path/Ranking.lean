import LeakTrace.Path.Basic

namespace LeakTrace.Ranking

/-- Adds a path in front of the first longer one, unless its statement sequence is there already. -/
def insert (ranked : List LeakPath) (p : LeakPath) : List LeakPath :=
  if ranked.any fun kept => kept.statements = p.statements then ranked
  else
    let notLonger := fun kept : LeakPath => decide (kept.length ≤ p.length)
    ranked.takeWhile notLonger ++ p :: ranked.dropWhile notLonger

/-- Keeps the first path of each starting statement that is not among `starts`. A path without
steps stays. -/
def firstOfEachStart (starts : List String) : List LeakPath → List LeakPath
  | [] => []
  | p :: ps =>
    match p.start? with
    | none => p :: firstOfEachStart starts ps
    | some start =>
      if start ∈ starts then firstOfEachStart starts ps
      else p :: firstOfEachStart (start :: starts) ps

/-- The path starts at the same source as `earlier` and ends before it does. -/
def endsBefore (p earlier : LeakPath) : Bool :=
  earlier.source = p.source && p.sink.time < earlier.sink.time

/-- Drops each path that ends before one that stands earlier; `earlier` are the paths before the
first one given, whether they were dropped or not. -/
def dropDominated (earlier : List LeakPath) : List LeakPath → List LeakPath
  | [] => []
  | p :: ps =>
    if earlier.any (endsBefore p) then dropDominated (p :: earlier) ps
    else p :: dropDominated (p :: earlier) ps

/-- The reported paths: the candidates without repeated statement sequences, stably by length, then
the first of each start if only that is wanted, then without the dominated ones. -/
def deduplicate (onePerStart : Bool) (paths : List LeakPath) : List LeakPath :=
  let ranked := paths.foldl insert []
  dropDominated [] (if onePerStart then firstOfEachStart [] ranked else ranked)

end LeakTrace.Ranking
