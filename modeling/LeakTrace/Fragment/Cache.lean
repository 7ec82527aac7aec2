import LeakTrace.Fragment

namespace LeakTrace

/-- The last fragment recorded for each node. -/
structure FragmentCache where
  latest : Std.TreeMap Node Fragment

namespace FragmentCache

def empty : FragmentCache := ⟨∅⟩

instance : Inhabited FragmentCache := ⟨empty⟩

def record (cache : FragmentCache) (f : Fragment) : FragmentCache :=
  ⟨cache.latest.insert f.node f⟩

def ofList (fs : List Fragment) : FragmentCache := fs.foldl record empty

def get? (cache : FragmentCache) (n : Node) : Option Fragment := cache.latest[n]?

/-- Forgets what is known about one node. -/
def erase (cache : FragmentCache) (n : Node) : FragmentCache := ⟨cache.latest.erase n⟩

def size (cache : FragmentCache) : Nat := cache.latest.size

def isEmpty (cache : FragmentCache) : Bool := cache.latest.isEmpty

@[simp] theorem get?_empty (n : Node) : empty.get? n = none := by simp [empty, get?]

theorem get?_record (cache : FragmentCache) (f : Fragment) (n : Node) :
    (cache.record f).get? n = if f.node = n then some f else cache.get? n := by
  simp [record, get?, Std.TreeMap.getElem?_insert]

theorem get?_erase (cache : FragmentCache) (m n : Node) :
    (cache.erase m).get? n = if m = n then none else cache.get? n := by
  simp [erase, get?, Std.TreeMap.getElem?_erase]

theorem size_erase_lt {cache : FragmentCache} {n : Node} {f : Fragment}
    (h : cache.get? n = some f) : (cache.erase n).size < cache.size := Node.size_erase_lt h

end FragmentCache

end LeakTrace
