/-!
# Forests of numbered nodes

Nodes are numbered from zero and each has a parent; a root is its own parent. A walk follows parents
and is cut off after as many steps as there are nodes, which is enough to reach a root if there is
one. Each node also has a rank, an estimate of the height of its tree that only counts at roots.
-/

namespace Cospend

/-- Parents and ranks by the number of the node. -/
structure Forest where
  parent : Array Nat
  rank : Array UInt64
  deriving DecidableEq, Repr

namespace Forest

def empty : Forest := ⟨#[], #[]⟩

/-- The number of nodes, and the number of the next one. -/
def size (f : Forest) : Nat := f.parent.size

/-- The parent of a node. A number that is no node stands for itself. -/
def next (f : Forest) (i : Nat) : Nat := f.parent.getD i i

def rankOf (f : Forest) (i : Nat) : UInt64 := f.rank.getD i 0

def push (f : Forest) (parent : Nat) (rank : UInt64) : Forest :=
  ⟨f.parent.push parent, f.rank.push rank⟩

/-! ## Walks to the root -/

/-- Where a walk stands after at most `steps` steps; it stops at a root. -/
def climb (f : Forest) : (steps : Nat) → Nat → Nat
  | 0, i => i
  | steps + 1, i => if f.next i = i then i else climb f steps (f.next i)

def root (f : Forest) (i : Nat) : Nat := f.climb f.size i

/-- The nodes on the way from a node to `root`, in order, up to the one whose parent is `root`. That
one is left out, as its parent need not change. -/
def trail (f : Forest) (root : Nat) : (steps : Nat) → Nat → List Nat
  | 0, _ => []
  | steps + 1, i => if f.next i = root then [] else i :: trail f root steps (f.next i)

/-- The forest with the parents of some nodes replaced by one. -/
def reparent (f : Forest) (nodes : List Nat) (parent : Nat) : Forest :=
  { f with parent := nodes.foldl (fun ps i => ps.setIfInBounds i parent) f.parent }

/-- The outcome of shortening the way from a node to its root. -/
structure Compression where
  forest : Forest
  root : Nat
  /-- The nodes whose parent changed, in the order of the walk. -/
  moved : List Nat

/-- Makes the root the parent of every node on the way to it. -/
def compress (f : Forest) (i : Nat) : Compression :=
  let r := f.root i
  let moved := f.trail r f.size i
  ⟨f.reparent moved r, r, moved⟩

/-- Makes the root of each node its parent, node by node. -/
def flatten (f : Forest) : Forest :=
  (List.range f.size).foldl (fun f i => (f.compress i).forest) f

/-! ## Cycles -/

/-- The walk from a node ends at a root. -/
def reachesRoot (f : Forest) (i : Nat) : Bool := f.next (f.root i) == f.root i

/-- The first node that a walk meets again, where `seen` are the nodes met so far. -/
def firstRepeat (f : Forest) : (steps : Nat) → (seen : List Nat) → Nat → Nat
  | 0, _, i => i
  | steps + 1, seen, i =>
    if seen.contains i then i else firstRepeat f steps (i :: seen) (f.next i)

/-- A node on a cycle: the one at which the first walk that ends at no root enters it. -/
def cycle? (f : Forest) : Option Nat :=
  ((List.range f.size).find? fun i => !f.reachesRoot i).map (f.firstRepeat (f.size + 1) [])

end Forest

end Cospend
