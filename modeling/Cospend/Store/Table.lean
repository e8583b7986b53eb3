import Cospend.Bytes.Basic
import Std.Data.ExtTreeMap

/-!
# Tables of octet strings

A table maps keys to values, both of them octet strings, and lists its entries in the order of the
keys. The keys that begin with a given octet string are neighbours in that order, so a scan starts
at the octet string itself and ends at the first key that does not begin with it.
-/

namespace Cospend

/-- Keys with their values. -/
abbrev Table := Std.ExtTreeMap Bytes Bytes

inductive Change where
  | set (key value : Bytes)
  | delete (key : Bytes)
  deriving DecidableEq, Repr

def Change.key : Change → Bytes
  | .set key _ => key
  | .delete key => key

namespace Table

def change (t : Table) : Change → Table
  | .set key value => t.insert key value
  | .delete key => t.erase key

def changeAll (t : Table) (cs : List Change) : Table := cs.foldl change t

/-- The entries whose key begins with `lead`, in the order of the keys. -/
def scan (t : Table) (lead : Bytes) : List (Bytes × Bytes) :=
  (t.toList.dropWhile fun e => (compare e.1 lead).isLT).takeWhile fun e => lead.isPrefixOf e.1

end Table

end Cospend
