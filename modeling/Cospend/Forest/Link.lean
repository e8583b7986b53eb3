import Cospend.Failure
import Cospend.Forest.Basic

/-!
# Linking trees by rank

Of two roots, the one with the lower rank goes under the other. If the ranks are equal the first root
stays a root and its rank grows by one. There is no rank above the greatest, so two roots of the
greatest rank cannot be linked.
-/

namespace Cospend.Forest

/-- How two trees are joined. -/
structure Link where
  /-- The root that stays a root. -/
  parent : Nat
  /-- The root that becomes a child. -/
  child : Nat
  /-- The new rank of the root that stays, if it changes. -/
  rank : Option UInt64
  deriving DecidableEq, Repr

def maxRank : UInt64 := 0xFFFFFFFFFFFFFFFF

/-- How the trees of two different roots are to be joined. -/
def chooseLink (f : Forest) (a b : Nat) : Except Abort Link :=
  if f.rankOf a < f.rankOf b then .ok ⟨b, a, none⟩
  else if f.rankOf b < f.rankOf a then .ok ⟨a, b, none⟩
  else if f.rankOf a = maxRank then .error .addOverflow
  else .ok ⟨a, b, some (f.rankOf a + 1)⟩

/-- The forest with two trees joined. -/
def link (f : Forest) (l : Link) : Forest where
  parent := f.parent.setIfInBounds l.child l.parent
  rank := match l.rank with
    | none => f.rank
    | some r => f.rank.setIfInBounds l.parent r

end Cospend.Forest
