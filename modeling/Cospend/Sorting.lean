/-!
# Lists in order

A list is sorted by insertion, from its end on. Elements that the order does not tell apart stay as they stood.
The recursion is on the list, so that a list that is given is sorted by evaluation, in a proof as well.
-/

namespace Cospend

variable {α : Type}

/-- Puts an element in front of the first one that does not come before it. -/
def insertBy (le : α → α → Bool) (a : α) : List α → List α
  | [] => [a]
  | b :: bs => if le a b then a :: b :: bs else b :: insertBy le a bs

def sortBy (le : α → α → Bool) (as : List α) : List α := as.foldr (insertBy le) []

end Cospend
