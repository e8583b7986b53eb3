/-!
# Failures and aborts

An operation that cannot answer either returns an error, which its caller may handle, or is
abandoned where it stands. What it had changed before an abort stays changed.
-/

namespace Cospend

/-- Why an operation was abandoned. -/
inductive Abort where
  /-- A sum leaves the range of its type. -/
  | addOverflow
  /-- More elements were asked for than an array can hold. -/
  | capacityOverflow
  /-- The machine has no memory left. -/
  | exhausted
  /-- A collaborator gave up, with the text it left. -/
  | raised (text : String)
  deriving DecidableEq, Repr

def Abort.message : Abort → String
  | .addOverflow => "attempt to add with overflow"
  | .capacityOverflow => "capacity overflow"
  | .exhausted => "memory allocation failed"
  | .raised text => text

/-- How an operation ends that does not answer. -/
inductive Failure (ε : Type) where
  | error (e : ε)
  | abort (a : Abort)
  deriving DecidableEq, Repr

def Failure.map {ε ε' : Type} (f : ε → ε') : Failure ε → Failure ε'
  | .error e => .error (f e)
  | .abort a => .abort a

/-- An operation that only tells its error answers well unless there is one. -/
def Failure.answer {ε : Type} : Option ε → Except (Failure ε) Unit
  | none => .ok ()
  | some e => .error (.error e)

end Cospend
