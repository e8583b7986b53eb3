import Cospend.Chain.Ledger
import Cospend.Pool.Basic
import Std.Data.ExtTreeSet

/-!
# Owners of spent outputs

An input is resolved to the address that owned the output it spends. The inputs of a transaction are
resolved by jobs of a pool, which put the addresses into one set. An input that makes new coins is
left out, and an output without an address adds nothing.
-/

namespace Cospend

/-- The circumstances of a walk over the chain: the ledger, the workers, and what is left open by
them, which is the order of the workers' moves and the order in which a set is taken apart. -/
structure Environment where
  ledger : Ledger
  workers : Nat
  /-- Which worker moves when. -/
  schedule : Schedule
  /-- The order in which the addresses of a set come out. -/
  arrange : List Address → List Address
  arrange_perm : ∀ as, (arrange as).Perm as

/-- Addresses found so far. -/
abbrev AddressSet := Std.ExtTreeSet Address

namespace Environment

/-- The circumstances in which workers move one after the other and sets come out in order. -/
def sequential (ledger : Ledger) (workers : Nat) : Environment where
  ledger
  workers
  schedule := Schedule.first
  arrange := id
  arrange_perm := fun _ => .refl _

/-- Looks the owner of an outpoint up and adds it to the addresses found. -/
def lookUp (env : Environment) (occasion : Occasion) (o : Outpoint) : Job AddressSet LedgerError :=
  fun found =>
    match env.ledger.transaction occasion o.transaction with
    | .error (.error e) => (.failed e, found)
    | .error (.abort _) => (.aborted, found)
    | .ok t =>
      match t.outputs[o.index.toNat]? with
      | none => (.failed (.outputNotFound o), found)
      | some output =>
        match output.address with
        | none => (.done, found)
        | some a => (.done, found.insert a)

/-- A job for each input of a transaction that spends an output. -/
def lookUps (env : Environment) (height : Height) (place : Nat) (t : Transaction) :
    List (Job AddressSet LedgerError) :=
  (t.inputs.filter fun i => !i.isCoinbase).mapIdx fun k i =>
    env.lookUp ⟨height, place, some k⟩ i.spends

/-- The addresses whose outputs a transaction spends, in the order in which the set comes out, or the
error of an input. The pool starts at the given moment, and the moment afterwards is returned. -/
def inputAddresses (env : Environment) (height : Height) (place : Nat) (t : Transaction)
    (clock : Nat) : Except (WorkerError LedgerError) (List Address) × Nat :=
  let pool : Pool AddressSet LedgerError := .start env.workers ∅ clock
  match pool.executeAll env.schedule (env.lookUps height place t) with
  | (none, pool) => (.ok (env.arrange pool.shared.toList), pool.clock)
  | (some e, pool) => (.error e, pool.clock)

end Environment

end Cospend
