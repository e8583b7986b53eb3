import Cospend.Export.Sink
import Cospend.Standin.Page

/-!
# Statements on a relation in a file

A statement reads the pages it needs, and no others. What a user has read once is remembered until the
relation changes, so that a statement can succeed although the file was overwritten meanwhile, and
fail only at the first page that has to be read anew.
-/

namespace Cospend

/-- Why a statement fails. -/
inductive Fault where
  | noRelation
  /-- The file is too short, or a page is none of a relation. -/
  | malformed
  | unreadable
  deriving DecidableEq, Repr

def Fault.message : Fault → String
  | .noRelation => "file is not a database"
  | .malformed => "database disk image is malformed"
  | .unreadable => "disk I/O error"

/-- The sink error that a fault is told as. -/
def Fault.sinkError (f : Fault) : SinkError := ⟨f.message⟩

/-- What a user remembers of the pages. -/
structure PageMemory where
  /-- The number of changes up to which it holds. -/
  seen : Nat
  images : Page → Option Image

namespace PageMemory

/-- The memory of a user who has read nothing. -/
def new : PageMemory := ⟨0, fun _ => none⟩

/-- The memory of a user who knows all pages of a relation. -/
def ofRelation (seen : Nat) (t : Relation) : PageMemory := ⟨seen, fun p => some (p.image t)⟩

/-- The memory with one more page. -/
def remember (m : PageMemory) (p : Page) (i : Image) : PageMemory :=
  { m with images := fun q => if q = p then some i else m.images q }

/-- The memory for a relation that was changed that often: it holds for the last change only. -/
def refresh (m : PageMemory) (commits : Nat) : PageMemory :=
  if m.seen = commits then m else ⟨commits, fun _ => none⟩

end PageMemory

/-- Where the pages are found. -/
structure PageSource where
  file : Contents PageFile
  /-- The changes that are not in the file. -/
  log : PageLog

/-- An action of a user that reads pages. -/
abbrev Statement (α : Type) := ReaderT PageSource (ExceptT Fault (StateM PageMemory)) α

namespace Statement

/-- The outcome of a statement and the memory of its user afterwards. -/
def outcome {α : Type} (x : Statement α) (s : PageSource) (m : PageMemory) :
    Except Fault α × PageMemory :=
  (x.run s).run m

/-- A page, from memory if it is there. -/
def page (p : Page) : Statement Image := do
  match (← get).images p with
  | some i => return i
  | none =>
    let s ← read
    let i := s.log.image s.file p
    if i = .missing then throw .unreadable
    modify fun m => m.remember p i
    return i

/-- The rows on a page. -/
def rows (p : Page) : Statement Relation := do
  match ← page p with
  | .rows t => return t
  | _ => throw .malformed

/-- What each statement begins with: it reads the header and compares the number of pages. -/
def begin : Statement Unit := do
  let s ← read
  modify fun m => m.refresh s.log.commits
  match ← page .header with
  | .header n => if s.log.pages s.file < n then throw .malformed
  | _ => throw .noRelation

def size : Statement Nat := do
  begin
  return (← rows .addresses).size

/-- The cluster column of the first row with an address. -/
def firstCluster (a : String) : Statement (Option Int64) := do
  begin
  match (← rows .addresses).firstCluster a with
  | none => return none
  | some _ => return (← rows .table).firstCluster a

/-- The relation with the given rows in it, if some of them are new. -/
def addition (added : List Relation.Entry) : Statement (Option Relation) := do
  if added = [] then return none
  begin
  let t := added.foldl Relation.insert (← rows .table)
  if t = (← rows .keys) then return none
  let _ ← rows .addresses
  return some t

end Statement

end Cospend
