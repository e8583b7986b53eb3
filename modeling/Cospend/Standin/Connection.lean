import Cospend.Standin.Host
import Cospend.Standin.Memory

/-!
# Connections to relations in files

A relation is opened by one or several users, each of whom has a connection. While there is one, the
changes are kept in a log, and a sheet that is written over the file does not reach them. The last
connection to be closed puts the changes back into the file.
-/

namespace Cospend

/-- Why a relation cannot be opened. -/
inductive OpenError where
  /-- The path has a null character at the given octet. -/
  | nullCharacter (position : Nat)
  /-- The path leads to no file, or to one that cannot be made. -/
  | noFile (path : String)
  /-- The file of the journal cannot be made. -/
  | noJournal
  | locked
  /-- The file cannot be read as a relation. -/
  | unreadable (f : Fault)
  deriving DecidableEq, Repr

def OpenError.message : OpenError → String
  | .nullCharacter position => s!"nul byte found in provided data at position: {position}"
  | .noFile path => "unable to open database file: " ++ path
  | .noJournal => "unable to open database file"
  | .locked => "database is locked"
  | .unreadable f => f.message

/-- The sink error that an opening error is told as. -/
def OpenError.sinkError (e : OpenError) : SinkError := ⟨e.message⟩

/-- A user of a relation. -/
structure Connection where
  file : String
  /-- The number of the user among those of the relation. -/
  number : Nat
  deriving DecidableEq, Repr

namespace Host

/-! ## The way to a relation -/

/-- The most octets of a whole path on the way to a relation. -/
def relationPathLimit : Nat := 511

/-- The octets of a text before its first null character. -/
def octetsBeforeNull (text : String) : Nat :=
  (String.ofList (text.toList.takeWhile (· ≠ '\x00'))).utf8ByteSize

/-- The file in which a relation is opened. The whole path has to leave room for the journal. -/
def relationFile (h : Host) (path : String) : Except OpenError String :=
  if path.contains '\x00' then .error (.nullCharacter (octetsBeforeNull (h.directory.pathOf path)))
  else
    let room := relationPathLimit - h.directory.path.utf8ByteSize
    match Path.reduce? h.directory.hasFile room path with
    | none => .error (.noFile (h.directory.pathOf path))
    | some r => match r.file? with
      | none => .error (.noFile (h.directory.pathOf path))
      | some file =>
        if room + 1 < r.size + (journalOf "").utf8ByteSize then .error (.noFile (h.directory.pathOf path))
        else .ok file

/-! ## Opening -/

/-- The directory without the files beside a relation. -/
def eraseBeside (h : Host) (file : String) : Host :=
  (h.erase (logOf file)).erase (sharedOf file)

/-- An opening, which can change the directory even if it fails. -/
abbrev Opening := ExceptT OpenError (StateM Host)

/-- The file is empty or does not exist. -/
def isEmptyFile (h : Host) (file : String) : Bool := h.contents file = .empty

/-- Removes a journal that looks like one of a change cut short. Nobody else may use the relation
then, unless there is nothing to restore. -/
def restoreJournal (file : String) : Opening Unit := do
  let h ← get
  unless h.isEmptyFile (journalOf file) do
    if h.isEmptyFile file then set (h.erase (journalOf file))
    else unless (h.contents (journalOf file)).startsWithNull do
      if h.inUse.contains file then throw .locked
      set (h.erase (journalOf file))

/-- Removes the log of a file that is empty. Its users keep it without a name. -/
def dropLog (file : String) : Opening Unit := do
  let h ← get
  if h.isEmptyFile file && !h.isEmptyFile (logOf file) then
    set { h.erase (logOf file) with
      inUse := h.inUse.modify file fun u => { u with log := { u.log with linked := false } } }

/-- The first user of a relation whose pages are made. -/
def makePages (file : String) : Opening Connection := do
  modify fun h =>
    let h := (h.write file (.other .blank)).write (logOf file) (.other .log)
    let h := h.write (sharedOf file) (.other .foreign)
    let users := (∅ : Std.ExtTreeMap Nat PageMemory).insert 0 (.ofRelation 1 .empty)
    { h with inUse := h.inUse.insert file ⟨.made, users, 1⟩ }
  return ⟨file, 0⟩

/-- The first user of a relation that is made. If its journal cannot be, an empty file is left. -/
def make (file : String) : Opening Connection := do
  if Path.isOverlong (journalOf ((Path.names file).getLastD "")) then
    modify fun h => h.write file .empty
    throw .noJournal
  modify fun h => h.erase (journalOf file)
  makePages file

def join (file : String) (u : Usage) : Opening Connection := do
  let h ← get
  match Statement.begin.outcome ⟨h.contents file, u.log⟩ .new with
  | (.error f, _) => throw (.unreadable f)
  | (.ok (), m) =>
    set { h with
      inUse := h.inUse.insert file { u with users := u.users.insert u.next m, next := u.next + 1 } }
    return ⟨file, u.next⟩

/-- One more user of a relation in use. Its log is found only if it is not empty. -/
def share (file : String) (u : Usage) : Opening Connection := do
  let h ← get
  if h.isEmptyFile file then throw .locked
  if h.isEmptyFile (logOf file) && !(h.contents file).hasHeader then throw (.unreadable .noRelation)
  join file u

/-- The first user of the relation that a file holds. -/
def use (file : String) : Opening Connection := do
  modify fun h => (h.write (logOf file) (h.contents (logOf file))).write (sharedOf file) (.other .foreign)
  join file ⟨.empty, ∅, 0⟩

/-- Turns away from a file without a relation, and removes what looks like the log of one. -/
def refuse (file : String) : Opening Connection := do
  let h ← get
  unless h.isEmptyFile (logOf file) do set (h.eraseBeside file)
  throw (.unreadable .noRelation)

/-- Opens the relation of a file, which is made if the file is empty or does not exist. -/
def openFile (file : String) : Opening Connection := do
  restoreJournal file
  dropLog file
  let h ← get
  match h.inUse[file]? with
  | some u => share file u
  | none => match h.contents file with
    | .other (.relation _) => use file
    | .other .blank => makePages file
    | c => if c = .empty then make file else refuse file

def openRelation (h : Host) (path : String) : Except OpenError Connection × Host :=
  match h.relationFile path with
  | .error e => (.error e, h)
  | .ok file => (openFile file).run h

/-! ## Closing -/

/-- Puts the changes back into the file. Where some are lost, everything stays as it is. -/
def putBack (h : Host) (file : String) (l : PageLog) : Host :=
  match l.putBack? (h.contents file) with
  | some c => (if l.commits = 0 then h else h.write file c).eraseBeside file
  | none => h

end Host

/-! ## Use -/

namespace Connection

def close (c : Connection) (h : Host) : Host :=
  match h.inUse[c.file]? with
  | none => h
  | some u =>
    let users := u.users.erase c.number
    if users.isEmpty then { h with inUse := h.inUse.erase c.file }.putBack c.file u.log
    else { h with inUse := h.inUse.insert c.file { u with users } }

/-- The outcome of a statement and the directory afterwards. -/
def run {α : Type} (c : Connection) (x : Statement α) (h : Host) :
    Except SinkError α × Host :=
  match h.inUse[c.file]? with
  | none => (.error Fault.noRelation.sinkError, h)
  | some u =>
    let (r, m) := x.outcome ⟨h.contents c.file, u.log⟩ (u.users.getD c.number .new)
    let users := u.users.insert c.number m
    (r.mapError Fault.sinkError, { h with inUse := h.inUse.insert c.file { u with users } })

/-- The use of a relation after one of its users changed it. -/
def commitTo (c : Connection) (t : Relation) (u : Usage) : Usage :=
  let log := u.log.commit t
  let remembered := (u.users.getD c.number .new).images
  let images
    | .header => remembered .header
    | p => some (p.image t)
  { u with log, users := u.users.insert c.number ⟨log.commits, images⟩ }

/-- The directory after a change of the relation. -/
def commit (c : Connection) (t : Relation) (h : Host) : Host :=
  match h.inUse[c.file]? with
  | none => h
  | some u =>
    let h := { h with inUse := h.inUse.insert c.file (c.commitTo t u) }
    if u.log.linked then h.write (Host.logOf c.file) (.other .log) else h

/-! ## A connection as a database -/

/-- A host with a transaction. The pages are read and written when it is committed. -/
structure Transaction where
  host : Host
  /-- The rows that are to be inserted. -/
  added : List Relation.Entry

/-- Asks the relation for something. -/
def ask {α : Type} (c : Connection) (x : Statement α) : Query Transaction α := fun s =>
  let (r, host) := c.run x s.host
  (r, { s with host })

def commitAdded (c : Connection) : Query Transaction Unit := do
  match ← c.ask (Statement.addition (← get).added) with
  | none => return
  | some t => modify fun s => { s with host := c.commit t s.host }

def database (c : Connection) : Database Transaction where
  begin := modify fun s => { s with added := [] }
  prepare := pure ()
  insertOrIgnore e := modify fun s => { s with added := s.added ++ [e] }
  commit := c.commitAdded
  rollBack s := { s with added := [] }
  selectCluster a := c.ask (Statement.firstCluster a)
  count := do Memory.countOf (← c.ask Statement.size)

end Connection

end Cospend
