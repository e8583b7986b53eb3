import Cospend.Standin.Statement

/-!
# A directory with relations in use

A sheet can be written over the file of a relation in use, or over the log of one. The users of the relation are
not told.
-/

namespace Cospend

structure Usage where
  /-- The changes that are not in the file. -/
  log : PageLog
  /-- What the users remember, by the numbers of the users. -/
  users : Std.ExtTreeMap Nat PageMemory
  next : Nat

/-- Files and the relations in use. -/
structure Host where
  directory : Directory PageFile
  /-- The relations in use, by their files. -/
  inUse : Std.ExtTreeMap String Usage

namespace Host

def empty (path : String) : Host := ⟨.empty path, ∅⟩

/-- What a file holds, where one that does not exist counts as empty. -/
def contents (h : Host) (file : String) : Contents PageFile := h.directory.files.getD file .empty

def write (h : Host) (file : String) (c : Contents PageFile) : Host :=
  { h with directory := h.directory.write file c }

def erase (h : Host) (file : String) : Host :=
  { h with directory := { h.directory with files := h.directory.files.erase file } }

/-! ## Files beside a relation -/

def journalOf (file : String) : String := file ++ "-journal"

def logOf (file : String) : String := file ++ "-wal"

/-- The file that the users of a relation share. -/
def sharedOf (file : String) : String := file ++ "-shm"

/-- What becomes of the use of a relation when a sheet is written. -/
def overwritten (sheet file : String) (u : Usage) : Usage :=
  if logOf file = sheet ∧ u.log.linked then { u with log := u.log.lose } else u

/-- The host after a sheet was to be written, which left the given directory. -/
def afterSheet (h : Host) (path : String) (d : Directory PageFile) : Host :=
  match h.directory.sheetFile path with
  | .ok file => ⟨d, h.inUse.map (overwritten file)⟩
  | .error _ => ⟨d, h.inUse⟩

end Host

end Cospend
