import Cospend.Export.Path
import Std.Data.ExtTreeMap

/-!
# A directory of sheets

A file holds a sheet, or something else that other programs put there. A sheet is written as a whole and takes
the place of whatever the file held.
-/

namespace Cospend

/-- What a file holds, if it is a sheet or one of some other kinds. -/
inductive Contents (κ : Type) where
  | sheet (text : String)
  | other (kind : κ)
  deriving DecidableEq, Repr

structure Directory (κ : Type) where
  path : String
  /-- What the files hold. -/
  files : Std.ExtTreeMap String (Contents κ)

namespace Directory

variable {κ : Type}

def empty (path : String) : Directory κ := ⟨path, ∅⟩

def pathOf (d : Directory κ) (path : String) : String := d.path ++ "/" ++ path

def hasFile (d : Directory κ) (file : String) : Bool := d.files.contains file

def write (d : Directory κ) (file : String) (c : Contents κ) : Directory κ :=
  { d with files := d.files.insert file c }

/-- The most octets of a whole path. -/
def pathLimit : Nat := 4095

/-- The file in which a sheet is written or read. -/
def sheetFile (d : Directory κ) (path : String) : Except Path.Obstacle String :=
  if path.contains '\x00' then .error .nullCharacter
  else if pathLimit < (d.pathOf path).utf8ByteSize then .error .tooLong
  else Path.follow d.hasFile 0 (Path.names path)

/-- Writes a sheet in place of what the file held. -/
def writeSheet (d : Directory κ) (path text : String) : Except Path.Obstacle (Directory κ) := do
  let file ← d.sheetFile path
  return d.write file (.sheet text)

/-- The sheet in a file. -/
def sheet? (d : Directory κ) (path : String) : Option String :=
  match d.sheetFile path with
  | .error _ => none
  | .ok file => match d.files[file]? with
    | some (.sheet text) => some text
    | _ => none

end Directory

end Cospend
