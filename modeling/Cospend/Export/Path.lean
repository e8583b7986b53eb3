/-!
# Paths of files

A path tells the way to a file from a directory, as names between slashes. An empty name and `.` stay
where the way is, and `..` goes up one level. No directory holds another one that is known here, so a
way down leads to a file or to nothing.

A way can be taken in two manners. `follow` goes from name to name, and each name before the last has
to be one of a directory. `reduce` first lets a name and a later `..` cancel out, whether or not
there is anything of that name.
-/

namespace Cospend.Path

/-- The most octets that a name can have. -/
def nameLimit : Nat := 255

def isOverlong (name : String) : Bool := nameLimit < name.utf8ByteSize

/-- The names on the way. -/
def names (path : String) : List String := (path.toList.splitOn '/').map String.ofList

/-- The file of a name in the directory that is `above` levels higher. -/
def file (above : Nat) (name : String) : String :=
  String.join (List.replicate above "../") ++ name

/-! ## Following a way -/

/-- Why a way does not lead to a file. -/
inductive Obstacle where
  /-- There is nothing of a name on the way. -/
  | notFound
  /-- A name on the way is one of a file. -/
  | notDirectory
  /-- The way ends at a directory, or is to end at one. -/
  | isDirectory
  | tooLong
  | nullCharacter
  deriving DecidableEq, Repr

def Obstacle.message : Obstacle → String
  | .notFound => "No such file or directory (os error 2)"
  | .notDirectory => "Not a directory (os error 20)"
  | .isDirectory => "Is a directory (os error 21)"
  | .tooLong => "File name too long (os error 36)"
  | .nullCharacter => "file name contained an unexpected NUL byte"

/-- The file at the end of a way that starts `above` levels higher. A way that ends in a slash is to
end at a directory, even if its last name is too long. -/
def follow (isFile : String → Bool) : (above : Nat) → List String → Except Obstacle String
  | _, [] => .error .isDirectory
  | above, name :: rest =>
    if name = "" ∨ name = "." then follow isFile above rest
    else if name = ".." then follow isFile (above + 1) rest
    else if rest ≠ [] ∧ rest.all (· = "") then .error .isDirectory
    else if isOverlong name then .error .tooLong
    else if rest = [] then .ok (file above name)
    else if isFile (file above name) then .error .notDirectory
    else .error .notFound

/-! ## Reducing a way -/

/-- Where a reduced way leads: to a level above the start, and from there down along names, the last
of which comes first. -/
structure Reduced where
  /-- The levels above the start. -/
  above : Nat
  /-- The names on the way down, from the last one on. -/
  down : List String
  deriving DecidableEq, Repr

namespace Reduced

/-- The number of octets of the way down, each name with a slash before it. -/
def size (r : Reduced) : Nat :=
  r.down.foldr (fun name size => 1 + name.utf8ByteSize + size) 0

/-- One level up. -/
def up (r : Reduced) : Reduced :=
  match r.down with
  | [] => { r with above := r.above + 1 }
  | _ :: down => { r with down }

/-- One name down. Only the first name down can be one of a file, as what follows lies in a directory
that is not there; a first name that is too long cannot be looked at, and no name comes after a
file. -/
def descend? (isFile : String → Bool) (room : Nat) (r : Reduced) (name : String) :
    Option Reduced :=
  let next : Reduced := { r with down := name :: r.down }
  let blocked := match r.down.getLast? with
    | none => isOverlong name
    | some first => isFile (file r.above first)
  if blocked || room < next.size then none else some next

/-- One name further. -/
def step? (isFile : String → Bool) (room : Nat) (r : Reduced) (name : String) : Option Reduced :=
  if name = "" ∨ name = "." then some r
  else if name = ".." then some r.up
  else r.descend? isFile room name

/-- The file at the end of the way, if it ends one name down. -/
def file? (r : Reduced) : Option String :=
  match r.down with
  | [name] => some (file r.above name)
  | _ => none

end Reduced

/-- A way reduced, where each stretch of it may have `room` octets. -/
def reduce? (isFile : String → Bool) (room : Nat) (path : String) : Option Reduced :=
  (names path).foldlM (Reduced.step? isFile room) ⟨0, []⟩

end Cospend.Path
