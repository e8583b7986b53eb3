import Cospend.Export.Directory
import Cospend.Export.Relation

/-!
# Pages of a relation in a file

A stand-in for a database in a file is made of this module and of the three that follow it. A file that
holds a relation consists of a header and of three pages: the table of the rows, the keys that tell whether
a row is there, and the addresses by which rows are looked up. While a relation is in use, its changes are
kept in a log of page images beside the file, and the last user puts them back into the file.
-/

namespace Cospend

inductive Page where
  /-- The page that tells how many pages there are. -/
  | header
  /-- The rows in the order of their insertion. -/
  | table
  /-- The keys, each of them a whole row. -/
  | keys
  /-- The rows by their addresses. -/
  | addresses
  deriving DecidableEq, Repr

/-- What is found on a page. -/
inductive Image where
  /-- A header, which tells the number of pages. -/
  | header (pages : Nat)
  /-- Rows, in the order that the page has for them. -/
  | rows (t : Relation)
  /-- Octets that are no page of a relation. -/
  | junk
  /-- Nothing, as the octets are lost. -/
  | missing
  deriving DecidableEq, Repr

namespace Page

def all : List Page := [.header, .table, .keys, .addresses]

def octets : Nat := 4096

/-- The page in the file of a given relation. -/
def image (t : Relation) : Page → Image
  | .header => .header all.length
  | _ => .rows t

end Page

/-! ## Files -/

/-- What a file holds beside sheets. -/
inductive PageFile where
  | relation (t : Relation)
  /-- The header of a relation whose pages are in a log only. -/
  | blank
  /-- The log of a relation in use. -/
  | log
  /-- Something else that is not empty. -/
  | foreign
  deriving DecidableEq, Repr

namespace Contents

def empty : Contents PageFile := .sheet ""

/-- The number of pages that the octets of a file make, the last of them perhaps cut short. -/
def pages : Contents PageFile → Nat
  | .sheet text => (text.utf8ByteSize + Page.octets - 1) / Page.octets
  | .other .blank => 1
  | _ => Page.all.length

/-- A page as it is found in a file. -/
def image : Contents PageFile → Page → Image
  | .other (.relation t), p => p.image t
  | .other .blank, .header => .header 1
  | _, _ => .junk

/-- The file has the header of a relation. -/
def hasHeader : Contents PageFile → Bool
  | .other (.relation _) => true
  | .other .blank => true
  | _ => false

/-- The first character of the file is the null character. -/
def startsWithNull : Contents PageFile → Bool
  | .sheet text => text.startsWith '\x00'
  | _ => false

end Contents

/-! ## Logs -/

/-- The changes to a relation in use. -/
structure PageLog where
  /-- The latest image of each page that was changed. -/
  images : Page → Option Image
  /-- The number of changes. -/
  commits : Nat
  linked : Bool

namespace PageLog

def empty : PageLog := ⟨fun _ => none, 0, true⟩

/-- The log of a relation that was just made. -/
def made : PageLog := ⟨fun p => some (p.image .empty), 1, true⟩

/-- A change of the rows. New images fill the gap that lost ones left, so that a lost header reads as
junk from then on. -/
def commit (l : PageLog) (t : Relation) : PageLog where
  images
    | .header => (l.images .header).map fun i => if i = .missing then .junk else i
    | p => some (p.image t)
  commits := l.commits + 1
  linked := l.linked

/-- The log after something else was written over it. -/
def lose (l : PageLog) : PageLog :=
  { l with images := fun p => (l.images p).map fun _ => .missing }

/-- The page that users of a relation see, who look into the log first. -/
def image (l : PageLog) (file : Contents PageFile) (p : Page) : Image :=
  (l.images p).getD (file.image p)

/-- The number of pages that users of a relation see. -/
def pages (l : PageLog) (file : Contents PageFile) : Nat :=
  if l.commits = 0 then file.pages else Page.all.length

/-- The file with the changes put back into it, unless one of them is lost. -/
def putBack? (l : PageLog) (file : Contents PageFile) : Option (Contents PageFile) :=
  if l.commits = 0 then some file
  else if Page.all.any fun p => l.images p = some .missing then none
  else match l.image file .header, l.image file .table with
    | .header _, .rows t => some (.other (.relation t))
    | _, _ => some (.other .foreign)

end PageLog

end Cospend
