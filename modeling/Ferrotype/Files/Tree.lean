/-
# Trees of files

A tree says which files there are, with their bytes, and which folders. A place is the list of the
names that lead to it from the root; a folder is also each place that something lies under.

A path is followed name by name, and each name but the last has to be that of a folder. Two dots
lead to the folder around the one reached so far, so a path through a folder that does not exist
leads nowhere, even if it comes back out of it.
-/

import Ferrotype.Files.Path

namespace Ferrotype
namespace Files

/-- The names that lead to a file or folder from the root. -/
abbrev Place := List String

/-- What stands at a place. -/
inductive Entry
  | file (bytes : List UInt8)
  | folder
deriving Repr, DecidableEq

/-- The files and folders that there are, and the place where the program runs. -/
structure Tree where
  here : Place
  entries : List (Place × Entry)
deriving Repr, DecidableEq

/-- Why a path leads to nothing. -/
inductive Absence
  /-- Nothing has this name. -/
  | missing
  /-- A name on the way is that of a file. -/
  | underFile
deriving Repr, DecidableEq

namespace Tree

/-! ## Places -/

/-- The bytes of the file at a place. -/
def file? (t : Tree) (place : Place) : Option (List UInt8) :=
  match t.entries.lookup place with
  | some (.file bytes) => some bytes
  | _ => none

/-- Whether an entry makes a folder of a place. -/
def holds (place : Place) (e : Place × Entry) : Bool :=
  place.isPrefixOf e.1 && (e.1 ≠ place || e.2 = .folder)

/-- Whether a place is a folder. -/
def isFolder (t : Tree) (place : Place) : Bool :=
  place.isPrefixOf t.here || t.entries.any (holds place)

/-- The tree with another entry at a place. -/
def put (t : Tree) (place : Place) (e : Entry) : Tree where
  here := t.here
  entries := (place, e) :: t.entries.filter (·.1 ≠ place)

/-- What stands at a place. -/
def entry? (t : Tree) (place : Place) : Option Entry :=
  match t.file? place with
  | some bytes => some (.file bytes)
  | none => if t.isFolder place then some .folder else none

/-! ## Paths -/

/-- The place that two dots or a name lead to. -/
def step (place : Place) (name : String) : Place :=
  if name = ".." then place.dropLast else place ++ [name]

/-- The place that names lead to, where each name but the last is that of a folder. -/
def follow (t : Tree) (place : Place) : List String → Except Absence Place
  | [] => .ok place
  | name :: names =>
    if t.isFolder place then t.follow (step place name) names
    else .error (if (t.file? place).isSome then .underFile else .missing)

/-- The place where a path starts. -/
def startPlace (t : Tree) : Start → Place
  | .here => t.here
  | _ => []

/-- The place that a path leads to. -/
def place? (t : Tree) (p : Path) : Except Absence Place :=
  t.follow (t.startPlace p.start) p.names

/-- What a path leads to. -/
def find (t : Tree) (p : Path) : Except Absence Entry :=
  match t.place? p with
  | .error e => .error e
  | .ok place =>
    match t.entry? place with
    | some e => .ok e
    | none => .error .missing

/-! ## Folders -/

/-- The names that lead from a place to a file under it. -/
def namesBelow (place : Place) (e : Place × Entry) : Option (List String) :=
  match e.2 with
  | .folder => none
  | .file _ => if place.isPrefixOf e.1 ∧ e.1 ≠ place then some (e.1.drop place.length) else none

/-- The files under a place, at any depth, by the names that lead to them. -/
def filesBelow (t : Tree) (place : Place) : List (List String) :=
  t.entries.filterMap (namesBelow place)

/-- Whether the last of some names is that of a Rust file. -/
def isRustPlace (names : List String) : Bool := (names.getLast?.map isRustName).getD false

/-- Whether names come before others in the order of lists, or are the same. -/
def precedes : List String → List String → Bool
  | [], _ => true
  | _ :: _, [] => false
  | a :: as, b :: bs => if a = b then precedes as bs else decide (a < b)

/-- The Rust files under a path, at any depth, sorted name by name. -/
def rustFiles (t : Tree) (p : Path) : List Path :=
  match t.place? p with
  | .error _ => []
  | .ok place =>
    (((t.filesBelow place).filter isRustPlace).mergeSort precedes).map p.below

/-! ## Writing -/

/-- The tree in which names lead from a place to a folder, made where nothing stands, and the place
of that folder; a file on the way is left alone. -/
def makeFolders (t : Tree) (place : Place) : List String → Option (Tree × Place)
  | [] => some (t, place)
  | name :: names =>
    let next := step place name
    if (t.file? next).isSome then none
    else if t.isFolder next then t.makeFolders next names
    else (t.put next .folder).makeFolders next names

/-- The tree with a folder at a path and around it. -/
def makeFolder (t : Tree) (p : Path) : Option (Tree × Place) :=
  t.makeFolders (t.startPlace p.start) p.names

/-- The tree with the folders that are made on a way up to its end, or up to a file on it. -/
def openWay (t : Tree) (place : Place) : List String → Tree
  | [] => t
  | name :: names =>
    let next := step place name
    if (t.file? next).isSome then t
    else if t.isFolder next then t.openWay next names
    else (t.put next .folder).openWay next names

/-- The tree with the folders that are made on the way to a path, also if a file is in the way. -/
def openTo (t : Tree) (p : Path) : Tree := t.openWay (t.startPlace p.start) p.names

/-- The tree with a file at a path and folders around it, unless the path is that of a folder or
leads through a file. -/
def write (t : Tree) (p : Path) (bytes : List UInt8) : Option Tree :=
  (t.makeFolder p.parent).bind fun (folders, place) =>
    p.names.getLast?.bind fun name =>
      if folders.isFolder (step place name) then none
      else some (folders.put (step place name) (.file bytes))

end Tree

end Files
end Ferrotype
