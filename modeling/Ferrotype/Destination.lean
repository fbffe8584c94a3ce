/-
# Writing the output

A file is written only where nothing stands, or over a file that was generated before: one whose
first line is the marker. Anything else at the path is a conflict, and nothing is written.

The folders around the file are made first, and then the file is opened, which empties it. Both are
left so if the writing fails after that: because a file is in the way of the folders, or because the
text has no bytes.
-/

import Ferrotype.Files.Reading
import Ferrotype.Translate.Item

namespace Ferrotype

/-- Why a path may not be written to. -/
inductive Conflict
  | isFolder
  | undecodable (f : Text.Utf8.Fault)
  | notGenerated
deriving Repr, DecidableEq

namespace Conflict

/-- The words for a conflict. -/
def words : Conflict → String
  | isFolder => "it is a directory"
  | undecodable f => "it could not be read (" ++ f.message ++ ")"
  | notGenerated => "it was not generated by rs2ts"

/-- The text of a conflict at a path. -/
def message (p : Files.Path) (c : Conflict) : String :=
  "Refusing to write " ++ p.text ++ ": " ++ c.words

/-- The conflict that bytes make. -/
def ofBytes? (bytes : List UInt8) : Option Conflict :=
  match Text.Utf8.firstLine bytes with
  | .error f => some (.undecodable f)
  | .ok line => if line = Translate.marker.toList then none else some .notGenerated

/-- The conflict at a path. -/
def find? (t : Files.Tree) (p : Files.Path) : Option Conflict :=
  match t.find p with
  | .error _ => none
  | .ok .folder => some .isFolder
  | .ok (.file bytes) => ofBytes? bytes

end Conflict

/-- Why an output was not written, and the files that are left then if they may be others. -/
inductive WriteError
  | conflict (c : Conflict)
  /-- The path leads through a file, or to a folder once folders were made on the way. -/
  | blocked (left : Files.Tree)
  /-- The text has no bytes. -/
  | unencodable (u : Text.Utf8.Unencodable) (left : Files.Tree)
deriving Repr, DecidableEq

/-- The tree with a text written to a path. A text without bytes leaves the file empty. -/
def writeOutput (t : Files.Tree) (p : Files.Path) (text : List Text.CodePoint) :
    Except WriteError Files.Tree :=
  match Conflict.find? t p with
  | some c => .error (.conflict c)
  | none =>
    let bytes := Text.Utf8.encodePoints text
    match t.write p (bytes.toOption.getD []) with
    | none => .error (.blocked (t.openTo p.parent))
    | some written =>
      match bytes with
      | .error u => .error (.unencodable u written)
      | .ok _ => .ok written

/-- The note that an output was written. -/
def writtenNote (p : Files.Path) : String := "Written: " ++ p.text

end Ferrotype
