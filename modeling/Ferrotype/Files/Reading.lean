/-
# Reading files

A file is read as UTF-8 with a line feed for every break between lines. `Absence.words` and
`ReadError.message` say why there is no text.
-/

import Ferrotype.Files.Tree
import Ferrotype.Text.Line
import Ferrotype.Text.Quoted

namespace Ferrotype
namespace Files

/-- Why a path has no bytes to be read. -/
inductive ReadError
  | absent (a : Absence)
  | isFolder
deriving Repr, DecidableEq

/-- The words for the error, with its number. -/
def ReadError.words : ReadError → String
  | absent .missing => "[Errno 2] No such file or directory"
  | absent .underFile => "[Errno 20] Not a directory"
  | isFolder => "[Errno 21] Is a directory"

/-- The text of the error about a path. -/
def ReadError.message (p : Path) (e : ReadError) : String :=
  e.words ++ ": " ++ String.ofList (Text.Quoted.quoted p.text.toList)

namespace Tree

/-- The bytes of the file at a path. -/
def read (t : Tree) (p : Path) : Except ReadError (List UInt8) :=
  match t.find p with
  | .error a => .error (.absent a)
  | .ok .folder => .error .isFolder
  | .ok (.file bytes) => .ok bytes

end Tree

/-- The text of the bytes of a file. -/
def textOf (bytes : List UInt8) : Except Text.Utf8.Fault (List Char) :=
  (Text.Utf8.decode bytes).map Text.unifyBreaks

end Files
end Ferrotype
