/-
# The program

The program reads the files that its command line names, runs on them, writes the files that the
run has changed and shows its texts.
-/

import Ferrotype.Run

namespace Ferrotype
namespace Disk

/-- The path of a place. -/
def pathText (place : Files.Place) : String := "/" ++ Text.join "/" place

/-- The tree with what stands at a place. -/
def loadEntry (t : Files.Tree) (place : Files.Place) : IO Files.Tree := do
  let path := (← IO.currentDir) / pathText place
  if ← path.isDir then
    return t.put place .folder
  else if ← path.pathExists then
    return t.put place (.file (← IO.FS.readBinFile path).toList)
  else
    return t

/-- The tree with what stands on a path. -/
def loadPath (t : Files.Tree) (p : Files.Path) : IO Files.Tree := do
  let mut tree := t
  let mut place := t.startPlace p.start
  for name in p.names do
    place := Files.Tree.step place name
    tree ← loadEntry tree place
  return tree

/-- The tree with the Rust files under a place. -/
partial def loadBelow (t : Files.Tree) (place : Files.Place) : IO Files.Tree := do
  let path := (← IO.currentDir) / pathText place
  if !(← path.isDir) then return t
  let mut tree := t
  for entry in ← path.readDir do
    let inner := place ++ [entry.fileName]
    if (← entry.path.symlinkMetadata).type matches .dir then
      tree ← loadBelow tree inner
    else if Files.isRustName entry.fileName && !(← entry.path.isDir) then
      tree ← loadEntry tree inner
  return tree

/-- The files that arguments name. -/
def loadArguments (t : Files.Tree) (a : CommandLine.Arguments) : IO Files.Tree := do
  let inputs := (a.inputs.filterMap id).map Files.Path.ofText
  let output := a.output.join.toList.map Files.Path.ofText
  let mut tree := t
  for p in (Run.configPath? a).toList ++ output ++ inputs do
    tree ← loadPath tree p
  for p in inputs do
    match tree.place? p with
    | .ok place => tree ← loadBelow tree place
    | .error _ => pure ()
  return tree

/-- The files that a command line names. -/
def load (words : List String) : IO Files.Tree := do
  let here := (Files.Path.ofText (← IO.currentDir).toString).names
  match CommandLine.Arguments.ofWords words with
  | .ok a => loadArguments ⟨here, []⟩ a
  | .error _ => return ⟨here, []⟩

/-- Writes the files in which a tree differs from the one before. -/
def save (before after : Files.Tree) : IO Unit := do
  for (place, entry) in after.entries.reverse do
    match entry with
    | .folder => IO.FS.createDirAll (pathText place)
    | .file bytes =>
      if before.file? place ≠ some bytes then
        IO.FS.createDirAll (pathText place.dropLast)
        IO.FS.writeBinFile (pathText place) ⟨bytes.toArray⟩

end Disk
end Ferrotype

/-- Does not come back. -/
partial def neverEnd : IO UInt32 := do
  IO.sleep 1000
  neverEnd

open Ferrotype in
/-- Runs the program on the files of the system. -/
def main (words : List String) : IO UInt32 := do
  let files ← Disk.load words
  let outcome := run files words
  Disk.save files outcome.files
  IO.print outcome.stdout
  IO.eprint outcome.stderr
  match outcome.status with
  | .failed f => IO.eprintln ("rs2ts: error: " ++ f.message)
  | _ => pure ()
  match outcome.status.code? with
  | some code => return code.toUInt32
  | none => neverEnd
