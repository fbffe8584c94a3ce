/-
# Translating files

The inputs of a run are paths. A path of a folder stands for the Rust files under it, at any depth
and sorted; a path that leads to nothing is reported and left out.

A file that cannot be read as UTF-8, or not be parsed, is reported and left out too, and the files
after it are still translated. Two things are not reported but stop the run: an escape with a code
point too large to be counted, which raises an error that nothing takes up, and an escape whose
reading never ends.
-/

import Ferrotype.Files.Reading
import Ferrotype.Generator
import Ferrotype.Rust.Parse.Item

namespace Ferrotype

/-! ## Sources -/

/-- Why a file has no items. -/
inductive SourceError
  | unreadable (e : Files.ReadError)
  | undecodable (f : Text.Utf8.Fault)
  | unparsable (e : Rust.ParseError)
deriving Repr, DecidableEq

/-- What stops a run at a file. -/
inductive Obstacle
  /-- A code point that is too large raises an error. -/
  | overflow
  /-- The reading of the file never ends. -/
  | endless
deriving Repr, DecidableEq

namespace SourceError

/-- The text of an error about the file at a path, if it is one that is reported. -/
def message (p : Files.Path) : SourceError → String
  | unreadable e => e.message p
  | undecodable f => f.message
  | unparsable e => e.message

/-- What stops a run instead of being reported. -/
def stop? : SourceError → Option Obstacle
  | unparsable (.escape .tooLarge) => some .overflow
  | unparsable (.escape .endless) => some .endless
  | _ => none

end SourceError

/-- The items in bytes. -/
def itemsOf [Text.StandIn] (bytes : List UInt8) : Except SourceError (List Rust.Item) :=
  match Files.textOf bytes with
  | .error f => .error (.undecodable f)
  | .ok text => (Rust.parse (String.ofList text)).mapError .unparsable

/-- The items in the file at a path. -/
def itemsAt [Text.StandIn] (t : Files.Tree) (p : Files.Path) :
    Except SourceError (List Rust.Item) :=
  match t.read p with
  | .error e => .error (.unreadable e)
  | .ok bytes => itemsOf bytes

/-- What a path stands for. -/
inductive Source
  /-- A path that leads to nothing. -/
  | missing (p : Files.Path)
  /-- A file. -/
  | file (p : Files.Path)
deriving Repr, DecidableEq

/-- The sources that a path stands for. -/
def sourcesAt (t : Files.Tree) (p : Files.Path) : List Source :=
  match t.find p with
  | .error _ => [.missing p]
  | .ok (.file _) => [.file p]
  | .ok .folder => (t.rustFiles p).map .file

/-! ## Translating sources -/

/-- How far some sources have led: the generator after them, what was told on the way, and what
stopped it, if something did. -/
structure Progress where
  generator : Generator
  notes : List String
  stopped : Option Obstacle
deriving Repr, DecidableEq

namespace Generator

/-- The generator with a finding about a path that is left out. -/
def leaveOut (g : Generator) (p : Files.Path) (f : Finding) : Generator where
  settings := g.settings
  output := g.output.leaveOut [p.text]
  report := g.report.findIn p.text [f]

/-- The generator in a file. -/
def enter (g : Generator) (p : Files.Path) : Generator := { g with report := g.report.enter p.text }

/-- The note that a file is translated. -/
def fileNotes (g : Generator) (p : Files.Path) : List String :=
  if g.settings.debug then ["processing rust file: " ++ p.text] else []

/-- Translates a file. -/
def addFile [Text.StandIn] (t : Files.Tree) (g : Generator) (p : Files.Path) : Progress :=
  let entered := g.enter p
  match itemsAt t p with
  | .ok items => ⟨entered.generate items, g.fileNotes p ++ g.notes items, none⟩
  | .error e =>
    match e.stop? with
    | some stop => ⟨entered, g.fileNotes p, some stop⟩
    | none => ⟨entered.leaveOut p (.parseFailure (e.message p)), g.fileNotes p, none⟩

/-- Translates a source. -/
def addSource [Text.StandIn] (t : Files.Tree) (g : Generator) : Source → Progress
  | .missing p => ⟨g.leaveOut p .missingPath, [], none⟩
  | .file p => g.addFile t p

/-- Translates sources in their order, up to one that stops it. -/
def addSources [Text.StandIn] (t : Files.Tree) (g : Generator) : List Source → Progress
  | [] => ⟨g, [], none⟩
  | source :: sources =>
    let first := g.addSource t source
    match first.stopped with
    | some _ => first
    | none =>
      let more := first.generator.addSources t sources
      ⟨more.generator, first.notes ++ more.notes, more.stopped⟩

/-- Translates what stands at paths. -/
def addPaths [Text.StandIn] (t : Files.Tree) (g : Generator) (paths : List Files.Path) :
    Progress :=
  g.addSources t (paths.flatMap (sourcesAt t))

/-- The generator with which a run starts. -/
def start (settings : Settings) (verbose : Bool) : Generator :=
  (Generator.new settings (Report.new (verbose || settings.debug))).header

end Generator

end Ferrotype
