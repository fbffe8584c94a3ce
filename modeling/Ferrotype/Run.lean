/-
# A run of the program

A run takes the files that there are and the words of the command line, and gives two texts, a
status and the files that there are afterwards. At most the output file is another one then, and
not in debug mode: it has the text if the run is done, and is empty if the text has no bytes.

The configuration comes first, then the inputs in their order, then the output. Diagnostics are
shown only after the output was written, and what could not be translated last.
-/

import Ferrotype.CommandLine.Arguments
import Ferrotype.Config
import Ferrotype.Destination
import Ferrotype.Sources

namespace Ferrotype

/-! ## Outcomes -/

/-- An error that ends a run before its output is written. -/
inductive Failure
  | config (f : Config.Failure)
  /-- A file holds a code point that is too large. -/
  | overflow
  /-- The flag of an input or of the output was given without a path. -/
  | noPath
  /-- The output path leads through a file. -/
  | blocked (p : Files.Path)
  /-- The text has no bytes. -/
  | unencodable (u : Text.Utf8.Unencodable)
deriving Repr, DecidableEq

/-- The text of a failure. -/
def Failure.message : Failure → String
  | config f => f.message
  | overflow => Rust.EscapeError.tooLarge.message
  | noPath => "expected str, bytes or os.PathLike object, not list"
  | blocked p => (Files.ReadError.absent .underFile).message p
  | unencodable u => u.message

/-- How a run ends. -/
inductive Status
  | done
  /-- The output would have overwritten something. -/
  | refused
  /-- The command line was not understood. -/
  | misused
  | failed (f : Failure)
  /-- It does not: the reading of a file goes on for ever. -/
  | endless
deriving Repr, DecidableEq

namespace Status

/-- The number by which a caller sees how a run ended, if it did. -/
def code? : Status → Option Nat
  | done => some 0
  | refused => some 1
  | misused => some 2
  | failed _ => some 1
  | endless => none

/-- How a run ends that something stops. -/
def ofObstacle : Obstacle → Status
  | .overflow => failed .overflow
  | .endless => endless

end Status

/-- What a run leaves behind, or has told so far if it does not end. -/
structure Outcome where
  status : Status
  stdout : String
  stderr : String
  files : Files.Tree
deriving Repr, DecidableEq

namespace Run

/-! ## Texts -/

/-- The line that shows how the program is called. -/
def usage : String :=
  "usage: rs2ts [-h] -i PATH -o OUTPUT [-d] [--enable-const-enums] [-c FILE]"

/-- The text that describes the program. -/
def help : List String := [
    usage,
    "",
    "Rust to TypeScript declaration generator",
    "",
    "options:",
    "  -h, --help            show this help message and exit",
    "  -i PATH, --input PATH",
    "                        Input Rust file or directory (repeatable)",
    "  -o OUTPUT, --output OUTPUT",
    "                        Output file (.ts, or .d.ts for ambient declarations)",
    "  -d, --debug           Print progress and the generated text instead of",
    "                        writing it",
    "  --enable-const-enums  Render unit-only enums as const enums",
    "  -c FILE, --config FILE",
    "                        JSON file with enable_const_enums, export_marker and",
    "                        debug"]

/-- A rule between the parts of what is shown. -/
def rule : String := "======================================"

/-- What is shown before the generated text in debug mode. -/
def displayHead : List String := [rule, "FINAL FILE:", rule]

/-- The generated text, shown in debug mode instead of being written. -/
def display (text : String) : List String :=
  displayHead ++ [text, rule, "Note: Nothing is written in debug mode", rule]

/-- The list of what could not be translated. -/
def leftOut (items : List String) : List String :=
  if items = [] then [] else "Could not parse the following files:" :: items.map ("  " ++ ·)

/-! ## Stages -/

/-- The path of the configuration that arguments name. An empty path counts as none. -/
def configPath? (a : CommandLine.Arguments) : Option Files.Path :=
  (a.config.filter (!·.isEmpty)).map Files.Path.ofText

/-- The warnings about the configuration at a path. -/
def warnings (p : Option Files.Path) (loaded : Config.Loaded) : List String :=
  match p, loaded.warning with
  | some p, some w => [w.message p]
  | _, _ => []

/-- What is translated, where it goes, and how. -/
structure Plan where
  inputs : List Files.Path
  output : Files.Path
  settings : Settings
deriving Repr, DecidableEq

/-- The plan that arguments and a configuration make, if every input and the output has a path. -/
def Plan.of? (a : CommandLine.Arguments) (c : Config) : Option Plan := do
  let inputs ← a.inputs.mapM id
  let output := Files.Path.ofText (← a.output.join)
  some ⟨inputs.map Files.Path.ofText, output, Settings.of output a.debug a.constEnums c⟩

/-- The end of a run that did what it was asked for. -/
def finish (t : Files.Tree) (told : List String) (g : Generator) : Outcome :=
  ⟨.done, Text.lines (told ++ leftOut g.output.unprocessed), g.report.render, t⟩

/-- The end of a run that shows its text. What is shown is encoded like what is written. -/
def showText (t : Files.Tree) (told : List String) (g : Generator) (text : List Text.CodePoint) :
    Outcome :=
  match Text.Utf8.encodePoints text with
  | .ok _ => finish t (told ++ display (Text.characters text)) g
  | .error u => ⟨.failed (.unencodable u), Text.lines (told ++ displayHead), "", t⟩

/-- The end of a run that writes its text to a path. -/
def writeText (t : Files.Tree) (p : Files.Path) (told : List String) (g : Generator)
    (text : List Text.CodePoint) : Outcome :=
  match writeOutput t p text with
  | .ok written => finish written (told ++ [writtenNote p]) g
  | .error (.conflict c) => ⟨.refused, Text.lines told, "Error: " ++ c.message p ++ "\n", t⟩
  | .error (.blocked left) => ⟨.failed (.blocked p), Text.lines told, "", left⟩
  | .error (.unencodable u left) => ⟨.failed (.unencodable u), Text.lines told, "", left⟩

/-- The end of a run whose inputs have been translated: the text is shown or written. -/
def deliver (t : Files.Tree) (p : Files.Path) (told : List String) (g : Generator)
    (text : List Text.CodePoint) : Outcome :=
  if g.settings.debug then showText t told g text else writeText t p told g text

/-- Translates the inputs of a plan. -/
def translateInputs [Text.StandIn] (t : Files.Tree) (plan : Plan) : Progress :=
  (Generator.start plan.settings false).addPaths t plan.inputs

/-- The text that the inputs of a plan yield, laid together from its two readings. -/
def generated (t : Files.Tree) (plan : Plan) : List Text.CodePoint :=
  Text.codePoints (@translateInputs .first t plan).generator.output.text
    (@translateInputs .second t plan).generator.output.text

/-- The outcome of a plan, after what was told already. -/
def execute (t : Files.Tree) (told : List String) (plan : Plan) : Outcome :=
  let progress := translateInputs t plan
  let told := told ++ progress.notes
  match progress.stopped with
  | some stop => ⟨.ofObstacle stop, Text.lines told, "", t⟩
  | none => deliver t plan.output told progress.generator (generated t plan)

/-- The outcome of a run with arguments. -/
def withArguments (t : Files.Tree) (a : CommandLine.Arguments) : Outcome :=
  match Config.load? t (configPath? a) with
  | .error f => ⟨.failed (.config f), "", "", t⟩
  | .ok loaded =>
    let told := warnings (configPath? a) loaded
    match Plan.of? a loaded.config with
    | none => ⟨.failed .noPath, Text.lines told, "", t⟩
    | some plan => execute t told plan

end Run

/-- The outcome of a run on files with a command line. -/
def run (t : Files.Tree) (words : List String) : Outcome :=
  match CommandLine.Arguments.ofWords words with
  | .error e => ⟨.misused, "", Text.lines [Run.usage, "rs2ts: error: " ++ e.message], t⟩
  | .ok a =>
    if a.help then ⟨.done, Text.lines Run.help, "", t⟩
    else Run.withArguments t a

end Ferrotype
