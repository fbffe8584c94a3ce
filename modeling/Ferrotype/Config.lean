/-
# Configuration

A configuration is a JSON object in a file. What it says beyond the three known settings has no
effect. A file that is missing, or that holds no object, is ignored with a warning; a file that is
no text, or an integer in it with too many digits, stops the run.
-/

import Ferrotype.Files.Reading
import Ferrotype.Json.Read
import Ferrotype.Settings

namespace Ferrotype

/-- The members of the object in a configuration file. -/
abbrev Config := List (String × Json.Value)

namespace Config

/-- Why a configuration stops the run. -/
inductive Failure
  | undecodable (f : Text.Utf8.Fault)
  | longInteger (digits : Nat)
deriving Repr, DecidableEq

/-- The text of a failure. -/
def Failure.message : Failure → String
  | undecodable f => f.message
  | longInteger digits => (Json.Fault.longInteger digits).message []

/-- Why a configuration is ignored. -/
inductive Warning
  | unreadable (e : Files.ReadError)
  | malformed (text : List Char) (problem : Json.Problem) (left : Nat)
  | noObject
deriving Repr, DecidableEq

/-- The text of a warning about the file at a path. -/
def Warning.message (p : Files.Path) : Warning → String
  | unreadable e => "Warning: Failed to load " ++ p.text ++ ": " ++ e.message p
  | malformed text problem left =>
    "Warning: Failed to load " ++ p.text ++ ": " ++ (Json.Fault.malformed problem left).message text
  | noObject => "Warning: Ignoring " ++ p.text ++ ": expected a JSON object"

/-- A configuration and the warning that was given for it, if there is one. -/
structure Loaded where
  config : Config
  warning : Option Warning

/-- The empty configuration that stands for one that is ignored. -/
def ignored (w : Warning) : Loaded := ⟨[], some w⟩

/-- The configuration in a text. -/
def ofText (text : List Char) : Except Failure Loaded :=
  match Json.read text with
  | .error (.malformed problem left) => .ok (ignored (.malformed text problem left))
  | .error (.longInteger digits) => .error (.longInteger digits)
  | .ok (.object members) => .ok ⟨members, none⟩
  | .ok _ => .ok (ignored .noObject)

/-- The configuration in the file at a path. -/
def load (t : Files.Tree) (p : Files.Path) : Except Failure Loaded :=
  match t.read p with
  | .error e => .ok (ignored (.unreadable e))
  | .ok bytes =>
    match Files.textOf bytes with
    | .error f => .error (.undecodable f)
    | .ok text => ofText text

/-- The configuration of a run; without a path it is empty. -/
def load? (t : Files.Tree) : Option Files.Path → Except Failure Loaded
  | none => .ok ⟨[], none⟩
  | some p => load t p

/-- Whether a configuration turns a setting on. -/
def turnsOn (c : Config) (name : String) : Bool :=
  ((Json.lastMember? name c).map Json.Value.isOn).getD false

/-- The export marker that a configuration sets; an empty one counts as none. -/
def marker? (c : Config) : Option String :=
  ((Json.lastMember? "export_marker" c).bind Json.Value.text?).filter (!·.isEmpty)

end Config

/-- Whether a path is that of an ambient file. -/
def isAmbient (output : Files.Path) : Bool := ".d.ts".toList.isSuffixOf output.text.toList

/-- The settings of a run that writes to a path. A flag of the command line turns a setting on
whatever the configuration says. -/
def Settings.of (output : Files.Path) (debug constEnums : Bool) (c : Config) : Settings where
  ambient := isAmbient output
  constEnums := constEnums || c.turnsOn "enable_const_enums"
  debug := debug || c.turnsOn "debug"
  marker := c.marker?.getD Settings.defaultMarker

end Ferrotype
