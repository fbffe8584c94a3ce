/-
# Arguments

The arguments of a run name its inputs, its output, what is to be done with enums, and the file with
the configuration. `Arguments.ofWords` collects them from the command line in its order; an error
ends the collection. Only then is it asked whether something is missing, and last whether something
was not understood.
-/

import Ferrotype.CommandLine.Flag
import Ferrotype.Text.Quoted

namespace Ferrotype
namespace CommandLine

/-- Why a command line is not understood. -/
inductive UsageError
  | ambiguous (a : Ambiguity)
  /-- A flag lacks its value. -/
  | noValue (f : Flag)
  /-- A flag without value was given one. -/
  | needlessValue (f : Flag) (value : List Char)
  /-- Flags that have to be given were not. -/
  | required (flags : List Flag)
  /-- Arguments that nothing takes. -/
  | unrecognized (arguments : List String)
deriving Repr, DecidableEq

/-- The text of an error. -/
def UsageError.message : UsageError → String
  | ambiguous a =>
    "ambiguous option: " ++ a.argument ++ " could match " ++ Text.join ", " a.candidates
  | noValue f => "argument " ++ f.title ++ ": expected one argument"
  | needlessValue f value =>
    "argument " ++ f.title ++ ": ignored explicit argument " ++
      String.ofList (Text.Quoted.quoted value)
  | required flags =>
    "the following arguments are required: " ++ Text.join ", " (flags.map Flag.title)
  | unrecognized arguments => "unrecognized arguments: " ++ Text.join " " arguments

/-! ## Marked words -/

/-- An argument and what it is. -/
structure Word where
  text : String
  mark : Mark
deriving Repr, DecidableEq

/-- The arguments of a command line, marked. Behind two dashes all are plain. -/
def markWords : List String → Except UsageError (List Word)
  | [] => .ok []
  | text :: rest =>
    if text = "--" then .ok (⟨text, .separator⟩ :: rest.map (⟨·, .plain⟩))
    else
      match Mark.of text.toList with
      | .error a => .error (.ambiguous a)
      | .ok mark => (markWords rest).map (⟨text, mark⟩ :: ·)

/-! ## Values -/

/-- The value given to a flag. Two dashes attached to a flag stand for no value at all: the flag
counts as given, without one. -/
abbrev Value := Option String

/-- The value that is attached to a flag. -/
def attachedValue (text : List Char) : Value :=
  if text = ['-', '-'] then none else some (String.ofList text)

/-! ## Joined letters -/

/-- What an argument with flags gives: the flags that are complete with their values, and the last
one if it is still open to a value. -/
structure Group where
  complete : List (Flag × Value)
  opened : Option Flag
deriving Repr, DecidableEq

/-- The group with one more flag without value in front. -/
def Group.cons (f : Flag) (g : Group) : Group := { g with complete := (f, none) :: g.complete }

/-- The group of a flag letter and the text attached to it. To a flag without value another letter
has to be attached. -/
def joined (f : Flag) (text : List Char) : Except UsageError Group :=
  if f.takesValue then .ok ⟨[(f, attachedValue text)], none⟩
  else
    match text with
    | [] => .error (.needlessValue f [])
    | c :: rest =>
      match Flag.ofLetter? c with
      | none => .error (.needlessValue f (c :: rest))
      | some next =>
        if rest = [] then .ok ⟨[(f, none)], some next⟩
        else (joined next rest).map (·.cons f)

/-- The group of a flag. -/
def groupOf (f : Flag) (byLetter : Bool) : Option (List Char) → Except UsageError Group
  | none => .ok ⟨[], some f⟩
  | some text =>
    if byLetter then joined f text
    else if f.takesValue then .ok ⟨[(f, attachedValue text)], none⟩
    else .error (.needlessValue f text)

/-! ## Collecting -/

/-- What was read from a command line. -/
structure Arguments where
  help : Bool
  inputs : List Value
  /-- None if there was no flag for the output. -/
  output : Option Value
  debug : Bool
  constEnums : Bool
  config : Value
  /-- The arguments that nothing takes. -/
  unrecognized : List String
deriving Repr, DecidableEq

namespace Arguments

/-- The arguments of an empty command line. -/
def empty : Arguments := ⟨false, [], none, false, false, none, []⟩

/-- The arguments with a flag and its value; inputs add up, and of other values the last counts. -/
def set (a : Arguments) : Flag × Value → Arguments
  | (.help, _) => { a with help := true }
  | (.input, value) => { a with inputs := a.inputs ++ [value] }
  | (.output, value) => { a with output := some value }
  | (.debug, _) => { a with debug := true }
  | (.constEnums, _) => { a with constEnums := true }
  | (.config, value) => { a with config := value }

/-- The arguments with a group of flags. -/
def setAll (a : Arguments) (flags : List (Flag × Value)) : Arguments := flags.foldl set a

/-- The arguments with one more that nothing takes. -/
def leave (a : Arguments) (text : String) : Arguments :=
  { a with unrecognized := a.unrecognized ++ [text] }

/-- The arguments with those of marked words. A request for help ends the collection. -/
def collect (a : Arguments) : List Word → Except UsageError Arguments
  | [] => .ok a
  | word :: rest =>
    match word.mark with
    | .plain | .separator | .unknown => (a.leave word.text).collect rest
    | .flag f byLetter attached =>
      match groupOf f byLetter attached with
      | .error e => .error e
      | .ok group =>
        let known := a.setAll group.complete
        match group.opened with
        | none => if known.help then .ok known else known.collect rest
        | some last =>
          if last.takesValue then
            match rest with
            | [] => .error (.noValue last)
            | value :: more =>
              if value.mark = .plain then
                let filled := known.set (last, some value.text)
                if filled.help then .ok filled else filled.collect more
              else .error (.noValue last)
          else
            let filled := known.set (last, none)
            if filled.help then .ok filled else filled.collect rest

/-- The flags that have to be given and were not. -/
def lacking (a : Arguments) : List Flag :=
  (if a.inputs.isEmpty then [.input] else []) ++ (if a.output.isNone then [.output] else [])

/-- The arguments if they are complete and understood. -/
def checked (a : Arguments) : Except UsageError Arguments :=
  if a.help then .ok a
  else if a.lacking ≠ [] then .error (.required a.lacking)
  else if a.unrecognized ≠ [] then .error (.unrecognized a.unrecognized)
  else .ok a

/-- The arguments of a command line. -/
def ofWords (words : List String) : Except UsageError Arguments :=
  match markWords words with
  | .error e => .error e
  | .ok marked =>
    match empty.collect marked with
    | .error e => .error e
    | .ok a => a.checked

end Arguments

end CommandLine
end Ferrotype
