/-
# Diagnostics

A finding is something that the reader of the output should know: a file that could not be parsed,
a type without counterpart, a constant that was left out, a path that does not exist, a variant
that is not serialized. As a diagnostic it carries a code, a message and the file in which it was
made.
-/

namespace Ferrotype

/-- How serious a diagnostic is. -/
inductive Severity
  | warning | info
deriving Repr, DecidableEq, Inhabited

/-- The word for a severity. -/
def Severity.word : Severity → String
  | warning => "warning"
  | info => "info"

/-- A message about the input. -/
structure Diagnostic where
  severity : Severity
  code : String
  message : String
  file : String
  line : Option Int
  /-- What the message is about: a type, a constant, a file. -/
  construct : String
deriving Repr, DecidableEq, Inhabited

namespace Diagnostic

/-- The file and the line; line zero is not shown. -/
def location (d : Diagnostic) : String :=
  match d.line with
  | some line => if line = 0 then d.file else d.file ++ ":" ++ toString line
  | none => d.file

/-- The line of a report that shows a diagnostic. -/
def render (d : Diagnostic) : String :=
  "[" ++ d.severity.word ++ "] " ++
    (if d.location.isEmpty then "" else d.location ++ ": ") ++ d.message ++ " (" ++ d.code ++ ")"

end Diagnostic

/-- What was found in the input. -/
inductive Finding
  /-- The file could not be read or parsed. -/
  | parseFailure (error : String)
  /-- A type without counterpart in a declaration; the name may be empty. -/
  | unmappedType (type declaration : String)
  /-- A constant whose value has no literal form. -/
  | untranslatedConst (name value : String)
  /-- A path that does not exist. -/
  | missingPath
  /-- A variant that is not serialized. -/
  | skippedVariant (enum variant : String)
deriving Repr, DecidableEq

namespace Finding

/-- How serious a finding is. -/
def severity : Finding → Severity
  | skippedVariant .. => .info
  | _ => .warning

/-- The code of a finding. -/
def code : Finding → String
  | parseFailure .. => "W001"
  | unmappedType .. => "W002"
  | untranslatedConst .. => "W003"
  | missingPath => "W004"
  | skippedVariant .. => "I001"

/-- What a finding is about. -/
def construct : Finding → String
  | parseFailure .. => "parse"
  | unmappedType .. => "type"
  | untranslatedConst .. => "const"
  | missingPath => "input"
  | skippedVariant .. => "variant"

/-- The message of a finding. -/
def message : Finding → String
  | parseFailure error =>
    "Could not parse file: " ++ error ++ ". No declarations were taken from it."
  | unmappedType type declaration =>
    "No TypeScript mapping for type \"" ++ type ++ "\"" ++
      (if declaration.isEmpty then "" else " in " ++ declaration) ++ "; emitted as written."
  | untranslatedConst name value =>
    "Const \"" ++ name ++ "\" has a non-literal value (" ++ value ++ "); it was not emitted."
  | missingPath => "Input path does not exist."
  | skippedVariant enum variant =>
    "Variant " ++ enum ++ "::" ++ variant ++ " is skipped by serde and was omitted."

/-- A finding made in a file. -/
def diagnostic (file : String) (f : Finding) : Diagnostic where
  severity := f.severity
  code := f.code
  message := f.message
  file := file
  line := none
  construct := f.construct

end Finding

end Ferrotype
