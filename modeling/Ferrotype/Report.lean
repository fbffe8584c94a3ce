/-
# Reports

The diagnostics of a run, in the order in which they were made, with the file that is current. The
report counts the warnings by what they are about, in alphabetical order, and shows the single
diagnostics only if it is to be verbose.
-/

import Ferrotype.Diagnostic
import Ferrotype.Text.Pieces

namespace Ferrotype

/-- The diagnostics of a run. -/
structure Report where
  verbose : Bool
  /-- The file in which findings are made. -/
  file : String
  diagnostics : List Diagnostic
deriving Repr, DecidableEq

namespace Report

/-- A report without diagnostics. -/
def new (verbose : Bool) : Report := ⟨verbose, "", []⟩

instance : Inhabited Report := ⟨new false⟩

/-- The report with another current file. -/
def enter (r : Report) (file : String) : Report := { r with file := file }

/-- The report with one more diagnostic. -/
def add (r : Report) (d : Diagnostic) : Report := { r with diagnostics := r.diagnostics ++ [d] }

/-- The report with the findings made in a file. -/
def findIn (r : Report) (file : String) (findings : List Finding) : Report :=
  { r with diagnostics := r.diagnostics ++ findings.map (·.diagnostic file) }

/-- The report with the findings made in the current file. -/
def find (r : Report) (findings : List Finding) : Report := r.findIn r.file findings

/-- The report without diagnostics. -/
def clear (r : Report) : Report := { r with diagnostics := [] }

/-- The warnings. -/
def warnings (r : Report) : List Diagnostic := r.diagnostics.filter (·.severity == .warning)

/-- The diagnostics that are no warnings. -/
def infos (r : Report) : List Diagnostic := r.diagnostics.filter (·.severity == .info)

/-- The group of a diagnostic. -/
def groupOf (d : Diagnostic) : String := if d.construct.isEmpty then "other" else d.construct

/-- The groups of diagnostics, sorted and each once. -/
def groups (ds : List Diagnostic) : List String :=
  ((ds.map groupOf).eraseDups).mergeSort (fun a b => decide (a ≤ b))

/-- The diagnostics of a group. -/
def inGroup (ds : List Diagnostic) (group : String) : List Diagnostic :=
  ds.filter (groupOf · == group)

/-- The number of warnings by group, in one line. -/
def summary (r : Report) : String :=
  if r.warnings.isEmpty then "No translator warnings."
  else
    "Translator warnings: " ++ Text.join ", " ((groups r.warnings).map fun group =>
      toString (inGroup r.warnings group).length ++ " " ++ group)

/-- The lines of a report about a group of warnings. -/
def groupText (r : Report) (group : String) : String :=
  let ds := inGroup r.warnings group
  "  " ++ group ++ ": " ++ toString ds.length ++ " occurrence(s)\n" ++
    if r.verbose then Text.concat (ds.map fun d => "    " ++ d.render ++ "\n") else ""

/-- The part of a report about warnings. -/
def warningText (r : Report) : String :=
  if r.warnings.isEmpty then ""
  else
    "\nTranslator warnings (" ++ toString r.warnings.length ++ "):\n" ++
      Text.concat ((groups r.warnings).map r.groupText)

/-- The part of a report about the other diagnostics. -/
def infoText (r : Report) : String :=
  if r.infos.isEmpty || !r.verbose then ""
  else
    "\nTranslator info (" ++ toString r.infos.length ++ "):\n" ++
      Text.concat (r.infos.map fun d => "  " ++ d.render ++ "\n")

/-- The text of a report; without diagnostics it is empty. -/
def render (r : Report) : String := r.warningText ++ r.infoText

end Report

end Ferrotype
