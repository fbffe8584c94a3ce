/-
# Generators

A generator translates one list of items after the other into one output and one report.
-/

import Ferrotype.Output
import Ferrotype.Report
import Ferrotype.Translate.Item

namespace Ferrotype

/-- Settings, and what has come of the items translated so far. -/
structure Generator where
  settings : Settings
  output : Output
  report : Report
deriving Repr, DecidableEq

namespace Generator

/-- A generator that has translated nothing. -/
def new (settings : Settings) (report : Report) : Generator := ⟨settings, Output.empty, report⟩

/-- The generator with an emission taken in. -/
def take (g : Generator) (e : Emission) : Generator where
  settings := g.settings
  output := (g.output.push e.text).leaveOut e.unprocessed
  report := g.report.find e.findings

/-- The generator with the start of a generated file. -/
def header (g : Generator) : Generator := g.take Translate.header

/-- The generator with items translated. -/
def generate (g : Generator) (items : List Rust.Item) : Generator :=
  g.take (Translate.ofItems g.settings items)

/-- The notes on the progress through items; they are told in debug mode only. -/
def notes (g : Generator) (items : List Rust.Item) : List String :=
  if g.settings.debug then (Translate.ofItems g.settings items).notes else []

/-- The notes on choosing the exported items. -/
def exportNotes (g : Generator) (items : List Rust.Item) : List String :=
  if g.settings.debug then items.map (Translate.encounter g.settings) else []

end Generator

end Ferrotype
