/-
# Settings of a run
-/

namespace Ferrotype

/-- What a run is asked for. -/
structure Settings where
  /-- The output is an ambient file: nothing is exported, and constants are only declared. -/
  ambient : Bool
  /-- Enums of unit variants become enumerations instead of unions of strings. -/
  constEnums : Bool
  /-- Progress is told, and nothing is written. -/
  debug : Bool
  /-- The attribute that marks a declaration for export. -/
  marker : String
deriving Repr, DecidableEq

namespace Settings

/-- The attribute that marks a declaration unless another one is set. -/
def defaultMarker : String := "tsync"

/-- The settings of a run that asks for nothing. -/
def default : Settings := ⟨false, false, false, defaultMarker⟩

instance : Inhabited Settings := ⟨default⟩

end Settings

end Ferrotype
