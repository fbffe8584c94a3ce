/-
# Emissions

What translating items gives: text, the names of the items that were left out, findings, and notes
on the progress. Emissions are put together in order, and nothing of one depends on another.
-/

import Ferrotype.Diagnostic

namespace Ferrotype

/-- What translating items gives. -/
@[ext]
structure Emission where
  text : String
  unprocessed : List String
  findings : List Finding
  notes : List String
deriving Repr, DecidableEq

namespace Emission

/-- The emission of nothing. -/
def empty : Emission := ⟨"", [], [], []⟩

/-- Two emissions, one after the other. -/
def append (a b : Emission) : Emission :=
  ⟨a.text ++ b.text, a.unprocessed ++ b.unprocessed, a.findings ++ b.findings, a.notes ++ b.notes⟩

instance : Inhabited Emission := ⟨empty⟩

instance : Append Emission := ⟨append⟩

@[simp] theorem text_append (a b : Emission) : (a ++ b).text = a.text ++ b.text := rfl

@[simp] theorem unprocessed_append (a b : Emission) :
    (a ++ b).unprocessed = a.unprocessed ++ b.unprocessed := rfl

@[simp] theorem findings_append (a b : Emission) :
    (a ++ b).findings = a.findings ++ b.findings := rfl

@[simp] theorem notes_append (a b : Emission) : (a ++ b).notes = a.notes ++ b.notes := rfl

@[simp] theorem empty_append (a : Emission) : empty ++ a = a := by
  ext1 <;> simp [empty]

@[simp] theorem append_empty (a : Emission) : a ++ empty = a := by
  ext1 <;> simp [empty]

/-- Emissions one after the other. -/
def concat : List Emission → Emission
  | [] => empty
  | e :: es => e ++ concat es

@[simp] theorem concat_nil : concat [] = empty := rfl

@[simp] theorem concat_cons (e : Emission) (es : List Emission) :
    concat (e :: es) = e ++ concat es := rfl

end Emission

end Ferrotype
