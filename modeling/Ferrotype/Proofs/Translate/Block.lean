/-
# The blocks of a generated file

A generated file is the marker line and then one block for each exported item, in the order of the
items. A block is a blank line and then lines of which neither the first nor the last is blank, so
that blocks can stand one behind the other and no text of one runs into the next.

`isBlock_render` says that every declaration makes a block, whatever its members and whatever is
documented. `translate_blocks` puts a whole run together: the run on two lists is the run on the
first and then that on the second, and an item that is not marked leaves nothing, an item that is
left out leaves its name and one warning, and every other one leaves a block.
-/

import Ferrotype.Translate.Item

namespace Ferrotype
namespace Text

/-! ## Texts of whole lines -/

/-- A text that starts with a line that is not blank. -/
def StartsLine (text : String) : Prop := ∃ c cs, text.toList = c :: cs ∧ c ≠ '\n'

/-- A text that ends with exactly one line feed, so that its last line is not blank. -/
def EndsLine (text : String) : Prop := ∃ cs c, text.toList = cs ++ [c, '\n'] ∧ c ≠ '\n'

/-- A blank line and then lines of which neither the first nor the last is blank. -/
def IsBlock (text : String) : Prop :=
  ∃ lines, text = "\n" ++ lines ∧ StartsLine lines ∧ EndsLine lines

/-- What starts a line does so whatever follows. -/
theorem StartsLine.append {a : String} (h : StartsLine a) (b : String) : StartsLine (a ++ b) := by
  obtain ⟨c, cs, ha, hc⟩ := h
  exact ⟨c, cs ++ b.toList, by simp [ha], hc⟩

/-- What ends a line does so whatever stands in front. -/
theorem EndsLine.append (a : String) {b : String} (h : EndsLine b) : EndsLine (a ++ b) := by
  obtain ⟨cs, c, hb, hc⟩ := h
  exact ⟨a.toList ++ cs, c, by simp [hb], hc⟩

/-- What a text needs to end a line is decided by its last two characters. -/
theorem endsLine_append_newline {text : String} {c : Char} (h : text.toList.getLast? = some c)
    (hc : c ≠ '\n') : EndsLine (text ++ "\n") := by
  obtain ⟨cs, hcs⟩ := List.getLast?_eq_some_iff.1 h
  exact ⟨cs, c, by simp [hcs], hc⟩

end Text

namespace TypeScript

open Text (StartsLine EndsLine IsBlock)

/-! ## Declarations -/

/-- A comment without indentation starts a line, unless it has no lines. -/
theorem startsLine_renderComment {docs : List String} (h : docs ≠ []) :
    StartsLine (renderComment 0 docs) := by
  match docs with
  | [line] => exact ⟨'/', _, by simp [renderComment, Text.spaces]; rfl, by decide⟩
  | line :: next :: rest => exact ⟨'/', _, by simp [renderComment, Text.spaces]; rfl, by decide⟩

/-- The head of a type starts a line. -/
theorem startsLine_aliasHead (ambient : Bool) (name : String) (generics : List String) :
    StartsLine (Declaration.aliasHead ambient name generics) := by
  have hword : StartsLine (exportWord ambient ++ "type ") := by
    cases ambient <;> exact ⟨_, _, rfl, by decide⟩
  exact (hword.append name).append _

/-- The text of a declaration starts with a keyword. -/
theorem startsLine_render (ambient : Bool) (d : Declaration) :
    StartsLine (d.render ambient) := by
  cases d with
  | record name generics r =>
    refine (StartsLine.append ?_ _).append _
    split
    · have hword : StartsLine (exportWord ambient ++ "interface ") := by
        cases ambient <;> exact ⟨_, _, rfl, by decide⟩
      exact ((hword.append name).append _).append _
    · exact ((startsLine_aliasHead ambient name generics).append _).append _
  | typeAlias name generics target =>
    exact (((startsLine_aliasHead ambient name generics).append _).append _).append _
  | const name type value =>
    have hword : StartsLine "export const " := ⟨_, _, rfl, by decide⟩
    exact (((((hword.append _).append _).append _).append _).append _).append _
  | ambientConst name type =>
    have hword : StartsLine "declare const " := ⟨_, _, rfl, by decide⟩
    exact (((hword.append _).append _).append _).append _
  | constEnum name enumerators =>
    refine ((((StartsLine.append ?_ _).append _).append _).append _).append _
    cases ambient <;> exact ⟨_, _, rfl, by decide⟩
  | union name generics members =>
    exact ((startsLine_aliasHead ambient name generics).append _).append _

/-- An object type ends with its closing brace, also if it is empty. -/
theorem getLast?_renderObject (level : Nat) (tag : Option Tag) (properties : List Property) :
    (renderObject level tag properties).toList.getLast? = some '\x7d' := by
  unfold renderObject
  split
  · rfl
  · rw [String.toList_append, List.getLast?_append]
    rfl

/-- The list of the members of a union ends with a semicolon. -/
theorem endsLine_renderMembers {members : List Member} (h : members ≠ []) :
    EndsLine (renderMembers members) := by
  induction members with
  | nil => exact absurd rfl h
  | cons m rest ih =>
    cases rest with
    | nil => exact EndsLine.append _ ⟨[], ';', rfl, by decide⟩
    | cons n rest => exact EndsLine.append _ (ih (List.cons_ne_nil _ _))

/-- The text of a declaration ends with a semicolon or a brace and one line feed. -/
theorem endsLine_render (ambient : Bool) (d : Declaration) : EndsLine (d.render ambient) := by
  have hsemicolon : EndsLine ";\n" := ⟨[], ';', rfl, by decide⟩
  have hbrace : EndsLine "\x7d\n" := ⟨[], '\x7d', rfl, by decide⟩
  cases d with
  | record name generics r =>
    refine Text.endsLine_append_newline (c := '\x7d') ?_ (by decide)
    rw [String.toList_append, List.getLast?_append, getLast?_renderObject]
    rfl
  | typeAlias name generics target => exact hsemicolon.append _
  | const name type value => exact hsemicolon.append _
  | ambientConst name type => exact hsemicolon.append _
  | constEnum name enumerators => exact hbrace.append _
  | union name generics members =>
    refine EndsLine.append _ ?_
    split
    · exact EndsLine.append " never" hsemicolon
    · rename_i hne
      refine EndsLine.append _ (endsLine_renderMembers fun h => hne ?_)
      simp [h]

/-- **A declaration with its documentation is a block**, in an ambient file and in any other. -/
theorem isBlock_render (ambient : Bool) (b : Block) : IsBlock (b.render ambient) := by
  refine ⟨renderComment 0 b.docs ++ b.declaration.render ambient, ?_, ?_, ?_⟩
  · rw [Block.render, String.append_assoc]
  · by_cases hdocs : b.docs = []
    · rw [hdocs, renderComment_nil, String.empty_append]
      exact startsLine_render ambient b.declaration
    · exact (startsLine_renderComment hdocs).append _
  · exact (endsLine_render ambient b.declaration).append _

end TypeScript

namespace Translate

open Rust (Item)

/-! ## What an item leaves -/

/-- An item that has no text: a constant without a literal value, in a file that needs one. -/
def LeftOut (settings : Settings) (item : Item) : Prop :=
  settings.ambient = false ∧ ∃ t value, item.body = .const t value ∧ value.bind value? = none

/-- What an item may leave in a generated file. An item without the export marker leaves nothing;
one that is left out leaves its name among what was not processed, and one warning about it; every
other item leaves a block and no such warning. -/
inductive Leaves (settings : Settings) (item : Item) (e : Emission) : Prop
  | nothing (unmarked : Serde.hasAttribute settings.marker item.preamble.attributes = false)
    (empty : e = Emission.empty)
  | name (marked : Serde.hasAttribute settings.marker item.preamble.attributes = true)
    (leftOut : LeftOut settings item) (text : e.text = "")
    (unprocessed : e.unprocessed = ["const " ++ item.name])
    (warned : ∃ value, e.findings.filter (·.code == "W003") = [.untranslatedConst item.name value])
  | block (marked : Serde.hasAttribute settings.marker item.preamble.attributes = true)
    (kept : ¬ LeftOut settings item) (text : Text.IsBlock e.text) (unprocessed : e.unprocessed = [])
    (unwarned : e.findings.filter (·.code == "W003") = [])

/-- The types without counterpart are warned about with a code of their own. -/
theorem filter_unmapped (name : String) (foreigns : List String) :
    (unmapped name foreigns).filter (·.code == "W003") = [] := by
  rw [unmapped, List.filter_map, List.map_eq_nil_iff, List.filter_eq_nil_iff]
  exact fun _ _ => by simp [Finding.code]

/-- The variants that are not serialized are no warnings. -/
theorem filter_skippedVariants (name : String) (variants : List Rust.Variant) :
    (skippedVariants name variants).filter (·.code == "W003") = [] := by
  rw [skippedVariants, List.filter_map, List.map_eq_nil_iff, List.filter_eq_nil_iff]
  exact fun _ _ => by simp [Finding.code]

/-- A constant has a declaration unless it is left out. -/
theorem const?_eq_none_iff {settings : Settings} {name : String} {t : Rust.TypeExpr}
    {value : Option Rust.Expr} :
    const? settings name t value = none ↔ settings.ambient = false ∧ value.bind value? = none := by
  unfold const?
  cases settings.ambient <;> simp

/-- A declaration with a body leaves its block and its findings, unless it is a constant that is
left out. -/
theorem leaves_exported {settings : Settings} {item : Item}
    (hmark : Serde.hasAttribute settings.marker item.preamble.attributes = true)
    (hbody : item.body ≠ .bare) :
    Leaves settings item (exported settings (factsOfItem settings item) item) := by
  -- All items but constants have a declaration, and the emission of a declaration is a block.
  have hblock (hkept : ¬ LeftOut settings item) (d : TypeScript.Declaration) :
      Leaves settings item (ofBlock settings item.name item.preamble.docs d) :=
    .block hmark hkept (TypeScript.isBlock_render _ _) rfl (filter_unmapped _ _)
  cases hitem : item.body with
  | struct shape fields =>
    simp only [exported, hitem]
    exact hblock (by simp [LeftOut, hitem]) _
  | enum variants =>
    have hkept : ¬ LeftOut settings item := by simp [LeftOut, hitem]
    simp only [exported, hitem]
    refine .block hmark hkept ?_ rfl ?_
    · rw [Emission.text_append]
      exact String.empty_append ▸ TypeScript.isBlock_render _ _
    · rw [Emission.findings_append, List.filter_append, filter_skippedVariants]
      exact filter_unmapped _ _
  | const t value =>
    cases hconst : const? settings item.name t value with
    | none =>
      obtain ⟨hambient, hvalue⟩ := const?_eq_none_iff.1 hconst
      simp only [exported, hitem, hconst]
      refine .name hmark ⟨hambient, t, value, hitem, hvalue⟩ rfl rfl ⟨describe value, ?_⟩
      simp only [ofLeftOut, List.filter_append, filter_unmapped]
      rfl
    | some d =>
      simp only [exported, hitem, hconst]
      refine hblock ?_ d
      rintro ⟨hambient, t', value', hitem', hvalue⟩
      rw [hitem] at hitem'
      obtain ⟨rfl, rfl⟩ := Rust.Body.const.inj hitem'
      rw [const?_eq_none_iff.2 ⟨hambient, hvalue⟩] at hconst
      cases hconst
  | typeAlias target =>
    simp only [exported, hitem]
    exact hblock (by simp [LeftOut, hitem]) _
  | bare => exact absurd hitem hbody

/-- **What an item leaves** in a file, whatever the settings. -/
theorem leaves_ofItem (settings : Settings) {item : Item} (hbody : item.body ≠ .bare) :
    Leaves settings item (ofItem settings item) := by
  unfold ofItem
  cases hmark : Serde.hasAttribute settings.marker item.preamble.attributes with
  | false => exact .nothing hmark (if_neg (by simp [factsOfItem, Serde.declarationFacts,
      Serde.declarationFactsOf, hmark]))
  | true =>
    rw [if_pos (by simp [factsOfItem, Serde.declarationFacts, Serde.declarationFactsOf, hmark])]
    exact leaves_exported hmark hbody

end Translate

/-! ## Whole runs -/

namespace Emission

/-- The text of several emissions is theirs, one behind the other. -/
@[simp] theorem text_concat (es : List Emission) :
    (concat es).text = Text.concat (es.map (·.text)) := by
  induction es with
  | nil => rfl
  | cons e es ih => rw [concat_cons, text_append, ih, List.map_cons, Text.concat_cons]

/-- What several emissions leave out is what each of them does. -/
@[simp] theorem unprocessed_concat (es : List Emission) :
    (concat es).unprocessed = es.flatMap (·.unprocessed) := by
  induction es with
  | nil => rfl
  | cons e es ih => rw [concat_cons, unprocessed_append, ih, List.flatMap_cons]

/-- The findings of several emissions are theirs, one behind the other. -/
@[simp] theorem findings_concat (es : List Emission) :
    (concat es).findings = es.flatMap (·.findings) := by
  induction es with
  | nil => rfl
  | cons e es ih => rw [concat_cons, findings_append, ih, List.flatMap_cons]

end Emission

section Runs

open Translate

variable (settings : Settings)

/-- The text of a run is the marker line and then what the items leave. -/
theorem text_translate (items : List Rust.Item) :
    (translate settings items).text =
      marker ++ "\n" ++ Text.concat (items.map fun item => (ofItem settings item).text) := by
  simp [translate, ofItems, header, Emission.empty, Function.comp_def]

/-- What a file leaves out is what its items leave out. -/
theorem unprocessed_translate (items : List Rust.Item) :
    (translate settings items).unprocessed =
      items.flatMap fun item => (ofItem settings item).unprocessed := by
  simp [translate, ofItems, header, Emission.empty, List.flatMap_map]

/-- The findings of a file are those of its items. -/
theorem findings_translate (items : List Rust.Item) :
    (translate settings items).findings =
      items.flatMap fun item => (ofItem settings item).findings := by
  simp [translate, ofItems, header, Emission.empty, List.flatMap_map]

/-- **A run is the sequence of its blocks.** The run on two lists is the run on the first one and
then that on the second, without its marker line; what was not processed and what was found follow
one another in the same way. And each run is the sequence of what its items leave. -/
theorem translate_blocks (xs ys : List Rust.Item) :
    (∃ blocks, (translate settings ys).text = marker ++ "\n" ++ blocks ∧
      (translate settings (xs ++ ys)).text = (translate settings xs).text ++ blocks) ∧
    (translate settings (xs ++ ys)).unprocessed =
      (translate settings xs).unprocessed ++ (translate settings ys).unprocessed ∧
    (translate settings (xs ++ ys)).findings =
      (translate settings xs).findings ++ (translate settings ys).findings ∧
    (translate settings xs).text =
      marker ++ "\n" ++ Text.concat (xs.map fun item => (ofItem settings item).text) ∧
    (translate settings xs).unprocessed =
      (xs.flatMap fun item => (ofItem settings item).unprocessed) ∧
    (translate settings xs).findings =
      (xs.flatMap fun item => (ofItem settings item).findings) ∧
    ∀ item ∈ xs, item.body ≠ .bare → Leaves settings item (ofItem settings item) := by
  refine ⟨⟨_, text_translate settings ys, ?_⟩, ?_, ?_, text_translate settings xs,
    unprocessed_translate settings xs, findings_translate settings xs,
    fun item _ hbody => leaves_ofItem settings hbody⟩
  · simp only [text_translate, List.map_append, Text.concat_append, String.append_assoc]
  · rw [unprocessed_translate, unprocessed_translate, unprocessed_translate, List.flatMap_append]
  · rw [findings_translate, findings_translate, findings_translate, List.flatMap_append]

/-- A marked constant with a call as its value is the item to look at: it is no block. -/
theorem leaves_of_marked_call :
    let item : Rust.Item :=
      ⟨"LIMIT", [], ⟨[], [⟨"tsync", []⟩]⟩, .const (.primitive "u32") (some (.raw "limit()"))⟩
    item ∈ [item] ∧ item.body ≠ .bare ∧ LeftOut .default item ∧
      Leaves .default item (ofItem .default item) := by
  intro item
  have hbody : item.body ≠ .bare := Rust.Body.noConfusion
  exact ⟨List.mem_singleton_self _, hbody, ⟨rfl, _, _, rfl, by decide⟩,
    (translate_blocks .default [item] []).2.2.2.2.2.2 item (List.mem_singleton_self _) hbody⟩

end Runs
end Ferrotype
