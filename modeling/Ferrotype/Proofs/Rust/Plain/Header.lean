/-
# Headers of declarations

A declaration stands behind complete items, a preamble and a visibility (`Front`), and starts with
its keyword, its name and its type parameters. What is behind them decides about it: `Generics` are
read up to everything that is no angle bracket (`outcome_generics`), so the outcome of a struct is
that of its body (`outcome_parseStruct_header`), and likewise for enums and aliases.

Bounds and defaults hold commas and closing angle brackets only inside angle brackets of their own
or inside groups (`Bounds`); that is all that is asked of them.
-/

import Ferrotype.Proofs.Rust.Parse.Outcome
import Ferrotype.Proofs.Rust.Parse.Skipped

namespace Ferrotype
namespace Rust

/-! ## Type parameters -/

/-- Bounds and defaults of a parameter, with `depth` angle brackets open in front of them. -/
inductive Bounds : Nat → List Token → Prop
  | nil : Bounds 0 []
  | plain {depth : Nat} {t : Token} {ts : List Token}
      (hends : depth = 0 → endsBounds t.kind = false) (hopens : t.kind.opens = false)
      (hts : Bounds (angleDepth depth t.kind) ts) : Bounds depth (t :: ts)
  | group {depth : Nat} {t u : Token} {inner ts : List Token}
      (hcloser : t.kind.closer? = some u.kind) (hinner : Nested inner) (hts : Bounds depth ts) :
      Bounds depth (t :: (inner ++ u :: ts))

/-- The name that a parameter contributes: lifetimes and constants have none. -/
def parameterName (t : Token) : List String := if t.kind = .identifier then [t.text] else []

/-- The parameters between angle brackets and their names. -/
inductive Parameters : List Token → List String → Prop
  | nil : Parameters [] []
  | last {t : Token} {bounds : List Token} (ht : startsParameter t.kind)
      (hbounds : Bounds 0 bounds) : Parameters (t :: bounds) (parameterName t)
  | cons {t comma : Token} {bounds more : List Token} {names : List String}
      (ht : startsParameter t.kind) (hbounds : Bounds 0 bounds) (hcomma : comma.kind = .comma)
      (hmore : Parameters more names) :
      Parameters (t :: (bounds ++ comma :: more)) (parameterName t ++ names)

/-- A list of type parameters, or nothing. -/
inductive Generics : List Token → List String → Prop
  | none : Generics [] []
  | list {opening closing : Token} {ts : List Token} {names : List String}
      (hopening : opening.kind = .lt) (hts : Parameters ts names) (hclosing : closing.kind = .gt) :
      Generics (opening :: (ts ++ [closing])) names

/-- Bounds are passed over up to the comma or the angle bracket behind them. -/
theorem Bounds.dropBounds_append {depth : Nat} {ts : List Token} (h : Bounds depth ts) {u : Token}
    (hu : endsBounds u.kind) (us : List Token) :
    dropBounds depth (ts ++ u :: us) = u :: us := by
  induction h with
  | nil => rw [List.nil_append, dropBounds, if_pos ⟨rfl, hu⟩]
  | @plain depth t ts hends hopens _ ih =>
    have hnot : ¬ (depth = 0 ∧ endsBounds t.kind) := fun h =>
      Bool.eq_false_iff.1 (hends h.1) h.2
    rw [List.cons_append, dropBounds, if_neg hnot, dropUnit, if_neg (by simp [hopens])]
    exact ih
  | @group depth t v inner ts hcloser hinner _ ih =>
    have hkind : endsBounds t.kind = false ∧ angleDepth depth t.kind = depth := by
      have hopens := Kind.opens_of_closer? hcloser
      revert hopens
      cases t.kind <;> simp [Kind.opens, endsBounds, angleDepth]
    rw [List.cons_append, List.append_assoc, List.cons_append, dropBounds,
      if_neg (by simp [hkind.1]), dropUnit_group hcloser hinner, hkind.2]
    exact ih

section Parameters

variable (eof : Token)

/-- What starts a parameter does not close the parameters. -/
theorem ne_gt_of_startsParameter {kind : Kind} (h : startsParameter kind) : kind ≠ .gt := by
  rintro rfl
  cases h

/-- The first parameter is passed with its bounds and the comma behind it. -/
theorem outcome_parameterNames_cons {t : Token} (ht : startsParameter t.kind) (ts : List Token) :
    outcome (parameterNames eof (t :: ts)) =
      (outcome (parameterNames eof (dropIf .comma (dropBounds 0 ts)))).map
        fun (names, rest) => (parameterName t ++ names, rest) := by
  have hdrop : dropParameter t ts = dropIf .comma (dropBounds 0 ts) := by
    rw [dropParameter, if_pos ht]
  rw [parameterNames, dif_neg (ne_gt_of_startsParameter ht), ← hdrop]
  cases parameterNames eof (dropParameter t ts) <;> rfl

/-- Parameters are read by their names, up to the closing bracket. The induction is on them. -/
theorem outcome_parameterNames {ts : List Token} {names : List String} (h : Parameters ts names)
    {closing : Token} (hclosing : closing.kind = .gt) (ws : List Token) :
    outcome (parameterNames eof (ts ++ closing :: ws)) = .ok (names, ws) := by
  have hend : outcome (parameterNames eof (closing :: ws)) = .ok ([], ws) := by
    rw [parameterNames, dif_pos hclosing]
    rfl
  induction h with
  | nil => exact hend
  | @last t bounds ht hbounds =>
    have hdrop : dropIf .comma (dropBounds 0 (bounds ++ closing :: ws)) = closing :: ws := by
      rw [hbounds.dropBounds_append (by rw [hclosing]; rfl), dropIf, if_neg (by simp [hclosing])]
    rw [List.cons_append, outcome_parameterNames_cons eof ht, hdrop, hend]
    simp [Except.map]
  | @cons t comma bounds more names ht hbounds hcomma _ ih =>
    have hdrop : dropIf .comma (dropBounds 0 (bounds ++ comma :: (more ++ closing :: ws))) =
        more ++ closing :: ws := by
      rw [hbounds.dropBounds_append (by rw [hcomma]; rfl), dropIf, if_pos hcomma]
    rw [List.cons_append, List.append_assoc, List.cons_append,
      outcome_parameterNames_cons eof ht, hdrop, ih]
    rfl

/-- An opening bracket is followed by parameters. -/
theorem outcome_generics_lt {t : Token} (ht : t.kind = .lt) (ts : List Token) :
    outcome (generics eof (t :: ts)) = outcome (parameterNames eof ts) := by
  rw [generics, if_pos ht]
  cases parameterNames eof ts <;> rfl

/-- **Type parameters are read up to everything that is no angle bracket.** -/
theorem outcome_generics {gs : List Token} {params : List String} (h : Generics gs params)
    {ws : List Token} (hws : headKind ws ≠ .lt) :
    outcome (generics eof (gs ++ ws)) = .ok (params, ws) := by
  cases h with
  | none =>
    cases ws with
    | nil => rfl
    | cons w ws =>
      rw [headKind_cons] at hws
      rw [List.nil_append, generics, if_neg hws]
      rfl
  | @list opening closing ts _ hopening hts hclosing =>
    rw [List.cons_append, List.append_assoc, List.singleton_append,
      outcome_generics_lt eof hopening, outcome_parameterNames eof hts hclosing]

end Parameters

/-! ## Headers -/

section Headers

variable (eof : Token) (p : Preamble) {name : Token} (hname : name.kind = .identifier)
  {gs : List Token} {params : List String} (hgs : Generics gs params) {ws : List Token}
  (hws : headKind ws ≠ .lt)
include hname hgs hws

/-- A struct behind its name and its parameters. -/
theorem outcome_parseStruct_header :
    outcome (parseStruct eof p (name :: (gs ++ ws))) = (do
      let (body, rest) ← outcome (structBody eof name.text (dropWhere ws))
      .ok (⟨name.text, params, p, body⟩, rest)) := by
  rw [outcome_parseStruct, outcome_expect eof hname]
  show outcome (generics eof (gs ++ ws)) >>= _ = _
  rw [outcome_generics eof hgs hws]
  rfl

/-- An enum behind its name and its parameters. -/
theorem outcome_parseEnum_header :
    outcome (parseEnum eof p (name :: (gs ++ ws))) = (do
      let (_, rest) ← outcome (expect eof .lbrace (.openingEnum name.text) (dropWhere ws))
      let (variants, rest) ← outcome (members eof .rbrace (fun v : Variant => .afterVariant v.name)
        (variant eof name.text) rest)
      .ok (⟨name.text, params, p, .enum variants⟩, rest)) := by
  rw [outcome_parseEnum, outcome_expect eof hname]
  show outcome (generics eof (gs ++ ws)) >>= _ = _
  rw [outcome_generics eof hgs hws]
  rfl

/-- A type alias behind its name and its parameters. -/
theorem outcome_parseAlias_header :
    outcome (parseAlias eof p (name :: (gs ++ ws))) = (do
      let (_, rest) ← outcome (expect eof .eq (.inAlias name.text) (dropWhere ws))
      let (type, rest) ← outcome (parseType eof rest)
      let (_, rest) ← outcome (expect eof .semicolon (.afterAlias name.text) rest)
      .ok (⟨name.text, params, p, .typeAlias type⟩, rest)) := by
  rw [outcome_parseAlias, outcome_expect eof hname]
  show outcome (generics eof (gs ++ ws)) >>= _ = _
  rw [outcome_generics eof hgs hws]
  rfl

end Headers

/-! ## In front of a declaration -/

/-- Tokens that make up complete items: their brackets are nested, and the last one ends an item. -/
structure Complete (xs : List Token) (items : List Item) : Prop where
  nested : Nested xs
  ends : ∀ t ∈ xs.getLast?, t.kind = .semicolon ∨ t.kind = .rbrace
  read : ∃ eof, parseItems eof xs = .ok items

/-- The items of complete tokens stand in front of all others. -/
theorem Complete.parseItems_behind {xs : List Token} {items : List Item} (h : Complete xs items)
    (eof : Token) (ws : List Token) :
    parseItems eof (xs ++ ws) = (parseItems eof ws).map (items ++ ·) := by
  obtain ⟨_, hread⟩ := h.read
  exact parseItems_continues eof (.of_sealed (h.nested.seals h.ends) ws) hread

/-- Tokens in front of the keyword of a declaration: complete items, the preamble of the declaration
and its visibility. -/
inductive Front (eof : Token) : List Token → List Item → Preamble → Prop
  | mk {xs front vs : List Token} {items : List Item} {p : Preamble} {v : Visibility}
      (hxs : Complete xs items) (hfront : IsPreamble eof front p) (hv : v.isWritable)
      (hvs : piecesOf vs = v.pieces) : Front eof (xs ++ (front ++ vs)) items p

/-- There may be nothing in front of an item. -/
theorem front_nil (eof : Token) : Front eof [] [] ⟨[], []⟩ :=
  @Front.mk _ [] [] [] _ _ .inherited ⟨.nil, by simp, eof, by rw [parseItems]⟩ (isPreamble_nil eof)
    rfl rfl

/-- The kinds of the keywords of declarations. -/
def keywordKinds : List Kind := [.struct, .enum, .const, .type]

/-- The items of a source behind some that are known and one that was read. -/
def itemsBehind (eof : Token) (items : List Item) : Item × List Token → Result (List Item)
  | (item, rest) => (parseItems eof rest).map (items ++ item :: ·)

/-- Behind the last item there are no others. -/
theorem itemsBehind_nil (eof : Token) (items : List Item) (item : Item) :
    itemsBehind eof items (item, []) = .ok (items ++ [item]) := by
  rw [itemsBehind, parseItems]
  rfl

/-- **The items of a source in which a declaration is read.** -/
theorem Front.parseItems_behind {eof : Token} {before : List Token} {items : List Item}
    {p : Preamble} (h : Front eof before items p) {t : Token} (ht : t.kind ∈ keywordKinds)
    {ts : List Token} {declaration : Result (Parsed Item ts.length)}
    (hitem : parseItem eof p t ts = declaration.map some) :
    parseItems eof (before ++ t :: ts) = outcome declaration >>= itemsBehind eof items := by
  obtain ⟨hxs, hfront, hv, hvs⟩ := h
  have hkind : t.kind ∉ [Kind.doc, .hash, .pub, .lparen] := by
    revert ht
    cases t.kind <;> simp [keywordKinds]
  rw [List.append_assoc, List.append_assoc, hxs.parseItems_behind,
    parseItems_of_isPreamble hfront hv hvs ts hkind, hitem]
  cases declaration with
  | error e => rfl
  | ok item =>
    show ((parseItems eof item.rest).map _).map _ = (parseItems eof item.rest).map _
    cases parseItems eof item.rest <;> rfl

section Declarations

variable {eof : Token} {before : List Token} {items : List Item} {p : Preamble}
  (h : Front eof before items p) {t name : Token} (hname : name.kind = .identifier)
  {gs : List Token} {params : List String} (hgs : Generics gs params) {ws : List Token}
  (hws : headKind ws ≠ .lt)
include h hname hgs hws

/-- A file with a struct behind what stands in front of it. -/
theorem Front.parseItems_struct (ht : t.kind = .struct) :
    parseItems eof (before ++ t :: name :: (gs ++ ws)) = (do
      let (body, rest) ← outcome (structBody eof name.text (dropWhere ws))
      itemsBehind eof items (⟨name.text, params, p, body⟩, rest)) := by
  rw [h.parseItems_behind (by simp [keywordKinds, ht]) (if_pos ht),
    outcome_parseStruct_header eof p hname hgs hws, bind_assoc]
  rfl

/-- A file with an enum behind what stands in front of it. -/
theorem Front.parseItems_enum (ht : t.kind = .enum) :
    parseItems eof (before ++ t :: name :: (gs ++ ws)) = (do
      let (_, rest) ← outcome (expect eof .lbrace (.openingEnum name.text) (dropWhere ws))
      let (variants, rest) ← outcome (members eof .rbrace (fun v : Variant => .afterVariant v.name)
        (variant eof name.text) rest)
      itemsBehind eof items (⟨name.text, params, p, .enum variants⟩, rest)) := by
  have hitem : parseItem eof p t (name :: (gs ++ ws)) =
      (parseEnum eof p (name :: (gs ++ ws))).map some := by simp [parseItem, ht]
  rw [h.parseItems_behind (by simp [keywordKinds, ht]) hitem,
    outcome_parseEnum_header eof p hname hgs hws]
  simp only [bind_assoc]
  rfl

/-- A file with a type alias behind what stands in front of it. -/
theorem Front.parseItems_alias (ht : t.kind = .type) :
    parseItems eof (before ++ t :: name :: (gs ++ ws)) = (do
      let (_, rest) ← outcome (expect eof .eq (.inAlias name.text) (dropWhere ws))
      let (type, rest) ← outcome (parseType eof rest)
      let (_, rest) ← outcome (expect eof .semicolon (.afterAlias name.text) rest)
      itemsBehind eof items (⟨name.text, params, p, .typeAlias type⟩, rest)) := by
  have hitem : parseItem eof p t (name :: (gs ++ ws)) =
      (parseAlias eof p (name :: (gs ++ ws))).map some := by simp [parseItem, ht]
  rw [h.parseItems_behind (by simp [keywordKinds, ht]) hitem,
    outcome_parseAlias_header eof p hname hgs hws]
  simp only [bind_assoc]
  rfl

end Declarations

end Rust
end Ferrotype
