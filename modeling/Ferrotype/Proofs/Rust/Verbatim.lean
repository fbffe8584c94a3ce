/-
# Types that are kept as text

A type is kept as text if it starts like a function pointer, a trait object, a raw pointer or a
qualified path. References, parentheses and containers such as `Box` leave what they hold as it is,
so a type that is given as text need not be the whole of what was read; but the text is always that
of tokens that stand next to each other, from the first one of such a type on (`IsKept`). The
induction is on types, type arguments and elements of tuples together.

Cut into tokens again, the text gives these tokens, unless some of them fuse
(`parseType_verbatim_iff`).
-/

import Ferrotype.Proofs.Rust.Parse.Branch
import Ferrotype.Proofs.Rust.Parse.Outcome
import Ferrotype.Proofs.Rust.Tokenize.Joined
import Ferrotype.Proofs.Rust.Walk.Type

namespace Ferrotype
namespace Rust

/-! ## Where the texts come from -/

/-- Tokens that stand next to each other in a list, from one that starts a type kept as text up to
the end of that type. -/
structure IsStretch (ts before kept after : List Token) : Prop where
  split : ts = before ++ (kept ++ after)
  starts : kept.head?.any startsVerbatim
  span : verbatimSpan 0 (kept ++ after) = (kept, after)

/-- A type kept as text starts where its first token stands. -/
theorem isStretch_of_startsVerbatim {t : Token} (h : startsVerbatim t) (before us : List Token) :
    IsStretch (before ++ t :: us) before (verbatimSpan 0 (t :: us)).1
      (verbatimSpan 0 (t :: us)).2 where
  split := by rw [verbatimSpan_append]
  starts := by
    rw [verbatimSpan, if_neg (by simp [endsVerbatim_of_startsVerbatim h])]
    exact h
  span := by rw [verbatimSpan_append]

/-- More tokens in front of a list are in front of the stretch. -/
theorem IsStretch.behind {us ts before kept after : List Token} (h : IsStretch us before kept after)
    {front : List Token} (hts : front ++ us = ts) : IsStretch ts (front ++ before) kept after where
  split := by rw [← hts, h.split, List.append_assoc]
  starts := h.starts
  span := h.span

/-- Whether a text is that of tokens that are kept in a list. -/
def IsKept (ts : List Token) (text : String) : Prop :=
  ∃ before kept after, IsStretch ts before kept after ∧ text = textOf kept

/-- Whether the texts among types are those of tokens that are kept. -/
def KeptIn (ts : List Token) (types : List TypeExpr) : Prop :=
  ∀ text, TypeExpr.verbatim text ∈ types → IsKept ts text

/-- The same of the types in a result. -/
def KeepsTexts {α : Type} {n : Nat} (types : α → List TypeExpr) (ts : List Token)
    (result : Result (Parsed α n)) : Prop :=
  ∀ p, result = .ok p → KeptIn ts (types p.value)

/-- What is kept at the end of a list is kept in it. -/
theorem KeptIn.of_suffix {us ts : List Token} {types : List TypeExpr} (h : KeptIn us types)
    (hsuffix : us <:+ ts) : KeptIn ts types := fun text htext => by
  obtain ⟨before, kept, after, hstretch, heq⟩ := h text htext
  obtain ⟨front, hfront⟩ := hsuffix
  exact ⟨front ++ before, kept, after, hstretch.behind hfront, heq⟩

/-- There is no text among no types. -/
theorem keptIn_nil (ts : List Token) : KeptIn ts [] := fun _ h => nomatch h

/-- Texts are kept in a list if those of both parts are. -/
theorem keptIn_append {ts : List Token} {types more : List TypeExpr} (htypes : KeptIn ts types)
    (hmore : KeptIn ts more) : KeptIn ts (types ++ more) := fun text h =>
  (List.mem_append.1 h).elim (htypes text) (hmore text)

section Results

variable {α β : Type} {n : Nat} {types : α → List TypeExpr} {ts : List Token}

/-- An error has no texts. -/
theorem keepsTexts_error (e : ParseError) :
    KeepsTexts types ts (.error e : Result (Parsed α n)) := by
  rintro p ⟨⟩

/-- A result keeps its texts if they are in the list. -/
theorem keepsTexts_ok {p : Parsed α n} (h : KeptIn ts (types p.value)) :
    KeepsTexts types ts (.ok p) := by
  rintro q ⟨⟩
  exact h

/-- A step of a parser keeps texts if what follows does for each result of it. -/
theorem keepsTexts_bind {x : Result β} {f : β → Result (Parsed α n)}
    (h : ∀ b, x = .ok b → KeepsTexts types ts (f b)) : KeepsTexts types ts (x >>= f) := by
  intro p hp
  obtain ⟨b, hb, hp⟩ := exists_of_bind_ok hp
  exact h b hb p hp

/-- The texts of a list are kept if those of the known member and of the others are. -/
theorem keepsTexts_parseSeparated {eof : Token} {closer : Kind}
    {others : (us : List Token) → Result (Parsed α us.length)} {add : α → α} {last : α}
    {missing : Token → ParseError} {us : List Token} (hsuffix : us <:+ ts)
    (hlast : KeptIn ts (types last)) (hadd : ∀ v, types (add v) = types last ++ types v)
    (hothers : ∀ w ws, us = w :: ws → KeepsTexts types ws (others ws)) :
    KeepsTexts types ts (parseSeparated eof closer others add last missing us) := by
  cases us with
  | nil => exact keepsTexts_error _
  | cons w ws =>
    rw [parseSeparated]
    split
    · refine keepsTexts_bind fun more hmore => keepsTexts_ok ?_
      have hkept := (hothers w ws rfl more hmore).of_suffix ((List.suffix_cons w ws).trans hsuffix)
      show KeptIn ts (types (add more.value))
      rw [hadd]
      exact keptIn_append hlast hkept
    · split
      · exact keepsTexts_ok hlast
      · exact keepsTexts_error _

end Results

/-- A path is a type kept as text only if it stands for one of its arguments. -/
theorem mem_of_classify {name : String} {args : List TypeExpr} {text : String}
    (h : TypeExpr.classify name args = .verbatim text) : .verbatim text ∈ args := by
  have hname (name : String) (args : List TypeExpr) :
      TypeExpr.ofName name args ≠ .verbatim text := by
    unfold TypeExpr.ofName
    split <;> exact TypeExpr.noConfusion
  unfold TypeExpr.classify at h
  split at h
  · cases h
  · dsimp only at h
    split at h
    · cases h
    · cases h
    · cases h
    · cases h
    · exact h ▸ List.getLast_mem _
    · cases h
    · exact absurd h (hname _ _)

/-- Elements make up a text only if it is the one element between parentheses. -/
theorem mem_of_ofElements {elements : List TypeExpr} {comma : Bool} {text : String}
    (h : ofElements elements comma = .verbatim text) : .verbatim text ∈ elements := by
  unfold ofElements at h
  split at h
  · cases h
  · exact h ▸ List.mem_singleton_self _
  · cases h

/-- The only text of a type that is one is its own. -/
theorem keptIn_singleton {ts : List Token} {e : TypeExpr} :
    KeptIn ts [e] ↔ ∀ text, e = .verbatim text → IsKept ts text := by
  simp [KeptIn, eq_comm]

/-- The texts of a path are those of its arguments. -/
theorem keptIn_classify {ts : List Token} {args : List TypeExpr} (h : KeptIn ts args)
    (name : String) : KeptIn ts [TypeExpr.classify name args] :=
  keptIn_singleton.2 fun text htext => h text (mem_of_classify htext)

/-- The texts in parentheses are those of the elements. -/
theorem keptIn_ofElements {ts : List Token} {elements : List TypeExpr} (h : KeptIn ts elements)
    (comma : Bool) : KeptIn ts [ofElements elements comma] :=
  keptIn_singleton.2 fun text htext => h text (mem_of_ofElements htext)

section Types

variable (eof : Token)

/-- A path without arguments keeps no text. -/
theorem keepsTexts_path {t : Token} {ts : List Token} (hstarts : StartsPath t ts)
    (hhead : headKind (dropTurbofish (path (t :: ts)).2) ≠ .lt) :
    KeepsTexts ([·]) (t :: ts) (parseType eof (t :: ts)) := by
  obtain ⟨r, hr, hvalue, -⟩ := parseType_of_headKind eof hstarts hhead
  rw [hr]
  refine keepsTexts_ok ?_
  rw [hvalue]
  exact keptIn_classify (keptIn_nil _) _

/-- **The texts of every type are kept in the tokens it was read from.** The induction is on the
number of tokens, for types, for arguments and for elements together; the cases are those of the
parser, and only the first one keeps a text of its own. -/
theorem keepsTexts_types : (∀ ts, KeepsTexts ([·]) ts (parseType eof ts)) ∧
    (∀ ts, KeepsTexts id ts (parseArguments eof ts)) ∧
    ∀ ts comma, KeepsTexts Prod.fst ts (parseElements eof ts comma) := by
  refine parseType.mutual_induct eof _ _ _ ?nothing ?reference ?tuple ?array ?never ?verbatim
    ?noPath ?wholePath ?applied ?plainPath ?noArgument ?closingAngle ?skippedArgument ?typeArgument
    ?noElement ?closingParenthesis ?element
  case nothing =>
    rw [parseType]
    exact keepsTexts_error _
  case reference =>
    intro t ts hkind ih
    rw [parseType, if_pos hkind]
    refine keepsTexts_bind fun inner hinner => keepsTexts_ok ?_
    exact (ih inner hinner).of_suffix
      ((Walk.passes_skipReference ts).suffix.trans (List.suffix_cons _ _))
  case tuple =>
    intro t ts h₁ hkind ih
    rw [parseType, if_neg h₁, if_pos hkind]
    refine keepsTexts_bind fun elements helements => keepsTexts_ok ?_
    exact keptIn_ofElements ((ih elements helements).of_suffix (List.suffix_cons _ _)) _
  case array =>
    -- a sequence is no type kept as text, whatever its elements are
    intro t ts h₁ h₂ hkind ih
    rw [parseType, if_neg h₁, if_neg h₂, if_pos hkind]
    refine keepsTexts_bind fun element helement => keepsTexts_bind fun closing hclosing =>
      keepsTexts_ok (keptIn_singleton.2 ?_)
    rintro text ⟨⟩
  case never =>
    intro t ts h₁ h₂ h₃ hkind
    rw [parseType, if_neg h₁, if_neg h₂, if_neg h₃, if_pos hkind]
    refine keepsTexts_ok (keptIn_singleton.2 ?_)
    rintro text ⟨⟩
  case verbatim =>
    intro t ts h₁ h₂ h₃ h₄ hstarts
    rw [parseType, if_neg h₁, if_neg h₂, if_neg h₃, if_neg h₄, dif_pos hstarts]
    refine keepsTexts_ok (keptIn_singleton.2 ?_)
    rintro text ⟨⟩
    exact ⟨[], _, _, isStretch_of_startsVerbatim hstarts [] ts, rfl⟩
  case noPath =>
    intro t ts h₁ h₂ h₃ h₄ h₅ hpath
    rw [parseType, if_neg h₁, if_neg h₂, if_neg h₃, if_neg h₄, dif_neg h₅, dif_pos hpath]
    exact keepsTexts_error _
  case wholePath =>
    intro t ts h₁ h₂ h₃ h₄ h₅ hpath hrest
    exact keepsTexts_path eof ⟨h₁, h₂, h₃, h₄, h₅, hpath⟩ (by rw [hrest]; exact Kind.noConfusion)
  case applied =>
    intro t ts h₁ h₂ h₃ h₄ h₅ hpath u us hrest _ hkind ih
    obtain ⟨hlt, hparse⟩ := parseType_of_lt eof ⟨h₁, h₂, h₃, h₄, h₅, hpath⟩ hrest hkind
    have hsuffix : us <:+ t :: ts := (List.suffix_cons u us).trans (hrest ▸
      (Walk.passes_skipTurbofish _).suffix.trans (Walk.passes_skipPath _).suffix)
    rw [hparse]
    exact keepsTexts_bind fun args hargs =>
      keepsTexts_ok (keptIn_classify ((ih args hargs).of_suffix hsuffix) _)
  case plainPath =>
    intro t ts h₁ h₂ h₃ h₄ h₅ hpath u us hrest _ hkind
    exact keepsTexts_path eof ⟨h₁, h₂, h₃, h₄, h₅, hpath⟩ (by rwa [hrest])
  case noArgument =>
    rw [parseArguments]
    exact keepsTexts_error _
  case closingAngle =>
    intro t ts hkind
    rw [parseArguments, if_pos hkind]
    exact keepsTexts_ok (keptIn_nil _)
  case skippedArgument =>
    intro t ts hkind skipped hskipped ih
    rw [parseArguments_of_skipped eof hkind hskipped]
    refine keepsTexts_bind fun args hargs => keepsTexts_ok ?_
    have hsuffix := (Walk.passes_typeArgument (m := Walk.type eof ()) hskipped).suffix
    exact keepsTexts_parseSeparated hsuffix (keptIn_nil _)
      (fun _ => rfl) (ih (skipped.map fun _ => none)) args hargs
  case typeArgument =>
    intro t ts hkind hskipped ih ihtype
    rw [parseArguments_of_type eof hkind hskipped]
    refine keepsTexts_bind fun type htype => keepsTexts_bind fun args hargs => keepsTexts_ok ?_
    have hall : KeepsTexts id (t :: ts) (argumentsBehind eof [type.value] type.rest) :=
      keepsTexts_parseSeparated ((Walk.follows_type _).suffix htype) (ihtype type htype)
        (fun _ => rfl) (ih (type.map some))
    exact hall args hargs
  case noElement =>
    intro comma
    rw [parseElements]
    exact keepsTexts_error _
  case closingParenthesis =>
    intro comma t ts hkind
    rw [parseElements, if_pos hkind]
    exact keepsTexts_ok (keptIn_nil _)
  case element =>
    intro comma t ts hkind ihtype ih
    rw [parseElements_cons eof hkind]
    refine keepsTexts_bind fun element helement =>
      keepsTexts_bind fun elements helements => keepsTexts_ok ?_
    have hall : KeepsTexts Prod.fst (t :: ts) (elementsBehind eof element.value element.rest) :=
      keepsTexts_parseSeparated ((Walk.follows_type _).suffix helement)
        (ihtype element helement) (fun _ => rfl) (ih element)
    exact hall elements helements

end Types

/-! ## Texts that are cut into tokens again -/

/-- A type that is kept as text is read up to where it ends. -/
theorem outcome_parseType_verbatim (eof : Token) {t : Token} (h : startsVerbatim t)
    (ts : List Token) :
    outcome (parseType eof (t :: ts)) =
      .ok (.verbatim (textOf (verbatimSpan 0 (t :: ts)).1), (verbatimSpan 0 (t :: ts)).2) := by
  have hkind : t.kind ≠ .ampersand ∧ t.kind ≠ .lparen ∧ t.kind ≠ .lbracket ∧ t.kind ≠ .bang := by
    unfold startsVerbatim at h
    split at h <;> simp_all
  rw [parseType, if_neg hkind.1, if_neg hkind.2.1, if_neg hkind.2.2.1, if_neg hkind.2.2.2,
    dif_pos h]
  rfl

/-- **A type that is given as text has the text of tokens that stand next to each other, and that
text is cut into these tokens if and only if none of them fuse.** They are all the tokens that were
read, if the first one of these starts such a type. -/
theorem parseType_verbatim_iff {eof : Token} {ts rest : List Token} {text : String}
    (h : outcome (parseType eof ts) = .ok (.verbatim text, rest)) :
    ∃ before kept after, IsStretch ts before kept after ∧ text = textOf kept ∧
      (ts.head?.any startsVerbatim → before = [] ∧ after = rest) ∧
      ((∀ t ∈ kept, t.piece.Plain) →
        (piecesOf (tokenize text).tokens = piecesOf kept ↔ ¬ Fuses (piecesOf kept))) := by
  by_cases hhead : ts.head?.any startsVerbatim
  · cases ts with
    | nil => cases hhead
    | cons t us =>
      rw [outcome_parseType_verbatim eof hhead] at h
      cases h
      exact ⟨[], _, _, isStretch_of_startsVerbatim hhead [] us, rfl, fun _ => ⟨rfl, rfl⟩,
        piecesOf_tokenize_textOf_iff⟩
  · obtain ⟨p, hp, hvalue⟩ : ∃ p, parseType eof ts = .ok p ∧ p.value = .verbatim text := by
      cases hresult : parseType eof ts with
      | error e =>
        rw [hresult] at h
        cases h
      | ok p =>
        rw [hresult] at h
        exact ⟨p, rfl, congrArg Prod.fst (Except.ok.inj h)⟩
    obtain ⟨before, kept, after, hstretch, rfl⟩ :=
      keptIn_singleton.1 ((keepsTexts_types eof).1 ts p hp) text hvalue
    exact ⟨before, kept, after, hstretch, rfl, fun h => absurd h hhead,
      piecesOf_tokenize_textOf_iff⟩

/-- The tokens of `fn(x: ::std::String)`. -/
def functionOfGlobalPath : List Token :=
  [⟨.fn, "fn", ⟨1, 1⟩⟩, ⟨.lparen, "(", ⟨1, 3⟩⟩, ⟨.identifier, "x", ⟨1, 4⟩⟩, ⟨.colon, ":", ⟨1, 5⟩⟩,
    ⟨.colonColon, "::", ⟨1, 7⟩⟩, ⟨.identifier, "std", ⟨1, 9⟩⟩, ⟨.colonColon, "::", ⟨1, 12⟩⟩,
    ⟨.identifier, "String", ⟨1, 14⟩⟩, ⟨.rparen, ")", ⟨1, 20⟩⟩]

/-- The colon behind the name of a parameter and the path behind it are written as three colons,
which are cut apart the other way round. -/
theorem parseType_verbatim_functionOfGlobalPath :
    let text := "fn(x :::std::String)"
    (outcome (parseType (.eof ⟨1, 21⟩) functionOfGlobalPath) = .ok (.verbatim text, []) ∧
      ∀ t ∈ functionOfGlobalPath, t.piece.Plain) ∧
    piecesOf (tokenize text).tokens ≠ piecesOf functionOfGlobalPath := by
  intro text
  have hread : outcome (parseType (.eof ⟨1, 21⟩) functionOfGlobalPath) =
      .ok (.verbatim text, []) := (outcome_parseType_verbatim _ rfl _).trans rfl
  have hplain : ∀ t ∈ functionOfGlobalPath, t.piece.Plain := by
    simp only [functionOfGlobalPath, List.forall_mem_cons, List.not_mem_nil, false_implies,
      implies_true, and_true]
    have hword {text : List Char} (h : Piece.isWord text) := Piece.Plain.word h
    have hmark {c : Char} (h : isMark c) := Piece.Plain.mark h
    have hpair := @Piece.Plain.pair ':' ':' _ rfl
    exact ⟨@hword "fn".toList (by decide), @hmark '(' (by decide), @hword ['x'] (by decide),
      @hmark ':' (by decide), hpair, @hword "std".toList (by decide), hpair,
      @hword "String".toList (by decide), @hmark ')' (by decide)⟩
  obtain ⟨before, kept, after, hstretch, -, hall, hiff⟩ := parseType_verbatim_iff hread
  obtain ⟨rfl, rfl⟩ := hall rfl
  have hkept : functionOfGlobalPath = kept := by simpa using hstretch.split
  subst hkept
  have hfuses : Fuses (piecesOf functionOfGlobalPath) :=
    ⟨_, .colons, (piecesOf functionOfGlobalPath).take 3, (piecesOf functionOfGlobalPath).drop 5,
      rfl⟩
  exact ⟨⟨hread, hplain⟩, fun heq => (hiff hplain).1 heq hfuses⟩

end Rust
end Ferrotype
