/-
# Items that are skipped

Functions, implementations, traits, modules, imports, statics, foreign blocks and macro calls are
not read. Such an item is passed over up to a semicolon or through its first braces; if these are no
body, what stands behind them is passed over like an item of its own (`Passed.parseItems_dropItem`).
So it leaves no trace, and neither do its documentation, its attributes and its visibility.

There is one exception. `async`, `unsafe` and `extern` are identifiers, so behind `const` they are
taken for the name of a constant. A function whose qualifiers start in this way is an error for the
whole source (`parseItems_unhandled`).
-/

import Ferrotype.Proofs.Rust.Parse.Local
import Ferrotype.Proofs.Rust.Plain.Preamble

namespace Ferrotype
namespace Rust

/-! ## What is passed over -/

/-- An item from some place behind its start. Its braces are its end, or something follows them
that starts no declaration. -/
inductive Passed : List Token → Prop
  | semicolon {t : Token} (ht : t.kind = .semicolon) : Passed [t]
  | body {t u : Token} {inner : List Token} (ht : t.kind = .lbrace) (hu : u.kind = .rbrace)
      (hinner : Nested inner) : Passed (t :: (inner ++ [u]))
  | plain {t : Token} {ts : List Token} (hopens : t.kind.opens = false)
      (hcloses : t.kind.closes = false) (hsemicolon : t.kind ≠ .semicolon) (hts : Passed ts) :
      Passed (t :: ts)
  | group {t u : Token} {inner ts : List Token} (ht : t.kind ≠ .lbrace)
      (hcloser : t.kind.closer? = some u.kind) (hinner : Nested inner) (hts : Passed ts) :
      Passed (t :: (inner ++ u :: ts))
  | braces {t u : Token} {inner ts : List Token} (ht : t.kind = .lbrace) (hu : u.kind = .rbrace)
      (hinner : Nested inner) (hts : Passed ts) (hstart : startsDeclaration ts = false) :
      Passed (t :: (inner ++ u :: ts))

/-- A group is passed over with the bracket that closes it. -/
theorem dropUnit_group {t u : Token} {inner : List Token}
    (hcloser : t.kind.closer? = some u.kind) (hinner : Nested inner) (us : List Token) :
    dropUnit (t :: (inner ++ u :: us)) = us := by
  rw [dropUnit, if_pos (Kind.opens_of_closer? hcloser), closeGroup_eq_drop_fromCloser,
    hinner.fromCloser_append, fromCloser_close (Kind.closes_of_closer? hcloser)]
  rfl

namespace Passed

variable {ts : List Token}

/-- An item that is passed over has a token. -/
theorem ne_nil (h : Passed ts) : ts ≠ [] := by
  cases h <;> exact List.cons_ne_nil _ _

/-- Whatever follows it, it starts as it does. -/
theorem headKind_append (h : Passed ts) (ys : List Token) :
    headKind (ts ++ ys) = headKind ts := by
  cases h <;> rfl

/-- No token that follows decides whether a declaration starts. -/
theorem startsDeclaration_append (h : Passed ts) (ys : List Token) :
    startsDeclaration (ts ++ ys) = startsDeclaration ts := by
  cases h with
  | semicolon ht => simp [startsDeclaration, ht]
  | body ht _ _ => simp [startsDeclaration, ht]
  | plain _ _ _ hts => simp only [List.cons_append, startsDeclaration, hts.headKind_append]
  | @group t u inner ts ht hcloser hinner hts =>
    have hopens := Kind.opens_of_closer? hcloser
    have hconst : t.kind ≠ .const := by
      rintro h
      rw [h] at hopens
      cases hopens
    simp only [List.cons_append, startsDeclaration]
    cases hkind : t.kind <;> simp_all
  | braces ht _ _ _ _ => simp [startsDeclaration, ht]

/-- **What is passed over leaves no trace.** -/
theorem parseItems_dropItem (h : Passed ts) (eof : Token) (ys : List Token) :
    parseItems eof (dropItem (ts ++ ys)) = parseItems eof ys := by
  induction h with
  | semicolon ht => rw [List.singleton_append, dropItem, if_pos ht]
  | @body t u inner ht hu hinner =>
    have hcloser : t.kind.closer? = some u.kind := by rw [ht, hu]; rfl
    rw [List.cons_append, List.append_assoc, List.singleton_append, dropItem,
      if_neg (by simp [ht]), if_pos ht, dropUnit_group hcloser hinner, parseItems_dropIf_semicolon]
  | @plain t ts hopens hcloses hsemicolon _ ih =>
    have hbrace : t.kind ≠ .lbrace := by
      rintro h
      rw [h] at hopens
      cases hopens
    rw [List.cons_append, dropItem, if_neg hsemicolon, if_neg hbrace, if_neg (by simp [hcloses]),
      dropUnit, if_neg (by simp [hopens])]
    exact ih
  | @group t u inner ts ht hcloser hinner _ ih =>
    have hopens := Kind.opens_of_closer? hcloser
    have hkinds : t.kind ≠ .semicolon ∧ t.kind.closes = false := by
      revert hopens
      cases t.kind <;> simp [Kind.opens, Kind.closes]
    rw [List.cons_append, List.append_assoc, List.cons_append, dropItem, if_neg hkinds.1,
      if_neg ht, if_neg (by simp [hkinds.2]), dropUnit_group hcloser hinner]
    exact ih
  | @braces t u inner ts ht hu hinner hts hstart ih =>
    have hcloser : t.kind.closer? = some u.kind := by rw [ht, hu]; rfl
    rw [List.cons_append, List.append_assoc, List.cons_append, dropItem, if_neg (by simp [ht]),
      if_pos ht, dropUnit_group hcloser hinner, parseItems_dropIf_semicolon]
    -- Nothing is read behind the braces, so what stands there is passed over, too.
    rw [← hts.startsDeclaration_append ys] at hstart
    cases hbehind : ts ++ ys with
    | nil => exact absurd (List.append_eq_nil_iff.1 hbehind).1 hts.ne_nil
    | cons v vs =>
      rw [hbehind] at hstart ih
      rw [← Rust.parseItems_dropItem hstart]
      exact ih

end Passed

/-! ## Items that are not read -/

/-- Whether a token of the kind can stand before `fn`: `const`, the words `async`, `unsafe` and
`extern`, and the name of a binary interface. -/
def Kind.isQualifier : Kind → Bool
  | const | identifier | string => true
  | _ => false

/-- Whether a token of the kind starts an item other than a function that is not read: `impl`, a
word that is no keyword (`trait`, `mod`, `use`, `static`, `extern`, `unsafe`, the name of a macro),
or the path to a macro. -/
def Kind.startsOther : Kind → Bool
  | impl | identifier | colonColon => true
  | _ => false

/-- An item that is not read, behind its preamble and its visibility. -/
inductive Unhandled : List Token → Prop
  | function {qualifiers ts : List Token} {t : Token}
      (hqualifiers : ∀ q ∈ qualifiers, q.kind.isQualifier) (ht : t.kind = .fn) (hts : Passed ts) :
      Unhandled (qualifiers ++ t :: ts)
  | other {t : Token} {ts : List Token} (ht : t.kind.startsOther) (hts : Passed ts) :
      Unhandled (t :: ts)

/-- Whether an item is taken for a constant, by its first two tokens. -/
def IsMisread (body : List Token) : Prop :=
  headKind body = .const ∧ headKind (body.drop 1) = .identifier

namespace Unhandled

variable {body : List Token}

/-- A word in front of an item that is passed over is passed over with it. -/
theorem passed_word {t : Token} {ts : List Token}
    (ht : t.kind.isQualifier ∨ t.kind = .fn ∨ t.kind.startsOther) (hts : Passed ts) :
    Passed (t :: ts) := by
  have hkinds : t.kind.opens = false ∧ t.kind.closes = false ∧ t.kind ≠ .semicolon := by
    revert ht
    cases t.kind <;> simp [Kind.isQualifier, Kind.startsOther, Kind.opens, Kind.closes]
  exact .plain hkinds.1 hkinds.2.1 hkinds.2.2 hts

/-- An item that is not handled is passed over. -/
theorem passed (h : Unhandled body) : Passed body := by
  cases h with
  | @function qualifiers ts t hqualifiers ht hts =>
    induction qualifiers with
    | nil => exact passed_word (.inr (.inl ht)) hts
    | cons q qualifiers ih =>
      have hq := hqualifiers q List.mem_cons_self
      exact passed_word (.inl hq) (ih fun s hs => hqualifiers s (List.mem_cons_of_mem q hs))
  | other ht hts => exact passed_word (.inr (.inr ht)) hts

/-- It starts neither with what stands in front of items nor with a parenthesis, so a visibility in
front of it is read as one. -/
theorem exists_cons (h : Unhandled body) :
    ∃ t ts, body = t :: ts ∧ t.kind ∉ [Kind.doc, .hash, .pub, .lparen] := by
  cases h with
  | @function qualifiers ts t hqualifiers ht hts =>
    cases qualifiers with
    | nil => exact ⟨t, ts, rfl, by simp [ht]⟩
    | cons q qualifiers =>
      refine ⟨q, _, rfl, ?_⟩
      have hq := hqualifiers q List.mem_cons_self
      revert hq
      cases q.kind <;> simp [Kind.isQualifier]
  | @other t ts ht hts =>
    refine ⟨t, ts, rfl, ?_⟩
    revert ht
    cases t.kind <;> simp [Kind.startsOther]

/-- The only declaration for which an item that is not read can be taken is a constant. -/
theorem startsDeclaration_eq_false (h : Unhandled body) (hconst : ¬ IsMisread body) :
    startsDeclaration body = false := by
  cases h with
  | @function qualifiers ts t hqualifiers ht hts =>
    cases qualifiers with
    | nil => simp [startsDeclaration, ht]
    | cons q qualifiers =>
      have hq := hqualifiers q List.mem_cons_self
      revert hq hconst
      cases hkind : q.kind <;> simp [Kind.isQualifier, IsMisread, startsDeclaration, hkind]
  | @other t ts ht hts =>
    revert ht
    cases hkind : t.kind <;> simp [Kind.startsOther, startsDeclaration, hkind]

/-- Behind `const` and a word stands another qualifier or `fn`, but no colon. -/
theorem exists_of_isMisread {t : Token} {ts : List Token} (h : Unhandled (t :: ts))
    (hconst : IsMisread (t :: ts)) :
    ∃ name got rest, ts = name :: got :: rest ∧ t.kind = .const ∧ name.kind = .identifier ∧
      got.kind ≠ .colon := by
  obtain ⟨hkind, hname⟩ := hconst
  generalize hbody : t :: ts = body at h
  cases h with
  | @function qualifiers us fn hqualifiers hfn hus =>
    match qualifiers with
    | [] =>
      obtain ⟨rfl, rfl⟩ := List.cons.inj hbody
      exact absurd (hkind.symm.trans hfn) Kind.noConfusion
    | [c] =>
      obtain ⟨rfl, rfl⟩ := List.cons.inj hbody
      exact absurd (hname.symm.trans hfn) Kind.noConfusion
    | [c, name] =>
      obtain ⟨rfl, rfl⟩ := List.cons.inj hbody
      exact ⟨name, fn, us, rfl, hkind, hname, by simp [hfn]⟩
    | c :: name :: got :: rest =>
      obtain ⟨rfl, rfl⟩ := List.cons.inj hbody
      refine ⟨name, got, rest ++ fn :: us, rfl, hkind, hname, fun hcolon => ?_⟩
      have hgot := hqualifiers got (by simp)
      rw [hcolon] at hgot
      cases hgot
  | other ht hts =>
    obtain ⟨rfl, rfl⟩ := List.cons.inj hbody
    rw [headKind_cons] at hkind
    rw [hkind] at ht
    cases ht

end Unhandled

/-- A constant whose name no colon follows is an error. -/
theorem parseConst_of_no_colon {name got : Token} (hname : name.kind = .identifier)
    (hgot : got.kind ≠ .colon) (eof : Token) (p : Preamble) (ts : List Token) :
    parseConst eof p (name :: got :: ts) =
      .error (.expected .colon got (.afterConst name.text)) := by
  simp [parseConst, expect, hname, hgot, bind, Except.bind]

/-- **Items that are skipped leave no trace, but for functions that are taken for constants.** Let
an item that is not read stand between complete items and other tokens. Behind `const` and a word it
is an error for the whole source; in every other case all is read as if it were not there. -/
theorem parseItems_unhandled {eof eof' : Token} {xs : List Token} {items : List Item}
    (hnested : Nested xs) (hends : ∀ t ∈ xs.getLast?, t.kind = .semicolon ∨ t.kind = .rbrace)
    (hitems : parseItems eof xs = .ok items) {front vs body : List Token} {p : Preamble}
    (hfront : IsPreamble eof' front p) {v : Visibility} (hv : v.isWritable)
    (hvs : piecesOf vs = v.pieces) (hbody : Unhandled body) (ys : List Token) :
    let item := front ++ (vs ++ body)
    (¬ IsMisread body →
      parseItems eof' (xs ++ (item ++ ys)) = parseItems eof' (xs ++ ys) ∧
        parseItems eof' (xs ++ (item ++ ys)) = (parseItems eof' ys).map (items ++ ·)) ∧
    (IsMisread body → ∃ name got, body[1]? = some name ∧ body[2]? = some got ∧
      parseItems eof' (xs ++ (item ++ ys)) =
        .error (.expected .colon got (.afterConst name.text))) := by
  intro item
  have hlocal (ws : List Token) :
      parseItems eof' (xs ++ ws) = (parseItems eof' ws).map (items ++ ·) :=
    parseItems_continues eof' (.of_sealed (hnested.seals hends) ws) hitems
  have hitem : item ++ ys = front ++ (vs ++ (body ++ ys)) := by simp [item]
  rw [hlocal, hlocal, hitem]
  obtain ⟨t, ts, rfl, ht⟩ := hbody.exists_cons
  rw [List.cons_append, parseItems_of_isPreamble hfront hv hvs (ts ++ ys) ht]
  refine ⟨fun hread => ?_, fun hconst => ?_⟩
  · have hstart := hbody.startsDeclaration_eq_false hread
    rw [← hbody.passed.startsDeclaration_append ys, List.cons_append] at hstart
    have hskip := hbody.passed.parseItems_dropItem eof' ys
    rw [List.cons_append] at hskip
    simp only [parseItem_of_not_startsDeclaration hstart, bind, Except.bind, hskip, and_self]
  · obtain ⟨name, got, rest, rfl, ht, hname, hgot⟩ := hbody.exists_of_isMisread hconst
    have hitem : parseItem eof' p t (name :: got :: (rest ++ ys)) =
        .error (.expected .colon got (.afterConst name.text)) := by
      simp [parseItem, ht, hname, parseConst_of_no_colon hname hgot, Except.map]
    refine ⟨name, got, rfl, rfl, ?_⟩
    rw [List.cons_append, List.cons_append, hitem]
    rfl

/-- An unsafe function. -/
def unsafeFunction : List Token :=
  [⟨.identifier, "unsafe", ⟨3, 11⟩⟩, ⟨.fn, "fn", ⟨3, 18⟩⟩, ⟨.identifier, "f", ⟨3, 21⟩⟩,
    ⟨.lparen, "(", ⟨3, 22⟩⟩, ⟨.rparen, ")", ⟨3, 23⟩⟩, ⟨.lbrace, "\x7b", ⟨3, 25⟩⟩,
    ⟨.rbrace, "\x7d", ⟨3, 26⟩⟩]

/-- Between two structs an unsafe function with documentation and an attribute leaves no trace; one
that is constant, too, is an error. -/
theorem parseItems_unsafeFunction :
    let eof := Token.eof ⟨4, 10⟩
    let xs : List Token := [⟨.struct, "struct", ⟨1, 1⟩⟩, ⟨.identifier, "S", ⟨1, 8⟩⟩,
      ⟨.semicolon, ";", ⟨1, 9⟩⟩]
    let front : List Token := [⟨.doc, " Risky.", ⟨2, 1⟩⟩, ⟨.hash, "#", ⟨2, 12⟩⟩,
      ⟨.lbracket, "[", ⟨2, 13⟩⟩, ⟨.identifier, "cold", ⟨2, 14⟩⟩, ⟨.rbracket, "]", ⟨2, 18⟩⟩]
    let preamble : Preamble := ⟨["Risky."], [⟨"cold", []⟩]⟩
    let visible : List Token := [⟨.pub, "pub", ⟨3, 1⟩⟩]
    let const : Token := ⟨.const, "const", ⟨3, 5⟩⟩
    let ys : List Token := [⟨.struct, "struct", ⟨4, 1⟩⟩, ⟨.identifier, "T", ⟨4, 8⟩⟩,
      ⟨.semicolon, ";", ⟨4, 9⟩⟩]
    (Nested xs ∧ (∀ t ∈ xs.getLast?, t.kind = .semicolon ∨ t.kind = .rbrace) ∧
      parseItems eof xs = .ok [⟨"S", [], ⟨[], []⟩, .struct .unit []⟩] ∧
      IsPreamble eof front preamble ∧ Visibility.everywhere.isWritable ∧
      piecesOf visible = Visibility.everywhere.pieces ∧ Unhandled unsafeFunction ∧
      ¬ IsMisread unsafeFunction ∧ Unhandled (const :: unsafeFunction) ∧
      IsMisread (const :: unsafeFunction)) ∧
    parseItems eof (xs ++ ((front ++ (visible ++ unsafeFunction)) ++ ys)) =
      parseItems eof (xs ++ ys) ∧
    parseItems eof (xs ++ ((front ++ (visible ++ const :: unsafeFunction)) ++ ys)) =
      .error (.expected .colon ⟨.fn, "fn", ⟨3, 18⟩⟩ (.afterConst "unsafe")) := by
  intro eof xs front preamble visible const ys
  have hnested : Nested xs := .plain rfl rfl (.plain rfl rfl (.plain rfl rfl .nil))
  have hends : ∀ t ∈ xs.getLast?, t.kind = .semicolon ∨ t.kind = .rbrace := by simp [xs]
  have hitems : parseItems eof xs = .ok [⟨"S", [], ⟨[], []⟩, .struct .unit []⟩] := by cbv
  have hfront : IsPreamble eof front preamble :=
    .cons_doc rfl <| .cons_attribute rfl rfl (readsBody_word rfl rfl) (isPreamble_nil eof)
  have hvisible : piecesOf visible = Visibility.everywhere.pieces := rfl
  have hbody : Passed (unsafeFunction.drop 5) := @Passed.body _ _ [] rfl rfl .nil
  have hsignature : Passed (unsafeFunction.drop 2) :=
    .plain rfl rfl Kind.noConfusion (@Passed.group _ _ [] _ Kind.noConfusion rfl .nil hbody)
  have hfunction : Unhandled unsafeFunction :=
    @Unhandled.function (unsafeFunction.take 1) _ _ (by simp [unsafeFunction, Kind.isQualifier]) rfl
      hsignature
  have hconst : Unhandled (const :: unsafeFunction) :=
    @Unhandled.function (const :: unsafeFunction.take 1) _ _
      (by simp [unsafeFunction, const, Kind.isQualifier]) rfl hsignature
  have hread : ¬ IsMisread unsafeFunction := fun h => Kind.noConfusion h.1
  have hmisread : IsMisread (const :: unsafeFunction) := ⟨rfl, rfl⟩
  refine ⟨⟨hnested, hends, hitems, hfront, rfl, hvisible, hfunction, hread, hconst, hmisread⟩,
    ?_, ?_⟩
  · exact ((parseItems_unhandled hnested hends hitems hfront rfl hvisible hfunction ys).1 hread).1
  · obtain ⟨name, got, hname, hgot, herror⟩ :=
      (parseItems_unhandled hnested hends hitems hfront rfl hvisible hconst ys).2 hmisread
    cases hname
    cases hgot
    exact herror

end Rust
end Ferrotype
