/-
# The nested form

The argument `rename(serialize = "a", deserialize = "b")` gives a name for each direction. It is
read as the text of its tokens (`Rust.readsArgument_group`), and in this text a name is searched:
what stands between quotes behind the first word `serialize` with an equals sign.

The search knows neither literals nor escapes. It finds a literal as it is written, with the
backslashes of its escapes; it passes over a literal with a line that goes on behind a backslash;
and a literal that ends in `serialize =` is taken for the key, so that the text up to the next quote
is found. `serialized?_join` says what is found for any number of names, and `nested_gives_written`
what the attributes with one or two names give.
-/

import Ferrotype.Proofs.Rust.Parse.Skipped
import Ferrotype.Proofs.Serde.Directive

namespace Ferrotype

/-! ## Groups as values -/

namespace Rust

/-- Tokens that open and close nothing are nested. -/
theorem Nested.of_forall {ts : List Token}
    (h : ∀ t ∈ ts, t.kind.opens = false ∧ t.kind.closes = false) : Nested ts := by
  induction ts with
  | nil => exact .nil
  | cons t ts ih =>
    obtain ⟨⟨hopens, hcloses⟩, hts⟩ := List.forall_mem_cons.1 h
    exact .plain hopens hcloses (ih hts)

/-- The text of a group is that of the tokens inside it. -/
theorem groupText_append (u v : Token) (inner us : List Token) :
    groupText (u :: (inner ++ v :: us)) us = Text.join " " (inner.map (·.text)) := by
  have hlength : (u :: (inner ++ v :: us)).length - us.length = (u :: (inner ++ [v])).length := by
    simp only [List.length_cons, List.length_append, List.length_nil]
    omega
  have hsplit : u :: (inner ++ v :: us) = (u :: (inner ++ [v])) ++ us := by simp
  rw [groupText, hlength, hsplit, List.take_left, List.drop_one, List.tail_cons,
    List.dropLast_concat]

/-- A group without brackets in it is the value of the argument before it. -/
theorem readsArgument_group (eof : Token) (key : String) {ps : List Piece}
    (h : ∀ p ∈ ps, p.kind.opens = false ∧ p.kind.closes = false) :
    ReadsArgument eof (Piece.name key :: Piece.mark .lparen :: (ps ++ [Piece.mark .rparen]))
      ⟨key, some (Text.join " " (ps.map (·.text)))⟩ := by
  intro ts rest hts _
  have hparts : [key] ≠ [] := List.cons_ne_nil _ _
  obtain ⟨t, us, rfl, hkind, -, -⟩ := exists_cons_of_piecesOf hts
  obtain ⟨hpath, hleft⟩ := path_of_piecesOf hparts hts Kind.noConfusion
  obtain ⟨u, vs, hpathRest, hu, hvs⟩ := exists_mark_of_piecesOf hleft
  obtain ⟨inner, ws, rfl, rfl, hws⟩ :=
    List.map_eq_append_iff.1 (hvs.trans (List.append_assoc ps _ rest))
  obtain ⟨v, zs, rfl, hv, hzs⟩ := exists_mark_of_piecesOf hws
  have hdrop : dropUnit (u :: (inner ++ v :: zs)) = zs :=
    dropUnit_group (by rw [hu, hv]; rfl)
      (Nested.of_forall fun t ht => h t.piece (List.mem_map_of_mem ht)) zs
  have hafter : argumentAfter eof [key] (u :: (inner ++ v :: zs)) =
      .ok (⟨pathText [key], some (Text.join " " (inner.map (·.text)))⟩, zs) := by
    rw [argumentAfter, if_neg (kind_ne_of_eq hu Kind.noConfusion), if_pos hu, hdrop,
      groupText_append]
  rw [← hpathRest, ← hpath] at hafter
  obtain ⟨p, hp, hvalue, hend⟩ := argument_of_argumentAfter eof
    (kind_ne_of_eq hkind Kind.noConfusion) hafter
  refine ⟨t, us, p, rfl, hkind, hp, ?_, ?_⟩
  · rw [hvalue, hpath, List.map_map]
    rfl
  · rw [hend, hzs]
    rfl

end Rust

namespace Serde

open Rust (CutInto Escaped Piece Preamble Reads Spells)
open Unicode (isBlank trimStart)

/-! ## Between quotes -/

/-- What can stand between quotes: a quote in it has a backslash before it. -/
inductive Quotable : List Char → Prop
  | nil : Quotable []
  | plain {c : Char} {body : List Char} (hquote : c ≠ '"') (hbackslash : c ≠ '\\')
    (h : Quotable body) : Quotable (c :: body)
  | escape (c : Char) {body : List Char} (h : Quotable body) : Quotable ('\\' :: c :: body)

/-- Whether a line ends behind a backslash. -/
def isContinued : List Char → Bool
  | '\\' :: c :: cs => c == '\n' || isContinued cs
  | _ :: cs => isContinued cs
  | [] => false

/-- A character other than a backslash continues no literal. -/
theorem isContinued_cons {c : Char} (h : c ≠ '\\') (cs : List Char) :
    isContinued (c :: cs) = isContinued cs := by
  rw [isContinued]
  exact fun _ _ hc _ => h hc

/-- Without backslashes no line is continued. -/
theorem isContinued_eq_false {body : List Char} (h : '\\' ∉ body) : isContinued body = false := by
  induction body with
  | nil => rfl
  | cons c body ih =>
    rw [List.mem_cons, not_or] at h
    rw [isContinued_cons (Ne.symm h.1), ih h.2]

/-- Characters that need no escape can stand in front of a body. -/
theorem Quotable.append_plain {xs body : List Char} (hxs : ∀ x ∈ xs, x ≠ '"' ∧ x ≠ '\\')
    (h : Quotable body) : Quotable (xs ++ body) := by
  induction xs with
  | nil => exact h
  | cons x xs ih =>
    obtain ⟨⟨hquote, hbackslash⟩, hxs⟩ := List.forall_mem_cons.1 hxs
    exact .plain hquote hbackslash (ih hxs)

/-- A body with its escapes can stand between quotes. -/
theorem Quotable.of_escaped {body text : List Char} (h : Escaped body text) : Quotable body := by
  induction h with
  | nil => exact .nil
  | plain hquote hbackslash _ ih => exact .plain hquote hbackslash ih
  | letter _ _ ih => exact .escape _ ih
  | @ascii high low c body _ hdigits _ _ _ ih =>
    exact .escape _ (.append_plain (fun d hd => Rust.ne_quote_of_digit (.inl (hdigits d hd))) ih)
  | @codePoint digits c body _ hdigits _ _ _ ih =>
    have hdigits := Quotable.append_plain (fun d hd => Rust.ne_quote_of_digit (hdigits d hd))
      (Quotable.plain (c := '\x7d') (by decide) (by decide) ih)
    exact .escape _ (.plain (by decide) (by decide) hdigits)
  | nextLine hlayout _ _ ih =>
    exact .escape _ (.append_plain (fun d hd => Rust.ne_quote_of_isLayout (hlayout d hd)) ih)

/-- What stands between quotes is found up to the quote that closes it, unless a line in it is
continued. -/
theorem quotedValue?_append {body : List Char} (h : Quotable body) (rest : List Char) :
    quotedValue? (body ++ '"' :: rest) = if isContinued body then none else some body := by
  induction h with
  | nil => rfl
  | @plain c body hquote hbackslash _ ih =>
    have hstep : quotedValue? (c :: (body ++ '"' :: rest)) =
        (quotedValue? (body ++ '"' :: rest)).map (c :: ·) := by
      rw [quotedValue?]
      · exact fun h => hquote h
      · exact fun h _ => hbackslash h
      · exact fun _ _ h _ => hbackslash h
    rw [List.cons_append, hstep, ih, isContinued_cons hbackslash]
    split <;> rfl
  | @escape c body _ ih =>
    rw [List.cons_append, List.cons_append, quotedValue?, ih, isContinued]
    by_cases hc : c = '\n'
    · simp [hc]
    · rw [if_neg hc, beq_eq_false_iff_ne.2 hc, Bool.false_or]
      split <;> rfl

/-! ## The search -/

/-- Texts in which a quote stands behind a backslash or at the start only. -/
def IsGuarded (cs : List Char) : Prop := ∀ c, [c, '"'] <:+: cs → c = '\\'

/-- What ends a guarded text is guarded. -/
theorem IsGuarded.of_suffix {cs ds : List Char} (h : IsGuarded cs) (hds : ds <:+ cs) :
    IsGuarded ds :=
  fun c hc => h c (hc.trans hds.isInfix)

/-- A body starts with no quote. -/
theorem Quotable.not_prefix {body : List Char} (h : Quotable body) : ¬ ['"'] <+: body := by
  rintro ⟨rest, rfl⟩
  cases h with
  | plain hquote => exact hquote rfl

/-- Every quote of a body stands behind a backslash. -/
theorem Quotable.isGuarded {body : List Char} (h : Quotable body) : IsGuarded body := by
  induction h with
  | nil => exact fun c hc => by simpa using List.IsInfix.length_le hc
  | plain _ _ h ih =>
    intro d hd
    rcases List.infix_cons_iff.1 hd with hprefix | hinner
    · exact absurd (List.cons_prefix_cons.1 hprefix).2 h.not_prefix
    · exact ih d hinner
  | escape _ h ih =>
    intro d hd
    rcases List.infix_cons_iff.1 hd with hprefix | hinner
    · exact (List.cons_prefix_cons.1 hprefix).1
    · rcases List.infix_cons_iff.1 hinner with hprefix | hinner
      · exact absurd (List.cons_prefix_cons.1 hprefix).2 h.not_prefix
      · exact ih d hinner

/-- The blanks in front of two texts are those of the first one, unless it is blank. -/
theorem trimStart_append (cs ds : List Char) :
    trimStart (cs ++ ds) =
      if (trimStart cs).isEmpty then trimStart ds else trimStart cs ++ ds :=
  List.dropWhile_append

/-- Only a backslash stands before a quote, so white space leads to none. -/
theorem trimStart_ne_quote {cs : List Char} {c : Char} (hc : c ≠ '\\') (h : IsGuarded (c :: cs))
    (rest : List Char) : trimStart cs ≠ '"' :: rest := by
  induction cs generalizing c with
  | nil => exact (List.cons_ne_nil _ _).symm
  | cons d cs ih =>
    rw [trimStart]
    by_cases hd : isBlank d
    · rw [List.dropWhile_cons_of_pos hd]
      refine ih ?_ (h.of_suffix (List.suffix_cons c _))
      rintro rfl
      exact absurd hd (by decide)
    · rw [List.dropWhile_cons_of_neg hd]
      rintro ⟨⟩
      exact hc (h c ⟨[], rest, rfl⟩)

/-- Whether a text is an equals sign between white space. -/
def isAssignment (cs : List Char) : Bool :=
  match trimStart cs with
  | '=' :: rest => (trimStart rest).isEmpty
  | _ => false

/-- In front of a quote a value is written if and only if the text is an assignment. -/
theorem valueBehind?_append_quote {cs : List Char} (h : IsGuarded cs) (tail : List Char) :
    valueBehind? (cs ++ '"' :: tail) = if isAssignment cs then quotedValue? tail else none := by
  have hquote : trimStart ('"' :: tail) = '"' :: tail := rfl
  rw [valueBehind?, isAssignment, trimStart_append]
  cases hcs : trimStart cs with
  | nil =>
    rw [List.isEmpty_nil, if_pos rfl, hquote]
    rfl
  | cons c rest =>
    rw [List.isEmpty_cons, if_neg Bool.false_ne_true, List.cons_append]
    by_cases hc : c = '='
    · subst hc
      have hsuffix : '=' :: rest <:+ cs := hcs ▸ List.dropWhile_suffix _
      simp only [trimStart_append]
      cases hinner : trimStart rest with
      | nil =>
        rw [List.isEmpty_nil, if_pos rfl, hquote]
        rfl
      | cons d more =>
        have hd : d ≠ '"' := by
          rintro rfl
          exact trimStart_ne_quote (by decide) (h.of_suffix hsuffix) _ hinner
        simp [hd]
    · simp [hc]

/-- A key that does not hold a character is found or not in front of it. -/
theorem isPrefixOf_append_cons {key : List Char} {d : Char} (hd : d ∉ key) (cs tail : List Char) :
    key.isPrefixOf (cs ++ d :: tail) = key.isPrefixOf cs := by
  induction key generalizing cs with
  | nil => rfl
  | cons k key ih =>
    rw [List.mem_cons, not_or] at hd
    cases cs with
    | nil => simp [List.isPrefixOf, Ne.symm hd.1]
    | cons c cs =>
      rw [List.cons_append, List.isPrefixOf_cons_cons, List.isPrefixOf_cons_cons, ih hd.2]

/-- Whether the key stands at a place in a text, given the character before. -/
def isKeyAt (before : Option Char) (cs : List Char) : Bool :=
  !before.any isKeyChar && serializeKey.isPrefixOf cs

/-- The search finds a value behind the key where it stands, or goes on. -/
theorem serialized?_cons (before : Option Char) (c : Char) (cs : List Char) :
    serialized? before (c :: cs) =
      (if isKeyAt before (c :: cs) then valueBehind? ((c :: cs).drop serializeKey.length)
        else none).or (serialized? (some c) cs) := by
  rw [serialized?, isKeyAt]
  split <;> rename_i h <;> rw [h] <;> rfl

/-- Whether the last word of a text, in front of a quote, is the key with an equals sign. -/
def endsInKey : Option Char → List Char → Bool
  | _, [] => false
  | before, c :: cs =>
    isKeyAt before (c :: cs) && isAssignment ((c :: cs).drop serializeKey.length) ||
      endsInKey (some c) cs

/-- **The search passes over what stands in front of a quote**, unless that ends in the key: then
the quote opens a value. -/
theorem serialized?_append_quote {cs : List Char} (h : IsGuarded cs) (before : Option Char)
    (tail : List Char) :
    serialized? before (cs ++ '"' :: tail) =
      (if endsInKey before cs then quotedValue? tail else none).or
        (serialized? (some '"') tail) := by
  induction cs generalizing before with
  | nil =>
    have hkey : isKeyAt before ('"' :: tail) = false := Bool.and_false _
    rw [List.nil_append, serialized?_cons, hkey]
    rfl
  | cons c cs ih =>
    have hkey : isKeyAt before (c :: (cs ++ '"' :: tail)) = isKeyAt before (c :: cs) :=
      congrArg (!before.any isKeyChar && ·) (isPrefixOf_append_cons (by decide) (c :: cs) tail)
    rw [List.cons_append, serialized?_cons, ih (h.of_suffix (List.suffix_cons c cs)), endsInKey,
      hkey]
    cases hhere : isKeyAt before (c :: cs) with
    | false => rfl
    | true =>
      have hlength := (List.isPrefixOf_iff_prefix.1 (Bool.and_eq_true_iff.1 hhere).2).length_le
      have hdrop : (c :: (cs ++ '"' :: tail)).drop serializeKey.length =
          (c :: cs).drop serializeKey.length ++ '"' :: tail := by
        rw [← List.cons_append, List.drop_append_of_le_length hlength]
      rw [if_pos rfl, hdrop, valueBehind?_append_quote (h.of_suffix (List.drop_suffix _ _)),
        Bool.true_and]
      cases isAssignment ((c :: cs).drop serializeKey.length) with
      | false => rfl
      | true =>
        rw [if_pos rfl, Bool.true_or, if_pos rfl]
        cases quotedValue? tail <;> simp

/-! ## String literals -/

/-- The text of a string token, given what stands between its quotes. -/
def quoted (body : List Char) : String := String.ofList ('"' :: (body ++ ['"']))

/-- A string literal: how it stands in the source, what stands between the quotes of its token, and
the string it stands for. -/
structure StringLiteral where
  source : String
  body : List Char
  value : String
  cut : CutInto source.toList [⟨.string, quoted body⟩]
  escaped : Escaped body value.toList

/-- Every spelling of a value is that of a literal. -/
theorem exists_stringLiteral {literal value : String} (h : Spells literal.toList value) :
    ∃ l : StringLiteral, l.source = literal ∧ l.value = value := by
  obtain ⟨body, hcut, hescaped⟩ := h.exists_body
  exact ⟨⟨literal, body, value, hcut, hescaped⟩, rfl, rfl⟩

/-- The source of a literal determines its token. -/
theorem StringLiteral.body_eq (l : StringLiteral) {body : List Char}
    (h : CutInto l.source.toList [⟨.string, quoted body⟩]) : l.body = body := by
  have htoken := List.append_cancel_right ((l.cut []).symm.trans (h []))
  have hquoted := String.ofList_injective (Piece.mk.inj (List.cons.inj htoken).1).2
  exact List.append_cancel_right (List.cons.inj hquoted).2

/-! ## The text of the nested form -/

/-- The words of the nested form. -/
inductive Direction
  | serialize | deserialize
deriving DecidableEq

/-- How a direction is written. -/
def Direction.word : Direction → String
  | serialize => "serialize"
  | deserialize => "deserialize"

namespace StringLiteral

/-- What is found in a literal behind the key: what is written in it, if no line is continued. -/
def written? (l : StringLiteral) : Option String :=
  if isContinued l.body then none else some (String.ofList l.body)

/-- What is found behind a literal that ends in the key, up to the quote that opens the next one. -/
def before? (l : StringLiteral) (next : Direction) : Option String :=
  if endsInKey (some '"') l.body then some (" , " ++ next.word ++ " = ") else none

/-- What is found is the string that the literal stands for if and only if the literal has no
escape. -/
theorem written?_eq_some_iff (l : StringLiteral) :
    l.written? = some l.value ↔ '\\' ∉ l.body := by
  rw [← l.escaped.eq_iff, written?]
  constructor
  · intro h
    split at h
    · cases h
    · rw [← Option.some.inj h, String.toList_ofList]
  · intro h
    rw [isContinued_eq_false (l.escaped.eq_iff.1 h), h]
    simp

end StringLiteral

/-- A name for one direction. -/
structure Part where
  direction : Direction
  literal : StringLiteral

namespace Part

/-- How a part stands in the source. -/
def source (p : Part) : Direction × String := (p.direction, p.literal.source)

/-- The text of the tokens of a part. -/
def text (p : Part) : String := p.direction.word ++ " = " ++ quoted p.literal.body

/-- What is written in a part for the direction that is searched. -/
def written? (p : Part) : Option String :=
  if p.direction = .serialize then p.literal.written? else none

/-- The value that is found in the nested form. -/
def found? : List Part → Option String
  | [] => none
  | [p] => p.written?
  | p :: next :: parts =>
    p.written?.or ((p.literal.before? next.direction).or (found? (next :: parts)))

end Part

/-- The search passes over a word and reads the value behind the key. -/
theorem serialized?_word {before : Option Char} (hbefore : before.any isKeyChar = false)
    (d : Direction) (cs : List Char) :
    serialized? before (d.word.toList ++ " = \"".toList ++ cs) =
      (if d = .serialize then quotedValue? cs else none).or (serialized? (some '"') cs) := by
  cases d with
  | serialize =>
    have hkey : isKeyAt before ('s' :: ("erialize = \"".toList ++ cs)) = true := by
      rw [isKeyAt, hbefore]
      rfl
    have hstep := serialized?_cons before 's' ("erialize = \"".toList ++ cs)
    rw [hkey] at hstep
    exact hstep
  | deserialize =>
    have hkey : isKeyAt before ('d' :: ("eserialize = \"".toList ++ cs)) = false :=
      Bool.and_false _
    have hstep := serialized?_cons before 'd' ("eserialize = \"".toList ++ cs)
    rw [hkey] at hstep
    exact hstep

/-- The value is that of the part, one found inside its literal, or one of a later part, in this
order. -/
theorem serialized?_part {before : Option Char} (hbefore : before.any isKeyChar = false)
    (p : Part) (tail : List Char) :
    (serialized? before (p.text.toList ++ tail)).map String.ofList =
      p.written?.or (((if endsInKey (some '"') p.literal.body then quotedValue? tail else none).map
        String.ofList).or ((serialized? (some '"') tail).map String.ofList)) := by
  have hquotable := Quotable.of_escaped p.literal.escaped
  have htext : p.text.toList ++ tail =
      p.direction.word.toList ++ " = \"".toList ++ (p.literal.body ++ '"' :: tail) := by
    simp [Part.text, quoted]
  rw [htext, serialized?_word hbefore, quotedValue?_append hquotable,
    serialized?_append_quote hquotable.isGuarded, Option.map_or, Option.map_or, Part.written?,
    StringLiteral.written?]
  congr 1
  cases p.direction <;> cases isContinued p.literal.body <;> rfl

/-- Behind a quote the next one is the quote that opens the value of the next part. -/
theorem quotedValue?_part (p : Part) (tail : List Char) :
    quotedValue? (" , ".toList ++ (p.text.toList ++ tail)) =
      some (" , " ++ p.direction.word ++ " = ").toList := by
  have htext : p.text.toList = p.direction.word.toList ++ " = \"".toList ++
      (p.literal.body ++ ['"']) := by
    simp [Part.text, quoted]
  rw [htext]
  cases p.direction <;> rfl

/-- The text of the nested form starts with that of its first part. -/
theorem exists_join_eq (p : Part) (parts : List Part) :
    ∃ tail, (Text.join " , " ((p :: parts).map Part.text)).toList = p.text.toList ++ tail := by
  cases parts with
  | nil => exact ⟨[], (List.append_nil _).symm⟩
  | cons next parts =>
    rw [List.map_cons, List.map_cons, Text.join_cons_cons, String.append_assoc,
      String.toList_append]
    exact ⟨_, rfl⟩

/-- **What the search finds in the nested form.** -/
theorem serialized?_join (p : Part) (parts : List Part) {before : Option Char}
    (hbefore : before.any isKeyChar = false) :
    (serialized? before (Text.join " , " ((p :: parts).map Part.text)).toList).map String.ofList =
      Part.found? (p :: parts) := by
  induction parts generalizing p before with
  | nil =>
    have hpart := serialized?_part hbefore p []
    rw [List.append_nil] at hpart
    rw [List.map_singleton, Text.join_singleton, hpart]
    simp [Part.found?, quotedValue?, serialized?]
  | cons next parts ih =>
    have htext : (Text.join " , " ((p :: next :: parts).map Part.text)).toList = p.text.toList ++
        (" , ".toList ++ (Text.join " , " ((next :: parts).map Part.text)).toList) := by
      simp [Text.join_cons_cons]
    obtain ⟨tail, htail⟩ := exists_join_eq next parts
    have hskip (cs : List Char) :
        serialized? (some '"') (" , ".toList ++ cs) = serialized? (some ' ') cs := rfl
    rw [htext, serialized?_part hbefore, hskip, ih next (by decide), htail, quotedValue?_part,
      Part.found?, StringLiteral.before?]
    congr 2
    split
    · rw [Option.map_some, String.ofList_toList]
    · rfl

/-! ## The nested form in a source -/

/-- A literal behind the word of its direction. -/
def sourceText (name : Direction × String) : String := name.1.word ++ " = " ++ name.2

/-- The text of an attribute in the nested form. -/
def nestedText (key : String) (names : List (Direction × String)) : String :=
  "#[serde(" ++ key ++ "(" ++ Text.join ", " (names.map sourceText) ++ "))]"

example : nestedText "rename" [(.serialize, "\"a\""), (.deserialize, "\"b\"")] =
    "#[serde(rename(serialize = \"a\", deserialize = \"b\"))]" := rfl

namespace Part

/-- The pieces of a part. -/
def pieces (p : Part) : List Piece :=
  [Piece.name p.direction.word, Piece.mark .eq, ⟨.string, quoted p.literal.body⟩]

/-- A part is cut into its pieces. -/
theorem cutInto (p : Part) : CutInto (sourceText p.source).toList p.pieces := by
  have hword : Piece.isName p.direction.word := by cases p.direction <;> decide
  have hblank : CutInto [' '] [] := .layout (List.forall_mem_singleton.2 (by decide))
  have heq : CutInto "= ".toList [Piece.mark .eq] :=
    .spelling (p := Piece.mark .eq) (Piece.legible_mark (by decide))
  have htext : (sourceText p.source).toList =
      p.direction.word.toList ++ ([' '] ++ ("= ".toList ++ p.literal.source.toList)) := by
    simp [source, sourceText, String.toList_append]
  rw [htext]
  exact CutInto.name hword (by decide) (hblank.append (heq.append p.literal.cut))

end Part

/-- Parts with commas between them are cut into their pieces. The induction is on the parts. -/
theorem cutInto_separated (parts : List Part) :
    CutInto (Text.join ", " ((parts.map Part.source).map sourceText)).toList
      (Piece.separated Part.pieces parts) := by
  have hcomma : CutInto [','] [Piece.mark .comma] := .mark (by decide)
  have hblank : CutInto [' '] [] := .layout (List.forall_mem_singleton.2 (by decide))
  fun_induction Piece.separated Part.pieces parts with
  | case1 => exact .nil
  | case2 p => exact p.cutInto
  | case3 p next parts ih =>
    have htext : (Text.join ", " (((p :: next :: parts).map Part.source).map sourceText)).toList =
        (sourceText p.source).toList ++ ([','] ++ ([' '] ++
          (Text.join ", " (((next :: parts).map Part.source).map sourceText)).toList)) := by
      simp [Text.join_cons_cons]
    rw [htext]
    exact p.cutInto.append (hcomma.append (hblank.append ih))

/-- The text of the tokens of the nested form, with blanks between them. -/
theorem join_text_separated (parts : List Part) :
    Text.join " " ((Piece.separated Part.pieces parts).map (·.text)) =
      Text.join " , " (parts.map Part.text) := by
  have htexts (p : Part) :
      p.pieces.map (·.text) = [p.direction.word, "=", quoted p.literal.body] := rfl
  fun_induction Piece.separated Part.pieces parts with
  | case1 => rfl
  | case2 p =>
    rw [htexts, List.map_singleton, Text.join_singleton, ← String.toList_inj]
    simp [Part.text, Text.join_cons_cons]
  | case3 p next parts ih =>
    obtain ⟨texts, hnext⟩ : ∃ texts, (Piece.separated Part.pieces (next :: parts)).map (·.text) =
        next.direction.word :: texts := by
      cases parts <;> exact ⟨_, rfl⟩
    have hcomma : (Piece.mark .comma).text = "," := rfl
    rw [List.map_cons, List.map_cons, Text.join_cons_cons, ← List.map_cons, ← ih,
      List.map_append, List.map_cons, hcomma, htexts, hnext, ← String.toList_inj]
    simp [Part.text, Text.join_cons_cons]

/-- No bracket stands in the nested form. -/
theorem plain_separated (parts : List Part) :
    ∀ p ∈ Piece.separated Part.pieces parts, p.kind.opens = false ∧ p.kind.closes = false := by
  have hpart (p : Part) : ∀ q ∈ p.pieces, q.kind.opens = false ∧ q.kind.closes = false := by
    simp [Part.pieces, Piece.name, Piece.mark, Rust.Kind.opens, Rust.Kind.closes]
  fun_induction Piece.separated Part.pieces parts with
  | case1 => exact List.forall_mem_nil _
  | case2 p => exact hpart p
  | case3 p next parts ih =>
    rw [List.forall_mem_append, List.forall_mem_cons]
    exact ⟨hpart p, ⟨rfl, rfl⟩, ih⟩

/-- An attribute that is written as a text gives a value for a key, or none: it is read in front of
the rest of a preamble, and where no other attribute of its name stands beside it, this is the value
that is taken. -/
def Gives (text key : String) (result : Option String) : Prop :=
  ∃ (ps : List Piece) (value : String), CutInto text.toList ps ∧
    (∀ {eof : Rust.Token} {qs rest : List Piece} {p : Preamble},
      Reads (Rust.preamble eof) qs p rest →
      Reads (Rust.preamble eof) (ps ++ qs)
        { p with attributes := directive key value :: p.attributes } rest) ∧
    ∀ attributes, IsDirected attributes key value →
      value? key (argumentsOf attributeName attributes) = result

/-- The value in effect is that of the first part that gives one. -/
theorem effectiveValue_join (p : Part) (parts : List Part) :
    effectiveValue (Text.join " , " ((p :: parts).map Part.text)) = Part.found? (p :: parts) := by
  have hnested : isNested (Text.join " , " ((p :: parts).map Part.text)).toList = true := by
    obtain ⟨tail, htail⟩ := exists_join_eq p parts
    rw [htail, Part.text, String.toList_append, String.toList_append]
    cases p.direction <;> rfl
  rw [effectiveValue, if_pos hnested]
  exact serialized?_join p parts rfl

/-- **The nested form gives what the search finds in it.** -/
theorem gives_nestedText {key : String} (hkey : Piece.isName key) (p : Part) (parts : List Part) :
    Gives (nestedText key ((p :: parts).map Part.source)) key (Part.found? (p :: parts)) := by
  refine ⟨attributePieces (Piece.name key :: Piece.mark .lparen ::
    (Piece.separated Part.pieces (p :: parts) ++ [Piece.mark .rparen])), _, ?_,
    fun hp => reads_preamble_directive (Rust.readsArgument_group _ key (plain_separated _)) hp,
    fun attributes h => ?_⟩
  · have hnames := cutInto_separated (p :: parts)
    generalize (p :: parts).map Part.source = names at hnames ⊢
    have hopen : CutInto ['('] [Piece.mark .lparen] := .mark (by decide)
    have hclose : CutInto [')'] [Piece.mark .rparen] := .mark (by decide)
    have htext : (nestedText key names).toList = "#[serde(".toList ++
        ((key.toList ++ (['('] ++ ((Text.join ", " (names.map sourceText)).toList ++ [')']))) ++
          ")]".toList) := by
      simp [nestedText, String.toList_append]
    rw [htext]
    exact cutInto_attribute (CutInto.name hkey (by decide)
      (hopen.append (hnames.append hclose)))
  · rw [value?_of_isDirected h, join_text_separated, effectiveValue_join]

/-! ## The four forms -/

/-- The keys that rename. -/
def renamingKeys : List String := ["rename", "rename_all"]

/-- **The nested form gives what is written in the literal, not the string it stands for.** What is
written in a literal that is serialized is its string if and only if it has no escape, and nothing
is found in it if a line in it is continued. A literal for the other direction behind it changes
nothing but what is found then: the text between the two, if the first one ends in the key. In front
of it, a literal that ends in the key gives this text, and any other one changes nothing. Alone it
gives nothing. -/
theorem nested_gives_written {key : String} (hkey : key ∈ renamingKeys)
    {literal other v w : String} (hliteral : Spells literal.toList v)
    (hother : Spells other.toList w) :
    ∃ l m : StringLiteral, (l.source = literal ∧ l.value = v) ∧ (m.source = other ∧ m.value = w) ∧
      Gives (nestedText key [(.serialize, literal)]) key l.written? ∧
      Gives (nestedText key [(.serialize, literal), (.deserialize, other)]) key
        (l.written?.or (l.before? .deserialize)) ∧
      Gives (nestedText key [(.deserialize, other), (.serialize, literal)]) key
        ((m.before? .serialize).or l.written?) ∧
      Gives (nestedText key [(.deserialize, other)]) key none ∧
      (l.written? = some v ↔ '\\' ∉ l.body) := by
  obtain ⟨l, rfl, rfl⟩ := exists_stringLiteral hliteral
  obtain ⟨m, rfl, rfl⟩ := exists_stringLiteral hother
  have hname : Piece.isName key := (by decide : ∀ key ∈ renamingKeys, Piece.isName key) key hkey
  have hgives (p : Part) (parts : List Part) := gives_nestedText hname p parts
  have hboth := hgives ⟨.serialize, l⟩ [⟨.deserialize, m⟩]
  have hnone : Part.found? [⟨.deserialize, m⟩] = none := rfl
  rw [Part.found?, hnone, Option.or_none] at hboth
  exact ⟨l, m, ⟨rfl, rfl⟩, ⟨rfl, rfl⟩, hgives ⟨.serialize, l⟩ [], hboth,
    hgives ⟨.deserialize, m⟩ [⟨.serialize, l⟩], hgives ⟨.deserialize, m⟩ [],
    l.written?_eq_some_iff⟩

/-- The backslash of an escaped quote stays in the name, and a literal that ends in the key is taken
for the key. -/
theorem nested_gives_written_escaped :
    "rename" ∈ renamingKeys ∧ Spells "\"a\\\"b\"".toList "a\"b" ∧
      Spells "\"serialize=\"".toList "serialize=" ∧
      Gives (nestedText "rename" [(.serialize, "\"a\\\"b\"")]) "rename" (some "a\\\"b") ∧
      Gives (nestedText "rename" [(.deserialize, "\"serialize=\""), (.serialize, "\"a\\\"b\"")])
        "rename" (some " , serialize = ") := by
  have hkey : "rename" ∈ renamingKeys := by decide
  have hliteral : Spells "\"a\\\"b\"".toList "a\"b" :=
    @Spells.ordinary "a\\\"b".toList "a\"b" (.plain (by decide) (by decide)
      (.letter (by decide) (.plain (by decide) (by decide) .nil)))
  have hother : Spells "\"serialize=\"".toList "serialize=" :=
    @Spells.ordinary _ "serialize=" (Rust.escaped_self (by simp))
  obtain ⟨l, m, ⟨hl, -⟩, ⟨hm, -⟩, hone, -, htwo, -⟩ := nested_gives_written hkey hliteral hother
  have hbody : l.body = "a\\\"b".toList :=
    l.body_eq (hl ▸ .of_first? fun rest => ⟨_, rfl, rfl⟩)
  have hbefore : m.body = "serialize=".toList :=
    m.body_eq (hm ▸ .of_first? fun rest => ⟨_, rfl, rfl⟩)
  have hwritten : l.written? = some "a\\\"b" := by
    rw [StringLiteral.written?, hbody]
    rfl
  have hends : m.before? .serialize = some " , serialize = " := by
    rw [StringLiteral.before?, hbefore]
    rfl
  rw [hwritten] at hone
  rw [hends, Option.some_or] at htwo
  exact ⟨hkey, hliteral, hother, hone, htwo⟩

end Serde
end Ferrotype
