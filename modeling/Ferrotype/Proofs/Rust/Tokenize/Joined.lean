/-
# Joined tokens that are read again

Types that are kept as text, and the lengths of arrays with them, are written token by token, with a
blank between two tokens unless one of them is tight on that side. Two tokens without a blank
between them are cut apart again unless the reader takes the longer token: `:` goes on with `::`,
`-` and `=` go on with `>`, and digits go on with a point and digits. Behind `::` the text counts as
tight even if a colon stands between, so that two colons there come to stand together. No other
tokens that stand next to each other are read as anything else
(`piecesOf_tokenize_textOf_iff`).
-/

import Ferrotype.Proofs.Rust.Canonical.Reads
import Ferrotype.Proofs.Rust.Tokenize.Plain
import Ferrotype.Rust.Parse.Span

namespace Ferrotype
namespace Rust

open Lexeme (isNumberDigit)

/-! ## What is written behind a text -/

/-- Whether a token is written without a blank behind a text. -/
def Attaches (text : List Char) (part : String) : Prop :=
  text = [] ∨ text = ['-'] ∨ part ∈ tightBefore ∨ tightAfter text.reverse

instance (text : List Char) (part : String) : Decidable (Attaches text part) :=
  inferInstanceAs (Decidable (_ ∨ _ ∨ _ ∨ _))

/-- What is written behind a text for more tokens. -/
def textBehind (text : List Char) : List Piece → List Char
  | [] => []
  | q :: qs =>
    if Attaches text q.text then q.text.toList ++ textBehind (text ++ q.text.toList) qs
    else ' ' :: (q.text.toList ++ textBehind (text ++ ' ' :: q.text.toList) qs)

/-- A part is written behind a text with a blank between them, unless it attaches to it. -/
theorem toList_appendToken (text part : String) :
    (appendToken text part).toList =
      text.toList ++ if Attaches text.toList part then part.toList else ' ' :: part.toList := by
  have hiff : (text ≠ "" ∧ text ≠ "-" ∧ part ∉ tightBefore ∧ ¬ tightAfter text.toList.reverse) ↔
      ¬ Attaches text.toList part := by
    simp only [Attaches, not_or, ne_eq, ← String.toList_inj]
    rfl
  rw [appendToken]
  simp only [hiff]
  split <;> simp_all

/-- Parts are written one behind the other. The induction is on them. -/
theorem toList_foldl_appendToken (ps : List Piece) (text : String) :
    ((ps.map (·.text)).foldl appendToken text).toList =
      text.toList ++ textBehind text.toList ps := by
  induction ps generalizing text with
  | nil => simp [textBehind]
  | cons q qs ih =>
    rw [List.map_cons, List.foldl_cons, ih, toList_appendToken, textBehind]
    split <;> simp

/-- The signs that have no blank behind them. -/
def tightMarks : List Char := ['(', '[', '<', '&', '*', '.', '!']

/-- The last character of a text decides whether it attaches what follows; of a colon there have to
be two. -/
theorem tightAfter_cons (c : Char) (cs : List Char) :
    tightAfter (c :: cs) = (tightMarks.contains c || c == ':' && cs.head? == some ':') := by
  unfold tightAfter
  split <;> simp_all [tightMarks, List.head?_eq_some_iff]

/-- The last token decides whether a text is tight, but for a colon behind a colon. -/
theorem tightAfter_append {pre text : List Char} (htext : text ≠ [])
    (h : tightAfter (pre ++ text).reverse) :
    tightAfter text.reverse ∨ text = [':'] ∧ pre.getLast? = some ':' := by
  obtain ⟨c, cs, hcs⟩ := List.exists_cons_of_ne_nil (List.reverse_ne_nil_iff.2 htext)
  rw [List.reverse_append, hcs, List.cons_append, tightAfter_cons] at h
  rw [hcs, tightAfter_cons]
  cases cs with
  | nil =>
    have htext : text = [c] := by rw [← List.reverse_reverse text, hcs, List.reverse_singleton]
    rw [List.nil_append, List.head?_reverse, Bool.or_eq_true, Bool.and_eq_true, beq_iff_eq,
      beq_iff_eq] at h
    exact h.imp (by simp) fun hcolon => ⟨by rw [htext, hcolon.1], hcolon.2⟩
  | cons d cs => exact .inl h

/-- What attaches to a text does so for its last part, for what stands before that, or for what
follows. -/
theorem attaches_append {pre text : List Char} (htext : text ≠ []) {part : String}
    (h : Attaches (pre ++ text) part) :
    text = ['-'] ∨ part ∈ tightBefore ∨ tightAfter text.reverse ∨
      text = [':'] ∧ pre.getLast? = some ':' := by
  obtain h | h | h | h := h
  · exact absurd (List.append_eq_nil_iff.1 h).2 htext
  · obtain ⟨-, h⟩ | ⟨-, h⟩ := List.append_eq_singleton_iff.1 h
    · exact .inl h
    · exact absurd h htext
  · exact .inr (.inl h)
  · exact .inr (.inr (tightAfter_append htext h))

/-- A colon attaches to a colon only if that has one in front of it. -/
theorem getLast?_of_attaches_colon {pre : List Char} (h : Attaches (pre ++ [':']) ":") :
    pre.getLast? = some ':' := by
  obtain h | h | h | ⟨-, hpre⟩ := attaches_append (List.cons_ne_nil _ _) h
  · cases h
  · exact absurd h (by decide)
  · cases h
  · exact hpre

/-- The signs with which the text behind a token starts that is not tight. -/
def stops : List Char := [' ', ',', ')', ']', '>', ';', ':', '(', '<', '!', '.']

/-- What holds of each of these signs. -/
theorem of_mem_stops (P : Char → Prop) [DecidablePred P] (h : stops.all fun d => P d) {d : Char}
    (hd : d ∈ stops) : P d :=
  of_decide_eq_true (List.all_eq_true.1 h d hd)

/-- What attaches to the text before it starts with a stop. -/
theorem mem_stops_of_mem_tightBefore {part : String} (h : part ∈ tightBefore) {d : Char}
    (hd : d ∈ part.toList.head?) : d ∈ stops := by
  have hall : ∀ part ∈ tightBefore, part.toList.head?.all stops.contains := by decide
  have hhead := hall part h
  rw [Option.mem_def.1 hd] at hhead
  exact List.contains_iff_mem.1 hhead

section TextBehind

variable {pre text : List Char} {ps : List Piece} (hps : ∀ q ∈ ps, q.Plain)
include hps

/-- What is written behind a text starts with a blank or with a token that attaches. -/
theorem exists_of_head?_textBehind {d : Char} (hd : d ∈ (textBehind text ps).head?) :
    d = ' ' ∨ ∃ q qs, ps = q :: qs ∧ Attaches text q.text ∧ d ∈ q.text.toList.head? ∧
      textBehind text ps = q.text.toList ++ textBehind (text ++ q.text.toList) qs := by
  cases ps with
  | nil => cases hd
  | cons q qs =>
    rw [textBehind] at hd ⊢
    by_cases hattach : Attaches text q.text
    · rw [if_pos hattach] at hd ⊢
      obtain ⟨c, cs, htext⟩ := (hps q List.mem_cons_self).exists_cons
      rw [htext] at hd
      cases hd
      exact .inr ⟨q, qs, rfl, hattach, by rw [htext]; rfl, rfl⟩
    · rw [if_neg hattach] at hd
      cases hd
      exact .inl rfl

/-- Behind a token that is not tight stands one of the signs that go on with no word. -/
theorem mem_stops_of_head?_textBehind (htext : text ≠ []) (htight : tightAfter text.reverse = false)
    (hcolon : text ≠ [':']) (hminus : text ≠ ['-']) {d : Char}
    (hd : d ∈ (textBehind (pre ++ text) ps).head?) : d ∈ stops := by
  obtain rfl | ⟨q, qs, rfl, hattach, hhead, -⟩ := exists_of_head?_textBehind hps hd
  · decide
  · obtain h | h | h | ⟨h, -⟩ := attaches_append htext hattach
    · exact absurd h hminus
    · exact mem_stops_of_mem_tightBefore h hhead
    · rw [htight] at h
      cases h
    · exact absurd h hcolon

/-- The same behind a word, a number or a literal. -/
theorem mem_stops_of_endsPlain (htext : text ≠ [])
    (hends : ∀ c ∈ text.getLast?, endsPlain c) {d : Char}
    (hd : d ∈ (textBehind (pre ++ text) ps).head?) : d ∈ stops := by
  obtain ⟨c, cs, hcs⟩ := List.exists_cons_of_ne_nil (List.reverse_ne_nil_iff.2 htext)
  have hc : text.getLast? = some c := by rw [← List.head?_reverse, hcs]; rfl
  have hplain := hends c hc
  have hnone : (':' :: '-' :: tightMarks).all (!endsPlain ·) := by decide
  have hne (x : Char) (hx : x ∈ ':' :: '-' :: tightMarks) : c ≠ x := by
    rintro rfl
    have hc := List.all_eq_true.1 hnone c hx
    rw [hplain] at hc
    cases hc
  have htight : tightAfter text.reverse = false := by
    have hmarks : c ∉ tightMarks := fun hmem => hne c (by simp [hmem]) rfl
    rw [hcs, tightAfter_cons]
    simp [hmarks, hne ':' (by simp)]
  refine mem_stops_of_head?_textBehind hps htext htight ?_ ?_ hd
  · rintro rfl
    exact hne ':' (by simp) (Option.some.inj hc).symm
  · rintro rfl
    exact hne '-' (by simp) (Option.some.inj hc).symm

end TextBehind

/-! ## Tokens that fuse -/

/-- Tokens that are read as others where they stand together. -/
inductive Fusing : List Piece → Prop
  | colons : Fusing [⟨.colon, ":"⟩, ⟨.colonColon, "::"⟩]
  | arrow : Fusing [⟨.minus, "-"⟩, ⟨.gt, ">"⟩]
  | fatArrow : Fusing [⟨.eq, "="⟩, ⟨.gt, ">"⟩]
  | path : Fusing [⟨.colonColon, "::"⟩, ⟨.colon, ":"⟩, ⟨.colon, ":"⟩]
  | fraction {whole part : String} (hwhole : whole.toList.all isNumberDigit)
      (hpart : part.toList.head?.any Char.isDigit) :
      Fusing [⟨.number, whole⟩, ⟨.dot, "."⟩, ⟨.number, part⟩]

/-- Whether tokens that fuse stand in front of others. -/
def FusesFirst (ps : List Piece) : Prop := ∃ fs, Fusing fs ∧ fs <+: ps

/-- Whether tokens that fuse stand somewhere among others. -/
def Fuses (ps : List Piece) : Prop := ∃ fs, Fusing fs ∧ fs <:+: ps

/-- Pieces fuse if the first of them do, or those behind the first one. -/
theorem fuses_cons_iff {p : Piece} {ps : List Piece} :
    Fuses (p :: ps) ↔ FusesFirst (p :: ps) ∨ Fuses ps := by
  simp only [Fuses, FusesFirst, List.infix_cons_iff, and_or_left, exists_or]

/-- Nothing fuses with nothing. -/
theorem not_fuses_nil : ¬ Fuses [] := by
  rintro ⟨fs, hfusing, hinfix⟩
  rw [List.infix_nil] at hinfix
  subst hinfix
  cases hfusing

/-- One piece has nothing to fuse with. -/
theorem not_fuses_singleton (p : Piece) : ¬ Fuses [p] := by
  rintro ⟨fs, hfusing, hinfix⟩
  have hlength := hinfix.length_le
  cases hfusing <;> simp at hlength

/-- Whether a colon behind another one is followed by no third one. It has no blank behind it, so it
would be read with that. -/
def EndsColons (pre : List Char) (p : Piece) (ps : List Piece) : Prop :=
  p.text = ":" → pre.getLast? = some ':' → ∀ q ∈ ps.head?, q.text ≠ ":"

/-! ## Tokens that are read -/

section Reading

variable {pre : List Char} {ps : List Piece} (hps : ∀ q ∈ ps, q.Plain)
include hps

/-- A word is read in front of what is written behind it. -/
theorem first?_word_textBehind {text : List Char} (h : Piece.isWord text) :
    Lexeme.first? (text ++ textBehind (pre ++ text) ps) =
      some (.whole (.token (Kind.ofWord text) text) text, textBehind (pre ++ text) ps) := by
  cases text with
  | nil => cases h
  | cons c cs =>
    have hends := endsPlain_of_all (all_of_isWord h)
    rw [Piece.isWord, Bool.and_eq_true] at h
    refine Piece.first?_of_word h.2 (fun d hd => ?_) h.1
    exact of_mem_stops (Piece.endsWord ·) (by decide)
      (mem_stops_of_endsPlain hps (List.cons_ne_nil c cs) hends hd)

/-- A lifetime is read in front of what is written behind it. -/
theorem first?_lifetime_textBehind {c : Char} {cs : List Char}
    (h : (c :: cs).all Unicode.isWordChar) :
    Lexeme.first? ('\'' :: c :: cs ++ textBehind (pre ++ '\'' :: c :: cs) ps) =
      some (.whole (.token .lifetime ('\'' :: c :: cs)) ('\'' :: c :: cs),
        textBehind (pre ++ '\'' :: c :: cs) ps) := by
  have hends : ∀ d ∈ ('\'' :: c :: cs).getLast?, endsPlain d := fun d hd => by
    rw [List.getLast?_cons_cons] at hd
    exact endsPlain_of_all h d hd
  exact first?_of_lifetime h fun d hd =>
    of_mem_stops (fun d => Unicode.isWordChar d = false ∧ d ≠ '\'') (by decide)
      (mem_stops_of_endsPlain hps (List.cons_ne_nil _ _) hends hd)

/-- A point behind a text is a token of its own. -/
theorem exists_of_point_textBehind {text : List Char} (hd : '.' ∈ (textBehind text ps).head?) :
    ∃ qs, ps = ⟨.dot, "."⟩ :: qs ∧ textBehind text ps = '.' :: textBehind (text ++ ['.']) qs := by
  obtain hd | ⟨q, qs, rfl, -, hhead, hbehind⟩ := exists_of_head?_textBehind hps hd
  · cases hd
  obtain rfl := (hps q List.mem_cons_self).eq_of_isMark_alone (by decide) (fun _ => rfl) hhead
  exact ⟨qs, rfl, hbehind⟩

/-- A number goes on only with a point that has a digit behind it. -/
theorem first?_number_textBehind {text : List Char} (h : isNumeral text)
    (hfusing : ¬ FusesFirst (⟨.number, String.ofList text⟩ :: ps)) :
    Lexeme.first? (text ++ textBehind (pre ++ text) ps) =
      some (.whole (.token .number text) text, textBehind (pre ++ text) ps) := by
  have hne : text ≠ [] := by
    rintro rfl
    cases h
  have hends := endsPlain_of_isNumeral h
  cases htail : textBehind (pre ++ text) ps with
  | nil => exact first?_of_isNumeral h rfl
  | cons d ds =>
    have hd : d ∈ (textBehind (pre ++ text) ps).head? := by rw [htail]; rfl
    have hmem := mem_stops_of_endsPlain hps hne hends hd
    by_cases hpoint : d = '.'
    · subst hpoint
      refine first?_of_isNumeral_point h fun hdigits e he => Bool.eq_false_iff.2 fun hdigit => ?_
      obtain ⟨qs, rfl, hbehind⟩ := exists_of_point_textBehind hps hd
      rw [hbehind] at htail
      obtain rfl := (List.cons.inj htail).2
      have hqs := fun q hq => hps q (List.mem_cons_of_mem _ hq)
      obtain rfl | ⟨r, rs, rfl, -, hhead, -⟩ := exists_of_head?_textBehind hqs he
      · cases hdigit
      · have hnumber : r = ⟨.number, r.text⟩ :=
          Piece.ext ((hqs r List.mem_cons_self).kind_of_isDigit (Unicode.isDigit_of_ascii hdigit)
            hhead) rfl
        have hpart : r.text.toList.head?.any Char.isDigit := by
          rw [Option.mem_def.1 hhead]
          exact hdigit
        rw [hnumber] at hfusing
        refine hfusing ⟨_, .fraction ?_ hpart, ⟨rs, rfl⟩⟩
        rwa [String.toList_ofList]
    · refine first?_of_isNumeral h ?_
      obtain ⟨hword, hplus, hminus⟩ :=
        of_mem_stops (fun d => d ≠ '.' → Unicode.isWordChar d = false ∧ d ≠ '+' ∧ d ≠ '-')
          (by decide) hmem hpoint
      simp [endsNumeral, hword, hpoint, hplus, hminus]

/-- A mark goes on only in a pair. -/
theorem first?_mark_textBehind {c : Char} (hc : isMark c)
    (hfusing : ¬ FusesFirst (⟨Kind.ofMark c, String.ofList [c]⟩ :: ps))
    (hcolon : EndsColons pre ⟨Kind.ofMark c, String.ofList [c]⟩ ps) :
    Lexeme.first? ([c] ++ textBehind (pre ++ [c]) ps) =
      some (.whole (.token (Kind.ofMark c) [c]) [c], textBehind (pre ++ [c]) ps) := by
  refine first?_of_isMark hc fun d hd => ⟨?_, ?_⟩
  · rw [Option.eq_none_iff_forall_ne_some]
    intro kind hkind
    have hpair := eq_of_ofPair? hkind
    obtain rfl | ⟨q, qs, rfl, hattach, hhead, -⟩ := exists_of_head?_textBehind hps hd
    · obtain ⟨-, h⟩ | ⟨-, h⟩ := hpair <;> cases h
    have hq := hps q List.mem_cons_self
    obtain ⟨rfl, rfl⟩ | ⟨hc, rfl⟩ := hpair
    · obtain rfl | ⟨d, paired, hpaired, rfl⟩ := hq.eq_of_isMark (by decide) hhead
      · exact hcolon rfl (getLast?_of_attaches_colon hattach) _ rfl rfl
      · obtain ⟨-, rfl⟩ | ⟨h | h, -⟩ := eq_of_ofPair? hpaired
        · cases hpaired
          exact hfusing ⟨_, .colons, ⟨qs, rfl⟩⟩
        · cases h
        · cases h
    · obtain rfl := hq.eq_of_isMark_alone (by decide) (fun _ => rfl) hhead
      obtain rfl | rfl := hc
      · exact hfusing ⟨_, .arrow, ⟨qs, rfl⟩⟩
      · exact hfusing ⟨_, .fatArrow, ⟨qs, rfl⟩⟩
  · rintro rfl
    have hmem := mem_stops_of_head?_textBehind hps (List.cons_ne_nil _ _) rfl (by decide)
      (by decide) hd
    exact of_mem_stops (fun d => d ≠ '/' ∧ d ≠ '*') (by decide) hmem

end Reading

/-- A token in front of nothing that fuses with it is read again. -/
theorem Piece.Plain.isReadBefore_textBehind {p : Piece} (hp : p.Plain) {pre : List Char}
    {ps : List Piece} (hps : ∀ q ∈ ps, q.Plain) (hfusing : ¬ FusesFirst (p :: ps))
    (hcolon : EndsColons pre p ps) :
    p.IsReadBefore (textBehind (pre ++ p.text.toList) ps) := by
  cases hp with
  | word h =>
    rw [String.toList_ofList]
    exact isReadBefore_of_first? (first?_word_textBehind hps h)
  | number h =>
    rw [String.toList_ofList]
    exact isReadBefore_of_first? (first?_number_textBehind hps h hfusing)
  | lifetime h =>
    rw [String.toList_ofList]
    exact isReadBefore_of_first? (first?_lifetime_textBehind hps h)
  | string h => exact isReadBefore_of_first? (first?_of_string h _)
  | char h hopens => exact isReadBefore_of_first? (first?_of_char h hopens _)
  | pair h => exact isReadBefore_of_first? (first?_of_ofPair? h _)
  | mark hc =>
    rw [String.toList_ofList]
    exact isReadBefore_of_first? (first?_mark_textBehind hps hc hfusing hcolon)

/-! ## Tokens that are read as others -/

/-- A piece that attaches to every text is written without a blank. -/
theorem textBehind_of_mem_tightBefore {text : List Char} {q : Piece} (h : q.text ∈ tightBefore)
    (qs : List Piece) :
    textBehind text (q :: qs) = q.text.toList ++ textBehind (text ++ q.text.toList) qs := by
  rw [textBehind, if_pos (.inr (.inr (.inl h)))]

/-- Behind a text that attaches what follows a piece is written without a blank. -/
theorem textBehind_of_tightAfter {text : List Char} (h : tightAfter text.reverse) (q : Piece)
    (qs : List Piece) :
    textBehind text (q :: qs) = q.text.toList ++ textBehind (text ++ q.text.toList) qs := by
  rw [textBehind, if_pos (.inr (.inr (.inr h)))]

/-- A text whose first piece is another one is not cut into these. -/
theorem pieces_lexemes_ne {cs rest : List Char} {lexeme : Lexeme} {p q : Piece}
    (h : Lexeme.first? cs = some (lexeme, rest)) (hpieces : lexeme.pieces = [q]) (hne : q ≠ p)
    (ps : List Piece) : (lexemes cs).flatMap Lexeme.pieces ≠ p :: ps := by
  rw [lexemes_of_first? h, List.flatMap_cons, hpieces]
  exact fun heq => hne (List.cons.inj heq).1

/-- Two characters of a pair are not read as a token of one character. -/
theorem pieces_lexemes_ne_of_ofPair? {c d : Char} {kind : Kind} (h : Kind.ofPair? c d = some kind)
    {p : Piece} (hne : kind ≠ p.kind) (ds : List Char) (ps : List Piece) :
    (lexemes (c :: d :: ds)).flatMap Lexeme.pieces ≠ p :: ps :=
  pieces_lexemes_ne (first?_of_ofPair? h ds) rfl (fun heq => hne (congrArg Piece.kind heq)) ps

/-- Behind `::` two colons come to stand together. -/
theorem textBehind_colons (text : List Char) (ps : List Piece) :
    textBehind (text ++ "::".toList) (⟨.colon, ":"⟩ :: ⟨.colon, ":"⟩ :: ps) =
      ':' :: ':' :: textBehind (text ++ "::".toList ++ ":".toList ++ ":".toList) ps := by
  have hfirst : tightAfter (text ++ "::".toList).reverse := by
    rw [List.reverse_append]
    rfl
  have hsecond : tightAfter (text ++ "::".toList ++ ":".toList).reverse := by
    rw [List.reverse_append, List.reverse_append]
    rfl
  rw [textBehind_of_tightAfter hfirst, textBehind_of_tightAfter hsecond]
  rfl

/-- A point and a number stand without blanks behind a text. -/
theorem textBehind_point (text : List Char) (q : Piece) (ps : List Piece) :
    textBehind text (⟨.dot, "."⟩ :: q :: ps) =
      '.' :: (q.text.toList ++ textBehind (text ++ ".".toList ++ q.text.toList) ps) := by
  have htight : tightAfter (text ++ ".".toList).reverse := by
    rw [List.reverse_append]
    rfl
  rw [textBehind_of_mem_tightBefore (by decide), textBehind_of_tightAfter htight]
  rfl

/-- Tokens that fuse are read as others. -/
theorem pieces_lexemes_ne_of_fusesFirst {p : Piece} (hp : p.Plain) {ps : List Piece}
    (hfusing : FusesFirst (p :: ps)) (pre : List Char) :
    (lexemes (p.text.toList ++ textBehind (pre ++ p.text.toList) ps)).flatMap Lexeme.pieces ≠
      p :: ps := by
  obtain ⟨fs, hfs, rest, hrest⟩ := hfusing
  cases hfs with
  | colons | arrow | fatArrow =>
    simp only [List.cons_append, List.nil_append, List.cons.injEq] at hrest
    obtain ⟨rfl, rfl⟩ := hrest
    rw [textBehind_of_mem_tightBefore (by decide)]
    exact pieces_lexemes_ne_of_ofPair? rfl (by decide) _ _
  | path =>
    simp only [List.cons_append, List.nil_append, List.cons.injEq] at hrest
    obtain ⟨rfl, rfl⟩ := hrest
    -- The first two colons are read, and then the two behind them as one token.
    have hpair : Kind.ofPair? ':' ':' = some .colonColon := rfl
    rw [textBehind_colons]
    change (lexemes ([':', ':'] ++ _)).flatMap Lexeme.pieces ≠ _
    rw [lexemes_of_first? (first?_of_ofPair? hpair _), List.flatMap_cons]
    exact fun heq => pieces_lexemes_ne_of_ofPair? hpair (by decide) _ _ (List.cons.inj heq).2
  | @fraction whole part hwhole hpart =>
    simp only [List.cons_append, List.nil_append, List.cons.injEq] at hrest
    obtain ⟨rfl, rfl⟩ := hrest
    cases hdigits : part.toList with
    | nil =>
      rw [hdigits] at hpart
      cases hpart
    | cons d ds =>
      rw [hdigits] at hpart
      rw [textBehind_point, hdigits]
      obtain ⟨lexeme, _, more, hfirst, hpieces⟩ :=
        exists_first?_of_digits_point (hp.isNumeral rfl) hwhole hpart
          (ds ++ textBehind (pre ++ whole.toList ++ ".".toList ++ d :: ds) rest)
      refine pieces_lexemes_ne hfirst hpieces (fun heq => ?_) _
      have hlength := congrArg (fun p : Piece => p.text.toList.length) heq
      simp at hlength

/-! ## The tokens of a text -/

/-- A plain piece whose text is a colon is the colon. -/
theorem Piece.Plain.eq_colon {p : Piece} (hp : p.Plain) (h : p.text = ":") :
    p = ⟨.colon, ":"⟩ := by
  obtain rfl | rfl := hp.eq_of_getLast?_colon (by rw [h]; rfl)
  · rfl
  · exact absurd h (by decide)

/-- A colon that is written behind another one without a blank is the one behind `::`, and no colon
is behind it. -/
theorem EndsColons.step {p q : Piece} {ps : List Piece} {pre : List Char}
    (hcolon : EndsColons pre p (q :: ps)) (hp : p.Plain) (hq : q.Plain) (hps : ∀ r ∈ ps, r.Plain)
    (hfusing : ¬ FusesFirst (p :: q :: ps)) (hattach : Attaches (pre ++ p.text.toList) q.text) :
    EndsColons (pre ++ p.text.toList) q ps := by
  intro htext hlast
  obtain ⟨c, cs, hcons⟩ := hp.exists_cons
  have hne : p.text.toList ≠ [] := hcons ▸ List.cons_ne_nil c cs
  rw [List.getLast?_append, List.getLast?_eq_some_getLast hne, Option.some_or,
    ← List.getLast?_eq_some_getLast hne] at hlast
  obtain rfl | rfl := hp.eq_of_getLast?_colon hlast
  · rw [htext] at hattach
    exact absurd htext (hcolon rfl (getLast?_of_attaches_colon hattach) q rfl)
  · intro r hr hrtext
    obtain ⟨rs, rfl⟩ := List.head?_eq_some_iff.1 hr
    obtain rfl := hq.eq_colon htext
    obtain rfl := (hps r List.mem_cons_self).eq_colon hrtext
    exact hfusing ⟨_, .path, ⟨rs, rfl⟩⟩

/-- **Tokens that are joined are read again if and only if none of them fuse.** The induction is on
the tokens, with the text in front of them; of that only a colon at its end counts. -/
theorem pieces_lexemes_textBehind_iff {p : Piece} (hp : p.Plain) {ps : List Piece}
    (hps : ∀ q ∈ ps, q.Plain) {pre : List Char} (hcolon : EndsColons pre p ps) :
    (lexemes (p.text.toList ++ textBehind (pre ++ p.text.toList) ps)).flatMap Lexeme.pieces =
      p :: ps ↔ ¬ Fuses (p :: ps) := by
  induction ps generalizing p pre with
  | nil =>
    have hfusing : ¬ FusesFirst [p] := fun h => not_fuses_singleton p (fuses_cons_iff.2 (.inl h))
    obtain ⟨lexeme, hfirst, hpieces⟩ := hp.isReadBefore_textBehind hps hfusing hcolon
    rw [lexemes_of_first? hfirst, List.flatMap_cons, hpieces, textBehind, lexemes_nil]
    exact iff_of_true rfl (not_fuses_singleton p)
  | cons q qs ih =>
    by_cases hfusing : FusesFirst (p :: q :: qs)
    · exact iff_of_false (pieces_lexemes_ne_of_fusesFirst hp hfusing pre)
        (not_not.2 (fuses_cons_iff.2 (.inl hfusing)))
    · obtain ⟨lexeme, hfirst, hpieces⟩ := hp.isReadBefore_textBehind hps hfusing hcolon
      obtain ⟨hq, hqs⟩ := List.forall_mem_cons.1 hps
      rw [lexemes_of_first? hfirst, List.flatMap_cons, hpieces, List.singleton_append,
        List.cons.injEq, fuses_cons_iff, or_iff_right hfusing, and_iff_right rfl, textBehind]
      by_cases hattach : Attaches (pre ++ p.text.toList) q.text
      · rw [if_pos hattach]
        exact ih hq hqs (hcolon.step hp hq hqs hfusing hattach)
      · have hblank : EndsColons (pre ++ p.text.toList ++ [' ']) q qs := fun _ hlast => by
          rw [List.getLast?_concat] at hlast
          cases hlast
        have hih := ih hq hqs hblank
        rw [List.append_assoc, List.singleton_append] at hih
        rw [if_neg hattach, pieces_lexemes_layout rfl]
        exact hih

/-- **The text of tokens is cut into these tokens if and only if none of them fuse.** -/
theorem piecesOf_tokenize_textOf_iff {ts : List Token} (h : ∀ t ∈ ts, t.piece.Plain) :
    piecesOf (tokenize (textOf ts)).tokens = piecesOf ts ↔ ¬ Fuses (piecesOf ts) := by
  have htext : (textOf ts).toList = textBehind [] (piecesOf ts) := by
    have hmap : ts.map (·.text) = (piecesOf ts).map (·.text) := by
      rw [piecesOf, List.map_map]
      rfl
    rw [textOf, joinTokens, hmap, toList_foldl_appendToken]
    rfl
  have hplain : ∀ p ∈ piecesOf ts, p.Plain := List.forall_mem_map.2 h
  rw [piecesOf, tokenize, TokenStream.pieces_ofLexemes, htext]
  cases hps : piecesOf ts with
  | nil =>
    rw [textBehind, lexemes_nil]
    exact iff_of_true rfl not_fuses_nil
  | cons p ps =>
    rw [hps] at hplain
    obtain ⟨hp, hps⟩ := List.forall_mem_cons.1 hplain
    rw [textBehind, if_pos (.inl rfl)]
    have hcolon : EndsColons [] p ps := fun _ hlast => by cases hlast
    exact pieces_lexemes_textBehind_iff hp hps hcolon

end Rust
end Ferrotype
