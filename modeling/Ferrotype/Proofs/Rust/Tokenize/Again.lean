/-
# Lexemes in front of a blank

What was read before the place where two texts part is read again: no reader takes a character
behind its lexeme into account, but to see that it is not one that would go on, and a blank goes on
with nothing but layout.

There is one exception. Two quotes with a third one behind them are a character literal, and that
ends before the third quote. So a lexeme of two quotes depends on what follows it
(`first?_parted`).
-/

import Ferrotype.Proofs.Rust.Tokenize.Parted

namespace Ferrotype
namespace Rust
namespace Lexeme

variable {cs ds : List Char}

/-! ## Readers -/

/-- A reader reads a lexeme again when what follows it is parted. Behind two quotes the next
character has to stay. -/
def Keeps (reader : Reader) : Prop :=
  ∀ {cs lexeme rest ds}, reader cs = some (lexeme, rest) →
    (lexeme.text = ['\'', '\''] → ds.head? = rest.head?) → Parted rest ds →
    reader (lexeme.text ++ ds) = some (lexeme, ds)

/-- A reader that reads no lexeme reads none when the text is parted behind its first character. -/
def Passes (reader : Reader) : Prop :=
  ∀ {c cs ds}, reader (c :: cs) = none → Parted cs ds → reader (c :: ds) = none

/-- A character other than a blank stands in both texts. -/
theorem Parted.of_cons {d : Char} (h : Parted cs (d :: ds)) (hd : d ≠ ' ') :
    ∃ cs', cs = d :: cs' ∧ Parted cs' ds := by
  cases h with
  | here => exact absurd rfl hd
  | later _ h => exact ⟨_, rfl, h⟩

/-- What is no layout is none in front of a remark. -/
theorem passes_layout? : Passes layout? := by
  intro c cs ds hnone hp
  rw [layout?] at hnone ⊢
  split at hnone
  · cases hnone
  · rename_i hc
    rw [if_neg hc]

/-- The shape of a comment that ends with its line, by what follows the two slashes. -/
def lineShape : List Char → Shape
  | '/' :: '/' :: _ => .blank
  | '/' :: cs => .lineDoc cs
  | _ => .blank

/-- A comment that ends with its line is read up to the line feed or to the end of the source. -/
theorem lineComment?_append {xs ys : List Char} (hxs : '\n' ∉ xs)
    (hys : ∀ y ∈ ys.head?, y = '\n') :
    lineComment? ('/' :: '/' :: (xs ++ ys)) =
      some (.whole (lineShape xs) ('/' :: '/' :: xs), ys) := by
  have hrun : run (· != '\n') (xs ++ ys) = (xs, ys) :=
    run_append_of_head? (fun x hx => bne_iff_ne.2 fun h => hxs (h ▸ hx))
      (fun y hy => by rw [hys y hy]; rfl)
  have hslash : ∀ y ∈ ys.head?, y ≠ '/' := fun y hy => by
    rw [hys y hy]
    decide
  unfold lineComment?
  simp only [hrun]
  -- The slashes that count stand before the line feed.
  rcases xs with _ | ⟨x, _ | ⟨y, zs⟩⟩
  · rcases ys with _ | ⟨y, ys⟩
    · rfl
    · simp [lineShape, hslash y rfl]
  · by_cases hx : x = '/'
    · subst hx
      rcases ys with _ | ⟨y, ys⟩
      · rfl
      · simp [lineShape, hslash y rfl]
    · simp [lineShape, hx]
  · by_cases hx : x = '/'
    · subst hx
      by_cases hy : y = '/'
      · subst hy
        rfl
      · simp [lineShape, hy]
    · simp [lineShape, hx]

/-- A comment that ends with its line is read up to the line feed. -/
theorem lineComment?_of_newline {xs : List Char} (hxs : '\n' ∉ xs) (ys : List Char) :
    lineComment? ('/' :: '/' :: (xs ++ '\n' :: ys)) =
      some (.whole (lineShape xs) ('/' :: '/' :: xs), '\n' :: ys) :=
  lineComment?_append hxs (by rintro y ⟨⟩; rfl)

/-- The text of a comment that ends with its line, and what may follow it. -/
theorem exists_of_lineComment? {cs rest : List Char} {lexeme : Lexeme}
    (h : lineComment? cs = some (lexeme, rest)) :
    ∃ content, cs = '/' :: '/' :: (content ++ rest) ∧ '\n' ∉ content ∧
      lexeme = .whole (lineShape content) ('/' :: '/' :: content) ∧
      (rest = [] ∨ ∃ ds, rest = '\n' :: ds) := by
  obtain ⟨body, rfl, rfl⟩ :
      ∃ body, cs = '/' :: '/' :: body ∧ rest = body.dropWhile (· != '\n') := by
    revert h
    fun_cases lineComment? cs <;> rintro ⟨⟩
    exact ⟨_, rfl, rfl⟩
  have hnewline : '\n' ∉ body.takeWhile (· != '\n') := fun hmem => by
    simpa using List.mem_takeWhile_imp hmem
  have hhead : ∀ c ∈ (body.dropWhile (· != '\n')).head?, c = '\n' := fun c hc => by
    simpa using not_of_mem_head?_dropWhile hc
  have hbody := List.takeWhile_append_dropWhile (p := (· != '\n')) (l := body)
  refine ⟨body.takeWhile (· != '\n'), by rw [hbody], hnewline, ?_, ?_⟩
  · have hread := lineComment?_append hnewline hhead
    rw [hbody, h] at hread
    exact (Prod.mk.inj (Option.some.inj hread)).1
  · cases hrest : body.dropWhile (· != '\n') with
    | nil => exact .inl rfl
    | cons c ds =>
      rw [hrest] at hhead
      exact .inr ⟨ds, by rw [hhead c rfl]⟩

/-- A comment that ends with its line is read again: what follows it starts with a line feed. -/
theorem keeps_lineComment? : Keeps lineComment? := by
  intro cs lexeme rest ds h _ hp
  obtain ⟨content, rfl, hcontent, rfl, rfl | ⟨more, rfl⟩⟩ := exists_of_lineComment? h
  · exact absurd rfl hp.ne_nil
  · cases hp with
    | here hlayout => cases hlayout
    | later => exact lineComment?_of_newline hcontent _

/-- Two slashes that stand apart are not read as a comment. -/
theorem passes_lineComment? : Passes lineComment? := by
  intro c cs ds hnone hp
  unfold lineComment?
  split
  · rename_i tail heq
    obtain ⟨rfl, rfl⟩ := List.cons.inj heq
    obtain ⟨cs, rfl, -⟩ := hp.of_cons (by decide)
    cases hnone
  · rfl

/-- Two characters decide whether a comment is documentation. -/
theorem opensBlockDoc_cons_cons (c d : Char) (cs : List Char) :
    opensBlockDoc (c :: d :: cs) = (c == '*' && d != '*' && d != '/') := by
  by_cases hc : c = '*'
  · subst hc
    by_cases hstar : d = '*'
    · subst hstar
      rfl
    · by_cases hslash : d = '/'
      · subst hslash
        rfl
      · simp [opensBlockDoc, hstar, hslash]
  · simp [opensBlockDoc, hc]

/-- What is closed by two characters has as many. -/
theorem exists_cons_cons_text {e : Enclosed} {a b : Char} {cs : List Char}
    (h : e.closing = a :: b :: cs) : ∃ c d text, e.text = c :: d :: text := by
  rw [Enclosed.text, h]
  rcases e.content with _ | ⟨c, _ | ⟨d, text⟩⟩
  · exact ⟨a, b, cs, rfl⟩
  · exact ⟨c, a, b :: cs, rfl⟩
  · exact ⟨c, d, text ++ a :: b :: cs, rfl⟩

/-- A comment in block form is read again. Its delimiter is two characters long, so what makes it
documentation is part of it. -/
theorem keeps_blockComment? : Keeps blockComment? := by
  intro cs lexeme rest ds
  fun_cases blockComment? cs with
  | case1 cs hdoc body =>
    rintro ⟨⟩ - hp
    obtain ⟨hclosing, hagain⟩ := closed_blockTail 0 ds hp.ne_nil
    obtain ⟨c, d, text, htext⟩ := exists_cons_cons_text hclosing
    change blockTail 0 (body.text ++ ds) = _ at hagain
    cases cs with
    | nil => cases hdoc
    | cons star cs =>
      have happend : body.text ++ body.rest = cs := blockTail_append 0 cs
      have hdoc' : opensBlockDoc (star :: (body.text ++ ds)) := by
        rw [← happend, htext, List.cons_append, opensBlockDoc_cons_cons] at hdoc
        rwa [htext, List.cons_append, opensBlockDoc_cons_cons]
      change blockComment? ('/' :: '*' :: star :: (body.text ++ ds)) = _
      rw [blockComment?, if_pos hdoc']
      simp only [List.drop_succ_cons, List.drop_zero, hagain]
      rfl
  | case2 cs hdoc body =>
    rintro ⟨⟩ - hp
    obtain ⟨hclosing, hagain⟩ := closed_blockTail 0 ds hp.ne_nil
    obtain ⟨c, d, text, htext⟩ := exists_cons_cons_text hclosing
    change blockTail 0 (body.text ++ ds) = _ at hagain
    have happend : body.text ++ body.rest = cs := blockTail_append 0 cs
    have hdoc' : ¬ opensBlockDoc (body.text ++ ds) := by
      rw [← happend, htext, List.cons_append, List.cons_append, opensBlockDoc_cons_cons] at hdoc
      rwa [htext, List.cons_append, List.cons_append, opensBlockDoc_cons_cons]
    change blockComment? ('/' :: '*' :: (body.text ++ ds)) = _
    rw [blockComment?, if_neg hdoc']
    simp only [hagain]
    rfl
  | case3 => rintro ⟨⟩

/-- A slash and a star that stand apart are not read as a comment. -/
theorem passes_blockComment? : Passes blockComment? := by
  intro c cs ds hnone hp
  unfold blockComment?
  split
  · rename_i tail heq
    obtain ⟨rfl, rfl⟩ := List.cons.inj heq
    obtain ⟨cs, rfl, -⟩ := hp.of_cons (by decide)
    rw [blockComment?] at hnone
    split at hnone <;> cases hnone
  · rfl

/-- Two characters decide whether a raw literal starts behind `r`. -/
theorem opensRaw_cons_cons (c d : Char) (cs : List Char) :
    opensRaw (c :: d :: cs) = (c == '"' || c == '#' && (d == '"' || d == '#')) := by
  unfold opensRaw
  grind

/-- One character decides whether a raw literal starts behind `br`. -/
theorem opensRawBytes_cons (c : Char) (cs : List Char) :
    opensRawBytes (c :: cs) = (c == '"' || c == '#') := by
  unfold opensRawBytes
  grind

/-- A raw literal that starts in front of a remark starts without it, too. -/
theorem Parted.opensRaw (h : Parted cs ds) (hds : opensRaw ds) : opensRaw cs := by
  unfold Lexeme.opensRaw at hds
  split at hds
  · obtain ⟨_, rfl, -⟩ := h.of_cons (by decide)
    rfl
  · rename_i d _
    obtain ⟨_, rfl, htail⟩ := h.of_cons (by decide)
    obtain ⟨_, rfl, -⟩ := htail.of_cons fun hd => by simp [hd] at hds
    exact hds
  · cases hds

/-- The same of a raw literal of bytes. -/
theorem Parted.opensRawBytes (h : Parted cs ds) (hds : opensRawBytes ds) : opensRawBytes cs := by
  unfold Lexeme.opensRawBytes at hds
  split at hds
  · obtain ⟨_, rfl, -⟩ := h.of_cons (by decide)
    rfl
  · obtain ⟨_, rfl, -⟩ := h.of_cons (by decide)
    rfl
  · cases hds

/-- A raw literal is read again behind the letters that announce it. It has two quotes at least. -/
theorem rawBehind_parted {letters rest : List Char} {lexeme : Lexeme}
    (h : rawBehind letters cs = (lexeme, rest)) (hp : Parted rest ds) :
    ∃ c d body, lexeme.text = letters ++ c :: d :: body ∧ cs = c :: d :: (body ++ rest) ∧
      rawBehind letters (c :: d :: (body ++ ds)) = (lexeme, ds) := by
  obtain ⟨rfl, rfl⟩ := Prod.mk.inj h
  change Parted (rawTail (run (· == '#') cs).1.length ((run (· == '#') cs).2.drop 1)).rest ds at hp
  cases hbehind : (run (· == '#') cs).2 with
  | nil =>
    rw [hbehind] at hp
    exact absurd rfl hp.ne_nil
  | cons quote tail =>
    rw [hbehind, List.drop_succ_cons, List.drop_zero] at hp
    obtain ⟨hclosing, hagain⟩ := closed_rawTail _ ds hp.ne_nil
    obtain ⟨c, d, body, hbody⟩ : ∃ c d body, (run (· == '#') cs).1 ++
        quote :: (rawTail (run (· == '#') cs).1.length tail).text = c :: d :: body := by
      rw [Enclosed.text, hclosing]
      rcases (run (· == '#') cs).1 with _ | ⟨c, _ | ⟨d, hashes⟩⟩
      · rcases (rawTail _ tail).content with _ | ⟨d, content⟩ <;> exact ⟨_, _, _, rfl⟩
      · exact ⟨_, _, _, rfl⟩
      · exact ⟨_, _, _, rfl⟩
    refine ⟨c, d, body, ?_, ?_, ?_⟩
    · simp only [List.drop_succ_cons, List.drop_zero, List.take_succ_cons, List.take_zero,
        List.append_assoc, List.singleton_append, hbody]
    · have happend := run_append (· == '#') cs
      rw [hbehind, ← rawTail_append (run (· == '#') cs).1.length tail, ← List.cons_append,
        ← List.append_assoc, hbody] at happend
      exact happend.symm
    · have hhashes : ∀ x ∈ (run (· == '#') cs).1, x == '#' := fun _ => List.mem_takeWhile_imp
      have hquote : quote ∈ (cs.dropWhile (· == '#')).head? := by
        rw [show cs.dropWhile (· == '#') = quote :: tail from hbehind]
        rfl
      have hrun : run (· == '#') ((run (· == '#') cs).1 ++
          quote :: ((rawTail (run (· == '#') cs).1.length tail).text ++ ds)) =
            ((run (· == '#') cs).1,
              quote :: ((rawTail (run (· == '#') cs).1.length tail).text ++ ds)) :=
        run_append_of_head? hhashes (by simpa using not_of_mem_head?_dropWhile hquote)
      rw [← List.cons_append, ← List.append_assoc, hbody] at hrun
      change rawBehind letters (c :: d :: body ++ ds) = _
      simp only [rawBehind, hrun]
      simp only [List.cons_append, List.drop_succ_cons, List.drop_zero, hagain]
      rfl

/-- A raw literal is read again; one without its quote has no rest. -/
theorem keeps_rawString? : Keeps rawString? := by
  intro cs lexeme rest ds
  fun_cases rawString? cs with
  | case1 cs hraw =>
    intro h _ hp
    obtain ⟨c, d, body, htext, rfl, hagain⟩ := rawBehind_parted (Option.some.inj h) hp
    rw [opensRaw_cons_cons, ← opensRaw_cons_cons c d (body ++ ds)] at hraw
    rw [htext]
    change rawString? ('r' :: c :: d :: (body ++ ds)) = _
    rw [rawString?, if_pos hraw, hagain]
  | case2 => rintro ⟨⟩
  | case3 cs hraw =>
    intro h _ hp
    obtain ⟨c, d, body, htext, rfl, hagain⟩ := rawBehind_parted (Option.some.inj h) hp
    rw [opensRawBytes_cons, ← opensRawBytes_cons c (d :: (body ++ ds))] at hraw
    rw [htext]
    change rawString? ('b' :: 'r' :: c :: d :: (body ++ ds)) = _
    rw [rawString?, if_pos hraw, hagain]
  | case4 => rintro ⟨⟩
  | case5 => rintro ⟨⟩

/-- Where no raw literal starts, none does in front of a remark. -/
theorem passes_rawString? : Passes rawString? := by
  intro c cs ds hnone hp
  unfold rawString?
  split
  · rename_i tail heq
    obtain ⟨rfl, rfl⟩ := List.cons.inj heq
    rw [rawString?] at hnone
    split at hnone
    · cases hnone
    · rename_i hraw
      rw [if_neg fun hds => hraw (hp.opensRaw hds)]
  · rename_i tail heq
    obtain ⟨rfl, rfl⟩ := List.cons.inj heq
    obtain ⟨_, rfl, htail⟩ := hp.of_cons (by decide)
    rw [rawString?] at hnone
    split at hnone
    · cases hnone
    · rename_i hraw
      rw [if_neg fun hds => hraw (htail.opensRawBytes hds)]
  · rfl

/-- A literal in quotes is read again behind its opening quote. -/
theorem quotedBehind_parted {kind : Kind} {letters rest : List Char} {quote : Char}
    (hquote : quote ≠ '\\') {lexeme : Lexeme}
    (h : quotedBehind kind letters quote cs = (lexeme, rest)) (hp : Parted rest ds) :
    ∃ body, lexeme.text = letters ++ quote :: body ∧ body.getLast? = some quote ∧
      cs = body ++ rest ∧ quotedBehind kind letters quote (body ++ ds) = (lexeme, ds) := by
  obtain ⟨rfl, rfl⟩ := Prod.mk.inj h
  obtain ⟨hclosing, hagain⟩ := closed_quotedTail hquote ds hp.ne_nil
  refine ⟨(quotedTail quote cs).text, rfl, ?_, (quotedTail_append quote cs).symm, ?_⟩
  · rw [Enclosed.text, hclosing, List.getLast?_concat]
  · rw [quotedBehind, hagain]
    rfl

/-- A literal of bytes is read again. -/
theorem keeps_bytes? : Keeps bytes? := by
  intro cs lexeme rest ds
  fun_cases bytes? cs with
  | case1 cs =>
    intro h _ hp
    obtain ⟨body, htext, -, -, hagain⟩ := quotedBehind_parted (by decide) (Option.some.inj h) hp
    rw [htext]
    exact congrArg some hagain
  | case2 cs =>
    intro h _ hp
    obtain ⟨body, htext, -, -, hagain⟩ := quotedBehind_parted (by decide) (Option.some.inj h) hp
    rw [htext]
    exact congrArg some hagain
  | case3 => rintro ⟨⟩

/-- Where no literal of bytes starts, none does in front of a remark. -/
theorem passes_bytes? : Passes bytes? := by
  intro c cs ds hnone hp
  unfold bytes?
  split
  · rename_i tail heq
    obtain ⟨rfl, rfl⟩ := List.cons.inj heq
    obtain ⟨_, rfl, -⟩ := hp.of_cons (by decide)
    cases hnone
  · rename_i tail heq
    obtain ⟨rfl, rfl⟩ := List.cons.inj heq
    obtain ⟨_, rfl, -⟩ := hp.of_cons (by decide)
    cases hnone
  · rfl

/-- A raw word is read again. -/
theorem keeps_rawWord? : Keeps rawWord? := by
  intro cs lexeme rest ds
  fun_cases rawWord? cs with
  | case1 c cs hc word =>
    rintro ⟨⟩ - hp
    have hword : word.1 ++ ds = c :: ((run Unicode.isWordChar cs).1 ++ ds) :=
      congrArg (·.1 ++ ds) (run_word_cons (Unicode.isWordChar_of_isWordStart hc) cs)
    have hagain := (stable_run isWordChar_blank).again hp
    change run Unicode.isWordChar (word.1 ++ ds) = (word.1, ds) at hagain
    change rawWord? ('r' :: '#' :: (word.1 ++ ds)) = _
    rw [hword] at hagain ⊢
    rw [rawWord?, if_pos hc, hagain]
  | case2 => rintro ⟨⟩
  | case3 => rintro ⟨⟩

/-- Where no raw word starts, none does in front of a remark. -/
theorem passes_rawWord? : Passes rawWord? := by
  intro c cs ds hnone hp
  unfold rawWord?
  split
  · rename_i d tail heq
    obtain ⟨rfl, rfl⟩ := List.cons.inj heq
    obtain ⟨_, rfl, htail⟩ := hp.of_cons (by decide)
    split
    · rename_i hd
      obtain ⟨_, rfl, -⟩ := htail.of_cons fun hblank => by
        rw [hblank] at hd
        revert hd
        decide
      rw [rawWord?, if_pos hd] at hnone
      cases hnone
    · rfl
  · rfl

/-- A string is read again. -/
theorem keeps_string? : Keeps string? := by
  intro cs lexeme rest ds
  fun_cases string? cs with
  | case1 cs =>
    intro h _ hp
    obtain ⟨body, htext, -, -, hagain⟩ := quotedBehind_parted (by decide) (Option.some.inj h) hp
    rw [htext]
    exact congrArg some hagain
  | case2 => rintro ⟨⟩

/-- Where no string starts, none does in front of a remark. -/
theorem passes_string? : Passes string? := by
  intro c cs ds hnone hp
  unfold string?
  split
  · rename_i tail heq
    obtain ⟨rfl, rfl⟩ := List.cons.inj heq
    cases hnone
  · rfl

/-- Two characters decide whether a quote opens a character. -/
theorem opensChar_cons_cons (c d : Char) (cs : List Char) :
    opensChar (c :: d :: cs) = (c == '\\' || d == '\'') := by
  unfold opensChar
  grind

/-- A character that is opened in front of a remark is opened without it, too. -/
theorem Parted.opensChar (h : Parted cs ds) (hds : opensChar ds) : opensChar cs := by
  cases h with
  | here _ cs ds => cases hds
  | later c h =>
    cases h with
    | here =>
      rw [opensChar_cons_cons, beq_eq_false_iff_ne.2 (by decide : ' ' ≠ '\''), Bool.or_false] at hds
      rw [opensChar_cons_cons, hds, Bool.true_or]
    | later d h =>
      rw [opensChar_cons_cons] at hds ⊢
      exact hds

/-- A character is read again, and so is a lifetime. Two quotes alone are the exception: what stands
behind them decides. -/
theorem keeps_single? : Keeps single? := by
  intro cs lexeme rest ds
  fun_cases single? cs with
  | case1 cs hopens =>
    intro h hquotes hp
    obtain ⟨body, htext, hlast, rfl, hagain⟩ :=
      quotedBehind_parted (by decide) (Option.some.inj h) hp
    rw [htext] at hquotes ⊢
    change single? ('\'' :: (body ++ ds)) = _
    rcases body with _ | ⟨c, _ | ⟨d, body⟩⟩
    · cases hlast
    · cases hlast
      have hhead : ds.head? = rest.head? := hquotes rfl
      cases rest with
      | nil => exact absurd rfl hp.ne_nil
      | cons d rest =>
        cases ds with
        | nil => cases hhead
        | cons d' ds =>
          cases hhead
          rw [List.singleton_append, opensChar_cons_cons, ← opensChar_cons_cons _ _ ds] at hopens
          rw [List.singleton_append] at hagain ⊢
          rw [single?, if_pos hopens, hagain]
    · simp only [List.cons_append] at hopens hagain ⊢
      rw [opensChar_cons_cons, ← opensChar_cons_cons c d (body ++ ds)] at hopens
      rw [single?, if_pos hopens, hagain]
  | case2 cs hopens word =>
    rintro ⟨⟩ - hp
    have hagain := (stable_run isWordChar_blank).again hp
    change run Unicode.isWordChar (word.1 ++ ds) = (word.1, ds) at hagain
    have hwhole := hp.append word.1
    rw [run_append] at hwhole
    change single? ('\'' :: (word.1 ++ ds)) = _
    rw [single?, if_neg fun hds => hopens (hwhole.opensChar hds), hagain]
  | case3 => rintro ⟨⟩

/-- Where no quote stands, none does in front of a remark. -/
theorem passes_single? : Passes single? := by
  intro c cs ds hnone hp
  unfold single?
  split
  · rename_i tail heq
    obtain ⟨rfl, rfl⟩ := List.cons.inj heq
    rw [single?] at hnone
    split at hnone <;> cases hnone
  · rfl

/-- A number is read again. -/
theorem keeps_number? : Keeps number? := by
  intro cs lexeme rest ds
  fun_cases number? cs with
  | case1 => rintro ⟨⟩
  | case2 c cs hc more =>
    rintro ⟨⟩ - hp
    have hagain := (stable_numberRest c).again hp
    change numberRest c (more.1 ++ ds) = (more.1, ds) at hagain
    change number? (c :: (more.1 ++ ds)) = _
    rw [number?, if_pos hc, hagain]
  | case3 => rintro ⟨⟩

/-- Where no number starts, none does in front of a remark. -/
theorem passes_number? : Passes number? := by
  intro c cs ds hnone hp
  rw [number?] at hnone ⊢
  split at hnone
  · cases hnone
  · rename_i hc
    rw [if_neg hc]

/-- A word is read again. -/
theorem keeps_word? : Keeps word? := by
  intro cs lexeme rest ds
  fun_cases word? cs with
  | case1 => rintro ⟨⟩
  | case2 c cs hc more =>
    rintro ⟨⟩ - hp
    have hagain := (stable_run isWordChar_blank).again hp
    change run Unicode.isWordChar (more.1 ++ ds) = (more.1, ds) at hagain
    change word? (c :: (more.1 ++ ds)) = _
    rw [word?, if_pos hc, hagain]
  | case3 => rintro ⟨⟩

/-- Where no word starts, none does in front of a remark. -/
theorem passes_word? : Passes word? := by
  intro c cs ds hnone hp
  rw [word?] at hnone ⊢
  split at hnone
  · cases hnone
  · rename_i hc
    rw [if_neg hc]

/-- A pair is read again. -/
theorem keeps_pair? : Keeps pair? := by
  intro cs lexeme rest ds
  fun_cases pair? cs with
  | case1 c d cs =>
    intro h _ hp
    obtain ⟨kind, hkind, hlexeme⟩ := Option.map_eq_some_iff.1 h
    cases hlexeme
    change pair? (c :: d :: ds) = _
    rw [pair?, hkind]
    rfl
  | case2 => rintro ⟨⟩

/-- A blank is the second part of no pair. -/
theorem ofPair?_blank (c : Char) : Kind.ofPair? c ' ' = none := by
  unfold Kind.ofPair?
  grind

/-- A character that makes up no pair with the next one makes up none with a blank. -/
theorem passes_pair? : Passes pair? := by
  intro c cs ds hnone hp
  cases hp with
  | here => rw [pair?, ofPair?_blank, Option.map_none]
  | later d hp =>
    rw [pair?, Option.map_eq_none_iff] at hnone
    rw [pair?, hnone, Option.map_none]

/-- A mark is read again, if the readers before it pass it by. -/
theorem keeps_mark? : Keeps mark? := by
  intro cs lexeme rest ds
  fun_cases mark? cs with
  | case1 => rintro ⟨⟩
  | case2 c cs =>
    rintro ⟨⟩ - hp
    rfl

/-- Every character is a mark for the last reader. -/
theorem passes_mark? : Passes mark? := by
  rintro c cs ds ⟨⟩

/-! ## Lexemes -/

/-- All readers but that of layout read their lexemes again. -/
theorem keeps_of_mem_readers {reader : Reader} (h : reader ∈ readers) (hlayout : reader ≠ layout?) :
    Keeps reader := by
  simp only [readers, List.mem_cons, List.not_mem_nil, or_false] at h
  rcases h with rfl | rfl | rfl | rfl | rfl | rfl | rfl | rfl | rfl | rfl | rfl | rfl
  · exact absurd rfl hlayout
  · exact keeps_lineComment?
  · exact keeps_blockComment?
  · exact keeps_rawString?
  · exact keeps_bytes?
  · exact keeps_rawWord?
  · exact keeps_string?
  · exact keeps_single?
  · exact keeps_number?
  · exact keeps_word?
  · exact keeps_pair?
  · exact keeps_mark?

/-- All readers pass a text by in front of a remark if they did so before. -/
theorem passes_of_mem_readers {reader : Reader} (h : reader ∈ readers) : Passes reader := by
  simp only [readers, List.mem_cons, List.not_mem_nil, or_false] at h
  rcases h with rfl | rfl | rfl | rfl | rfl | rfl | rfl | rfl | rfl | rfl | rfl | rfl
  · exact passes_layout?
  · exact passes_lineComment?
  · exact passes_blockComment?
  · exact passes_rawString?
  · exact passes_bytes?
  · exact passes_rawWord?
  · exact passes_string?
  · exact passes_single?
  · exact passes_number?
  · exact passes_word?
  · exact passes_pair?
  · exact passes_mark?

/-- **A lexeme is read again in front of a blank**, unless it is layout, to which the blank belongs,
or two quotes, which need a third one. -/
theorem first?_parted {rest : List Char} {lexeme : Lexeme} (h : first? cs = some (lexeme, rest))
    (hlayout : ∀ c ∈ cs.head?, isLayout c = false)
    (hquotes : lexeme.text = ['\'', '\''] → ds.head? = rest.head?) (hp : Parted rest ds) :
    first? (lexeme.text ++ ds) = some (lexeme, ds) := by
  obtain ⟨before, reader, after, hreaders, hreader, hbefore⟩ := List.findSome?_eq_some_iff.1 h
  have hmem : ∀ {other}, other ∈ before ++ reader :: after → other ∈ readers := fun hother => by
    rwa [hreaders]
  obtain ⟨happend, htext⟩ := first?_faithful h
  obtain ⟨c, text, hcons⟩ := List.exists_cons_of_ne_nil htext
  rw [hcons, List.cons_append] at happend
  refine List.findSome?_eq_some_iff.2 ⟨before, reader, after, hreaders, ?_, fun other hother => ?_⟩
  · refine keeps_of_mem_readers (hmem (by simp)) ?_ hreader hquotes hp
    rintro rfl
    rw [← happend] at hlayout hreader
    rw [layout?, hlayout c rfl] at hreader
    cases hreader
  · have hnone := hbefore other hother
    rw [← happend] at hnone
    rw [hcons, List.cons_append]
    exact passes_of_mem_readers (hmem (List.mem_append_left _ hother)) hnone (hp.append text)

end Lexeme
end Rust
end Ferrotype
