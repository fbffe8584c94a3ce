/-
# How the readers of strings and numbers end

`Ending` is what remains of a result when its value is left out: the characters that are left, or
what kind of fault it is. A string ends behind its closing quote and never at a long integer. A
number ends where neither a digit nor a fraction nor an exponent goes on with it; a reader stops at
it if and only if it is an integer of more than 4300 digits (`numberEnd_eq_long_iff`).
-/

import Mathlib.Data.List.TakeWhile
import Ferrotype.Proofs.Json.Grammar
import Ferrotype.Proofs.Json.Literal
import Ferrotype.Text.Pieces

namespace Ferrotype
namespace Json

/-! ## Endings -/

/-- How a reader ends. -/
inductive Ending
  | left (rest : List Char)
  | malformed
  | long
deriving DecidableEq

namespace Ending

/-- A reader that goes on with what another one leaves. -/
def andThen (e : Ending) (next : List Char → Ending) : Ending :=
  match e with
  | left rest => next rest
  | malformed => malformed
  | long => long

end Ending

/-- The ending of a result. -/
def ending {α : Type} {n : Nat} : Result (Parsed α n) → Ending
  | .ok p => .left p.rest
  | .error (.malformed _ _) => .malformed
  | .error (.longInteger _) => .long

/-- A change of the value leaves the ending as it is. -/
theorem ending_map {α β : Type} {n m : Nat} {f : Parsed α n → Parsed β m}
    (hf : ∀ p, (f p).rest = p.rest) (r : Result (Parsed α n)) : ending (r.map f) = ending r := by
  rcases r with (⟨_, _⟩ | ⟨_⟩) | p
  · rfl
  · rfl
  · exact congrArg Ending.left (hf p)

/-! ## Strings -/

/-- How a string ends whose opening quote has been read: each unit of it is four digits, whether or
not two of them stand for one character. -/
def stringEnd : List Char → Ending
  | [] => .malformed
  | ['\\'] => .malformed
  | '\\' :: 'u' :: a :: b :: c :: d :: cs =>
    if [a, b, c, d].all Text.Hexadecimal.isDigit then stringEnd cs else .malformed
  | '\\' :: 'u' :: _ => .malformed
  | '\\' :: e :: cs => if (escaped? e).isSome then stringEnd cs else .malformed
  | c :: cs => if c = '"' then .left cs else if c < ' ' then .malformed else stringEnd cs

/-- Digits have values exactly if all of them are hexadecimal. -/
theorem isSome_mapM_value? (cs : List Char) :
    (cs.mapM Text.Hexadecimal.value?).isSome = cs.all Text.Hexadecimal.isDigit := by
  induction cs with
  | nil => rfl
  | cons c cs ih =>
    rw [List.mapM_cons, List.all_cons, ← ih, Text.Hexadecimal.isDigit]
    cases Text.Hexadecimal.value? c with
    | none => rfl
    | some digit => cases cs.mapM Text.Hexadecimal.value? <;> rfl

/-- An escape by number is part of the string, and the string goes on behind its digits. -/
theorem stringEnd_of_unit?_eq_some {cs rest : List Char} {unit : Nat}
    (h : unit? cs = some (unit, rest)) : stringEnd ('\\' :: 'u' :: cs) = stringEnd rest := by
  fun_cases unit? cs with
  | case2 => simp [unit?] at h
  | case1 a b c d e cs =>
    obtain ⟨digits, hdigits, heq⟩ := Option.map_eq_some_iff.1 h
    cases heq
    rw [stringEnd, ← isSome_mapM_value?, hdigits]
    rfl

/-- An escape by number without four digits is an error. -/
theorem stringEnd_of_unit?_eq_none {cs : List Char} (h : unit? cs = none) :
    stringEnd ('\\' :: 'u' :: cs) = .malformed := by
  match cs with
  | [] | [_] | [_, _] | [_, _, _] => rfl
  | [a, b, c, d] =>
    rw [stringEnd]
    split <;> rfl
  | a :: b :: c :: d :: e :: cs =>
    have hnone := Option.map_eq_none_iff.1 h
    rw [stringEnd, ← isSome_mapM_value?, hnone]
    rfl

/-- Two units that stand for one character end as they do one after the other. -/
theorem stringEnd_of_finishPair (unit : Nat) (rest : List Char) :
    match finishPair unit rest with
    | .ok r => stringEnd rest = stringEnd r.2
    | .error e => stringEnd rest = .malformed ∧ ∃ problem left, e = .malformed problem left := by
  fun_cases finishPair unit rest with
  | case1 more hmore hnone => exact ⟨stringEnd_of_unit?_eq_none hnone, _, _, rfl⟩
  | case2 more hmore low after hsome =>
    simp only
    split
    · exact stringEnd_of_unit?_eq_some hsome
    · rfl
  | case3 => rfl
  | case4 => rfl

/-- An escape by a letter is part of the string if there is one for the letter. -/
theorem stringEnd_letter {c : Char} (hc : c ≠ 'u') (cs : List Char) :
    stringEnd ('\\' :: c :: cs) = if (escaped? c).isSome then stringEnd cs else .malformed := by
  rw [stringEnd.eq_5]
  · exact fun _ _ _ _ _ h _ => hc h
  · exact hc

/-- Behind a backslash the string ends where it does behind the escape, also where two escapes make
up one character. -/
theorem stringEnd_of_escapedChar (opened : Nat) (cs : List Char) :
    stringEnd ('\\' :: cs) = (ending (escapedChar opened cs)).andThen stringEnd := by
  unfold escapedChar
  split
  · rfl
  · rename_i cs
    split
    · rename_i hnone
      exact stringEnd_of_unit?_eq_none hnone
    · rename_i unit rest hsome
      have hrest := stringEnd_of_finishPair unit rest
      rw [stringEnd_of_unit?_eq_some hsome]
      split
      · rename_i e hpair
        rw [hpair] at hrest
        obtain ⟨hrest, problem, left, rfl⟩ := hrest
        exact hrest
      · rename_i c after hpair
        rw [hpair] at hrest
        exact hrest
  · rename_i c cs hunit
    rw [stringEnd_letter (fun h => hunit h)]
    cases escaped? c <;> rfl

/-- A character of its own ends the string, is an error, or is part of the string. -/
theorem stringEnd_plain {c : Char} (hc : c ≠ '\\') (cs : List Char) :
    stringEnd (c :: cs) =
      if c = '"' then .left cs else if c < ' ' then .malformed else stringEnd cs := by
  rw [stringEnd.eq_6]
  · exact fun h _ => hc h
  · exact fun _ _ _ _ _ h _ => hc h
  · exact fun _ h _ => hc h
  · exact fun _ _ h _ => hc h

/-- **The ending of a string** does not depend on where it was opened. -/
theorem ending_stringFrom (opened : Nat) (cs : List Char) :
    ending (stringFrom opened cs) = stringEnd cs := by
  induction cs using stringFrom.induct opened with
  | case1 =>
    rw [stringFrom]
    rfl
  | case2 rest =>
    rw [stringFrom]
    rfl
  | case3 rest e herror hquote =>
    rw [stringEnd_of_escapedChar opened, stringFrom, if_neg hquote, if_pos rfl, herror]
    cases e <;> rfl
  | case4 rest first hfirst e hmore hquote ih =>
    rw [hmore] at ih
    rw [stringEnd_of_escapedChar opened, stringFrom, if_neg hquote, if_pos rfl, hfirst]
    simp only [hmore]
    rw [show (ending (.ok first)).andThen stringEnd = stringEnd first.rest from rfl, ← ih]
    cases e <;> rfl
  | case5 rest first hfirst more hmore hquote ih =>
    rw [hmore] at ih
    rw [stringEnd_of_escapedChar opened, stringFrom, if_neg hquote, if_pos rfl, hfirst]
    simp only [hmore]
    exact ih
  | case6 c rest hquote hbackslash hcontrol =>
    rw [stringEnd_plain hbackslash, stringFrom, if_neg hquote, if_neg hbackslash, if_pos hcontrol,
      if_neg hquote, if_pos hcontrol]
    rfl
  | case7 c rest hquote hbackslash hcontrol e hmore ih =>
    rw [hmore] at ih
    rw [stringEnd_plain hbackslash, stringFrom, if_neg hquote, if_neg hbackslash,
      if_neg hcontrol, if_neg hquote, if_neg hcontrol, hmore, ← ih]
    cases e <;> rfl
  | case8 c rest hquote hbackslash hcontrol more hmore ih =>
    rw [hmore] at ih
    rw [stringEnd_plain hbackslash, stringFrom, if_neg hquote, if_neg hbackslash,
      if_neg hcontrol, if_neg hquote, if_neg hcontrol, hmore]
    exact ih

/-- The reader of strings ends where `stringEnd` says. -/
theorem ending_string (cs : List Char) : ending (string cs) = stringEnd cs := by
  rw [string]
  exact (ending_map (Parsed.rest_map String.ofList) _).trans (ending_stringFrom _ cs)

/-- A string ends behind its closing quote. -/
theorem stringEnd_append {name : List Char} (h : Chars name) (rest : List Char) :
    stringEnd (name ++ '"' :: rest) = .left rest := by
  induction h with
  | nil => rfl
  | plain hspace hquote hbackslash _ ih =>
    rw [List.cons_append, stringEnd_plain hbackslash, if_neg hquote, if_neg (Char.not_lt.2 hspace),
      ih]
  | letter he _ ih =>
    rw [List.cons_append, List.cons_append, ← ih]
    simp only [List.mem_cons, List.not_mem_nil, or_false] at he
    rcases he with rfl | rfl | rfl | rfl | rfl | rfl | rfl | rfl <;>
      exact stringEnd_letter (by decide) _
  | @unit digits cs hlength hdigits _ ih =>
    match digits, hlength with
    | [a, b, c, d], _ =>
      rw [List.cons_append, List.cons_append]
      simp only [List.cons_append, List.nil_append]
      rw [stringEnd, if_pos (List.all_eq_true.2 hdigits), ih]

/-- The letters that have an escape. -/
theorem mem_of_escaped? {e : Char} (h : (escaped? e).isSome) :
    e ∈ ['"', '\\', '/', 'b', 'f', 'n', 'r', 't'] := by
  unfold escaped? at h
  split at h <;> simp_all

/-- What is read as a string are the characters up to a quote. -/
theorem exists_of_stringEnd {cs rest : List Char} (h : stringEnd cs = .left rest) :
    ∃ name, Chars name ∧ cs = name ++ '"' :: rest := by
  fun_induction stringEnd cs with
  | case1 | case2 | case4 | case5 | case7 | case9 => cases h
  | case3 a b c d cs hdigits ih =>
    obtain ⟨name, hname, rfl⟩ := ih h
    exact ⟨'\\' :: 'u' :: ([a, b, c, d] ++ name), .unit rfl (List.all_eq_true.1 hdigits) hname, rfl⟩
  | case6 e cs _ _ hletter ih =>
    obtain ⟨name, hname, rfl⟩ := ih h
    exact ⟨'\\' :: e :: name, .letter (mem_of_escaped? hletter) hname, rfl⟩
  | case8 cs =>
    cases h
    exact ⟨[], .nil, rfl⟩
  | case10 c cs hlast hunits hunit hletter hquote hcontrol ih =>
    obtain ⟨name, hname, rfl⟩ := ih h
    have hbackslash : c ≠ '\\' := by
      rintro rfl
      cases name with
      | nil => exact hletter '"' rest rfl rfl
      | cons x name => exact hletter x (name ++ '"' :: rest) rfl rfl
    exact ⟨c :: name, .plain (Char.not_lt.1 hcontrol) hquote hbackslash hname, rfl⟩

/-- No string has too many digits. -/
theorem stringEnd_ne_long (cs : List Char) : stringEnd cs ≠ .long := by
  fun_induction stringEnd cs <;> simp_all

/-! ## Numbers -/

/-- Whether a text starts with a digit. -/
def startsWithDigit (cs : List Char) : Bool := cs.head?.any isDigit

/-- Digits in front of something else are a run. -/
theorem takeWhile_isDigit_append {ds rest : List Char} (hds : ∀ d ∈ ds, isDigit d)
    (hrest : startsWithDigit rest = false) :
    (ds ++ rest).takeWhile isDigit = ds ∧ (ds ++ rest).dropWhile isDigit = rest := by
  refine Text.takeWhile_append_of_head? hds fun c hc => ?_
  rw [startsWithDigit, hc] at hrest
  exact hrest

/-- What follows a run of digits, by its length and by the characters. -/
theorem drop_takeWhile_isDigit (cs : List Char) :
    cs.drop (cs.takeWhile isDigit).length = cs.dropWhile isDigit := by
  have hdrop := @List.drop_left _ (cs.takeWhile isDigit) (cs.dropWhile isDigit)
  rwa [List.takeWhile_append_dropWhile] at hdrop

/-- No digit follows a run of digits. -/
theorem startsWithDigit_dropWhile (cs : List Char) :
    startsWithDigit (cs.dropWhile isDigit) = false := by
  have hhead := List.head?_dropWhile_not isDigit cs
  rw [startsWithDigit]
  cases hd : (cs.dropWhile isDigit).head? with
  | none => rfl
  | some d =>
    rw [hd] at hhead
    exact hhead

/-- A run of digits is empty exactly if no digit stands in front. -/
theorem takeWhile_isDigit_eq_nil_iff {cs : List Char} :
    cs.takeWhile isDigit = [] ↔ startsWithDigit cs = false := by
  cases cs with
  | nil => exact iff_of_true rfl rfl
  | cons c cs => rw [List.takeWhile_cons]; cases hc : isDigit c <;> simp [startsWithDigit, hc]

/-- Digits at the start of a text. -/
theorem digits_takeWhile {cs : List Char} (h : cs.takeWhile isDigit ≠ []) :
    Digits (cs.takeWhile isDigit) :=
  ⟨h, fun _ hc => List.mem_takeWhile_imp hc⟩

/-- Digits start a text with a digit. -/
theorem startsWithDigit_append {ds : List Char} (h : Digits ds) (rest : List Char) :
    startsWithDigit (ds ++ rest) := by
  obtain ⟨d, ds, rfl⟩ := List.exists_cons_of_ne_nil h.1
  exact h.2 d List.mem_cons_self

/-! ### Digits before a point -/

/-- The whole part of a number is read in front of what does not go on with it; behind a zero
nothing does. -/
theorem wholeDigits_append {whole rest : List Char} (h : Whole whole)
    (hrest : whole = ['0'] ∨ startsWithDigit rest = false) :
    wholeDigits (whole ++ rest) = whole := by
  cases h with
  | zero => rfl
  | @digits c cs hc hzero hcs =>
    have hrest := hrest.resolve_left fun heq => hzero (List.cons.inj heq).1
    rw [wholeDigits]
    · exact (takeWhile_isDigit_append (List.forall_mem_cons.2 ⟨hc, hcs⟩) hrest).1
    · exact fun tail heq => hzero (List.cons.inj heq).1

/-- What is read as the digits before a point. -/
theorem exists_of_wholeDigits {cs : List Char} (h : wholeDigits cs ≠ []) :
    ∃ rest, cs = wholeDigits cs ++ rest ∧ Whole (wholeDigits cs) ∧
      (wholeDigits cs = ['0'] ∨ startsWithDigit rest = false) := by
  revert h
  fun_cases wholeDigits cs with
  | case1 rest => exact fun _ => ⟨rest, rfl, .zero, .inl rfl⟩
  | case2 _ hzero =>
    intro hne
    refine ⟨cs.dropWhile isDigit, List.takeWhile_append_dropWhile.symm, ?_,
      .inr (startsWithDigit_dropWhile cs)⟩
    have hdigits := digits_takeWhile hne
    obtain ⟨d, ds, hds⟩ := List.exists_cons_of_ne_nil hne
    rw [hds] at hdigits ⊢
    obtain ⟨hd, hmore⟩ := List.forall_mem_cons.1 hdigits.2
    refine .digits hd ?_ hmore
    rintro rfl
    have hcs := @List.takeWhile_append_dropWhile _ isDigit cs
    rw [hds] at hcs
    exact hzero _ hcs.symm

/-! ### Fractions -/

/-- The digits of a fraction are read in front of what does not go on with them. -/
theorem dropFraction_fractionDigits {digits rest : List Char} (h : Digits digits)
    (hrest : startsWithDigit rest = false) :
    fractionDigits ('.' :: (digits ++ rest)) = digits ∧
      dropFraction digits ('.' :: (digits ++ rest)) = rest := by
  refine ⟨(takeWhile_isDigit_append h.2 hrest).1, ?_⟩
  rw [dropFraction, if_neg h.1, List.drop_succ_cons, List.drop_left]

/-- What is read as a fraction. -/
theorem exists_of_fractionDigits {cs : List Char} (h : fractionDigits cs ≠ []) :
    Digits (fractionDigits cs) ∧
      cs = '.' :: (fractionDigits cs ++ dropFraction (fractionDigits cs) cs) := by
  rw [dropFraction, if_neg h]
  revert h
  fun_cases fractionDigits cs with
  | case1 rest =>
    intro hne
    refine ⟨digits_takeWhile hne, ?_⟩
    rw [List.drop_succ_cons, drop_takeWhile_isDigit, List.takeWhile_append_dropWhile]
  | case2 => exact fun hne => absurd rfl hne

/-! ### Exponents -/

/-- A sign in front of digits, and the text behind it. -/
theorem exists_sign (cs : List Char) :
    ∃ sign ∈ [[], ['+'], ['-']], cs = sign ++ (if cs.head? = some '-' ∨ cs.head? = some '+' then
      cs.drop 1 else cs) := by
  split
  · rename_i hsigned
    rcases hsigned with hminus | hplus
    · obtain ⟨rest, rfl⟩ := List.head?_eq_some_iff.1 hminus
      exact ⟨['-'], by simp, rfl⟩
    · obtain ⟨rest, rfl⟩ := List.head?_eq_some_iff.1 hplus
      exact ⟨['+'], by simp, rfl⟩
  · exact ⟨[], by simp, rfl⟩

/-- What is read as an exponent. -/
theorem exists_of_exponent? {cs rest : List Char} {size : Int}
    (h : exponent? cs = some (size, rest)) :
    ∃ exponent, exponent ≠ [] ∧ Exponent exponent ∧ cs = exponent ++ rest := by
  unfold exponent? at h
  split at h
  · rename_i e tail
    split at h
    · rename_i he
      simp only [Option.ite_none_left_eq_some, Option.some.injEq, Prod.mk.injEq] at h
      obtain ⟨hdigits, -, hrest⟩ := h
      obtain ⟨sign, hsign, htail⟩ := exists_sign tail
      generalize (if tail.head? = some '-' ∨ tail.head? = some '+' then tail.drop 1 else tail) =
        unsigned at hdigits hrest htail
      rw [drop_takeWhile_isDigit] at hrest
      refine ⟨e :: (sign ++ unsigned.takeWhile isDigit), List.cons_ne_nil _ _,
        .some he hsign (digits_takeWhile hdigits), ?_⟩
      rw [htail, ← hrest]
      simp
    · cases h
  · cases h

/-- An exponent is read in front of what does not go on with its digits. -/
theorem exponent?_append {exponent rest : List Char} (h : Exponent exponent) (hne : exponent ≠ [])
    (hrest : startsWithDigit rest = false) :
    ∃ size, exponent? (exponent ++ rest) = some (size, rest) := by
  cases h with
  | none => exact absurd rfl hne
  | @some e sign digits he hsign hdigits =>
    have htake := takeWhile_isDigit_append hdigits.2 hrest
    have hunsigned : (if (sign ++ (digits ++ rest)).head? = some '-' ∨
        (sign ++ (digits ++ rest)).head? = some '+' then (sign ++ (digits ++ rest)).drop 1
          else sign ++ (digits ++ rest)) = digits ++ rest := by
      simp only [List.mem_cons, List.not_mem_nil, or_false] at hsign
      rcases hsign with rfl | rfl | rfl
      · obtain ⟨d, ds, rfl⟩ := List.exists_cons_of_ne_nil hdigits.1
        have hd := hdigits.2 d List.mem_cons_self
        refine if_neg ?_
        rintro (⟨⟨⟩⟩ | ⟨⟨⟩⟩) <;> exact absurd hd (by decide)
      · rfl
      · rfl
    rw [List.cons_append, List.append_assoc, exponent?, if_pos he]
    simp only [hunsigned, htake.1, if_neg hdigits.1, List.drop_left]
    exact ⟨_, rfl⟩

/-! ### Whole numbers -/

/-- How a number ends behind its first digits, of which there are so many. -/
def behindEnd (count : Nat) (cs : List Char) : Ending :=
  let fraction := fractionDigits cs
  let tail := dropFraction fraction cs
  match exponent? tail with
  | some (_, rest) => .left rest
  | none => if fraction = [] ∧ digitLimit < count then .long else .left tail

/-- How a number without a sign ends. -/
def unsignedEnd (cs : List Char) : Ending :=
  if wholeDigits cs = [] then .malformed
  else behindEnd (wholeDigits cs).length (cs.drop (wholeDigits cs).length)

/-- The reader of numbers without a sign ends where `unsignedEnd` says. -/
theorem ending_unsigned? (negative : Bool) (cs : List Char) :
    ((unsigned? negative cs).map ending).getD .malformed = unsignedEnd cs := by
  unfold unsigned? unsignedEnd behindEnd
  simp only
  split
  · rfl
  · split
    · rename_i hexponent
      simp only [hexponent]
      rfl
    · rename_i hexponent
      simp only [hexponent]
      split <;> rfl

/-- How a number ends. -/
def numberEnd : List Char → Ending
  | '-' :: cs => unsignedEnd cs
  | cs => unsignedEnd cs

/-- Without a sign a number ends where its digits say. -/
theorem numberEnd_of_ne {cs : List Char} (h : cs.head? ≠ some '-') :
    numberEnd cs = unsignedEnd cs := by
  unfold numberEnd
  split
  · exact absurd rfl h
  · rfl

/-- The reader of numbers ends where `numberEnd` says. -/
theorem ending_number (cs : List Char) : ending (number cs) = numberEnd cs := by
  unfold number
  split
  · rename_i rest
    rw [numberEnd, ← ending_unsigned? true rest]
    cases unsigned? true rest with
    | none => rfl
    | some r => exact ending_map Parsed.rest_later r
  · rename_i hminus
    rw [numberEnd_of_ne fun hhead => ?_, ← ending_unsigned? false cs]
    · cases unsigned? false cs <;> rfl
    · obtain ⟨rest, hcs⟩ := List.head?_eq_some_iff.1 hhead
      exact hminus rest hcs

/-- A text goes on with an integer if a digit, a fraction or an exponent is read there. -/
theorem goesOn_iff {cs : List Char} :
    GoesOn cs ↔ startsWithDigit cs ∨ fractionDigits cs ≠ [] ∨ exponent? cs ≠ none := by
  constructor
  · rintro ⟨_, hne, ⟨tail, rfl⟩, hdigits | hfraction | hexponent⟩
    · exact .inl (startsWithDigit_append hdigits tail)
    · cases hfraction with
      | none => exact absurd rfl hne
      | some hdigits =>
        refine .inr (.inl fun hnil => ?_)
        rw [List.cons_append, fractionDigits, takeWhile_isDigit_eq_nil_iff,
          startsWithDigit_append hdigits] at hnil
        cases hnil
    · cases hexponent with
      | none => exact absurd rfl hne
      | @some e sign digits he hsign hdigits =>
        -- The digits may go on in the text.
        have htake : (digits ++ tail).takeWhile isDigit ≠ [] := fun hnil => by
          rw [takeWhile_isDigit_eq_nil_iff, startsWithDigit_append hdigits] at hnil
          cases hnil
        obtain ⟨size, hsome⟩ := exponent?_append (.some he hsign (digits_takeWhile htake))
          (List.cons_ne_nil _ _) (startsWithDigit_dropWhile (digits ++ tail))
        rw [List.cons_append, List.append_assoc, List.takeWhile_append_dropWhile] at hsome
        refine .inr (.inr ?_)
        rw [List.cons_append, List.append_assoc, hsome]
        exact Option.some_ne_none _
  · rintro (hdigit | hfraction | hexponent)
    · cases cs with
      | nil => cases hdigit
      | cons d cs =>
        exact ⟨[d], List.cons_ne_nil _ _, ⟨cs, rfl⟩, .inl ⟨List.cons_ne_nil _ _,
          List.forall_mem_singleton.2 hdigit⟩⟩
    · obtain ⟨hdigits, hcs⟩ := exists_of_fractionDigits hfraction
      exact ⟨'.' :: fractionDigits cs, List.cons_ne_nil _ _, ⟨_, hcs.symm⟩,
        .inr (.inl (.some hdigits))⟩
    · obtain ⟨⟨size, rest⟩, hsome⟩ := Option.ne_none_iff_exists'.1 hexponent
      obtain ⟨exponent, hne, hexponent, hcs⟩ := exists_of_exponent? hsome
      exact ⟨exponent, hne, ⟨rest, hcs.symm⟩, .inr (.inr hexponent)⟩

/-- A sign in front does not change where a number ends. -/
theorem numberEnd_sign {sign whole : List Char} (hsign : sign ∈ [[], ['-']]) (hwhole : Whole whole)
    (rest : List Char) : numberEnd (sign ++ (whole ++ rest)) = unsignedEnd (whole ++ rest) := by
  simp only [List.mem_cons, List.not_mem_nil, or_false] at hsign
  rcases hsign with rfl | rfl
  · obtain ⟨d, ds, rfl, hd⟩ := hwhole.exists_cons
    refine numberEnd_of_ne ?_
    rintro ⟨⟩
    exact absurd hd (by decide)
  · rfl

/-- A number with or without a sign. -/
theorem exists_sign_numberEnd (cs : List Char) :
    ∃ sign ∈ [[], ['-']], ∃ ds, cs = sign ++ ds ∧ numberEnd cs = unsignedEnd ds := by
  fun_cases numberEnd cs with
  | case1 cs => exact ⟨['-'], by simp, cs, rfl, rfl⟩
  | case2 => exact ⟨[], by simp, cs, rfl, rfl⟩

/-- Behind the whole part of a number its fraction and its exponent decide. -/
theorem unsignedEnd_append {whole rest : List Char} (hwhole : Whole whole)
    (hrest : whole = ['0'] ∨ startsWithDigit rest = false) :
    unsignedEnd (whole ++ rest) = behindEnd whole.length rest := by
  obtain ⟨d, ds, hcons, -⟩ := hwhole.exists_cons
  rw [unsignedEnd, wholeDigits_append hwhole hrest, if_neg (hcons ▸ List.cons_ne_nil d ds),
    List.drop_left]

/-- What is read as a number starts with a whole part. -/
theorem exists_of_unsignedEnd {cs : List Char} (h : unsignedEnd cs ≠ .malformed) :
    ∃ whole rest, cs = whole ++ rest ∧ Whole whole ∧
      (whole = ['0'] ∨ startsWithDigit rest = false) ∧
      unsignedEnd cs = behindEnd whole.length rest := by
  have hne : wholeDigits cs ≠ [] := fun hnil => h (if_pos hnil)
  obtain ⟨rest, hcs, hwhole, hrest⟩ := exists_of_wholeDigits hne
  refine ⟨wholeDigits cs, rest, hcs, hwhole, hrest, ?_⟩
  rw [← unsignedEnd_append hwhole hrest, ← hcs]

/-- A number has too many digits only if it is whole: a fraction or an exponent makes it one of
another kind. -/
theorem behindEnd_eq_long_iff {count : Nat} {cs : List Char} :
    behindEnd count cs = .long ↔
      4300 < count ∧ fractionDigits cs = [] ∧ exponent? cs = none := by
  rw [behindEnd]
  constructor
  · intro h
    split at h
    · cases h
    · rename_i hexponent
      split at h
      · rename_i hlong
        rw [hlong.1, dropFraction, if_pos rfl] at hexponent
        exact ⟨hlong.2, hlong.1, hexponent⟩
      · cases h
  · rintro ⟨hcount, hfraction, hexponent⟩
    simp only [hfraction, dropFraction, if_true, hexponent]
    exact if_pos ⟨trivial, hcount⟩

/-- **A reader stops at an integer of more than 4300 digits.** -/
theorem numberEnd_eq_long_iff {cs : List Char} : numberEnd cs = .long ↔ StartsLong cs := by
  constructor
  · intro h
    obtain ⟨sign, hsign, ds, rfl, hds⟩ := exists_sign_numberEnd cs
    rw [hds] at h
    have hne : unsignedEnd ds ≠ .malformed := fun hmalformed => by
      rw [hmalformed] at h
      cases h
    obtain ⟨whole, rest, rfl, hwhole, hrest, hend⟩ := exists_of_unsignedEnd hne
    rw [hend, behindEnd_eq_long_iff] at h
    obtain ⟨hlong, hfraction, hexponent⟩ := h
    have hdigit : startsWithDigit rest = false := hrest.resolve_left fun hzero => by
      rw [hzero] at hlong
      exact absurd hlong (by decide)
    refine .mk hsign hwhole hlong ?_
    rw [goesOn_iff, hdigit, hfraction, hexponent]
    simp
  · intro h
    cases h with
    | @mk sign whole rest hsign hwhole hlong hrest =>
      rw [goesOn_iff, not_or, not_or, not_not, not_not, Bool.not_eq_true] at hrest
      rw [numberEnd_sign hsign hwhole, unsignedEnd_append hwhole (.inr hrest.1),
        behindEnd_eq_long_iff]
      exact ⟨hlong, hrest.2⟩

/-- What is read behind the whole part is a fraction and an exponent. -/
theorem exists_of_behindEnd {count : Nat} {cs rest : List Char}
    (h : behindEnd count cs = .left rest) :
    ∃ fraction exponent, Fraction fraction ∧ Exponent exponent ∧
      cs = fraction ++ (exponent ++ rest) := by
  have hfraction : ∃ fraction, Fraction fraction ∧
      cs = fraction ++ dropFraction (fractionDigits cs) cs := by
    by_cases hnil : fractionDigits cs = []
    · exact ⟨[], .none, by rw [hnil, dropFraction, if_pos rfl, List.nil_append]⟩
    · obtain ⟨hdigits, hcs⟩ := exists_of_fractionDigits hnil
      exact ⟨_, .some hdigits, hcs⟩
  obtain ⟨fraction, hfraction, hcs⟩ := hfraction
  rw [behindEnd] at h
  split at h
  · rename_i size after hexponent
    cases h
    obtain ⟨exponent, -, hexponent, htail⟩ := exists_of_exponent? hexponent
    exact ⟨fraction, exponent, hfraction, hexponent, by rw [← htail]; exact hcs⟩
  · split at h
    · cases h
    · cases h
      exact ⟨fraction, [], hfraction, .none, hcs⟩

/-- What is read as a number is one. -/
theorem exists_of_numberEnd {cs rest : List Char} (h : numberEnd cs = .left rest) :
    ∃ text, IsNumber text ∧ cs = text ++ rest := by
  obtain ⟨sign, hsign, ds, rfl, hds⟩ := exists_sign_numberEnd cs
  rw [hds] at h
  have hne : unsignedEnd ds ≠ .malformed := fun hmalformed => by
    rw [hmalformed] at h
    cases h
  obtain ⟨whole, behind, rfl, hwhole, -, hend⟩ := exists_of_unsignedEnd hne
  rw [hend] at h
  obtain ⟨fraction, exponent, hfraction, hexponent, rfl⟩ := exists_of_behindEnd h
  exact ⟨_, .mk hsign hwhole hfraction hexponent, by simp⟩

/-- What may follow a value. -/
def Follows (cs : List Char) : Prop := ∀ c ∈ cs.head?, isBlank c ∨ c ∈ [',', ']', '\x7d']

/-- What may follow a value goes on with no number. -/
theorem Follows.not_number {cs : List Char} (h : Follows cs) :
    startsWithDigit cs = false ∧ fractionDigits cs = [] ∧ exponent? cs = none := by
  cases cs with
  | nil => exact ⟨rfl, rfl, rfl⟩
  | cons c cs =>
    have hc : c ∈ [' ', '\t', '\n', '\r', ',', ']', '\x7d'] := by
      simpa [isBlank, or_assoc] using h c rfl
    simp only [List.mem_cons, List.not_mem_nil, or_false] at hc
    rcases hc with rfl | rfl | rfl | rfl | rfl | rfl | rfl <;> exact ⟨rfl, rfl, rfl⟩

/-- What follows the digits before a point is read up to what may follow a value, unless a reader
stops there. -/
theorem behindEnd_append {fraction exponent rest : List Char} (hfraction : Fraction fraction)
    (hexponent : Exponent exponent) (hrest : Follows rest) (count : Nat) :
    startsWithDigit (fraction ++ (exponent ++ rest)) = false ∧
      (behindEnd count (fraction ++ (exponent ++ rest)) = .left rest ∨
        behindEnd count (fraction ++ (exponent ++ rest)) = .long) := by
  obtain ⟨hdigit, hpoint, hletter⟩ := hrest.not_number
  have hhead : startsWithDigit (exponent ++ rest) = false ∧
      fractionDigits (exponent ++ rest) = [] := by
    cases hexponent with
    | none => exact ⟨hdigit, hpoint⟩
    | some he => rcases he with rfl | rfl <;> exact ⟨rfl, rfl⟩
  have htail : startsWithDigit (fraction ++ (exponent ++ rest)) = false ∧
      dropFraction (fractionDigits (fraction ++ (exponent ++ rest)))
        (fraction ++ (exponent ++ rest)) = exponent ++ rest := by
    cases hfraction with
    | none => exact ⟨hhead.1, by rw [List.nil_append, hhead.2, dropFraction, if_pos rfl]⟩
    | some hdigits =>
      have hdrop := dropFraction_fractionDigits hdigits hhead.1
      rw [List.cons_append, hdrop.1]
      exact ⟨rfl, hdrop.2⟩
  refine ⟨htail.1, ?_⟩
  rw [behindEnd]
  simp only [htail.2]
  by_cases hnil : exponent = []
  · subst hnil
    rw [List.nil_append, hletter]
    simp only
    split
    · exact .inr rfl
    · exact .inl rfl
  · obtain ⟨size, hsome⟩ := exponent?_append hexponent hnil hdigit
    rw [hsome]
    exact .inl rfl

/-- A number is read up to what may follow a value, unless a reader stops at it. -/
theorem numberEnd_append {text rest : List Char} (h : IsNumber text) (hrest : Follows rest) :
    numberEnd (text ++ rest) = .left rest ∨ numberEnd (text ++ rest) = .long := by
  cases h with
  | @mk sign whole fraction exponent hsign hwhole hfraction hexponent =>
    obtain ⟨hdigit, hend⟩ := behindEnd_append hfraction hexponent hrest whole.length
    have htext : sign ++ (whole ++ (fraction ++ exponent)) ++ rest =
        sign ++ (whole ++ (fraction ++ (exponent ++ rest))) := by simp
    rwa [htext, numberEnd_sign hsign hwhole, unsignedEnd_append hwhole (.inr hdigit)]

end Json
end Ferrotype
