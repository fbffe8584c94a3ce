/-
# Breaks between lines in JSON

A break between lines may stand only between the parts of a value, where it is a blank whichever way
it is written, and no string holds one. So a text holds a value if and only if it does with a line
feed for each break (`derives_unifyBreaks_iff`), and the same goes for where a reader stops
(`stops_unifyBreaks_iff`).
-/

import Ferrotype.Proofs.Json.Grammar
import Ferrotype.Text.Line

namespace Ferrotype

/-! ## Breaks in a text -/

namespace Text

/-- What is no carriage return stays as it is. -/
theorem unifyBreaks_cons {c : Char} (hc : c ≠ '\r') (cs : List Char) :
    unifyBreaks (c :: cs) = c :: unifyBreaks cs := by
  rw [unifyBreaks, if_neg hc]
  exact fun rest heq => absurd heq hc

/-- Breaks are written alike in two parts of a text, if no break is in both. -/
theorem unifyBreaks_append {xs ys : List Char}
    (h : xs.getLast? ≠ some '\r' ∨ ys.head? ≠ some '\n') :
    unifyBreaks (xs ++ ys) = unifyBreaks xs ++ unifyBreaks ys := by
  fun_induction unifyBreaks xs with
  | case1 => rfl
  | case2 rest ih =>
    have hrest : rest.getLast? ≠ some '\r' ∨ ys.head? ≠ some '\n' := by
      refine h.imp_left fun hlast heq => hlast ?_
      rw [List.getLast?_cons_cons, List.getLast?_cons, heq]
      rfl
    rw [List.cons_append, List.cons_append, unifyBreaks, ih hrest, List.cons_append]
  | case3 c rest hpair ih =>
    have hrest : rest.getLast? ≠ some '\r' ∨ ys.head? ≠ some '\n' := by
      refine h.imp_left fun hlast heq => hlast ?_
      rw [List.getLast?_cons, heq]
      rfl
    rw [List.cons_append, unifyBreaks, ih hrest, List.cons_append]
    rintro tail rfl htail
    cases rest with
    | nil =>
      obtain hlast | hhead := h
      · exact hlast rfl
      · exact hhead (by rw [← List.nil_append ys, htail]; rfl)
    | cons d rest =>
      obtain ⟨rfl, -⟩ := List.cons.inj htail
      exact hpair rest rfl rfl

/-- The part of a text that an end of it came from. -/
theorem exists_of_unifyBreaks_eq_append {text xs ys : List Char}
    (h : unifyBreaks text = xs ++ ys) :
    ∃ us vs, text = us ++ vs ∧ unifyBreaks us = xs ∧ unifyBreaks vs = ys := by
  induction xs generalizing text with
  | nil => exact ⟨[], text, rfl, rfl, h⟩
  | cons x xs ih =>
    revert h
    fun_cases unifyBreaks text with
    | case1 => exact nofun
    | case2 rest =>
      intro h
      obtain ⟨rfl, hrest⟩ := List.cons.inj h
      obtain ⟨us, vs, rfl, rfl, hvs⟩ := ih hrest
      exact ⟨'\r' :: '\n' :: us, vs, rfl, rfl, hvs⟩
    | case3 c rest hpair =>
      intro h
      obtain ⟨rfl, hrest⟩ := List.cons.inj h
      obtain ⟨us, vs, rfl, rfl, hvs⟩ := ih hrest
      refine ⟨c :: us, vs, rfl, ?_, hvs⟩
      rw [unifyBreaks]
      exact fun tail hc htail => hpair (tail ++ vs) hc (by rw [htail]; rfl)

/-- No text is lost altogether. -/
theorem unifyBreaks_eq_nil {text : List Char} (h : unifyBreaks text = []) : text = [] := by
  revert h
  fun_cases unifyBreaks text with
  | case1 => exact fun _ => rfl
  | case2 => exact nofun
  | case3 => exact nofun

/-- What starts with a character that is no break started with it before. -/
theorem exists_of_unifyBreaks_eq_cons {text cs : List Char} {c : Char} (hc : c ≠ '\n')
    (h : unifyBreaks text = c :: cs) : ∃ rest, text = c :: rest ∧ unifyBreaks rest = cs := by
  revert h
  fun_cases unifyBreaks text with
  | case1 => exact nofun
  | case2 rest => exact fun h => absurd (List.cons.inj h).1.symm hc
  | case3 d rest hpair =>
    intro h
    obtain ⟨hd, hrest⟩ := List.cons.inj h
    split at hd
    · exact absurd hd.symm hc
    · exact ⟨rest, by rw [hd], hrest⟩

/-- A text in which nothing is a break. -/
theorem eq_of_newline_notMem_unifyBreaks {text : List Char} (h : '\n' ∉ unifyBreaks text) :
    unifyBreaks text = text := by
  generalize htext : unifyBreaks text = cs at h
  induction cs generalizing text with
  | nil => exact (unifyBreaks_eq_nil htext).symm
  | cons c cs ih =>
    rw [List.mem_cons, not_or] at h
    obtain ⟨rest, rfl, hrest⟩ := exists_of_unifyBreaks_eq_cons (Ne.symm h.1) htext
    rw [ih hrest h.2]

/-- A text without carriage returns stays as it is. -/
theorem unifyBreaks_of_return_notMem {text : List Char} (h : '\r' ∉ text) :
    unifyBreaks text = text := by
  induction text with
  | nil => rfl
  | cons c text ih =>
    rw [List.mem_cons, not_or] at h
    rw [unifyBreaks_cons (Ne.symm h.1), ih h.2]

end Text

namespace Json

open Text

/-! ## Texts without breaks -/

/-- Whether no character of a text is a break. -/
def Unbroken (cs : List Char) : Prop := ∀ c ∈ cs, isBreak c = false

/-- The characters of a text without breaks are none. -/
theorem Unbroken.ne {cs : List Char} (h : Unbroken cs) {c : Char} (hc : c ∈ cs) :
    c ≠ '\n' ∧ c ≠ '\r' := by
  simpa [isBreak] using h c hc

/-- A text without breaks stays as it is. -/
theorem Unbroken.unifyBreaks_eq {cs : List Char} (h : Unbroken cs) : unifyBreaks cs = cs :=
  unifyBreaks_of_return_notMem fun hmem => (h.ne hmem).2 rfl

/-- What becomes a text without breaks was that text before. -/
theorem Unbroken.eq_of_unifyBreaks {cs text : List Char} (h : Unbroken cs)
    (htext : unifyBreaks text = cs) : text = cs := by
  rw [← htext, eq_of_newline_notMem_unifyBreaks]
  rw [htext]
  exact fun hmem => (h.ne hmem).1 rfl

theorem Unbroken.append {cs ds : List Char} (hcs : Unbroken cs) (hds : Unbroken ds) :
    Unbroken (cs ++ ds) := List.forall_mem_append.2 ⟨hcs, hds⟩

/-- A text without breaks is written alike in front of any other. -/
theorem Unbroken.unifyBreaks_append {cs : List Char} (h : Unbroken cs) (ds : List Char) :
    unifyBreaks (cs ++ ds) = cs ++ unifyBreaks ds := by
  rw [Text.unifyBreaks_append (.inl fun hlast => (h.ne (List.mem_of_getLast? hlast)).2 rfl),
    h.unifyBreaks_eq]

/-- What starts with a text without breaks started with it before. -/
theorem Unbroken.exists_of_unifyBreaks {text cs ds : List Char} (h : Unbroken cs)
    (htext : unifyBreaks text = cs ++ ds) : ∃ vs, text = cs ++ vs ∧ unifyBreaks vs = ds := by
  obtain ⟨us, vs, rfl, hus, hvs⟩ := exists_of_unifyBreaks_eq_append htext
  exact ⟨vs, by rw [h.eq_of_unifyBreaks hus], hvs⟩

/-- A literal holds no break, since control characters need escapes in it. -/
theorem Chars.unbroken {cs : List Char} (h : Chars cs) : Unbroken cs := by
  induction h with
  | nil => exact nofun
  | @plain c cs hspace _ _ _ ih =>
    refine List.forall_mem_cons.2 ⟨?_, ih⟩
    rw [isBreak, Bool.or_eq_false_iff, beq_eq_false_iff_ne, beq_eq_false_iff_ne]
    constructor <;> (rintro rfl; exact absurd hspace (by decide))
  | letter he _ ih =>
    refine List.forall_mem_cons.2 ⟨rfl, List.forall_mem_cons.2 ⟨?_, ih⟩⟩
    revert he
    simp only [List.mem_cons, List.not_mem_nil, or_false]
    rintro (rfl | rfl | rfl | rfl | rfl | rfl | rfl | rfl) <;> rfl
  | unit _ hdigits _ ih =>
    refine List.forall_mem_cons.2 ⟨rfl, List.forall_mem_cons.2 ⟨rfl,
      List.forall_mem_append.2 ⟨fun d hd => ?_, ih⟩⟩⟩
    have hdigit := hdigits d hd
    rw [isBreak, Bool.or_eq_false_iff, beq_eq_false_iff_ne, beq_eq_false_iff_ne]
    exact ⟨Text.Hexadecimal.ne_of_isDigit hdigit rfl, Text.Hexadecimal.ne_of_isDigit hdigit rfl⟩

/-- The same of a literal with its quotes. -/
theorem Chars.unbroken_quoted {cs : List Char} (h : Chars cs) : Unbroken ('"' :: (cs ++ ['"'])) :=
  List.forall_mem_cons.2 ⟨rfl, h.unbroken.append (List.forall_mem_singleton.2 rfl)⟩

/-- No digit is a break. -/
theorem isBreak_of_isDigit {d : Char} (h : isDigit d) : isBreak d = false := by
  rw [isBreak, Bool.or_eq_false_iff, beq_eq_false_iff_ne, beq_eq_false_iff_ne]
  constructor <;> (rintro rfl; exact absurd h (by decide))

/-- Digits hold no break. -/
theorem Digits.unbroken {cs : List Char} (h : Digits cs) : Unbroken cs :=
  fun d hd => isBreak_of_isDigit (h.2 d hd)

/-- The whole part of a number holds no break. -/
theorem Whole.unbroken {cs : List Char} (h : Whole cs) : Unbroken cs := by
  cases h with
  | zero => exact List.forall_mem_singleton.2 rfl
  | digits hc _ hcs =>
    exact List.forall_mem_cons.2 ⟨isBreak_of_isDigit hc, fun d hd => isBreak_of_isDigit (hcs d hd)⟩

/-- The fraction of a number holds no break. -/
theorem Fraction.unbroken {cs : List Char} (h : Fraction cs) : Unbroken cs := by
  cases h with
  | none => exact nofun
  | some h => exact List.forall_mem_cons.2 ⟨rfl, h.unbroken⟩

/-- The sign of an exponent is no break. -/
theorem unbroken_sign {sign : List Char} (h : sign ∈ [[], ['+'], ['-']]) : Unbroken sign := by
  simp only [List.mem_cons, List.not_mem_nil, or_false] at h
  rcases h with rfl | rfl | rfl
  · exact nofun
  · exact List.forall_mem_singleton.2 rfl
  · exact List.forall_mem_singleton.2 rfl

/-- The sign of a number is no break. -/
theorem unbroken_minus {sign : List Char} (h : sign ∈ [[], ['-']]) : Unbroken sign :=
  unbroken_sign (by
    simp only [List.mem_cons, List.not_mem_nil, or_false] at h ⊢
    exact h.imp_right .inr)

/-- The exponent of a number holds no break. -/
theorem Exponent.unbroken {cs : List Char} (h : Exponent cs) : Unbroken cs := by
  cases h with
  | none => exact nofun
  | some he hsign h =>
    refine List.forall_mem_cons.2 ⟨?_, (unbroken_sign hsign).append h.unbroken⟩
    rcases he with rfl | rfl <;> rfl

/-- A number holds no break. -/
theorem IsNumber.unbroken {cs : List Char} (h : IsNumber cs) : Unbroken cs := by
  cases h with
  | mk hsign hwhole hfraction hexponent =>
    exact (unbroken_minus hsign).append
      (hwhole.unbroken.append (hfraction.unbroken.append hexponent.unbroken))

/-- The words that are values hold no break. -/
theorem unbroken_word {cs : List Char} (h : cs ∈ valueWords) : Unbroken cs := by
  have hall : cs.all (!isBreak ·) := by
    simp only [valueWords, List.mem_cons, List.not_mem_nil, or_false] at h
    rcases h with rfl | rfl | rfl | rfl | rfl | rfl <;> decide
  exact fun c hc => by simpa using List.all_eq_true.1 hall c hc

/-! ## Breaks in the parts of a value -/

/-- Blanks stay blanks, and nothing else becomes one. -/
theorem blanks_unifyBreaks_iff {cs : List Char} : Blanks (unifyBreaks cs) ↔ Blanks cs := by
  fun_induction unifyBreaks cs with
  | case1 => exact Iff.rfl
  | case2 rest ih =>
    rw [Blanks, List.forall_mem_cons, Blanks, List.forall_mem_cons, List.forall_mem_cons]
    exact ⟨fun h => ⟨rfl, rfl, ih.1 h.2⟩, fun h => ⟨rfl, ih.2 h.2.2⟩⟩
  | case3 c rest _ ih =>
    have hc : isBlank (if c = '\r' then '\n' else c) = isBlank c := by
      split
      · rename_i heq
        subst heq
        rfl
      · rfl
    rw [Blanks, List.forall_mem_cons, Blanks, List.forall_mem_cons, hc]
    exact and_congr_right' ih

/-- The brackets that open a group are no breaks. -/
theorem opening_ne_newline (g : Group) : g.opening ≠ '\n' ∧ g.opening ≠ '\r' := by
  cases g <;> decide

/-- The brackets that close a group are no breaks. -/
theorem unbroken_closing (g : Group) : Unbroken [g.closing] := by
  cases g <;> exact List.forall_mem_singleton.2 rfl

/-- A member's name with the blanks around it and the colon. -/
theorem exists_of_unifyBreaks_member {text before name after cs : List Char} (hname : Chars name)
    (h : unifyBreaks text = before ++ '"' :: (name ++ '"' :: (after ++ ':' :: cs))) :
    ∃ us vs ws, text = us ++ '"' :: (name ++ '"' :: (vs ++ ':' :: ws)) ∧ unifyBreaks us = before ∧
      unifyBreaks vs = after ∧ unifyBreaks ws = cs := by
  obtain ⟨us, quoted, rfl, hus, hquoted⟩ := exists_of_unifyBreaks_eq_append h
  obtain ⟨named, rfl, hnamed⟩ := exists_of_unifyBreaks_eq_cons (by decide) hquoted
  obtain ⟨closed, rfl, hclosed⟩ := hname.unbroken.exists_of_unifyBreaks hnamed
  obtain ⟨behind, rfl, hbehind⟩ := exists_of_unifyBreaks_eq_cons (by decide) hclosed
  obtain ⟨vs, colon, rfl, hvs, hcolon⟩ := exists_of_unifyBreaks_eq_append hbehind
  obtain ⟨ws, rfl, hws⟩ := exists_of_unifyBreaks_eq_cons (by decide) hcolon
  exact ⟨us, vs, ws, rfl, hus, hvs, hws⟩

/-- The breaks of a member are those around its name and those of its value. -/
theorem unifyBreaks_member {before name after cs : List Char} (hname : Chars name) :
    unifyBreaks (before ++ '"' :: (name ++ '"' :: (after ++ ':' :: cs))) =
      unifyBreaks before ++ '"' :: (name ++ '"' :: (unifyBreaks after ++ ':' :: unifyBreaks cs)) := by
  rw [unifyBreaks_append (.inr (by simp)), unifyBreaks_cons (by decide),
    hname.unbroken.unifyBreaks_append, unifyBreaks_cons (by decide),
    unifyBreaks_append (.inr (by simp)), unifyBreaks_cons (by decide)]

/-- What a text with line feeds for its breaks is derived as, the text is. -/
theorem Derives.of_unifyBreaks {part : Part} {cs text : List Char} (h : Derives part cs)
    (htext : unifyBreaks text = cs) : Derives part text := by
  induction h generalizing text with
  | word h => exact (unbroken_word h).eq_of_unifyBreaks htext ▸ .word h
  | number h => exact h.unbroken.eq_of_unifyBreaks htext ▸ .number h
  | string h => exact h.unbroken_quoted.eq_of_unifyBreaks htext ▸ .string h
  | @empty g blanks h =>
    obtain ⟨rest, rfl, hrest⟩ := exists_of_unifyBreaks_eq_cons (opening_ne_newline g).1 htext
    obtain ⟨us, vs, rfl, rfl, hvs⟩ := exists_of_unifyBreaks_eq_append hrest
    rw [(unbroken_closing g).eq_of_unifyBreaks hvs]
    exact .empty (blanks_unifyBreaks_iff.1 h)
  | @group g cs h ih =>
    obtain ⟨rest, rfl, hrest⟩ := exists_of_unifyBreaks_eq_cons (opening_ne_newline g).1 htext
    obtain ⟨us, vs, rfl, hus, hvs⟩ := exists_of_unifyBreaks_eq_append hrest
    rw [(unbroken_closing g).eq_of_unifyBreaks hvs]
    exact .group (ih hus)
  | element hbefore hafter h ih =>
    obtain ⟨us, rest, rfl, rfl, hrest⟩ := exists_of_unifyBreaks_eq_append htext
    obtain ⟨vs, ws, rfl, hvs, rfl⟩ := exists_of_unifyBreaks_eq_append hrest
    exact .element (blanks_unifyBreaks_iff.1 hbefore) (blanks_unifyBreaks_iff.1 hafter) (ih hvs)
  | member hbefore hname hafter h ih =>
    obtain ⟨us, vs, ws, rfl, rfl, rfl, hws⟩ := exists_of_unifyBreaks_member hname htext
    exact .member (blanks_unifyBreaks_iff.1 hbefore) hname (blanks_unifyBreaks_iff.1 hafter)
      (ih hws)
  | last h ih => exact .last (ih htext)
  | more h hmore ih ihmore =>
    obtain ⟨us, rest, rfl, hus, hrest⟩ := exists_of_unifyBreaks_eq_append htext
    obtain ⟨vs, rfl, hvs⟩ := exists_of_unifyBreaks_eq_cons (by decide) hrest
    exact .more (ih hus) (ihmore hvs)

/-- A value is not empty. -/
theorem Derives.value_ne_nil {cs : List Char} (h : Derives .value cs) : cs ≠ [] := by
  cases h with
  | word h =>
    rintro rfl
    exact absurd h (by decide)
  | number h =>
    cases h with
    | mk hsign hwhole hfraction hexponent =>
      obtain ⟨d, ds, rfl, -⟩ := hwhole.exists_cons
      simp
  | string | empty | group => exact List.cons_ne_nil _ _

/-- A value neither starts nor ends with a break. -/
theorem Derives.ends {cs : List Char} (h : Derives .value cs) :
    cs.head? ≠ some '\n' ∧ cs.getLast? ≠ some '\r' := by
  have hunbroken {ds : List Char} (h : Unbroken ds) :
      ds.head? ≠ some '\n' ∧ ds.getLast? ≠ some '\r' :=
    ⟨fun hhead => (h.ne (List.mem_of_head? hhead)).1 rfl,
      fun hlast => (h.ne (List.mem_of_getLast? hlast)).2 rfl⟩
  have hgroup (g : Group) (ds : List Char) : (g.opening :: (ds ++ [g.closing])).head? ≠ some '\n' ∧
      (g.opening :: (ds ++ [g.closing])).getLast? ≠ some '\r' := by
    rw [← List.cons_append, List.getLast?_concat]
    cases g <;> exact ⟨nofun, nofun⟩
  cases h with
  | word h => exact hunbroken (unbroken_word h)
  | number h => exact hunbroken h.unbroken
  | string h => exact hunbroken h.unbroken_quoted
  | empty => exact hgroup _ _
  | group => exact hgroup _ _

/-- The breaks of a group are those of its items. -/
theorem unifyBreaks_group (g : Group) (cs : List Char) :
    unifyBreaks (g.opening :: (cs ++ [g.closing])) =
      g.opening :: (unifyBreaks cs ++ [g.closing]) := by
  have hclosing : [g.closing].head? ≠ some '\n' := by cases g <;> exact nofun
  rw [unifyBreaks_cons (opening_ne_newline g).2, Text.unifyBreaks_append (.inr hclosing),
    (unbroken_closing g).unifyBreaks_eq]

/-- The breaks of an element are its own and those around it. -/
theorem unifyBreaks_element {before cs after : List Char} (h : Derives .value cs) :
    unifyBreaks (before ++ (cs ++ after)) =
      unifyBreaks before ++ (unifyBreaks cs ++ unifyBreaks after) := by
  obtain ⟨c, tail, hcons⟩ := List.exists_cons_of_ne_nil h.value_ne_nil
  have hhead : (cs ++ after).head? ≠ some '\n' := by
    have := h.ends.1
    rw [hcons] at this ⊢
    exact this
  rw [Text.unifyBreaks_append (.inr hhead), Text.unifyBreaks_append (.inl h.ends.2)]

/-- What is derived still is when its breaks are made alike. The induction is on the derivation;
only blanks hold breaks. -/
theorem Derives.unifyBreaks {part : Part} {cs : List Char} (h : Derives part cs) :
    Derives part (unifyBreaks cs) := by
  induction h with
  | word h => exact (unbroken_word h).unifyBreaks_eq.symm ▸ .word h
  | number h => exact h.unbroken.unifyBreaks_eq.symm ▸ .number h
  | string h => exact h.unbroken_quoted.unifyBreaks_eq.symm ▸ .string h
  | @empty g blanks h =>
    rw [unifyBreaks_group]
    exact .empty (blanks_unifyBreaks_iff.2 h)
  | @group g cs h ih =>
    rw [unifyBreaks_group]
    exact .group ih
  | element hbefore hafter h ih =>
    rw [unifyBreaks_element h]
    exact .element (blanks_unifyBreaks_iff.2 hbefore) (blanks_unifyBreaks_iff.2 hafter) ih
  | member hbefore hname hafter h ih =>
    rw [unifyBreaks_member hname]
    exact .member (blanks_unifyBreaks_iff.2 hbefore) hname (blanks_unifyBreaks_iff.2 hafter) ih
  | last h ih => exact .last ih
  | more h hmore ih ihmore =>
    rw [Text.unifyBreaks_append (.inr (by simp)), unifyBreaks_cons (by decide)]
    exact .more ih ihmore

/-- The same in both directions. -/
theorem derives_unifyBreaks_iff {part : Part} {cs : List Char} :
    Derives part (Text.unifyBreaks cs) ↔ Derives part cs :=
  ⟨fun h => h.of_unifyBreaks rfl, fun h => h.unifyBreaks⟩

/-- A text is an object with either kind of breaks, or with neither. -/
theorem isObject_unifyBreaks_iff {text : List Char} :
    IsObject (Text.unifyBreaks text) ↔ IsObject text := by
  constructor
  · rintro ⟨before, cs, after, hbefore, hafter, hcs, htext⟩
    obtain ⟨us, rest, rfl, rfl, hrest⟩ := exists_of_unifyBreaks_eq_append htext
    obtain ⟨vs, ws, rfl, hvs, rfl⟩ := exists_of_unifyBreaks_eq_append hrest
    obtain ⟨ds, rfl, -⟩ := exists_of_unifyBreaks_eq_cons (opening_ne_newline _).1 hvs
    exact ⟨us, ds, ws, blanks_unifyBreaks_iff.1 hbefore, blanks_unifyBreaks_iff.1 hafter,
      hcs.of_unifyBreaks hvs, rfl⟩
  · rintro ⟨before, cs, after, hbefore, hafter, hcs, rfl⟩
    have hbreaks := hcs.unifyBreaks
    rw [unifyBreaks_element hcs]
    rw [unifyBreaks_cons (opening_ne_newline _).2] at hbreaks ⊢
    exact ⟨_, _, _, blanks_unifyBreaks_iff.2 hbefore, blanks_unifyBreaks_iff.2 hafter, hbreaks, rfl⟩

/-! ## Breaks in front of a value -/

/-- A text ends in front of a value if it does so once its breaks are made alike. The induction is
on what awaits the value; only blanks hold breaks. -/
theorem Awaits.of_unifyBreaks {part : Part} {cs text : List Char} (h : Awaits part cs)
    (htext : unifyBreaks text = cs) : Awaits part text := by
  induction h generalizing text with
  | here => exact unifyBreaks_eq_nil htext ▸ .here
  | @group g cs h ih =>
    obtain ⟨rest, rfl, hrest⟩ := exists_of_unifyBreaks_eq_cons (opening_ne_newline g).1 htext
    exact .group (ih hrest)
  | element hbefore h ih =>
    obtain ⟨us, vs, rfl, rfl, hvs⟩ := exists_of_unifyBreaks_eq_append htext
    exact .element (blanks_unifyBreaks_iff.1 hbefore) (ih hvs)
  | member hbefore hname hafter h ih =>
    obtain ⟨us, vs, ws, rfl, rfl, rfl, hws⟩ := exists_of_unifyBreaks_member hname htext
    exact .member (blanks_unifyBreaks_iff.1 hbefore) hname (blanks_unifyBreaks_iff.1 hafter)
      (ih hws)
  | first h ih => exact .first (ih htext)
  | later h hlater ih =>
    obtain ⟨us, rest, rfl, hus, hrest⟩ := exists_of_unifyBreaks_eq_append htext
    obtain ⟨vs, rfl, hvs⟩ := exists_of_unifyBreaks_eq_cons (by decide) hrest
    exact .later (h.of_unifyBreaks hus) (ih hvs)

/-- A text that ends in front of a value still does when its breaks are made alike. -/
theorem Awaits.unifyBreaks {part : Part} {cs : List Char} (h : Awaits part cs) :
    Awaits part (unifyBreaks cs) := by
  induction h with
  | here => exact .here
  | @group g cs h ih =>
    rw [unifyBreaks_cons (opening_ne_newline g).2]
    exact .group ih
  | @element before cs hbefore h ih =>
    have hhead : cs.head? ≠ some '\n' := by
      cases h with
      | here => exact nofun
      | @group g => cases g <;> exact nofun
    rw [Text.unifyBreaks_append (.inr hhead)]
    exact .element (blanks_unifyBreaks_iff.2 hbefore) ih
  | member hbefore hname hafter h ih =>
    rw [unifyBreaks_member hname]
    exact .member (blanks_unifyBreaks_iff.2 hbefore) hname (blanks_unifyBreaks_iff.2 hafter) ih
  | first h ih => exact .first ih
  | later h hlater ih =>
    rw [Text.unifyBreaks_append (.inr (by simp)), unifyBreaks_cons (by decide)]
    exact .later h.unifyBreaks ih

/-- A number goes on in front of a break or not at all. -/
theorem goesOn_unifyBreaks_iff {cs : List Char} : GoesOn (unifyBreaks cs) ↔ GoesOn cs := by
  have hunbroken {more : List Char} (h : Digits more ∨ Fraction more ∨ Exponent more) :
      Unbroken more := by
    rcases h with h | h | h
    · exact h.unbroken
    · exact h.unbroken
    · exact h.unbroken
  constructor
  · rintro ⟨more, hne, ⟨tail, htail⟩, h⟩
    obtain ⟨rest, rfl, -⟩ := (hunbroken h).exists_of_unifyBreaks htail.symm
    exact ⟨more, hne, ⟨rest, rfl⟩, h⟩
  · rintro ⟨more, hne, ⟨tail, rfl⟩, h⟩
    rw [(hunbroken h).unifyBreaks_append]
    exact ⟨more, hne, ⟨_, rfl⟩, h⟩

/-- Whether a text starts with an integer of too many digits does not depend on its breaks. -/
theorem startsLong_unifyBreaks_iff {cs : List Char} :
    StartsLong (unifyBreaks cs) ↔ StartsLong cs := by
  constructor
  · generalize htext : unifyBreaks cs = text
    rintro ⟨hsign, hwhole, hlong, hrest⟩
    obtain ⟨ds, rfl, hds⟩ := (unbroken_minus hsign).exists_of_unifyBreaks htext
    obtain ⟨rest, rfl, rfl⟩ := hwhole.unbroken.exists_of_unifyBreaks hds
    exact .mk hsign hwhole hlong (mt goesOn_unifyBreaks_iff.2 hrest)
  · rintro ⟨hsign, hwhole, hlong, hrest⟩
    rw [(unbroken_minus hsign).unifyBreaks_append, hwhole.unbroken.unifyBreaks_append]
    exact .mk hsign hwhole hlong (mt goesOn_unifyBreaks_iff.1 hrest)

/-- **Where a reader stops does not depend on how breaks are written.** -/
theorem stops_unifyBreaks_iff {text : List Char} : Stops (unifyBreaks text) ↔ Stops text := by
  constructor
  · rintro ⟨before, after, htext, hbefore, hafter⟩
    obtain ⟨us, vs, rfl, hus, rfl⟩ := exists_of_unifyBreaks_eq_append htext
    exact ⟨us, vs, rfl, hbefore.of_unifyBreaks hus, startsLong_unifyBreaks_iff.1 hafter⟩
  · rintro ⟨before, after, rfl, hbefore, hafter⟩
    have hhead : after.head? ≠ some '\n' := by
      cases hafter with
      | mk hsign hwhole =>
        obtain ⟨d, ds, rfl, hd⟩ := hwhole.exists_cons
        simp only [List.mem_cons, List.not_mem_nil, or_false] at hsign
        rcases hsign with rfl | rfl
        · rintro ⟨⟩
          exact absurd hd (by decide)
        · exact nofun
    refine ⟨unifyBreaks before, unifyBreaks after, unifyBreaks_append (.inr hhead),
      hbefore.unifyBreaks, startsLong_unifyBreaks_iff.2 hafter⟩

end Json

end Ferrotype
