/-
# What is read as JSON is JSON

The endings of the readers of values are given by short equations, one for each reader. By these,
what a reader takes from the front of a text is derived by the grammar, and where it stops at a long
integer nothing is wrong in front of that (`explains_partEnd`).
-/

import Ferrotype.Proofs.Json.Ending

namespace Ferrotype
namespace Json

/-! ## Endings of values -/

/-- The first character that is no blank, and what is behind it. -/
theorem next_eq (cs : List Char) :
    (next cs).map (fun p => (p.value, p.rest)) = match skipBlanks cs with
      | [] => none
      | c :: rest => some (c, rest) := by
  unfold next
  split
  · rename_i hnil
    rw [hnil]
    rfl
  · rename_i c rest hcons
    simp only [hcons]
    rfl

/-- How a text ends by its first character that is no blank. -/
def nextEnd (cs : List Char) (f : Char → List Char → Ending) : Ending :=
  match skipBlanks cs with
  | [] => .malformed
  | c :: rest => f c rest

/-- Where the next character ends is what the reader of it says. -/
theorem nextEnd_eq (cs : List Char) (f : Char → List Char → Ending) :
    nextEnd cs f = match next cs with
      | none => .malformed
      | some p => f p.value p.rest := by
  have hnext := next_eq cs
  rw [nextEnd]
  cases hcs : skipBlanks cs with
  | nil =>
    rw [hcs, Option.map_eq_none_iff] at hnext
    rw [hnext]
  | cons c rest =>
    rw [hcs] at hnext
    obtain ⟨p, hp, heq⟩ := Option.map_eq_some_iff.1 hnext
    cases heq
    rw [hp]

/-- How a member of an object ends. -/
def memberEnd : List Char → Ending
  | '"' :: cs =>
    (stringEnd cs).andThen fun rest => nextEnd rest fun c more =>
      if c = ':' then ending (value (skipBlanks more)) else .malformed
  | _ => .malformed

/-- How a part of a text ends that starts with no blank. -/
def partEnd : Part → List Char → Ending
  | .value, cs => ending (value cs)
  | .item .array, cs => ending (value cs)
  | .item .object, cs => memberEnd cs
  | .items .array, cs => ending (elements cs)
  | .items .object, cs => ending (members cs)

/-- How items end behind one of them. -/
def behindItem (g : Group) (cs : List Char) : Ending :=
  nextEnd cs fun c rest =>
    if c = g.closing then .left rest
    else if c = ',' then partEnd (.items g) (skipBlanks rest)
    else .malformed

/-- A value that starts with a quote is a string. -/
theorem valueEnd_string (cs : List Char) : partEnd .value ('"' :: cs) = stringEnd cs := by
  rw [partEnd, value, ending_map, ending_string]
  exact fun _ => rfl

/-- A value that starts with a bracket is a group, and it may be closed at once. -/
theorem valueEnd_group (g : Group) (cs : List Char) :
    partEnd .value (g.opening :: cs) = nextEnd cs fun c rest =>
      if c = g.closing then .left rest else partEnd (.items g) (skipBlanks cs) := by
  rw [nextEnd_eq, partEnd]
  cases hnext : next cs with
  | none => cases g <;> simp only [Group.opening, value, hnext] <;> rfl
  | some p =>
    cases g with
    | array | object =>
      rw [Group.opening, value]
      simp only [hnext]
      rw [apply_ite ending, ending_map]
      · rfl
      · exact fun _ => rfl

/-- Any other value is one of the words or a number. -/
theorem valueEnd_scalar {cs : List Char} (hquote : cs.head? ≠ some '"')
    (hgroup : ∀ g : Group, cs.head? ≠ some g.opening) :
    partEnd .value cs = match word? cs with
      | some w => .left (cs.drop w.1.length)
      | none => numberEnd cs := by
  rw [partEnd, value]
  · unfold scalar
    split
    · rename_i w hw
      simp only [hw]
      rfl
    · rename_i hnone
      rw [hnone, ending_map, ending_number]
      exact fun _ => rfl
  · exact fun rest h => hquote (h ▸ rfl)
  · exact fun rest h => hgroup .array (h ▸ rfl)
  · exact fun rest h => hgroup .object (h ▸ rfl)

/-- The elements of an array end where the first one does and the others behind it. -/
theorem ending_elements (cs : List Char) :
    ending (elements cs) = (ending (value cs)).andThen (behindItem .array) := by
  rw [elements]
  cases value cs with
  | error e => cases e <;> rfl
  | ok first =>
    change _ = behindItem .array first.rest
    rw [behindItem, nextEnd_eq]
    cases hnext : next first.rest with
    | none =>
      simp only [hnext]
      rfl
    | some p =>
      simp only [hnext]
      rw [apply_ite ending, apply_ite ending, ending_map]
      · rfl
      · exact fun _ => rfl

/-- The members of an object end where the first one does and the others behind it. -/
theorem ending_members (cs : List Char) :
    ending (members cs) = (memberEnd cs).andThen (behindItem .object) := by
  fun_cases memberEnd cs with
  | case1 cs =>
    rw [members, ← ending_string]
    cases string cs with
    | error e => cases e <;> rfl
    | ok name =>
      change _ = Ending.andThen (nextEnd name.rest _) _
      rw [nextEnd_eq]
      cases hcolon : next name.rest with
      | none =>
        simp only [hcolon]
        rfl
      | some colon =>
        simp only [hcolon]
        split
        · cases value (skipBlanks colon.rest) with
          | error e => cases e <;> rfl
          | ok first =>
            change _ = behindItem .object first.rest
            rw [behindItem, nextEnd_eq]
            cases hnext : next first.rest with
            | none =>
              simp only [hnext]
              rfl
            | some p =>
              simp only [hnext]
              rw [apply_ite ending, apply_ite ending, ending_map]
              · rfl
              · exact fun _ => rfl
        · rfl
  | case2 _ hquote =>
    rw [members]
    · rfl
    · exact hquote

/-- Items are one item and what is behind it. -/
theorem itemsEnd (g : Group) (cs : List Char) :
    partEnd (.items g) cs = (partEnd (.item g) cs).andThen (behindItem g) := by
  cases g with
  | array => exact ending_elements cs
  | object => exact ending_members cs

/-! ## Blanks -/

/-- Blanks in front are skipped. -/
theorem skipBlanks_append {bs : List Char} (h : Blanks bs) (cs : List Char) :
    skipBlanks (bs ++ cs) = skipBlanks cs :=
  List.dropWhile_append_of_pos h

/-- Nothing is skipped in front of a character that is no blank. -/
theorem skipBlanks_cons {c : Char} (hc : isBlank c = false) (cs : List Char) :
    skipBlanks (c :: cs) = c :: cs :=
  List.dropWhile_cons_of_neg (by simp [hc])

/-- What is skipped are blanks in front. -/
theorem exists_skipBlanks (cs : List Char) : ∃ bs, Blanks bs ∧ cs = bs ++ skipBlanks cs :=
  ⟨cs.takeWhile isBlank, fun _ hc => List.mem_takeWhile_imp hc,
    List.takeWhile_append_dropWhile.symm⟩

/-- The next character is the first one behind the blanks. -/
theorem nextEnd_cons {cs rest : List Char} {c : Char} (h : skipBlanks cs = c :: rest)
    (f : Char → List Char → Ending) : nextEnd cs f = f c rest := by
  rw [nextEnd, h]

/-- No characters at all are blanks. -/
theorem blanks_nil : Blanks [] := nofun

theorem Blanks.append {bs cs : List Char} (hbs : Blanks bs) (hcs : Blanks cs) :
    Blanks (bs ++ cs) := List.forall_mem_append.2 ⟨hbs, hcs⟩

/-- Blanks behind an item belong to it. -/
theorem Derives.item_append {g : Group} {cs after : List Char} (h : Derives (.item g) cs)
    (hafter : Blanks after) : Derives (.item g) (cs ++ after) := by
  have helement {ds : List Char} (h : Derives (.item .array) ds) :
      Derives (.item .array) (ds ++ after) := by
    cases h with
    | element hbefore hblanks h =>
      rw [List.append_assoc, List.append_assoc]
      exact .element hbefore (hblanks.append hafter) h
  cases h with
  | element hbefore hblanks h => exact helement (.element hbefore hblanks h)
  | member hbefore hname hblanks h =>
    have hmember := Derives.member hbefore hname hblanks (helement h)
    simpa only [List.append_assoc, List.cons_append] using hmember

/-- Blanks in front of an item belong to it. -/
theorem Derives.blanks_item {g : Group} {before cs : List Char} (hbefore : Blanks before)
    (h : Derives (.item g) cs) : Derives (.item g) (before ++ cs) := by
  cases h with
  | element hblanks hafter h =>
    rw [← List.append_assoc]
    exact .element (hbefore.append hblanks) hafter h
  | member hblanks hname hafter h =>
    rw [← List.append_assoc]
    exact .member (hbefore.append hblanks) hname hafter h

/-- Blanks in front of the items of a group belong to them. -/
theorem Derives.blanks_items {g : Group} {before cs : List Char} (hbefore : Blanks before)
    (h : Derives (.items g) cs) : Derives (.items g) (before ++ cs) := by
  cases h with
  | last h => exact .last (h.blanks_item hbefore)
  | more h hmore =>
    rw [← List.append_assoc]
    exact .more (h.blanks_item hbefore) hmore

/-- The same of a text that ends in front of a value among the items. -/
theorem Awaits.blanks_items {g : Group} {before cs : List Char} (hbefore : Blanks before)
    (h : Awaits (.items g) cs) : Awaits (.items g) (before ++ cs) := by
  cases h with
  | first h =>
    refine .first ?_
    cases h with
    | element hblanks h =>
      rw [← List.append_assoc]
      exact .element (hbefore.append hblanks) h
    | member hblanks hname hafter h =>
      rw [← List.append_assoc]
      exact .member (hbefore.append hblanks) hname hafter h
  | later h hlater =>
    rw [← List.append_assoc]
    exact .later (h.blanks_item hbefore) hlater

/-! ## What is read is derived -/

/-- What stands behind a part. -/
def Part.closing : Part → List Char
  | .value | .item _ => []
  | .items g => [g.closing]

/-- What an ending says about a part of a text. -/
def Ending.Explains (part : Part) (cs : List Char) : Ending → Prop
  | left rest => ∃ text, Derives part text ∧ cs = text ++ (part.closing ++ rest)
  | malformed => True
  | long => ∃ before after, Awaits part before ∧ StartsLong after ∧ cs = before ++ after

/-- The ending at the next character explains a text if it does so for whatever stands behind the
blanks. -/
theorem explains_nextEnd {part : Part} {text cs : List Char} {f : Char → List Char → Ending}
    (h : ∀ bs c rest, Blanks bs → cs = bs ++ c :: rest → (f c rest).Explains part text) :
    (nextEnd cs f).Explains part text := by
  obtain ⟨bs, hbs, hcs⟩ := exists_skipBlanks cs
  rw [nextEnd]
  cases hskip : skipBlanks cs with
  | nil => trivial
  | cons c rest =>
    rw [hskip] at hcs
    exact h bs c rest hbs hcs

/-- Text in front of a part makes another part of it. -/
theorem Ending.Explains.prepend {e : Ending} {part part' : Part} {front cs : List Char}
    (hderives : ∀ text, Derives part text → ∃ text', Derives part' text' ∧
      text' ++ part'.closing = front ++ (text ++ part.closing))
    (hawaits : ∀ before, Awaits part before → Awaits part' (front ++ before))
    (h : e.Explains part cs) : e.Explains part' (front ++ cs) := by
  cases e with
  | left rest =>
    obtain ⟨text, htext, rfl⟩ := h
    obtain ⟨text', htext', heq⟩ := hderives text htext
    refine ⟨text', htext', ?_⟩
    rw [← List.append_assoc text', heq, List.append_assoc, List.append_assoc]
  | malformed => trivial
  | long =>
    obtain ⟨before, after, hbefore, hafter, rfl⟩ := h
    exact ⟨front ++ before, after, hawaits before hbefore, hafter, (List.append_assoc ..).symm⟩

/-- The ending of a value explains an element with blanks in front. -/
theorem Ending.Explains.element {e : Ending} {before cs : List Char} (hbefore : Blanks before)
    (h : e.Explains .value cs) : e.Explains (.item .array) (before ++ cs) := by
  refine h.prepend (fun text htext => ⟨before ++ (text ++ []), ?_, ?_⟩) fun front hfront => ?_
  · exact .element hbefore blanks_nil htext
  · simp [Part.closing]
  · exact .element hbefore hfront

/-- The ending of items explains them with blanks in front. -/
theorem Ending.Explains.items {e : Ending} {g : Group} {before cs : List Char}
    (hbefore : Blanks before) (h : e.Explains (.items g) cs) :
    e.Explains (.items g) (before ++ cs) := by
  refine h.prepend (fun text htext => ⟨before ++ text, ?_, ?_⟩) fun front hfront => ?_
  · exact htext.blanks_items hbefore
  · exact List.append_assoc ..
  · exact hfront.blanks_items hbefore

/-- The ending of a string is that of a value. -/
theorem explains_string (cs : List Char) :
    (partEnd .value ('"' :: cs)).Explains .value ('"' :: cs) := by
  rw [valueEnd_string]
  cases hend : stringEnd cs with
  | left rest =>
    obtain ⟨name, hname, rfl⟩ := exists_of_stringEnd hend
    exact ⟨'"' :: (name ++ ['"']), .string hname, by simp [Part.closing]⟩
  | malformed => trivial
  | long => exact absurd hend (stringEnd_ne_long cs)

/-- A word that is read is a value, and the text starts with it. -/
theorem mem_words_of_word? {cs : List Char} {w : List Char × Value} (h : word? cs = some w) :
    Derives .value w.1 ∧ cs = w.1 ++ cs.drop w.1.length := by
  have hmem := List.mem_of_find?_eq_some h
  have hprefix := List.find?_some h
  obtain ⟨rest, rfl⟩ := List.isPrefixOf_iff_prefix.1 hprefix
  rw [List.drop_left]
  refine ⟨.word ?_, rfl⟩
  have hmap : w.1 ∈ words.map (·.1) := List.mem_map_of_mem hmem
  exact hmap

/-- The ending of a word or a number is that of a value. -/
theorem explains_scalar {cs : List Char} (hquote : cs.head? ≠ some '"')
    (hgroup : ∀ g : Group, cs.head? ≠ some g.opening) :
    (partEnd .value cs).Explains .value cs := by
  rw [valueEnd_scalar hquote hgroup]
  cases hword : word? cs with
  | some w => exact ⟨w.1, mem_words_of_word? hword⟩
  | none =>
    simp only
    cases hend : numberEnd cs with
    | left rest =>
      obtain ⟨text, htext, rfl⟩ := exists_of_numberEnd hend
      exact ⟨text, .number htext, rfl⟩
    | malformed => trivial
    | long => exact ⟨[], cs, .here, numberEnd_eq_long_iff.1 hend, rfl⟩

/-- The ending of a group is that of a value, if the endings of all items that are no longer explain
them. -/
theorem explains_group {g : Group} {cs : List Char}
    (hitems : ∀ ds : List Char, ds.length ≤ cs.length →
      (partEnd (.items g) ds).Explains (.items g) ds) :
    (partEnd .value (g.opening :: cs)).Explains .value (g.opening :: cs) := by
  rw [valueEnd_group]
  refine explains_nextEnd fun bs c rest hbs hcs => ?_
  split
  · rename_i hclose
    exact ⟨g.opening :: (bs ++ [g.closing]), .empty hbs, by simp [hcs, hclose, Part.closing]⟩
  · obtain ⟨blanks, hblanks, hskip⟩ := exists_skipBlanks cs
    have hbehind := (hitems (skipBlanks cs) (length_skipBlanks_le cs)).items hblanks
    rw [← hskip] at hbehind
    have hgroup : (partEnd (.items g) (skipBlanks cs)).Explains .value ([g.opening] ++ cs) :=
      hbehind.prepend (fun text htext => ⟨_, .group htext, by simp [Part.closing]⟩)
        fun before hbefore => .group hbefore
    exact hgroup

/-- The ending of a member explains it, if the endings of all shorter values do. -/
theorem explains_member {cs : List Char}
    (hvalue : ∀ ds : List Char, ds.length < cs.length → (partEnd .value ds).Explains .value ds) :
    (partEnd (.item .object) cs).Explains (.item .object) cs := by
  rw [partEnd]
  fun_cases memberEnd cs with
  | case2 => trivial
  | case1 cs =>
    cases hname : stringEnd cs with
    | malformed => trivial
    | long => exact absurd hname (stringEnd_ne_long cs)
    | left after =>
      obtain ⟨name, hchars, rfl⟩ := exists_of_stringEnd hname
      refine explains_nextEnd fun bs c more hbs hafter => ?_
      subst hafter
      split
      · rename_i hcolon
        subst hcolon
        have hlength := length_skipBlanks_le more
        obtain ⟨blanks, hblanks, hskip⟩ := exists_skipBlanks more
        have hbehind := (hvalue (skipBlanks more) (by
          simp only [List.length_append, List.length_cons]
          omega)).element hblanks
        rw [← hskip] at hbehind
        have hmember : (partEnd .value (skipBlanks more)).Explains (.item .object)
            ('"' :: (name ++ '"' :: (bs ++ [':'])) ++ more) := by
          refine hbehind.prepend (fun text htext =>
            ⟨_, .member blanks_nil hchars hbs htext, ?_⟩) fun before hbefore => ?_
          · simp [Part.closing]
          · simpa using Awaits.member blanks_nil hchars hbs hbefore
        change (partEnd .value (skipBlanks more)).Explains _ _
        simpa using hmember
      · trivial

/-- The ending of items explains them, if that of the first item and those of all shorter lists of
items do. -/
theorem explains_items {g : Group} {cs : List Char}
    (hitem : (partEnd (.item g) cs).Explains (.item g) cs)
    (hitems : ∀ ds : List Char, ds.length < cs.length →
      (partEnd (.items g) ds).Explains (.items g) ds) :
    (partEnd (.items g) cs).Explains (.items g) cs := by
  rw [itemsEnd]
  cases hend : partEnd (.item g) cs with
  | malformed => trivial
  | long =>
    rw [hend] at hitem
    obtain ⟨before, after, hbefore, hafter, rfl⟩ := hitem
    exact ⟨before, after, .first hbefore, hafter, rfl⟩
  | left rest =>
    rw [hend] at hitem
    obtain ⟨text, htext, rfl⟩ := hitem
    refine explains_nextEnd fun bs c more hbs hrest => ?_
    subst hrest
    split
    · rename_i hclose
      subst hclose
      exact ⟨text ++ bs, .last (htext.item_append hbs), by simp [Part.closing]⟩
    · split
      · rename_i hcomma
        subst hcomma
        have hlength := length_skipBlanks_le more
        obtain ⟨blanks, hblanks, hskip⟩ := exists_skipBlanks more
        have hbehind := (hitems (skipBlanks more) (by
          simp only [Part.closing, List.length_append, List.length_cons]
          omega)).items hblanks
        rw [← hskip] at hbehind
        have hlist : (partEnd (.items g) (skipBlanks more)).Explains (.items g)
            (text ++ bs ++ [','] ++ more) := by
          refine hbehind.prepend (fun items hderives =>
            ⟨_, .more (htext.item_append hbs) hderives, ?_⟩) fun before hbefore => ?_
          · simp [Part.closing]
          · simpa using Awaits.later (htext.item_append hbs) hbefore
        simpa [Part.closing] using hlist
      · trivial

/-- What is left is behind a part, and a reader stops at a long integer that may stand there. -/
theorem explains_partEnd (part : Part) (cs : List Char) : (partEnd part cs).Explains part cs := by
  induction hn : cs.length using Nat.strong_induction_on generalizing part cs with
  | _ n ih =>
    have hvalue : (partEnd .value cs).Explains .value cs := by
      by_cases hquote : cs.head? = some '"'
      · obtain ⟨tail, rfl⟩ := List.head?_eq_some_iff.1 hquote
        exact explains_string tail
      by_cases hgroup : ∃ g : Group, cs.head? = some g.opening
      · obtain ⟨g, hg⟩ := hgroup
        obtain ⟨tail, rfl⟩ := List.head?_eq_some_iff.1 hg
        exact explains_group fun ds hds => ih _ (hn ▸ Nat.lt_succ_of_le hds) _ ds rfl
      · exact explains_scalar hquote fun g hg => hgroup ⟨g, hg⟩
    have hitem (g : Group) : (partEnd (.item g) cs).Explains (.item g) cs := by
      cases g with
      | array => exact hvalue.element blanks_nil
      | object => exact explains_member fun ds hds => ih _ (hn ▸ hds) _ ds rfl
    cases part with
    | value => exact hvalue
    | item g => exact hitem g
    | items g => exact explains_items (hitem g) fun ds hds => ih _ (hn ▸ hds) _ ds rfl

end Json
end Ferrotype
