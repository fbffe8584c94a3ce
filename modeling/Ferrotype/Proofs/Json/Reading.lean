/-
# What is read as JSON

What the grammar derives is read, unless a reader stops at a long integer in it. So a text is read
if and only if it holds a value and no reader stops at it (`read_eq_ok_iff`), and a reader stops if
and only if the text begins as one that holds a value, up to a long integer
(`read_eq_longInteger_iff`).
-/

import Ferrotype.Proofs.Json.Derived

namespace Ferrotype
namespace Json

/-! ## What is derived is read -/

/-- Whether a reader ends in front of a text, with or without the blanks there, or at a long
integer. -/
def Ending.Reaches (rest : List Char) : Ending → Prop
  | left after => skipBlanks after = skipBlanks rest
  | malformed => False
  | long => True

/-- Blanks make no difference to where a reader gets. -/
theorem Ending.Reaches.congr {e : Ending} {rest rest' : List Char} (h : e.Reaches rest)
    (hrest : skipBlanks rest = skipBlanks rest') : e.Reaches rest' := by
  cases e with
  | left after => exact Eq.trans h hrest
  | malformed => exact h
  | long => trivial

/-- What goes on where another reader ends. -/
theorem Ending.Reaches.andThen {e : Ending} {rest rest' : List Char} {next : List Char → Ending}
    (h : e.Reaches rest)
    (hnext : ∀ after, skipBlanks after = skipBlanks rest → (next after).Reaches rest') :
    (e.andThen next).Reaches rest' := by
  cases e with
  | left after => exact hnext after h
  | malformed => exact h
  | long => trivial

/-- Two readers end at a long integer if the second one does wherever the first one may end. -/
theorem Ending.Reaches.andThen_long {e : Ending} {rest : List Char} {next : List Char → Ending}
    (h : e.Reaches rest)
    (hnext : ∀ after, skipBlanks after = skipBlanks rest → next after = .long) :
    e.andThen next = .long := by
  cases e with
  | left after => exact hnext after h
  | malformed => exact h.elim
  | long => rfl

/-- Blanks may stand in front of what follows a value. -/
theorem Follows.blanks {after rest : List Char} (hafter : Blanks after) (h : Follows rest) :
    Follows (after ++ rest) := by
  cases after with
  | nil => exact h
  | cons c after =>
    rintro _ ⟨⟩
    exact .inl (hafter c List.mem_cons_self)

theorem isBlank_opening (g : Group) : isBlank g.opening = false := by cases g <;> rfl

theorem isBlank_closing (g : Group) : isBlank g.closing = false := by cases g <;> rfl

/-- A closing bracket may follow a value. -/
theorem follows_closing (g : Group) (rest : List Char) : Follows (g.closing :: rest) := by
  rintro _ ⟨⟩
  cases g <;> exact .inr (by decide)

/-- A comma may follow a value. -/
theorem follows_comma (rest : List Char) : Follows (',' :: rest) := by
  rintro _ ⟨⟩
  exact .inr (by decide)

/-- The words that are values are read to their end. -/
theorem reaches_word {w : List Char} (hw : w ∈ valueWords) (rest : List Char) :
    (partEnd .value (skipBlanks (w ++ rest))).Reaches rest := by
  have hscalar : skipBlanks (w ++ rest) = w ++ rest ∧ (w ++ rest).head? ≠ some '"' ∧
      (∀ g : Group, (w ++ rest).head? ≠ some g.opening) ∧
        ∃ v, word? (w ++ rest) = some (w, v) := by
    simp only [valueWords, List.mem_cons, List.not_mem_nil, or_false] at hw
    rcases hw with rfl | rfl | rfl | rfl | rfl | rfl <;>
      exact ⟨rfl, nofun, (by rintro (_ | _) ⟨⟩), _, rfl⟩
  obtain ⟨hskip, hquote, hgroup, v, hword⟩ := hscalar
  rw [hskip, valueEnd_scalar hquote hgroup, hword]
  simp only [List.drop_left]
  rfl

/-- Where a digit or a sign in front of one stands, a number is read. -/
theorem valueEnd_number {sign : List Char} (hsign : sign ∈ [[], ['-']]) {d : Char}
    (hd : isDigit d) (cs : List Char) :
    partEnd .value (skipBlanks (sign ++ d :: cs)) = numberEnd (sign ++ d :: cs) := by
  have hne {c : Char} (hc : isDigit c = false) : d ≠ c := by
    rintro rfl
    rw [hc] at hd
    cases hd
  have hscalar : skipBlanks (sign ++ d :: cs) = sign ++ d :: cs ∧
      (sign ++ d :: cs).head? ≠ some '"' ∧
      (∀ g : Group, (sign ++ d :: cs).head? ≠ some g.opening) ∧
        ∀ w ∈ words, ¬ w.1 <+: sign ++ d :: cs := by
    simp only [List.mem_cons, List.not_mem_nil, or_false] at hsign
    rcases hsign with rfl | rfl
    · refine ⟨skipBlanks_cons ?_ cs, fun h => hne rfl (Option.some.inj h), fun g h => ?_, ?_⟩
      · simp only [isBlank, Bool.or_eq_false_iff, beq_eq_false_iff_ne]
        exact ⟨⟨⟨hne rfl, hne rfl⟩, hne rfl⟩, hne rfl⟩
      · cases g <;> exact hne rfl (Option.some.inj h)
      · rintro w hw ⟨tail, htail⟩
        simp only [words, List.mem_cons, List.not_mem_nil, or_false] at hw
        rcases hw with rfl | rfl | rfl | rfl | rfl | rfl <;>
          exact hne rfl (List.cons.inj htail).1.symm
    · refine ⟨rfl, by simp, by rintro (_ | _) ⟨⟩, ?_⟩
      rintro w hw ⟨tail, htail⟩
      simp only [words, List.mem_cons, List.not_mem_nil, or_false] at hw
      rcases hw with rfl | rfl | rfl | rfl | rfl | rfl
      · cases htail
      · cases htail
      · cases htail
      · cases htail
      · cases htail
      · exact hne rfl (List.cons.inj (List.cons.inj htail).2).1.symm
  obtain ⟨hskip, hquote, hgroup, hwords⟩ := hscalar
  have hword : word? (sign ++ d :: cs) = none :=
    List.find?_eq_none.2 fun w hw hprefix => hwords w hw (List.isPrefixOf_iff_prefix.1 hprefix)
  rw [hskip, valueEnd_scalar hquote hgroup, hword]

/-- A number is read to its end in front of what may follow it. -/
theorem reaches_number {text rest : List Char} (h : IsNumber text) (hrest : Follows rest) :
    (partEnd .value (skipBlanks (text ++ rest))).Reaches rest := by
  have hend := numberEnd_append h hrest
  cases h with
  | @mk sign whole fraction exponent hsign hwhole hfraction hexponent =>
    obtain ⟨d, ds, rfl, hd⟩ := hwhole.exists_cons
    have htext : sign ++ (d :: ds ++ (fraction ++ exponent)) ++ rest =
        sign ++ d :: (ds ++ (fraction ++ (exponent ++ rest))) := by simp
    rw [htext] at hend ⊢
    rw [valueEnd_number hsign hd]
    rcases hend with hend | hend <;> rw [hend]
    · rfl
    · trivial

/-- No items start with nothing or with the bracket that closes them. -/
theorem itemsEnd_of_closing (g : Group) (cs : List Char) :
    partEnd (.items g) [] = .malformed ∧ partEnd (.items g) (g.closing :: cs) = .malformed := by
  have hvalue (ds : List Char) (h : ds = [] ∨ ∃ tail, ds = ']' :: tail) :
      partEnd .value ds = .malformed := by
    obtain rfl | ⟨tail, rfl⟩ := h
    · rw [valueEnd_scalar (by simp) (by simp)]
      rfl
    · rw [valueEnd_scalar (by simp) (by rintro (_ | _) ⟨⟩)]
      rfl
  rw [itemsEnd, itemsEnd]
  cases g with
  | array =>
    have hitem (ds : List Char) : partEnd (.item .array) ds = partEnd .value ds := rfl
    rw [hitem, hitem, hvalue _ (.inl rfl), Group.closing, hvalue _ (.inr ⟨cs, rfl⟩)]
    exact ⟨rfl, rfl⟩
  | object => exact ⟨rfl, rfl⟩

/-- A group ends as its items do. -/
theorem valueEnd_items {g : Group} {cs : List Char}
    (h : partEnd (.items g) (skipBlanks cs) ≠ .malformed) :
    partEnd .value (skipBlanks (g.opening :: cs)) = partEnd (.items g) (skipBlanks cs) := by
  rw [skipBlanks_cons (isBlank_opening g), valueEnd_group]
  cases hskip : skipBlanks cs with
  | nil =>
    rw [hskip] at h
    exact absurd (itemsEnd_of_closing g []).1 h
  | cons c rest =>
    rw [nextEnd_cons hskip, if_neg fun hclose => h ?_]
    rw [hskip, hclose]
    exact (itemsEnd_of_closing g rest).2

/-- Behind an item the group is closed, or goes on behind a comma. -/
theorem behindItem_of_reaches {g : Group} {after rest : List Char} {c : Char}
    (hc : isBlank c = false) (h : skipBlanks after = skipBlanks (c :: rest)) :
    behindItem g after = if c = g.closing then .left rest
      else if c = ',' then partEnd (.items g) (skipBlanks rest) else .malformed := by
  rw [skipBlanks_cons hc] at h
  rw [behindItem, nextEnd_cons h]

theorem closing_ne_comma (g : Group) : ',' ≠ g.closing := by cases g <;> decide

/-- How a member ends behind its name and the colon. -/
theorem memberEnd_append {before name after : List Char} (hbefore : Blanks before)
    (hname : Chars name) (hafter : Blanks after) (cs : List Char) :
    partEnd (.item .object) (skipBlanks (before ++ '"' :: (name ++ '"' :: (after ++ ':' :: cs)))) =
      partEnd (.item .array) (skipBlanks cs) := by
  have hcolon : skipBlanks (after ++ ':' :: cs) = ':' :: cs := by
    rw [skipBlanks_append hafter, skipBlanks_cons (by decide)]
  rw [skipBlanks_append hbefore, skipBlanks_cons (by decide)]
  change memberEnd ('"' :: (name ++ '"' :: (after ++ ':' :: cs))) = _
  rw [memberEnd, stringEnd_append hname]
  change nextEnd _ _ = _
  rw [nextEnd_cons hcolon, if_pos rfl]
  rfl

/-- **What the grammar derives is read**, unless a reader stops at a long integer in it. -/
theorem Derives.reaches {part : Part} {text : List Char} (h : Derives part text)
    (rest : List Char) (hrest : Follows (part.closing ++ rest)) :
    (partEnd part (skipBlanks (text ++ (part.closing ++ rest)))).Reaches rest := by
  induction h generalizing rest with
  | word h => exact reaches_word h rest
  | number h => exact reaches_number h hrest
  | @string cs h =>
    rw [Part.closing, List.nil_append, List.cons_append, List.append_assoc,
      skipBlanks_cons (by decide), valueEnd_string, List.singleton_append, stringEnd_append h]
    rfl
  | @empty g blanks h =>
    have hskip : skipBlanks (blanks ++ g.closing :: rest) = g.closing :: rest := by
      rw [skipBlanks_append h, skipBlanks_cons (isBlank_closing g)]
    rw [Part.closing, List.nil_append, List.cons_append, List.append_assoc,
      skipBlanks_cons (isBlank_opening g), valueEnd_group, List.singleton_append,
      nextEnd_cons hskip, if_pos rfl]
    rfl
  | @group g cs h ih =>
    have hitems := ih rest (follows_closing g rest)
    rw [Part.closing, List.singleton_append] at hitems
    rw [Part.closing, List.nil_append, List.cons_append, List.append_assoc, List.singleton_append,
      valueEnd_items fun hmalformed => by rw [hmalformed] at hitems; exact hitems]
    exact hitems
  | @element before cs after hbefore hafter h ih =>
    have hvalue := ih (after ++ rest) (show Follows (after ++ rest) from .blanks hafter hrest)
    simp only [Part.closing, List.nil_append] at hvalue
    simp only [Part.closing, List.nil_append, List.append_assoc]
    rw [skipBlanks_append hbefore]
    exact hvalue.congr (skipBlanks_append hafter rest)
  | @member before name after cs hbefore hname hafter h ih =>
    have hvalue := ih rest hrest
    have htext : before ++ '"' :: (name ++ '"' :: (after ++ ':' :: cs)) ++ rest =
        before ++ '"' :: (name ++ '"' :: (after ++ ':' :: (cs ++ rest))) := by simp
    rw [Part.closing, List.nil_append] at hvalue ⊢
    rw [htext, memberEnd_append hbefore hname hafter]
    exact hvalue
  | @last g cs h ih =>
    have hitem := ih (g.closing :: rest) hrest
    rw [Part.closing, List.nil_append] at hitem
    rw [Part.closing, List.singleton_append, itemsEnd]
    refine hitem.andThen fun after hafter => ?_
    rw [behindItem_of_reaches (isBlank_closing g) hafter, if_pos rfl]
    rfl
  | @more g cs ds h hmore ih ihmore =>
    have hitem := ih (',' :: (ds ++ ((Part.items g).closing ++ rest))) (follows_comma _)
    have hitems := ihmore rest hrest
    rw [Part.closing, List.nil_append] at hitem
    rw [List.append_assoc, List.cons_append, itemsEnd]
    refine hitem.andThen fun after hafter => ?_
    rw [behindItem_of_reaches (by decide) hafter, if_neg (closing_ne_comma g), if_pos rfl]
    exact hitems

/-- **A reader stops at a long integer** if nothing is wrong in front of it. -/
theorem Awaits.long {part : Part} {before after : List Char} (h : Awaits part before)
    (hafter : StartsLong after) : partEnd part (skipBlanks (before ++ after)) = .long := by
  induction h with
  | here =>
    have hend := numberEnd_eq_long_iff.2 hafter
    cases hafter with
    | mk hsign hwhole hlong hrest =>
      obtain ⟨d, ds, rfl, hd⟩ := hwhole.exists_cons
      rw [List.nil_append, List.cons_append, valueEnd_number hsign hd]
      exact hend
  | group h ih =>
    rw [List.cons_append, valueEnd_items (by rw [ih]; exact nofun), ih]
  | element hbefore h ih =>
    rw [List.append_assoc, skipBlanks_append hbefore]
    exact ih
  | @member before name behind cs hbefore hname hbehind h ih =>
    have htext : before ++ '"' :: (name ++ '"' :: (behind ++ ':' :: cs)) ++ after =
        before ++ '"' :: (name ++ '"' :: (behind ++ ':' :: (cs ++ after))) := by simp
    rw [htext, memberEnd_append hbefore hname hbehind, ih]
  | first h ih =>
    rw [itemsEnd, ih]
    rfl
  | @later g cs ds h hlater ih =>
    have hitem := h.reaches (',' :: (ds ++ after)) (follows_comma _)
    rw [Part.closing, List.nil_append] at hitem
    rw [List.append_assoc, List.cons_append, itemsEnd]
    refine hitem.andThen_long fun rest hrest => ?_
    rw [behindItem_of_reaches (by decide) hrest, if_neg (closing_ne_comma g), if_pos rfl]
    exact ih

/-! ## Texts -/

/-- How a text ends. -/
def textEnd (text : List Char) : Ending := partEnd .value (skipBlanks text)

/-- A byte order mark starts no value. -/
theorem textEnd_of_mark {text : List Char} (h : text.head? = some '\uFEFF') :
    textEnd text = .malformed := by
  obtain ⟨rest, rfl⟩ := List.head?_eq_some_iff.1 h
  rw [textEnd, skipBlanks_cons (by decide), valueEnd_scalar (by simp) (by rintro (_ | _) ⟨⟩)]
  rfl

/-- What is read by how a text ends. -/
theorem read_of_textEnd (text : List Char) :
    match textEnd text with
    | .left rest =>
      if skipBlanks rest = [] then ∃ r, value (skipBlanks text) = .ok r ∧ read text = .ok r.value
      else ∃ problem left, read text = .error (.malformed problem left)
    | .malformed => ∃ problem left, read text = .error (.malformed problem left)
    | .long => ∃ digits, read text = .error (.longInteger digits) := by
  by_cases hmark : text.head? = some '\uFEFF'
  · rw [textEnd_of_mark hmark, read, if_pos hmark]
    exact ⟨_, _, rfl⟩
  · rw [read, if_neg hmark, textEnd, partEnd]
    cases value (skipBlanks text) with
    | error e =>
      cases e with
      | malformed problem left => exact ⟨problem, left, rfl⟩
      | longInteger digits => exact ⟨digits, rfl⟩
    | ok r =>
      simp only [ending]
      split
      · exact ⟨r, rfl, rfl⟩
      · exact ⟨_, _, rfl⟩

/-- A text stops its reader exactly if it ends at too many digits. -/
theorem stops_iff {text : List Char} : Stops text ↔ textEnd text = .long := by
  constructor
  · rintro ⟨before, after, rfl, hbefore, hafter⟩
    exact hbefore.long hafter
  · intro h
    obtain ⟨bs, hbs, htext⟩ := exists_skipBlanks text
    have hexplains := explains_partEnd .value (skipBlanks text)
    rw [show partEnd .value (skipBlanks text) = .long from h] at hexplains
    obtain ⟨before, after, hbefore, hafter, hskip⟩ := hexplains
    exact ⟨bs ++ before, after, by rw [List.append_assoc, ← hskip, ← htext],
      .element hbs hbefore, hafter⟩

/-- **Reading stops at a long integer if and only if nothing is wrong in front of one.** -/
theorem read_eq_longInteger_iff {text : List Char} :
    (∃ digits, read text = .error (.longInteger digits)) ↔ Stops text := by
  have hread := read_of_textEnd text
  rw [stops_iff]
  constructor
  · rintro ⟨digits, hdigits⟩
    rw [hdigits] at hread
    split at hread
    · split at hread <;> simp at hread
    · simp at hread
    · assumption
  · intro hlong
    rw [hlong] at hread
    exact hread

/-- A text that is read is one value between blanks. -/
theorem exists_of_read {text : List Char} {v : Value} (h : read text = .ok v) :
    ∃ r, value (skipBlanks text) = .ok r ∧ r.value = v ∧ textEnd text = .left r.rest ∧
      skipBlanks r.rest = [] := by
  have hread := read_of_textEnd text
  rw [h] at hread
  split at hread
  · rename_i rest hrest
    split at hread
    · rename_i hblank
      obtain ⟨r, hr, hvalue⟩ := hread
      have hleft : textEnd text = .left r.rest := by rw [textEnd, partEnd, hr, ending]
      cases hrest.symm.trans hleft
      exact ⟨r, hr, (Except.ok.inj hvalue).symm, hleft, hblank⟩
    · simp at hread
  · simp at hread
  · simp at hread

/-- A text that ends in blanks is a value between blanks. -/
theorem exists_of_textEnd {text rest : List Char} (h : textEnd text = .left rest)
    (hrest : skipBlanks rest = []) :
    ∃ before cs, Blanks before ∧ Blanks rest ∧ Derives .value cs ∧
      skipBlanks text = cs ++ rest ∧ text = before ++ (cs ++ rest) := by
  obtain ⟨before, hbefore, htext⟩ := exists_skipBlanks text
  obtain ⟨after, hafter, hblanks⟩ := exists_skipBlanks rest
  have hexplains := explains_partEnd .value (skipBlanks text)
  rw [show partEnd .value (skipBlanks text) = .left rest from h] at hexplains
  obtain ⟨cs, hcs, hskip⟩ := hexplains
  rw [hrest, List.append_nil] at hblanks
  rw [Part.closing, List.nil_append] at hskip
  exact ⟨before, cs, hbefore, hblanks ▸ hafter, hcs, hskip, by rw [← hskip, ← htext]⟩

/-- **A text is read if and only if it holds a value** and no reader stops at it. -/
theorem read_eq_ok_iff {text : List Char} :
    (∃ v, read text = .ok v) ↔ IsJson text ∧ ¬ Stops text := by
  rw [stops_iff]
  constructor
  · rintro ⟨v, hv⟩
    obtain ⟨r, -, -, hleft, hblank⟩ := exists_of_read hv
    obtain ⟨before, cs, hbefore, hafter, hcs, -, htext⟩ := exists_of_textEnd hleft hblank
    refine ⟨?_, by rw [hleft]; exact nofun⟩
    rw [htext]
    exact .element hbefore hafter hcs
  · rintro ⟨hjson, hlong⟩
    have hreaches := hjson.reaches [] nofun
    have hread := read_of_textEnd text
    rw [Part.closing, List.append_nil, List.append_nil] at hreaches
    change (textEnd text).Reaches [] at hreaches
    cases hend : textEnd text with
    | left rest =>
      rw [hend] at hreaches hread
      obtain ⟨r, -, hr⟩ := (if_pos (show skipBlanks rest = [] from hreaches)).mp hread
      exact ⟨_, hr⟩
    | malformed =>
      rw [hend] at hreaches
      exact hreaches.elim
    | long => exact absurd hend hlong

/-- A value that another one was made of. -/
theorem exists_of_map {α β : Type} {f : α → β} {x : Result α} {b : β} (h : x.map f = .ok b) :
    ∃ a, f a = b := by
  cases x with
  | error e => cases h
  | ok a => exact ⟨a, Except.ok.inj h⟩

/-- A word or a number is no object. -/
theorem not_object_of_scalar {cs : List Char} {r : Parsed Value cs.length}
    (h : scalar cs = .ok r) : ¬ ∃ members, r.value = .object members := by
  unfold scalar at h
  split at h
  · rename_i w hw
    cases h
    have hmem := List.mem_of_find?_eq_some hw
    simp only [words, List.mem_cons, List.not_mem_nil, or_false] at hmem
    rcases hmem with rfl | rfl | rfl | rfl | rfl | rfl <;> simp
  · obtain ⟨p, rfl⟩ := exists_of_map h
    simp

/-- Where an object was read, a brace stands first. -/
theorem object_value_iff {cs : List Char} {r : Parsed Value cs.length} (h : value cs = .ok r) :
    (∃ members, r.value = .object members) ↔ cs.head? = some Group.object.opening := by
  cases cs with
  | nil =>
    rw [value] at h
    · exact iff_of_false (not_object_of_scalar h) (by simp)
    all_goals simp
  | cons c cs =>
    by_cases hquote : c = '"'
    · subst hquote
      rw [value] at h
      obtain ⟨name, rfl⟩ := exists_of_map h
      exact iff_of_false (by simp) (by simp [Group.opening])
    by_cases harray : c = Group.array.opening
    · subst harray
      rw [Group.opening, value] at h
      refine iff_of_false ?_ (by simp [Group.opening])
      cases hnext : next cs with
      | none => simp [hnext] at h
      | some p =>
        simp only [hnext] at h
        split at h
        · cases h
          simp
        · obtain ⟨items, rfl⟩ := exists_of_map h
          simp
    by_cases hobject : c = Group.object.opening
    · subst hobject
      rw [Group.opening, value] at h
      refine iff_of_true ?_ rfl
      cases hnext : next cs with
      | none => simp [hnext] at h
      | some p =>
        simp only [hnext] at h
        split at h
        · cases h
          exact ⟨_, rfl⟩
        · obtain ⟨items, rfl⟩ := exists_of_map h
          exact ⟨_, rfl⟩
    · rw [value] at h
      · exact iff_of_false (not_object_of_scalar h) fun hhead => hobject (Option.some.inj hhead)
      · exact fun rest heq => hquote (List.cons.inj heq).1
      · exact fun rest heq => harray (List.cons.inj heq).1
      · exact fun rest heq => hobject (List.cons.inj heq).1

/-- **An object is read if and only if the text holds one** and no reader stops at it. -/
theorem read_eq_object_iff {text : List Char} :
    (∃ members, read text = .ok (.object members)) ↔ IsObject text ∧ ¬ Stops text := by
  constructor
  · rintro ⟨members, hread⟩
    have hstops := (read_eq_ok_iff.1 ⟨_, hread⟩).2
    obtain ⟨r, hr, hvalue, hleft, hblank⟩ := exists_of_read hread
    obtain ⟨before, cs, hbefore, hafter, hcs, hskip, htext⟩ := exists_of_textEnd hleft hblank
    have hhead := (object_value_iff hr).1 ⟨members, hvalue⟩
    refine ⟨?_, hstops⟩
    rw [hskip] at hhead
    cases cs with
    | nil =>
      obtain ⟨tail, htail⟩ := List.head?_eq_some_iff.1 hhead
      rw [List.nil_append] at htail
      rw [htail, skipBlanks_cons (isBlank_opening _)] at hblank
      cases hblank
    | cons c cs =>
      obtain rfl := Option.some.inj hhead
      exact ⟨before, cs, r.rest, hbefore, hafter, hcs, htext⟩
  · rintro ⟨⟨before, cs, after, hbefore, hafter, hcs, htext⟩, hstops⟩
    have hjson : IsJson text := by
      rw [htext]
      exact .element hbefore hafter hcs
    obtain ⟨v, hv⟩ := read_eq_ok_iff.2 ⟨hjson, hstops⟩
    obtain ⟨r, hr, rfl, -⟩ := exists_of_read hv
    have hskip : skipBlanks text = Group.object.opening :: (cs ++ after) := by
      rw [htext, skipBlanks_append hbefore, List.cons_append, skipBlanks_cons (isBlank_opening _)]
    obtain ⟨members, hmembers⟩ := (object_value_iff hr).2 (by rw [hskip]; rfl)
    exact ⟨members, by rw [hv, hmembers]⟩

end Json
end Ferrotype
