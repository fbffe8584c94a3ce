/-
# Keys in their places

A key stands in front of a colon or a question mark: that of a property, that of a tag and those
under which a union keeps a payload. `keyAt?` reads the key at the start of a text, by the name that
it denotes, and what stands behind it.

`keys_denote_names` says for which names this is the name and the text behind the key, so that no
name breaks out of its place: for all but an identifier with a line feed behind it, whose key is the
only one on more than one line. Different names have different keys.
-/

import Ferrotype.Proofs.TypeScript.Key
import Ferrotype.TypeScript.Declaration

namespace Ferrotype
namespace TypeScript

open Text (literalChar unitEscape units16)

/-! ## Lines -/

/-- The characters that end a line. -/
def lineEnds : List Char := ['\n', '\r', '\u2028', '\u2029']

/-- Whether a text is on one line. -/
def isOnLine (cs : List Char) : Bool := cs.all fun c => !lineEnds.contains c

/-- Whether a character is printable and in ASCII. -/
def isPrintable (c : Char) : Bool := decide (' ' ≤ c) && decide (c ≤ '~')

/-- Characters that end no line stay on it. -/
theorem isOnLine_of_all {p : Char → Bool} (hp : lineEnds.all (!p ·)) {cs : List Char}
    (h : cs.all p) : isOnLine cs := by
  refine List.all_eq_true.2 fun c hc => ?_
  rw [Bool.not_eq_true', List.contains_eq_mem, decide_eq_false_iff_not]
  intro hend
  have hnone := List.all_eq_true.1 hp c hend
  rw [List.all_eq_true.1 h c hc] at hnone
  cases hnone

/-- The digits of a number are printable. -/
theorem all_isPrintable_padded (width n : Nat) :
    (Text.Hexadecimal.padded width n).all isPrintable := by
  have hdigit : ∀ d < 16, isPrintable (Text.Hexadecimal.digit d) := by decide
  induction width generalizing n with
  | zero => rfl
  | succ width ih =>
    rw [Text.Hexadecimal.padded, List.all_append, ih, List.all_cons,
      hdigit _ (Nat.mod_lt n (by decide))]
    rfl

/-- Whatever stands for a character in a literal of ASCII characters is printable. -/
theorem all_isPrintable_literalChar (c : Char) : (literalChar isPrintable c).all isPrintable := by
  have hescape (unit : Nat) : (unitEscape unit).all isPrintable := by
    rw [unitEscape, List.all_cons, List.all_cons, all_isPrintable_padded]
    rfl
  fun_cases literalChar isPrintable c with
  | case3 _ _ hc => rw [List.all_cons, hc]; rfl
  | case9 =>
    rw [List.all_flatMap, List.all_eq_true]
    exact fun unit _ => hescape unit
  | case1 | case2 | case4 | case5 | case6 | case7 | case8 => rfl

/-- A literal of ASCII characters is on one line. -/
theorem isOnLine_asciiLiteral (text : String) : isOnLine (Text.asciiLiteral text).toList := by
  have hends : lineEnds.all (!isPrintable ·) := by decide
  refine isOnLine_of_all hends ?_
  have hbody : (text.toList.flatMap (literalChar isPrintable)).all isPrintable := by
    rw [List.all_flatMap, List.all_eq_true]
    exact fun c _ => all_isPrintable_literalChar c
  have hliteral : (Text.asciiLiteral text).toList =
      '"' :: (text.toList.flatMap (literalChar isPrintable) ++ ['"']) := String.toList_ofList
  rw [hliteral, List.all_cons, List.all_append, hbody]
  rfl

/-- A key is on one line, unless its name is an identifier with a line feed behind it. -/
theorem isOnLine_propertyKey (name : String) :
    isOnLine (propertyKey name).toList ↔ isKeyLine name = false := by
  have hstarts : lineEnds.all (!startsKey ·) := by decide
  have hcontinues : lineEnds.all (!continuesKey ·) := by decide
  obtain ⟨hline, hkey⟩ | ⟨c, body, hc, hbody, hkey, ⟨hline, hname⟩ | ⟨hline, hname⟩⟩ :=
    propertyKey_cases name
  · rw [hkey]
    exact iff_of_true (isOnLine_asciiLiteral name) hline
  · refine iff_of_true ?_ hline
    rw [hkey, hname, ← List.singleton_append, isOnLine, List.all_append, Bool.and_eq_true]
    exact ⟨isOnLine_of_all hstarts (List.all_eq_true.2 (List.forall_mem_singleton.2 hc)),
      isOnLine_of_all hcontinues hbody⟩
  · refine iff_of_false (fun hone => ?_) (by rw [hline]; exact Bool.noConfusion)
    rw [hkey, hname, ← List.cons_append, isOnLine, List.all_append, Bool.and_eq_true] at hone
    exact absurd hone.2 (by decide)

/-! ## Reading a key where it stands -/

/-- The key at the start of a text, by the name that it denotes, and what stands behind it. -/
def keyAt? : List Char → Option (String × List Char)
  | [] => none
  | c :: cs =>
    if c = '"' then
      (Json.stringFrom 0 cs).toOption.map fun r => (String.ofList r.value, r.rest)
    else if startsKey c then
      some (String.ofList (c :: cs.takeWhile continuesKey), cs.dropWhile continuesKey)
    else none

/-- Whether a text can stand behind a key: it starts with a colon, or with the mark of a property
that may be absent. -/
def followsKey (cs : List Char) : Prop := cs.head? = some ':' ∨ cs.head? = some '?'

/-- A key that is an identifier is read in front of what does not go on with it. -/
theorem keyAt?_of_startsKey {c : Char} (hc : startsKey c) {body : List Char}
    (hbody : body.all continuesKey) {rest : List Char}
    (hrest : ∀ d ∈ rest.head?, continuesKey d = false) :
    keyAt? (c :: (body ++ rest)) = some (String.ofList (c :: body), rest) := by
  obtain ⟨htake, hdrop⟩ := Text.takeWhile_append_of_head? (List.all_eq_true.1 hbody) hrest
  rw [keyAt?, if_neg (ne_of_startsKey hc rfl), if_pos hc, htake, hdrop]

/-- A literal is read up to its closing quote, whichever characters stand for themselves in it. -/
theorem keyAt?_literalWith {plain : Char → Bool} (hplain : ∀ c, plain c → ' ' ≤ c) (name : String)
    (rest : List Char) :
    keyAt? ((Text.literalWith plain name).toList ++ rest) = some (name, rest) := by
  obtain ⟨r, hr, hvalue, hrest⟩ := Json.stringFrom_literalChars hplain 0 name.toList rest
  rw [Text.literalWith, String.toList_ofList, List.cons_append, List.append_assoc,
    List.singleton_append, keyAt?, if_pos rfl, hr]
  simp only [Except.toOption, Option.map_some, hvalue, hrest, String.ofList_toList]

/-- A key that is quoted is read to its closing quote. -/
theorem keyAt?_literal (name : String) (rest : List Char) :
    keyAt? ((Text.literal name).toList ++ rest) = some (name, rest) :=
  keyAt?_literalWith (fun _ => of_decide_eq_true) name rest

/-- The same of one with escapes for all but printable ASCII. -/
theorem keyAt?_asciiLiteral (name : String) (rest : List Char) :
    keyAt? ((Text.asciiLiteral name).toList ++ rest) = some (name, rest) :=
  keyAt?_literalWith (fun _ h => of_decide_eq_true (Bool.and_eq_true_iff.1 h).1) name rest

/-- What follows a key does not go on with it. -/
theorem followsKey.continuesKey {rest : List Char} (h : followsKey rest) :
    ∀ d ∈ rest.head?, continuesKey d = false := by
  rintro d hd
  rcases h with h | h <;> (rw [h, Option.mem_some_iff] at hd; subst hd; rfl)

/-- **Where the key of a name stands, the name is read and nothing else**, unless the name is an
identifier with a line feed behind it. -/
theorem keyAt?_propertyKey (name : String) {rest : List Char} (hrest : followsKey rest) :
    keyAt? ((propertyKey name).toList ++ rest) = some (name, rest) ↔ isKeyLine name = false := by
  obtain ⟨hline, hkey⟩ | ⟨c, body, hc, hbody, hkey, ⟨hline, hname⟩ | ⟨hline, hname⟩⟩ :=
    propertyKey_cases name
  · rw [hkey]
    exact iff_of_true (keyAt?_asciiLiteral name rest) hline
  · refine iff_of_true ?_ hline
    rw [hkey, hname, List.cons_append, keyAt?_of_startsKey hc hbody hrest.continuesKey, ← hname,
      String.ofList_toList]
  · refine iff_of_false (fun hread => ?_) (by rw [hline]; exact Bool.noConfusion)
    -- The line feed is left in front of the text behind the key.
    rw [hkey, hname, List.cons_append, List.append_assoc,
      keyAt?_of_startsKey hc hbody (by rintro d ⟨⟩; rfl)] at hread
    have hlength := congrArg List.length (Prod.mk.inj (Option.some.inj hread)).2
    simp at hlength

/-- Different names have different keys. -/
theorem propertyKey_injective : Function.Injective propertyKey := by
  have hliteral : Function.Injective Text.asciiLiteral := by
    intro a b h
    have ha := keyAt?_asciiLiteral a []
    rw [h, keyAt?_asciiLiteral b []] at ha
    exact (Prod.mk.inj (Option.some.inj ha)).1.symm
  have hne {a b : String} {c : Char} {cs : List Char} (hc : startsKey c)
      (ha : a.toList = c :: cs) : a ≠ Text.asciiLiteral b := by
    rintro rfl
    rw [Text.asciiLiteral, Text.literalWith, String.toList_ofList] at ha
    exact ne_of_startsKey hc rfl (List.cons.inj ha).1.symm
  intro a b h
  obtain ⟨-, ha⟩ | ⟨c, body, hc, -, ha, hname⟩ := propertyKey_cases a
  · obtain ⟨-, hb⟩ | ⟨d, more, hd, -, hb, hname⟩ := propertyKey_cases b
    · exact hliteral (ha.symm.trans (h.trans hb))
    · have hquoted := hb.symm.trans (h.symm.trans ha)
      exact hname.elim (fun h => absurd hquoted (hne hd h.2)) fun h => absurd hquoted (hne hd h.2)
  · obtain ⟨-, hb⟩ | ⟨d, more, -, -, hb, -⟩ := propertyKey_cases b
    · have hquoted := ha.symm.trans (h.trans hb)
      exact hname.elim (fun h => absurd hquoted (hne hc h.2)) fun h => absurd hquoted (hne hc h.2)
    · exact ha.symm.trans (h.trans hb)

/-! ## Places -/

/-- Whether the key of a name stands in a text, right behind another text. -/
def HasKey (front name text : String) : Prop :=
  ∃ rest, followsKey rest ∧ text.toList = front.toList ++ ((propertyKey name).toList ++ rest)

/-- What follows a key does so whatever stands behind it. -/
theorem followsKey.append {cs : List Char} (h : followsKey cs) (ds : List Char) :
    followsKey (cs ++ ds) := by
  cases cs with
  | nil => rcases h with h | h <;> cases h
  | cons c cs => exact h

/-- A key stands where it is written. -/
theorem hasKey_append (front name : String) {sign : String} (h : followsKey sign.toList)
    (more : String) : HasKey front name (front ++ (propertyKey name ++ (sign ++ more))) :=
  ⟨sign.toList ++ more.toList, h.append _, by simp⟩

/-- It stays there whatever is written behind it. -/
theorem HasKey.append {front name text : String} (h : HasKey front name text) (more : String) :
    HasKey front name (text ++ more) := by
  obtain ⟨rest, hrest, htext⟩ := h
  exact ⟨rest ++ more.toList, hrest.append _, by simp [htext]⟩

/-- It moves on with what is written in front of it. -/
theorem HasKey.prepend {front name text : String} (h : HasKey front name text) (more : String) :
    HasKey (more ++ front) name (more ++ text) := by
  obtain ⟨rest, hrest, htext⟩ := h
  exact ⟨rest, hrest, by simp [htext]⟩

theorem followsKey_colon : followsKey (": ").toList := .inl rfl

/-- The key of a property stands behind its documentation and the blanks before the line. -/
theorem hasKey_property (level : Nat) (p : Property) :
    HasKey (renderComment (indentation level) p.docs ++ indent level) p.name (p.render level) := by
  have hfollows : followsKey ((if p.optional then "?" else "") ++ ": ").toList := by
    cases p.optional
    · exact .inl rfl
    · exact .inr rfl
  have hkey := hasKey_append (renderComment (indentation level) p.docs ++ indent level) p.name
    hfollows (p.type.render ++ ";\n")
  simpa only [Property.render, String.append_assoc] using hkey

/-- A tag starts with its key. -/
theorem hasKey_tag (tag : Tag) : HasKey "" tag.name tag.render := by
  have hkey := hasKey_append "" tag.name followsKey_colon (Text.literal tag.label)
  simpa only [Tag.render, String.empty_append, String.append_assoc] using hkey

namespace Shape

/-- What stands before the first key of a member, on one line or over several lines. -/
def fronts : List String := ["\x7b ", "\x7b\n" ++ indent (memberLevel + 1)]

/-- The tag of a member, if it has one. -/
def tag? : Shape → Option Tag
  | .tag t => some t
  | tagAnd t _ => some t
  | tagWith t _ _ => some t
  | .record t _ => t
  | keyed t _ _ => t
  | type _ => none
  | label _ => none

/-- The key under which a member keeps its payload, and what stands between that key and the start
of the member. -/
def payloadKey? : Shape → Option (String × String)
  | tagWith t content _ => some ("\x7b " ++ t.render ++ "; ", content)
  | keyed t key _ => some ("\x7b\n" ++ tagLine (memberLevel + 1) t ++ indent (memberLevel + 1), key)
  | _ => none

/-- The key of the tag of a member stands first in it. -/
theorem hasKey_tag? {s : Shape} {t : Tag} (h : s.tag? = some t) :
    ∃ front ∈ fronts, HasKey front t.name s.render := by
  have hinline (more : String) : HasKey "\x7b " t.name ("\x7b " ++ t.render ++ more) := by
    have hkey := ((hasKey_tag t).prepend "\x7b ").append more
    rwa [String.append_empty] at hkey
  have hline (more : String) : HasKey ("\x7b\n" ++ indent (memberLevel + 1)) t.name
      ("\x7b\n" ++ tagLine (memberLevel + 1) (some t) ++ more) := by
    have hkey := (((hasKey_tag t).prepend ("\x7b\n" ++ indent (memberLevel + 1))).append
      ";\n").append more
    rw [String.append_empty] at hkey
    simpa only [tagLine, Option.map_some, Option.getD_some, Tag.line, String.append_assoc] using hkey
  cases s with
  | type _ => cases h
  | label _ => cases h
  | tag _ =>
    cases h
    exact ⟨_, List.mem_cons_self, hinline _⟩
  | tagAnd _ payload =>
    cases h
    refine ⟨_, List.mem_cons_self, ?_⟩
    have hkey := hinline (" \x7d & " ++ payload.render)
    simpa only [render, String.append_assoc] using hkey
  | tagWith _ content payload =>
    cases h
    refine ⟨_, List.mem_cons_self, ?_⟩
    have hkey := hinline ("; " ++ propertyKey content ++ ": " ++ payload.render ++ " \x7d")
    simpa only [render, String.append_assoc] using hkey
  | record _ r =>
    cases h
    refine ⟨_, List.mem_cons_of_mem _ List.mem_cons_self, ?_⟩
    have hkey := hline (Text.concat (r.properties.map (Property.render (memberLevel + 1))) ++
      indent memberLevel ++ "\x7d" ++ renderMerged r.merged)
    simpa only [render, Record.render, renderObject, Option.isNone_some, Bool.false_and,
      Bool.false_eq_true, if_false, String.append_assoc] using hkey
  | keyed _ key r =>
    cases h
    refine ⟨_, List.mem_cons_of_mem _ List.mem_cons_self, ?_⟩
    have hkey := hline (indent (memberLevel + 1) ++ propertyKey key ++ ": " ++
      r.render (memberLevel + 1) none ++ ";\n" ++ indent memberLevel ++ "\x7d")
    simpa only [render, String.append_assoc] using hkey

/-- The key of the payload of a member stands behind its tag. -/
theorem hasKey_payloadKey? {s : Shape} {front key : String}
    (h : s.payloadKey? = some (front, key)) :
    HasKey front key s.render := by
  cases s with
  | tagWith t _ payload =>
    cases h
    have hkey := hasKey_append ("\x7b " ++ t.render ++ "; ") key followsKey_colon
      (payload.render ++ " \x7d")
    simpa only [render, String.append_assoc] using hkey
  | keyed t _ r =>
    cases h
    have hkey := hasKey_append
      ("\x7b\n" ++ tagLine (memberLevel + 1) t ++ indent (memberLevel + 1)) key followsKey_colon
      (r.render (memberLevel + 1) none ++ ";\n" ++ indent memberLevel ++ "\x7d")
    simpa only [render, String.append_assoc] using hkey
  | _ => cases h

end Shape

end TypeScript
end Ferrotype
