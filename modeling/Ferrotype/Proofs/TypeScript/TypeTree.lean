/-
# Rendered types are read back

A type is read back from its text as its own tree (`readsAs_symbols`), in front of everything that
does not go on with a type. The renderer looks for a bar in the text of an element to decide on
parentheses. It finds one in every union (`needsParentheses_of_isUnion`), so no bracket is read as
that of the last operand; where it writes parentheses around another element, they change nothing.
-/

import Ferrotype.Proofs.TypeScript.Alternative
import Ferrotype.Proofs.TypeScript.Grammar

namespace Ferrotype
namespace TypeScript

/-- Whether a text is a name in a type. -/
def isTypeName (text : String) : Bool := !text.toList.isEmpty && text.toList.all continuesWord

namespace TypeExpr

mutual

/-- Whether the names in a type are words, its applications have arguments, and no union is a direct
part of another one. -/
def isReadable : TypeExpr → Bool
  | .name text => isTypeName text
  | apply head args => isTypeName head && !args.isEmpty && isReadableAll args
  | array element => element.isReadable
  | tuple elements => isReadableAll elements
  | orNull inner => !inner.isUnion && inner.isReadable
  | foreign _ written => isTypeName written

/-- Whether types are readable, one by one. -/
def isReadableAll : List TypeExpr → Bool
  | [] => true
  | t :: ts => t.isReadable && isReadableAll ts

end

/-- A name with arguments is readable if the name and the arguments are. -/
theorem isReadable_apply {head : String} (hhead : isTypeName head) {t : TypeExpr}
    {ts : List TypeExpr} (h : isReadableAll (t :: ts)) : (apply head (t :: ts)).isReadable := by
  rw [isReadable, hhead, h]
  rfl

mutual

/-- The tree of a type. -/
def tree : TypeExpr → TypeTree
  | .name text => .name text
  | apply head args => .apply head (treeAll args)
  | array element => .array element.tree
  | tuple elements => .tuple (treeAll elements)
  | orNull inner => .joined .union [inner.tree, .name "null"]
  | foreign _ written => .name written

/-- The trees of types. -/
def treeAll : List TypeExpr → List TypeTree
  | [] => []
  | t :: ts => t.tree :: treeAll ts

end

mutual

/-- The symbols of a type. -/
def symbols : TypeExpr → List Symbol
  | .name text => [.word text]
  | apply head args => .word head :: .sign '<' :: (symbolsAll args ++ [.sign '>'])
  | array element =>
    (if needsParentheses element.render then .sign '(' :: (element.symbols ++ [.sign ')'])
      else element.symbols) ++ [.sign '[', .sign ']']
  | tuple elements => .sign '[' :: (symbolsAll elements ++ [.sign ']'])
  | orNull inner => inner.symbols ++ [.sign '|', .word "null"]
  | foreign _ written => [.word written]

/-- The symbols of types with commas between them. -/
def symbolsAll : List TypeExpr → List Symbol
  | [] => []
  | [t] => t.symbols
  | t :: ts => t.symbols ++ .sign ',' :: symbolsAll ts

end

end TypeExpr

/-! ## From the text to its symbols -/

/-- Whether a word ends in front of characters. -/
def EndsWord (cs : List Char) : Prop := ∀ c ∈ cs.head?, continuesWord c = false

/-- A character that goes on with no word ends one. -/
theorem endsWord_cons {c : Char} (h : continuesWord c = false) (cs : List Char) :
    EndsWord (c :: cs) := by
  rintro d ⟨⟩
  exact h

/-- A name is one symbol in front of what ends it. -/
theorem symbols_isTypeName {text : String} (h : isTypeName text) {rest : List Char}
    (hrest : EndsWord rest) : symbols (text.toList ++ rest) = .word text :: symbols rest := by
  rw [isTypeName, Bool.and_eq_true, Bool.not_eq_true', List.isEmpty_eq_false_iff] at h
  exact symbols_of_word h.1 h.2 hrest

mutual

/-- **A text is cut into the symbols of its type.** -/
theorem symbols_render (t : TypeExpr) (h : t.isReadable) {rest : List Char}
    (hrest : EndsWord rest) :
    symbols (t.render.toList ++ rest) = t.symbols ++ symbols rest := by
  cases t with
  | name text => exact symbols_isTypeName h hrest
  | apply head args =>
    rw [TypeExpr.isReadable, Bool.and_eq_true, Bool.and_eq_true] at h
    have htext : (TypeExpr.apply head args).render.toList ++ rest = head.toList ++
        '<' :: ((Text.join ", " (args.map TypeExpr.render)).toList ++ '>' :: rest) := by
      simp [TypeExpr.render, angled]
    rw [htext, symbols_isTypeName h.1.1 (endsWord_cons rfl _), symbols_of_sign rfl rfl,
      symbols_renderAll args h.2 (endsWord_cons rfl _), symbols_of_sign rfl rfl]
    simp [TypeExpr.symbols]
  | array element =>
    rw [TypeExpr.render, elementText, TypeExpr.symbols]
    split
    · have htext : ("(" ++ element.render ++ ")" ++ "[]").toList ++ rest =
          '(' :: (element.render.toList ++ ')' :: '[' :: ']' :: rest) := by simp
      rw [htext, symbols_of_sign rfl rfl, symbols_render element h (endsWord_cons rfl _),
        symbols_of_sign rfl rfl, symbols_of_sign rfl rfl, symbols_of_sign rfl rfl]
      simp
    · have htext : (element.render ++ "[]").toList ++ rest =
          element.render.toList ++ '[' :: ']' :: rest := by simp
      rw [htext, symbols_render element h (endsWord_cons rfl _), symbols_of_sign rfl rfl,
        symbols_of_sign rfl rfl]
      simp
  | tuple elements =>
    have htext : (TypeExpr.tuple elements).render.toList ++ rest =
        '[' :: ((Text.join ", " (elements.map TypeExpr.render)).toList ++ ']' :: rest) := by
      simp [TypeExpr.render, bracketed]
    rw [htext, symbols_of_sign rfl rfl, symbols_renderAll elements h (endsWord_cons rfl _),
      symbols_of_sign rfl rfl]
    simp [TypeExpr.symbols]
  | orNull inner =>
    rw [TypeExpr.isReadable, Bool.and_eq_true] at h
    have htext : (TypeExpr.orNull inner).render.toList ++ rest =
        inner.render.toList ++ ' ' :: '|' :: ' ' :: ("null".toList ++ rest) := by
      simp [TypeExpr.render]
    rw [htext, symbols_render inner h.2 (endsWord_cons rfl _), symbols_of_isBlank rfl,
      symbols_of_sign rfl rfl, symbols_of_isBlank rfl, symbols_isTypeName (by decide) hrest]
    simp [TypeExpr.symbols]
  | foreign reported written => exact symbols_isTypeName h hrest

/-- The text of types with commas between them is cut into their symbols. -/
theorem symbols_renderAll (ts : List TypeExpr) (h : TypeExpr.isReadableAll ts) {rest : List Char}
    (hrest : EndsWord rest) :
    symbols ((Text.join ", " (ts.map TypeExpr.render)).toList ++ rest) =
      TypeExpr.symbolsAll ts ++ symbols rest := by
  match ts with
  | [] => rfl
  | [t] =>
    rw [TypeExpr.isReadableAll, Bool.and_eq_true] at h
    exact symbols_render t h.1 hrest
  | t :: u :: ts =>
    rw [TypeExpr.isReadableAll, Bool.and_eq_true] at h
    have htext : (Text.join ", " ((t :: u :: ts).map TypeExpr.render)).toList ++ rest =
        t.render.toList ++ ',' :: ' ' ::
          ((Text.join ", " ((u :: ts).map TypeExpr.render)).toList ++ rest) := by
      simp [Text.join_cons_cons]
    rw [htext, symbols_render t h.1 (endsWord_cons rfl _), symbols_of_sign rfl rfl,
      symbols_of_isBlank rfl, symbols_renderAll (u :: ts) h.2 hrest]
    simp [TypeExpr.symbolsAll]

end

/-! ## From the symbols to the tree -/

/-- Whether symbols start with none of some signs. -/
def Avoids (signs : List Char) (ss : List Symbol) : Prop := ∀ c ∈ signs, ss.head? ≠ some (.sign c)

/-- A sign is avoided by all others. -/
theorem avoids_sign {signs : List Char} {c : Char} (h : c ∉ signs) (ss : List Symbol) :
    Avoids signs (.sign c :: ss) := by
  rintro d hd ⟨⟩
  exact h hd

/-- The signs that go on with an operand. -/
def operandSigns : List Char := ['<', '[', '&']

/-- The signs that go on with a type. -/
def typeSigns : List Char := '|' :: operandSigns

/-- Whether a type is read as an operand, together with the brackets that follow it. -/
def ReadsOperand (t : TypeExpr) : Prop :=
  ∀ rest, Avoids ['<'] rest →
    ReadsAs (readOperand .intersection (t.symbols ++ rest)) (arrays t.tree rest).value
      (arrays t.tree rest).rest

/-- Whether a type is read in front of what does not go on with it. -/
def ReadsWhole (t : TypeExpr) : Prop :=
  ∀ rest, Avoids typeSigns rest → ReadsAs (readJoined .union (t.symbols ++ rest)) t.tree rest

variable {t inner element : TypeExpr} {ts : List TypeExpr} {rest : List Symbol}

namespace ReadsOperand

/-- An operand is read alone if neither a bracket nor `&` follows it. -/
theorem alone (h : ReadsOperand t) (hrest : Avoids operandSigns rest) :
    ReadsAs (readOperand .union (t.symbols ++ rest)) t.tree rest := by
  have hread := h rest (List.forall_mem_singleton.2 (hrest '<' (by decide)))
  rw [arrays_of_head (hrest '[' (by decide))] at hread
  rw [readOperand]
  exact readsAs_joined hread (readsAs_noMore (hrest '&' (by decide)))

/-- What is read as an operand is read as a whole type. -/
theorem whole (h : ReadsOperand t) : ReadsWhole t := by
  intro rest hrest
  obtain ⟨hbar, hoperand⟩ := List.forall_mem_cons.1 hrest
  exact readsAs_joined (h.alone hoperand) (readsAs_noMore hbar)

/-- A name is read as an operand. -/
theorem name (text : String) : ReadsOperand (.name text) := fun _ hrest =>
  readsAs_arrays (readsAs_name text (hrest '<' List.mem_cons_self))

/-- **A union takes one operand to the left of its bar**, and `null` to the right. -/
theorem orNull (h : ReadsOperand inner) : ReadsWhole (.orNull inner) := by
  intro rest hrest
  obtain ⟨hbar, hoperand⟩ := List.forall_mem_cons.1 hrest
  have hinner := h.alone (avoids_sign (c := '|') (by decide) (.word "null" :: rest))
  have hnull : ReadsAs (readOperand .union (.word "null" :: rest)) (.name "null") rest :=
    (name "null").alone hoperand
  rw [TypeExpr.symbols, List.append_assoc]
  exact readsAs_joined hinner (readsAs_more hnull (readsAs_noMore hbar))

/-- The brackets of an array stay with the operand in front of them. -/
theorem array (h : ReadsOperand element) (hparens : needsParentheses element.render = false) :
    ReadsOperand (.array element) := by
  intro rest _
  have hread := h (.sign '[' :: .sign ']' :: rest) (avoids_sign (by decide) _)
  rwa [TypeExpr.symbols, hparens, if_neg Bool.false_ne_true, List.append_assoc]

end ReadsOperand

/-- In parentheses every type is the element of an array. -/
theorem ReadsWhole.array (h : ReadsWhole element) (hparens : needsParentheses element.render) :
    ReadsOperand (.array element) := by
  intro rest _
  have hinner := h (.sign ')' :: .sign '[' :: .sign ']' :: rest) (avoids_sign (by decide) _)
  have hread := readsAs_arrays (readsAs_parentheses hinner)
  have hsymbols : (TypeExpr.array element).symbols ++ rest =
      .sign '(' :: (element.symbols ++ .sign ')' :: .sign '[' :: .sign ']' :: rest) := by
    rw [TypeExpr.symbols, if_pos hparens]
    simp
  rwa [hsymbols]

/-- Types between commas are read as a list. -/
theorem readsAs_symbolsAll (hne : ts ≠ []) (h : ∀ t ∈ ts, ReadsWhole t)
    (hrest : Avoids (',' :: typeSigns) rest) :
    ReadsAs (readList (TypeExpr.symbolsAll ts ++ rest)) (TypeExpr.treeAll ts) rest := by
  obtain ⟨hcomma, htype⟩ := List.forall_mem_cons.1 hrest
  induction ts with
  | nil => exact absurd rfl hne
  | cons t ts ih =>
    obtain ⟨ht, hmore⟩ := List.forall_mem_cons.1 h
    cases ts with
    | nil => exact readsAs_list_singleton (ht rest htype) hcomma
    | cons u ts =>
      rw [TypeExpr.symbolsAll, List.append_assoc, TypeExpr.treeAll]
      · exact readsAs_list_cons (ht _ (avoids_sign (by decide) _))
          (ih (List.cons_ne_nil u ts) hmore)
      · exact List.cons_ne_nil u ts

/-- A name with arguments is read as an operand. -/
theorem readsOperand_apply (head : String) (hne : ts ≠ []) (h : ∀ t ∈ ts, ReadsWhole t) :
    ReadsOperand (.apply head ts) := by
  intro rest _
  have hlist := readsAs_symbolsAll hne h (avoids_sign (c := '>') (by decide) rest)
  rw [TypeExpr.symbols, List.cons_append, List.cons_append, List.append_assoc]
  exact readsAs_arrays (readsAs_apply head hlist)

/-- A tuple is read as an operand. -/
theorem readsOperand_tuple (h : ∀ t ∈ ts, ReadsWhole t) : ReadsOperand (.tuple ts) := by
  intro rest _
  rw [TypeExpr.symbols, List.cons_append, List.append_assoc]
  cases ts with
  | nil => exact readsAs_arrays (readsAs_tuple_nil rest)
  | cons t ts =>
    have hlist := readsAs_symbolsAll (List.cons_ne_nil t ts) h
      (avoids_sign (c := ']') (by decide) rest)
    exact readsAs_arrays (readsAs_tuple hlist)

mutual

/-- **A type is read back as its tree.** -/
theorem readsAs_symbols (t : TypeExpr) (h : t.isReadable) :
    ReadsWhole t ∧ (t.isUnion = false → ReadsOperand t) := by
  cases t with
  | name text => exact ⟨(ReadsOperand.name text).whole, fun _ => .name text⟩
  | apply head args =>
    rw [TypeExpr.isReadable, Bool.and_eq_true, Bool.and_eq_true, Bool.not_eq_true',
      List.isEmpty_eq_false_iff] at h
    have happly := readsOperand_apply head h.1.2 (readsWhole_all args h.2)
    exact ⟨happly.whole, fun _ => happly⟩
  | array element =>
    obtain ⟨hwhole, hoperand⟩ := readsAs_symbols element h
    have harray : ReadsOperand (.array element) := by
      cases hparens : needsParentheses element.render with
      | true => exact hwhole.array hparens
      | false =>
        -- An element without parentheses holds no bar, so it is no union.
        refine (hoperand ?_).array hparens
        rw [Bool.eq_false_iff]
        intro hunion
        rw [needsParentheses_of_isUnion hunion] at hparens
        cases hparens
    exact ⟨harray.whole, fun _ => harray⟩
  | tuple elements =>
    have htuple := readsOperand_tuple (readsWhole_all elements h)
    exact ⟨htuple.whole, fun _ => htuple⟩
  | orNull inner =>
    rw [TypeExpr.isReadable, Bool.and_eq_true, Bool.not_eq_true'] at h
    obtain ⟨-, hoperand⟩ := readsAs_symbols inner h.2
    exact ⟨(hoperand h.1).orNull, fun hunion => Bool.noConfusion hunion⟩
  | foreign reported written =>
    exact ⟨(ReadsOperand.name written).whole, fun _ => .name written⟩

/-- Readable types are read whole. The recursion is that on types. -/
theorem readsWhole_all (ts : List TypeExpr) (h : TypeExpr.isReadableAll ts) :
    ∀ t ∈ ts, ReadsWhole t := by
  cases ts with
  | nil => exact List.forall_mem_nil _
  | cons t ts =>
    rw [TypeExpr.isReadableAll, Bool.and_eq_true] at h
    exact List.forall_mem_cons.2 ⟨(readsAs_symbols t h.1).1, readsWhole_all ts h.2⟩

end

/-- **The text of a type is read as its tree.** -/
theorem readType_render {t : TypeExpr} (h : t.isReadable) : readType t.render = some t.tree := by
  have hsymbols : symbols t.render.toList = t.symbols ++ [] := by
    have hrender : symbols (t.render.toList ++ []) = t.symbols ++ symbols [] :=
      symbols_render t h (by rintro c ⟨⟩)
    rwa [List.append_nil, symbols_nil] at hrender
  refine readType_of_readsAs ?_
  rw [hsymbols]
  exact (readsAs_symbols t h).1 [] nofun

end TypeScript
end Ferrotype
