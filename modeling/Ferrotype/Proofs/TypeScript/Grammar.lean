/-
# A grammar of types

The text of a type is cut into words and signs, and these are read as a type with the precedences
that TypeScript gives them: the brackets of an array bind tighter than `&`, which binds tighter than
`|`, and parentheses, tuples and arguments delimit what stands between their brackets.

The readers take what they need from the front and leave the rest (`ReadsAs`), so a type can be read
in front of anything that does not go on with it.
-/

import Ferrotype.Parsed
import Ferrotype.Proofs.TypeScript.Reading
import Ferrotype.Proofs.Unicode.Word

namespace Ferrotype
namespace TypeScript

/-! ## Symbols -/

/-- A word, or another character that is no blank. -/
inductive Symbol
  | word (text : String)
  | sign (c : Char)
deriving Repr, DecidableEq

/-- Whether a character goes on in a word. -/
def continuesWord (c : Char) : Bool := Unicode.isWordChar c || c == '$'

/-- The symbols of a text. -/
def symbols : List Char → List Symbol
  | [] => []
  | c :: cs =>
    if isBlank c then symbols cs
    else if continuesWord c then
      .word (String.ofList (c :: cs.takeWhile continuesWord)) ::
        symbols (cs.dropWhile continuesWord)
    else .sign c :: symbols cs
termination_by cs => cs.length
decreasing_by
  · exact Nat.lt_succ_self _
  · exact Nat.lt_succ_of_le ((List.dropWhile_sublist _).length_le)
  · exact Nat.lt_succ_self _

@[simp] theorem symbols_nil : symbols [] = [] := by rw [symbols]

/-- Blanks are no symbols. -/
theorem symbols_of_isBlank {c : Char} (h : isBlank c) (cs : List Char) :
    symbols (c :: cs) = symbols cs := by
  rw [symbols, if_pos h]

/-- A character that is neither a blank nor part of a word is a sign. -/
theorem symbols_of_sign {c : Char} (hblank : isBlank c = false) (hword : continuesWord c = false)
    (cs : List Char) : symbols (c :: cs) = .sign c :: symbols cs := by
  rw [symbols, hblank, hword, if_neg Bool.false_ne_true, if_neg Bool.false_ne_true]

/-- What goes on with a word is no blank. -/
theorem isBlank_of_continuesWord {c : Char} (h : continuesWord c) : isBlank c = false := by
  rw [Bool.eq_false_iff]
  intro hblank
  simp only [isBlank, Bool.or_eq_true, beq_iff_eq] at hblank
  rcases hblank with ((rfl | rfl) | rfl) | rfl <;> exact absurd h (by decide)

/-- **A word ends in front of a character that does not go on in it.** -/
theorem symbols_of_word {text : String} (hne : text.toList ≠ [])
    (htext : text.toList.all continuesWord) {rest : List Char}
    (hrest : ∀ d ∈ rest.head?, continuesWord d = false) :
    symbols (text.toList ++ rest) = .word text :: symbols rest := by
  cases hcs : text.toList with
  | nil => exact absurd hcs hne
  | cons c cs =>
    rw [hcs, List.all_cons, Bool.and_eq_true] at htext
    have hall := List.all_eq_true.1 htext.2
    have htake : rest.takeWhile continuesWord = [] := by
      cases rest with
      | nil => rfl
      | cons d ds => rw [List.takeWhile_cons_of_neg (by simp [hrest d rfl])]
    have hdrop : rest.dropWhile continuesWord = rest := by
      cases rest with
      | nil => rfl
      | cons d ds => rw [List.dropWhile_cons_of_neg (by simp [hrest d rfl])]
    rw [List.cons_append, symbols, isBlank_of_continuesWord htext.1, if_neg Bool.false_ne_true,
      if_pos htext.1, List.takeWhile_append_of_pos hall, List.dropWhile_append_of_pos hall, htake,
      hdrop, List.append_nil, ← hcs, String.ofList_toList]

/-! ## Types -/

/-- What joins types. -/
inductive Operator
  | union
  | intersection
deriving Repr, DecidableEq

namespace Operator

/-- The sign between joined types. -/
def sign : Operator → Char
  | union => '|'
  | intersection => '&'

/-- How loosely an operator binds. -/
def looseness : Operator → Nat
  | union => 4
  | intersection => 2

end Operator

/-- A type as its text is read. -/
inductive TypeTree
  | name (text : String)
  /-- A generic type with its arguments. -/
  | apply (head : String) (args : List TypeTree)
  | array (element : TypeTree)
  | tuple (elements : List TypeTree)
  | joined (operator : Operator) (members : List TypeTree)
deriving Repr, BEq, Inhabited

namespace TypeTree

/-- Types joined by an operator; one type alone is itself. -/
def join (operator : Operator) : List TypeTree → TypeTree
  | [single] => single
  | members => joined operator members

end TypeTree

/-- A type as the element of the arrays whose brackets follow it. -/
def arrays (t : TypeTree) (ss : List Symbol) : Parsed Symbol TypeTree (ss.length + 1) :=
  match ss with
  | .sign '[' :: .sign ']' :: ss =>
    (arrays (.array t) ss).widen (by simp only [List.length_cons]; omega)
  | ss => .before t ss

/-- The symbols behind a sign that has to stand in front. -/
def behind (c : Char) : (ss : List Symbol) → Option (Parsed Symbol Unit ss.length)
  | .sign d :: ss => if d = c then some (.past () (.sign d) ss) else none
  | _ => none

mutual

/-- Types joined by an operator. -/
def readJoined (operator : Operator) (ss : List Symbol) :
    Option (Parsed Symbol TypeTree ss.length) := do
  let first ← readOperand operator ss
  let more ← readMore operator first.rest
  some ⟨.join operator (first.value :: more.value), more.rest,
    Nat.lt_of_lt_of_le more.shorter first.shorter⟩
termination_by (ss.length, operator.looseness + 1)
decreasing_by
  · exact Prod.Lex.right _ (Nat.lt_succ_self _)
  · exact Prod.Lex.left _ _ first.shorter

/-- What an operator joins. -/
def readOperand (operator : Operator) (ss : List Symbol) :
    Option (Parsed Symbol TypeTree ss.length) :=
  match operator with
  | .union => readJoined .intersection ss
  | .intersection => do
    let element ← readPrimary ss
    some ((arrays element.value element.rest).widen element.shorter)
termination_by (ss.length, operator.looseness)
decreasing_by
  · exact Prod.Lex.right _ (by decide)
  · exact Prod.Lex.right _ (by decide)

/-- The types behind the first one that an operator joins. -/
def readMore (operator : Operator) (ss : List Symbol) :
    Option (Parsed Symbol (List TypeTree) (ss.length + 1)) :=
  match behind operator.sign ss with
  | none => some (.before [] ss)
  | some opened => do
    let next ← readOperand operator opened.rest
    let more ← readMore operator next.rest
    some ⟨next.value :: more.value, more.rest, by
      have h1 := opened.shorter
      have h2 := next.shorter
      have h3 := more.shorter
      omega⟩
termination_by (ss.length, 0)
decreasing_by
  · exact Prod.Lex.left _ _ opened.shorter
  · exact Prod.Lex.left _ _ (Nat.lt_trans next.shorter opened.shorter)

/-- A name with its arguments, a type in parentheses or a tuple. -/
def readPrimary (ss : List Symbol) : Option (Parsed Symbol TypeTree ss.length) :=
  match ss with
  | .word text :: ss =>
    match behind '<' ss with
    | none => some (.past (.name text) (.word text) ss)
    | some opened => do
      let args ← readList opened.rest
      let closed ← behind '>' args.rest
      some ⟨.apply text args.value, closed.rest, by
        have h1 := opened.shorter
        have h2 := args.shorter
        have h3 := closed.shorter
        simp only [List.length_cons]
        omega⟩
  | .sign '(' :: ss => do
    let inner ← readJoined .union ss
    let closed ← behind ')' inner.rest
    some ⟨inner.value, closed.rest, by
      have h1 := inner.shorter
      have h2 := closed.shorter
      simp only [List.length_cons]
      omega⟩
  | .sign '[' :: ss =>
    match behind ']' ss with
    | some closed => some ((closed.map fun _ => .tuple []).later)
    | none => do
      let elements ← readList ss
      let closed ← behind ']' elements.rest
      some ⟨.tuple elements.value, closed.rest, by
        have h1 := elements.shorter
        have h2 := closed.shorter
        simp only [List.length_cons]
        omega⟩
  | _ => none
termination_by (ss.length, 0)
decreasing_by
  · exact Prod.Lex.left _ _ (Nat.lt_trans opened.shorter (Nat.lt_succ_self _))
  · exact Prod.Lex.left _ _ (Nat.lt_succ_self _)
  · exact Prod.Lex.left _ _ (Nat.lt_succ_self _)

/-- Types between commas, at least one. -/
def readList (ss : List Symbol) : Option (Parsed Symbol (List TypeTree) ss.length) := do
  let first ← readJoined .union ss
  match behind ',' first.rest with
  | none => some (first.map fun t => [t])
  | some opened => do
    let more ← readList opened.rest
    some ⟨first.value :: more.value, more.rest, by
      have h1 := first.shorter
      have h2 := opened.shorter
      have h3 := more.shorter
      omega⟩
termination_by (ss.length, 6)
decreasing_by
  · exact Prod.Lex.right _ (by decide)
  · exact Prod.Lex.left _ _ (Nat.lt_trans opened.shorter first.shorter)

end

/-- The type that a text is read as. -/
def readType (text : String) : Option TypeTree := do
  let t ← readJoined .union (symbols text.toList)
  if t.rest.isEmpty then some t.value else none

/-! ## What is read -/

section Reads

variable {α β : Type} {n m : Nat}

/-- Whether a reader gives a value and leaves a rest. -/
def ReadsAs (result : Option (Parsed Symbol α n)) (value : α) (rest : List Symbol) : Prop :=
  ∃ p, result = some p ∧ p.value = value ∧ p.rest = rest

/-- One reader after the other reads what the second one does. -/
theorem ReadsAs.bind {result : Option (Parsed Symbol α n)} {value : α} {more rest : List Symbol}
    {f : Parsed Symbol α n → Option (Parsed Symbol β m)} {b : β} (h : ReadsAs result value more)
    (hf : ∀ shorter, ReadsAs (f ⟨value, more, shorter⟩) b rest) :
    ReadsAs (result >>= f) b rest := by
  obtain ⟨p, rfl, rfl, rfl⟩ := h
  exact hf p.shorter

end Reads

variable {operator : Operator} {ss more rest : List Symbol} {t u : TypeTree} {ts : List TypeTree}

@[simp] theorem behind_sign (c : Char) (ss : List Symbol) :
    behind c (.sign c :: ss) = some (.past () (.sign c) ss) := if_pos rfl

/-- A sign that comes next is passed. -/
theorem readsAs_behind (c : Char) (ss : List Symbol) :
    ReadsAs (behind c (.sign c :: ss)) () ss := ⟨_, behind_sign c ss, rfl, rfl⟩

/-- Another one is not. -/
theorem behind_of_head {c : Char} (h : ss.head? ≠ some (.sign c)) : behind c ss = none := by
  unfold behind
  split
  · exact if_neg fun heq => h (by rw [heq]; rfl)
  · rfl

/-- Without a bracket no array is read. -/
theorem arrays_of_head (h : rest.head? ≠ some (.sign '[')) : arrays t rest = .before t rest := by
  unfold arrays
  split
  · exact absurd rfl h
  · rfl

/-- A type is the element of the arrays whose brackets follow it. -/
theorem readsAs_arrays (h : ReadsAs (readPrimary ss) t rest) :
    ReadsAs (readOperand .intersection ss) (arrays t rest).value (arrays t rest).rest := by
  rw [readOperand]
  exact h.bind fun _ => ⟨_, rfl, rfl, rfl⟩

/-! ### Operators -/

/-- Without the operator no operand is read. -/
theorem readsAs_noMore (h : rest.head? ≠ some (.sign operator.sign)) :
    ReadsAs (readMore operator rest) [] rest := by
  rw [readMore, behind_of_head h]
  exact ⟨_, rfl, rfl, rfl⟩

/-- Behind the operator stands an operand, and more may follow. -/
theorem readsAs_more (h : ReadsAs (readOperand operator ss) t more)
    (hmore : ReadsAs (readMore operator more) ts rest) :
    ReadsAs (readMore operator (.sign operator.sign :: ss)) (t :: ts) rest := by
  rw [readMore, behind_sign]
  exact h.bind fun _ => hmore.bind fun _ => ⟨_, rfl, rfl, rfl⟩

/-- The first operand and those behind it make up a type. -/
theorem readsAs_joined (h : ReadsAs (readOperand operator ss) t more)
    (hmore : ReadsAs (readMore operator more) ts rest) :
    ReadsAs (readJoined operator ss) (.join operator (t :: ts)) rest := by
  rw [readJoined]
  exact h.bind fun _ => hmore.bind fun _ => ⟨_, rfl, rfl, rfl⟩

/-! ### Brackets -/

/-- The last type of a list has no comma behind it. -/
theorem readsAs_list_singleton (h : ReadsAs (readJoined .union ss) t rest)
    (hrest : rest.head? ≠ some (.sign ',')) : ReadsAs (readList ss) [t] rest := by
  rw [readList]
  refine h.bind fun _ => ?_
  dsimp only
  rw [behind_of_head hrest]
  exact ⟨_, rfl, rfl, rfl⟩

/-- Any other one stands in front of a comma and more types. -/
theorem readsAs_list_cons (h : ReadsAs (readJoined .union ss) t (.sign ',' :: more))
    (hmore : ReadsAs (readList more) ts rest) : ReadsAs (readList ss) (t :: ts) rest := by
  rw [readList]
  refine h.bind fun _ => ?_
  dsimp only
  rw [behind_sign]
  exact hmore.bind fun _ => ⟨_, rfl, rfl, rfl⟩

/-- A name without arguments is read. -/
theorem readsAs_name (text : String) (h : rest.head? ≠ some (.sign '<')) :
    ReadsAs (readPrimary (.word text :: rest)) (.name text) rest := by
  rw [readPrimary, behind_of_head h]
  exact ⟨_, rfl, rfl, rfl⟩

/-- A name with arguments is read. -/
theorem readsAs_apply (head : String) (h : ReadsAs (readList ss) ts (.sign '>' :: rest)) :
    ReadsAs (readPrimary (.word head :: .sign '<' :: ss)) (.apply head ts) rest := by
  rw [readPrimary, behind_sign]
  exact h.bind fun _ => (readsAs_behind '>' rest).bind fun _ => ⟨_, rfl, rfl, rfl⟩

/-- A type in parentheses is read as itself. -/
theorem readsAs_parentheses (h : ReadsAs (readJoined .union ss) t (.sign ')' :: rest)) :
    ReadsAs (readPrimary (.sign '(' :: ss)) t rest := by
  rw [readPrimary]
  exact h.bind fun _ => (readsAs_behind ')' rest).bind fun _ => ⟨_, rfl, rfl, rfl⟩

/-- The empty tuple is read. -/
theorem readsAs_tuple_nil (rest : List Symbol) :
    ReadsAs (readPrimary (.sign '[' :: .sign ']' :: rest)) (.tuple []) rest := by
  rw [readPrimary, behind_sign]
  exact ⟨_, rfl, rfl, rfl⟩

/-- No type starts with a closing bracket. -/
theorem readList_closing (ss : List Symbol) : readList (.sign ']' :: ss) = none := by
  have hprimary : readPrimary (.sign ']' :: ss) = none := by
    rw [readPrimary] <;> simp
  rw [readList, readJoined, readOperand, readJoined, readOperand, hprimary]
  rfl

/-- A list of types starts with no closing bracket. -/
theorem head_of_readsAs_list (h : ReadsAs (readList ss) ts rest) :
    ss.head? ≠ some (.sign ']') := by
  obtain ⟨p, hp, -⟩ := h
  cases ss with
  | nil => exact nofun
  | cons s ss =>
    rintro ⟨⟩
    rw [readList_closing] at hp
    cases hp

/-- A tuple is read if its list of types is. -/
theorem readsAs_tuple (h : ReadsAs (readList ss) ts (.sign ']' :: rest)) :
    ReadsAs (readPrimary (.sign '[' :: ss)) (.tuple ts) rest := by
  rw [readPrimary, behind_of_head (head_of_readsAs_list h)]
  exact h.bind fun _ => (readsAs_behind ']' rest).bind fun _ => ⟨_, rfl, rfl, rfl⟩

/-- A text whose symbols are read without a rest is read as what they are read as. -/
theorem readType_of_readsAs {text : String}
    (h : ReadsAs (readJoined .union (symbols text.toList)) t []) : readType text = some t := by
  obtain ⟨p, hp, rfl, hrest⟩ := h
  rw [readType, hp]
  show (if p.rest.isEmpty then some p.value else none) = some p.value
  rw [hrest]
  rfl

end TypeScript
end Ferrotype
