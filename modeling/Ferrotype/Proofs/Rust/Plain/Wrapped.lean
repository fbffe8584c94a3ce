/-
# Types behind wrappers

One type has many spellings: references, parentheses and containers such as `Box` and `Cow` can
stand around each part of it, as often as one likes, containers can be named by their full path, and
a sequence can be a vector, a slice or an array. `TypeSpelling.tree` is the type that is left
without the wrappers, and `parseType_spelling` says that a spelling is read as this tree, up to the
token that follows it.

A container is known by its name. `contentAs` says what it makes of the type that it holds.
-/

import Ferrotype.Proofs.Rust.Plain.Scope
import Ferrotype.Proofs.Rust.Plain.Type

namespace Ferrotype
namespace Rust

open Piece (mark isName)

/-! ## Spelling -/

/-- A spelling of a type. -/
inductive TypeSpelling
  | scalar (name : String)
  /-- A type of the source with its arguments. -/
  | named (name : String) (args : List TypeSpelling)
  /-- A container of one type, with a lifetime that may stand in front of that: `Cow<'a, str>`. -/
  | container (scope : Scope) (name : String) (lifetime : Option String) (content : TypeSpelling)
  | map (scope : Scope) (name : String) (key value : TypeSpelling)
  | slice (element : TypeSpelling)
  /-- An array, with the pieces of its length. -/
  | array (element : TypeSpelling) (length : List Piece)
  /-- A tuple, and whether a comma stands behind its last element. -/
  | tuple (elements : List TypeSpelling) (trailing : Bool)
  | reference (lifetime : Option String) (isMut : Bool) (target : TypeSpelling)
  | parenthesized (inner : TypeSpelling)

/-- Whether a name is that of a container of one type. -/
def holdsOne (name : String) : Bool :=
  match containers.lookup name with
  | some .option | some .sequence | some .set | some .transparent => true
  | _ => false

/-- What a container makes of the type that it holds. -/
def contentAs (name : String) (content : TypeExpr) : TypeExpr :=
  match containers.lookup name with
  | some .option => .option content
  | some .sequence => .sequence content
  | some .set => .set content
  | _ => content

/-- The pieces of a lifetime in front of other arguments. -/
def Piece.leadingLifetime : Option String → List Piece
  | none => []
  | some lifetime => [⟨.lifetime, lifetime⟩, mark .comma]

namespace TypeSpelling

mutual

/-- The pieces of a spelling. -/
def pieces : TypeSpelling → List Piece
  | scalar name => scalarPieces name
  | named name args =>
    if args.isEmpty then [Piece.name name] else appliedPieces name (piecesAll args)
  | container scope name lifetime content =>
    scope.pieces name ++
      mark .lt :: (Piece.leadingLifetime lifetime ++ content.pieces ++ [mark .gt])
  | map scope name key value =>
    scope.pieces name ++ mark .lt :: (key.pieces ++ mark .comma :: value.pieces ++ [mark .gt])
  | slice element => mark .lbracket :: (element.pieces ++ [mark .rbracket])
  | array element length =>
    mark .lbracket :: (element.pieces ++ mark .semicolon :: (length ++ [mark .rbracket]))
  | tuple elements trailing =>
    mark .lparen :: (piecesAll elements ++ (Piece.trailingComma trailing ++ [mark .rparen]))
  | reference lifetime isMut target => Piece.reference lifetime isMut ++ target.pieces
  | parenthesized inner => mark .lparen :: (inner.pieces ++ [mark .rparen])

/-- The pieces of spellings with commas between them. -/
def piecesAll : List TypeSpelling → List Piece
  | [] => []
  | [s] => s.pieces
  | s :: t :: ts => s.pieces ++ mark .comma :: piecesAll (t :: ts)

end

mutual

/-- Whether a type is spelled as the grammar asks for. -/
def isWritable : TypeSpelling → Bool
  | scalar name => (scalars.lookup name).isSome
  | named name args => TypeExpr.isPathName name && isWritableAll args
  | container scope name _ content => scope.isWritable && holdsOne name && content.isWritable
  | map scope name key value =>
    scope.isWritable && containers.lookup name == some .map && key.isWritable && value.isWritable
  | slice element => element.isWritable
  | array element length => element.isWritable && Piece.isClosed 0 length
  | tuple elements trailing =>
    !elements.isEmpty && (trailing || elements.length != 1) && isWritableAll elements
  | reference _ _ target => target.isWritable
  | parenthesized inner => inner.isWritable

/-- Whether types are spelled as the grammar asks for. -/
def isWritableAll : List TypeSpelling → Bool
  | [] => true
  | s :: ts => s.isWritable && isWritableAll ts

end

mutual

/-- The type without its wrappers. -/
def tree : TypeSpelling → TypeExpr
  | scalar name => .primitive name
  | named name args => .path name (treeAll args)
  | container _ name _ content => contentAs name content.tree
  | map _ _ key value => .map key.tree value.tree
  | slice element => .sequence element.tree
  | array element _ => .sequence element.tree
  | tuple elements _ => .tuple (treeAll elements)
  | reference _ _ target => target.tree
  | parenthesized inner => inner.tree

/-- The types without their wrappers. -/
def treeAll : List TypeSpelling → List TypeExpr
  | [] => []
  | s :: ts => s.tree :: treeAll ts

end

/-- The tokens of a list are those of its members with commas between them. -/
theorem piecesAll_eq_separated (ts : List TypeSpelling) :
    piecesAll ts = Piece.separated pieces ts := by
  fun_induction Piece.separated pieces ts with
  | case1 => rfl
  | case2 s => rfl
  | case3 s t ts ih => rw [piecesAll, ih]

/-- The trees of a list are those of its members. -/
theorem treeAll_eq_map (ts : List TypeSpelling) : treeAll ts = ts.map tree := by
  induction ts with
  | nil => rfl
  | cons s ts ih => rw [treeAll, ih, List.map_cons]

end TypeSpelling

/-! ## Containers -/

/-- The names of containers are names as others, and none is known by its full path alone. -/
theorem isName_container {name : String} {kind : Container}
    (h : containers.lookup name = some kind) :
    isName name ∧ verbatimWords.contains name = false ∧ name ≠ "Value" := by
  have hnames : ∀ e ∈ containers, isName e.1 ∧ verbatimWords.contains e.1 = false ∧
      e.1 ≠ "Value" := by decide
  obtain ⟨before, after, hsplit, -⟩ := List.lookup_eq_some_iff.1 h
  exact hnames (name, kind) (hsplit ▸ List.mem_append_right _ List.mem_cons_self)

/-- What holds one type is a container. -/
theorem exists_lookup_of_holdsOne {name : String} (h : holdsOne name) :
    ∃ kind, containers.lookup name = some kind := by
  unfold holdsOne at h
  split at h
  · exact ⟨_, ‹_›⟩
  · exact ⟨_, ‹_›⟩
  · exact ⟨_, ‹_›⟩
  · exact ⟨_, ‹_›⟩
  · cases h

/-- A container with one type in it is classified by its name. -/
theorem classify_of_holdsOne {name : String} (h : holdsOne name) (content : TypeExpr) :
    TypeExpr.classify name [content] = contentAs name content := by
  obtain ⟨kind, hkind⟩ := exists_lookup_of_holdsOne h
  obtain ⟨hname, -, -⟩ := isName_container hkind
  rw [TypeExpr.classify, if_neg (ne_qualifiedScalar_of_isName hname), lastSegment_of_isName hname,
    contentAs]
  rw [holdsOne] at h
  cases kind <;> simp_all

/-- A map is classified with its keys and its values. -/
theorem classify_of_map {name : String} (h : containers.lookup name = some .map)
    (key value : TypeExpr) : TypeExpr.classify name [key, value] = .map key value := by
  obtain ⟨hname, -, -⟩ := isName_container h
  rw [TypeExpr.classify, if_neg (ne_qualifiedScalar_of_isName hname), lastSegment_of_isName hname]
  simp only [h]

section Reading

variable (eof : Token)

/-- Parentheses around a type leave no trace. -/
theorem readAsType_parentheses {ps : List Piece} {value : TypeExpr} (h : ReadAsType eof ps value) :
    ReadAsType eof (mark .lparen :: (ps ++ [mark .rparen])) value := by
  refine ⟨fun _ _ => ⟨rfl, Kind.noConfusion⟩, fun rest _ => ?_⟩
  have hinner := h.2 (mark .rparen :: rest) ⟨Kind.noConfusion, Kind.noConfusion⟩
  rw [Piece.enclosed_append]
  exact reads_parentheses eof
    (reads_elements_last eof (h.1 Kind.noConfusion Kind.noConfusion) hinner)

section Scoped

variable {scope : Scope} (hscope : scope.isWritable) {name : String}
include hscope

/-- A container is read as what it makes of its arguments, whatever its module path. -/
theorem readAsType_scoped {kind : Container} (hkind : containers.lookup name = some kind)
    {args : List Piece} {values : List TypeExpr}
    (hargs : ∀ rest, Reads (parseArguments eof) (args ++ mark .gt :: rest) values rest) :
    ReadAsType eof (scope.pieces name ++ mark .lt :: (args ++ [mark .gt]))
      (.classify name values) := by
  obtain ⟨hname, hverbatim, hvalue⟩ := isName_container hkind
  refine ⟨opensAsType_scoped scope name _, fun rest _ => ?_⟩
  rw [List.append_assoc, Piece.enclosed_append]
  exact reads_scoped eof hscope hname hverbatim hvalue (hargs rest)

/-- A container is read with what it holds, in any scope and with a lifetime or without. -/
theorem readAsType_container (hholds : holdsOne name) (lifetime : Option String)
    {ps : List Piece} {value : TypeExpr} (h : ReadAsType eof ps value) :
    ReadAsType eof (scope.pieces name ++
      mark .lt :: (Piece.leadingLifetime lifetime ++ ps ++ [mark .gt])) (contentAs name value) := by
  obtain ⟨hopens, hread⟩ := h
  obtain ⟨kind, hkind⟩ := exists_lookup_of_holdsOne hholds
  rw [← classify_of_holdsOne hholds]
  refine readAsType_scoped eof hscope hkind fun rest => ?_
  have hargs := reads_arguments_last eof (hopens Kind.noConfusion Kind.noConfusion)
    (hread (mark .gt :: rest) ⟨Kind.noConfusion, Kind.noConfusion⟩)
  cases lifetime with
  | none => exact hargs
  | some lifetime => exact reads_arguments_lifetime eof lifetime hargs

/-- A map is read with its keys and its values, in any scope. -/
theorem readAsType_map (hkind : containers.lookup name = some .map) {keys values : List Piece}
    {key value : TypeExpr} (hkey : ReadAsType eof keys key) (hvalue : ReadAsType eof values value) :
    ReadAsType eof (scope.pieces name ++
      mark .lt :: (keys ++ mark .comma :: values ++ [mark .gt])) (.map key value) := by
  have hread := @reads_arguments eof _ Prod.fst Prod.snd [(keys, key), (values, value)]
    (List.cons_ne_nil _ _) (List.forall_mem_cons.2 ⟨hkey, List.forall_mem_singleton.2 hvalue⟩)
  rw [← classify_of_map hkind]
  exact readAsType_scoped eof hscope hkind hread

end Scoped

mutual

/-- **A spelling is read as the type without its wrappers.** -/
theorem TypeSpelling.readAsType_of_isWritable (s : TypeSpelling) (h : s.isWritable) :
    ReadAsType eof s.pieces s.tree := by
  cases s with
  | scalar name =>
    exact ⟨TypeExpr.opensType_pieces (t := .primitive name) h, TypeExpr.isRead_scalar eof h⟩
  | named name args =>
    rw [TypeSpelling.isWritable, Bool.and_eq_true] at h
    obtain ⟨hname, hargs⟩ := h
    have hclassify := classify_of_isPathName hname
    rw [TypeExpr.isPathName, Bool.and_eq_true, Bool.not_eq_true'] at hname
    rw [TypeSpelling.tree, ← hclassify]
    cases args with
    | nil => exact readAsType_name eof hname.2
    | cons arg args =>
      rw [TypeSpelling.treeAll_eq_map, TypeSpelling.pieces, List.isEmpty_cons,
        if_neg Bool.false_ne_true, TypeSpelling.piecesAll_eq_separated]
      exact readAsType_applied eof (List.cons_ne_nil arg args)
        (TypeSpelling.readAsType_of_isWritableAll (arg :: args) hargs) hname.2
  | container scope name lifetime content =>
    rw [TypeSpelling.isWritable, Bool.and_eq_true, Bool.and_eq_true] at h
    obtain ⟨⟨hscope, hholds⟩, hcontent⟩ := h
    exact readAsType_container eof hscope hholds lifetime
      (TypeSpelling.readAsType_of_isWritable content hcontent)
  | map scope name key value =>
    simp only [TypeSpelling.isWritable, Bool.and_eq_true, beq_iff_eq] at h
    obtain ⟨⟨⟨hscope, hkind⟩, hkey⟩, hvalue⟩ := h
    exact readAsType_map eof hscope hkind (TypeSpelling.readAsType_of_isWritable key hkey)
      (TypeSpelling.readAsType_of_isWritable value hvalue)
  | slice element =>
    rw [TypeSpelling.isWritable] at h
    exact readAsType_slice eof (TypeSpelling.readAsType_of_isWritable element h)
  | array element length =>
    rw [TypeSpelling.isWritable, Bool.and_eq_true] at h
    exact readAsType_array eof h.2 (TypeSpelling.readAsType_of_isWritable element h.1)
  | tuple elements trailing =>
    rw [TypeSpelling.isWritable, Bool.and_eq_true, Bool.and_eq_true, Bool.not_eq_true',
      List.isEmpty_eq_false_iff, Bool.or_eq_true, bne_iff_ne] at h
    obtain ⟨⟨hne, htrailing⟩, helements⟩ := h
    rw [TypeSpelling.pieces, TypeSpelling.tree, TypeSpelling.piecesAll_eq_separated,
      TypeSpelling.treeAll_eq_map]
    exact readAsType_tuple eof hne (TypeSpelling.readAsType_of_isWritableAll elements helements)
      htrailing
  | reference lifetime isMut target =>
    rw [TypeSpelling.isWritable] at h
    exact readAsType_reference eof lifetime isMut
      (TypeSpelling.readAsType_of_isWritable target h)
  | parenthesized inner =>
    rw [TypeSpelling.isWritable] at h
    exact readAsType_parentheses eof (TypeSpelling.readAsType_of_isWritable inner h)

/-- The members of a list are read. The induction is that on spellings. -/
theorem TypeSpelling.readAsType_of_isWritableAll (ts : List TypeSpelling)
    (h : TypeSpelling.isWritableAll ts) : ∀ s ∈ ts, ReadAsType eof s.pieces s.tree := by
  cases ts with
  | nil => exact fun s hs => absurd hs List.not_mem_nil
  | cons s ts =>
    rw [TypeSpelling.isWritableAll, Bool.and_eq_true] at h
    exact List.forall_mem_cons.2 ⟨TypeSpelling.readAsType_of_isWritable s h.1,
      TypeSpelling.readAsType_of_isWritableAll ts h.2⟩

end

end Reading

/-! ## In front of other tokens -/

/-- **Spellings of one type are read as this type**, whatever wrappers stand in them, in front of
everything that follows a type in a declaration or in another type. -/
theorem parseType_spelling {s : TypeSpelling} (hs : s.isWritable) (eof : Token)
    {ts rest : List Token} (hts : piecesOf ts = s.pieces) (hrest : headKind rest ∈ typeFollowers) :
    ∃ r, parseType eof (ts ++ rest) = .ok r ∧ r.value = s.tree ∧ r.rest = rest :=
  isType_of_readAsType eof (s.readAsType_of_isWritable eof hs) hts rest hrest

/-- A page behind references, parentheses and containers. -/
def wrappedPages : TypeSpelling :=
  .reference (some "'a") true (.parenthesized (.container ⟨true, ["std", "sync"]⟩ "Arc" none
    (.container ⟨false, []⟩ "Mutex" none (.container ⟨false, []⟩ "Box" none
      (.container ⟨false, ["std", "borrow"]⟩ "Cow" (some "'a") (.array
        (.container ⟨false, []⟩ "Rc" none (.tuple [.map ⟨false, ["std", "collections"]⟩ "HashMap"
          (.scalar "String") (.container ⟨false, ["core", "option"]⟩ "Option" none
            (.container ⟨false, []⟩ "VecDeque" none (.slice (.reference none false
              (.named "Page" [.scalar "u8", .scalar "()"])))))] true))
        [⟨.identifier, "N"⟩, ⟨.star, "*"⟩, ⟨.number, "2"⟩]))))))

/-- The tokens of the page behind its wrappers. -/
def wrappedTokens : List Token :=
  (tokenize ("&'a mut (::std::sync::Arc<Mutex<Box<std::borrow::Cow<'a, [Rc<(std::collections::" ++
    "HashMap<String, core::option::Option<VecDeque<[&Page<u8, ()>]>>>,)>; N * 2]>>>>)")).tokens

/-- In front of a closing angle bracket a sequence is left, of tuples of one map. -/
theorem parseType_wrappedPages :
    wrappedPages.isWritable ∧ piecesOf wrappedTokens = wrappedPages.pieces ∧
      ∃ r, parseType (Token.eof .start) (wrappedTokens ++ [⟨.gt, ">", .start⟩]) = .ok r ∧
        r.value = .sequence (.tuple [.map (.primitive "String") (.option (.sequence (.sequence
          (.path "Page" [.primitive "u8", .primitive "()"]))))]) ∧
        r.rest = [⟨.gt, ">", .start⟩] := by
  have hpieces : piecesOf wrappedTokens = wrappedPages.pieces := by decide +kernel
  exact ⟨by decide, hpieces, parseType_spelling (by decide) _ hpieces (by decide)⟩

end Rust
end Ferrotype
