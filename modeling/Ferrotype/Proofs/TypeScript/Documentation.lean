/-
# Documentation in the text of a declaration

A declaration is written as it is written without documentation, with block comments put in on
lines of their own (`Commented`). The parts of a declaration are put together of whole lines, so
the relation is carried from a line to the lines behind it (`CommentedLines`): a property, a member
of a union and an enumerator each start a line, and so does the comment in front of them.
-/

import Ferrotype.Proofs.TypeScript.Comment
import Ferrotype.TypeScript.Declaration

namespace Ferrotype
namespace TypeScript

/-! ## Texts with comments put in -/

/-- A text, and the text that comes of it if block comments are put in, each at the start of a
line. -/
inductive Commented : String → String → Prop
  | refl (text : String) : Commented text text
  | insert {blanks : Nat} {comment bare full : String} (front : String)
    (hcomment : IsBlockComment blanks comment) (h : Commented ("\n" ++ bare) ("\n" ++ full)) :
    Commented (front ++ "\n" ++ bare) (front ++ "\n" ++ comment ++ full)

namespace Commented

variable {bare full bare' full' : String}

/-- What stands in front of a commented text stands in front of both. -/
theorem append_left (front : String) (h : Commented bare full) :
    Commented (front ++ bare) (front ++ full) := by
  cases h with
  | refl => exact .refl _
  | insert front' hcomment h =>
    simp only [← String.append_assoc]
    exact .insert (front ++ front') hcomment h

/-- Commented texts are so one behind the other. -/
theorem append (h : Commented bare full) (h' : Commented bare' full') :
    Commented (bare ++ bare') (full ++ full') := by
  induction h with
  | refl text => exact h'.append_left text
  | insert front hcomment h ih =>
    simp only [String.append_assoc] at ih
    simpa only [String.append_assoc] using Commented.insert front hcomment ih

/-- What stands behind a commented text stands behind both. -/
theorem append_right (h : Commented bare full) (rest : String) :
    Commented (bare ++ rest) (full ++ rest) := h.append (.refl rest)

/-- A list of commented texts is commented. -/
theorem concat {α : Type} {write write' : α → String} (h : ∀ a, Commented (write a) (write' a))
    (as : List α) : Commented (Text.concat (as.map write)) (Text.concat (as.map write')) := by
  induction as with
  | nil => exact .refl _
  | cons a as ih => exact (h a).append ih

end Commented

/-- Texts of whole lines that stay so related in front of any lines. -/
def CommentedLines (bare full : String) : Prop :=
  ∀ bare' full', Commented ("\n" ++ bare') ("\n" ++ full') →
    Commented ("\n" ++ (bare ++ bare')) ("\n" ++ (full ++ full'))

namespace CommentedLines

variable {bare full bare' full' : String}

/-- Commented lines are so one behind the other. -/
theorem append (h : CommentedLines bare full) (h' : CommentedLines bare' full') :
    CommentedLines (bare ++ bare') (full ++ full') := by
  intro more more' hmore
  rw [String.append_assoc, String.append_assoc]
  exact h _ _ (h' _ _ hmore)

/-- No lines are commented lines of none. -/
theorem empty : CommentedLines "" "" := fun _ _ h => h

/-- A list of commented lines is so. -/
theorem concat {α : Type} {write write' : α → String}
    (h : ∀ a, CommentedLines (write a) (write' a)) (as : List α) :
    CommentedLines (Text.concat (as.map write)) (Text.concat (as.map write')) := by
  induction as with
  | nil => exact empty
  | cons a as ih => exact (h a).append ih

/-- The lines of a text that ends with a line feed. -/
theorem of_commented (h : Commented bare full) : CommentedLines (bare ++ "\n") (full ++ "\n") := by
  intro more more' hmore
  simpa only [String.append_assoc] using (h.append_left "\n").append hmore

/-- A line stands for itself. -/
theorem refl (line : String) : CommentedLines (line ++ "\n") (line ++ "\n") :=
  of_commented (.refl line)

/-- Lines behind the end of another one. -/
theorem between (h : CommentedLines bare full) (before : String)
    (hbefore : ∃ line, before = line ++ "\n") (behind : String) :
    Commented (before ++ bare ++ behind) (before ++ full ++ behind) := by
  obtain ⟨line, rfl⟩ := hbefore
  simpa only [String.append_assoc] using (h _ _ (.refl ("\n" ++ behind))).append_left line

/-- Documentation stands on lines of its own. -/
theorem renderComment (blanks : Nat) (docs : List String) :
    CommentedLines "" (TypeScript.renderComment blanks docs) := by
  cases docs with
  | nil => exact empty
  | cons line lines =>
    intro more more' hmore
    rw [String.empty_append, ← String.append_assoc]
    exact .insert "" (isBlockComment_renderComment blanks line lines) hmore

/-- Lines with documentation in front of them. -/
theorem documented (blanks : Nat) (docs : List String) (h : CommentedLines bare full) :
    CommentedLines bare (TypeScript.renderComment blanks docs ++ full) := by
  have hlines := (renderComment blanks docs).append h
  rwa [String.empty_append] at hlines

end CommentedLines

/-! ## Declarations without their documentation -/

/-- A property without documentation. -/
def Property.undocumented (p : Property) : Property := { p with docs := [] }

/-- A record without documentation. -/
def Record.undocumented (r : Record) : Record :=
  { r with properties := r.properties.map Property.undocumented }

/-- What a member looks like without documentation inside it. -/
def Shape.undocumented : Shape → Shape
  | record t r => record t r.undocumented
  | keyed t key r => keyed t key r.undocumented
  | s => s

/-- A member without documentation. -/
def Member.undocumented (m : Member) : Member := ⟨[], m.shape.undocumented⟩

/-- An enumerator without documentation. -/
def Enumerator.undocumented (e : Enumerator) : Enumerator := { e with docs := [] }

/-- A declaration without the documentation of its parts. -/
def Declaration.undocumented : Declaration → Declaration
  | record name generics r => record name generics r.undocumented
  | constEnum name enumerators => constEnum name (enumerators.map Enumerator.undocumented)
  | union name generics members => union name generics (members.map Member.undocumented)
  | d => d

/-- A block without any documentation. -/
def Block.undocumented (b : Block) : Block := ⟨[], b.declaration.undocumented⟩

/-! ## What documentation changes -/

/-- A line without documentation, and the same with documentation in front of it. -/
theorem commentedLines_line (blanks : Nat) (docs : List String) {bare full line : String}
    (hbare : bare = renderComment blanks [] ++ (line ++ "\n"))
    (hfull : full = renderComment blanks docs ++ (line ++ "\n")) :
    CommentedLines bare full := by
  rw [renderComment_nil, String.empty_append] at hbare
  subst hbare hfull
  exact (CommentedLines.refl line).documented blanks docs

/-- A property is one line with its comment in front. -/
theorem commentedLines_property (level : Nat) (p : Property) :
    CommentedLines (p.undocumented.render level) (p.render level) := by
  obtain ⟨docs, name, optional, type⟩ := p
  have hrender (docs : List String) : (Property.mk docs name optional type).render level =
      renderComment (indentation level) docs ++ (indent level ++ propertyKey name ++
        (if optional then "?" else "") ++ ": " ++ type.render ++ ";" ++ "\n") := by
    simp [Property.render, String.append_assoc]
  exact commentedLines_line _ docs (hrender []) (hrender docs)

/-- So is an enumerator. -/
theorem commentedLines_enumerator (e : Enumerator) :
    CommentedLines e.undocumented.render e.render := by
  obtain ⟨docs, name, value⟩ := e
  have hrender (docs : List String) : (Enumerator.mk docs name value).render =
      renderComment (indentation 1) docs ++ (indent 1 ++ name ++ " = " ++ value ++ "," ++ "\n") := by
    simp [Enumerator.render, String.append_assoc]
  exact commentedLines_line _ docs (hrender []) (hrender docs)

/-- The line of a tag has no comment. -/
theorem commentedLines_tagLine (level : Nat) (tag : Option Tag) :
    CommentedLines (tagLine level tag) (tagLine level tag) := by
  cases tag with
  | none => exact .empty
  | some tag =>
    have hline : tagLine level (some tag) = indent level ++ tag.render ++ ";" ++ "\n" := by
      simp [tagLine, Tag.line, String.append_assoc]
    rw [hline]
    exact .refl _

/-- An object is commented if its lines are. -/
theorem commented_object (level : Nat) (tag : Option Tag) (properties : List Property) :
    Commented (renderObject level tag (properties.map Property.undocumented))
      (renderObject level tag properties) := by
  unfold renderObject
  rw [List.isEmpty_map]
  split
  · exact .refl _
  · have hlines := (commentedLines_tagLine (level + 1) tag).append
      (CommentedLines.concat (commentedLines_property (level + 1)) properties)
    have hobject := hlines.between "\x7b\n" ⟨"\x7b", rfl⟩ (indent level ++ "\x7d")
    rw [List.map_map]
    simpa only [String.append_assoc, Function.comp_def] using hobject

/-- A record is commented like its object. -/
theorem commented_record (level : Nat) (tag : Option Tag) (r : Record) :
    Commented (r.undocumented.render level tag) (r.render level tag) :=
  (commented_object level tag r.properties).append_right _

/-- The shape of a variant is commented like the record in it. -/
theorem commented_shape (s : Shape) : Commented s.undocumented.render s.render := by
  cases s with
  | record t r => exact commented_record Shape.memberLevel t r
  | keyed t key r =>
    have hrecord := (commented_record (Shape.memberLevel + 1) none r).append_left
      ("\x7b\n" ++ tagLine (Shape.memberLevel + 1) t ++ indent (Shape.memberLevel + 1) ++
        propertyKey key ++ ": ")
    exact ((hrecord.append_right _).append_right _).append_right _
  | _ => exact .refl _

/-- A member of a union, with what ends its line. -/
theorem commentedLines_member (m : Member) (stop : String) (hstop : ∃ last, stop = last ++ "\n") :
    CommentedLines (m.undocumented.render ++ stop) (m.render ++ stop) := by
  obtain ⟨last, rfl⟩ := hstop
  have hshape := ((commented_shape m.shape).append_left (indent 1 ++ "| ")).append_right last
  have hlines := (CommentedLines.of_commented hshape).documented (indentation 1) m.docs
  simpa only [Member.render, Member.undocumented, renderComment_nil, String.empty_append,
    String.append_assoc] using hlines

/-- The members of a union are lines with their comments in front. -/
theorem commentedLines_members (members : List Member) :
    CommentedLines (renderMembers (members.map Member.undocumented)) (renderMembers members) := by
  induction members with
  | nil => exact .empty
  | cons m rest ih =>
    cases rest with
    | nil => exact commentedLines_member m ";\n" ⟨";", rfl⟩
    | cons n rest => exact (commentedLines_member m "\n" ⟨"", rfl⟩).append ih

open Declaration in
/-- A declaration is commented. The cases are its kinds. -/
theorem commented_declaration (ambient : Bool) (d : Declaration) :
    Commented (d.undocumented.render ambient) (d.render ambient) := by
  cases d with
  | record name generics r =>
    have hrender (properties : List Property) :
        (record name generics ⟨properties, r.merged⟩).render ambient =
          (if r.merged.isEmpty then
            exportWord ambient ++ "interface " ++ name ++ renderGenerics generics ++ " "
          else
            aliasHead ambient name generics ++ " = " ++
              Text.concat (r.merged.map fun type => type.render ++ " & ")) ++
          renderObject 0 none properties ++ "\n" := rfl
    rw [show record name generics r = record name generics ⟨r.properties, r.merged⟩ from rfl,
      undocumented, Record.undocumented, hrender, hrender]
    exact ((commented_object 0 none r.properties).append_left _).append_right _
  | constEnum name enumerators =>
    have hrender (enumerators : List Enumerator) :
        (constEnum name enumerators).render ambient =
          (if ambient then "declare " else "export ") ++ "const enum " ++ name ++ " \x7b\n" ++
            Text.concat (enumerators.map Enumerator.render) ++ "\x7d\n" := rfl
    have henum := ((CommentedLines.concat commentedLines_enumerator enumerators).between
      " \x7b\n" ⟨" \x7b", rfl⟩ "\x7d\n").append_left
        ((if ambient then "declare " else "export ") ++ "const enum " ++ name)
    rw [undocumented, hrender, hrender, List.map_map]
    simpa only [String.append_assoc, Function.comp_def] using henum
  | union name generics members =>
    have hrender (members : List Member) : (union name generics members).render ambient =
        aliasHead ambient name generics ++ " =" ++
          if members.isEmpty then " never;\n" else "\n" ++ renderMembers members := rfl
    have hmembers := commentedLines_members members "" "" (.refl _)
    rw [String.append_empty, String.append_empty] at hmembers
    rw [undocumented, hrender, hrender, List.isEmpty_map]
    split
    · exact .refl _
    · exact hmembers.append_left _
  | _ => exact .refl _

/-- **Documentation only puts comments into a block**, whatever it says and whatever it documents.
-/
theorem commented_block (ambient : Bool) (b : Block) :
    Commented (b.undocumented.render ambient) (b.render ambient) := by
  have hdeclaration := (commented_declaration ambient b.declaration).append_left "\n"
  have hblock := CommentedLines.renderComment 0 b.docs _ _ hdeclaration
  rwa [String.empty_append, ← String.append_assoc] at hblock

end TypeScript
end Ferrotype
