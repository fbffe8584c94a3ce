/-
# Texts of types and objects

The text of a type is flat but for the bar before `null`, if its names hold no marks, and an object
is flat whatever it holds. An object that is written with a tag has the tag as a property
(`readTagged_object`), and so has an intersection that starts with it (`ReadTagged.merged`).
-/

import Ferrotype.Proofs.TypeScript.Key
import Ferrotype.Proofs.TypeScript.Reading

namespace Ferrotype
namespace TypeScript

variable {seps : List Char} {text more : String} {ls : List Lexeme}

/-! ## Flat texts -/

/-- Whether a text is read as flat lexemes. -/
def ReadFlat (seps : List Char) (text : String) : Prop :=
  ∃ ls, Written text ls ∧ isFlat seps 0 ls

namespace ReadFlat

/-- Flat texts are flat one behind the other. -/
theorem append (h : ReadFlat seps text) (hmore : ReadFlat seps more) :
    ReadFlat seps (text ++ more) := by
  obtain ⟨as, has, hflat⟩ := h
  obtain ⟨bs, hbs, hflat'⟩ := hmore
  exact ⟨as ++ bs, has.append hbs, isFlat_append hflat hflat'⟩

/-- A text without separators is one without fewer of them. -/
theorem mono {seps' : List Char} (hseps : ∀ c ∈ seps', c ∈ seps) (h : ReadFlat seps text) :
    ReadFlat seps' text := by
  obtain ⟨ls, hls, hflat⟩ := h
  exact ⟨ls, hls, isFlat_mono hseps hflat⟩

/-- Inside brackets a text can hold separators. -/
theorem enclosed (h : ReadFlat [] text) {opener closer : String} {o c : Char}
    (hopener : Written opener [.char o]) (hcloser : Written closer [.char c])
    (ho : (Lexeme.char o).opens ∧ (Lexeme.char o).closes = false ∧
      (Lexeme.char o).isAny seps = false)
    (hc : (Lexeme.char c).closes ∧ (Lexeme.char c).opens = false) :
    ReadFlat seps (opener ++ text ++ closer) := by
  obtain ⟨ls, hls, hflat⟩ := h
  refine ⟨_, (hopener.append hls).append hcloser, ?_⟩
  rw [List.singleton_append, List.cons_append]
  exact isFlat_group hflat ho hc

end ReadFlat

/-- A text without lexemes is flat. -/
theorem readFlat_of_written_nil (h : Written text []) : ReadFlat seps text := ⟨[], h, rfl⟩

/-- The characters that start a literal or a comment, open a group or close one. -/
def marks : List Char := ['"', '/', '(', '[', '{', '<', ')', ']', '}', '>']

/-- Whether a character is no mark and none of some separators. -/
def isFree (seps : List Char) (c : Char) : Bool := !marks.contains c && !seps.contains c

/-- A text that holds no marks and no separators is flat. -/
theorem readFlat_of_isFree (h : text.toList.all (isFree seps)) : ReadFlat seps text := by
  have hmarks : ∀ c, c ∉ marks → isPlainChar c ∧ (Lexeme.char c).opens = false ∧
      (Lexeme.char c).closes = false := by
    intro c hc
    simp only [marks, List.mem_cons, List.not_mem_nil, or_false, not_or] at hc
    simp [isPlainChar, Lexeme.opens, Lexeme.closes, hc]
  have hfree (c : Char) (hc : c ∈ text.toList) : c ∉ marks ∧ c ∉ seps := by
    have hc := List.all_eq_true.1 h c hc
    simpa [isFree] using hc
  refine ⟨_, written_plain ?_, isFlat_of_forall ?_⟩
  · exact List.all_eq_true.2 fun c hc => (hmarks c (hfree c hc).1).1
  · intro l hl
    obtain ⟨c, hc, rfl⟩ := List.mem_map.1 hl
    obtain ⟨hmark, hsep⟩ := hfree c (List.mem_filter.1 hc).1
    refine ⟨(hmarks c hmark).2.1, (hmarks c hmark).2.2, ?_⟩
    rw [Lexeme.isAny, ← Bool.not_eq_true, List.contains_iff_mem]
    exact hsep

/-- A literal is flat, whatever it holds. -/
theorem readFlat_literalWith (plain : Char → Bool) (text : String) :
    ReadFlat seps (Text.literalWith plain text) :=
  ⟨_, written_literalWith plain text, rfl⟩

/-- The characters of a plain key are free. -/
theorem isFree_of_isPlainKey {cs : List Char} (h : isPlainKey cs) :
    cs.all (isFree separators) := by
  have hkey : (marks ++ separators).all (!continuesKey ·) := by decide
  have hfree (c : Char) (hc : continuesKey c) : isFree separators c := by
    have hnot : c ∉ marks ++ separators := by
      intro hmem
      have hcontinues := List.all_eq_true.1 hkey c hmem
      rw [hc] at hcontinues
      cases hcontinues
    rw [List.mem_append, not_or] at hnot
    simpa [isFree] using hnot
  have htail (cs : List Char) (h : isKeyTail cs) : cs.all (isFree separators) := by
    obtain ⟨body, hbody, rfl | rfl⟩ := exists_of_isKeyTail h
    · exact List.all_eq_true.2 fun c hc => hfree c (List.all_eq_true.1 hbody c hc)
    · rw [List.all_append, Bool.and_eq_true]
      exact ⟨List.all_eq_true.2 fun c hc => hfree c (List.all_eq_true.1 hbody c hc), by decide⟩
  cases cs with
  | nil => cases h
  | cons c cs =>
    rw [isPlainKey, Bool.and_eq_true] at h
    have hstart : continuesKey c := by
      have halpha := h.1
      simp only [startsKey, continuesKey, Char.isAlphanum, Bool.or_eq_true] at halpha ⊢
      exact halpha.imp_left (Or.imp_left Or.inl)
    rw [List.all_cons, hfree c hstart, htail cs h.2]
    rfl

/-- A key is flat, quoted or not. -/
theorem readFlat_propertyKey (name : String) : ReadFlat separators (propertyKey name) := by
  unfold propertyKey
  split
  · rename_i hplain
    exact readFlat_of_isFree (isFree_of_isPlainKey hplain)
  · exact readFlat_literalWith _ name

/-- Flat texts with commas between them are flat. -/
theorem readFlat_join {texts : List String} (h : ∀ text ∈ texts, ReadFlat [] text) :
    ReadFlat [] (Text.join ", " texts) := by
  fun_induction Text.join ", " texts with
  | case1 => exact readFlat_of_written_nil written_empty
  | case2 part => exact List.forall_mem_singleton.1 h
  | case3 part parts hparts ih =>
    obtain ⟨hpart, hparts⟩ := List.forall_mem_cons.1 h
    exact (hpart.append (readFlat_of_isFree (by decide))).append (ih hparts)

/-! ## Types -/

namespace TypeExpr

mutual

/-- Whether a type has a counterpart in all its parts and its names hold no marks. -/
def isPlain : TypeExpr → Bool
  | .name text => text.toList.all (isFree separators)
  | apply head args => head.toList.all (isFree separators) && isPlainAll args
  | array element => element.isPlain
  | tuple elements => isPlainAll elements
  | orNull inner => inner.isPlain
  | foreign _ _ => false

/-- Whether types have counterparts in all their parts and their names hold no marks. -/
def isPlainAll : List TypeExpr → Bool
  | [] => true
  | t :: ts => t.isPlain && isPlainAll ts

end

/-- Whether a type is a union. -/
def isUnion : TypeExpr → Bool
  | orNull _ => true
  | _ => false

end TypeExpr

/-- A part of a list is found in it. -/
theorem contains_of_infix {part : List Char} (before after : List Char) :
    contains part (before ++ (part ++ after)) := by
  induction before with
  | nil =>
    rw [List.nil_append]
    cases htext : part ++ after with
    | nil =>
      rw [List.append_eq_nil_iff] at htext
      rw [htext.1]
      rfl
    | cons c cs =>
      rw [contains, ← htext, List.isPrefixOf_iff_prefix.2 (List.prefix_append part after)]
      rfl
  | cons c cs ih => rw [List.cons_append, contains, ih, Bool.or_true]

/-- The element of an array is written with parentheses if it is a union. -/
theorem needsParentheses_of_isUnion {t : TypeExpr} (h : t.isUnion) :
    needsParentheses t.render := by
  cases t with
  | orNull inner =>
    have hnull : " | null".toList = " | ".toList ++ "null".toList := by decide
    rw [needsParentheses, TypeExpr.render, String.toList_append, hnull, contains_of_infix]
    rfl
  | _ => cases h

/-- The element of an array is flat: a union stands in parentheses. -/
theorem readFlat_elementText {t : TypeExpr} (h : ReadFlat [';'] t.render)
    (hsingle : t.isUnion = false → ReadFlat separators t.render) :
    ReadFlat separators (elementText t.render) := by
  unfold elementText
  split
  · exact (h.mono (List.forall_mem_nil _)).enclosed (fun _ => rfl) (fun _ => rfl) (by decide)
      (by decide)
  · rename_i hparens
    cases hunion : t.isUnion with
    | true => exact absurd (needsParentheses_of_isUnion hunion) hparens
    | false => exact hsingle hunion

mutual

/-- **The text of a type is flat** but for the bar before `null`. -/
theorem readFlat_render (t : TypeExpr) (h : t.isPlain) :
    ReadFlat [';'] t.render ∧ (t.isUnion = false → ReadFlat separators t.render) := by
  have hsemicolon : ∀ c ∈ [';'], c ∈ separators := List.forall_mem_singleton.2 (by decide)
  cases t with
  | name text =>
    have hread : ReadFlat separators text := readFlat_of_isFree h
    exact ⟨hread.mono hsemicolon, fun _ => hread⟩
  | apply head args =>
    rw [TypeExpr.isPlain, Bool.and_eq_true] at h
    have hread : ReadFlat separators (TypeExpr.apply head args).render := by
      rw [TypeExpr.render, TypeExpr.renderAll_eq_map, angled]
      exact (readFlat_of_isFree h.1).append ((readFlat_join (readFlat_renderAll args h.2)).enclosed
        (fun _ => rfl) (fun _ => rfl) (by decide) (by decide))
    exact ⟨hread.mono hsemicolon, fun _ => hread⟩
  | array element =>
    obtain ⟨helement, hsingle⟩ := readFlat_render element h
    have hbrackets : ReadFlat separators "[]" := ⟨_, written_plain (by decide), by decide⟩
    have hread : ReadFlat separators (TypeExpr.array element).render :=
      (readFlat_elementText helement hsingle).append hbrackets
    exact ⟨hread.mono hsemicolon, fun _ => hread⟩
  | tuple elements =>
    have hread : ReadFlat separators (TypeExpr.tuple elements).render := by
      rw [TypeExpr.render, TypeExpr.renderAll_eq_map, bracketed]
      exact (readFlat_join (readFlat_renderAll elements h)).enclosed (fun _ => rfl) (fun _ => rfl)
        (by decide) (by decide)
    exact ⟨hread.mono hsemicolon, fun _ => hread⟩
  | orNull inner =>
    obtain ⟨hinner, -⟩ := readFlat_render inner h
    exact ⟨hinner.append (readFlat_of_isFree (by decide)), fun hunion => Bool.noConfusion hunion⟩
  | foreign reported written => cases h

/-- The texts of plain types are flat. The recursion is that on types. -/
theorem readFlat_renderAll (ts : List TypeExpr) (h : TypeExpr.isPlainAll ts) :
    ∀ text ∈ ts.map TypeExpr.render, ReadFlat [] text := by
  cases ts with
  | nil => exact List.forall_mem_nil _
  | cons t ts =>
    rw [TypeExpr.isPlainAll, Bool.and_eq_true] at h
    exact List.forall_mem_cons.2
      ⟨(readFlat_render t h.1).1.mono (List.forall_mem_nil _), readFlat_renderAll ts h.2⟩

end

/-! ## Objects -/

theorem readFlat_indent (level : Nat) : ReadFlat seps (indent level) :=
  readFlat_of_written_nil (written_spaces _)

/-- A property with a plain type is flat. -/
theorem readFlat_property (level : Nat) {p : Property} (h : p.type.isPlain) :
    ReadFlat [] (p.render level) := by
  have hcomment : ReadFlat [] (renderComment (indentation level) p.docs) :=
    readFlat_of_written_nil (written_renderComment _ _)
  have hmark : ReadFlat [] (if p.optional then "?" else "") := by
    split
    · exact readFlat_of_isFree (by decide)
    · exact readFlat_of_written_nil written_empty
  have hkey : ReadFlat [] (propertyKey p.name) :=
    (readFlat_propertyKey p.name).mono (List.forall_mem_nil _)
  have htype : ReadFlat [] p.type.render :=
    (readFlat_render p.type h).1.mono (List.forall_mem_nil _)
  exact (((((hcomment.append (readFlat_indent level)).append hkey).append hmark).append
    (readFlat_of_isFree (by decide))).append htype).append (readFlat_of_isFree (by decide))

/-- Several properties close what they open; semicolons stand between them. -/
theorem readFlat_properties (level : Nat) {properties : List Property}
    (h : ∀ p ∈ properties, p.type.isPlain) :
    ReadFlat [] (Text.concat (properties.map (Property.render level))) := by
  induction properties with
  | nil => exact readFlat_of_written_nil written_empty
  | cons p properties ih =>
    obtain ⟨hp, hproperties⟩ := List.forall_mem_cons.1 h
    exact (readFlat_property level hp).append (ih hproperties)

/-- An object is flat, since its braces enclose the separators. -/
theorem readFlat_object (level : Nat) {properties : List Property}
    (h : ∀ p ∈ properties, p.type.isPlain) :
    ReadFlat separators (renderObject level none properties) := by
  unfold renderObject
  split
  · exact ⟨_, written_plain (by decide), by decide⟩
  · have hbody := (readFlat_properties (level + 1) h).append (readFlat_indent level)
    have hopening : Written "\x7b\n" [.char '\x7b'] := fun _ => rfl
    have hobject : ReadFlat separators ("\x7b\n" ++ (Text.concat (properties.map
        (Property.render (level + 1))) ++ indent level) ++ "\x7d") :=
      hbody.enclosed hopening (fun _ => rfl) (by decide) (by decide)
    simpa only [tagLine, Option.map_none, Option.getD_none, String.append_assoc,
      String.empty_append] using hobject

/-- What is merged behind an object is flat but for the signs before it. -/
theorem exists_written_renderMerged {types : List TypeExpr}
    (h : ∀ t ∈ types, t.isPlain ∧ t.isUnion = false) :
    ∃ ls, Written (renderMerged types) ls ∧ isFlat ['|', ';'] 0 ls ∧
      (ls = [] ∨ ∃ more, ls = .char '&' :: more) := by
  induction types with
  | nil => exact ⟨[], written_empty, rfl, .inl rfl⟩
  | cons t types ih =>
    obtain ⟨⟨hplain, hsingle⟩, htypes⟩ := List.forall_mem_cons.1 h
    obtain ⟨as, has, hflat⟩ := (readFlat_render t hplain).2 hsingle
    obtain ⟨bs, hbs, hflat', -⟩ := ih htypes
    have hsign : Written " & " [.char '&'] := fun _ => rfl
    have has' : isFlat ['|', ';'] 0 as := isFlat_mono (by simp [separators]) hflat
    exact ⟨_, (hsign.append has).append hbs, isFlat_append (isFlat_append rfl has') hflat',
      .inr ⟨_, rfl⟩⟩

/-- A record is flat, with whatever is merged into it. -/
theorem readFlat_record (level : Nat) {r : Record} (h : ∀ p ∈ r.properties, p.type.isPlain)
    (hmerged : ∀ t ∈ r.merged, t.isPlain ∧ t.isUnion = false) :
    ReadFlat [] (r.render level none) := by
  obtain ⟨ls, hls, hflat, -⟩ := exists_written_renderMerged hmerged
  have hobject : ReadFlat [] (renderObject level none r.properties) :=
    (readFlat_object level h).mono (List.forall_mem_nil _)
  exact hobject.append ⟨ls, hls, isFlat_mono (List.forall_mem_nil _) hflat⟩

/-! ## Tagged objects -/

/-- Whether a text is read as an object with a tag. -/
def ReadTagged (tag : Tag) (text : String) : Prop :=
  ∃ ls, Written text ls ∧ isFlat separators 0 ls ∧ HasProperty (lexemes tag.render) ls

/-- Whether a text is read as one alternative that carries a tag. -/
def ReadAlternative (tag : Tag) (text : String) : Prop :=
  ∃ ls, Written text ls ∧ isFlat ['|'] 0 ls ∧ Carries tag ls

theorem readFlat_tag (tag : Tag) : ReadFlat separators tag.render :=
  ((readFlat_propertyKey tag.name).append (readFlat_of_isFree (by decide))).append
    (readFlat_literalWith _ tag.label)

/-- An object has a tag as a property if the tag is cut off what stands between its braces. -/
theorem readTagged_of_mem_cut (tag : Tag) {opening after closing : String} {bs : List Lexeme}
    (hopening : Written opening [.char '\x7b']) (hafter : Written after bs)
    (hclosing : Written closing [.char '\x7d']) (hflat : isFlat [] 0 bs)
    (hcut : ∀ ls, isFlat separators 0 ls → ls ∈ cut ';' 0 (ls ++ bs)) :
    ReadTagged tag (opening ++ tag.render ++ after ++ closing) := by
  obtain ⟨as, has, hflat'⟩ := readFlat_tag tag
  have hinner : isFlat [] 0 (as ++ bs) :=
    isFlat_append (isFlat_mono (List.forall_mem_nil _) hflat') hflat
  refine ⟨.char '\x7b' :: (as ++ bs ++ [.char '\x7d']), ?_, ?_, as ++ bs, rfl, hinner, ?_⟩
  · have hwritten := ((hopening.append has).append hafter).append hclosing
    simpa using hwritten
  · exact isFlat_group hinner (by decide) (by decide)
  · rw [has.lexemes_eq]
    exact hcut as hflat'

/-- An object that holds a tag alone has it as a property. -/
theorem readTagged_alone (tag : Tag) {opening closing : String}
    (hopening : Written opening [.char '\x7b']) (hclosing : Written closing [.char '\x7d']) :
    ReadTagged tag (opening ++ tag.render ++ closing) := by
  have hobject := readTagged_of_mem_cut tag hopening written_empty hclosing rfl fun ls hls => by
    rw [List.append_nil, cut_self_of_isFlat (by decide) hls]
    exact List.mem_singleton_self ls
  rwa [String.append_empty] at hobject

/-- **An object that starts with a tag has the tag as a property**, whatever follows it. -/
theorem readTagged_object (tag : Tag) {opening semicolon more closing : String}
    (hopening : Written opening [.char '\x7b']) (hsemicolon : Written semicolon [.char ';'])
    (hmore : ReadFlat [] more) (hclosing : Written closing [.char '\x7d']) :
    ReadTagged tag (opening ++ tag.render ++ (semicolon ++ more) ++ closing) := by
  obtain ⟨bs, hbs, hflat⟩ := hmore
  refine readTagged_of_mem_cut tag hopening (hsemicolon.append hbs) hclosing
    (isFlat_append rfl hflat) fun ls hls => ?_
  rw [cut_of_isFlat (by decide) hls, List.singleton_append, cut, if_pos ⟨rfl, rfl⟩, prepend,
    List.headD_cons, List.append_nil]
  exact List.mem_cons_self

/-- An object with a tag and what is merged behind it are one alternative. -/
theorem ReadTagged.merged {tag : Tag} (h : ReadTagged tag text) (types : List TypeExpr)
    (htypes : ∀ t ∈ types, t.isPlain ∧ t.isUnion = false) :
    ReadAlternative tag (text ++ renderMerged types) := by
  obtain ⟨as, has, hflat, htag⟩ := h
  obtain ⟨bs, hbs, hflat', hsign⟩ := exists_written_renderMerged htypes
  have has' : isFlat ['|'] 0 as := isFlat_mono (List.forall_mem_singleton.2 (by decide)) hflat
  have hbs' : isFlat ['|'] 0 bs := isFlat_mono (List.forall_mem_singleton.2 (by decide)) hflat'
  refine ⟨as ++ bs, has.append hbs, isFlat_append has' hbs', as, ?_, htag⟩
  rw [operands, cut_of_isFlat (by decide) hflat]
  rcases hsign with rfl | ⟨more, rfl⟩
  · simp [prepend, cut]
  · simp [prepend, cut]

end TypeScript
end Ferrotype
