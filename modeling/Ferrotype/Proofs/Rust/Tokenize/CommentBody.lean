/-
# What a block comment holds

A block comment may hold block comments. `CommentBody` says what may stand between its delimiters:
characters that start no delimiter, and whole comments. Since a delimiter is two characters, what
the last character starts depends on the closing delimiter behind it.

A comment ends with the delimiter behind such a body (`blockTail_of_commentBody`), and a comment
that ends with its delimiter has such a body (`commentBody_of_closing`). Any other comment runs to
the end of the source.
-/

import Ferrotype.Rust.Lexeme

namespace Ferrotype
namespace Rust
namespace Lexeme

/-! ## Bodies -/

/-- What stands between the delimiters of a block comment. -/
inductive CommentBody : List Char → Prop
  | nil : CommentBody []
  /-- A character that starts neither delimiter. -/
  | char {c : Char} {cs : List Char} (hopen : ¬ ['/', '*'] <+: c :: (cs ++ ['*', '/']))
      (hclose : ¬ ['*', '/'] <+: c :: (cs ++ ['*', '/'])) (h : CommentBody cs) :
      CommentBody (c :: cs)
  /-- A whole comment. -/
  | comment {inner cs : List Char} (hinner : CommentBody inner) (h : CommentBody cs) :
      CommentBody ('/' :: '*' :: (inner ++ '*' :: '/' :: cs))

/-- A text starts with two characters if its first and its next one are these. -/
theorem pair_prefix_cons_iff {a b c : Char} {cs : List Char} :
    [a, b] <+: c :: cs ↔ c = a ∧ cs.head? = some b := by
  cases cs with
  | nil => simp
  | cons d ds => simp [eq_comm]

/-- What a character in front of a delimiter starts does not depend on what is behind that. -/
theorem pair_prefix_append_congr {a b c d : Char} {cs : List Char} (xs ys : List Char) :
    [a, b] <+: c :: (cs ++ d :: xs) ↔ [a, b] <+: c :: (cs ++ d :: ys) := by
  rw [pair_prefix_cons_iff, pair_prefix_cons_iff]
  cases cs <;> rfl

/-- Contents in front of contents are in front of both. -/
theorem Enclosed.after_after (e : Enclosed) (cs ds : List Char) :
    (e.after cs).after ds = e.after (ds ++ cs) := by
  simp [Enclosed.after]

/-! ## A body is read up to the delimiter behind it -/

/-- A character that starts no delimiter is content. -/
theorem blockTail_char {c : Char} {cs : List Char} (hopen : ¬ ['/', '*'] <+: c :: cs)
    (hclose : ¬ ['*', '/'] <+: c :: cs) (depth : Nat) :
    blockTail depth (c :: cs) = (blockTail depth cs).after [c] := by
  rw [blockTail.eq_5]
  · rintro tail rfl rfl
    exact hopen ⟨tail, rfl⟩
  · rintro tail - rfl rfl
    exact hclose ⟨tail, rfl⟩
  · rintro _ tail - rfl rfl
    exact hclose ⟨tail, rfl⟩

/-- The body of a comment is read up to the delimiter behind it, however many comments are open
around it. The induction is on the body. -/
theorem blockTail_of_commentBody {body : List Char} (h : CommentBody body) (depth : Nat)
    (rest : List Char) :
    blockTail depth (body ++ '*' :: '/' :: rest) =
      (blockTail depth ('*' :: '/' :: rest)).after body := by
  induction h generalizing depth rest with
  | nil => rfl
  | @char c cs hopen hclose _ ih =>
    rw [pair_prefix_append_congr _ ('/' :: rest)] at hopen hclose
    rw [List.cons_append, blockTail_char hopen hclose depth, ih, Enclosed.after_after]
    rfl
  | @comment inner cs _ _ ihinner ih =>
    have htext : '/' :: '*' :: (inner ++ '*' :: '/' :: cs) ++ '*' :: '/' :: rest =
        '/' :: '*' :: (inner ++ '*' :: '/' :: (cs ++ '*' :: '/' :: rest)) := by
      simp
    rw [htext, blockTail, ihinner, blockTail, ih]
    simp [Enclosed.after_after]

/-! ## What ends with its delimiter has a body -/

/-- A comment ends with its delimiter or with the source. -/
theorem closing_blockTail (depth : Nat) (cs : List Char) :
    (blockTail depth cs).closing = ['*', '/'] ∨
      (blockTail depth cs).closing = [] ∧ (blockTail depth cs).rest = [] := by
  fun_induction blockTail depth cs with
  | case1 => exact .inr ⟨rfl, rfl⟩
  | case2 depth cs ih => exact ih
  | case3 => exact .inl rfl
  | case4 depth cs ih => exact ih
  | case5 depth c cs _ _ _ ih => exact ih

/-- What stands in front of the delimiter that closes a comment when `depth` more comments were open
at its start: each of them has the rest of its body and its delimiter. -/
def CommentBodies : Nat → List Char → Prop
  | 0, content => CommentBody content
  | depth + 1, content =>
    ∃ inner rest, content = inner ++ '*' :: '/' :: rest ∧ CommentBody inner ∧
      CommentBodies depth rest

/-- A comment inside the first body is part of it. -/
theorem commentBodies_comment {inner cs : List Char} (hinner : CommentBody inner) {depth : Nat}
    (h : CommentBodies depth cs) :
    CommentBodies depth ('/' :: '*' :: (inner ++ '*' :: '/' :: cs)) := by
  cases depth with
  | zero => exact .comment hinner h
  | succ depth =>
    obtain ⟨body, rest, rfl, hbody, hrest⟩ := h
    exact ⟨_, rest, by simp, .comment hinner hbody, hrest⟩

/-- A character that starts no delimiter is part of the first body. -/
theorem commentBodies_char {c : Char} {cs : List Char}
    (hopen : ¬ ['/', '*'] <+: c :: (cs ++ ['*', '/']))
    (hclose : ¬ ['*', '/'] <+: c :: (cs ++ ['*', '/'])) {depth : Nat}
    (h : CommentBodies depth cs) : CommentBodies depth (c :: cs) := by
  cases depth with
  | zero => exact .char hopen hclose h
  | succ depth =>
    obtain ⟨body, rest, rfl, hbody, hrest⟩ := h
    rw [List.append_assoc, List.cons_append, pair_prefix_append_congr _ ['/']] at hopen hclose
    exact ⟨c :: body, rest, rfl, .char hopen hclose hbody, hrest⟩

/-- What is read of a comment that is closed are the bodies of all comments that were open. -/
theorem commentBodies_of_closing {depth : Nat} {cs : List Char}
    (h : (blockTail depth cs).closing = ['*', '/']) :
    CommentBodies depth (blockTail depth cs).content := by
  fun_induction blockTail depth cs with
  | case1 => cases h
  | case2 depth cs ih =>
    obtain ⟨inner, rest, hcontent, hinner, hrest⟩ := ih h
    change CommentBodies depth ('/' :: '*' :: (blockTail (depth + 1) cs).content)
    rw [hcontent]
    exact commentBodies_comment hinner hrest
  | case3 => exact .nil
  | case4 depth cs ih => exact ⟨[], _, rfl, .nil, ih h⟩
  | case5 depth c cs hopen hclose hinner ih =>
    have hclosing : (blockTail depth cs).closing = ['*', '/'] := h
    have hcs := blockTail_append depth cs
    rw [Enclosed.text, hclosing, List.append_assoc] at hcs
    -- The content and the delimiter behind it begin as the source does.
    have hstarts {a b : Char} : [a, b] <+: c :: ((blockTail depth cs).content ++ ['*', '/']) ↔
        c = a ∧ cs.head? = some b := by
      rw [← pair_prefix_cons_iff, pair_prefix_append_congr _ ('/' :: (blockTail depth cs).rest)]
      exact iff_of_eq (congrArg (fun text => [a, b] <+: c :: text) hcs)
    change CommentBodies depth (c :: (blockTail depth cs).content)
    refine commentBodies_char ?_ ?_ (ih h) <;> rw [hstarts]
    · rintro ⟨rfl, hhead⟩
      obtain ⟨tail, rfl⟩ := List.head?_eq_some_iff.1 hhead
      exact hopen tail rfl rfl
    · rintro ⟨rfl, hhead⟩
      obtain ⟨tail, rfl⟩ := List.head?_eq_some_iff.1 hhead
      cases depth with
      | zero => exact hclose tail rfl rfl rfl
      | succ depth => exact hinner depth tail rfl rfl rfl

/-- **What ends with its delimiter has a body.** -/
theorem commentBody_of_closing {cs : List Char} (h : (blockTail 0 cs).closing = ['*', '/']) :
    CommentBody (blockTail 0 cs).content :=
  commentBodies_of_closing h

end Lexeme
end Rust
end Ferrotype
