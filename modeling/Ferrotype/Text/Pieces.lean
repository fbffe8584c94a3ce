/-
# Cutting a text at a separator and gluing it together again

`splitAt` cuts at every occurrence of one character, `segments` at every `::`; both keep empty
pieces, so `n` separators give `n + 1` pieces. `join` puts a text between neighbours, `concat` puts
nothing between them, and `lines` ends each with a line feed.
-/

namespace Ferrotype
namespace Text

/-- The pieces of a text between the occurrences of a character. -/
def splitAt (sep : Char) : List Char → List (List Char)
  | [] => [[]]
  | c :: rest =>
    if c = sep then [] :: splitAt sep rest
    else match splitAt sep rest with
      | [] => [[c]]
      | piece :: pieces => (c :: piece) :: pieces

/-- A text has a piece. -/
theorem splitAt_ne_nil (sep : Char) (cs : List Char) : splitAt sep cs ≠ [] := by
  cases cs with
  | nil => simp [splitAt]
  | cons c rest =>
    unfold splitAt
    split
    · simp
    · split <;> simp

/-- The pieces of a path between its `::` separators. -/
def segments : List Char → List (List Char)
  | [] => [[]]
  | ':' :: ':' :: rest => [] :: segments rest
  | c :: rest =>
    match segments rest with
    | [] => [[c]]
    | piece :: pieces => (c :: piece) :: pieces

/-- The last segment of a path: `HashMap` in `std::collections::HashMap`. -/
def lastSegment (path : String) : String :=
  String.ofList ((segments path.toList).getLastD [])

/-- Texts written one after the other with a separator between neighbours. -/
def join (sep : String) : List String → String
  | [] => ""
  | [part] => part
  | part :: parts => part ++ sep ++ join sep parts

@[simp] theorem join_nil (sep : String) : join sep [] = "" := rfl

@[simp] theorem join_singleton (sep part : String) : join sep [part] = part := rfl

theorem join_cons_cons (sep part next : String) (parts : List String) :
    join sep (part :: next :: parts) = part ++ sep ++ join sep (next :: parts) := rfl

/-- Texts written one after the other. -/
def concat : List String → String
  | [] => ""
  | part :: parts => part ++ concat parts

@[simp] theorem concat_nil : concat [] = "" := rfl

@[simp] theorem concat_cons (part : String) (parts : List String) :
    concat (part :: parts) = part ++ concat parts := rfl

/-- Texts are put together part by part. -/
theorem concat_append (xs ys : List String) : concat (xs ++ ys) = concat xs ++ concat ys := by
  induction xs with
  | nil => simp
  | cons x xs ih => simp [ih, String.append_assoc]

/-- Texts as lines, each of them ended by a line feed. -/
def lines (texts : List String) : String := concat (texts.map (· ++ "\n"))

/-- A text of blanks of the given length. -/
def spaces (n : Nat) : String := String.ofList (List.replicate n ' ')

/-- A run of characters up to one that does not go on with it. -/
theorem takeWhile_append_of_head? {p : Char → Bool} {xs ys : List Char} (hxs : ∀ x ∈ xs, p x)
    (hys : ∀ y ∈ ys.head?, p y = false) :
    (xs ++ ys).takeWhile p = xs ∧ (xs ++ ys).dropWhile p = ys := by
  rw [List.takeWhile_append_of_pos hxs, List.dropWhile_append_of_pos hxs]
  cases ys with
  | nil => exact ⟨List.append_nil xs, rfl⟩
  | cons y ys =>
    have hy : ¬ p y := by
      rw [hys y rfl]
      exact Bool.false_ne_true
    rw [List.takeWhile_cons_of_neg hy, List.dropWhile_cons_of_neg hy, List.append_nil]
    exact ⟨rfl, rfl⟩

end Text
end Ferrotype
