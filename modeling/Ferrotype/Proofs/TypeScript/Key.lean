/-
# Reading property keys

A property key is a string literal or an identifier, behind which there may be layout. `keyName?`
reads the name that a key denotes. `keyName?_propertyKey` says for which names the key that is
written denotes the name: for all but an identifier with a line feed behind it, which is written as
it stands, although the line feed is then no part of the key.
-/

import Ferrotype.Proofs.Json.Literal
import Ferrotype.TypeScript.Key
import Mathlib.Data.List.TakeWhile

namespace Ferrotype
namespace TypeScript

/-- The name that a key denotes. -/
def keyName? : List Char → Option String
  | [] => none
  | c :: cs =>
    if c = '"' then (Json.read (c :: cs)).toOption.bind Json.Value.text?
    else if startsKey c && (cs.dropWhile continuesKey).all Json.isBlank then
      some (String.ofList (c :: cs.takeWhile continuesKey))
    else none

/-- Whether a name is an identifier with a line feed behind it. -/
def isKeyLine (name : String) : Bool :=
  isPlainKey name.toList && name.toList.getLast? == some '\n'

/-- A text goes on as a key does if it is made of such characters, up to a line feed at its end. -/
theorem exists_of_isKeyTail {cs : List Char} (h : isKeyTail cs) :
    ∃ body, body.all continuesKey ∧ (cs = body ∨ cs = body ++ ['\n']) := by
  fun_induction isKeyTail cs with
  | case1 => exact ⟨[], rfl, .inl rfl⟩
  | case2 => exact ⟨[], rfl, .inr rfl⟩
  | case3 c cs _ ih =>
    rw [Bool.and_eq_true] at h
    obtain ⟨body, hbody, hcs⟩ := ih h.2
    refine ⟨c :: body, by rw [List.all_cons, h.1, hbody]; rfl, ?_⟩
    exact hcs.imp (congrArg (c :: ·)) (congrArg (c :: ·))

/-- What starts a key is no other character. -/
theorem ne_of_startsKey {c d : Char} (h : startsKey c) (hd : startsKey d = false) : c ≠ d := by
  rintro rfl
  rw [hd] at h
  cases h

/-- The last character of an identifier is no line feed. -/
theorem getLast?_ne_newline {c : Char} {body : List Char} (hc : startsKey c)
    (hbody : body.all continuesKey) : (c :: body).getLast? ≠ some '\n' := by
  intro hlast
  rcases List.mem_cons.1 (List.mem_of_getLast? hlast) with hnewline | hmem
  · exact ne_of_startsKey hc rfl hnewline.symm
  · have hcontinues := List.all_eq_true.1 hbody '\n' hmem
    exact absurd hcontinues (by decide)

/-- How the key of a name is written: in quotes, as it stands, or as it stands with a line feed
that is no part of the key. -/
theorem propertyKey_cases (name : String) :
    (isKeyLine name = false ∧ propertyKey name = Text.asciiLiteral name) ∨
      ∃ c body, startsKey c ∧ body.all continuesKey ∧ propertyKey name = name ∧
        (isKeyLine name = false ∧ name.toList = c :: body ∨
          isKeyLine name ∧ name.toList = c :: (body ++ ['\n'])) := by
  cases hplain : isPlainKey name.toList with
  | false =>
    refine .inl ⟨?_, if_neg ?_⟩
    · rw [isKeyLine, hplain, Bool.false_and]
    · rw [hplain]
      exact Bool.false_ne_true
  | true =>
    cases hname : name.toList with
    | nil =>
      rw [hname] at hplain
      cases hplain
    | cons c cs =>
      have hparts := hplain
      rw [hname, isPlainKey, Bool.and_eq_true] at hparts
      obtain ⟨hc, hcs⟩ := hparts
      obtain ⟨body, hbody, hend⟩ := exists_of_isKeyTail hcs
      refine .inr ⟨c, body, hc, hbody, if_pos hplain, hend.imp ?_ ?_⟩
      · rintro rfl
        rw [isKeyLine, hplain, Bool.true_and, beq_eq_false_iff_ne, hname]
        exact ⟨getLast?_ne_newline hc hbody, rfl⟩
      · rintro rfl
        rw [isKeyLine, hplain, Bool.true_and, beq_iff_eq, hname, ← List.cons_append]
        exact ⟨List.getLast?_concat, rfl⟩

/-- **The key that is written for a name denotes the name**, unless the name is an identifier with
a line feed behind it. -/
theorem keyName?_propertyKey (name : String) :
    keyName? (propertyKey name).toList = some name ↔ isKeyLine name = false := by
  obtain ⟨hline, hkey⟩ | ⟨c, body, hc, hbody, hkey, ⟨hline, hname⟩ | ⟨hline, hname⟩⟩ :=
    propertyKey_cases name
  · refine iff_of_true ?_ hline
    have hread := Json.read_asciiLiteral name
    rw [hkey]
    rw [Text.asciiLiteral, Text.literalWith, String.toList_ofList] at hread ⊢
    rw [keyName?, if_pos rfl, hread]
    rfl
  · refine iff_of_true ?_ hline
    have hall := List.all_eq_true.1 hbody
    have htake : body.takeWhile continuesKey = body := List.takeWhile_eq_self_iff.2 hall
    have hdrop : body.dropWhile continuesKey = [] := List.dropWhile_eq_nil_iff.2 hall
    rw [hkey, hname, keyName?, if_neg (ne_of_startsKey hc rfl), hc, htake, hdrop]
    simp only [List.all_nil, Bool.and_self, if_true, Option.some.injEq]
    rw [← hname, String.ofList_toList]
  · refine iff_of_false (fun hsome => ?_) (by rw [hline]; exact Bool.noConfusion)
    have htake : (body ++ ['\n']).takeWhile continuesKey = body := by
      rw [List.takeWhile_append_of_pos (List.all_eq_true.1 hbody)]
      exact List.append_nil body
    rw [hkey, hname, keyName?, if_neg (ne_of_startsKey hc rfl), htake] at hsome
    obtain ⟨-, hsame⟩ := Option.ite_none_right_eq_some.1 hsome
    -- The name is one character longer than the key.
    have hlength := congrArg (·.toList.length) (Option.some.inj hsame)
    simp [hname] at hlength

/-- An identifier denotes itself; a line feed behind it is lost. -/
example : keyName? (propertyKey "kind").toList = some "kind" ∧
    keyName? (propertyKey "kind\n").toList = some "kind" := by
  decide

end TypeScript
end Ferrotype
