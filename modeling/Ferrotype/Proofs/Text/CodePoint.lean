/-
# Two readings of a text

A text of code points is told from its two readings (`codePoints_read`), and this still holds when
the text was put into a literal in between: in a literal that keeps surrogates as they are
(`codePoints_literal`), and in one that writes them by their numbers (`codePoints_asciiLiteral`).

Code points have bytes if and only if they are the characters of a text (`encodePoints_eq_ok_iff`);
otherwise the error names the first surrogates in a row (`encodePoints_eq_error_iff`).
-/

import Ferrotype.Proofs.Text.Hexadecimal
import Ferrotype.Proofs.Text.Utf8
import Ferrotype.Text.Literal

namespace Ferrotype
namespace Text

/-! ## Laying readings over each other -/

@[simp] theorem CodePoint.ofReadings_self (c : Char) : ofReadings c c = .char c := if_pos rfl

/-- What both readings have alike are characters. -/
theorem zipWith_ofReadings_self (cs : List Char) :
    List.zipWith CodePoint.ofReadings cs cs = cs.map .char := by
  induction cs with
  | nil => rfl
  | cons c cs ih => rw [List.zipWith_cons_cons, CodePoint.ofReadings_self, ih, List.map_cons]

/-- A text that is read alike twice has no surrogates. -/
theorem codePoints_self (text : String) : codePoints text text = text.toList.map .char :=
  zipWith_ofReadings_self text.toList

/-- What both readings start with alike. -/
theorem codePoints_append (front a b : String) :
    codePoints (front ++ a) (front ++ b) = front.toList.map .char ++ codePoints a b := by
  rw [codePoints, codePoints, String.toList_append, String.toList_append,
    List.zipWith_append rfl, zipWith_ofReadings_self]

/-- The stand-ins of the first reading, by their numbers. -/
theorem StandIn.toNat_first (s : Surrogate) : (first.char s).toNat = 0xE800 + s.val := by
  have hs := s.isLt
  exact Utf8.toNat_ofNat (.inr (by omega))

/-- The stand-ins of the second reading, by their numbers. -/
theorem StandIn.toNat_second (s : Surrogate) : (second.char s).toNat = 0xF000 + s.val := by
  have hs := s.isLt
  exact Utf8.toNat_ofNat (.inr (by omega))

/-- The stand-ins of a surrogate give it away. -/
theorem CodePoint.ofReadings_standIn (s : Surrogate) :
    ofReadings (StandIn.first.char s) (StandIn.second.char s) = .surrogate s := by
  have hs := s.isLt
  have hfirst := StandIn.toNat_first s
  have hne : StandIn.first.char s ≠ StandIn.second.char s := fun heq => by
    have hsecond := StandIn.toNat_second s
    rw [← heq, hfirst] at hsecond
    omega
  have hcode : Surrogate.ofCode (0xE800 + s.val) = s := by
    apply Fin.ext
    simp only [Surrogate.ofCode, Fin.val_ofNat]
    omega
  rw [ofReadings, if_neg hne, if_neg (by omega), hfirst, hcode]

/-- A code point is told from its two readings. -/
theorem CodePoint.ofReadings_read (p : CodePoint) :
    ofReadings (@read .first p) (@read .second p) = p := by
  cases p with
  | char c => exact ofReadings_self c
  | surrogate s => exact ofReadings_standIn s

/-- The characters that are read for code points. -/
def reading [StandIn] (points : List CodePoint) : String :=
  String.ofList (points.map CodePoint.read)

/-- **A text is told from its two readings**, whatever characters it has. -/
theorem codePoints_read (points : List CodePoint) :
    codePoints (@reading .first points) (@reading .second points) = points := by
  simp only [codePoints, reading, String.toList_ofList]
  induction points with
  | nil => rfl
  | cons p points ih =>
    rw [List.map_cons, List.map_cons, List.zipWith_cons_cons, CodePoint.ofReadings_read, ih]

/-! ## Readings inside a literal -/

/-- A code point inside a literal; a surrogate is written by `escape`. -/
def CodePoint.inLiteral (plain : Char → Bool) (escape : Surrogate → List CodePoint) :
    CodePoint → List CodePoint
  | char c => (literalChar plain c).map .char
  | surrogate s => escape s

/-- Code points between quotes. -/
def literalPoints (plain : Char → Bool) (escape : Surrogate → List CodePoint)
    (points : List CodePoint) : List CodePoint :=
  .char '"' :: (points.flatMap (CodePoint.inLiteral plain escape) ++ [.char '"'])

/-- A literal is laid together from its readings if every surrogate in it is. -/
theorem codePoints_literalWith {plain : Char → Bool} {escape : Surrogate → List CodePoint}
    (hlength : ∀ s, (literalChar plain (StandIn.first.char s)).length =
      (literalChar plain (StandIn.second.char s)).length)
    (hescape : ∀ s, List.zipWith CodePoint.ofReadings (literalChar plain (StandIn.first.char s))
      (literalChar plain (StandIn.second.char s)) = escape s) (points : List CodePoint) :
    codePoints (literalWith plain (@reading .first points))
      (literalWith plain (@reading .second points)) = literalPoints plain escape points := by
  have hbody : ∀ ps : List CodePoint,
      List.zipWith CodePoint.ofReadings
        ((ps.map (@CodePoint.read .first)).flatMap (literalChar plain) ++ ['"'])
        ((ps.map (@CodePoint.read .second)).flatMap (literalChar plain) ++ ['"']) =
      ps.flatMap (CodePoint.inLiteral plain escape) ++ [.char '"'] := by
    intro ps
    induction ps with
    | nil => rfl
    | cons p ps ih =>
      simp only [List.map_cons, List.flatMap_cons, List.append_assoc]
      cases p with
      | char c =>
        simp only [CodePoint.read]
        rw [List.zipWith_append rfl, ih, zipWith_ofReadings_self]
        rfl
      | surrogate s =>
        simp only [CodePoint.read]
        rw [List.zipWith_append (hlength s), ih, hescape]
        rfl
  simp only [codePoints, literalWith, reading, String.toList_ofList, List.zipWith_cons_cons,
    CodePoint.ofReadings_self, literalPoints, hbody]

/-- A character outside ASCII is none of those with an escape of their own. -/
theorem literalChar_of_le {c : Char} (hc : 0x80 ≤ c.toNat) (plain : Char → Bool) :
    literalChar plain c = if plain c then [c] else (units16 c).flatMap unitEscape := by
  have hne (d : Char) (hd : d.toNat < 0x80) : c ≠ d := fun heq => by
    rw [heq] at hc
    omega
  rw [literalChar, if_neg (hne _ (by decide)), if_neg (hne _ (by decide)),
    if_neg (hne _ (by decide)), if_neg (hne _ (by decide)), if_neg (hne _ (by decide)),
    if_neg (hne _ (by decide)), if_neg (hne _ (by decide))]

/-- **A surrogate stands in a literal as it is** where only quotes, backslashes and controls are
escaped. -/
theorem codePoints_literal (points : List CodePoint) :
    codePoints (literal (@reading .first points)) (literal (@reading .second points)) =
      literalPoints (fun c => decide (' ' ≤ c)) (fun s => [.surrogate s]) points := by
  have hplain {c : Char} (hc : 0x80 ≤ c.toNat) :
      literalChar (fun c => decide (' ' ≤ c)) c = [c] := by
    have hle : ' ' ≤ c := Nat.le_trans (by decide : ' '.toNat ≤ 0x80) hc
    rw [literalChar_of_le hc, if_pos (by simpa using hle)]
  have hfirst (s : Surrogate) := hplain (c := StandIn.first.char s) (by
    rw [StandIn.toNat_first]
    omega)
  have hsecond (s : Surrogate) := hplain (c := StandIn.second.char s) (by
    rw [StandIn.toNat_second]
    omega)
  refine codePoints_literalWith (fun s => ?_) (fun s => ?_) points
  · rw [hfirst, hsecond]
    rfl
  · rw [hfirst, hsecond, List.zipWith_cons_cons, CodePoint.ofReadings_standIn]
    rfl

/-- A character that needs no pair of units, written by its number. -/
theorem literalChar_escaped {c : Char} {n : Nat} (hc : c.toNat = n) (hn : 0x80 ≤ n)
    (hn' : n < 0x10000) :
    literalChar (fun c => decide (' ' ≤ c) && decide (c ≤ '~')) c = unitEscape n := by
  have hlate : ¬ c ≤ '~' := fun hle => by
    have hle' : c.toNat ≤ '~'.toNat := hle
    have hlast : '~'.toNat = 0x7E := rfl
    omega
  rw [literalChar_of_le (hc ▸ hn), if_neg (by simp [hlate]), units16, hc, if_pos hn',
    List.flatMap_singleton]

/-- The numbers of the stand-ins, laid over each other, are that of the surrogate. -/
theorem zipWith_unitEscape (s : Surrogate) :
    List.zipWith CodePoint.ofReadings (unitEscape (0xE800 + s.val)) (unitEscape (0xF000 + s.val)) =
      (unitEscape s.code).map .char := by
  have hs := s.isLt
  -- The second digit is the one of three bits, with the highest bit set in the first reading.
  have hsecond : ∀ j : Fin 8, CodePoint.ofReadings (Hexadecimal.digit (8 + j.val))
      (Hexadecimal.digit j.val) = .char (Hexadecimal.digit (8 + j.val)) := by decide
  have hj := hsecond ⟨s.val / 0x100, by omega⟩
  simp only [unitEscape, Hexadecimal.padded_four, Nat.div_div_eq_div_mul, Surrogate.code,
    List.zipWith_cons_cons, List.map_cons, CodePoint.ofReadings_self, List.zipWith_nil_left,
    List.map_nil, Nat.reduceMul]
  rw [show (0xE800 + s.val) / 0x1000 % 16 = 14 by omega,
    show (0xF000 + s.val) / 0x1000 % 16 = 15 by omega,
    show (0xD800 + s.val) / 0x1000 % 16 = 13 by omega,
    show (0xE800 + s.val) / 0x100 % 16 = 8 + s.val / 0x100 by omega,
    show (0xF000 + s.val) / 0x100 % 16 = s.val / 0x100 by omega,
    show (0xD800 + s.val) / 0x100 % 16 = 8 + s.val / 0x100 by omega,
    show (0xF000 + s.val) / 0x10 % 16 = (0xE800 + s.val) / 0x10 % 16 by omega,
    show (0xD800 + s.val) / 0x10 % 16 = (0xE800 + s.val) / 0x10 % 16 by omega,
    show (0xF000 + s.val) % 16 = (0xE800 + s.val) % 16 by omega,
    show (0xD800 + s.val) % 16 = (0xE800 + s.val) % 16 by omega, hj]
  simp only [CodePoint.ofReadings_self]
  rfl

/-- **A surrogate is written by its number** where all but printable ASCII characters are
escaped. -/
theorem codePoints_asciiLiteral (points : List CodePoint) :
    codePoints (asciiLiteral (@reading .first points)) (asciiLiteral (@reading .second points)) =
      literalPoints (fun c => decide (' ' ≤ c) && decide (c ≤ '~'))
        (fun s => (unitEscape s.code).map .char) points := by
  have hfirst (s : Surrogate) := literalChar_escaped (StandIn.toNat_first s) (by omega) (by omega)
  have hsecond (s : Surrogate) :=
    literalChar_escaped (StandIn.toNat_second s) (by omega) (by omega)
  refine codePoints_literalWith (fun s => ?_) (fun s => ?_) points
  · rw [hfirst, hsecond]
    simp [unitEscape]
  · rw [hfirst, hsecond, zipWith_unitEscape]

/-! ## Bytes -/

namespace Utf8

/-- Characters in front are encoded and move the place of an error. -/
theorem encodeFrom_append (position : Nat) (cs : List Char) (points : List CodePoint) :
    encodeFrom position (cs.map .char ++ points) =
      (encodeFrom (position + cs.length) points).map (cs.flatMap encodeChar ++ ·) := by
  induction cs generalizing position with
  | nil => cases h : encodeFrom position points <;> simp [h, Except.map]
  | cons c cs ih =>
    rw [List.map_cons, List.cons_append, encodeFrom, ih, List.length_cons,
      show position + 1 + cs.length = position + (cs.length + 1) by omega]
    cases encodeFrom (position + (cs.length + 1)) points <;> simp [Except.map]

/-- Code points are the characters of a text, or there is a first surrogate among them. -/
theorem eq_map_or_exists_surrogate (points : List CodePoint) :
    (∃ cs : List Char, points = cs.map .char) ∨
      ∃ (cs : List Char) (s : Surrogate) (rest : List CodePoint),
        points = cs.map .char ++ .surrogate s :: rest := by
  induction points with
  | nil => exact .inl ⟨[], rfl⟩
  | cons p points ih =>
    cases p with
    | surrogate s => exact .inr ⟨[], s, points, rfl⟩
    | char c =>
      obtain ⟨cs, rfl⟩ | ⟨cs, s, rest, rfl⟩ := ih
      · exact .inl ⟨c :: cs, rfl⟩
      · exact .inr ⟨c :: cs, s, rest, rfl⟩

/-- A text without surrogates is encoded. -/
theorem encodePoints_map (text : String) :
    encodePoints (text.toList.map .char) = .ok (encode text) := by
  have h := encodeFrom_append 0 text.toList []
  rw [List.append_nil] at h
  rw [encodePoints, h, encodeFrom, encode, Except.map, List.append_nil]

/-- The first surrogate is the error, with the length of the run that it starts. -/
theorem encodePoints_surrogate (cs : List Char) (s : Surrogate) (rest : List CodePoint) :
    encodePoints (cs.map .char ++ .surrogate s :: rest) =
      .error ⟨cs.length, s, (rest.takeWhile (·.char?.isNone)).length + 1⟩ := by
  rw [encodePoints, encodeFrom_append, encodeFrom, Nat.zero_add, Except.map]

/-- **Code points have bytes if and only if they are the characters of a text.** -/
theorem encodePoints_eq_ok_iff {points : List CodePoint} {bytes : List UInt8} :
    encodePoints points = .ok bytes ↔
      ∃ text : String, points = text.toList.map .char ∧ bytes = encode text := by
  constructor
  · intro h
    obtain ⟨cs, rfl⟩ | ⟨cs, s, rest, rfl⟩ := eq_map_or_exists_surrogate points
    · refine ⟨String.ofList cs, by rw [String.toList_ofList], ?_⟩
      have htext := encodePoints_map (String.ofList cs)
      rw [String.toList_ofList, h] at htext
      exact Except.ok.inj htext
    · rw [encodePoints_surrogate] at h
      cases h
  · rintro ⟨text, rfl, rfl⟩
    exact encodePoints_map text

/-- **Otherwise the first surrogate is to blame**, with those that follow it at once. -/
theorem encodePoints_eq_error_iff {points : List CodePoint} {u : Unencodable} :
    encodePoints points = .error u ↔
      ∃ (cs : List Char) (s : Surrogate) (rest : List CodePoint),
        points = cs.map .char ++ .surrogate s :: rest ∧
          u = ⟨cs.length, s, (rest.takeWhile (·.char?.isNone)).length + 1⟩ := by
  constructor
  · intro h
    obtain ⟨cs, rfl⟩ | ⟨cs, s, rest, rfl⟩ := eq_map_or_exists_surrogate points
    · have htext := encodePoints_map (String.ofList cs)
      rw [String.toList_ofList, h] at htext
      cases htext
    · rw [encodePoints_surrogate] at h
      exact ⟨cs, s, rest, rfl, (Except.error.inj h).symm⟩
  · rintro ⟨cs, s, rest, rfl, rfl⟩
    exact encodePoints_surrogate cs s rest

end Utf8
end Text
end Ferrotype
