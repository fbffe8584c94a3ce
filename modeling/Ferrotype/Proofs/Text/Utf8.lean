/-
# What bytes were read

Reading is the inverse of writing: bytes that are read as a text are the bytes of this text, and
where the end cuts off a character, its bytes come last. So the first line that is read off bytes
is the line that the bytes start with, in however many blocks they came.

`encode_of_decodeFrom` says the former from every state that reading can be in, and
`startsWithLine_of_firstLine` the latter.
-/

import Ferrotype.Text.Line

namespace Ferrotype
namespace Text
namespace Utf8

/-! ## Characters that have been begun -/

/-- Whether a byte goes on with a character that has been begun. -/
def Partial.Fits (p : Partial) (b : UInt8) : Prop :=
  p.low ≤ b.toNat ∧ b.toNat ≤ p.high ∧ !p.isSurrogate

/-- The states inside of a character that reading can be in. -/
inductive Partial.Begun : Partial → Prop
  | lead {b : UInt8} {p : Partial} (h : lead? b = some p) : Begun p
  | next {p : Partial} {b : UInt8} {owed : Nat} (h : Begun p) (howed : p.owed = owed + 1)
    (hfits : p.Fits b) : Begun ⟨p.first, b :: p.later, p.extend b, owed, 0x80, 0xBF⟩

/-- The lead bytes of characters of two, three and four bytes. -/
theorem lead?_eq_some {b : UInt8} {p : Partial} (h : lead? b = some p) :
    (0xC2 ≤ b.toNat ∧ b.toNat < 0xE0 ∧ p = ⟨b, [], b.toNat - 0xC0, 0, 0x80, 0xBF⟩) ∨
    (0xE0 ≤ b.toNat ∧ b.toNat < 0xF0 ∧
      p = ⟨b, [], b.toNat - 0xE0, 1, if b.toNat = 0xE0 then 0xA0 else 0x80, 0xBF⟩) ∨
    (0xF0 ≤ b.toNat ∧ b.toNat < 0xF5 ∧
      p = ⟨b, [], b.toNat - 0xF0, 2, if b.toNat = 0xF0 then 0x90 else 0x80,
        if b.toNat = 0xF4 then 0x8F else 0xBF⟩) := by
  unfold lead? at h
  grind

/-- No character has more than four bytes. -/
theorem Partial.Begun.owed_le {p : Partial} (h : p.Begun) : p.owed ≤ 2 := by
  induction h with
  | lead h => obtain ⟨-, -, rfl⟩ | ⟨-, -, rfl⟩ | ⟨-, -, rfl⟩ := lead?_eq_some h <;> simp
  | next h howed hfits ih => simp only; omega

/-- A lead byte is above those that stand for themselves. -/
theorem le_of_lead? {b : UInt8} {p : Partial} (h : lead? b = some p) : 0xC2 ≤ b.toNat := by
  obtain ⟨hb, -⟩ | ⟨hb, -⟩ | ⟨hb, -⟩ := lead?_eq_some h <;> omega

/-- A first byte stands alone at first. -/
theorem bytes_of_lead? {b : UInt8} {p : Partial} (h : lead? b = some p) : p.bytes = [b] := by
  obtain ⟨-, -, rfl⟩ | ⟨-, -, rfl⟩ | ⟨-, -, rfl⟩ := lead?_eq_some h <;> rfl

/-- Reading the bytes of a character that has been begun leads to where it was begun. -/
theorem decodeFrom_bytes {p : Partial} (h : p.Begun) (position : Nat) (rest : List UInt8) :
    decodeFrom position none (p.bytes ++ rest) = decodeFrom position (some p) rest := by
  induction h generalizing rest with
  | @lead b p h =>
    have hb := le_of_lead? h
    rw [bytes_of_lead? h, List.singleton_append, decodeFrom, if_neg (by omega), h]
  | @next p b owed h howed hfits ih =>
    have hbytes : (⟨p.first, b :: p.later, p.extend b, owed, 0x80, 0xBF⟩ : Partial).bytes =
        p.bytes ++ [b] := by simp [Partial.bytes]
    have hfits' : p.low ≤ b.toNat ∧ b.toNat ≤ p.high ∧ (!p.isSurrogate) = true := hfits
    rw [hbytes, List.append_assoc, ih, List.singleton_append, decodeFrom, if_pos hfits', howed]

/-! ## The last byte of a character -/

/-- A number outside the surrogates is that of its character. -/
theorem toNat_ofNat {n : Nat} (h : n < 0xD800 ∨ 0xDFFF < n ∧ n < 0x110000) :
    (Char.ofNat n).toNat = n := by
  rw [Char.ofNat, dif_pos h]
  rfl

/-- A byte is the one with its number. -/
theorem ofNat_eq {n : Nat} {b : UInt8} (h : n = b.toNat) : UInt8.ofNat n = b := by
  rw [h, UInt8.ofNat_toNat]

/-- A byte below the lead bytes stands for itself. -/
theorem encodeChar_of_ascii {b : UInt8} (h : b.toNat < 0x80) :
    encodeChar (Char.ofNat b.toNat) = [b] := by
  rw [encodeChar, toNat_ofNat (by omega), if_pos h, UInt8.ofNat_toNat]

/-- The character of two bytes is encoded as these. -/
theorem encodeChar_of_two {a b : UInt8} (ha : 0xC2 ≤ a.toNat ∧ a.toNat < 0xE0)
    (hb : 0x80 ≤ b.toNat ∧ b.toNat ≤ 0xBF) :
    encodeChar (Char.ofNat ((a.toNat - 0xC0) * 0x40 + b.toNat % 0x40)) = [a, b] := by
  rw [encodeChar, toNat_ofNat (by omega), if_neg (by omega), if_pos (by omega)]
  congr
  · exact ofNat_eq (by omega)
  · exact ofNat_eq (by omega)

/-- The character of three bytes is encoded as these. -/
theorem encodeChar_of_three {a b c : UInt8} {v : Nat} (ha : 0xE0 ≤ a.toNat ∧ a.toNat < 0xF0)
    (hb : 0x80 ≤ b.toNat ∧ b.toNat ≤ 0xBF) (hlow : a.toNat = 0xE0 → 0xA0 ≤ b.toNat)
    (hv : v = (a.toNat - 0xE0) * 0x40 + b.toNat % 0x40) (hsurrogate : v < 0x360 ∨ 0x37F < v)
    (hc : 0x80 ≤ c.toNat ∧ c.toNat ≤ 0xBF) :
    encodeChar (Char.ofNat (v * 0x40 + c.toNat % 0x40)) = [a, b, c] := by
  rw [encodeChar, toNat_ofNat (by omega), if_neg (by omega), if_neg (by omega), if_pos (by omega)]
  congr
  · exact ofNat_eq (by omega)
  · exact ofNat_eq (by omega)
  · exact ofNat_eq (by omega)

/-- The character of four bytes is encoded as these. -/
theorem encodeChar_of_four {a b c d : UInt8} {v w : Nat} (ha : 0xF0 ≤ a.toNat ∧ a.toNat < 0xF5)
    (hb : 0x80 ≤ b.toNat ∧ b.toNat ≤ 0xBF) (hlow : a.toNat = 0xF0 → 0x90 ≤ b.toNat)
    (hhigh : a.toNat = 0xF4 → b.toNat ≤ 0x8F)
    (hv : v = (a.toNat - 0xF0) * 0x40 + b.toNat % 0x40) (hc : 0x80 ≤ c.toNat ∧ c.toNat ≤ 0xBF)
    (hw : w = v * 0x40 + c.toNat % 0x40) (hd : 0x80 ≤ d.toNat ∧ d.toNat ≤ 0xBF) :
    encodeChar (Char.ofNat (w * 0x40 + d.toNat % 0x40)) = [a, b, c, d] := by
  rw [encodeChar, toNat_ofNat (by omega), if_neg (by omega), if_neg (by omega), if_neg (by omega)]
  congr
  · exact ofNat_eq (by omega)
  · exact ofNat_eq (by omega)
  · exact ofNat_eq (by omega)
  · exact ofNat_eq (by omega)

/-- What fits, as bounds on numbers. -/
theorem Partial.Fits.bounds {p : Partial} {b : UInt8} (h : p.Fits b) :
    p.low ≤ b.toNat ∧ b.toNat ≤ p.high ∧ (p.value < 0x360 ∨ 0x37F < p.value) := by
  obtain ⟨hlow, hhigh, hsurrogate⟩ := h
  simp only [isSurrogate, Bool.not_and, Bool.or_eq_true, Bool.not_eq_true', decide_eq_false_iff_not]
    at hsurrogate
  omega

/-- **A character is written as it was read**: its bytes are those that led to it. -/
theorem encodeChar_extend {p : Partial} {b : UInt8} (h : p.Begun) (howed : p.owed = 0)
    (hfits : p.Fits b) : encodeChar (Char.ofNat (p.extend b)) = p.bytes ++ [b] := by
  have hb := hfits.bounds
  -- The lead byte says how many bytes a character has, and no more than that have been read.
  cases h with
  | lead h =>
    obtain ⟨hl, hr, rfl⟩ | ⟨-, -, rfl⟩ | ⟨-, -, rfl⟩ := lead?_eq_some h <;> cases howed
    exact encodeChar_of_two ⟨hl, hr⟩ ⟨hb.1, hb.2.1⟩
  | @next p1 b1 owed h1 howed1 hfits1 =>
    have hb1 := hfits1.bounds
    cases howed
    cases h1 with
    | lead h =>
      obtain ⟨-, -, rfl⟩ | ⟨hl, hr, rfl⟩ | ⟨-, -, rfl⟩ := lead?_eq_some h <;> cases howed1
      simp only at hb1
      exact encodeChar_of_three ⟨hl, hr⟩ (by split at hb1 <;> omega)
        (fun h => by rw [if_pos h] at hb1; exact hb1.1) rfl hb.2.2 ⟨hb.1, hb.2.1⟩
    | @next p2 b2 owed2 h2 howed2 hfits2 =>
      have hb2 := hfits2.bounds
      cases howed1
      cases h2 with
      | lead h =>
        obtain ⟨-, -, rfl⟩ | ⟨-, -, rfl⟩ | ⟨hl, hr, rfl⟩ := lead?_eq_some h <;> cases howed2
        simp only at hb2
        exact encodeChar_of_four ⟨hl, hr⟩ (by split at hb2 <;> split at hb2 <;> omega)
          (fun h => by rw [if_pos h] at hb2; exact hb2.1)
          (fun h => by rw [if_pos h] at hb2; exact hb2.2.1) rfl ⟨hb1.1, hb1.2.1⟩ rfl ⟨hb.1, hb.2.1⟩
      | next h3 howed3 hfits3 =>
        have hle := h3.owed_le
        simp only at howed2
        omega

/-! ## Whole texts -/

/-- The bytes of the character that a state is inside of. -/
def heldBytes (state : Option Partial) : List UInt8 := (state.map Partial.bytes).getD []

/-- A state that reading can be in: at a character or inside of one. -/
def Reachable (state : Option Partial) : Prop := ∀ p ∈ state, p.Begun

/-- No bytes are left open at the start. -/
theorem reachable_none : Reachable none := fun _ h => nomatch h

/-- A result that was changed was there before. -/
theorem exists_of_map_ok {ε α β : Type} {f : α → β} {x : Except ε α} {b : β}
    (h : x.map f = .ok b) : ∃ a, x = .ok a ∧ f a = b := by
  cases x with
  | error e => cases h
  | ok a => exact ⟨a, rfl, Except.ok.inj h⟩

/-- **Bytes are written as they were read.** From every state that reading can be in, the bytes of
the text that was read and of the character that is cut off are those that were there. -/
theorem encode_of_decodeFrom {position : Nat} {state : Option Partial} {bytes : List UInt8}
    {d : Decoded} (hstate : Reachable state) (h : decodeFrom position state bytes = .ok d) :
    heldBytes state ++ bytes = d.text.flatMap encodeChar ++ heldBytes d.cutOff ∧
      Reachable d.cutOff := by
  fun_induction decodeFrom position state bytes generalizing d with
  | case1 position state =>
    cases h
    exact ⟨by simp, hstate⟩
  | case2 position b rest hb ih =>
    obtain ⟨e, he, rfl⟩ := exists_of_map_ok h
    obtain ⟨hrest, hcut⟩ := ih reachable_none he
    refine ⟨?_, hcut⟩
    rw [Decoded.cons, List.flatMap_cons, encodeChar_of_ascii hb, List.append_assoc, ← hrest]
    rfl
  | case3 position b rest hb hlead => cases h
  | case4 position b rest hb p hlead ih =>
    obtain ⟨hrest, hcut⟩ := ih (by rintro q ⟨⟩; exact .lead hlead) h
    refine ⟨?_, hcut⟩
    rw [← hrest, heldBytes, heldBytes, Option.map_some, Option.getD_some, bytes_of_lead? hlead]
    rfl
  | case5 position p b rest hfits howed ih =>
    obtain ⟨e, he, rfl⟩ := exists_of_map_ok h
    obtain ⟨hrest, hcut⟩ := ih reachable_none he
    refine ⟨?_, hcut⟩
    rw [Decoded.cons, List.flatMap_cons, encodeChar_extend (hstate p rfl) howed hfits,
      List.append_assoc, ← hrest]
    simp [heldBytes]
  | case6 position p b rest hfits owed howed ih =>
    obtain ⟨hrest, hcut⟩ := ih (by rintro q ⟨⟩; exact .next (hstate p rfl) howed hfits) h
    refine ⟨?_, hcut⟩
    rw [← hrest]
    simp [heldBytes, Partial.bytes]
  | case7 position p b rest hfits => cases h

/-- The bytes of a text and of a character that is cut off behind it are told apart. -/
theorem encode_of_decodePart {bytes : List UInt8} {d : Decoded} (h : decodePart bytes = .ok d) :
    bytes = d.text.flatMap encodeChar ++ heldBytes d.cutOff ∧ Reachable d.cutOff :=
  encode_of_decodeFrom reachable_none h

/-- A character that is cut off is no text, so nothing may be held back at the end. -/
theorem eq_nil_of_decode_heldBytes {state : Option Partial} (hstate : Reachable state)
    {text : List Char} (h : decode (heldBytes state) = .ok text) : heldBytes state = [] := by
  cases state with
  | none => rfl
  | some p =>
    have hpart : decodePart (heldBytes (some p)) = .ok ⟨[], some p⟩ := by
      have hbytes := decodeFrom_bytes (hstate p rfl) 0 []
      rw [List.append_nil] at hbytes
      exact hbytes.trans (by rw [decodeFrom])
    rw [decode, hpart] at h
    cases h

/-! ## First lines -/

/-- A text that starts with a line: the characters of the line, and then a break or the end. -/
def StartsWithLine (line : List Char) (bytes : List UInt8) : Prop :=
  ∃ rest, bytes = line.flatMap encodeChar ++ rest ∧ ∀ b ∈ rest.head?, b = 0x0A ∨ b = 0x0D

/-- A text that ends a line holds a break. -/
theorem exists_break_of_endsLine {text : List Char} (h : endsLine text) :
    ∃ c ∈ text, isBreak c := by
  fun_induction endsLine text with
  | case1 => cases h
  | case2 c => exact ⟨c, List.mem_singleton_self c, by simp_all [isBreak]⟩
  | case3 c rest hne ih =>
    cases hc : isBreak c with
    | true => exact ⟨c, List.mem_cons_self, hc⟩
    | false =>
      obtain ⟨e, he, hbreak⟩ := ih (by simpa [hc] using h)
      exact ⟨e, List.mem_cons_of_mem c he, hbreak⟩

/-- A text that is all there is, or that has a break in it, starts with its first line. -/
theorem startsWithLine_append {text : List Char} {more : List UInt8}
    (h : (∃ c ∈ text, isBreak c) ∨ more = []) :
    StartsWithLine (Text.firstLine text) (text.flatMap encodeChar ++ more) := by
  have hcut : text = Text.firstLine text ++ text.dropWhile (!isBreak ·) :=
    List.takeWhile_append_dropWhile.symm
  cases hdrop : text.dropWhile (!isBreak ·) with
  | nil =>
    rw [hdrop, List.append_nil] at hcut
    have hmore : more = [] := by
      refine h.resolve_left ?_
      rintro ⟨c, hc, hbreak⟩
      have hall : (Text.firstLine text).all (!isBreak ·) := List.all_takeWhile
      rw [← hcut] at hall
      simpa [hbreak] using List.all_eq_true.1 hall c hc
    exact ⟨[], by rw [← hcut, hmore], fun b hb => nomatch hb⟩
  | cons c rest =>
    have hbreak : isBreak c := by
      have hhead := List.head?_dropWhile_not (!isBreak ·) text
      rw [hdrop] at hhead
      simpa using hhead
    refine ⟨encodeChar c ++ (rest.flatMap encodeChar ++ more), ?_, ?_⟩
    · conv => lhs; rw [hcut, hdrop]
      simp
    · obtain rfl | rfl : c = '\n' ∨ c = '\r' := by simpa [isBreak] using hbreak
      · exact fun b hb => .inl (Option.some.inj hb).symm
      · exact fun b hb => .inr (Option.some.inj hb).symm

/-- The first line of bytes of which some have been read already. -/
theorem startsWithLine_of_firstLineFrom {text : List Char} {pending bytes : List UInt8}
    {line : List Char} (hpending : ∃ state, Reachable state ∧ pending = heldBytes state)
    (h : firstLineFrom text pending bytes = .ok line) :
    StartsWithLine line (text.flatMap encodeChar ++ (pending ++ bytes)) := by
  fun_induction firstLineFrom text pending bytes with
  | case1 text pending =>
    obtain ⟨state, hstate, rfl⟩ := hpending
    obtain ⟨more, hmore, rfl⟩ := exists_of_map_ok h
    exact startsWithLine_append (.inr (by simp [eq_nil_of_decode_heldBytes hstate hmore]))
  | case2 text pending b rest f hf => cases h
  | case3 text pending b rest d hd hends =>
    obtain ⟨hbytes, -⟩ := encode_of_decodePart hd
    cases h
    have hline (more : List UInt8) :
        StartsWithLine (Text.firstLine (text ++ d.text))
          ((text ++ d.text).flatMap encodeChar ++ more) :=
      startsWithLine_append (.inl (exists_break_of_endsLine hends))
    rw [← List.take_append_drop blockSize (b :: rest), ← List.append_assoc pending, hbytes]
    simpa using hline (heldBytes d.cutOff ++ (b :: rest).drop blockSize)
  | case4 text pending b rest d hd hends ih =>
    obtain ⟨hbytes, hcut⟩ := encode_of_decodePart hd
    have hline := ih ⟨d.cutOff, hcut, rfl⟩ h
    rw [← List.take_append_drop blockSize (b :: rest), ← List.append_assoc pending, hbytes]
    simpa [heldBytes] using hline

/-- **The first line that is read is the one that stands first.** -/
theorem startsWithLine_of_firstLine {bytes : List UInt8} {line : List Char}
    (h : firstLine bytes = .ok line) : StartsWithLine line bytes :=
  startsWithLine_of_firstLineFrom ⟨none, reachable_none, rfl⟩ h

end Utf8
end Text
end Ferrotype
