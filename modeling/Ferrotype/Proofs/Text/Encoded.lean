/-
# What was written is read

Bytes are read as a text if and only if they are its bytes (`decode_eq_ok_iff`), also where they
come in blocks that cut a character off. So the first line that is read off the bytes of a text is
the first line of the text (`firstLine_encode`), and a file is recognized by the line that was
written to it first.
-/

import Ferrotype.Proofs.Text.Utf8

namespace Ferrotype
namespace Text
namespace Utf8

/-! ## One character -/

/-- A number below 256 is a byte. -/
theorem toNat_byte {n : Nat} (h : n < 0x100) : (UInt8.ofNat n).toNat = n := by
  rw [UInt8.toNat_ofNat']
  omega

/-- The states behind the first byte of a character of several bytes. -/
theorem lead?_two {n : Nat} (h : 0x80 ≤ n) (h' : n < 0x800) :
    lead? (UInt8.ofNat (0xC0 + n / 0x40)) =
      some ⟨UInt8.ofNat (0xC0 + n / 0x40), [], n / 0x40, 0, 0x80, 0xBF⟩ := by
  have hb := @toNat_byte (0xC0 + n / 0x40) (by omega)
  simp only [lead?, hb]
  rw [if_neg (by omega), if_pos (by omega)]
  simp

/-- The first byte of three, with what may follow it. -/
theorem lead?_three {n : Nat} (h : 0x800 ≤ n) (h' : n < 0x10000) :
    lead? (UInt8.ofNat (0xE0 + n / 0x1000)) =
      some ⟨UInt8.ofNat (0xE0 + n / 0x1000), [], n / 0x1000, 1,
        if n / 0x1000 = 0 then 0xA0 else 0x80, 0xBF⟩ := by
  have hb := @toNat_byte (0xE0 + n / 0x1000) (by omega)
  simp only [lead?, hb]
  rw [if_neg (by omega), if_neg (by omega), if_pos (by omega)]
  simp

/-- The first byte of four, with what may follow it. -/
theorem lead?_four {n : Nat} (h : 0x10000 ≤ n) (h' : n < 0x110000) :
    lead? (UInt8.ofNat (0xF0 + n / 0x40000)) =
      some ⟨UInt8.ofNat (0xF0 + n / 0x40000), [], n / 0x40000, 2,
        if n / 0x40000 = 0 then 0x90 else 0x80, if n / 0x40000 = 4 then 0x8F else 0xBF⟩ := by
  have hb := @toNat_byte (0xF0 + n / 0x40000) (by omega)
  simp only [lead?, hb]
  rw [if_neg (by omega), if_neg (by omega), if_neg (by omega), if_pos (by omega)]
  have hhigh : 0xF0 + n / 0x40000 = 0xF4 ↔ n / 0x40000 = 4 := by omega
  simp [hhigh]

/-- A byte that goes on with a character. -/
theorem decodeFrom_next {p : Partial} {b : UInt8} {owed : Nat} (howed : p.owed = owed + 1)
    (hfits : p.Fits b) (position : Nat) (rest : List UInt8) :
    decodeFrom position (some p) (b :: rest) =
      decodeFrom position (some ⟨p.first, b :: p.later, p.extend b, owed, 0x80, 0xBF⟩) rest := by
  have hfits' : p.low ≤ b.toNat ∧ b.toNat ≤ p.high ∧ (!p.isSurrogate) = true := hfits
  rw [decodeFrom, if_pos hfits', howed]

/-- The last byte of a character. -/
theorem decodeFrom_last {p : Partial} {b : UInt8} (howed : p.owed = 0) (hfits : p.Fits b)
    (position : Nat) (rest : List UInt8) :
    decodeFrom position (some p) (b :: rest) =
      (decodeFrom (position + p.count + 1) none rest).map
        (.cons (Char.ofNat (p.extend b))) := by
  have hfits' : p.low ≤ b.toNat ∧ b.toNat ≤ p.high ∧ (!p.isSurrogate) = true := hfits
  rw [decodeFrom, if_pos hfits', howed]

/-- The first byte of a character of several bytes. -/
theorem decodeFrom_lead {b : UInt8} {p : Partial} (h : lead? b = some p) (position : Nat)
    (rest : List UInt8) :
    decodeFrom position none (b :: rest) = decodeFrom position (some p) rest := by
  have hb := le_of_lead? h
  rw [decodeFrom, if_neg (by omega), h]

/-- The byte of the last six bits of a number, behind the first byte of a character. -/
def tailByte (n : Nat) : UInt8 := UInt8.ofNat (0x80 + n % 0x40)

/-- The other bytes hold six bits each. -/
theorem toNat_tailByte (n : Nat) : (tailByte n).toNat = 0x80 + n % 0x40 := toNat_byte (by omega)

/-- Such a byte fits if it is in the range and makes up no surrogate. -/
theorem Partial.fits_tailByte {p : Partial} {n : Nat} (hlow : p.low ≤ 0x80 + n % 0x40)
    (hhigh : 0x80 + n % 0x40 ≤ p.high) (hvalue : p.value < 0x360 ∨ 0x37F < p.value) :
    p.Fits (tailByte n) := by
  refine ⟨by rwa [toNat_tailByte], by rwa [toNat_tailByte], ?_⟩
  simp only [isSurrogate, Bool.not_and, Bool.or_eq_true, Bool.not_eq_true',
    decide_eq_false_iff_not]
  omega

/-- It adds six bits to the number. -/
theorem Partial.extend_tailByte (p : Partial) (n : Nat) :
    p.extend (tailByte n) = p.value * 0x40 + n % 0x40 := by
  rw [extend, toNat_tailByte]
  omega

/-- The bytes of a character are read one by one. -/
theorem decodeFrom_two {n : Nat} (h : 0x80 ≤ n) (h' : n < 0x800) (position : Nat)
    (rest : List UInt8) :
    decodeFrom position none (UInt8.ofNat (0xC0 + n / 0x40) :: tailByte n :: rest) =
      (decodeFrom (position + 2) none rest).map (.cons (Char.ofNat n)) := by
  rw [decodeFrom_lead (lead?_two h h'), decodeFrom_last rfl (Partial.fits_tailByte (by simp)
    (by simp; omega) (.inl (by simp; omega))), Partial.extend_tailByte]
  rw [show n / 0x40 * 0x40 + n % 0x40 = n by omega]
  rfl

/-- Three bytes are decoded as their character. -/
theorem decodeFrom_three {n : Nat} (h : 0x800 ≤ n) (h' : n < 0x10000)
    (hvalid : n < 0xD800 ∨ 0xDFFF < n) (position : Nat) (rest : List UInt8) :
    decodeFrom position none
        (UInt8.ofNat (0xE0 + n / 0x1000) :: tailByte (n / 0x40) :: tailByte n :: rest) =
      (decodeFrom (position + 3) none rest).map (.cons (Char.ofNat n)) := by
  rw [decodeFrom_lead (lead?_three h h'), decodeFrom_next rfl
      (Partial.fits_tailByte (by simp; split <;> omega) (by simp; omega) (.inl (by simp; omega))),
    Partial.extend_tailByte]
  have hvalue : n / 0x1000 * 0x40 + n / 0x40 % 0x40 = n / 0x40 := by omega
  rw [hvalue, decodeFrom_last rfl
      (Partial.fits_tailByte (by simp) (by simp; omega) (by simp; omega)),
    Partial.extend_tailByte]
  rw [show n / 0x40 * 0x40 + n % 0x40 = n by omega]
  rfl

/-- Four bytes are decoded as their character. -/
theorem decodeFrom_four {n : Nat} (h : 0x10000 ≤ n) (h' : n < 0x110000) (position : Nat)
    (rest : List UInt8) :
    decodeFrom position none (UInt8.ofNat (0xF0 + n / 0x40000) :: tailByte (n / 0x1000) ::
        tailByte (n / 0x40) :: tailByte n :: rest) =
      (decodeFrom (position + 4) none rest).map (.cons (Char.ofNat n)) := by
  rw [decodeFrom_lead (lead?_four h h'), decodeFrom_next rfl
      (Partial.fits_tailByte (by simp; split <;> omega) (by simp; split <;> omega)
        (.inl (by simp; omega))),
    Partial.extend_tailByte]
  have hvalue : n / 0x40000 * 0x40 + n / 0x1000 % 0x40 = n / 0x1000 := by omega
  rw [hvalue, decodeFrom_next rfl
      (Partial.fits_tailByte (by simp) (by simp; omega) (.inl (by simp; omega))),
    Partial.extend_tailByte]
  have hvalue : n / 0x1000 * 0x40 + n / 0x40 % 0x40 = n / 0x40 := by omega
  rw [hvalue, decodeFrom_last rfl
      (Partial.fits_tailByte (by simp) (by simp; omega) (.inr (by simp; omega))),
    Partial.extend_tailByte]
  rw [show n / 0x40 * 0x40 + n % 0x40 = n by omega]
  rfl

/-- **A character is read as it was written**, whatever follows it. -/
theorem decodeFrom_encodeChar (c : Char) (position : Nat) (rest : List UInt8) :
    decodeFrom position none (encodeChar c ++ rest) =
      (decodeFrom (position + (encodeChar c).length) none rest).map (.cons c) := by
  have hc : Char.ofNat c.toNat = c := Char.ofNat_toNat c
  have hvalid : c.toNat < 0xD800 ∨ 0xDFFF < c.toNat ∧ c.toNat < 0x110000 := c.valid
  simp only [encodeChar]
  split
  · have hb := @toNat_byte c.toNat (by omega)
    rw [List.singleton_append, decodeFrom, if_pos (by omega), hb, hc]
    rfl
  · split
    · have htwo := @decodeFrom_two c.toNat (by omega) (by omega) position rest
      rwa [hc] at htwo
    · split
      · have hthree := @decodeFrom_three c.toNat (by omega) (by omega) (by omega) position rest
        rwa [hc] at hthree
      · have hfour := @decodeFrom_four c.toNat (by omega) (by omega) position rest
        rwa [hc] at hfour

/-! ## Whole texts -/

/-- The bytes of characters in front of others are read as these characters. -/
theorem decodeFrom_append (cs : List Char) (position : Nat) (rest : List UInt8) :
    ∃ position', decodeFrom position none (cs.flatMap encodeChar ++ rest) =
      (decodeFrom position' none rest).map fun d => ⟨cs ++ d.text, d.cutOff⟩ := by
  induction cs generalizing position with
  | nil =>
    refine ⟨position, ?_⟩
    rw [List.flatMap_nil, List.nil_append]
    cases decodeFrom position none rest <;> rfl
  | cons c cs ih =>
    obtain ⟨position', h⟩ := ih (position + (encodeChar c).length)
    refine ⟨position', ?_⟩
    rw [List.flatMap_cons, List.append_assoc, decodeFrom_encodeChar, h]
    cases decodeFrom position' none rest <;> rfl

/-- **Texts are read as they were written.** -/
theorem decodeFrom_encode (cs : List Char) (position : Nat) :
    decodeFrom position none (cs.flatMap encodeChar) = .ok ⟨cs, none⟩ := by
  obtain ⟨position', h⟩ := decodeFrom_append cs position []
  rw [List.append_nil, decodeFrom] at h
  rw [h]
  simp [Except.map]

/-- **Bytes are read as a text if and only if they are its bytes.** -/
theorem decode_eq_ok_iff {bytes : List UInt8} {cs : List Char} :
    decode bytes = .ok cs ↔ cs.flatMap encodeChar = bytes := by
  constructor
  · intro h
    rw [decode] at h
    split at h
    · cases h
    · rename_i d hd
      split at h
      · rename_i hcut
        cases h
        have hbytes := (encode_of_decodePart hd).1
        rw [hcut] at hbytes
        exact (hbytes.trans (List.append_nil _)).symm
      · cases h
  · rintro rfl
    have hpart : decodePart (cs.flatMap encodeChar) = .ok ⟨cs, none⟩ := decodeFrom_encode cs 0
    rw [decode, hpart]

/-- What can be read can be read in part. -/
theorem exists_decodeFrom_of_append {position : Nat} {state : Option Partial}
    {part more : List UInt8} {d : Decoded} (h : decodeFrom position state (part ++ more) = .ok d) :
    ∃ d', decodeFrom position state part = .ok d' := by
  fun_induction decodeFrom position state part generalizing d with
  | case1 position state => exact ⟨_, rfl⟩
  | case2 position b rest hb ih =>
    rw [List.cons_append, decodeFrom, if_pos hb] at h
    obtain ⟨e, he, -⟩ := exists_of_map_ok h
    obtain ⟨e', he'⟩ := ih he
    exact ⟨_, by rw [he']; rfl⟩
  | case3 position b rest hb hlead =>
    rw [List.cons_append, decodeFrom, if_neg hb, hlead] at h
    cases h
  | case4 position b rest hb p hlead ih =>
    rw [List.cons_append, decodeFrom, if_neg hb, hlead] at h
    exact ih h
  | case5 position p b rest hfits howed ih =>
    rw [List.cons_append, decodeFrom, if_pos hfits, howed] at h
    obtain ⟨e, he, -⟩ := exists_of_map_ok h
    obtain ⟨e', he'⟩ := ih he
    exact ⟨_, by rw [he']; rfl⟩
  | case6 position p b rest hfits owed howed ih =>
    rw [List.cons_append, decodeFrom, if_pos hfits, howed] at h
    exact ih h
  | case7 position p b rest hfits =>
    rw [List.cons_append, decodeFrom, if_neg hfits] at h
    cases h

/-- **The bytes of a text are read up to any point**: the characters before it, and what is held
back there goes on with what is left of the text. -/
theorem decodePart_of_encode {cs : List Char} {part more : List UInt8}
    (h : part ++ more = cs.flatMap encodeChar) :
    ∃ d rest, decodePart part = .ok d ∧ Reachable d.cutOff ∧ cs = d.text ++ rest ∧
      heldBytes d.cutOff ++ more = rest.flatMap encodeChar := by
  obtain ⟨d, hd⟩ := exists_decodeFrom_of_append ((congrArg _ h).trans (decodeFrom_encode cs 0))
  obtain ⟨hpart, hreachable⟩ := encode_of_decodePart hd
  -- Both texts are read off the same bytes, one of them as far as it goes.
  have hbytes : cs.flatMap encodeChar =
      d.text.flatMap encodeChar ++ (heldBytes d.cutOff ++ more) := by
    rw [← h, hpart, List.append_assoc]
  obtain ⟨position, hread⟩ := decodeFrom_append d.text 0 (heldBytes d.cutOff ++ more)
  rw [← hbytes, decodeFrom_encode] at hread
  obtain ⟨e, he, heq⟩ := exists_of_map_ok hread.symm
  obtain ⟨hcs, hcut⟩ := Decoded.mk.inj heq
  refine ⟨d, e.text, hd, hreachable, hcs.symm, ?_⟩
  have hrest := (encode_of_decodeFrom reachable_none he).1
  rw [hcut] at hrest
  simpa [heldBytes] using hrest

/-! ## First lines -/

/-- Every character has a byte. -/
theorem encodeChar_ne_nil (c : Char) : encodeChar c ≠ [] := by
  intro h
  have hread := decodeFrom_encodeChar c 0 []
  rw [h, List.nil_append, decodeFrom] at hread
  cases hread

/-- Only the empty text has no bytes. -/
theorem eq_nil_of_flatMap_encodeChar {cs : List Char} (h : cs.flatMap encodeChar = []) :
    cs = [] := by
  cases cs with
  | nil => rfl
  | cons c cs =>
    rw [List.flatMap_cons, List.append_eq_nil_iff] at h
    exact absurd h.1 (encodeChar_ne_nil c)

/-- A line that ends in the part of a text that was read ends there. -/
theorem firstLine_append {text : List Char} (h : ∃ c ∈ text, isBreak c) (more : List Char) :
    Text.firstLine (text ++ more) = Text.firstLine text := by
  obtain ⟨c, hc, hbreak⟩ := h
  rw [Text.firstLine, Text.firstLine, List.takeWhile_append, if_neg]
  intro hlength
  have hself := (List.takeWhile_prefix (!isBreak ·)).eq_of_length hlength
  have hall : (text.takeWhile (!isBreak ·)).all (!isBreak ·) := List.all_takeWhile
  rw [hself] at hall
  simpa [hbreak] using List.all_eq_true.1 hall c hc

/-- The first line of a text of which the start has been read already. -/
theorem firstLineFrom_encode {text rest : List Char} {pending bytes : List UInt8}
    (hpending : ∃ state, Reachable state ∧ pending = heldBytes state)
    (h : pending ++ bytes = rest.flatMap encodeChar) :
    firstLineFrom text pending bytes = .ok (Text.firstLine (text ++ rest)) := by
  fun_induction firstLineFrom text pending bytes generalizing rest with
  | case1 text pending =>
    -- At the end nothing is held back, since what was written are whole characters.
    obtain ⟨state, hstate, rfl⟩ := hpending
    rw [List.append_nil] at h
    have hdecode : decode (heldBytes state) = .ok rest := by
      rw [h, decode, decodePart, decodeFrom_encode]
    have hnil := eq_nil_of_decode_heldBytes hstate hdecode
    rw [hnil] at h
    rw [eq_nil_of_flatMap_encodeChar h.symm, hnil, List.append_nil]
    rfl
  | case2 text pending b bytes f hf =>
    rw [← List.take_append_drop blockSize (b :: bytes), ← List.append_assoc] at h
    obtain ⟨d, -, hd, -⟩ := decodePart_of_encode h
    rw [hf] at hd
    cases hd
  | case3 text pending b bytes d hd hends =>
    rw [← List.take_append_drop blockSize (b :: bytes), ← List.append_assoc] at h
    obtain ⟨d', rest', hd', -, rfl, -⟩ := decodePart_of_encode h
    rw [hd] at hd'
    cases hd'
    rw [← List.append_assoc, firstLine_append (exists_break_of_endsLine hends)]
  | case4 text pending b bytes d hd hends ih =>
    rw [← List.take_append_drop blockSize (b :: bytes), ← List.append_assoc] at h
    obtain ⟨d', rest', hd', hreachable, rfl, hmore⟩ := decodePart_of_encode h
    rw [hd] at hd'
    cases hd'
    rw [ih ⟨d.cutOff, hreachable, rfl⟩ hmore, List.append_assoc]

/-- **The first line that is read of a text is its first line**, whatever stands behind it. -/
theorem firstLine_encode (text : String) :
    firstLine (encode text) = .ok (Text.firstLine text.toList) :=
  firstLineFrom_encode ⟨none, reachable_none, rfl⟩ rfl

end Utf8
end Text
end Ferrotype
