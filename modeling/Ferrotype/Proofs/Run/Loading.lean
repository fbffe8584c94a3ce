/-
# What a configuration file gives

A file that cannot be read, and one that holds something else than an object, are ignored with one
warning. Bytes that are no text, and a text that stops at a long integer, are not ignored: they stop
the run, whatever else the file holds (`load_file`).
-/

import Ferrotype.Config
import Ferrotype.Proofs.Json.Break
import Ferrotype.Proofs.Json.Reading
import Ferrotype.Proofs.Text.Encoded

namespace Ferrotype
namespace Config

/-! ## Texts -/

/-- **What a text gives.** It stops the run or not; a text that does not is an object, another value
or none. -/
theorem ofText_iff (text : List Char) :
    ((∃ digits, ofText text = .error (.longInteger digits)) ↔ Json.Stops text) ∧
      ((∃ members, ofText text = .ok ⟨members, none⟩) ↔
        Json.IsObject text ∧ ¬ Json.Stops text) ∧
      (ofText text = .ok (ignored .noObject) ↔
        Json.IsJson text ∧ ¬ Json.IsObject text ∧ ¬ Json.Stops text) ∧
      ((∃ problem left, ofText text = .ok (ignored (.malformed text problem left))) ↔
        ¬ Json.IsJson text ∧ ¬ Json.Stops text) := by
  have hlong := @Json.read_eq_longInteger_iff text
  have hvalue := @Json.read_eq_ok_iff text
  have hobject := @Json.read_eq_object_iff text
  -- What was read settles the three properties of the text, and with them the four cases.
  cases hread : Json.read text with
  | error fault =>
    cases fault with
    | malformed problem left =>
      have htext : ofText text = .ok (ignored (.malformed text problem left)) := by
        rw [ofText, hread]
      have hruns : ¬ Json.Stops text := fun h => by simpa [hread] using hlong.2 h
      have hnone : ¬ Json.IsJson text := fun h => by simpa [hread] using hvalue.2 ⟨h, hruns⟩
      have hnot : ¬ Json.IsObject text := fun h => by simpa [hread] using hobject.2 ⟨h, hruns⟩
      rw [htext]
      exact ⟨iff_of_false nofun hruns, iff_of_false nofun (hnot ·.1),
        iff_of_false nofun (hnone ·.1), iff_of_true ⟨problem, left, rfl⟩ ⟨hnone, hruns⟩⟩
    | longInteger digits =>
      have htext : ofText text = .error (.longInteger digits) := by rw [ofText, hread]
      have hstops : Json.Stops text := hlong.1 ⟨digits, hread⟩
      rw [htext]
      exact ⟨iff_of_true ⟨digits, rfl⟩ hstops, iff_of_false nofun (·.2 hstops),
        iff_of_false nofun (·.2.2 hstops), iff_of_false nofun (·.2 hstops)⟩
  | ok v =>
    obtain ⟨hjson, hruns⟩ := hvalue.1 ⟨v, hread⟩
    by_cases h : ∃ members, v = .object members
    · obtain ⟨members, rfl⟩ := h
      have htext : ofText text = .ok ⟨members, none⟩ := by rw [ofText, hread]
      have his : Json.IsObject text := (hobject.1 ⟨members, hread⟩).1
      rw [htext]
      exact ⟨iff_of_false nofun hruns, iff_of_true ⟨members, rfl⟩ ⟨his, hruns⟩,
        iff_of_false nofun (·.2.1 his), iff_of_false nofun (·.1 hjson)⟩
    · have htext : ofText text = .ok (ignored .noObject) := by
        cases v with
        | object members => exact absurd ⟨members, rfl⟩ h
        | _ => rw [ofText, hread]
      have hnot : ¬ Json.IsObject text := fun his => by
        obtain ⟨members, hmembers⟩ := hobject.2 ⟨his, hruns⟩
        exact h ⟨members, Except.ok.inj (hread.symm.trans hmembers)⟩
      rw [htext]
      exact ⟨iff_of_false nofun hruns, iff_of_false nofun (hnot ·.1),
        iff_of_true rfl ⟨hjson, hnot, hruns⟩, iff_of_false nofun (·.1 hjson)⟩

/-! ## Files -/

/-- The text of the bytes of a text. -/
theorem textOf_encode (text : String) :
    Files.textOf (Text.Utf8.encode text) = .ok (Text.unifyBreaks text.toList) := by
  have hdecode : Text.Utf8.decode (Text.Utf8.encode text) = .ok text.toList :=
    Text.Utf8.decode_eq_ok_iff.2 rfl
  rw [Files.textOf, hdecode]
  rfl

/-- Bytes have no text if and only if they are those of none. -/
theorem textOf_eq_error_iff {bytes : List UInt8} :
    (∃ fault, Files.textOf bytes = .error fault) ↔ ¬ ∃ text, Text.Utf8.encode text = bytes := by
  constructor
  · rintro ⟨fault, hfault⟩ ⟨text, rfl⟩
    rw [textOf_encode] at hfault
    cases hfault
  · intro hnone
    cases hdecode : Text.Utf8.decode bytes with
    | error fault => exact ⟨fault, by rw [Files.textOf, hdecode]; rfl⟩
    | ok cs =>
      refine absurd ⟨String.ofList cs, ?_⟩ hnone
      rw [Text.Utf8.encode, String.toList_ofList]
      exact Text.Utf8.decode_eq_ok_iff.1 hdecode

/-- A text is no undecodable file. -/
theorem ofText_ne_undecodable (text : List Char) (fault : Text.Utf8.Fault) :
    ofText text ≠ .error (.undecodable fault) := by
  unfold ofText
  split <;> exact nofun

/-- **What a configuration file gives.** A file that cannot be read is ignored with a warning, and
so is one whose text holds no value or a value that is no object. The members of an object are the
configuration. But bytes that are no text stop the run, and so does a text that begins as one that
holds a value, up to an integer of more than 4300 digits. -/
theorem load_file (t : Files.Tree) (p : Files.Path) :
    (∀ e, t.read p = .error e → load t p = .ok (ignored (.unreadable e))) ∧
      ∀ bytes, t.read p = .ok bytes →
        ((∃ fault, load t p = .error (.undecodable fault)) ↔
          ¬ ∃ text, Text.Utf8.encode text = bytes) ∧
        ∀ text, Text.Utf8.encode text = bytes →
          ((∃ digits, load t p = .error (.longInteger digits)) ↔ Json.Stops text.toList) ∧
          ((∃ members, load t p = .ok ⟨members, none⟩) ↔
            Json.IsObject text.toList ∧ ¬ Json.Stops text.toList) ∧
          (load t p = .ok (ignored .noObject) ↔
            Json.IsJson text.toList ∧ ¬ Json.IsObject text.toList ∧ ¬ Json.Stops text.toList) ∧
          ((∃ problem left, load t p =
              .ok (ignored (.malformed (Text.unifyBreaks text.toList) problem left))) ↔
            ¬ Json.IsJson text.toList ∧ ¬ Json.Stops text.toList) := by
  refine ⟨fun e he => by rw [load, he], fun bytes hbytes => ⟨?_, ?_⟩⟩
  · rw [load, hbytes, ← textOf_eq_error_iff]
    simp only
    cases Files.textOf bytes with
    | error fault => exact iff_of_true ⟨fault, rfl⟩ ⟨fault, rfl⟩
    | ok text => exact iff_of_false (fun ⟨fault, h⟩ => ofText_ne_undecodable text fault h) nofun
  · rintro text rfl
    have htext := ofText_iff (Text.unifyBreaks text.toList)
    have hjson : Json.IsJson (Text.unifyBreaks text.toList) ↔ Json.IsJson text.toList :=
      Json.derives_unifyBreaks_iff
    rw [Json.stops_unifyBreaks_iff, Json.isObject_unifyBreaks_iff, hjson] at htext
    rw [load, hbytes]
    simp only [textOf_encode]
    exact htext

/-- A tree of one configuration file. -/
def configTree (bytes : List UInt8) : Files.Tree := ⟨[], [(["rs2ts.json"], .file bytes)]⟩

/-- The path of the file in such a tree. -/
def configTreePath : Files.Path := ⟨.here, ["rs2ts.json"]⟩

/-- The configuration of the tree is its one file. -/
theorem read_configTree (bytes : List UInt8) :
    (configTree bytes).read configTreePath = .ok bytes := rfl

/-- A list that breaks off behind some digits. -/
def brokenList (count : Nat) : String := String.ofList ('[' :: List.replicate count '1')

/-- A list that starts with a long integer stops its reader, closed or not. -/
theorem stops_brokenList {count : Nat} (h : 4300 < count) :
    Json.Stops (brokenList count).toList := by
  have hwhole : Json.Whole (List.replicate count '1') := by
    obtain ⟨n, rfl⟩ := Nat.exists_eq_add_one_of_ne_zero (by omega : count ≠ 0)
    refine .digits (by decide) (by decide) fun d hd => ?_
    rw [List.eq_of_mem_replicate hd]
    decide
  have hends : ¬ Json.GoesOn [] := fun ⟨more, hne, hprefix, _⟩ => hne (List.prefix_nil.1 hprefix)
  have hlong : Json.StartsLong ([] ++ (List.replicate count '1' ++ [])) :=
    .mk (by simp) hwhole (by rwa [List.length_replicate]) hends
  rw [List.nil_append, List.append_nil] at hlong
  exact ⟨['['], _, String.toList_ofList,
    .element Json.blanks_nil (.group (.first (.element Json.blanks_nil .here))), hlong⟩

/-- A stray byte stops the run, and so does a long integer in a list that is never closed. -/
theorem load_file_strayByte :
    (¬ ∃ text, Text.Utf8.encode text = [0xFF]) ∧
      (∃ fault, load (configTree [0xFF]) configTreePath = .error (.undecodable fault)) ∧
      Json.Stops (brokenList 4301).toList ∧
      ∃ digits, load (configTree (Text.Utf8.encode (brokenList 4301))) configTreePath =
        .error (.longInteger digits) := by
  have hnone : ¬ ∃ text, Text.Utf8.encode text = [0xFF] :=
    textOf_eq_error_iff.1 ⟨⟨0, 1, 0xFF, .badStart⟩, rfl⟩
  have hstops := stops_brokenList (by decide : 4300 < 4301)
  have hbyte := (load_file (configTree [0xFF]) configTreePath).2 _ (read_configTree _)
  have hlist := (load_file (configTree (Text.Utf8.encode (brokenList 4301))) configTreePath).2 _
    (read_configTree _)
  exact ⟨hnone, hbyte.1.2 hnone, hstops, (hlist.2 (brokenList 4301) rfl).1.2 hstops⟩

end Config
end Ferrotype
