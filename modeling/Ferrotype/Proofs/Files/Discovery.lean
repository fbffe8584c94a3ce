/-
# The Rust files of a folder

A file system has one thing at each place, no file that is a folder, too, and nothing with the name
that leads up. In such a tree a folder has each Rust file under it once, at any depth, in the order
of the names on the way to it (`isListing_rustFiles`), and each of their paths leads to the file.

A file can be taken out of the tree, so that the folder around it stays. All paths that do not lead
to it lead where they have led before (`find_remove`), and it is missing from the listings of the
folders around it (`rustFiles_remove`).
-/

import Ferrotype.Proofs.Files.Writing
import Mathlib.Data.List.Nodup

namespace Ferrotype
namespace Files
namespace Tree

/-! ## Trees of a file system -/

/-- Whether a file system can have a tree. -/
structure IsWellFormed (t : Tree) : Prop where
  distinct : (t.entries.map (·.1)).Nodup
  files : ∀ e ∈ t.entries, e.2 ≠ .folder → ¬ t.isFolder e.1
  names : ∀ e ∈ t.entries, ".." ∉ e.1

/-- In a tree without two entries for one place a file is found exactly where there is an entry for
it. -/
theorem file?_eq_some_iff {t : Tree} (ht : t.IsWellFormed) {place : Place} {bytes : List UInt8} :
    t.file? place = some bytes ↔ (place, .file bytes) ∈ t.entries := by
  refine ⟨mem_entries_of_file?, fun h => ?_⟩
  obtain ⟨before, after, hentries⟩ := List.append_of_mem h
  have hdistinct := ht.distinct
  rw [hentries, List.map_append, List.map_cons, List.nodup_append] at hdistinct
  have hlookup : t.entries.lookup place = some (.file bytes) :=
    List.lookup_eq_some_iff.2 ⟨before, after, hentries, fun e he => bne_iff_ne.2
      (hdistinct.2.2 e.1 (List.mem_map_of_mem he) place List.mem_cons_self).symm⟩
  simp only [file?, hlookup]

/-- Where a file is, no folder is. -/
theorem IsWellFormed.isFolder_eq_false {t : Tree} (ht : t.IsWellFormed) {place : Place}
    {bytes : List UInt8} (h : t.file? place = some bytes) : t.isFolder place = false :=
  Bool.eq_false_iff.2 (ht.files _ (mem_entries_of_file? h) Entry.noConfusion)

/-- Where a folder is, no file is. -/
theorem IsWellFormed.file?_eq_none {t : Tree} (ht : t.IsWellFormed) {place : Place}
    (h : t.isFolder place) : t.file? place = none := by
  cases hfile : t.file? place with
  | none => rfl
  | some bytes =>
    rw [ht.isFolder_eq_false hfile] at h
    cases h

/-! ## The order of names -/

/-- Names stand in the order of lists, which compares name by name. -/
theorem precedes_iff {as bs : List String} : precedes as bs ↔ as < bs ∨ as = bs := by
  fun_induction precedes as bs with
  | case1 bs => cases bs <;> simp
  | case2 a as => simp
  | case3 as b bs ih => rw [ih, List.cons_lt_cons_self, List.cons_inj_right]
  | case4 a as b bs h => simp [List.cons_lt_cons_iff, h]

/-- The order in which paths are sorted is transitive. -/
theorem precedes_trans {as bs cs : List String} (h : precedes as bs) (h' : precedes bs cs) :
    precedes as cs := by
  rw [precedes_iff] at h h' ⊢
  rcases h with h | rfl
  · rcases h' with h' | rfl
    · exact .inl (List.lt_trans h h')
    · exact .inl h
  · exact h'

/-- Of two paths one comes first. -/
theorem precedes_total (as bs : List String) : precedes as bs || precedes bs as := by
  rw [Bool.or_eq_true, precedes_iff, precedes_iff]
  exact (List.le_total as bs).imp List.le_iff_lt_or_eq.1 List.le_iff_lt_or_eq.1

/-- Paths in the order of their names are known by their members. -/
theorem eq_of_sorted_names {ps qs : List Path} (hps : ps.Pairwise (·.names < ·.names))
    (hqs : qs.Pairwise (·.names < ·.names)) (h : ∀ p, p ∈ ps ↔ p ∈ qs) : ps = qs := by
  have hnodup {rs : List Path} (hrs : rs.Pairwise (·.names < ·.names)) : rs.Nodup :=
    hrs.imp fun {a b} hlt (heq : a = b) => List.lt_irrefl _ (heq ▸ hlt)
  have hperm : ps.Perm qs := (List.perm_ext_iff_of_nodup (hnodup hps) (hnodup hqs)).2 h
  refine hperm.eq_of_pairwise (fun _ _ _ _ hlt hgt => ?_) hps hqs
  exact absurd (List.lt_trans hlt hgt) (List.lt_irrefl _)

/-! ## Listings -/

/-- A place and the names below it give back the place of a file. -/
theorem namesBelow_eq_some_iff {place : Place} {e : Place × Entry} {names : List String} :
    namesBelow place e = some names ↔ names ≠ [] ∧ ∃ bytes, e = (place ++ names, .file bytes) := by
  constructor
  · intro h
    obtain ⟨q, entry⟩ := e
    cases entry with
    | folder => cases h
    | file bytes =>
      simp only [namesBelow, Option.ite_none_right_eq_some, Option.some.injEq] at h
      obtain ⟨⟨habove, hne⟩, rfl⟩ := h
      obtain ⟨names, rfl⟩ := List.isPrefixOf_iff_prefix.1 habove
      rw [List.drop_left]
      exact ⟨fun hnil => hne (by rw [hnil, List.append_nil]), bytes, rfl⟩
  · rintro ⟨hne, bytes, rfl⟩
    simp [namesBelow, hne]

/-- What is found below a place are the files whose names go on with those of the place. -/
theorem mem_filesBelow {t : Tree} {place : Place} {names : List String} :
    names ∈ t.filesBelow place ↔
      names ≠ [] ∧ ∃ bytes, (place ++ names, .file bytes) ∈ t.entries := by
  simp only [filesBelow, List.mem_filterMap, namesBelow_eq_some_iff]
  constructor
  · rintro ⟨e, he, hne, bytes, rfl⟩
    exact ⟨hne, bytes, he⟩
  · rintro ⟨hne, bytes, he⟩
    exact ⟨_, he, hne, bytes, rfl⟩

/-- No file is found twice below a place. -/
theorem nodup_filesBelow {t : Tree} (ht : t.IsWellFormed) (place : Place) :
    (t.filesBelow place).Nodup := by
  rw [filesBelow, List.Nodup, List.pairwise_filterMap]
  refine (List.pairwise_map.1 ht.distinct).imp fun {e e'} hne names hnames names' hnames' heq => ?_
  obtain ⟨-, bytes, rfl⟩ := namesBelow_eq_some_iff.1 hnames
  obtain ⟨-, bytes', rfl⟩ := namesBelow_eq_some_iff.1 hnames'
  exact hne (congrArg (place ++ ·) heq)

/-- The paths of the Rust files under a place to which a path leads: each one, in the order of the
names, and none twice. -/
structure IsListing (t : Tree) (p : Path) (place : Place) (ps : List Path) : Prop where
  mem : ∀ q, q ∈ ps ↔ ∃ names bytes, q = p.below names ∧ names ≠ [] ∧ isRustPlace names ∧
    t.file? (place ++ names) = some bytes
  sorted : ps.Pairwise (·.names < ·.names)

/-- **A folder has each Rust file under it once, in the order of names.** -/
theorem isListing_rustFiles {t : Tree} (ht : t.IsWellFormed) {p : Path} {place : Place}
    (hp : t.place? p = .ok place) : IsListing t p place (t.rustFiles p) := by
  have hrust : t.rustFiles p =
      (((t.filesBelow place).filter isRustPlace).mergeSort precedes).map p.below := by
    simp only [rustFiles, hp]
  rw [hrust]
  have hperm := List.mergeSort_perm ((t.filesBelow place).filter isRustPlace) precedes
  constructor
  · intro q
    simp only [List.mem_map, hperm.mem_iff, List.mem_filter, mem_filesBelow, file?_eq_some_iff ht]
    constructor
    · rintro ⟨names, ⟨⟨hne, bytes, he⟩, hnames⟩, rfl⟩
      exact ⟨names, bytes, rfl, hne, hnames, he⟩
    · rintro ⟨names, bytes, rfl, hne, hnames, he⟩
      exact ⟨names, ⟨⟨hne, bytes, he⟩, hnames⟩, rfl⟩
  · have hsorted : (((t.filesBelow place).filter isRustPlace).mergeSort precedes).Pairwise
        fun names names' => precedes names names' :=
      @List.pairwise_mergeSort _ precedes (fun _ _ _ => precedes_trans) precedes_total _
    have hnodup : (((t.filesBelow place).filter isRustPlace).mergeSort precedes).Nodup :=
      hperm.nodup_iff.2 ((nodup_filesBelow ht place).filter _)
    rw [List.pairwise_map]
    refine (hsorted.and hnodup).imp fun {names names'} h => List.append_left_lt ?_
    exact (precedes_iff.1 h.1).resolve_right h.2

/-- A path is found where it leads to a place that has an entry. -/
theorem find_eq_ok_iff {t : Tree} {p : Path} {e : Entry} :
    t.find p = .ok e ↔ ∃ place, t.place? p = .ok place ∧ t.entry? place = some e := by
  refine ⟨exists_place_of_find, ?_⟩
  rintro ⟨place, hplace, he⟩
  simp only [find, hplace, he]

/-- A path that leads to a file is found as that file. -/
theorem find_of_file? {t : Tree} {p : Path} {place : Place} {bytes : List UInt8}
    (hp : t.place? p = .ok place) (hfile : t.file? place = some bytes) :
    t.find p = .ok (.file bytes) :=
  find_eq_ok_iff.2 ⟨place, hp, by simp only [hfile, entry?]⟩

/-- The path of a file that is listed leads to the file. -/
theorem find_below {t : Tree} (ht : t.IsWellFormed) {p : Path} {place : Place}
    (hp : t.place? p = .ok place) {names : List String} {bytes : List UInt8}
    (hfile : t.file? (place ++ names) = some bytes) :
    t.place? (p.below names) = .ok (place ++ names) ∧
      t.find (p.below names) = .ok (.file bytes) := by
  have hdots : ".." ∉ names := fun hmem =>
    ht.names _ (mem_entries_of_file? hfile) (List.mem_append_right place hmem)
  have hplace : t.place? (p.below names) = .ok (place ++ names) :=
    (follow_append names hp).trans (follow_of_file? hdots hfile)
  exact ⟨hplace, find_of_file? hplace hfile⟩

/-! ## Taking a file out -/

/-- A folder is one that the current place is in, one that holds an entry, or one that is an
entry. -/
theorem isFolder_iff {t : Tree} {place : Place} :
    t.isFolder place ↔
      place <+: t.here ∨ ∃ e ∈ t.entries, place <+: e.1 ∧ (e.1 ≠ place ∨ e.2 = .folder) := by
  simp [isFolder, holds, List.any_eq_true, List.isPrefixOf_iff_prefix]

/-- The tree without what stands at a place; the folder around it stays. -/
def remove (t : Tree) (place : Place) : Tree :=
  put ⟨t.here, t.entries.filter (·.1 ≠ place)⟩ place.dropLast .folder

/-- A file that is removed is gone. -/
theorem file?_remove_self (t : Tree) (place : Place) : (t.remove place).file? place = none := by
  cases hfile : (t.remove place).file? place with
  | none => rfl
  | some bytes =>
    have hmem := mem_entries_of_file? hfile
    simp [remove, put] at hmem

section Removal

variable {t : Tree} (ht : t.IsWellFormed) {place : Place} {bytes : List UInt8}
  (hplace : t.file? place = some bytes)
include ht hplace

/-- The folder of a file has fewer names than the file. -/
theorem length_dropLast_of_file? : place.dropLast.length < place.length := by
  rw [List.length_dropLast]
  refine Nat.sub_one_lt fun hlength => ?_
  obtain rfl := List.length_eq_zero_iff.1 hlength
  have hfolder := ht.isFolder_eq_false hplace
  rw [isFolder_root] at hfolder
  cases hfolder

/-- The folder around a file. -/
theorem isFolder_dropLast : t.isFolder place.dropLast :=
  isFolder_iff.2 (.inr ⟨_, mem_entries_of_file? hplace, List.dropLast_prefix place, .inl fun h =>
    Nat.ne_of_gt (length_dropLast_of_file? ht hplace) (congrArg List.length h)⟩)

/-- No other file is another one. -/
theorem file?_remove_of_ne {q : Place} (hq : q ≠ place) :
    (t.remove place).file? q = t.file? q := by
  have hothers {r : Place} (hr : r ≠ place) :
      Tree.file? ⟨t.here, t.entries.filter (·.1 ≠ place)⟩ r = t.file? r := by
    simp only [file?, lookup_filter_ne hr]
  have hfolder : place.dropLast ≠ place := fun h =>
    Nat.ne_of_lt (length_dropLast_of_file? ht hplace) (congrArg List.length h)
  rw [remove, file?_put_folder _ q, hothers hq]
  rw [hothers hfolder]
  exact ht.file?_eq_none (isFolder_dropLast ht hplace)

/-- No folder is lost. -/
theorem isFolder_remove (q : Place) : (t.remove place).isFolder q = t.isFolder q := by
  rw [Bool.eq_iff_iff, isFolder_iff, isFolder_iff]
  refine or_congr_right ⟨?_, ?_⟩
  · rintro ⟨e, he, habove, hkind⟩
    rcases List.mem_cons.1 he with rfl | he
    · refine ⟨_, mem_entries_of_file? hplace, habove.trans (List.dropLast_prefix place), .inl ?_⟩
      rintro rfl
      exact Nat.not_lt.2 habove.length_le (length_dropLast_of_file? ht hplace)
    · exact ⟨e, List.mem_of_mem_filter (List.mem_of_mem_filter he), habove, hkind⟩
  · rintro ⟨e, he, habove, hkind⟩
    by_cases hfolder : q <+: place.dropLast
    · exact ⟨_, List.mem_cons_self, hfolder, .inr rfl⟩
    · have hparent : e.1 ≠ place.dropLast := fun h => hfolder (h ▸ habove)
      have hfile : e.1 ≠ place := by
        rintro rfl
        -- Only the place itself lies above the file but not above the folder around it.
        have hq : q = e.1 := by
          refine habove.eq_of_length_le (Nat.le_of_not_lt fun hlt => hfolder ?_)
          refine List.prefix_of_prefix_length_le habove (List.dropLast_prefix e.1) ?_
          rw [List.length_dropLast]
          omega
        have hentry := hkind.resolve_left fun h => h hq.symm
        exact ht.files _ (mem_entries_of_file? hplace) Entry.noConfusion
          (isFolder_iff.2 (.inr ⟨e, he, List.prefix_refl _, .inr hentry⟩))
      refine ⟨e, List.mem_cons_of_mem _ ?_, habove, hkind⟩
      simp [he, hfile, hparent]

/-- Removing a file keeps a tree well-formed. -/
theorem IsWellFormed.remove : (t.remove place).IsWellFormed where
  distinct := by
    refine List.nodup_cons.2 ⟨?_, ?_⟩
    · simp
    · have hsub : ((t.entries.filter (·.1 ≠ place)).filter (·.1 ≠ place.dropLast)).Sublist
          t.entries := List.filter_sublist.trans List.filter_sublist
      exact ht.distinct.sublist (hsub.map _)
  files := by
    intro e he hkind
    rw [isFolder_remove ht hplace]
    rcases List.mem_cons.1 he with rfl | he
    · exact absurd rfl hkind
    · exact ht.files e (List.mem_of_mem_filter (List.mem_of_mem_filter he)) hkind
  names := by
    intro e he
    rcases List.mem_cons.1 he with rfl | he
    · exact fun h => ht.names _ (mem_entries_of_file? hplace)
        ((List.dropLast_sublist place).subset h)
    · exact ht.names e (List.mem_of_mem_filter (List.mem_of_mem_filter he))

/-- Every way leads where it has led. -/
theorem follow_remove {q r : Place} {names : List String} :
    (t.remove place).follow q names = .ok r ↔ t.follow q names = .ok r := by
  induction names generalizing q with
  | nil => rfl
  | cons name names ih =>
    rw [follow, follow, isFolder_remove ht hplace]
    split
    · exact ih
    · simp

/-- Paths lead to the same places when a file is removed. -/
theorem place?_remove {p : Path} {r : Place} :
    (t.remove place).place? p = .ok r ↔ t.place? p = .ok r := by
  have hstart : (t.remove place).startPlace p.start = t.startPlace p.start := by
    cases p.start <;> rfl
  rw [place?, place?, hstart]
  exact follow_remove ht hplace

/-- Paths that do not lead to the file lead to what they have led to. -/
theorem find_remove {p : Path} (hp : t.place? p ≠ .ok place) {e : Entry} :
    (t.remove place).find p = .ok e ↔ t.find p = .ok e := by
  simp only [find_eq_ok_iff, place?_remove ht hplace]
  refine exists_congr fun r => and_congr_right fun hr => ?_
  have hne : r ≠ place := fun h => hp (h ▸ hr)
  unfold entry?
  rw [file?_remove_of_ne ht hplace hne, isFolder_remove ht hplace]

/-- The file is missing from the listings of the folders around it, and nothing else. -/
theorem rustFiles_remove {p : Path} {folder : Place} (hp : t.place? p = .ok folder) :
    (t.remove place).rustFiles p = (t.rustFiles p).filter fun q => t.place? q ≠ .ok place := by
  have hbefore := isListing_rustFiles ht hp
  have hafter := isListing_rustFiles (ht.remove hplace) ((place?_remove ht hplace).2 hp)
  refine eq_of_sorted_names hafter.sorted (hbefore.sorted.filter _) fun q => ?_
  rw [List.mem_filter, hafter.mem, hbefore.mem, decide_eq_true_iff]
  constructor
  · rintro ⟨names, content, rfl, hne, hrust, hfile⟩
    have hother : folder ++ names ≠ place := fun h => by
      rw [h, file?_remove_self] at hfile
      cases hfile
    rw [file?_remove_of_ne ht hplace hother] at hfile
    refine ⟨⟨names, content, rfl, hne, hrust, hfile⟩, ?_⟩
    rw [(find_below ht hp hfile).1]
    exact fun h => hother (Except.ok.inj h)
  · rintro ⟨⟨names, content, rfl, hne, hrust, hfile⟩, hother⟩
    rw [(find_below ht hp hfile).1] at hother
    refine ⟨names, content, rfl, hne, hrust, ?_⟩
    rw [file?_remove_of_ne ht hplace fun h => hother (congrArg _ h), hfile]

end Removal

end Tree
end Files
end Ferrotype
