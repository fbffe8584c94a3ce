/-
# Reading and writing after a file was written

Where a file was written, folders may have been made around it. Every other file is as before, but
a path may lead somewhere now that led nowhere then: through a new folder and, by two dots, out of
it again. A path without such a way leads to the files that it has led to (`find_of_find`), and a
folder has the same Rust files under it unless the file that was written is one of them
(`filesBelow_rust`).

Writing the same bytes to the same path again changes nothing at all (`write_again`).
-/

import Ferrotype.Proofs.Files.Discovery

namespace Ferrotype
namespace Files
namespace Tree

/-! ## Folders around a place -/

/-- All around a folder are folders. -/
theorem isFolder_of_prefix {t : Tree} {q place : Place} (hq : t.isFolder q) (h : place <+: q) :
    t.isFolder place := by
  rw [isFolder_iff] at hq ⊢
  refine hq.imp h.trans ?_
  rintro ⟨e, he, habove, hkind⟩
  refine ⟨e, he, h.trans habove, hkind.imp_left fun hne heq => hne ?_⟩
  exact (heq.trans (h.eq_of_length_le (heq ▸ habove.length_le))).trans rfl

/-- All around a file are folders. -/
theorem isFolder_of_file? {t : Tree} {q place : Place} {bytes : List UInt8}
    (hq : t.file? q = some bytes) (h : place <+: q) (hne : place ≠ q) : t.isFolder place :=
  isFolder_iff.2 (.inr ⟨_, mem_entries_of_file? hq, h, .inl hne.symm⟩)

/-! ## What a written file changes -/

/-- What is the same, and what is new, where a file is written to a place. -/
structure Gains (t t' : Tree) (place : Place) : Prop where
  here : t'.here = t.here
  file : (t'.file? place).isSome
  others (q : Place) : q ≠ place → t'.file? q = t.file? q
  isFolder (q : Place) : t.isFolder q → t'.isFolder q
  isFile : t'.isFolder place = false
  rust (q : Place) : (∀ names, place = q ++ names → isRustPlace names = false) →
    (t'.filesBelow q).filter isRustPlace = (t.filesBelow q).filter isRustPlace

/-- An entry that is no Rust file changes no listing, nor does what has stood at its place. -/
theorem filesBelow_put {t : Tree} {q place : Place} (e : Entry)
    (h : ∀ names, place = q ++ names → isRustPlace names = false) :
    ((t.put place e).filesBelow q).filter isRustPlace =
      (t.filesBelow q).filter isRustPlace := by
  have hnone (x : Place × Entry) (hx : x.1 = place) :
      (namesBelow q x).filter isRustPlace = none := by
    cases hnames : namesBelow q x with
    | none => rfl
    | some names =>
      obtain ⟨-, bytes, rfl⟩ := namesBelow_eq_some_iff.1 hnames
      simp [h names hx.symm]
  rw [filesBelow, filesBelow, List.filter_filterMap, List.filter_filterMap, put,
    List.filterMap_cons, hnone (place, e) rfl, List.filterMap_filter]
  refine List.filterMap_congr fun x _ => ?_
  by_cases hx : x.1 = place
  · simp [hx, hnone x hx]
  · simp [hx]

/-! ## Folders that are made -/

/-- Whether every file of a tree can be found, so that no entry hides another one. -/
def ShowsFiles (t : Tree) : Prop :=
  ∀ place bytes, (place, .file bytes) ∈ t.entries → t.file? place = some bytes

/-- A well-formed tree hides no file behind another entry of its place. -/
theorem IsWellFormed.showsFiles {t : Tree} (ht : t.IsWellFormed) : t.ShowsFiles :=
  fun _ _ => (file?_eq_some_iff ht).2

/-- A folder that is put into a tree hides no file. -/
theorem ShowsFiles.put_folder {t : Tree} (ht : t.ShowsFiles) (place : Place) :
    (t.put place .folder).ShowsFiles := by
  intro q bytes hq
  rcases List.mem_cons.1 hq with hnew | hq
  · cases hnew
  · obtain ⟨hq, hne⟩ := List.mem_filter.1 hq
    rw [file?_put_of_ne t _ (by simpa using hne)]
    exact ht q bytes hq

/-- A folder where no file has stood changes no listing. -/
theorem filesBelow_put_folder {t : Tree} (ht : t.ShowsFiles) {place : Place}
    (h : t.file? place = none) (q : Place) :
    (t.put place .folder).filesBelow q = t.filesBelow q := by
  have hnone (x : Place × Entry) (hx : x ∈ t.entries) (hplace : x.1 = place) :
      namesBelow q x = none := by
    cases hnames : namesBelow q x with
    | none => rfl
    | some names =>
      obtain ⟨-, bytes, rfl⟩ := namesBelow_eq_some_iff.1 hnames
      rw [← hplace, ht _ _ hx] at h
      cases h
  rw [filesBelow, filesBelow, put, List.filterMap_cons_none rfl, List.filterMap_filter]
  refine List.filterMap_congr fun x hmem => ?_
  by_cases hx : x.1 = place
  · simp [hx, hnone x hmem hx]
  · simp [hx]

/-- Making folders on a way changes no listing. -/
theorem filesBelow_makeFolders {t t' : Tree} (ht : t.ShowsFiles) {place folder : Place}
    {names : List String} (h : t.makeFolders place names = some (t', folder)) (q : Place) :
    t'.filesBelow q = t.filesBelow q := by
  induction names generalizing t place with
  | nil =>
    cases h
    rfl
  | cons name names ih =>
    simp only [makeFolders] at h
    split at h
    · cases h
    · rename_i hfile
      split at h
      · exact ih ht h
      · rw [ih (ht.put_folder _) h, filesBelow_put_folder ht (by simpa using hfile)]

/-- On a way on which folders were made, none is made again: this holds in every tree that has
their folders, and no files in the places of those. -/
theorem makeFolders_again {t t' u : Tree} {place folder : Place} {names : List String}
    (hplace : t.isFolder place) (h : t.makeFolders place names = some (t', folder))
    (hu : ∀ q, t'.isFolder q → t'.file? q = none → u.isFolder q ∧ u.file? q = none) :
    u.makeFolders place names = some (u, folder) := by
  induction names generalizing t place with
  | nil =>
    cases h
    rfl
  | cons name names ih =>
    simp only [makeFolders] at h
    split at h
    · cases h
    · rename_i hfile
      have hnone : t.file? (step place name) = none := by simpa using hfile
      -- The next place is a folder then, whether it was made or not.
      obtain ⟨s, hs, hsfile, hrest⟩ : ∃ s : Tree, s.isFolder (step place name) ∧
          s.file? (step place name) = none ∧
          s.makeFolders (step place name) names = some (t', folder) := by
        split at h
        · rename_i hfolder
          exact ⟨t, hfolder, hnone, h⟩
        · refine ⟨_, isFolder_of_mem List.mem_cons_self ?_, ?_, h⟩
          · simp [holds]
          · rw [file?_put_folder hnone, hnone]
      have hopens := opens_of_makeFolders hs hrest
      obtain ⟨hfolder', hfile'⟩ := hu _ (hopens.isFolder _ hs) ((hopens.file? _).trans hsfile)
      simp only [makeFolders, hfile', hfolder', Option.isSome_none, Bool.false_eq_true, if_false,
        if_true]
      exact ih hs hrest

/-! ## Writing -/

/-- The folder that a file is written into, and its name there. -/
theorem exists_of_write {t t' : Tree} {p : Path} {bytes : List UInt8}
    (h : t.write p bytes = some t') :
    ∃ folders folder name, p.names.getLast? = some name ∧
      t.makeFolder p.parent = some (folders, folder) ∧
      folders.isFolder (step folder name) = false ∧
      t' = folders.put (step folder name) (.file bytes) := by
  obtain ⟨⟨folders, folder⟩, hfolders, h⟩ := Option.bind_eq_some_iff.1 h
  obtain ⟨name, hname, h⟩ := Option.bind_eq_some_iff.1 h
  split at h
  · cases h
  · rename_i hplace
    exact ⟨folders, folder, name, hname, hfolders, by simpa using hplace, (Option.some.inj h).symm⟩

/-- A file does not make a folder of its place. -/
theorem isFolder_put_file {t : Tree} {place : Place} (h : t.isFolder place = false)
    (bytes : List UInt8) : (t.put place (.file bytes)).isFolder place = false := by
  refine Bool.eq_false_iff.2 fun hfolder => ?_
  rw [Bool.eq_false_iff, Ne, isFolder_iff] at h
  rw [isFolder_iff] at hfolder
  refine h (hfolder.imp_right ?_)
  rintro ⟨e, he, habove, hkind⟩
  rcases List.mem_cons.1 he with rfl | he
  · simp at hkind
  · exact ⟨e, List.mem_of_mem_filter he, habove, hkind⟩

/-- Relative paths start at the current place, which does not change. -/
theorem startPlace_of_here {t t' : Tree} (h : t'.here = t.here) (s : Start) :
    t'.startPlace s = t.startPlace s := by
  cases s <;> simp [startPlace, h]

/-- **What is gained by writing.** -/
theorem gains_of_write {t t' : Tree} (ht : t.ShowsFiles) {p : Path} {bytes : List UInt8}
    (h : t.write p bytes = some t') :
    ∃ place, t'.place? p = .ok place ∧ t'.file? place = some bytes ∧ Gains t t' place := by
  obtain ⟨folders, folder, name, hname, hfolders, hfree, rfl⟩ := exists_of_write h
  obtain ⟨place, hplace⟩ := writes_of_write h
  have hopens : Opens t (t.startPlace p.start) p.names.dropLast folders folder :=
    opens_of_makeFolders (isFolder_startPlace t p.start) hfolders
  have hgrow (q : Place) (hq : folders.isFolder q) :
      (folders.put (step folder name) (.file bytes)).isFolder q :=
    isFolder_put _ hq (.inl fun heq => by rw [← heq, hq] at hfree; cases hfree)
  -- The path leads to the place of the new entry.
  obtain rfl : place = step folder name := by
    obtain ⟨before, hbefore⟩ := List.getLast?_eq_some_iff.1 hname
    have hway := hplace.place?
    rw [place?, startPlace_of_here hplace.here, hbefore] at hway
    obtain ⟨folder', hfollow, -, rfl⟩ := exists_follow_of_append hway
    have hfollow' := follow_of_isFolder hgrow hopens.follow
    rw [hbefore, List.dropLast_concat, hfollow] at hfollow'
    rw [Except.ok.inj hfollow']
  refine ⟨_, hplace.place?, hplace.file?, hplace.here, by rw [hplace.file?]; rfl, hplace.others,
    fun q hq => hgrow q (hopens.isFolder q hq), isFolder_put_file hfree bytes, fun q hq => ?_⟩
  rw [filesBelow_put _ hq, filesBelow_makeFolders ht hfolders]

/-- An entry that is put once more is put in vain. -/
theorem put_again (t : Tree) (place : Place) (e : Entry) :
    (t.put place e).put place e = t.put place e := by
  simp [put]

/-- **Writing the same bytes to the same path again changes nothing.** -/
theorem write_again {t t' : Tree} {p : Path} {bytes : List UInt8}
    (h : t.write p bytes = some t') : t'.write p bytes = some t' := by
  obtain ⟨place, hplace⟩ := writes_of_write h
  obtain ⟨folders, folder, name, hname, hfolders, hfree, rfl⟩ := exists_of_write h
  have hagain : (folders.put (step folder name) (.file bytes)).makeFolder p.parent =
      some (folders.put (step folder name) (.file bytes), folder) := by
    rw [makeFolder, startPlace_of_here hplace.here]
    refine makeFolders_again (isFolder_startPlace t _) hfolders fun q hq hfile => ?_
    have hne : q ≠ step folder name := fun heq => by
      rw [← heq, hq] at hfree
      cases hfree
    exact ⟨isFolder_put _ hq (.inl hne), by rw [file?_put_of_ne _ _ hne, hfile]⟩
  rw [write, hagain, Option.bind_some]
  simp only [hname, Option.bind_some, isFolder_put_file hfree bytes, Bool.false_eq_true, if_false,
    put_again]

/-! ## Where paths lead afterwards -/

/-- Whether two dots on a path lead out of folders only that were there before. -/
def KeepsClear (t t' : Tree) (p : Path) : Prop :=
  ∀ front back, p.names = front ++ ".." :: back →
    ∀ q, t'.place? ⟨p.start, front⟩ = .ok q → t'.isFolder q → t.isFolder q

/-- Whether something stands at a place. -/
def Stands (t : Tree) (place : Place) : Prop := t.isFolder place ∨ (t.file? place).isSome

/-- The entry of a place is a file exactly if the file is found there. -/
theorem entry?_eq_file_iff {t : Tree} {place : Place} {bytes : List UInt8} :
    t.entry? place = some (.file bytes) ↔ t.file? place = some bytes := by
  unfold entry?
  cases t.file? place with
  | some content => simp
  | none => cases t.isFolder place <;> simp

/-- The entry of a place is a folder exactly if a folder is there and no file is. -/
theorem entry?_eq_folder_iff {t : Tree} {place : Place} :
    t.entry? place = some .folder ↔ t.file? place = none ∧ t.isFolder place := by
  unfold entry?
  cases t.file? place with
  | some content => simp
  | none => cases t.isFolder place <;> simp

/-- A place where something stands has an entry. -/
theorem entry?_of_stands {t : Tree} {place : Place} (h : t.Stands place) :
    ∃ e, t.entry? place = some e := by
  unfold entry?
  cases hfile : t.file? place with
  | some content => exact ⟨_, rfl⟩
  | none => exact ⟨.folder, if_pos (h.resolve_right (by simp [hfile]))⟩

/-- A place with an entry is one where something stands. -/
theorem stands_of_entry_eq {t : Tree} {place : Place} {e : Entry} (h : t.entry? place = some e) :
    t.Stands place := by
  cases e with
  | file bytes => exact .inr (by rw [entry?_eq_file_iff.1 h]; rfl)
  | folder => exact .inl (entry?_eq_folder_iff.1 h).2

/-- A way starts with a way. -/
theorem exists_follow_of_follow {t : Tree} {place place' : Place} {front back : List String}
    (h : t.follow place (front ++ back) = .ok place') :
    ∃ q, t.follow place front = .ok q ∧ t.follow q back = .ok place' := by
  induction front generalizing place with
  | nil => exact ⟨place, rfl, h⟩
  | cons name front ih =>
    rw [List.cons_append, follow] at h
    split at h
    · rename_i hfolder
      rw [follow, if_pos hfolder]
      exact ih h
    · cases h

/-- A way to what has stood before leads there as before, if no folder on it is left by two dots
that was made in between. -/
theorem follow_of_stands {t t' : Tree} {place r : Place} {names : List String}
    (hclear : ∀ front back, names = front ++ ".." :: back →
      ∀ q, t'.follow place front = .ok q → t'.isFolder q → t.isFolder q)
    (hr : t.Stands r) (h : t'.follow place names = .ok r) : t.follow place names = .ok r := by
  induction names generalizing place with
  | nil => exact h
  | cons name names ih =>
    have hway := h
    rw [follow] at h
    split at h
    swap
    · cases h
    rename_i hfolder'
    have hfolder : t.isFolder place := by
      by_cases hdots : ".." ∈ name :: names
      · -- The way goes down from the place to the first two dots, and that folder was there.
        obtain ⟨front, back, hnames, hfirst⟩ := List.eq_append_cons_of_mem hdots
        rw [hnames] at hway
        obtain ⟨q, hq, hrest⟩ := exists_follow_of_follow hway
        have hfolder : t'.isFolder q := by
          rw [follow] at hrest
          split at hrest
          · assumption
          · cases hrest
        have hplace : q = place ++ front := eq_append_of_follow hfirst hq
        exact isFolder_of_prefix (hclear front back hnames q hq hfolder) ⟨_, hplace.symm⟩
      · have hplace : r = place ++ name :: names := eq_append_of_follow hdots hway
        obtain hr | hr := hr
        · exact isFolder_of_prefix hr ⟨_, hplace.symm⟩
        · obtain ⟨bytes, hbytes⟩ := Option.isSome_iff_exists.1 hr
          exact isFolder_of_file? hbytes ⟨_, hplace.symm⟩ fun heq => by simp [← heq] at hplace
    rw [follow, if_pos hfolder]
    refine ih (fun front back hnames q hq => hclear (name :: front) back (by simp [hnames]) q ?_) h
    rw [follow, if_pos hfolder']
    exact hq

section Gains

variable {t t' : Tree} {place : Place} (h : Gains t t' place) {p : Path}
include h

/-- What stands before still stands. -/
theorem Gains.stands {q : Place} (hq : t.Stands q) : t'.Stands q := by
  by_cases hplace : q = place
  · exact .inr (hplace ▸ h.file)
  · exact hq.imp (h.isFolder q) fun hfile => by rwa [h.others q hplace]

/-- A path that led to a place still leads there. -/
theorem Gains.place? {q : Place} (hq : t.place? p = .ok q) : t'.place? p = .ok q := by
  rw [Tree.place?, startPlace_of_here h.here]
  exact follow_of_isFolder h.isFolder hq

/-- A path leads to what has stood before if and only if it has led there. -/
theorem Gains.place?_iff (hclear : KeepsClear t t' p) {q : Place} (hq : t.Stands q) :
    t'.place? p = .ok q ↔ t.place? p = .ok q := by
  refine ⟨fun hplace => ?_, h.place?⟩
  rw [Tree.place?, startPlace_of_here h.here] at hplace
  refine follow_of_stands (fun front back hnames q hq => hclear front back hnames q ?_) hq hplace
  rw [Tree.place?, startPlace_of_here h.here]
  exact hq

/-- A file that has been there is found as before, unless it is the one that was written. -/
theorem Gains.find_of_find {bytes : List UInt8} (hfind : t.find p = .ok (.file bytes))
    (hother : t'.place? p ≠ .ok place) : t'.find p = .ok (.file bytes) := by
  obtain ⟨q, hq, hentry⟩ := find_eq_ok_iff.1 hfind
  have hne : q ≠ place := fun heq => hother (heq ▸ h.place? hq)
  exact find_of_file? (h.place? hq) ((h.others q hne).trans (entry?_eq_file_iff.1 hentry))

/-- Any other file that is found has been there. -/
theorem Gains.find_of_find' {bytes : List UInt8} (hfind : t'.find p = .ok (.file bytes))
    (hother : t'.place? p ≠ .ok place) (hclear : KeepsClear t t' p) :
    t.find p = .ok (.file bytes) := by
  obtain ⟨q, hq, hentry⟩ := find_eq_ok_iff.1 hfind
  have hne : q ≠ place := fun heq => hother (heq ▸ hq)
  have hfile : t.file? q = some bytes :=
    (h.others q hne).symm.trans (entry?_eq_file_iff.1 hentry)
  exact find_of_file? ((h.place?_iff hclear (.inr (by simp [hfile]))).1 hq) hfile

/-- A path that leads nowhere has led nowhere. -/
theorem Gains.find_error {a : Absence} (hfind : t'.find p = .error a) :
    ∃ a, t.find p = .error a := by
  cases hbefore : t.find p with
  | error a => exact ⟨a, rfl⟩
  | ok e =>
    obtain ⟨q, hq, hentry⟩ := find_eq_ok_iff.1 hbefore
    obtain ⟨e', he'⟩ := entry?_of_stands (h.stands (stands_of_entry_eq hentry))
    rw [find_eq_ok_iff.2 ⟨q, h.place? hq, he'⟩] at hfind
    cases hfind

/-- A path that leads to a folder has led to it, and the folder has the same Rust files under it,
or it has led nowhere, and there are none. -/
theorem Gains.find_folder (hfind : t'.find p = .ok .folder) (hclear : KeepsClear t t' p)
    (hbelow : ∀ q names, t'.place? p = .ok q → place = q ++ names → isRustPlace names = false) :
    (t.find p = .ok .folder ∧ t'.rustFiles p = t.rustFiles p) ∨
      (∃ a, t.find p = .error a) ∧ t'.rustFiles p = [] := by
  obtain ⟨q, hq, hentry⟩ := find_eq_ok_iff.1 hfind
  obtain ⟨hfile, hfolder⟩ := entry?_eq_folder_iff.1 hentry
  have hne : q ≠ place := fun heq => by
    have := h.file
    rw [← heq, hfile] at this
    cases this
  have hsame := h.rust q fun names => hbelow q names hq
  by_cases hold : t.isFolder q
  · have hplace := (h.place?_iff hclear (.inl hold)).1 hq
    refine .inl ⟨find_eq_ok_iff.2 ⟨q, hplace, entry?_eq_folder_iff.2 ⟨?_, hold⟩⟩, ?_⟩
    · rw [← h.others q hne, hfile]
    · simp only [rustFiles, hq, hplace, hsame]
  · refine .inr ⟨?_, ?_⟩
    · cases hbefore : t.find p with
      | error a => exact ⟨a, rfl⟩
      | ok e =>
        obtain ⟨q', hq', hentry'⟩ := find_eq_ok_iff.1 hbefore
        obtain rfl : q' = q := Except.ok.inj ((h.place? hq').symm.trans hq)
        obtain hstands | hstands := stands_of_entry_eq hentry'
        · exact absurd hstands hold
        · rw [← h.others _ hne, hfile] at hstands
          cases hstands
    · have hnone : t.filesBelow q = [] := by
        refine List.eq_nil_iff_forall_not_mem.2 fun names hnames => hold ?_
        obtain ⟨hne, bytes, he⟩ := mem_filesBelow.1 hnames
        exact isFolder_of_mem he (by simp [holds, hne])
      simp only [rustFiles, hq, hsame, hnone, List.filter_nil, List.mergeSort_nil, List.map_nil]

end Gains

end Tree
end Files
end Ferrotype
