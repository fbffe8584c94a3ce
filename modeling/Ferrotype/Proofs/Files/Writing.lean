/-
# What writing changes

A file that is written is found where its path leads, and every other file is as before. Folders
that are made on the way change no file; where the path led somewhere before, none are made, and
the path still leads there.

`write_eq_some` says all that writing does.
-/

import Ferrotype.Files.Tree

namespace Ferrotype
namespace Files
namespace Tree

/-! ## Entries -/

/-- Entries of one place are no matter for what is found at another one. -/
theorem lookup_filter_ne {q place : Place} (h : q ≠ place) (entries : List (Place × Entry)) :
    (entries.filter (·.1 ≠ place)).lookup q = entries.lookup q := by
  induction entries with
  | nil => rfl
  | cons e entries ih =>
    by_cases he : e.1 = place
    · have hq : (q == e.1) = false := beq_false_of_ne (he ▸ h)
      rw [List.filter_cons_of_neg (by simp [he]), ih, List.lookup_cons, hq]
    · rw [List.filter_cons_of_pos (by simp [he]), List.lookup_cons, List.lookup_cons, ih]

/-- A file that is put into a tree is found with its bytes. -/
@[simp] theorem file?_put_self (t : Tree) (place : Place) (bytes : List UInt8) :
    (t.put place (.file bytes)).file? place = some bytes := by
  simp [file?, put]

/-- An entry at a place changes no file at another place. -/
theorem file?_put_of_ne (t : Tree) {q place : Place} (e : Entry) (h : q ≠ place) :
    (t.put place e).file? q = t.file? q := by
  have hq : (q == place) = false := beq_false_of_ne h
  rw [file?, put, List.lookup_cons, hq]
  simp only [lookup_filter_ne h]
  rfl

/-- A folder that is made where no file stands changes no file. -/
theorem file?_put_folder {t : Tree} {place : Place} (h : t.file? place = none) (q : Place) :
    (t.put place .folder).file? q = t.file? q := by
  by_cases hq : q = place
  · subst hq
    rw [h]
    simp [file?, put]
  · exact file?_put_of_ne t _ hq

@[simp] theorem here_put (t : Tree) (place : Place) (e : Entry) : (t.put place e).here = t.here :=
  rfl

/-- What was a folder still is one when something else stands at a place that was no folder. -/
theorem isFolder_put {t : Tree} {q place : Place} (e : Entry) (hq : t.isFolder q)
    (hplace : q ≠ place ∨ e = .folder) : (t.put place e).isFolder q := by
  rw [isFolder, Bool.or_eq_true] at hq ⊢
  refine hq.imp id fun hany => ?_
  obtain ⟨x, hx, hholds⟩ := List.any_eq_true.1 hany
  by_cases hx1 : x.1 = place
  · refine List.any_eq_true.2 ⟨(place, e), List.mem_cons_self, ?_⟩
    simp only [holds, hx1, Bool.and_eq_true, Bool.or_eq_true, decide_eq_true_eq] at hholds ⊢
    refine ⟨hholds.1, ?_⟩
    rcases hplace with hne | he
    · exact .inl (Ne.symm hne)
    · exact .inr he
  · exact List.any_eq_true.2 ⟨x, List.mem_cons_of_mem _ (List.mem_filter.2 ⟨hx, by simpa⟩), hholds⟩

/-- A place that holds an entry is a folder. -/
theorem isFolder_of_mem {t : Tree} {place : Place} {e : Place × Entry} (he : e ∈ t.entries)
    (h : holds place e) : t.isFolder place := by
  rw [isFolder, Bool.or_eq_true]
  exact .inr (List.any_eq_true.2 ⟨e, he, h⟩)

/-- A file is there because of an entry. -/
theorem mem_entries_of_file? {t : Tree} {place : Place} {bytes : List UInt8}
    (h : t.file? place = some bytes) : (place, .file bytes) ∈ t.entries := by
  unfold file? at h
  split at h
  · rename_i b hlookup
    cases h
    obtain ⟨before, after, hentries, -⟩ := List.lookup_eq_some_iff.1 hlookup
    rw [hentries]
    exact List.mem_append_right _ List.mem_cons_self
  · cases h

/-- The root is a folder. -/
@[simp] theorem isFolder_root (t : Tree) : t.isFolder [] := by simp [isFolder]

/-- So is the place where the program runs. -/
@[simp] theorem isFolder_here (t : Tree) : t.isFolder t.here := by simp [isFolder]

/-- Paths start at a folder. -/
theorem isFolder_startPlace (t : Tree) (s : Start) : t.isFolder (t.startPlace s) := by
  cases s <;> simp [startPlace]

/-! ## Ways -/

/-- A way goes on where its start leads. -/
theorem follow_append {t : Tree} {place place' : Place} {names : List String} (more : List String)
    (h : t.follow place names = .ok place') :
    t.follow place (names ++ more) = t.follow place' more := by
  induction names generalizing place with
  | nil =>
    cases h
    rfl
  | cons name names ih =>
    rw [follow] at h
    split at h
    · rename_i hfolder
      rw [List.cons_append, follow, if_pos hfolder]
      exact ih h
    · cases h

/-- The way to the last name of a path leads through a folder. -/
theorem exists_follow_of_append {t : Tree} {place place' : Place} {names : List String}
    {name : String} (h : t.follow place (names ++ [name]) = .ok place') :
    ∃ folder, t.follow place names = .ok folder ∧ t.isFolder folder ∧
      place' = step folder name := by
  induction names generalizing place with
  | nil =>
    rw [List.nil_append, follow] at h
    split at h
    · rename_i hfolder
      exact ⟨place, rfl, hfolder, (Except.ok.inj h).symm⟩
    · cases h
  | cons n names ih =>
    rw [List.cons_append, follow] at h
    split at h
    · rename_i hfolder
      rw [follow, if_pos hfolder]
      exact ih h
    · cases h

/-- A way stays open when folders are added. -/
theorem follow_of_isFolder {t t' : Tree} (hfolders : ∀ q, t.isFolder q → t'.isFolder q)
    {place folder : Place} {names : List String} (h : t.follow place names = .ok folder) :
    t'.follow place names = .ok folder := by
  induction names generalizing place with
  | nil => exact h
  | cons name names ih =>
    rw [follow] at h
    split at h
    · rename_i hfolder
      rw [follow, if_pos (hfolders place hfolder)]
      exact ih h
    · cases h

/-- A way without two dots leads to the place with its names. -/
theorem eq_append_of_follow {t : Tree} {place place' : Place} {names : List String}
    (hdots : ".." ∉ names) (h : t.follow place names = .ok place') : place' = place ++ names := by
  induction names generalizing place with
  | nil =>
    cases h
    simp
  | cons name names ih =>
    obtain ⟨hname, hnames⟩ := not_or.1 (fun hmem => hdots (List.mem_cons.2 hmem))
    rw [follow] at h
    split at h
    · rw [ih hnames h, step, if_neg (Ne.symm hname), List.append_assoc, List.singleton_append]
    · cases h

/-- A way without two dots to a file leads there, since all around a file are folders. -/
theorem follow_of_file? {t : Tree} {place : Place} {names : List String} {bytes : List UInt8}
    (hdots : ".." ∉ names) (h : t.file? (place ++ names) = some bytes) :
    t.follow place names = .ok (place ++ names) := by
  induction names generalizing place with
  | nil => simp [follow]
  | cons name names ih =>
    obtain ⟨hname, hnames⟩ := not_or.1 (fun hmem => hdots (List.mem_cons.2 hmem))
    have hfolder : t.isFolder place := by
      refine isFolder_of_mem (mem_entries_of_file? h) ?_
      simp [holds]
    rw [follow, if_pos hfolder, step, if_neg (Ne.symm hname)]
    have hnext : t.file? (place ++ [name] ++ names) = some bytes := by
      rw [List.append_assoc, List.singleton_append, h]
    rw [ih hnames hnext, List.append_assoc, List.singleton_append]

/-! ## Folders on the way -/

/-- What is left as it was, and what is new, when folders are made on a way. -/
structure Opens (t : Tree) (place : Place) (names : List String) (t' : Tree) (folder : Place) :
    Prop where
  file? (q : Place) : t'.file? q = t.file? q
  here : t'.here = t.here
  isFolder (q : Place) : t.isFolder q → t'.isFolder q
  follow : t'.follow place names = .ok folder
  isFolder_end : t'.isFolder folder

/-- **Making folders changes no file** and opens the way. -/
theorem opens_of_makeFolders {t t' : Tree} {place folder : Place} {names : List String}
    (hplace : t.isFolder place) (h : t.makeFolders place names = some (t', folder)) :
    Opens t place names t' folder := by
  induction names generalizing t place with
  | nil =>
    cases h
    exact ⟨fun _ => rfl, rfl, fun _ => id, rfl, hplace⟩
  | cons name names ih =>
    simp only [makeFolders] at h
    split at h
    · cases h
    · rename_i hfile
      split at h
      · rename_i hfolder
        obtain ⟨hfiles, hhere, hfolders, hfollow, hend⟩ := ih hfolder h
        refine ⟨hfiles, hhere, hfolders, ?_, hend⟩
        rw [follow, if_pos (hfolders place hplace)]
        exact hfollow
      · have hfile' : t.file? (step place name) = none := by simpa using hfile
        have hnew : (t.put (step place name) .folder).isFolder (step place name) := by
          refine isFolder_of_mem List.mem_cons_self ?_
          simp [holds]
        obtain ⟨hfiles, hhere, hfolders, hfollow, hend⟩ := ih hnew h
        refine ⟨fun q => (hfiles q).trans (file?_put_folder hfile' q), hhere,
          fun q hq => hfolders q (isFolder_put _ hq (.inr rfl)), ?_, hend⟩
        rw [follow, if_pos (hfolders place (isFolder_put _ hplace (.inr rfl)))]
        exact hfollow

/-- Making folders up to a file that is in the way changes no file either. -/
theorem file?_openWay (t : Tree) (place : Place) (names : List String) (q : Place) :
    (t.openWay place names).file? q = t.file? q := by
  induction names generalizing t place with
  | nil => rfl
  | cons name names ih =>
    simp only [openWay]
    split
    · rfl
    · rename_i hfile
      split
      · exact ih _ _
      · rw [ih, file?_put_folder (by simpa using hfile)]

/-- Where the way is open, no folder is made. -/
theorem makeFolders_of_follow {t t' : Tree} {place folder folder' : Place} {names : List String}
    (hfollow : t.follow place names = .ok folder) (hfolder : t.isFolder folder)
    (h : t.makeFolders place names = some (t', folder')) : t' = t ∧ folder' = folder := by
  induction names generalizing place with
  | nil =>
    cases h
    cases hfollow
    exact ⟨rfl, rfl⟩
  | cons name names ih =>
    rw [follow] at hfollow
    split at hfollow
    · have hnext : t.isFolder (step place name) := by
        cases names with
        | nil => exact Except.ok.inj hfollow ▸ hfolder
        | cons n names =>
          rw [follow] at hfollow
          split at hfollow
          · assumption
          · cases hfollow
      simp only [makeFolders] at h
      split at h
      · cases h
      · exact ih hfollow h
    · cases hfollow

/-! ## Files -/

/-- What writing to a path does: the path leads to a place with the bytes, no other file is another
one, and a path that led somewhere before still leads there. -/
structure Writes (t : Tree) (p : Path) (bytes : List UInt8) (t' : Tree) (place : Place) :
    Prop where
  place? : t'.place? p = .ok place
  file? : t'.file? place = some bytes
  here : t'.here = t.here
  others (q : Place) : q ≠ place → t'.file? q = t.file? q
  same (before : Place) : t.place? p = .ok before → before = place

/-- **All that writing does.** -/
theorem writes_of_write {t t' : Tree} {p : Path} {bytes : List UInt8}
    (h : t.write p bytes = some t') : ∃ place, Writes t p bytes t' place := by
  obtain ⟨⟨folders, folder⟩, hfolders, h⟩ := Option.bind_eq_some_iff.1 h
  obtain ⟨name, hname, h⟩ := Option.bind_eq_some_iff.1 h
  have hopens : Opens t (t.startPlace p.start) p.names.dropLast folders folder :=
    opens_of_makeFolders (isFolder_startPlace t p.start) hfolders
  have hnames : p.names.dropLast ++ [name] = p.names := by
    obtain ⟨before, hbefore⟩ := List.getLast?_eq_some_iff.1 hname
    rw [hbefore, List.dropLast_concat]
  split at h
  · cases h
  · rename_i hplace
    cases h
    have hgrow (q : Place) (hq : folders.isFolder q) :
        (folders.put (step folder name) (.file bytes)).isFolder q :=
      isFolder_put _ hq (.inl fun h => hplace (h ▸ hq))
    refine ⟨step folder name, ?_, file?_put_self _ _ _, hopens.here, ?_, ?_⟩
    · have hstart : (folders.put (step folder name) (.file bytes)).startPlace p.start =
          t.startPlace p.start := by cases p.start <;> simp [startPlace, hopens.here]
      rw [Tree.place?, hstart, ← hnames,
        follow_append [name] (follow_of_isFolder hgrow hopens.follow), follow,
        if_pos (hgrow folder hopens.isFolder_end), follow]
    · intro q hq
      rw [file?_put_of_ne folders _ hq, hopens.file? q]
    · intro before hbefore
      rw [Tree.place?, ← hnames] at hbefore
      obtain ⟨folder', hfollow, hfolder, rfl⟩ := exists_follow_of_append hbefore
      rw [(makeFolders_of_follow hfollow hfolder hfolders).2]

/-- What a path leads to stands at its place. -/
theorem exists_place_of_find {t : Tree} {p : Path} {e : Entry} (h : t.find p = .ok e) :
    ∃ place, t.place? p = .ok place ∧ t.entry? place = some e := by
  unfold find at h
  split at h
  · cases h
  · rename_i place hplace
    split at h
    · rename_i e' he
      cases h
      exact ⟨place, hplace, he⟩
    · cases h

/-- A path that led to a file leads to the same one. -/
theorem Writes.file?_of_find {t t' : Tree} {p : Path} {bytes before : List UInt8} {place : Place}
    (h : Writes t p bytes t' place) (hfind : t.find p = .ok (.file before)) :
    t.file? place = some before := by
  obtain ⟨q, hq, hentry⟩ := exists_place_of_find hfind
  rw [← h.same q hq]
  unfold entry? at hentry
  split at hentry
  · rename_i b hb
    cases hentry
    exact hb
  · split at hentry <;> cases hentry

/-- A path without two dots that led nowhere is that of no file. -/
theorem Writes.file?_of_absent {t t' : Tree} {p : Path} {bytes : List UInt8} {place : Place}
    (h : Writes t p bytes t' place) (hdots : ".." ∉ p.names)
    {a : Absence} (hfind : t.find p = .error a) : t.file? place = none := by
  cases hfile : t.file? place with
  | none => rfl
  | some before =>
    have hplace : t'.startPlace p.start ++ p.names = place :=
      (eq_append_of_follow hdots h.place?).symm
    have hstart : t'.startPlace p.start = t.startPlace p.start := by
      cases p.start <;> simp [startPlace, h.here]
    have hfollow : t.place? p = .ok place := by
      rw [Tree.place?, ← hplace, hstart]
      exact follow_of_file? hdots (by rw [← hstart, hplace, hfile])
    simp [find, hfollow, entry?, hfile] at hfind

end Tree
end Files
end Ferrotype
