/-
# Files are isolated from each other

What a run over paths yields is what each file yields in a run of its own, one after the other
(`addPaths_isolated`). A file that has no items yields its name and one warning and else nothing,
wherever in the file the error stands. So it can be taken out, of the paths or of the tree, and
everything else stays as it is.

This is so if no file stops the run. A file does that not only by a code point that is too large,
but also by an escape whose reading never ends (`addPaths_endless`).
-/

import Ferrotype.Proofs.Files.Discovery
import Ferrotype.Proofs.Rust.Plain.Preamble
import Ferrotype.Proofs.Sources.Progress

namespace Ferrotype

/-! ## Sources and their paths -/

/-- The items of a file are those of its bytes. -/
theorem itemsAt_of_find [Text.StandIn] {t : Files.Tree} {p : Files.Path} {bytes : List UInt8}
    (h : t.find p = .ok (.file bytes)) : itemsAt t p = itemsOf bytes := by
  simp only [itemsAt, Files.Tree.read, h]

/-- The path of a source that is a file leads to it. -/
theorem exists_file_of_mem {t : Files.Tree} (ht : t.IsWellFormed) {p q : Files.Path}
    (h : .file p ∈ sourcesAt t q) : ∃ bytes, t.find p = .ok (.file bytes) := by
  unfold sourcesAt at h
  split at h
  · simp at h
  · rename_i bytes hfind
    obtain rfl : p = q := by simpa using h
    exact ⟨bytes, hfind⟩
  · rename_i hfind
    obtain ⟨place, hplace, -⟩ := Files.Tree.find_eq_ok_iff.1 hfind
    have hmem : p ∈ t.rustFiles q := by simpa using h
    obtain ⟨names, bytes, rfl, -, -, hfile⟩ :=
      ((Files.Tree.isListing_rustFiles ht hplace).mem p).1 hmem
    exact ⟨bytes, (Files.Tree.find_below ht hplace hfile).2⟩

/-- A source is all that its path stands for. -/
theorem sourcesAt_path {t : Files.Tree} (ht : t.IsWellFormed) {q : Files.Path} {s : Source}
    (h : s ∈ sourcesAt t q) : sourcesAt t s.path = [s] := by
  cases s with
  | file p =>
    obtain ⟨bytes, hfind⟩ := exists_file_of_mem ht h
    simp only [Source.path, sourcesAt, hfind]
  | missing p =>
    unfold sourcesAt at h
    split at h
    · rename_i a hfind
      obtain rfl : p = q := by simpa using h
      simp only [Source.path, sourcesAt, hfind]
    · simp at h
    · simp at h

namespace Generator

section Reading

variable [Text.StandIn]

/-! ## What a path yields alone -/

/-- The generator after a run over one path and nothing else. -/
def alone (t : Files.Tree) (settings : Settings) (p : Files.Path) : Generator :=
  ((Generator.new settings (Report.new false)).addPaths t [p]).generator

/-- What sources yield, one after the other, is what each of their paths yields alone. -/
structure Concatenates (t : Files.Tree) (g : Generator) (sources : List Source) (g' : Generator) :
    Prop where
  text : g'.output.text = g.output.text ++
    Text.concat (sources.map fun s => (alone t g.settings s.path).output.text)
  unprocessed : g'.output.unprocessed = g.output.unprocessed ++
    sources.flatMap fun s => (alone t g.settings s.path).output.unprocessed
  diagnostics : g'.report.diagnostics = g.report.diagnostics ++
    sources.flatMap fun s => (alone t g.settings s.path).report.diagnostics

/-- What a file without items yields: its name and one warning. -/
structure Fails (t : Files.Tree) (settings : Settings) (p : Files.Path) : Prop where
  text : (alone t settings p).output.text = ""
  unprocessed : (alone t settings p).output.unprocessed = [p.text]
  warning : ∃ d, (alone t settings p).report.diagnostics = [d] ∧ d.code = "W001" ∧
    d.severity = .warning ∧ d.file = p.text

/-- What a run yields without a file that has no items: the same but for its name and its
warning. -/
structure Spares (p : Files.Path) (g g' : Generator) : Prop where
  text : g'.output.text = g.output.text
  unprocessed : ∃ us us', g.output.unprocessed = us ++ p.text :: us' ∧
    g'.output.unprocessed = us ++ us'
  diagnostics : ∃ ds d ds', g.report.diagnostics = ds ++ d :: ds' ∧
    g'.report.diagnostics = ds ++ ds' ∧ d.code = "W001" ∧ d.file = p.text

/-- Whether no source stops a run and each is all that its path stands for. -/
def Separate (t : Files.Tree) (sources : List Source) : Prop :=
  ∀ s ∈ sources, sourcesAt t s.path = [s] ∧ s.stop? t = none

variable {t : Files.Tree}

/-- The sources of a well-formed tree are separate if no file among them stops the reading. -/
theorem separate_of_isWellFormed (ht : t.IsWellFormed) {paths : List Files.Path}
    (hends : ∀ p, .file p ∈ paths.flatMap (sourcesAt t) →
      itemsAt t p ≠ .error (.unparsable (.escape .tooLarge)) ∧
        itemsAt t p ≠ .error (.unparsable (.escape .endless))) :
    Separate t (paths.flatMap (sourcesAt t)) := by
  intro s hs
  obtain ⟨q, -, hq⟩ := List.mem_flatMap.1 hs
  exact ⟨sourcesAt_path ht hq, stop?_eq_none_iff.2 fun p hp => hends p (hp ▸ hs)⟩

/-- Where nothing stops, all sources are read. -/
theorem untilStop_eq_self {sources : List Source} (h : ∀ s ∈ sources, s.stop? t = none) :
    untilStop t sources = sources :=
  List.takeWhile_eq_self_iff.2 fun s hs => by rw [h s hs]; rfl

/-! ## One path -/

/-- A path that stands for one source yields what this leaves. -/
theorem alone_path {s : Source} (hs : sourcesAt t s.path = [s]) (hstop : s.stop? t = none)
    (settings : Settings) :
    (alone t settings s.path).output.text = (s.emission t settings).text ∧
      (alone t settings s.path).output.unprocessed = (s.emission t settings).unprocessed ∧
      (alone t settings s.path).report.diagnostics = s.diagnostics t settings := by
  have hpaths : [s.path].flatMap (sourcesAt t) = [s] := by rw [List.flatMap_singleton, hs]
  have hreached := reached_addSources t (Generator.new settings (Report.new false)) [s]
  rw [untilStop_eq_self (by simpa using hstop)] at hreached
  rw [alone, addPaths, hpaths]
  refine ⟨?_, ?_, ?_⟩
  · simpa [Generator.new, Output.text, Output.empty] using hreached.text
  · simpa [Generator.new, Output.empty] using hreached.unprocessed
  · simpa [Generator.new, Report.new] using hreached.diagnostics

/-- Every diagnostic about a path carries it. -/
theorem file_of_mem_alone {s : Source} (hs : sourcesAt t s.path = [s]) (hstop : s.stop? t = none)
    {settings : Settings} {d : Diagnostic} (hd : d ∈ (alone t settings s.path).report.diagnostics) :
    d.file = s.path.text := by
  rw [(alone_path hs hstop settings).2.2] at hd
  obtain ⟨f, -, rfl⟩ := List.mem_map.1 hd
  rfl

/-- A file with an error fails, if the error is not one that stops. -/
theorem fails_of_error {p : Files.Path} (hs : sourcesAt t p = [.file p])
    (hstop : (Source.file p).stop? t = none) {e : SourceError} (he : itemsAt t p = .error e)
    (settings : Settings) : Fails t settings p := by
  obtain ⟨htext, hunprocessed, hdiagnostics⟩ := alone_path (s := .file p) hs hstop settings
  have hemission : (Source.file p).emission t settings =
      Source.leftOut p (.parseFailure (e.message p)) := by simp only [Source.emission, he]
  rw [Source.diagnostics, hemission] at hdiagnostics
  rw [hemission] at htext hunprocessed
  exact ⟨htext, hunprocessed, _, hdiagnostics, rfl, rfl, rfl⟩

/-! ## All paths -/

/-- Sources that leave in another tree what they leave here. -/
theorem concatenates_addSources {t' : Files.Tree} {sources : List Source}
    (hseparate : Separate t sources) (g : Generator)
    (hsame : ∀ s ∈ sources, s.stop? t' = s.stop? t ∧
      s.emission t' g.settings = s.emission t g.settings) :
    (g.addSources t' sources).stopped = none ∧
      Concatenates t g sources (g.addSources t' sources).generator := by
  have hstop (s : Source) (hs : s ∈ sources) : s.stop? t' = none :=
    (hsame s hs).1.trans (hseparate s hs).2
  have hreached := reached_addSources t' g sources
  rw [untilStop_eq_self hstop] at hreached
  refine ⟨?_, ?_, ?_, ?_⟩
  · rw [stopped_addSources, List.findSome?_eq_none_iff]
    exact hstop
  · rw [hreached.text]
    refine congrArg (fun parts => g.output.text ++ Text.concat parts) (List.map_congr_left ?_)
    intro s hs
    rw [(alone_path (hseparate s hs).1 (hseparate s hs).2 g.settings).1, (hsame s hs).2]
  · rw [hreached.unprocessed]
    refine congrArg (g.output.unprocessed ++ ·) (List.flatMap_congr ?_)
    intro s hs
    rw [(alone_path (hseparate s hs).1 (hseparate s hs).2 g.settings).2.1, (hsame s hs).2]
  · rw [hreached.diagnostics]
    refine congrArg (g.report.diagnostics ++ ·) (List.flatMap_congr ?_)
    intro s hs
    rw [(alone_path (hseparate s hs).1 (hseparate s hs).2 g.settings).2.2, Source.diagnostics,
      Source.diagnostics, (hsame s hs).2]

/-! ## Without a file that fails -/

/-- A failing file that is taken out of the sources takes its name and its warning along. -/
theorem Concatenates.spares {g g' g'' : Generator} {before after : List Source} {p : Files.Path}
    (h : Concatenates t g (before ++ .file p :: after) g')
    (h' : Concatenates t g (before ++ after) g'') (hfails : Fails t g.settings p) :
    Spares p g' g'' := by
  have hpath : (Source.file p).path = p := rfl
  obtain ⟨d, hd, hcode, -, hfile⟩ := hfails.warning
  refine ⟨?_, ?_, ?_⟩
  · rw [h.text, h'.text]
    simp [hpath, hfails.text, Text.concat_append]
  · rw [h.unprocessed, h'.unprocessed]
    simp only [List.flatMap_append, List.flatMap_cons, hpath, hfails.unprocessed,
      List.singleton_append]
    rw [← List.append_assoc, ← List.append_assoc]
    exact ⟨_, _, rfl, rfl⟩
  · rw [h.diagnostics, h'.diagnostics]
    simp only [List.flatMap_append, List.flatMap_cons, hpath, hd, List.singleton_append]
    rw [← List.append_assoc, ← List.append_assoc]
    exact ⟨_, d, _, rfl, rfl, hcode, hfile⟩

/-- Sources that yield no text can be taken out of it. -/
theorem Concatenates.text_filter {g g' g'' : Generator} {sources : List Source}
    {keep : Source → Bool} (h : Concatenates t g sources g')
    (h' : Concatenates t g (sources.filter keep) g'')
    (hempty : ∀ s ∈ sources, keep s = false → (alone t g.settings s.path).output.text = "") :
    g''.output.text = g'.output.text := by
  rw [h.text, h'.text]
  refine congrArg (g.output.text ++ ·) ?_
  clear h h'
  induction sources with
  | nil => rfl
  | cons s sources ih =>
    have hrest := ih fun r hr => hempty r (List.mem_cons_of_mem s hr)
    cases hkeep : keep s with
    | true => rw [List.filter_cons_of_pos hkeep, List.map_cons, List.map_cons, Text.concat_cons,
        Text.concat_cons, hrest]
    | false => rw [List.filter_cons_of_neg (by simp [hkeep]), List.map_cons, Text.concat_cons,
        hempty s List.mem_cons_self hkeep, String.empty_append, hrest]

section Removal

variable (ht : t.IsWellFormed) {place : Files.Place} {bytes : List UInt8}
  (hplace : t.file? place = some bytes)
include ht hplace

omit [Text.StandIn] in
/-- Without a file every other path stands for what it has stood for, less the file. -/
theorem sourcesAt_remove {p : Files.Path} (hp : t.place? p ≠ .ok place) :
    sourcesAt (t.remove place) p =
      (sourcesAt t p).filter fun s => t.place? s.path ≠ .ok place := by
  cases hfind : t.find p with
  | error a =>
    cases hremoved : (t.remove place).find p with
    | error a' => simp [sourcesAt, hfind, hremoved, Source.path, hp]
    | ok e =>
      rw [(Files.Tree.find_remove ht hplace hp).1 hremoved] at hfind
      cases hfind
  | ok e =>
    have hremoved := (Files.Tree.find_remove ht hplace hp).2 hfind
    cases e with
    | file content => simp [sourcesAt, hfind, hremoved, Source.path, hp]
    | folder =>
      obtain ⟨folder, hfolder, -⟩ := Files.Tree.find_eq_ok_iff.1 hfind
      simp only [sourcesAt, hfind, hremoved, Files.Tree.rustFiles_remove ht hplace hfolder,
        List.filter_map]
      rfl

omit [Text.StandIn] in
/-- The sources of the paths that do not lead to a file, when it is taken out. -/
theorem flatMap_sourcesAt_remove (paths : List Files.Path) :
    (paths.filter fun p => t.place? p ≠ .ok place).flatMap (sourcesAt (t.remove place)) =
      (paths.flatMap (sourcesAt t)).filter fun s => t.place? s.path ≠ .ok place := by
  induction paths with
  | nil => rfl
  | cons p paths ih =>
    rw [List.flatMap_cons, List.filter_append, ← ih]
    by_cases hp : t.place? p = .ok place
    · have hfind : t.find p = .ok (.file bytes) := Files.Tree.find_of_file? hp hplace
      rw [List.filter_cons_of_neg (by simp [hp])]
      simp [sourcesAt, hfind, Source.path, hp]
    · rw [List.filter_cons_of_pos (by simp [hp]), List.flatMap_cons, sourcesAt_remove ht hplace hp]

/-- Every other file has the items that it has had. -/
theorem itemsAt_remove {p q : Files.Path} (hq : .file p ∈ sourcesAt t q)
    (hp : t.place? p ≠ .ok place) : itemsAt (t.remove place) p = itemsAt t p := by
  obtain ⟨content, hfind⟩ := exists_file_of_mem ht hq
  rw [itemsAt_of_find hfind, itemsAt_of_find ((Files.Tree.find_remove ht hplace hp).2 hfind)]

end Removal

/-- A source leaves the same in trees in which its file has the same items. -/
theorem same_of_itemsAt {t t' : Files.Tree} {s : Source}
    (h : ∀ p, s = .file p → itemsAt t' p = itemsAt t p) (settings : Settings) :
    s.stop? t' = s.stop? t ∧ s.emission t' settings = s.emission t settings := by
  cases s with
  | missing p => exact ⟨rfl, rfl⟩
  | file p =>
    have hitems := h p rfl
    simp only [Source.stop?, Source.emission, hitems, and_self]

/-- A run over paths whose sources are separate. -/
theorem concatenates_addPaths {paths : List Files.Path}
    (hseparate : Separate t (paths.flatMap (sourcesAt t))) (g : Generator) :
    (g.addPaths t paths).stopped = none ∧
      Concatenates t g (paths.flatMap (sourcesAt t)) (g.addPaths t paths).generator :=
  concatenates_addSources hseparate g fun _ _ => ⟨rfl, rfl⟩

/-- A failing file can be left out of the paths. -/
theorem spares_addPaths {before after : List Files.Path} {p : Files.Path}
    (hseparate : Separate t ((before ++ p :: after).flatMap (sourcesAt t)))
    (hpath : sourcesAt t p = [.file p]) (g : Generator) (hfails : Fails t g.settings p) :
    (g.addPaths t (before ++ after)).stopped = none ∧
      Spares p (g.addPaths t (before ++ p :: after)).generator
        (g.addPaths t (before ++ after)).generator := by
  have hless : Separate t ((before ++ after).flatMap (sourcesAt t)) := fun s hs => by
    refine hseparate s ?_
    simp only [List.flatMap_append, List.flatMap_cons, List.mem_append] at hs ⊢
    exact hs.imp_right .inr
  obtain ⟨-, hrun⟩ := concatenates_addPaths hseparate g
  obtain ⟨hstopped, hrest⟩ := concatenates_addPaths hless g
  rw [List.flatMap_append, List.flatMap_cons, hpath, List.singleton_append] at hrun
  rw [List.flatMap_append] at hrest
  exact ⟨hstopped, hrun.spares hrest hfails⟩

/-- A failing file can be taken out of the tree. -/
theorem addPaths_remove (ht : t.IsWellFormed) {paths : List Files.Path}
    (hseparate : Separate t (paths.flatMap (sourcesAt t))) (g : Generator) {place : Files.Place}
    {bytes : List UInt8} (hplace : t.file? place = some bytes) {e : SourceError}
    (he : itemsOf bytes = .error e) :
    let less := g.addPaths (t.remove place) (paths.filter fun p => t.place? p ≠ .ok place)
    less.stopped = none ∧
      less.generator.output.text = (g.addPaths t paths).generator.output.text ∧
      Concatenates t g
        ((paths.flatMap (sourcesAt t)).filter fun s => t.place? s.path ≠ .ok place)
        less.generator := by
  intro less
  have hkept : Separate t
      ((paths.flatMap (sourcesAt t)).filter fun s => t.place? s.path ≠ .ok place) :=
    fun s hs => hseparate s (List.mem_of_mem_filter hs)
  obtain ⟨hstopped, hless⟩ := @concatenates_addSources _ t (t.remove place) _ hkept g fun s hs => by
    obtain ⟨hmem, hother⟩ := List.mem_filter.1 hs
    obtain ⟨q, -, hq⟩ := List.mem_flatMap.1 hmem
    refine same_of_itemsAt (fun p hp => ?_) g.settings
    subst hp
    exact itemsAt_remove ht hplace hq (of_decide_eq_true hother)
  have hrun : less = g.addSources (t.remove place)
      ((paths.flatMap (sourcesAt t)).filter fun s => t.place? s.path ≠ .ok place) :=
    congrArg (g.addSources (t.remove place)) (flatMap_sourcesAt_remove ht hplace paths)
  rw [← hrun] at hstopped hless
  refine ⟨hstopped, (concatenates_addPaths hseparate g).2.text_filter hless ?_, hless⟩
  intro s hs hkeep
  have hfind : t.find s.path = .ok (.file bytes) :=
    Files.Tree.find_of_file? (by simpa using hkeep) hplace
  obtain ⟨p, rfl⟩ : ∃ p, s = .file p := by
    have hpath := (hseparate s hs).1
    simp only [sourcesAt, hfind, List.cons.injEq, and_true] at hpath
    exact ⟨s.path, hpath.symm⟩
  have hitems : itemsAt t p = .error e := (itemsAt_of_find hfind).trans he
  exact (fails_of_error (hseparate _ hs).1 (hseparate _ hs).2 hitems g.settings).text

/-! ## The law -/

/-- **Files are isolated from each other.** If no file stops the run, by a code point that is too
large or by a reading without end, what it yields is what each file yields alone, one after the
other, where a folder stands for the Rust files under it. A file without items yields its name and
one warning, each diagnostic carries the path it is about, and without a file that fails all else is
the same, whether its path is left out or the file is taken out of the tree. -/
theorem addPaths_isolated (ht : t.IsWellFormed) (g : Generator) {paths : List Files.Path}
    (hends : ∀ p, .file p ∈ paths.flatMap (sourcesAt t) →
      itemsAt t p ≠ .error (.unparsable (.escape .tooLarge)) ∧
        itemsAt t p ≠ .error (.unparsable (.escape .endless))) :
    let sources := paths.flatMap (sourcesAt t)
    let run := g.addPaths t paths
    run.stopped = none ∧ Concatenates t g sources run.generator ∧
    (∀ p, t.find p = .ok .folder → ∃ place ps, t.place? p = .ok place ∧
      sourcesAt t p = ps.map .file ∧ t.IsListing p place ps) ∧
    (∀ p e, .file p ∈ sources → itemsAt t p = .error e → Fails t g.settings p) ∧
    (∀ s ∈ sources, ∀ d ∈ (alone t g.settings s.path).report.diagnostics,
      d.file = s.path.text) ∧
    (∀ before p after e, paths = before ++ p :: after → .file p ∈ sourcesAt t p →
      itemsAt t p = .error e →
        let less := g.addPaths t (before ++ after)
        less.stopped = none ∧ Spares p run.generator less.generator) ∧
    (∀ place bytes e, t.file? place = some bytes → itemsOf bytes = .error e →
      let less := g.addPaths (t.remove place) (paths.filter fun p => t.place? p ≠ .ok place)
      less.stopped = none ∧ less.generator.output.text = run.generator.output.text ∧
        Concatenates t g (sources.filter fun s => t.place? s.path ≠ .ok place)
          less.generator) := by
  intro sources run
  have hseparate : Separate t sources := separate_of_isWellFormed ht hends
  have hfails (p : Files.Path) (e : SourceError) (hp : .file p ∈ sources)
      (he : itemsAt t p = .error e) : Fails t g.settings p :=
    fails_of_error (hseparate _ hp).1 (hseparate _ hp).2 he g.settings
  obtain ⟨hstopped, hrun⟩ := concatenates_addPaths hseparate g
  refine ⟨hstopped, hrun, fun p hfind => ?_, hfails,
    fun s hs d hd => file_of_mem_alone (hseparate s hs).1 (hseparate s hs).2 hd, ?_,
    fun place bytes e hplace he => addPaths_remove ht hseparate g hplace he⟩
  · obtain ⟨place, hplace, -⟩ := Files.Tree.find_eq_ok_iff.1 hfind
    refine ⟨place, t.rustFiles p, hplace, ?_, Files.Tree.isListing_rustFiles ht hplace⟩
    simp only [sourcesAt, hfind]
  · rintro before p after e rfl hp he less
    have hmem : Source.file p ∈ sources := List.mem_flatMap.2 ⟨p, by simp, hp⟩
    exact spares_addPaths hseparate (sourcesAt_path ht hp) g (hfails p e hmem he)

end Reading

end Generator

/-! ## A file that breaks off -/

/-- The tokens of a constant that is exported. -/
def markedConst : List Rust.Token :=
  [⟨.hash, "#", ⟨1, 1⟩⟩, ⟨.lbracket, "[", ⟨1, 2⟩⟩, ⟨.identifier, "tsync", ⟨1, 3⟩⟩,
    ⟨.rbracket, "]", ⟨1, 8⟩⟩, ⟨.const, "const", ⟨1, 10⟩⟩, ⟨.identifier, "A", ⟨1, 16⟩⟩,
    ⟨.colon, ":", ⟨1, 17⟩⟩, ⟨.identifier, "u8", ⟨1, 19⟩⟩, ⟨.eq, "=", ⟨1, 22⟩⟩,
    ⟨.number, "1", ⟨1, 24⟩⟩, ⟨.semicolon, ";", ⟨1, 25⟩⟩]

/-- The constant. -/
def markedItem : Rust.Item :=
  ⟨"A", [], ⟨[], [⟨"tsync", []⟩]⟩, .const (.primitive "u8") (some (.literal "1" .number))⟩

/-- A marked constant is read in front of anything. -/
theorem parseItems_markedConst [Text.StandIn] (eof : Rust.Token) (rest : List Rust.Token) :
    Rust.parseItems eof (markedConst ++ rest) =
      (Rust.parseItems eof rest).map (markedItem :: ·) := by
  have hfront : Rust.IsPreamble eof (markedConst.take 4) ⟨[], [⟨"tsync", []⟩]⟩ :=
    .cons_attribute rfl rfl (Rust.readsBody_word rfl rfl) (Rust.isPreamble_nil eof)
  have hvisibility : Rust.piecesOf [] = Rust.Visibility.inherited.pieces := rfl
  have hitem : Rust.parseItem eof ⟨[], [⟨"tsync", []⟩]⟩ ⟨.const, "const", ⟨1, 10⟩⟩
      (markedConst.drop 5 ++ rest) =
        .ok (some ⟨markedItem, rest, by simp [markedConst]; omega⟩) := by cbv
  refine (Rust.parseItems_of_isPreamble hfront rfl hvisibility (t := ⟨.const, "const", ⟨1, 10⟩⟩)
    (markedConst.drop 5 ++ rest) (by simp)).trans ?_
  rw [hitem]
  rfl

/-- The source of the constant. -/
theorem parse_markedConst [Text.StandIn] :
    Rust.parse "#[tsync] const A: u8 = 1;" = .ok [markedItem] := by
  have htokens : Rust.tokenize "#[tsync] const A: u8 = 1;" = ⟨markedConst ++ [], ⟨1, 26⟩⟩ := by
    cbv
  have hnil : Rust.parseItems (.eof ⟨1, 26⟩) [] = .ok [] := by rw [Rust.parseItems]
  rw [Rust.parse, htokens]
  exact (parseItems_markedConst _ _).trans (congrArg (Except.map _) hnil)

namespace Generator

/-- What a file with the constant yields alone. -/
theorem text_alone_markedConst [Text.StandIn] {t : Files.Tree} {p : Files.Path}
    (hs : sourcesAt t p = [.file p]) (hitems : itemsAt t p = .ok [markedItem]) :
    (alone t .default p).output.text = "\nexport const A: number = 1;\n" := by
  have hstop : (Source.file p).stop? t = none := by simp only [Source.stop?, hitems]
  have hemission : ((Source.file p).emission t .default).text =
      "\nexport const A: number = 1;\n" := by
    simp only [Source.emission, hitems]
    decide +kernel
  exact (alone_path (s := .file p) hs hstop .default).1.trans hemission

/-- A file that breaks off behind an exported constant yields none of it, and a file with the same
constant in the same folder is as if it stood there alone. -/
theorem addPaths_brokenFile :
    let folder : Files.Path := ⟨.here, ["src"]⟩
    let broken : Files.Path := ⟨.here, ["src", "a.rs"]⟩
    let whole : Files.Path := ⟨.here, ["src", "m", "b.rs"]⟩
    let t : Files.Tree := ⟨[], [
      (["src", "m", "b.rs"], .file (Text.Utf8.encode "#[tsync] const A: u8 = 1;")),
      (["src", "a.rs"], .file (Text.Utf8.encode "#[tsync] const A: u8 = 1; struct"))]⟩
    let g := start .default false
    (t.IsWellFormed ∧ (∀ p, .file p ∈ [folder].flatMap (sourcesAt t) →
      itemsAt t p ≠ .error (.unparsable (.escape .tooLarge)) ∧
        itemsAt t p ≠ .error (.unparsable (.escape .endless)))) ∧
    Concatenates t g [.file broken, .file whole] (g.addPaths t [folder]).generator ∧
    Fails t g.settings broken ∧
    (g.addPaths t [folder]).generator.output.text =
      g.output.text ++ "\nexport const A: number = 1;\n" ∧
    (g.addPaths (t.remove ["src", "a.rs"]) [folder]).generator.output.text =
      g.output.text ++ "\nexport const A: number = 1;\n" := by
  intro folder broken whole t g
  have ht : t.IsWellFormed := by constructor <;> decide
  -- The names of the files are looked up in the table of letters, so they are compared apart.
  have hsources : [folder].flatMap (sourcesAt t) = [.file broken, .file whole] := by
    have hfind : t.find folder = .ok .folder := by cbv
    have hplace : t.place? folder = .ok ["src"] := by cbv
    have hbelow : t.filesBelow ["src"] = [["m", "b.rs"], ["a.rs"]] := by cbv
    have hrust : [["m", "b.rs"], ["a.rs"]].filter Files.Tree.isRustPlace =
        [["m", "b.rs"], ["a.rs"]] := by decide +kernel
    have hsorted : [["m", "b.rs"], ["a.rs"]].mergeSort Files.Tree.precedes =
        [["a.rs"], ["m", "b.rs"]] := by cbv
    simp only [List.flatMap_singleton, sourcesAt, hfind, Files.Tree.rustFiles, hplace, hbelow,
      hrust, hsorted]
    rfl
  have hbroken : itemsAt t broken =
      .error (.unparsable (.expected .identifier ⟨.eof, "", ⟨1, 33⟩⟩ .structName)) := by
    have hparse : Rust.parse "#[tsync] const A: u8 = 1; struct" =
        .error (.expected .identifier ⟨.eof, "", ⟨1, 33⟩⟩ .structName) := by
      have htokens : Rust.tokenize "#[tsync] const A: u8 = 1; struct" =
          ⟨markedConst ++ [⟨.struct, "struct", ⟨1, 27⟩⟩], ⟨1, 33⟩⟩ := by cbv
      have hstruct : Rust.parseItems (.eof ⟨1, 33⟩) [⟨.struct, "struct", ⟨1, 27⟩⟩] =
          .error (.expected .identifier ⟨.eof, "", ⟨1, 33⟩⟩ .structName) := by cbv
      rw [Rust.parse, htokens]
      exact (parseItems_markedConst _ _).trans (congrArg (Except.map _) hstruct)
    exact (itemsAt_of_text rfl rfl).trans (congrArg (Except.mapError _) hparse)
  have hwhole : itemsAt t whole = .ok [markedItem] :=
    (itemsAt_of_text rfl rfl).trans (congrArg (Except.mapError _) parse_markedConst)
  have hends : ∀ p, .file p ∈ [folder].flatMap (sourcesAt t) →
      itemsAt t p ≠ .error (.unparsable (.escape .tooLarge)) ∧
        itemsAt t p ≠ .error (.unparsable (.escape .endless)) := by
    intro p hp
    rw [hsources, List.mem_cons, List.mem_singleton, Source.file.injEq, Source.file.injEq] at hp
    rcases hp with rfl | rfl
    · rw [hbroken]
      simp
    · rw [hwhole]
      simp
  obtain ⟨-, hrun, -, hfails, -, -, hremove⟩ := addPaths_isolated ht g hends
  rw [hsources] at hrun hfails
  have hfailed : Fails t g.settings broken := hfails broken _ (by simp) hbroken
  have halone : (alone t g.settings whole).output.text = "\nexport const A: number = 1;\n" :=
    text_alone_markedConst rfl hwhole
  have htext : (g.addPaths t [folder]).generator.output.text =
      g.output.text ++ "\nexport const A: number = 1;\n" := by
    rw [hrun.text]
    simp [Source.path, hfailed.text, halone]
  have hbytes := (itemsAt_of_find (t := t) (p := broken) rfl).symm.trans hbroken
  have hrest := (hremove ["src", "a.rs"] _ _ rfl hbytes).2.1
  exact ⟨⟨ht, hends⟩, hrun, hfailed, htext, hrest.trans htext⟩

/-- **An escape that is never closed is read for ever**, though no code point is too large: its file
gets no warning, and the file behind it, which has a text of its own, is not reached. -/
theorem addPaths_endless :
    let first : Files.Path := ⟨.here, ["a.rs"]⟩
    let second : Files.Path := ⟨.here, ["b.rs"]⟩
    let t : Files.Tree := ⟨[], [
      (["a.rs"], .file (Text.Utf8.encode "const A: &str = \"\\u\x7b41x\";")),
      (["b.rs"], .file (Text.Utf8.encode "#[tsync] const A: u8 = 1;"))]⟩
    let g := start .default false
    let run := g.addPaths t [first, second]
    t.IsWellFormed ∧
    (∀ p, .file p ∈ [first, second].flatMap (sourcesAt t) →
      itemsAt t p ≠ .error (.unparsable (.escape .tooLarge))) ∧
    itemsAt t first = .error (.unparsable (.escape .endless)) ∧
    run.stopped = some .endless ∧
    run.generator.output.unprocessed = [] ∧ run.generator.report.diagnostics = [] ∧
    run.generator.output.text = g.output.text ∧
    (alone t g.settings second).output.text = "\nexport const A: number = 1;\n" := by
  intro first second t g run
  have hsources : [first, second].flatMap (sourcesAt t) = [.file first, .file second] := rfl
  have hfirst : itemsAt t first = .error (.unparsable (.escape .endless)) := by
    have hparse : Rust.parse "const A: &str = \"\\u\x7b41x\";" = .error (.escape .endless) := by cbv
    exact (itemsAt_of_text rfl rfl).trans (congrArg (Except.mapError _) hparse)
  have hsecond : itemsAt t second = .ok [markedItem] :=
    (itemsAt_of_text rfl rfl).trans (congrArg (Except.mapError _) parse_markedConst)
  have hstop : (Source.file first).stop? t = some .endless := by
    simp only [Source.stop?, hfirst, SourceError.stop?]
  have hreached : Reached t g (untilStop t [.file first, .file second]) run.generator :=
    reached_addSources t g [.file first, .file second]
  rw [untilStop, List.takeWhile_cons_of_neg (by simp [hstop])] at hreached
  refine ⟨by constructor <;> decide, ?_, hfirst, ?_, ?_, ?_, ?_, text_alone_markedConst rfl hsecond⟩
  · intro p hp
    rw [hsources, List.mem_cons, List.mem_singleton, Source.file.injEq, Source.file.injEq] at hp
    rcases hp with rfl | rfl
    · rw [hfirst]
      simp
    · rw [hsecond]
      simp
  · exact (stopped_addSources t g _).trans (by rw [hsources, List.findSome?_cons, hstop])
  · exact hreached.unprocessed
  · exact hreached.diagnostics
  · exact hreached.text.trans String.append_empty

end Generator
end Ferrotype
