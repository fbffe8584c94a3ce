/-
# Running again

A run that has written its output is run again on the files that there are then. It writes the same
output: its inputs and its configuration are read as before, and the guard lets a file that was
generated be written over.

This needs that the output is none of what is read, and one thing more. The run may make folders for
its output, and a path through one of them that comes out of it again by two dots leads nowhere
before the run and to a file after it (`run_again_throughNew`). `run_again` says that without such
paths nothing changes.
-/

import Ferrotype.Proofs.Files.Rewriting
import Ferrotype.Proofs.Run.Effect
import Ferrotype.Proofs.Sources.Isolation
import Ferrotype.Proofs.Text.Encoded

namespace Ferrotype

/-! ## The guard -/

/-- What is generated is known by its first line. -/
theorem ofBytes?_encode (rest : String) :
    Conflict.ofBytes? (Text.Utf8.encode (Translate.marker ++ "\n" ++ rest)) = none := by
  have hbreak : ∃ c ∈ (Translate.marker ++ "\n").toList, Text.isBreak c := ⟨'\n', by decide, rfl⟩
  have hline : Text.firstLine (Translate.marker ++ "\n").toList = Translate.marker.toList := by
    decide
  rw [Conflict.ofBytes?, Text.Utf8.firstLine_encode, String.toList_append,
    Text.Utf8.firstLine_append hbreak, hline]
  exact if_pos rfl

/-! ## Inputs -/

section Reading

variable [Text.StandIn]

/-- What becomes of a path in another tree. It stands for the same files with the same items, or it
led nowhere and stands for no file now. -/
inductive Rereads (t t' : Files.Tree) (p : Files.Path) : Prop
  | same (sources : sourcesAt t' p = sourcesAt t p)
    (items : ∀ q, .file q ∈ sourcesAt t p → itemsAt t' q = itemsAt t q)
  | emptied (before : sourcesAt t p = [.missing p]) (after : sourcesAt t' p = [])

section Inputs

variable {t t' : Files.Tree} {place : Files.Place} (ht : t.IsWellFormed)
  (h : Files.Tree.Gains t t' place)

include ht h in
/-- **A path is read as before** if the file that was written is none of those it stands for. -/
theorem rereads_of_gains {p : Files.Path} (hclear : Files.Tree.KeepsClear t t' p)
    (hother : t'.place? p ≠ .ok place)
    (hbelow : ∀ q names, t'.place? p = .ok q → place = q ++ names →
      Files.Tree.isRustPlace names = false) : Rereads t t' p := by
  cases hfind : t'.find p with
  | error a =>
    obtain ⟨a', hbefore⟩ := h.find_error hfind
    refine .same (by simp only [sourcesAt, hfind, hbefore]) fun q hq => ?_
    simp [sourcesAt, hbefore] at hq
  | ok e =>
    cases e with
    | file bytes =>
      have hbefore := h.find_of_find' hfind hother hclear
      refine .same (by simp only [sourcesAt, hfind, hbefore]) fun q hq => ?_
      obtain rfl : q = p := by simpa [sourcesAt, hbefore] using hq
      rw [itemsAt_of_find hfind, itemsAt_of_find hbefore]
    | folder =>
      obtain ⟨hbefore, hfiles⟩ | ⟨⟨a, hbefore⟩, hfiles⟩ := h.find_folder hfind hclear hbelow
      · refine .same (by simp only [sourcesAt, hfind, hbefore, hfiles]) fun q hq => ?_
        have hmem : q ∈ t.rustFiles p := by simpa [sourcesAt, hbefore] using hq
        obtain ⟨r, hr, -⟩ := Files.Tree.find_eq_ok_iff.1 hbefore
        obtain ⟨names, bytes, rfl, -, hrust, hfile⟩ :=
          ((Files.Tree.isListing_rustFiles ht hr).mem q).1 hmem
        obtain ⟨hway, hbytes⟩ := Files.Tree.find_below ht hr hfile
        have hne : t'.place? (p.below names) ≠ .ok place := fun heq => by
          have hplace := Except.ok.inj ((h.place? hway).symm.trans heq)
          rw [hbelow r names (h.place? hr) hplace.symm] at hrust
          cases hrust
        rw [itemsAt_of_find hbytes, itemsAt_of_find (h.find_of_find hbytes hne)]
      · exact .emptied (by simp only [sourcesAt, hbefore]) (by simp [sourcesAt, hfind, hfiles])

/-- Sources that leave the same are followed by the same. -/
theorem textOfSources_append {settings : Settings} {sources after after' : List Source}
    (hsame : ∀ s ∈ sources, s.stop? t' = s.stop? t ∧
      s.emission t' settings = s.emission t settings)
    (hafter : Generator.textOfSources t' settings after' =
      Generator.textOfSources t settings after) :
    Generator.textOfSources t' settings (sources ++ after') =
      Generator.textOfSources t settings (sources ++ after) := by
  induction sources with
  | nil => exact hafter
  | cons s sources ih =>
    rw [List.cons_append, List.cons_append, Generator.textOfSources_cons,
      Generator.textOfSources_cons, (hsame s List.mem_cons_self).1, (hsame s List.mem_cons_self).2,
      ih fun r hr => hsame r (List.mem_cons_of_mem s hr)]

/-- Paths that are read as before have the text that they have had. -/
theorem textOfPaths_of_rereads {paths : List Files.Path} (hpaths : ∀ p ∈ paths, Rereads t t' p)
    (settings : Settings) :
    Generator.textOfPaths t' settings paths = Generator.textOfPaths t settings paths := by
  induction paths with
  | nil => rfl
  | cons p paths ih =>
    have hrest := ih fun q hq => hpaths q (List.mem_cons_of_mem p hq)
    rw [Generator.textOfPaths, Generator.textOfPaths, List.flatMap_cons, List.flatMap_cons]
    cases hpaths p List.mem_cons_self with
    | same sources items =>
      rw [sources]
      exact textOfSources_append
        (fun s hs => Generator.same_of_itemsAt (fun q hq => items q (hq ▸ hs)) settings) hrest
    | emptied before after =>
      rw [before, after, List.nil_append, List.singleton_append, Generator.textOfSources_cons]
      have hmissing : (Source.missing p).stop? t = none := rfl
      rw [hmissing]
      exact hrest.trans String.empty_append.symm

/-- Nothing stops at paths that are read as before if nothing has. -/
theorem stop?_of_rereads {paths : List Files.Path} (hpaths : ∀ p ∈ paths, Rereads t t' p)
    (hstop : ∀ s ∈ paths.flatMap (sourcesAt t), s.stop? t = none) :
    ∀ s ∈ paths.flatMap (sourcesAt t'), s.stop? t' = none := by
  intro s hs
  obtain ⟨p, hp, hs⟩ := List.mem_flatMap.1 hs
  cases hpaths p hp with
  | same sources items =>
    rw [sources] at hs
    rw [(Generator.same_of_itemsAt (fun q hq => items q (hq ▸ hs)) default).1]
    exact hstop s (List.mem_flatMap.2 ⟨p, hp, hs⟩)
  | emptied before after =>
    rw [after] at hs
    cases hs

end Inputs

end Reading

/-! ## Configurations -/

/-- A path is read as before, or it cannot be read, as before. -/
theorem read_of_gains {t t' : Files.Tree} {place : Files.Place} (h : Files.Tree.Gains t t' place)
    {p : Files.Path} (hclear : Files.Tree.KeepsClear t t' p) (hother : t'.place? p ≠ .ok place) :
    t'.read p = t.read p ∨ ∃ e e', t.read p = .error e ∧ t'.read p = .error e' := by
  cases hfind : t'.find p with
  | error a =>
    obtain ⟨a', hbefore⟩ := h.find_error hfind
    exact .inr ⟨.absent a', .absent a, by simp only [Files.Tree.read, hbefore],
      by simp only [Files.Tree.read, hfind]⟩
  | ok e =>
    cases e with
    | file bytes =>
      have hbefore := h.find_of_find' hfind hother hclear
      exact .inl (by simp only [Files.Tree.read, hfind, hbefore])
    | folder =>
      cases hbefore : t.find p with
      | error a =>
        exact .inr ⟨.absent a, .isFolder, by simp only [Files.Tree.read, hbefore],
          by simp only [Files.Tree.read, hfind]⟩
      | ok e =>
        cases e with
        | folder => exact .inl (by simp only [Files.Tree.read, hfind, hbefore])
        | file bytes =>
          rw [h.find_of_find hbefore hother] at hfind
          cases hfind

/-- **A configuration is loaded as before**, but for the words of a warning. -/
theorem load?_of_gains {t t' : Files.Tree} {place : Files.Place}
    (h : Files.Tree.Gains t t' place) {p : Option Files.Path}
    (hclear : ∀ q ∈ p, Files.Tree.KeepsClear t t' q) (hother : ∀ q ∈ p, t'.place? q ≠ .ok place)
    {loaded : Config.Loaded} (hload : Config.load? t p = .ok loaded) :
    ∃ loaded', Config.load? t' p = .ok loaded' ∧ loaded'.config = loaded.config := by
  cases p with
  | none => exact ⟨loaded, hload, rfl⟩
  | some p =>
    simp only [Config.load?, Config.load] at hload ⊢
    obtain hread | ⟨e, e', hread, hread'⟩ :=
      read_of_gains h (hclear p rfl) (hother p rfl)
    · rw [hread]
      exact ⟨loaded, hload, rfl⟩
    · rw [hread] at hload
      rw [hread']
      exact ⟨_, rfl, by rw [← Except.ok.inj hload]; rfl⟩

/-! ## Runs -/

namespace Run

/-- A run that has written its output, with what it has read on the way. -/
structure Wrote (t : Files.Tree) (words : List String) (a : CommandLine.Arguments)
    (loaded : Config.Loaded) (plan : Plan) : Prop where
  read : CommandLine.Arguments.ofWords words = .ok a
  help : a.help = false
  load : Config.load? t (configPath? a) = .ok loaded
  planned : Plan.of? a loaded.config = some plan
  quiet : plan.settings.debug = false
  done : (run t words).status = .done

/-- Whether the output of a run is none of what it reads: neither an input, nor a Rust file under
one, nor the configuration. -/
structure IsSeparate (t : Files.Tree) (a : CommandLine.Arguments) (plan : Plan) : Prop where
  inputs : ∀ p ∈ plan.inputs, t.place? p ≠ t.place? plan.output
  below : ∀ p ∈ plan.inputs, ∀ folder names, t.place? p = .ok folder →
    t.place? plan.output = .ok (folder ++ names) → Files.Tree.isRustPlace names = false
  config : ∀ p ∈ configPath? a, t.place? p ≠ t.place? plan.output

variable {t : Files.Tree} {words : List String} {a : CommandLine.Arguments}
  {loaded : Config.Loaded} {plan : Plan}

/-- A run that is not in debug mode is done if and only if nothing stops it and its text can be
written. -/
theorem execute_done_iff (hquiet : plan.settings.debug = false) (told : List String)
    {t' : Files.Tree} :
    (execute t told plan).status = .done ∧ (execute t told plan).files = t' ↔
      (translateInputs t plan).stopped = none ∧
        writeOutput t plan.output (generated t plan) = .ok t' := by
  have hdebug : (translateInputs t plan).generator.settings.debug = false := by
    rw [settings_translateInputs, hquiet]
  cases hstop : (translateInputs t plan).stopped with
  | some e => cases e <;> simp [execute, hstop, Status.ofObstacle]
  | none =>
    simp only [execute, hstop, deliver, hdebug, Bool.false_eq_true, if_false, true_and, writeText]
    cases hwrite : writeOutput t plan.output (generated t plan) with
    | ok written => simp [finish]
    | error e => cases e <;> simp

/-- What is written is a text without surrogates, and the tree is that of the write. -/
theorem write_of_writeOutput {t' : Files.Tree} {p : Files.Path} {points : List Text.CodePoint}
    (h : writeOutput t p points = .ok t') : ∃ text : String,
      points = text.toList.map .char ∧ t.write p (Text.Utf8.encode text) = some t' := by
  unfold writeOutput at h
  split at h
  · cases h
  · cases hbytes : Text.Utf8.encodePoints points with
    | error u =>
      rw [hbytes] at h
      simp only at h
      split at h <;> cases h
    | ok bytes =>
      obtain ⟨text, rfl, rfl⟩ := Text.Utf8.encodePoints_eq_ok_iff.1 hbytes
      rw [hbytes] at h
      simp only [Except.toOption, Option.getD_some] at h
      split at h
      · cases h
      · rename_i written hwrite
        rw [← Except.ok.inj h]
        exact ⟨text, rfl, hwrite⟩

/-- A text that was written is written where no conflict is and the writing goes through. -/
theorem writeOutput_of_write {t' : Files.Tree} {p : Files.Path} {text : String}
    (hfree : Conflict.find? t p = none) (h : t.write p (Text.Utf8.encode text) = some t') :
    writeOutput t p (text.toList.map .char) = .ok t' := by
  simp only [writeOutput, hfree, Text.Utf8.encodePoints_map, Except.toOption, Option.getD_some, h]

/-- A text that was generated is known by its first line. -/
theorem exists_of_generated {text : String} (h : generated t plan = text.toList.map .char) :
    ∃ rest : String, text = Translate.marker ++ "\n" ++ rest := by
  rw [generated_eq, eq_comm, List.map_eq_append_iff] at h
  obtain ⟨front, rest, htext, hfront, -⟩ := h
  have hfront' := List.map_injective_iff.2 (fun a b hab => Text.CodePoint.char.inj hab) hfront
  refine ⟨String.ofList rest, String.toList_inj.1 ?_⟩
  rw [htext, hfront', String.toList_append (s := Translate.marker ++ "\n"), String.toList_ofList]

/-- **Regenerating changes nothing.** After a run that has written its output, a run with the same
words on the files that there are then writes the same files, all of them: the guard accepts what
was written. The output must be none of what the run reads, and no path that is read may come by two
dots out of a folder that the run has made. -/
theorem run_again (ht : t.IsWellFormed) (h : Wrote t words a loaded plan)
    (hseparate : IsSeparate (run t words).files a plan)
    (hclear : ∀ p, p ∈ plan.inputs ∨ p ∈ configPath? a →
      Files.Tree.KeepsClear t (run t words).files p) :
    Conflict.find? (run t words).files plan.output = none ∧
      (run (run t words).files words).status = .done ∧
      (run (run t words).files words).files = (run t words).files := by
  generalize hfiles : (run t words).files = t' at hseparate hclear ⊢
  have hrun := run_eq_execute h.read h.help h.load h.planned
  obtain ⟨hstopped, hwritten⟩ := (execute_done_iff h.quiet _).1
    ⟨hrun ▸ h.done, (congrArg Outcome.files hrun).symm.trans hfiles⟩
  -- What the first run has done.
  obtain ⟨text, htext, hwrite⟩ := write_of_writeOutput hwritten
  obtain ⟨rest, hmarker⟩ := exists_of_generated htext
  obtain ⟨place, hplace, hbytes, hgains⟩ := Files.Tree.gains_of_write ht.showsFiles hwrite
  -- What the second run reads, with either choice of stand-ins.
  have hpaths (standIn : Text.StandIn) : ∀ p ∈ plan.inputs, Rereads t t' p := fun p hp =>
    rereads_of_gains ht hgains (hclear p (.inl hp)) (hplace ▸ hseparate.inputs p hp)
      fun q names hq heq => hseparate.below p hp q names hq (heq ▸ hplace)
  obtain ⟨loaded', hload', hconfig⟩ := load?_of_gains hgains (fun p hp => hclear p (.inr hp))
    (fun p hp => hplace ▸ hseparate.config p hp) h.load
  have hstopped' : (translateInputs t' plan).stopped = none :=
    (Generator.stopped_addPaths_eq_none_iff _).2 (stop?_of_rereads (hpaths .first)
      ((Generator.stopped_addPaths_eq_none_iff _).1 hstopped))
  have htext' : generated t' plan = text.toList.map .char := by
    rw [← htext, generated_eq, generated_eq,
      @textOfPaths_of_rereads .first _ _ _ (hpaths .first),
      @textOfPaths_of_rereads .second _ _ _ (hpaths .second)]
  -- What it writes.
  have hfree : Conflict.find? t' plan.output = none := by
    simp only [Conflict.find?, Files.Tree.find_of_file? hplace hbytes, hmarker, ofBytes?_encode]
  have hrun' := run_eq_execute h.read h.help hload' (hconfig ▸ h.planned)
  rw [hrun']
  refine ⟨hfree, (execute_done_iff h.quiet _).2 ⟨hstopped', ?_⟩⟩
  rw [htext']
  exact writeOutput_of_write hfree (Files.Tree.write_again hwrite)

/-! ## A file with one constant -/

/-- A source that exports a constant. -/
def constSource : String := "#[tsync] const A: u8 = 1;"

/-- The place where the program runs, with this source in it. -/
def constTree : Files.Tree := ⟨[], [(["a.rs"], .file (Text.Utf8.encode constSource))]⟩

/-- What there is after a text was written into a new folder. -/
def writtenTree (text : String) : Files.Tree :=
  ⟨[], [(["new", "x.ts"], .file (Text.Utf8.encode text)), (["new"], .folder),
    (["a.rs"], .file (Text.Utf8.encode constSource))]⟩

/-- The arguments that name an input and the output. -/
def argumentsOf (input : String) : CommandLine.Arguments :=
  ⟨false, [some input], some (some "new/x.ts"), false, false, none, []⟩

/-- What is to be done with these arguments. -/
def planOf (input : Files.Path) : Plan := ⟨[input], ⟨.here, ["new", "x.ts"]⟩, .default⟩

/-- The tree with one source is well-formed. -/
theorem isWellFormed_constTree : constTree.IsWellFormed := by constructor <;> decide

/-- A file with this source holds the one constant. -/
theorem itemsAt_constSource [Text.StandIn] {t : Files.Tree} {p : Files.Path}
    (h : t.find p = .ok (.file (Text.Utf8.encode constSource))) :
    itemsAt t p = .ok [markedItem] := by
  have hread : t.read p = .ok (Text.Utf8.encode constSource) := by
    simp only [Files.Tree.read, h]
  have htext : Files.textOf (Text.Utf8.encode constSource) = .ok constSource.toList := rfl
  rw [Generator.itemsAt_of_text hread htext, constSource, parse_markedConst]
  rfl

/-- The text for a file with this source, which nothing stops. -/
theorem textOfPaths_constSource [Text.StandIn] {t : Files.Tree} {p : Files.Path}
    (h : t.find p = .ok (.file (Text.Utf8.encode constSource))) :
    (∀ s ∈ [p].flatMap (sourcesAt t), s.stop? t = none) ∧
      Generator.textOfPaths t .default [p] = "\nexport const A: number = 1;\n" := by
  have hsources : [p].flatMap (sourcesAt t) = [.file p] := by simp [sourcesAt, h]
  have hitems := itemsAt_constSource h
  have hstop : (Source.file p).stop? t = none := by simp only [Source.stop?, hitems]
  refine ⟨fun s hs => ?_, ?_⟩
  · rw [hsources, List.mem_singleton] at hs
    rw [hs, hstop]
  · have htext : ((Source.file p).emission t .default).text =
        "\nexport const A: number = 1;\n" := by
      simp only [Source.emission, hitems]
      decide +kernel
    rw [Generator.textOfPaths, hsources, Generator.textOfSources_cons, hstop, htext]
    rfl

/-- In the tree with one source any text is written into a new folder. -/
theorem writeOutput_constTree (text : String) :
    writeOutput constTree ⟨.here, ["new", "x.ts"]⟩ (text.toList.map .char) =
      .ok (writtenTree text) :=
  writeOutput_of_write rfl rfl

/-- What was generated is written over. -/
theorem writeOutput_writtenTree (rest text : String) :
    writeOutput (writtenTree (Translate.marker ++ "\n" ++ rest)) ⟨.here, ["new", "x.ts"]⟩
      (text.toList.map .char) = .ok (writtenTree text) := by
  have hfind : (writtenTree (Translate.marker ++ "\n" ++ rest)).find ⟨.here, ["new", "x.ts"]⟩ =
      .ok (.file (Text.Utf8.encode (Translate.marker ++ "\n" ++ rest))) := rfl
  refine writeOutput_of_write ?_ rfl
  simp only [Conflict.find?, hfind, ofBytes?_encode]

/-- A run that writes into the new folder, where the text of its input is known. -/
theorem run_writes {t : Files.Tree} {input : String} {p : Files.Path} {text : String}
    (hwrite : ∀ text : String, writeOutput t ⟨.here, ["new", "x.ts"]⟩ (text.toList.map .char) =
      .ok (writtenTree text))
    (hread : CommandLine.Arguments.ofWords ["-i", input, "-o", "new/x.ts"] =
      .ok (argumentsOf input))
    (hplan : Plan.of? (argumentsOf input) [] = some (planOf p))
    (hstop : ∀ s ∈ [p].flatMap (sourcesAt t), s.stop? t = none)
    (htext : ∀ [Text.StandIn], Generator.textOfPaths t .default [p] = text) :
    let words := ["-i", input, "-o", "new/x.ts"]
    Wrote t words (argumentsOf input) ⟨[], none⟩ (planOf p) ∧
      (run t words).files = writtenTree (Translate.marker ++ "\n" ++ text) := by
  intro words
  have hstopped : (translateInputs t (planOf p)).stopped = none :=
    (Generator.stopped_addPaths_eq_none_iff _).2 hstop
  have hall : generated t (planOf p) =
      (Translate.marker ++ "\n" ++ text).toList.map .char := by
    have hsame (standIn : Text.StandIn) :
        Generator.textOfPaths t (planOf p).settings (planOf p).inputs = text := htext
    rw [generated_eq, hsame .first, hsame .second, Text.codePoints_self,
      String.toList_append (s := Translate.marker ++ "\n"), List.map_append]
  have hrun : run t words = execute t (warnings none ⟨[], none⟩) (planOf p) :=
    @run_eq_execute t words (argumentsOf input) ⟨[], none⟩ (planOf p) hread rfl rfl hplan
  obtain ⟨hdone, hfiles⟩ := (@execute_done_iff t (planOf p) rfl (warnings none ⟨[], none⟩)
    (writtenTree (Translate.marker ++ "\n" ++ text))).2 ⟨hstopped, by
      rw [hall]
      exact hwrite _⟩
  rw [← hrun] at hdone hfiles
  exact ⟨⟨hread, rfl, rfl, hplan, rfl, hdone⟩, hfiles⟩

/-- An input path that leads to the source is none of the output. -/
theorem isSeparate_writtenTree {text input : String} {p : Files.Path}
    (hp : (writtenTree text).place? p = .ok ["a.rs"]) :
    IsSeparate (writtenTree text) (argumentsOf input) (planOf p) := by
  have houtput : (writtenTree text).place? (planOf p).output = .ok ["new", "x.ts"] := rfl
  refine ⟨fun q hq => ?_, fun q hq folder names hfolder hnames => ?_, fun q hq => ?_⟩
  · obtain rfl := List.mem_singleton.1 hq
    rw [hp, houtput]
    simp
  · obtain rfl := List.mem_singleton.1 hq
    rw [hp] at hfolder
    cases hfolder
    simp [houtput] at hnames
  · simp [configPath?, argumentsOf] at hq

/-- A run with this source writes the constant, and a run with the same words changes nothing. -/
theorem run_again_constTree :
    let words := ["-i", "a.rs", "-o", "new/x.ts"]
    let a := argumentsOf "a.rs"
    let plan := planOf ⟨.here, ["a.rs"]⟩
    constTree.IsWellFormed ∧ Wrote constTree words a ⟨[], none⟩ plan ∧
      IsSeparate (run constTree words).files a plan ∧
      (∀ p, p ∈ plan.inputs ∨ p ∈ configPath? a →
        Files.Tree.KeepsClear constTree (run constTree words).files p) ∧
      (run constTree words).files =
        writtenTree (Translate.marker ++ "\n" ++ "\nexport const A: number = 1;\n") ∧
      (run (run constTree words).files words).files = (run constTree words).files := by
  intro words a plan
  have hsource [Text.StandIn] :=
    textOfPaths_constSource (t := constTree) (p := ⟨.here, ["a.rs"]⟩) rfl
  obtain ⟨hwrote, hfiles⟩ :=
    @run_writes _ "a.rs" _ _ writeOutput_constTree (by decide +kernel) (by decide +kernel)
      hsource.1 hsource.2
  have hseparate : IsSeparate (run constTree words).files a plan := by
    rw [hfiles]
    exact isSeparate_writtenTree rfl
  have hclear : ∀ p, p ∈ plan.inputs ∨ p ∈ configPath? a →
      Files.Tree.KeepsClear constTree (run constTree words).files p := by
    rintro p (hp | hp)
    · obtain rfl := List.mem_singleton.1 hp
      intro front back hnames
      have hdots : ".." ∈ front ++ ".." :: back := List.mem_append_right front List.mem_cons_self
      rw [← hnames] at hdots
      simp at hdots
    · simp [configPath?, a, argumentsOf] at hp
  exact ⟨isWellFormed_constTree, hwrote, hseparate, hclear, hfiles,
    (run_again isWellFormed_constTree hwrote hseparate hclear).2.2⟩

/-- **A path through a folder that a run makes can be read only after it.** The output is none of
what is read, and yet a run with the same words writes another one. -/
theorem run_again_throughNew :
    let words := ["-i", "new/../a.rs", "-o", "new/x.ts"]
    let a := argumentsOf "new/../a.rs"
    let plan := planOf ⟨.here, ["new", "..", "a.rs"]⟩
    constTree.IsWellFormed ∧ Wrote constTree words a ⟨[], none⟩ plan ∧
      IsSeparate (run constTree words).files a plan ∧
      (run (run constTree words).files words).files ≠ (run constTree words).files := by
  intro words a plan
  have hread : CommandLine.Arguments.ofWords words = .ok a := by decide +kernel
  have hplan : Plan.of? a [] = some plan := by decide +kernel
  -- The path leads nowhere at first.
  have hstop : ∀ s ∈ plan.inputs.flatMap (sourcesAt constTree), s.stop? constTree = none := by
    intro s hs
    obtain rfl : s = .missing ⟨.here, ["new", "..", "a.rs"]⟩ := List.mem_singleton.1 hs
    rfl
  have htext [Text.StandIn] : Generator.textOfPaths constTree .default plan.inputs = "" := rfl
  obtain ⟨hwrote, hfiles⟩ := run_writes writeOutput_constTree hread hplan hstop htext
  refine ⟨isWellFormed_constTree, hwrote, by rw [hfiles]; exact isSeparate_writtenTree rfl, ?_⟩
  -- With the new folder it leads to the source.
  have hsource [Text.StandIn] := textOfPaths_constSource
    (t := writtenTree (Translate.marker ++ "\n" ++ "")) (p := ⟨.here, ["new", "..", "a.rs"]⟩) rfl
  have hfiles' :=
    (run_writes (writeOutput_writtenTree "") hread hplan hsource.1 hsource.2).2
  rw [hfiles, hfiles']
  intro heq
  have hbytes : Text.Utf8.encode
      (Translate.marker ++ "\n" ++ "\nexport const A: number = 1;\n") =
        Text.Utf8.encode (Translate.marker ++ "\n" ++ "") := by
    simpa [writtenTree] using heq
  exact absurd hbytes (by decide +kernel)

end Run
end Ferrotype
