/-
# What a run does to the files

A run writes one file or none: the output, and not in debug mode. The output path led nowhere then,
or to a file that starts with the marker line. If the run is done, the file has the generated text.
There is one way in which a run fails and has changed a file: its text holds a surrogate, and the
output, which was opened to be written, is empty.

A path that led nowhere may lead to a file once folders are made on it, and the file is then written
over, whatever it holds. Only a path with two dots in it can do so.

`run_effect` says so for all files, all command lines and all configurations.
-/

import Ferrotype.Proofs.Files.Writing
import Ferrotype.Proofs.Sources.Isolation
import Ferrotype.Proofs.Text.CodePoint
import Ferrotype.Run

namespace Ferrotype

/-! ## The file that is written over -/

/-- Whether bytes are those of a generated file: their first line is the marker. -/
def IsGenerated (bytes : List UInt8) : Prop :=
  Text.Utf8.StartsWithLine Translate.marker.toList bytes

/-- Whether a path may be written to: it leads nowhere, or to a generated file. -/
def IsFree (t : Files.Tree) (p : Files.Path) : Prop :=
  (∃ a, t.find p = .error a) ∨ ∃ bytes, t.find p = .ok (.file bytes) ∧ IsGenerated bytes

/-- A file that does not conflict with the output starts as a generated one does. -/
theorem isGenerated_of_ofBytes? {bytes : List UInt8} (h : Conflict.ofBytes? bytes = none) :
    IsGenerated bytes := by
  unfold Conflict.ofBytes? at h
  split at h
  · cases h
  · rename_i line hline
    split at h
    · rename_i hmarker
      rw [IsGenerated, ← hmarker]
      exact Text.Utf8.startsWithLine_of_firstLine hline
    · cases h

/-- No conflict is found at free paths only. -/
theorem isFree_of_find? {t : Files.Tree} {p : Files.Path} (h : Conflict.find? t p = none) :
    IsFree t p := by
  unfold Conflict.find? at h
  split at h
  · rename_i a ha
    exact .inl ⟨a, ha⟩
  · cases h
  · rename_i bytes hfile
    exact .inr ⟨bytes, hfile, isGenerated_of_ofBytes? h⟩

/-- What becomes of the files when a text is written to a path: the path was free and now leads to
the text, and no other file is another one. A file that has stood there was generated, or the path
led nowhere and steps back by two dots, and the file was out of sight until folders were made. -/
structure Written (t : Files.Tree) (p : Files.Path) (text : String) (t' : Files.Tree) : Prop where
  free : IsFree t p
  place : ∃ place, t'.place? p = .ok place ∧ t'.file? place = some (Text.Utf8.encode text) ∧
    (∀ q, q ≠ place → t'.file? q = t.file? q) ∧
    (∀ before, t.find p = .ok (.file before) → t.file? place = some before) ∧
    ∀ before, t.file? place = some before →
      IsGenerated before ∨ ".." ∈ p.names ∧ ∃ a, t.find p = .error a

/-- A file is written where the output path is free or leads to a generated file. -/
theorem written_of_write {t t' : Files.Tree} {p : Files.Path} {text : String}
    (hfree : IsFree t p) (hwrite : t.write p (Text.Utf8.encode text) = some t') :
    Written t p text t' := by
  obtain ⟨place, hplace⟩ := Files.Tree.writes_of_write hwrite
  refine ⟨hfree, place, hplace.place?, hplace.file?, hplace.others,
    fun before => hplace.file?_of_find, fun before hbefore => ?_⟩
  obtain ⟨a, habsent⟩ | ⟨bytes, hbytes, hgenerated⟩ := hfree
  · refine .inr ⟨by_contra fun hdots => ?_, a, habsent⟩
    rw [hplace.file?_of_absent hdots habsent] at hbefore
    cases hbefore
  · rw [hplace.file?_of_find hbytes] at hbefore
    cases hbefore
    exact .inl hgenerated

/-- What becomes of the files when code points are to be written to a path: their text is written,
or a file is in the way, or they hold a surrogate and the file is left empty. -/
theorem effect_writeOutput (t : Files.Tree) (p : Files.Path) (points : List Text.CodePoint) :
    match writeOutput t p points with
    | .ok written => ∃ text : String, points = text.toList.map .char ∧ Written t p text written
    | .error (.conflict _) => True
    | .error (.blocked left) => IsFree t p ∧ ∀ q, left.file? q = t.file? q
    | .error (.unencodable u left) =>
      Text.Utf8.encodePoints points = .error u ∧ Written t p "" left := by
  unfold writeOutput
  cases hfind : Conflict.find? t p with
  | some c => trivial
  | none =>
    have hfree := isFree_of_find? hfind
    cases hbytes : Text.Utf8.encodePoints points with
    | ok bytes =>
      obtain ⟨text, rfl, rfl⟩ := Text.Utf8.encodePoints_eq_ok_iff.1 hbytes
      simp only [Except.toOption, Option.getD_some]
      cases hwrite : t.write p (Text.Utf8.encode text) with
      | none => exact ⟨hfree, Files.Tree.file?_openWay t _ _⟩
      | some written => exact ⟨text, rfl, written_of_write hfree hwrite⟩
    | error u =>
      simp only [Except.toOption, Option.getD_none]
      cases hwrite : t.write p [] with
      | none => exact ⟨hfree, Files.Tree.file?_openWay t _ _⟩
      | some left => exact ⟨rfl, @written_of_write t left p "" hfree hwrite⟩

/-- With two dots a path may lead nowhere and yet to a file, once the folder before the dots is
made: what was written by hand is gone then. -/
example :
    let t : Files.Tree := ⟨[], [(["hand.ts"], .file [0x61])]⟩
    let p : Files.Path := ⟨.here, ["new", "..", "hand.ts"]⟩
    t.find p = .error .missing ∧
      (writeOutput t p []).toOption.bind (·.file? ["hand.ts"]) = some [] := by
  exact ⟨rfl, rfl⟩

/-- A text with a surrogate leaves an empty file where there was a generated one. -/
example :
    let t : Files.Tree := ⟨[], [(["x.ts"], .file (Text.Utf8.encode (Translate.marker ++ "\n")))]⟩
    writeOutput t ⟨.here, ["x.ts"]⟩ [.char 'a', .surrogate 0] =
      .error (.unencodable ⟨1, 0, 1⟩ ⟨[], [(["x.ts"], .file [])]⟩) := by
  decide +kernel

/-! ## Runs -/

namespace Run

/-- A run that comes to writing: it was understood, it is not in debug mode, and nothing stopped
it. -/
structure ComesToWriting (t : Files.Tree) (words : List String) (a : CommandLine.Arguments)
    (loaded : Config.Loaded) (plan : Plan) : Prop where
  read : CommandLine.Arguments.ofWords words = .ok a
  load : Config.load? t (configPath? a) = .ok loaded
  planned : Plan.of? a loaded.config = some plan
  quiet : a.debug = false
  silent : loaded.config.turnsOn "debug" = false
  finished : (translateInputs t plan).stopped = none

/-- What a run does to the files. -/
inductive Effect (t : Files.Tree) (words : List String) (o : Outcome) : Prop
  /-- The run ended early, or does not end, for whatever reason, and the files are as before. -/
  | stopped (status : o.status ≠ .done) (files : o.files = t)
  /-- The program described itself. -/
  | helped (a : CommandLine.Arguments) (read : CommandLine.Arguments.ofWords words = .ok a)
    (help : a.help = true) (files : o.files = t)
  /-- The text was shown, in debug mode. -/
  | shown (a : CommandLine.Arguments) (loaded : Config.Loaded)
    (read : CommandLine.Arguments.ofWords words = .ok a)
    (load : Config.load? t (configPath? a) = .ok loaded)
    (debug : a.debug = true ∨ loaded.config.turnsOn "debug" = true) (files : o.files = t)
  /-- A file was in the way to the output. Folders may have been made before it, but no file is
  another one. -/
  | blocked (a : CommandLine.Arguments) (loaded : Config.Loaded) (plan : Plan)
    (comes : ComesToWriting t words a loaded plan) (free : IsFree t plan.output)
    (status : o.status = .failed (.blocked plan.output))
    (files : ∀ q, o.files.file? q = t.file? q)
  /-- The text holds a surrogate, which is found out only when the output has been opened: the run
  has failed and has left the output empty. -/
  | emptied (a : CommandLine.Arguments) (loaded : Config.Loaded) (plan : Plan)
    (comes : ComesToWriting t words a loaded plan) (u : Text.Utf8.Unencodable)
    (unencodable : Text.Utf8.encodePoints (generated t plan) = .error u)
    (status : o.status = .failed (.unencodable u)) (written : Written t plan.output "" o.files)
  /-- The text was written to the output. -/
  | wrote (a : CommandLine.Arguments) (loaded : Config.Loaded) (plan : Plan)
    (comes : ComesToWriting t words a loaded plan) (status : o.status = .done) (text : String)
    (generated : generated t plan = text.toList.map .char)
    (written : Written t plan.output text o.files)

/-- A run with a plan translates its inputs and delivers their text. -/
theorem run_eq_execute {t : Files.Tree} {words : List String} {a : CommandLine.Arguments}
    {loaded : Config.Loaded} {plan : Plan} (hread : CommandLine.Arguments.ofWords words = .ok a)
    (hhelp : a.help = false) (hload : Config.load? t (configPath? a) = .ok loaded)
    (hplan : Plan.of? a loaded.config = some plan) :
    run t words = execute t (warnings (configPath? a) loaded) plan := by
  simp only [run, hread, hhelp, Bool.false_eq_true, if_false, withArguments, hload, hplan]

/-- The text of a run is the marker line and what its inputs yield. -/
theorem generated_eq (t : Files.Tree) (plan : Plan) :
    generated t plan = (Translate.marker ++ "\n").toList.map .char ++
      Text.codePoints (@Generator.textOfPaths .first t plan.settings plan.inputs)
        (@Generator.textOfPaths .second t plan.settings plan.inputs) := by
  have htext (standIn : Text.StandIn) : (translateInputs t plan).generator.output.text =
      Translate.marker ++ "\n" ++ Generator.textOfPaths t plan.settings plan.inputs :=
    Generator.text_addPaths t plan.inputs (Generator.start plan.settings false)
  rw [generated, htext .first, htext .second, Text.codePoints_append]

/-- The settings of a translation are those of its plan. -/
theorem settings_translateInputs (t : Files.Tree) (plan : Plan) :
    (translateInputs t plan).generator.settings = plan.settings :=
  (Generator.reached_addSources t _ _).settings

/-- The settings of a plan are in debug mode if the arguments or the configuration say so. -/
theorem debug_of_of? {a : CommandLine.Arguments} {c : Config} {plan : Plan}
    (h : Plan.of? a c = some plan) : plan.settings.debug = (a.debug || c.turnsOn "debug") := by
  simp only [Plan.of?, Option.bind_eq_bind, Option.bind_eq_some_iff] at h
  obtain ⟨inputs, -, output, -, hplan⟩ := h
  cases hplan
  rfl

/-- A run that shows its text leaves the files alone. -/
theorem files_showText (t : Files.Tree) (told : List String) (g : Generator)
    (text : List Text.CodePoint) : (showText t told g text).files = t := by
  unfold showText
  cases Text.Utf8.encodePoints text <;> rfl

/-- A run that has come to writing does what writing does. -/
theorem effect_writeText {t : Files.Tree} {words : List String} {a : CommandLine.Arguments}
    {loaded : Config.Loaded} {plan : Plan} (h : ComesToWriting t words a loaded plan)
    (told : List String) (g : Generator) :
    Effect t words (writeText t plan.output told g (generated t plan)) := by
  have heffect := effect_writeOutput t plan.output (generated t plan)
  unfold writeText
  cases hwrite : writeOutput t plan.output (generated t plan) with
  | ok written =>
    rw [hwrite] at heffect
    obtain ⟨text, htext, hwritten⟩ := heffect
    exact .wrote a loaded plan h rfl text htext hwritten
  | error e =>
    rw [hwrite] at heffect
    cases e with
    | conflict c => exact .stopped (by simp) rfl
    | blocked left => exact .blocked a loaded plan h heffect.1 rfl heffect.2
    | unencodable u left => exact .emptied a loaded plan h u heffect.1 rfl heffect.2

/-- A run with a plan that has been read. -/
theorem effect_execute {t : Files.Tree} {words : List String} {a : CommandLine.Arguments}
    {loaded : Config.Loaded} {plan : Plan} (told : List String)
    (hread : CommandLine.Arguments.ofWords words = .ok a)
    (hload : Config.load? t (configPath? a) = .ok loaded)
    (hplan : Plan.of? a loaded.config = some plan) : Effect t words (execute t told plan) := by
  unfold execute
  simp only
  cases hstop : (translateInputs t plan).stopped with
  | some e => exact .stopped (by cases e <;> simp [Status.ofObstacle]) rfl
  | none =>
    have hdebug : (translateInputs t plan).generator.settings.debug =
        (a.debug || loaded.config.turnsOn "debug") := by
      rw [settings_translateInputs, debug_of_of? hplan]
    simp only [deliver, hdebug]
    split
    · rename_i hshown
      exact .shown a loaded hread hload (by simpa using hshown) (files_showText _ _ _ _)
    · rename_i hsilent
      have hsilent' : a.debug = false ∧ loaded.config.turnsOn "debug" = false := by
        simpa using hsilent
      exact effect_writeText ⟨hread, hload, hplan, hsilent'.1, hsilent'.2, hstop⟩ _ _

end Run

/-- **The effect of a run**, whatever files there are and however the program is called. -/
theorem run_effect (t : Files.Tree) (words : List String) :
    Run.Effect t words (run t words) := by
  unfold run
  cases hread : CommandLine.Arguments.ofWords words with
  | error e => exact .stopped (by simp) rfl
  | ok a =>
    cases hhelp : a.help with
    | true => exact .helped a hread hhelp (by simp [hhelp])
    | false =>
      simp only [hhelp, Bool.false_eq_true, if_false, Run.withArguments]
      cases hload : Config.load? t (Run.configPath? a) with
      | error f => exact .stopped (by simp) rfl
      | ok loaded =>
        cases hplan : Run.Plan.of? a loaded.config with
        | none => exact .stopped (by simp [hplan]) (by simp [hplan])
        | some plan =>
          simp only [hplan]
          exact Run.effect_execute _ hread hload hplan

/-! ## A constant that names a surrogate -/

/-- A source that exports a constant with a surrogate. -/
def surrogateSource : String := "#[tsync] const A: &str = \"\\u\x7bD800\x7d\";"

/-- Its tokens behind the keyword of the constant. -/
def surrogateTokens : List Rust.Token :=
  [⟨.identifier, "A", ⟨1, 16⟩⟩, ⟨.colon, ":", ⟨1, 17⟩⟩, ⟨.ampersand, "&", ⟨1, 19⟩⟩,
    ⟨.identifier, "str", ⟨1, 20⟩⟩, ⟨.eq, "=", ⟨1, 24⟩⟩,
    ⟨.string, "\"\\u\x7bD800\x7d\"", ⟨1, 26⟩⟩, ⟨.semicolon, ";", ⟨1, 36⟩⟩]

/-- The constant, as it is read with a stand-in. -/
def surrogateItem (c : Char) : Rust.Item :=
  ⟨"A", [], ⟨[], [⟨"tsync", []⟩]⟩,
    .const (.primitive "str") (some (.literal (String.ofList [c]) .string))⟩

/-- The source holds the one constant, if its tokens are read as that. -/
theorem parse_surrogateSource [Text.StandIn] {c : Char}
    (hitem : Rust.parseItem (.eof ⟨1, 37⟩) ⟨[], [⟨"tsync", []⟩]⟩ ⟨.const, "const", ⟨1, 10⟩⟩
      surrogateTokens = .ok (some ⟨surrogateItem c, [], by simp [surrogateTokens]⟩)) :
    Rust.parse surrogateSource = .ok [surrogateItem c] := by
  have htokens : Rust.tokenize surrogateSource =
      ⟨markedConst.take 4 ++ ⟨.const, "const", ⟨1, 10⟩⟩ :: surrogateTokens, ⟨1, 37⟩⟩ := by cbv
  have hfront : Rust.IsPreamble (.eof ⟨1, 37⟩) (markedConst.take 4) ⟨[], [⟨"tsync", []⟩]⟩ :=
    .cons_attribute rfl rfl (Rust.readsBody_word rfl rfl) (Rust.isPreamble_nil _)
  have hvisibility : Rust.piecesOf [] = Rust.Visibility.inherited.pieces := rfl
  have hnil : Rust.parseItems (.eof ⟨1, 37⟩) [] = .ok [] := by rw [Rust.parseItems]
  have hread := Rust.parseItems_of_isPreamble hfront rfl hvisibility
    (t := ⟨.const, "const", ⟨1, 10⟩⟩) surrogateTokens (by simp)
  rw [Rust.parse, htokens]
  refine hread.trans ?_
  rw [hitem]
  exact congrArg (Except.map _) hnil

/-- The place where the program runs, with this source and a file that was generated before. -/
def surrogateTree : Files.Tree := ⟨[], [
  (["a.rs"], .file (Text.Utf8.encode surrogateSource)),
  (["x.ts"], .file (Text.Utf8.encode (Translate.marker ++ "\n")))]⟩

/-- What is to be done with it. -/
def surrogatePlan : Run.Plan := ⟨[⟨.here, ["a.rs"]⟩], ⟨.here, ["x.ts"]⟩, .default⟩

/-- The text of this source, as it is read with a stand-in. -/
theorem textOfPaths_surrogateTree [Text.StandIn] {c : Char} {text : String}
    (hparse : Rust.parse surrogateSource = .ok [surrogateItem c])
    (htext : (Translate.ofItems .default [surrogateItem c]).text = text) :
    let p : Files.Path := ⟨.here, ["a.rs"]⟩
    (Source.file p).stop? surrogateTree = none ∧
      Generator.textOfPaths surrogateTree surrogatePlan.settings surrogatePlan.inputs = text := by
  intro p
  have hitems : itemsAt surrogateTree p = .ok [surrogateItem c] :=
    (Generator.itemsAt_of_text rfl rfl).trans (congrArg (Except.mapError _) hparse)
  have hstop : (Source.file p).stop? surrogateTree = none := by simp only [Source.stop?, hitems]
  have hsources : [p].flatMap (sourcesAt surrogateTree) = [.file p] := rfl
  have hemission : ((Source.file p).emission surrogateTree .default).text = text := by
    simp only [Source.emission, hitems, htext]
  refine ⟨hstop, ?_⟩
  change Generator.textOfSources surrogateTree .default ([p].flatMap (sourcesAt surrogateTree)) = _
  rw [hsources, Generator.textOfSources_cons, hstop, hemission]
  exact String.append_empty

/-- **A run that fails and has emptied its output.** -/
theorem run_surrogateTree :
    let o := run surrogateTree ["-i", "a.rs", "-o", "x.ts"]
    o.status = .failed (.unencodable ⟨77, 0, 1⟩) ∧ o.files.file? ["x.ts"] = some [] := by
  intro o
  have hread : CommandLine.Arguments.ofWords ["-i", "a.rs", "-o", "x.ts"] =
      .ok ⟨false, [some "a.rs"], some (some "x.ts"), false, false, none, []⟩ := by decide +kernel
  have hplan : Run.Plan.of? ⟨false, [some "a.rs"], some (some "x.ts"), false, false, none, []⟩ [] =
      some surrogatePlan := by decide +kernel
  have hload : Config.load? surrogateTree none = .ok ⟨[], none⟩ := rfl
  have hrun : o = Run.execute surrogateTree [] surrogatePlan :=
    Run.run_eq_execute hread rfl hload hplan
  -- The two readings of its text.
  obtain ⟨hstop, hfirst⟩ := @textOfPaths_surrogateTree .first (Char.ofNat 0xE800)
    "\nexport const A: string = \"\ue800\";\n" (@parse_surrogateSource .first _ (by cbv))
    (by decide +kernel)
  obtain ⟨-, hsecond⟩ := @textOfPaths_surrogateTree .second (Char.ofNat 0xF000)
    "\nexport const A: string = \"\uf000\";\n" (@parse_surrogateSource .second _ (by cbv))
    (by decide +kernel)
  have hgenerated := Run.generated_eq surrogateTree surrogatePlan
  rw [hfirst, hsecond] at hgenerated
  have hstopped : (Run.translateInputs surrogateTree surrogatePlan).stopped = none :=
    (Generator.stopped_addPaths_eq_none_iff _).2 fun s hs => by
      obtain rfl : s = .file ⟨.here, ["a.rs"]⟩ := List.mem_singleton.1 hs
      exact hstop
  have hwrite : writeOutput surrogateTree surrogatePlan.output
      (Run.generated surrogateTree surrogatePlan) =
      .error (.unencodable ⟨77, 0, 1⟩ ⟨[], [(["x.ts"], .file []),
        (["a.rs"], .file (Text.Utf8.encode surrogateSource))]⟩) := by
    rw [hgenerated]
    decide +kernel
  have hsettings := Run.settings_translateInputs surrogateTree surrogatePlan
  have hquiet :
      (Run.translateInputs surrogateTree surrogatePlan).generator.settings.debug = false := by
    rw [hsettings]
    rfl
  rw [hrun]
  simp only [Run.execute, hstopped, Run.deliver, hquiet, Bool.false_eq_true, if_false,
    Run.writeText, hwrite, true_and]
  rfl

end Ferrotype
