/-
# How far sources lead

Sources are translated in their order, and what one of them leaves does not depend on those before
it: the items of a file, or its name and one warning. A file that is missing, undecodable or
unparsable stops nothing, with two exceptions: a code point that does not fit 32 bits ends the run
at the file that holds it, and an escape without a closing brace keeps it there for ever. All this
holds for either reading of the surrogates.

`addPaths_progress` says where a run over paths stops and what has come of the sources before.
-/

import Ferrotype.Sources
import Mathlib

namespace Ferrotype

/-! ## What a source leaves -/

namespace Source

/-- The path of a source. -/
def path : Source → Files.Path
  | missing p => p
  | file p => p

/-- What stops a run at a source, if something does. -/
def stop? [Text.StandIn] (t : Files.Tree) : Source → Option Obstacle
  | missing _ => none
  | file p =>
    match itemsAt t p with
    | .ok _ => none
    | .error e => e.stop?

/-- A source that is left out: its name and one finding. -/
def leftOut (p : Files.Path) (f : Finding) : Emission := ⟨"", [p.text], [f], []⟩

/-- What a source leaves in a run that it does not stop. -/
def emission [Text.StandIn] (t : Files.Tree) (settings : Settings) : Source → Emission
  | missing p => leftOut p .missingPath
  | file p =>
    match itemsAt t p with
    | .ok items => Translate.ofItems settings items
    | .error e => leftOut p (.parseFailure (e.message p))

/-- The diagnostics about a source. -/
def diagnostics [Text.StandIn] (t : Files.Tree) (settings : Settings) (s : Source) :
    List Diagnostic :=
  (s.emission t settings).findings.map (·.diagnostic s.path.text)

end Source

namespace Generator

section Reading

variable [Text.StandIn]

/-- A generator after sources: what it has taken in is what they leave, in their order. -/
structure Reached (t : Files.Tree) (g : Generator) (sources : List Source) (g' : Generator) :
    Prop where
  settings : g'.settings = g.settings
  text : g'.output.text =
    g.output.text ++ Text.concat (sources.map fun s => (s.emission t g.settings).text)
  unprocessed : g'.output.unprocessed =
    g.output.unprocessed ++ sources.flatMap fun s => (s.emission t g.settings).unprocessed
  diagnostics : g'.report.diagnostics =
    g.report.diagnostics ++ sources.flatMap fun s => s.diagnostics t g.settings

/-- Without sources nothing changes. -/
theorem Reached.refl (t : Files.Tree) (g : Generator) : Reached t g [] g := by
  constructor <;> simp

/-- One source and then others. -/
theorem Reached.cons {t : Files.Tree} {g g' g'' : Generator} {s : Source} {sources : List Source}
    (h : Reached t g [s] g') (h' : Reached t g' sources g'') : Reached t g (s :: sources) g'' where
  settings := h'.settings.trans h.settings
  text := by
    rw [h'.text, h.text, h.settings]
    simp [String.append_assoc]
  unprocessed := by
    rw [h'.unprocessed, h.unprocessed, h.settings]
    simp
  diagnostics := by
    rw [h'.diagnostics, h.diagnostics, h.settings]
    simp

/-! ## One source -/

/-- A source stops the reading exactly if there is a reason why it does. -/
theorem stopped_addSource (t : Files.Tree) (g : Generator) (s : Source) :
    (g.addSource t s).stopped = s.stop? t := by
  cases s with
  | missing p => rfl
  | file p =>
    simp only [addSource, addFile, Source.stop?]
    cases itemsAt t p with
    | ok items => rfl
    | error e =>
      simp only
      cases e.stop? <;> rfl

/-- The items of a file leave what their emission holds. -/
theorem reached_generate {t : Files.Tree} (g : Generator) {p : Files.Path} {items : List Rust.Item}
    (h : itemsAt t p = .ok items) : Reached t g [.file p] ((g.enter p).generate items) := by
  have hemission : (Source.file p).emission t g.settings = Translate.ofItems g.settings items := by
    simp only [Source.emission, h]
  refine ⟨rfl, ?_, ?_, ?_⟩
  · rw [List.map_singleton, hemission, Text.concat_cons, Text.concat_nil,
      String.append_empty]
    exact Output.text_push g.output _
  · rw [List.flatMap_singleton, hemission]
    rfl
  · rw [List.flatMap_singleton, Source.diagnostics, hemission]
    rfl

/-- A source that is left out leaves its name and what was found. -/
theorem reached_leaveOut {t : Files.Tree} (g g' : Generator) {s : Source} {f : Finding}
    (hemission : s.emission t g.settings = Source.leftOut s.path f)
    (hsettings : g'.settings = g.settings) (houtput : g'.output = g.output.leaveOut [s.path.text])
    (hreport : g'.report.diagnostics = (g.report.findIn s.path.text [f]).diagnostics) :
    Reached t g [s] g' := by
  refine ⟨hsettings, ?_, ?_, ?_⟩
  · rw [List.map_singleton, hemission, Text.concat_cons, Text.concat_nil, houtput,
      Source.leftOut, String.append_empty, String.append_empty]
    rfl
  · rw [List.flatMap_singleton, hemission, houtput]
    rfl
  · rw [List.flatMap_singleton, Source.diagnostics, hemission, hreport]
    rfl

/-- A source that does not stop the run leaves what it has to. -/
theorem reached_addSource {t : Files.Tree} {s : Source} (h : s.stop? t = none) (g : Generator) :
    Reached t g [s] (g.addSource t s).generator := by
  cases s with
  | missing p => exact reached_leaveOut g _ rfl rfl rfl rfl
  | file p =>
    cases hitems : itemsAt t p with
    | ok items =>
      simp only [addSource, addFile, hitems]
      exact reached_generate g hitems
    | error e =>
      have hstop : e.stop? = none := by simpa only [Source.stop?, hitems] using h
      simp only [addSource, addFile, hitems, hstop]
      exact reached_leaveOut g _ (by simp only [Source.emission, hitems, Source.path]) rfl rfl rfl

/-- A source that stops the run leaves nothing. -/
theorem reached_of_stop {t : Files.Tree} {s : Source} {e : Obstacle}
    (h : s.stop? t = some e) (g : Generator) : Reached t g [] (g.addSource t s).generator := by
  cases s with
  | missing p => cases h
  | file p =>
    cases hitems : itemsAt t p with
    | ok items => simp [Source.stop?, hitems] at h
    | error e' =>
      have hstop : e'.stop? = some e := by simpa only [Source.stop?, hitems] using h
      simp only [addSource, addFile, hitems, hstop]
      exact ⟨rfl, (String.append_empty).symm, (List.append_nil _).symm, (List.append_nil _).symm⟩

/-! ## All sources -/

/-- The sources before the first one that stops the run. -/
def untilStop (t : Files.Tree) (sources : List Source) : List Source :=
  sources.takeWhile fun s => (s.stop? t).isNone

/-- The first source that stops decides. -/
theorem stopped_addSources (t : Files.Tree) (g : Generator) (sources : List Source) :
    (g.addSources t sources).stopped = sources.findSome? (Source.stop? t) := by
  induction sources generalizing g with
  | nil => rfl
  | cons s sources ih =>
    have hfirst := stopped_addSource t g s
    rw [addSources, List.findSome?_cons, ← hfirst]
    cases hstop : (g.addSource t s).stopped with
    | none => simp only [ih]
    | some e => simp only [hstop]

/-- Up to the first source that stops, every one adds what it holds. The induction is on the
sources. -/
theorem reached_addSources (t : Files.Tree) (g : Generator) (sources : List Source) :
    Reached t g (untilStop t sources) (g.addSources t sources).generator := by
  induction sources generalizing g with
  | nil => exact .refl t g
  | cons s sources ih =>
    have hfirst := stopped_addSource t g s
    cases hstop : s.stop? t with
    | none =>
      rw [untilStop, List.takeWhile_cons_of_pos (by simp [hstop]), addSources]
      simp only [hfirst, hstop]
      exact (reached_addSource hstop g).cons (ih _)
    | some e =>
      rw [untilStop, List.takeWhile_cons_of_neg (by simp [hstop]), addSources]
      simp only [hfirst, hstop]
      exact reached_of_stop hstop g

/-! ## The text of paths -/

/-- The text of sources, up to one that stops. -/
def textOfSources (t : Files.Tree) (settings : Settings) (sources : List Source) : String :=
  Text.concat ((untilStop t sources).map fun s => (s.emission t settings).text)

/-- The text of all that some paths stand for. -/
def textOfPaths (t : Files.Tree) (settings : Settings) (paths : List Files.Path) : String :=
  textOfSources t settings (paths.flatMap (sourcesAt t))

/-- The text of the first source stands in front of the others, unless it stops. -/
theorem textOfSources_cons (t : Files.Tree) (settings : Settings) (s : Source)
    (sources : List Source) : textOfSources t settings (s :: sources) =
      if (s.stop? t).isNone then
        (s.emission t settings).text ++ textOfSources t settings sources
      else "" := by
  rw [textOfSources, untilStop, List.takeWhile_cons]
  split
  · rw [List.map_cons, Text.concat_cons]
    rfl
  · rfl

/-- What paths yield. -/
theorem text_addPaths (t : Files.Tree) (paths : List Files.Path) (g : Generator) :
    (g.addPaths t paths).generator.output.text =
      g.output.text ++ textOfPaths t g.settings paths :=
  (reached_addSources t g (paths.flatMap (sourcesAt t))).text

/-- Nothing stops the reading of paths exactly if none of their sources does. -/
theorem stopped_addPaths_eq_none_iff {t : Files.Tree} {paths : List Files.Path} (g : Generator) :
    (g.addPaths t paths).stopped = none ↔
      ∀ s ∈ paths.flatMap (sourcesAt t), s.stop? t = none := by
  rw [addPaths, stopped_addSources, List.findSome?_eq_none_iff]

/-- A source stops only if it is a file with a code point that is too large, or with an escape that
never ends. -/
theorem stop?_eq_none_iff {t : Files.Tree} {s : Source} :
    s.stop? t = none ↔
      ∀ p, s = .file p → itemsAt t p ≠ .error (.unparsable (.escape .tooLarge)) ∧
        itemsAt t p ≠ .error (.unparsable (.escape .endless)) := by
  cases s with
  | missing p => simp [Source.stop?]
  | file p =>
    simp only [Source.stop?, Source.file.injEq, forall_eq']
    cases itemsAt t p with
    | ok items => simp
    | error e =>
      simp only [SourceError.stop?, ne_eq, Except.error.injEq]
      split <;> simp_all

/-- **A run over paths.** It stops nowhere but at a file with a code point that does not fit 32
bits, or with an escape whose reading never ends. What has come of the sources before the stop, or
of all of them, is what they leave, each in its turn; a file that has no items leaves its name and
one warning. -/
theorem addPaths_progress (t : Files.Tree) (g : Generator) (paths : List Files.Path) :
    ((g.addPaths t paths).stopped = none ↔
      ∀ p, .file p ∈ paths.flatMap (sourcesAt t) →
        itemsAt t p ≠ .error (.unparsable (.escape .tooLarge)) ∧
          itemsAt t p ≠ .error (.unparsable (.escape .endless))) ∧
    ((g.addPaths t paths).stopped = none ↔
      untilStop t (paths.flatMap (sourcesAt t)) = paths.flatMap (sourcesAt t)) ∧
    Reached t g (untilStop t (paths.flatMap (sourcesAt t))) (g.addPaths t paths).generator ∧
    ∀ p e, itemsAt t p = .error e →
      (Source.file p).emission t g.settings = ⟨"", [p.text], [.parseFailure (e.message p)], []⟩ ∧
      ∃ d, (Source.file p).diagnostics t g.settings = [d] ∧ d.code = "W001" ∧
        d.severity = .warning ∧ d.file = p.text := by
  refine ⟨?_, ?_, reached_addSources t g _, ?_⟩
  · rw [addPaths, stopped_addSources, List.findSome?_eq_none_iff]
    exact ⟨fun h p hp => stop?_eq_none_iff.1 (h _ hp) p rfl,
      fun h s hs => stop?_eq_none_iff.2 fun p hp => h p (hp ▸ hs)⟩
  · rw [addPaths, stopped_addSources, List.findSome?_eq_none_iff, untilStop,
      List.takeWhile_eq_self_iff]
    simp only [Option.isNone_iff_eq_none]
  · intro p e he
    have hemission : (Source.file p).emission t g.settings =
        Source.leftOut p (.parseFailure (e.message p)) := by simp only [Source.emission, he]
    refine ⟨hemission, Finding.diagnostic p.text (.parseFailure (e.message p)), ?_, rfl, rfl, rfl⟩
    rw [Source.diagnostics, hemission]
    rfl

/-- The items in the file at a path, when its text is known. -/
theorem itemsAt_of_text {t : Files.Tree} {p : Files.Path} {bytes : List UInt8} {text : String}
    (hread : t.read p = .ok bytes) (htext : Files.textOf bytes = .ok text.toList) :
    itemsAt t p = (Rust.parse text).mapError .unparsable := by
  simp only [itemsAt, itemsOf, hread, htext, String.ofList_toList]

end Reading

/-- A code point that does not fit 32 bits stops a run, though a file that breaks off would only
have left its name. -/
theorem stopped_of_large_code_point :
    let large : Files.Path := ⟨.here, ["large.rs"]⟩
    let broken : Files.Path := ⟨.here, ["broken.rs"]⟩
    let t : Files.Tree := ⟨[], [
      (["large.rs"], .file (Text.Utf8.encode "const A: &str = \"\\u\x7b80000000\x7d\";")),
      (["broken.rs"], .file (Text.Utf8.encode "struct"))]⟩
    let g := start .default false
    (g.addPaths t [large, broken]).stopped ≠ none ∧
      ∃ e, itemsAt t broken = .error e ∧ (Source.file broken).emission t g.settings =
        ⟨"", ["broken.rs"], [.parseFailure (e.message broken)], []⟩ := by
  intro large broken t g
  have hlarge : itemsAt t large = .error (.unparsable (.escape .tooLarge)) := by
    have hparse : Rust.parse "const A: &str = \"\\u\x7b80000000\x7d\";" =
        .error (.escape .tooLarge) := by cbv
    exact (itemsAt_of_text rfl rfl).trans (congrArg (Except.mapError _) hparse)
  have hbroken : itemsAt t broken =
      .error (.unparsable (.expected .identifier ⟨.eof, "", ⟨1, 7⟩⟩ .structName)) := by
    have hparse : Rust.parse "struct" =
        .error (.expected .identifier ⟨.eof, "", ⟨1, 7⟩⟩ .structName) := by cbv
    exact (itemsAt_of_text rfl rfl).trans (congrArg (Except.mapError _) hparse)
  have hsource : Source.file large ∈ [large, broken].flatMap (sourcesAt t) := by decide
  obtain ⟨hstop, -, -, hleft⟩ := addPaths_progress t g [large, broken]
  exact ⟨fun h => (hstop.1 h large hsource).1 hlarge, _, hbroken, (hleft broken _ hbroken).1⟩

end Generator
end Ferrotype
