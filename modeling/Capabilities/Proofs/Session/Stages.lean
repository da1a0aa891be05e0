import Capabilities.Proofs.Session.Analysis
import Capabilities.Script.Parse

/-!
# How far a file has come

The stage of a file, its binding and its imports object are kept in three tables, which different
methods write to in different hooks. They agree at every moment between two steps of a session
(`State.Agrees`): resetting a file clears all three, and a pass that binds a file fills all three or
leaves them as they are. A file without a stage is one that was never loaded (`Staged`).

What an analysis leaves says more, since every loaded file is settled then. A file is bound if and
only if its present text consumes, and it is bound to what that text declares.
-/

namespace Capabilities.Resolver

open Host Script Session Capabilities.Types Capabilities.Module

variable {config : Config} {mail : Mail} {file text : String} {before after work : Work}

/-! ### The three tables -/

/-- The stage of a file, its binding and its imports object agree. -/
structure State.Agrees (state : State) (file : String) : Prop where
  bound : state.stage file = .bound ↔ (state.binding? file).isSome = true
  object : (state.binding? file).isSome = true ↔ (state.importsObject? file).isSome = true
  named : ∀ binding, state.binding? file = some binding → binding.file = file

theorem State.Agrees.of_same {first second : State} (h : first.Agrees file)
    (hstage : second.stages.get? file = first.stages.get? file)
    (hbinding : second.binding? file = first.binding? file)
    (hobject : second.importsObject? file = first.importsObject? file) : second.Agrees file := by
  have hsame : second.stage file = first.stage file := by
    unfold State.stage
    rw [hstage]
  constructor
  · rw [hsame, hbinding]
    exact h.bound
  · rw [hbinding, hobject]
    exact h.object
  · rw [hbinding]
    exact h.named

/-- Nothing is known of a file that has just been parsed. -/
theorem State.agrees_of_parsed {state : State} (hstage : state.stage file ≠ .bound)
    (hbinding : state.binding? file = none) (hobject : state.importsObject? file = none) :
    state.Agrees file := by
  refine ⟨iff_of_false hstage ?_, ?_, fun binding h => ?_⟩
  · rw [hbinding]
    simp
  · rw [hbinding, hobject]
    rfl
  · rw [hbinding] at h
    cases h

theorem Bound.stage_eq {names : List String} {done : List ConsumerSite} {object : TypeId}
    (h : Bound config mail work file names done object) : work.state.stage file = .bound := by
  unfold State.stage
  rw [h.stage]
  rfl

theorem Bound.agrees {names : List String} {done : List ConsumerSite} {object : TypeId}
    (h : Bound config mail work file names done object) : work.state.Agrees file := by
  refine ⟨iff_of_true h.stage_eq ?_, ?_, fun binding hbinding => ?_⟩
  · rw [h.binding]
    rfl
  · rw [h.binding, h.has_object]
    exact iff_of_true rfl rfl
  · rw [h.binding] at hbinding
    cases hbinding
    exact ImportsBinding.file_ofNames file _ names

variable [Parser]

theorem Passed.agrees (h : Passed config mail before after file text)
    (hbefore : before.state.Agrees file) : after.state.Agrees file := by
  rcases h with hkeeps | ⟨names, object, _, hbound⟩
  · exact hbefore.of_same hkeeps.stage hkeeps.binding hkeeps.object
  · exact hbound.agrees

theorem Passed.stage_ne_unparsed (h : Passed config mail before after file text)
    (hbefore : before.state.stage file ≠ .unparsed) : after.state.stage file ≠ .unparsed := by
  rcases h with hkeeps | ⟨names, object, _, hbound⟩
  · unfold State.stage at hbefore ⊢
    rw [hkeeps.stage]
    exact hbefore
  · rw [hbound.stage_eq]
    rintro ⟨⟩

/-! ### What a session keeps -/

/-- The tables agree about every file, and the stages tell which files were ever loaded. -/
structure Staged (texts : List (String × String)) (work : Work) : Prop where
  agrees : ∀ file, work.state.Agrees file
  unparsed : ∀ file, work.state.stage file = .unparsed ↔ file ∉ texts.map Prod.fst
  loaded : ∀ file, work.program.isLoaded file = true → file ∈ texts.map Prod.fst

theorem Staged.load {texts : List (String × String)} {path : String} {origin : Option String}
    {shift : Shift} {asked : List PendingFile} (h : Staged texts before)
    (hloads : Work.Loads config path text origin shift asked before after) :
    Staged (texts ++ [(path, text)]) after := by
  have hstages : ∀ other, after.state.stages.get? other =
      if other = path then some .parsed else before.state.stages.get? other := by
    intro other
    have hput : after.state.stages =
        (before.state.stages.put path .unparsed).put path .parsed := by
      rw [hloads.state]
      rfl
    rw [hput, Keyed.get?_put, Keyed.get?_put]
    split
    · rfl
    · rfl
  have hself : after.state.stage path = .parsed := by
    unfold State.stage
    rw [hstages, if_pos rfl]
    rfl
  have hmem : ∀ other, other ∈ (texts ++ [(path, text)]).map Prod.fst ↔
      other ∈ texts.map Prod.fst ∨ other = path := by
    intro other
    rw [List.map_append, List.mem_append, List.map_singleton, List.mem_singleton]
  refine ⟨fun other => ?_, fun other => ?_, fun other hother => ?_⟩
  · by_cases hother : other = path
    · subst hother
      refine State.agrees_of_parsed ?_ ?_ ?_
      · rw [hself]
        rintro ⟨⟩
      · rw [hloads.binding?, if_pos rfl]
      · rw [hloads.importsObject?, if_pos rfl]
    · refine (h.agrees other).of_same ?_ ?_ ?_
      · rw [hstages, if_neg hother]
      · rw [hloads.binding?, if_neg hother]
      · rw [hloads.importsObject?, if_neg hother]
  · rw [hmem]
    by_cases hother : other = path
    · rw [hother, hself]
      exact iff_of_false (by rintro ⟨⟩) fun hnot => hnot (Or.inr rfl)
    · have hsame : after.state.stage other = before.state.stage other := by
        unfold State.stage
        rw [hstages, if_neg hother]
      rw [hsame, h.unparsed, or_iff_left hother]
  · rw [hmem]
    by_cases hsame : other = path
    · exact Or.inr hsame
    · refine Or.inl (h.loaded other ?_)
      rw [← Program.isLoaded_congr (hloads.get?_of_ne hsame)]
      exact hother

/-- A pass fills the tables for loaded files only, and for each of them all three or none. -/
theorem Staged.pass {texts : List (String × String)} (h : Staged texts work)
    (hready : Ready config work) (mail : Mail) : Staged texts (bindProgram config mail work) := by
  obtain ⟨_, hadvances, _, _, hfiles⟩ := hready.bindProgram mail
  have hpassed : ∀ file, work.program.isLoaded file = true →
      ∃ text, Passed config mail work (bindProgram config mail work) file text := by
    intro file hloaded
    obtain ⟨loaded, hget⟩ := Option.isSome_iff_exists.1 hloaded
    have hsource : work.program.file? file = some loaded.source := by
      unfold Program.file?
      rw [hget]
      rfl
    obtain ⟨text, htext, _⟩ := hready.loaded file _ hsource
    exact ⟨text, (hfiles file text (htext ▸ hsource)).2⟩
  refine ⟨fun file => ?_, fun file => ?_, fun file hloaded => ?_⟩
  · cases hloaded : work.program.isLoaded file with
    | true =>
      obtain ⟨text, hfile⟩ := hpassed file hloaded
      exact hfile.agrees (h.agrees file)
    | false =>
      have hkeeps := hready.keeps_bindProgram mail hloaded
      exact (h.agrees file).of_same hkeeps.stage hkeeps.binding hkeeps.object
  · cases hloaded : work.program.isLoaded file with
    | true =>
      obtain ⟨text, hfile⟩ := hpassed file hloaded
      have hmem := h.loaded file hloaded
      refine iff_of_false (hfile.stage_ne_unparsed ?_) fun hnot => hnot hmem
      exact fun hunparsed => (h.unparsed file).1 hunparsed hmem
    | false =>
      have hkeeps := hready.keeps_bindProgram mail hloaded
      rw [← h.unparsed]
      unfold State.stage
      rw [hkeeps.stage]
  · refine h.loaded file ?_
    unfold Program.isLoaded at hloaded ⊢
    rw [← hadvances.files]
    exact hloaded

theorem invariant_staged (config : Config) : Invariant config Staged := by
  refine ⟨⟨?_, ?_, ?_, ?_⟩, ?_⟩
  · exact fun texts work queue failed h => ⟨h.agrees, h.unparsed, h.loaded⟩
  · exact fun texts path text origin shift asked before after _ _ hloads h => h.load hloads
  · intro texts work path text _ h
    refine ⟨h.agrees, h.unparsed, fun file hfile => h.loaded file ?_⟩
    change (work.program.files.erase path).contains file = true at hfile
    unfold Keyed.contains at hfile
    rw [Keyed.get?_erase] at hfile
    split at hfile
    · cases hfile
    · exact hfile
  · exact fun texts work mail hready h => h.pass hready mail
  · intro table
    refine ⟨fun file => ?_, fun file => iff_of_true rfl List.not_mem_nil, fun file hfile => ?_⟩
    · exact State.agrees_of_parsed (by rintro ⟨⟩) rfl rfl
    · cases hfile

/-! ### After a pass -/

omit [Parser] in
theorem sites_ne_nil_iff {program : Program} {root : Node} :
    sites config program file root ≠ [] ↔ ∃ entry ∈ entries [config.consumerEntry] root,
      (ConsumerSite.locate? program file entry).isSome = true := by
  constructor
  · intro hne
    obtain ⟨site, hsite⟩ := List.exists_mem_of_ne_nil _ hne
    obtain ⟨entry, hentry, hlocate⟩ := List.mem_filterMap.1 hsite
    exact ⟨entry, hentry, Option.isSome_iff_exists.2 ⟨site, hlocate⟩⟩
  · rintro ⟨entry, hentry, hlocate⟩
    obtain ⟨site, hlocate⟩ := Option.isSome_iff_exists.1 hlocate
    exact List.ne_nil_of_mem (List.mem_filterMap.2 ⟨entry, hentry, hlocate⟩)

/-- A loaded file consumes: its text says what, and some entry function receives it. -/
structure ConsumesAs (config : Config) (program : Program) (file : String) (source : SourceFile)
    (names : List String) : Prop where
  declared : (declaration .consumes config.entryNames source.root).names? = some names
  received : ∃ entry ∈ entries [config.consumerEntry] source.root,
    (ConsumerSite.locate? program file entry).isSome = true

/-- When nothing is left to do, a loaded file is bound if and only if it consumes, and to just what
    it declares. -/
theorem Complete.bound_iff {source : SourceFile} (h : Complete config mail work)
    (hready : Ready config work) (hagrees : work.state.Agrees file)
    (hfile : work.program.file? file = some source) :
    (work.state.stage file = .bound ↔
        ∃ names, ConsumesAs config work.program file source names) ∧
      ∀ binding, work.state.binding? file = some binding →
        ∃ names, ConsumesAs config work.program file source names ∧
          binding.declared = names.eraseDups := by
  obtain ⟨text, rfl, hattached⟩ := hready.loaded file source hfile
  have hsettled := h.of_file? hfile
  have hconsumes : ∀ binding, work.state.binding? file = some binding →
      ∃ names, ConsumesAs config work.program file (.ofText file text) names ∧
        sites config work.program file (parse text) ≠ [] := by
    intro binding hbinding
    have hdone : ¬((declaration .consumes config.entryNames (parse text)).names? = none ∨
        sites config work.program file (parse text) = []) := by
      intro hnot
      rw [hattached.undeclared hnot] at hbinding
      cases hbinding
    obtain ⟨hnames, hsites⟩ := not_or.1 hdone
    obtain ⟨names, hnames⟩ := Option.ne_none_iff_exists'.1 hnames
    exact ⟨names, ⟨hnames, sites_ne_nil_iff.1 hsites⟩, hsites⟩
  refine ⟨⟨?_, ?_⟩, ?_⟩
  · intro hstage
    obtain ⟨binding, hbinding⟩ := Option.isSome_iff_exists.1 (hagrees.bound.1 hstage)
    obtain ⟨names, hnames, _⟩ := hconsumes binding hbinding
    exact ⟨names, hnames⟩
  · rintro ⟨names, hdeclared, hreceived⟩
    obtain ⟨object, hbound⟩ := hsettled.bound names hdeclared (sites_ne_nil_iff.2 hreceived)
    exact hbound.stage_eq
  · intro binding hbinding
    obtain ⟨names, hnames, hsites⟩ := hconsumes binding hbinding
    obtain ⟨object, hbound⟩ := hsettled.bound names hnames.declared hsites
    rw [hbound.binding] at hbinding
    cases hbinding
    exact ⟨names, hnames, ImportsBinding.declared_ofNames file _ names⟩

end Capabilities.Resolver

namespace Capabilities.Session.Engine

open Host Script Resolver Capabilities.Module

variable {config : Config} {others : Nat} {engine : Engine Installed} {steps : List Step}
  {resolver : ResolverPlugin}

/-- Between any two steps of a session whose resolver is enabled: a file is bound if and only if it
    has a binding, and if and only if it has an imports object; it is unparsed if and only if it was
    never loaded; and its binding is its own. After an analysis a loaded file is bound if and only
    if its present text consumes, and to just what that declares. -/
theorem stages_agree [Parser] (hstart : engine.Starts config others)
    (hresolver : (engine.run steps).resolver? = some resolver)
    (henabled : resolver.isEnabled = true) :
    (∀ file, resolver.state.Agrees file ∧
      (resolver.state.stage file = .unparsed ↔ file ∉ engine.loads steps)) ∧
    ∀ before read mail, steps = before ++ [.analyze read mail] →
      ∀ file source, (engine.run steps).program.file? file = some source →
        (resolver.state.stage file = .bound ↔
          ∃ names, ConsumesAs config (engine.run steps).program file source names) ∧
        ∀ binding, resolver.state.binding? file = some binding →
          ∃ names, ConsumesAs config (engine.run steps).program file source names ∧
            binding.declared = names.eraseDups := by
  obtain ⟨texts, hpaths, hworks⟩ := hstart.works (invariant_staged config) hresolver henabled
  refine ⟨fun file => ⟨hworks.holds.agrees file, ?_⟩, ?_⟩
  · rw [← hpaths]
    exact hworks.holds.unparsed file
  · rintro before read mail rfl file source hfile
    obtain ⟨_, _, hlast, _, hcomplete, _⟩ :=
      hstart.analyzed (invariant_staged config) hresolver henabled
    exact hcomplete.bound_iff hlast.ready (hlast.holds.agrees file) hfile

/-- A consumer is analyzed, then its text is replaced by one without an entry function. -/
def emptiedSteps : List Step :=
  [.addFile "a.js" (some consumerText) none, .analyze (fun _ => none) [],
    .updateFile "a.js" "var a = 1;"]

theorem stage_emptied :
    (alone.run (emptiedSteps.take 2)).resolver?.map (·.state.stage "a.js") = some .bound ∧
    (alone.run (emptiedSteps ++ [.analyze (fun _ => none) []])).resolver?.map
      ResolverPlugin.isEnabled = some true ∧
    alone.loads (emptiedSteps ++ [.analyze (fun _ => none) []]) = ["a.js", "a.js"] ∧
    ((alone.run (emptiedSteps ++ [.analyze (fun _ => none) []])).program.file? "a.js").isSome =
      true ∧
    ∀ source ∈ (alone.run (emptiedSteps ++ [.analyze (fun _ => none) []])).program.file? "a.js",
      (entries ["main"] source.root).length = 0 := by
  decide +kernel

/-- The binding that the file had is gone, and its imports object with it. -/
theorem stages_agree_emptied :
    (alone.run (emptiedSteps.take 2)).resolver?.map (·.state.stage "a.js") = some .bound ∧
    ∃ resolver, (alone.run (emptiedSteps ++ [.analyze (fun _ => none) []])).resolver? =
        some resolver ∧
      resolver.state.binding? "a.js" = none ∧ resolver.state.importsObject? "a.js" = none ∧
      resolver.state.stage "a.js" ≠ .unparsed := by
  obtain ⟨hbound, hresolver, hloads, hfile, hempty⟩ := stage_emptied
  obtain ⟨resolver, hresolver, henabled⟩ := Option.map_eq_some_iff.1 hresolver
  obtain ⟨source, hfile⟩ := Option.isSome_iff_exists.1 hfile
  obtain ⟨hagrees, hanalyzed⟩ := stages_agree starts_alone hresolver henabled
  have hnone : ¬(resolver.state.binding? "a.js").isSome = true := by
    intro hbinding
    obtain ⟨names, hconsumes⟩ :=
      (hanalyzed _ _ _ rfl "a.js" source hfile).1.1 ((hagrees "a.js").1.bound.2 hbinding)
    obtain ⟨entry, hentry, _⟩ := hconsumes.received
    have hnil : entries [Config.default.consumerEntry] source.root = [] :=
      List.length_eq_zero_iff.1 (hempty source hfile)
    rw [hnil] at hentry
    cases hentry
  refine ⟨hbound, resolver, hresolver, by simpa using hnone, ?_, fun hunparsed => ?_⟩
  · simpa using fun hobject => hnone ((hagrees "a.js").1.object.2 hobject)
  · refine (hagrees "a.js").2.1 hunparsed ?_
    rw [hloads]
    decide

end Capabilities.Session.Engine
