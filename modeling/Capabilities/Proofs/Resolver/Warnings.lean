import Capabilities.Proofs.Resolver.Visiting

/-!
# Each problem is reported once

A diagnostic is about a capability, about the path table, or about a problem of one file; this is
its `Subject`. What keeps the resolver from reporting a subject twice is spread over two sets of
texts and a flag. `State.Once` ties them to the diagnostics: no subject is there twice, and the sets
and the flag know those that are there.

`State.Logs` says how reports go on: diagnostics are added behind those that are there, about
subjects that there is a reason for. Registering adds problems of the file only. A pass adds, of the
capabilities, those that some consumer misses, and the path table if it has not arrived.
-/

namespace Capabilities.Resolver

open Host Session Capabilities.Types Capabilities.Module

/-! ### What diagnostics are about -/

inductive Subject where
  | capability (name : String)
  | table
  | problem (file : Option String) (warning : Warning)
deriving DecidableEq, Repr

def Warning.subject (file : Option String) : Warning → Subject
  | .unresolved name => .capability name
  | .outsideModulesDir name _ => .capability name
  | .pathTableUnavailable => .table
  | warning => .problem file warning

theorem Warning.subject_of_capability? {warning : Warning} {name : String}
    (h : warning.capability? = some name) (file : Option String) :
    warning.subject file = .capability name := by
  cases warning <;> cases h <;> rfl

theorem Warning.subject_of_problem {warning : Warning} (h : warning.capability? = none)
    (htable : warning ≠ .pathTableUnavailable) (file : Option String) :
    warning.subject file = .problem file warning := by
  cases warning with
  | unresolved name => cases h
  | outsideModulesDir name modulesDir => cases h
  | pathTableUnavailable => exact absurd rfl htable
  | consumesUndeclared entryName => rfl
  | providesUndeclared => rfl
  | ambiguousFreeze count => rfl
  | unattributedRegistration index => rfl

def Diagnostic.subject (diagnostic : Diagnostic) : Subject :=
  diagnostic.warning.subject diagnostic.file

def State.subjects (state : State) : List Subject := state.diagnostics.map Diagnostic.subject

theorem State.subjects_report (state : State) (file : Option String) (warning : Warning) :
    (state.report file warning).subjects = state.subjects ++ [warning.subject file] := by
  unfold subjects report
  rw [List.map_append]
  rfl

/-! ### What the resolver remembers of its reports -/

/-- The text under which a problem of a file is remembered. -/
def problemText (file : String) (warning : Warning) : String := file ++ ": " ++ warning.message

/-- No subject is reported twice, and what is reported is remembered. -/
structure State.Once (state : State) : Prop where
  nodup : state.subjects.Nodup
  capability : ∀ name, state.warnedAbout name = true ↔ .capability name ∈ state.subjects
  table : state.tableReported = true ↔ .table ∈ state.subjects
  problem : ∀ file warning, .problem file warning ∈ state.subjects →
    ∃ path, file = some path ∧ state.warnedFiles.contains (problemText path warning) = true

/-- Diagnostics are added at the end, about subjects that are `due`, and none of them twice. -/
structure State.Logs (due : Subject → Prop) (before after : State) : Prop where
  more : ∃ more, after.diagnostics = before.diagnostics ++ more ∧
    ∀ diagnostic ∈ more, due diagnostic.subject
  once : before.Once → after.Once

theorem State.once_initial : State.initial.Once := by
  refine ⟨List.nodup_nil, fun name => ?_, ?_, fun _ _ h => by cases h⟩
  · exact iff_of_false (by rintro ⟨⟩) (by rintro ⟨⟩)
  · exact iff_of_false (by rintro ⟨⟩) (by rintro ⟨⟩)

namespace State

variable {due : Subject → Prop} {first second third state : State} {file name : String}
  {warning : Warning}

/-- What is remembered of reports stays as it is. -/
theorem Logs.of_same (hdiagnostics : second.diagnostics = first.diagnostics)
    (hcapabilities : second.warnedCapabilities = first.warnedCapabilities)
    (hfiles : second.warnedFiles = first.warnedFiles)
    (htable : second.tableReported = first.tableReported) : first.Logs due second := by
  refine ⟨⟨[], by rw [hdiagnostics, List.append_nil], fun _ h => by cases h⟩, fun h => ?_⟩
  have hsubjects : second.subjects = first.subjects := by
    unfold subjects
    rw [hdiagnostics]
  constructor
  · rw [hsubjects]
    exact h.nodup
  · unfold warnedAbout
    rw [hsubjects, hcapabilities]
    exact h.capability
  · rw [hsubjects, htable]
    exact h.table
  · rw [hsubjects, hfiles]
    exact h.problem

theorem Logs.refl (state : State) : state.Logs due state := .of_same rfl rfl rfl rfl

theorem Logs.trans (h : first.Logs due second) (h' : second.Logs due third) :
    first.Logs due third := by
  obtain ⟨more, hmore, hdue⟩ := h.more
  obtain ⟨others, hothers, hdue'⟩ := h'.more
  refine ⟨⟨more ++ others, ?_, ?_⟩, fun honce => h'.once (h.once honce)⟩
  · rw [hothers, hmore, List.append_assoc]
  · intro diagnostic hdiagnostic
    exact (List.mem_append.1 hdiagnostic).elim (hdue diagnostic) (hdue' diagnostic)

theorem Logs.mono {other : Subject → Prop} (h : first.Logs due second)
    (hother : ∀ subject, due subject → other subject) : first.Logs other second := by
  obtain ⟨more, hmore, hdue⟩ := h.more
  exact ⟨⟨more, hmore, fun diagnostic hdiagnostic => hother _ (hdue diagnostic hdiagnostic)⟩,
    h.once⟩

theorem Logs.diagnostics_prefix (h : first.Logs due second) :
    first.diagnostics <+: second.diagnostics := by
  obtain ⟨more, hmore, -⟩ := h.more
  exact ⟨more, hmore.symm⟩

/-- What is reported stays reported, and what is new was due. -/
theorem Logs.mem_subjects (h : first.Logs due second) {subject : Subject} :
    (subject ∈ first.subjects → subject ∈ second.subjects) ∧
      (subject ∈ second.subjects → subject ∈ first.subjects ∨ due subject) := by
  obtain ⟨more, hmore, hdue⟩ := h.more
  have hsubjects : second.subjects = first.subjects ++ more.map Diagnostic.subject := by
    unfold subjects
    rw [hmore, List.map_append]
  rw [hsubjects, List.mem_append]
  refine ⟨Or.inl, Or.imp id ?_⟩
  intro hmem
  obtain ⟨diagnostic, hdiagnostic, rfl⟩ := List.mem_map.1 hmem
  exact hdue diagnostic hdiagnostic

/-! ### Reports -/

theorem contains_names (names : List String) (added other : String) :
    (⟨names ++ [added]⟩ : WarnedSet).contains other = true ↔
      (⟨names⟩ : WarnedSet).contains other = true ∨ other = added := by
  simp [WarnedSet.contains]

theorem nodup_concat {subjects : List Subject} {subject : Subject} (h : subjects.Nodup)
    (hnew : subject ∉ subjects) : (subjects ++ [subject]).Nodup :=
  List.nodup_append.2 ⟨h, by simp, by
    rintro other hother _ hsame rfl
    rw [List.mem_singleton.1 hsame] at hother
    exact hnew hother⟩

/-- A capability is reported unless it was warned about. -/
theorem logs_warnCapability (state : State) (file : String)
    (hname : warning.capability? = some name) :
    state.Logs (· = .capability name) (state.warnCapability file warning) := by
  have hsubject := Warning.subject_of_capability? hname (some file)
  by_cases hwarned : state.warnedAbout name = true
  · rw [warnCapability_of_warned hname hwarned]
    exact .refl state
  · have hfirst : state.warnedCapabilities.first name =
        (true, ⟨state.warnedCapabilities.names ++ [name]⟩) := if_neg hwarned
    have hstate : state.warnCapability file warning =
        { state with warnedCapabilities := ⟨state.warnedCapabilities.names ++ [name]⟩ }.report
          (some file) warning := by
      unfold warnCapability
      simp only [hname, hfirst, if_true]
    rw [hstate]
    refine ⟨⟨[.of (some file) warning], rfl, ?_⟩, fun h => ?_⟩
    · intro diagnostic hdiagnostic
      rw [List.mem_singleton.1 hdiagnostic]
      exact hsubject
    have hsubjects := subjects_report
      { state with warnedCapabilities := ⟨state.warnedCapabilities.names ++ [name]⟩ }
      (some file) warning
    rw [hsubject] at hsubjects
    constructor
    · rw [hsubjects]
      exact nodup_concat h.nodup fun hmem => hwarned ((h.capability name).2 hmem)
    · intro other
      rw [hsubjects, List.mem_append, List.mem_singleton, Subject.capability.injEq]
      exact (contains_names _ _ _).trans (or_congr (h.capability other) Iff.rfl)
    · rw [hsubjects, List.mem_append, List.mem_singleton]
      exact h.table.trans (or_iff_left (by rintro ⟨⟩)).symm
    · intro path other hother
      rw [hsubjects, List.mem_append, List.mem_singleton] at hother
      exact h.problem path other (hother.resolve_right (by rintro ⟨⟩))

theorem warnFile_of_new (h : ¬ state.warnedFiles.contains (problemText file warning) = true) :
    state.warnFile file warning =
      { state with warnedFiles := ⟨state.warnedFiles.names ++ [problemText file warning]⟩ }.report
        (some file) warning := by
  have hfirst : state.warnedFiles.first (file ++ ": " ++ warning.message) =
      (true, ⟨state.warnedFiles.names ++ [problemText file warning]⟩) := if_neg h
  unfold warnFile
  simp only [hfirst, if_true]

/-- A problem of a file is reported unless it was reported for the file. -/
theorem logs_warnFile (state : State) (file : String) (hnone : warning.capability? = none)
    (htable : warning ≠ .pathTableUnavailable) :
    state.Logs (· = .problem (some file) warning) (state.warnFile file warning) := by
  have hsubject := Warning.subject_of_problem hnone htable (some file)
  by_cases hwarned : state.warnedFiles.contains (problemText file warning) = true
  · rw [warnFile_of_warned hwarned]
    exact .refl state
  · rw [warnFile_of_new hwarned]
    refine ⟨⟨[.of (some file) warning], rfl, ?_⟩, fun h => ?_⟩
    · intro diagnostic hdiagnostic
      rw [List.mem_singleton.1 hdiagnostic]
      exact hsubject
    have hsubjects := subjects_report
      { state with warnedFiles := ⟨state.warnedFiles.names ++ [problemText file warning]⟩ }
      (some file) warning
    rw [hsubject] at hsubjects
    constructor
    · rw [hsubjects]
      refine nodup_concat h.nodup fun hmem => ?_
      obtain ⟨path, hpath, hcontains⟩ := h.problem _ _ hmem
      cases hpath
      exact hwarned hcontains
    · intro other
      rw [hsubjects, List.mem_append, List.mem_singleton]
      exact (h.capability other).trans (or_iff_left (by rintro ⟨⟩)).symm
    · rw [hsubjects, List.mem_append, List.mem_singleton]
      exact h.table.trans (or_iff_left (by rintro ⟨⟩)).symm
    · intro path other hother
      rw [hsubjects, List.mem_append, List.mem_singleton] at hother
      rcases hother with hold | hnew
      · obtain ⟨known, hknown, hcontains⟩ := h.problem path other hold
        exact ⟨known, hknown, (contains_names _ _ _).2 (Or.inl hcontains)⟩
      · cases hnew
        exact ⟨file, rfl, (contains_names _ _ _).2 (Or.inr rfl)⟩

/-- The missing path table is reported unless it was reported. -/
theorem logs_reportTableUnavailable (state : State) (file : String) :
    state.Logs (· = .table) (state.reportTableUnavailable file) := by
  unfold reportTableUnavailable
  split
  · exact .refl state
  rename_i hreported
  refine ⟨⟨[.of (some file) .pathTableUnavailable], rfl, ?_⟩, fun h => ?_⟩
  · intro diagnostic hdiagnostic
    rw [List.mem_singleton.1 hdiagnostic]
    rfl
  have hsubjects := subjects_report { state with tableReported := true } (some file)
    .pathTableUnavailable
  rw [show Warning.pathTableUnavailable.subject (some file) = .table from rfl] at hsubjects
  constructor
  · rw [hsubjects]
    exact nodup_concat h.nodup fun hmem => hreported (h.table.2 hmem)
  · intro other
    rw [hsubjects, List.mem_append, List.mem_singleton]
    exact (h.capability other).trans (or_iff_left (by rintro ⟨⟩)).symm
  · rw [hsubjects, List.mem_append, List.mem_singleton]
    exact iff_of_true rfl (Or.inr rfl)
  · intro path other hother
    rw [hsubjects, List.mem_append, List.mem_singleton] at hother
    exact h.problem path other (hother.resolve_right (by rintro ⟨⟩))

end State

/-! ### Registering -/

/-- A problem of a file. -/
def Subject.IsProblem : Subject → Prop
  | .problem _ _ => True
  | _ => False

theorem registers_logs (base : State) (file : String) :
    Registers (fun _ step => Carries (fun work => base.Logs Subject.IsProblem work.state) step)
      file := by
  have hcomposes := composes_carries fun work : Work => base.Logs Subject.IsProblem work.state
  have hwrite : ∀ {α : Type} (operation : Store → Except StoreError α × Store),
      Carries (fun work => base.Logs Subject.IsProblem work.state) (Resolve.onStore operation) := by
    intro α operation work hwork
    rw [run_onStore]
    exact hwork
  refine ⟨hcomposes, hwrite _, ?_, fun _ _ => hwrite _, ?_, ?_⟩
  · rintro object ⟨name, type⟩
    refine hcomposes.bind (hwrite _) fun place => ?_
    cases type with
    | none => exact hcomposes.pure ()
    | some type => exact hcomposes.bind (hwrite _) fun _ => hcomposes.pure ()
  · exact fun name type work hwork => hwork.trans (.of_same rfl rfl rfl rfl)
  · intro warning hnone htable work hwork
    refine hwork.trans ((work.state.logs_warnFile file hnone htable).mono ?_)
    rintro subject rfl
    trivial

/-- Registering what a file provides reports problems of the file only. -/
theorem logs_synthesize (config : Config) (file : String) (work : Work) :
    work.state.Logs Subject.IsProblem ((synthesize config file).runOn work).2.state :=
  (registers_logs work.state file).synthesize config work (.refl work.state)

/-! ### Binding -/

variable {config : Config} {mail : Mail} {base work : Work} {name : String}

/-- A consumer lacks a capability, and the path table has not arrived. -/
def Unserved (config : Config) (mail : Mail) (work : Work) : Prop :=
  (∃ file name, Lacks config work file name) ∧ (work.table.poll mail).paths? = none

/-- What a pass has to report, besides problems of files. -/
def Due (config : Config) (mail : Mail) (work : Work) : Subject → Prop
  | .capability name => Missed config mail work name
  | .table => Unserved config mail work
  | .problem _ _ => False

/-- What a pass may report. -/
def Reportable (config : Config) (mail : Mail) (work : Work) (subject : Subject) : Prop :=
  subject.IsProblem ∨ Due config mail work subject

theorem paths?_of_resolve {table : PathTable} (h : table.resolve name = .notYetAvailable) :
    table.paths? = none := by
  unfold PathTable.resolve at h
  split at h
  · assumption
  · split at h <;> cases h

/-- Asking for what a consumer lacks reports what is due. -/
theorem Work.Visits.logs_schedule {file : String} (h : base.Visits config mail work)
    (hlacks : Lacks config base file name) :
    work.state.Logs (Reportable config mail base)
      (Resolver.schedule config mail name file work).2.state := by
  have hwarn : ∀ (state : State) (warning : Warning), warning.capability? = some name →
      (∀ relative, (base.table.poll mail).resolve name = .found relative →
        config.modulePath? file relative = none) →
      state.Logs (Reportable config mail base) (state.warnCapability file warning) := by
    intro state warning hname hnone
    refine (state.logs_warnCapability file hname).mono ?_
    rintro subject rfl
    exact Or.inr ⟨file, hlacks, hnone⟩
  have hpolled := h.polled
  unfold Resolver.schedule
  dsimp only
  rw [hpolled]
  split
  · rename_i hresolve
    refine hwarn work.state (.unresolved name) rfl fun relative hfound => ?_
    rw [hresolve] at hfound
    cases hfound
  · rename_i hresolve
    have htable : work.state.Logs (Reportable config mail base)
        (work.state.reportTableUnavailable file) := by
      refine (work.state.logs_reportTableUnavailable file).mono ?_
      rintro subject rfl
      exact Or.inr ⟨⟨file, name, hlacks⟩, paths?_of_resolve hresolve⟩
    refine htable.trans (hwarn _ (.unresolved name) rfl fun relative hfound => ?_)
    rw [hresolve] at hfound
    cases hfound
  · rename_i relative hresolve
    split
    · rename_i hpath
      refine hwarn work.state (.outsideModulesDir name config.modulesDir) rfl
        fun other hother => ?_
      rw [hresolve] at hother
      cases hother
      exact hpath
    · split <;> exact .refl work.state

theorem binds_logs (config : Config) (mail : Mail) (base : Work) (file : String) :
    Binds config mail file fun work => base.Visits config mail work ∧
      base.state.Logs (Reportable config mail base) work.state := by
  have hvisits : Binds config mail file (base.Visits config mail) := binds_visits file
  refine ⟨?_, ?_, ?_, ?_, ?_⟩
  · exact fun work store hwork hstore => ⟨hvisits.write work store hwork.1 hstore, hwork.2⟩
  · exact fun work object hwork =>
      ⟨hvisits.object work object hwork.1, hwork.2.trans (.of_same rfl rfl rfl rfl)⟩
  · exact fun work binding hwork =>
      ⟨hvisits.store work binding hwork.1, hwork.2.trans (.of_same rfl rfl rfl rfl)⟩
  · intro work hwork
    refine ⟨hvisits.warn work hwork.1, hwork.2.trans ?_⟩
    have hnone : (Warning.consumesUndeclared config.consumerEntry).capability? = none := rfl
    refine (work.state.logs_warnFile file hnone (by rintro ⟨⟩)).mono ?_
    rintro subject rfl
    exact Or.inl trivial
  · intro work name hwork hlacks
    have hbase : Lacks config base file name :=
      hlacks.congr hwork.1.program.files.symm hwork.1.registry.symm
    exact ⟨hvisits.schedule work name hwork.1 hlacks,
      hwork.2.trans (hwork.1.logs_schedule hbase)⟩

/-- A pass over all consumers reports what is due, whatever the store is. -/
theorem logs_bindProgram (config : Config) (mail : Mail) (base : Work) :
    base.state.Logs (Reportable config mail base) (bindProgram config mail base).state := by
  have hfiles : ∀ (files : List String) (work : Work), base.Visits config mail work ∧
      base.state.Logs (Reportable config mail base) work.state →
      base.state.Logs (Reportable config mail base) (bindFiles config mail files work).state := by
    intro files
    induction files with
    | nil => exact fun work hwork => hwork.2
    | cons file rest ih =>
      intro work hwork
      refine ih _ ((binds_logs config mail base file).bindFile (work.withOrigin (some file)) ?_)
      exact ⟨hwork.1.withOrigin (some file), hwork.2.trans (.of_same rfl rfl rfl rfl)⟩
  exact (hfiles base.program.fileNames base ⟨.refl config mail base, .refl base.state⟩).trans
    (.of_same rfl rfl rfl rfl)

end Capabilities.Resolver
