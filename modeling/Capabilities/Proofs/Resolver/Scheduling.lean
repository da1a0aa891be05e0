import Capabilities.Proofs.Resolver.State
import Capabilities.Proofs.Session.Program
import Capabilities.Resolver.Scheduling

/-!
# Asking for a provider once

Asking for the provider of a capability may queue a file and may report a problem; it changes
nothing else. Whatever came of it, the capability is *handled* for that consumer from then on: its
file is loaded, queued or has failed, or the problem was reported. Asking again for a handled
capability changes nothing at all.
-/

namespace Capabilities.Resolver

open Host Session Capabilities.Types

/-! ### Looking at the mail twice -/

theorem poll_poll_reply {α : Type} [Payload α] (mail : Mail) (reply : PendingReply α) :
    (reply.poll mail).poll mail = reply.poll mail := by
  obtain ⟨state, ticket⟩ := reply
  cases ticket with
  | none => rfl
  | some ticket =>
    cases hletter : mail.letter ticket with
    | awaited => simp [PendingReply.poll, hletter]
    | discarded => simp [PendingReply.poll, hletter]
    | abandoned => simp [PendingReply.poll, hletter]
    | answered answer =>
      cases hvalue : (Payload.ofReply? answer : Option α) with
      | none => simp [PendingReply.poll, hletter, hvalue]
      | some value => simp [PendingReply.poll, hletter, hvalue]

theorem poll_reply_cases {α : Type} [Payload α] (mail : Mail) (reply : PendingReply α) :
    reply.poll mail = reply ∨ (reply.poll mail).ticket = none := by
  unfold PendingReply.poll
  split
  · exact Or.inl rfl
  · split
    · exact Or.inl rfl
    · exact Or.inl rfl
    · split
      · exact Or.inr rfl
      · exact Or.inr rfl
    · exact Or.inr rfl

theorem poll_poll_table (mail : Mail) (table : PathTable) :
    (table.poll mail).poll mail = table.poll mail := by
  cases table with
  | notRequested => rfl
  | requested reply => exact congrArg PathTable.requested (poll_poll_reply mail reply)

/-! ### Reports -/

/-- What was reported stays reported, and nothing but reports is added. -/
structure State.Reports (before after : State) : Prop where
  same : after = { before with
    warnedCapabilities := after.warnedCapabilities
    warnedFiles := after.warnedFiles
    tableReported := after.tableReported
    diagnostics := after.diagnostics }
  capability : ∀ name, before.warnedAbout name = true → after.warnedAbout name = true
  file : ∀ text, before.warnedFiles.contains text = true → after.warnedFiles.contains text = true
  table : before.tableReported = true → after.tableReported = true

theorem State.Reports.refl (state : State) : state.Reports state :=
  ⟨rfl, fun _ => id, fun _ => id, id⟩

theorem State.Reports.trans {first second third : State} (h : first.Reports second)
    (h' : second.Reports third) : first.Reports third := by
  refine ⟨?_, fun name hname => h'.capability name (h.capability name hname),
    fun text htext => h'.file text (h.file text htext), fun htable => h'.table (h.table htable)⟩
  have hsame := h'.same
  rw [h.same] at hsame
  exact hsame

theorem WarnedSet.contains_first (set : WarnedSet) (name : String) :
    (set.first name).2.contains name = true := by
  unfold WarnedSet.first
  split
  · assumption
  · simp [WarnedSet.contains]

theorem WarnedSet.contains_first_of {set : WarnedSet} {name other : String}
    (h : set.contains other = true) : (set.first name).2.contains other = true := by
  unfold WarnedSet.first
  split
  · exact h
  · simp only [WarnedSet.contains, List.contains_eq_mem, List.mem_append, decide_eq_true_eq] at *
    exact Or.inl h

theorem WarnedSet.first_of_contains {set : WarnedSet} {name : String}
    (h : set.contains name = true) : set.first name = (false, set) := by
  unfold WarnedSet.first
  rw [if_pos h]

theorem reports_warnCapability (state : State) (file : String) (warning : Warning) :
    state.Reports (state.warnCapability file warning) := by
  unfold State.warnCapability
  split
  · exact ⟨rfl, fun _ => id, fun _ => id, id⟩
  · rename_i name _
    dsimp only
    split
    · exact ⟨rfl, fun other => WarnedSet.contains_first_of, fun _ => id, id⟩
    · exact ⟨rfl, fun other => WarnedSet.contains_first_of, fun _ => id, id⟩

theorem reports_warnFile (state : State) (file : String) (warning : Warning) :
    state.Reports (state.warnFile file warning) := by
  unfold State.warnFile
  dsimp only
  split
  · exact ⟨rfl, fun _ => id, fun other => WarnedSet.contains_first_of, id⟩
  · exact ⟨rfl, fun _ => id, fun other => WarnedSet.contains_first_of, id⟩

theorem reports_tableUnavailable (state : State) (file : String) :
    state.Reports (state.reportTableUnavailable file) := by
  unfold State.reportTableUnavailable
  split
  · exact .refl state
  · exact ⟨rfl, fun _ => id, fun _ => id, fun _ => rfl⟩

theorem warnedAbout_warnCapability {state : State} {file name : String} {warning : Warning}
    (hname : warning.capability? = some name) :
    (state.warnCapability file warning).warnedAbout name = true := by
  unfold State.warnCapability
  simp only [hname]
  split
  · exact WarnedSet.contains_first _ name
  · exact WarnedSet.contains_first _ name

theorem warnCapability_of_warned {state : State} {file name : String} {warning : Warning}
    (hname : warning.capability? = some name) (h : state.warnedAbout name = true) :
    state.warnCapability file warning = state := by
  unfold State.warnCapability
  simp only [hname, WarnedSet.first_of_contains h]
  rfl

theorem contains_warnFile (state : State) (file : String) (warning : Warning) :
    (state.warnFile file warning).warnedFiles.contains (file ++ ": " ++ warning.message)
      = true := by
  unfold State.warnFile
  dsimp only
  split
  · exact WarnedSet.contains_first _ _
  · exact WarnedSet.contains_first _ _

theorem warnFile_of_warned {state : State} {file : String} {warning : Warning}
    (h : state.warnedFiles.contains (file ++ ": " ++ warning.message) = true) :
    state.warnFile file warning = state := by
  unfold State.warnFile
  simp only [WarnedSet.first_of_contains h]
  rfl

theorem tableReported_reportTableUnavailable (state : State) (file : String) :
    (state.reportTableUnavailable file).tableReported = true := by
  unfold State.reportTableUnavailable
  split
  · assumption
  · rfl

/-! ### Asking -/

/-- What asking for providers may change: files that are `wanted` are queued, the table arrives,
    problems are reported. -/
structure Work.Asks (mail : Mail) (wanted : PendingFile → Prop) (before after : Work) : Prop where
  program : ∃ more, (∀ pending ∈ more, wanted pending) ∧
    after.program = { before.program with queue := before.program.queue ++ more }
  state : before.state.Reports after.state
  table : after.table = before.table ∨ after.table = before.table.poll mail
  orderly : before.program.Orderly → after.program.Orderly

variable {mail : Mail} {wanted : PendingFile → Prop}

theorem Work.Asks.refl (mail : Mail) (wanted : PendingFile → Prop) (work : Work) :
    work.Asks mail wanted work :=
  ⟨⟨[], by simp, by rw [List.append_nil]⟩, .refl _, Or.inl rfl, id⟩

theorem Work.Asks.trans {first second third : Work} (h : first.Asks mail wanted second)
    (h' : second.Asks mail wanted third) : first.Asks mail wanted third := by
  obtain ⟨more, hwanted, hmore⟩ := h.program
  obtain ⟨more', hwanted', hmore'⟩ := h'.program
  refine ⟨⟨more ++ more', ?_, ?_⟩, h.state.trans h'.state, ?_,
    fun horderly => h'.orderly (h.orderly horderly)⟩
  · intro pending hpending
    rcases List.mem_append.1 hpending with hpending | hpending
    · exact hwanted pending hpending
    · exact hwanted' pending hpending
  · rw [hmore', hmore]
    simp only [List.append_assoc]
  · rcases h'.table with htable' | htable'
    · rw [htable']
      exact h.table
    · rcases h.table with htable | htable
      · rw [htable', htable]
        exact Or.inr rfl
      · rw [htable', htable, poll_poll_table]
        exact Or.inr rfl

theorem Work.Asks.polled {before after : Work} (h : before.Asks mail wanted after) :
    after.table.poll mail = before.table.poll mail := by
  rcases h.table with htable | htable
  · rw [htable]
  · rw [htable, poll_poll_table]

/-- Asking for a capability queues at most the file that the path table names for it, on behalf of
    the file that is bound. -/
theorem asks_schedule {config : Config} {name consumer : String} {work : Work}
    (hwanted : ∀ relative path, (work.table.poll mail).resolve name = .found relative →
      config.modulePath? consumer relative = some path →
      wanted ⟨path, none, work.state.currentOrigin⟩) :
    work.Asks mail wanted (schedule config mail name consumer work).2 := by
  have hprogram : ∃ more, (∀ pending ∈ more, wanted pending) ∧
      work.program = { work.program with queue := work.program.queue ++ more } :=
    ⟨[], by simp, by rw [List.append_nil]⟩
  unfold schedule
  dsimp only
  split
  · exact ⟨hprogram, reports_warnCapability work.state consumer (.unresolved name), Or.inr rfl,
      id⟩
  · exact ⟨hprogram, (reports_tableUnavailable work.state consumer).trans
      (reports_warnCapability (work.state.reportTableUnavailable consumer) consumer
        (.unresolved name)), Or.inr rfl, id⟩
  · rename_i relative hresolve
    split
    · exact ⟨hprogram, reports_warnCapability work.state consumer
        (.outsideModulesDir name config.modulesDir), Or.inr rfl, id⟩
    · rename_i path hpath
      have hadd : ∃ more, (∀ pending ∈ more, wanted pending) ∧
          (work.program.addFile path none work.state.currentOrigin).2 =
            { work.program with queue := work.program.queue ++ more } := by
        unfold Program.addFile
        split
        · exact hprogram
        · split
          · exact hprogram
          · refine ⟨[⟨path, none, work.state.currentOrigin⟩], ?_, rfl⟩
            intro pending hpending
            rw [List.mem_singleton.1 hpending]
            exact hwanted relative path hresolve hpath
      have horderly : work.program.Orderly →
          (work.program.addFile path none work.state.currentOrigin).2.Orderly :=
        fun horderly => horderly.addFile path none _
      split
      · exact ⟨hadd, .refl _, Or.inr rfl, horderly⟩
      · exact ⟨hadd, .refl _, Or.inr rfl, horderly⟩

/-! ### Advancing -/

/-- What a step of a pass may do to the work, whatever it writes to the store: queue files that are
    wanted, report problems, look at the mail, and note what became of a file. -/
structure Work.Advances (mail : Mail) (wanted : PendingFile → Prop) (before after : Work) :
    Prop where
  program : ∃ more, (∀ pending ∈ more, wanted pending) ∧ after.program =
    { before.program with
      store := after.program.store
      queue := before.program.queue ++ more }
  registry : after.state.registry = before.state.registry
  capability : ∀ name, before.state.warnedAbout name = true → after.state.warnedAbout name = true
  file : ∀ text, before.state.warnedFiles.contains text = true →
    after.state.warnedFiles.contains text = true
  table_reported : before.state.tableReported = true → after.state.tableReported = true
  table : after.table = before.table ∨ after.table = before.table.poll mail
  orderly : before.program.Orderly → after.program.Orderly

theorem Work.Advances.refl (mail : Mail) (wanted : PendingFile → Prop) (work : Work) :
    work.Advances mail wanted work :=
  ⟨⟨[], by simp, by rw [List.append_nil]⟩, rfl, fun _ => id, fun _ => id, id, Or.inl rfl, id⟩

theorem Work.Advances.trans {before middle after : Work} (h : before.Advances mail wanted middle)
    (h' : middle.Advances mail wanted after) : before.Advances mail wanted after := by
  obtain ⟨more, hwanted, hmore⟩ := h.program
  obtain ⟨more', hwanted', hmore'⟩ := h'.program
  refine ⟨⟨more ++ more', ?_, ?_⟩, h'.registry.trans h.registry,
    fun name hname => h'.capability name (h.capability name hname),
    fun text htext => h'.file text (h.file text htext),
    fun hreported => h'.table_reported (h.table_reported hreported), ?_,
    fun horderly => h'.orderly (h.orderly horderly)⟩
  · intro pending hpending
    rcases List.mem_append.1 hpending with hpending | hpending
    · exact hwanted pending hpending
    · exact hwanted' pending hpending
  · rw [hmore']
    rw [hmore]
    simp only [List.append_assoc]
  · rcases h'.table with htable' | htable'
    · rw [htable']
      exact h.table
    · rcases h.table with htable | htable
      · rw [htable', htable]
        exact Or.inr rfl
      · rw [htable', htable, poll_poll_table]
        exact Or.inr rfl

theorem Work.Advances.files {before after : Work} (h : before.Advances mail wanted after) :
    after.program.files = before.program.files := by
  obtain ⟨more, _, hmore⟩ := h.program
  rw [hmore]

theorem Work.Advances.polled {before after : Work} (h : before.Advances mail wanted after) :
    after.table.poll mail = before.table.poll mail := by
  rcases h.table with htable | htable
  · rw [htable]
  · rw [htable, poll_poll_table]

theorem Work.Asks.advances {before after : Work} (h : before.Asks mail wanted after) :
    before.Advances mail wanted after := by
  obtain ⟨more, hwanted, hmore⟩ := h.program
  have hstore : after.program.store = before.program.store := by
    rw [hmore]
  refine ⟨⟨more, hwanted, ?_⟩, ?_, h.state.capability, h.state.file, h.state.table, h.table,
    h.orderly⟩
  · rw [hstore, hmore]
  · rw [h.state.same]

/-! ### What is handled -/

/-- Nothing is left to do about a missing capability: whatever the path table says about it, the
    file is known or the problem was reported. -/
structure Handled (config : Config) (mail : Mail) (name consumer : String) (work : Work) :
    Prop where
  polled : work.table.poll mail = work.table
  missing : work.table.resolve name = .missing → work.state.warnedAbout name = true
  unavailable : work.table.resolve name = .notYetAvailable →
    work.state.tableReported = true ∧ work.state.warnedAbout name = true
  outside : ∀ relative, work.table.resolve name = .found relative →
    config.modulePath? consumer relative = none → work.state.warnedAbout name = true
  known : ∀ relative path, work.table.resolve name = .found relative →
    config.modulePath? consumer relative = some path →
    work.program.isLoaded path = true ∨ work.program.isQueued path = true ∨
      work.program.hasFailed path = true

theorem known_addFile (program : Program) (path : String) (origin : Option String) :
    (program.addFile path none origin).2.isLoaded path = true ∨
      (program.addFile path none origin).2.isQueued path = true ∨
      (program.addFile path none origin).2.hasFailed path = true := by
  unfold Program.addFile
  split
  · rename_i h
    rcases Bool.or_eq_true_iff.1 h with h | h
    · exact Or.inl h
    · exact Or.inr (Or.inl h)
  · split
    · rename_i h
      exact Or.inr (Or.inr (Bool.and_eq_true_iff.1 h).2)
    · right
      left
      simp [Program.isQueued]

theorem addFile_of_known {program : Program} {path : String} (origin : Option String)
    (h : program.isLoaded path = true ∨ program.isQueued path = true ∨
      program.hasFailed path = true) : program.addFile path none origin = (false, program) := by
  unfold Program.addFile
  rcases h with h | h | h
  · simp [h]
  · simp [h]
  · simp only [h, Option.isNone_none, Bool.and_self, if_true]
    split <;> rfl

/-- Asking for a capability handles it. -/
theorem handled_schedule (config : Config) (mail : Mail) (name consumer : String) (work : Work) :
    Handled config mail name consumer (schedule config mail name consumer work).2 := by
  unfold schedule
  dsimp only
  split
  · rename_i hresolve
    refine ⟨poll_poll_table _ _, ?_, ?_, ?_, ?_⟩
    · intro _
      exact warnedAbout_warnCapability rfl
    · intro h
      exact absurd (hresolve.symm.trans h) (by simp)
    · intro relative h
      exact absurd (hresolve.symm.trans h) (by simp)
    · intro relative path h
      exact absurd (hresolve.symm.trans h) (by simp)
  · rename_i hresolve
    refine ⟨poll_poll_table _ _, ?_, ?_, ?_, ?_⟩
    · intro h
      exact absurd (hresolve.symm.trans h) (by simp)
    · intro _
      refine ⟨?_, warnedAbout_warnCapability rfl⟩
      exact (reports_warnCapability _ _ _).table (tableReported_reportTableUnavailable _ _)
    · intro relative h
      exact absurd (hresolve.symm.trans h) (by simp)
    · intro relative path h
      exact absurd (hresolve.symm.trans h) (by simp)
  · rename_i relative hresolve
    have hsame : ∀ other, (work.table.poll mail).resolve name = .found other →
        other = relative := by
      intro other h
      have heq := hresolve.symm.trans h
      injection heq with heq
      exact heq.symm
    split
    · rename_i hpath
      refine ⟨poll_poll_table _ _, ?_, ?_, ?_, ?_⟩
      · intro h
        exact absurd (hresolve.symm.trans h) (by simp)
      · intro h
        exact absurd (hresolve.symm.trans h) (by simp)
      · intro _ _ _
        exact warnedAbout_warnCapability rfl
      · intro other path h hother
        rw [hsame other h, hpath] at hother
        cases hother
    · rename_i path hpath
      have hknown := known_addFile work.program path work.state.currentOrigin
      split
      all_goals
        refine ⟨poll_poll_table _ _, ?_, ?_, ?_, ?_⟩
        · intro h
          exact absurd (hresolve.symm.trans h) (by simp)
        · intro h
          exact absurd (hresolve.symm.trans h) (by simp)
        · intro other h hother
          rw [hsame other h, hpath] at hother
          cases hother
        · intro other found h hother
          rw [hsame other h, hpath] at hother
          cases hother
          exact hknown

theorem Handled.advances {config : Config} {name consumer : String} {before after : Work}
    (h : Handled config mail name consumer before)
    (hadvances : before.Advances mail wanted after) :
    Handled config mail name consumer after := by
  have htable : after.table = before.table := by
    rcases hadvances.table with htable | htable
    · exact htable
    · rw [htable, h.polled]
  obtain ⟨more, _, hmore⟩ := hadvances.program
  refine ⟨?_, ?_, ?_, ?_, ?_⟩
  · rw [htable, h.polled]
  · intro hresolve
    rw [htable] at hresolve
    exact hadvances.capability _ (h.missing hresolve)
  · intro hresolve
    rw [htable] at hresolve
    obtain ⟨hreported, hwarned⟩ := h.unavailable hresolve
    exact ⟨hadvances.table_reported hreported, hadvances.capability _ hwarned⟩
  · intro relative hresolve hpath
    rw [htable] at hresolve
    exact hadvances.capability _ (h.outside relative hresolve hpath)
  · intro relative path hresolve hpath
    rw [htable] at hresolve
    rw [hmore]
    rcases h.known relative path hresolve hpath with hloaded | hqueued | hfailed
    · exact Or.inl hloaded
    · right
      left
      simp only [Program.isQueued, List.any_append] at hqueued ⊢
      rw [hqueued]
      rfl
    · exact Or.inr (Or.inr hfailed)

/-- Asking for a handled capability changes nothing. -/
theorem schedule_of_handled {config : Config} {mail : Mail} {name consumer : String} {work : Work}
    (h : Handled config mail name consumer work) :
    (schedule config mail name consumer work).2 = work := by
  unfold schedule
  simp only [h.polled]
  split
  · rename_i hresolve
    rw [warnCapability_of_warned rfl (h.missing hresolve)]
  · rename_i hresolve
    obtain ⟨htable, hwarned⟩ := h.unavailable hresolve
    have hreport : work.state.reportTableUnavailable consumer = work.state := by
      unfold State.reportTableUnavailable
      rw [if_pos htable]
    rw [hreport, warnCapability_of_warned rfl hwarned]
  · rename_i relative hresolve
    split
    · rename_i hpath
      rw [warnCapability_of_warned rfl (h.outside relative hresolve hpath)]
    · rename_i path hpath
      rw [addFile_of_known _ (h.known relative path hresolve hpath)]
      rfl

end Capabilities.Resolver
