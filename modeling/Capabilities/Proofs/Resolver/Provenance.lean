import Capabilities.Proofs.Session.Queue
import Mathlib.Logic.Relation
import Mathlib.Order.WellFounded

/-!
# Where files come from

A file that a pass puts into the queue gets the file as its origin whose consumers are being bound,
and it was neither loaded nor queued before. Whoever is an origin is loaded, or waits with a text
and so will be loaded. So a new path is nobody's origin and cannot close a circle: following origins
comes to an end (`Grounded`), in the middle of a pass as well as between two steps of a session.
-/

namespace Capabilities.Session

open Host Resolver Engine

namespace Program

variable {program before after : Program} {path other asker : String}
  {text origin : Option String} {pending : PendingFile} {queue : List PendingFile}

/-! ### Origins -/

/-- The origin of a path that is loaded or queued, if it has one. -/
def held? (program : Program) (path : String) : Option (Option String) :=
  match program.files.get? path with
  | some loaded => some loaded.origin
  | none => (program.queue.find? (·.path == path)).map PendingFile.origin

/-- A file is the origin of another one. -/
def OriginOf (program : Program) (asker path : String) : Prop := program.origin? path = some asker

theorem origin?_eq (program : Program) (path : String) :
    program.origin? path = (program.held? path).join := by
  unfold origin? held?
  cases program.files.get? path with
  | some loaded => rfl
  | none => cases program.queue.find? (·.path == path) <;> rfl

theorem isSome_held? (program : Program) (path : String) :
    (program.held? path).isSome = (program.isLoaded path || program.isQueued path) := by
  unfold held? isLoaded Keyed.contains isQueued
  cases program.files.get? path with
  | some loaded => rfl
  | none => simp [← List.isSome_find?]

theorem originOf_iff : program.OriginOf asker path ↔ program.held? path = some (some asker) := by
  unfold OriginOf
  rw [origin?_eq, Option.join_eq_some_iff]

theorem held?_of_get? {loaded : LoadedFile} (h : program.files.get? path = some loaded) :
    program.held? path = some loaded.origin := by
  unfold held?
  rw [h]

theorem held?_of_unloaded (h : program.isLoaded path = false) :
    program.held? path = (program.queue.find? (·.path == path)).map PendingFile.origin := by
  unfold held?
  rw [get?_of_unloaded h]

theorem held?_eq_none (hunloaded : program.isLoaded path = false)
    (hunqueued : program.isQueued path = false) : program.held? path = none := by
  rw [← Option.not_isSome_iff_eq_none, isSome_held?, hunloaded, hunqueued]
  exact Bool.false_ne_true

theorem held?_congr (hfiles : after.files.get? path = before.files.get? path)
    (hqueue : after.queue.find? (·.path == path) = before.queue.find? (·.path == path)) :
    after.held? path = before.held? path := by
  unfold held?
  rw [hfiles, hqueue]

/-- A file that is added to the queue comes with its origin, and nothing else is touched. -/
theorem held?_addFile (hadded : (program.addFile path text origin).1 = true) (other : String) :
    (program.addFile path text origin).2.held? other =
      if other = path then some origin else program.held? other := by
  obtain ⟨hunloaded, hunqueued, -⟩ := addFile_eq_true_iff.1 hadded
  rw [queue_of_added hadded]
  split
  · rename_i hsame
    subst hsame
    have hunfound : program.queue.find? (·.path == other) = none :=
      List.find?_eq_none.2 fun pending hpending => by
        simpa using List.any_eq_false.1 hunqueued pending hpending
    rw [held?_of_unloaded (by exact hunloaded), List.find?_append, hunfound]
    simp
  · rename_i hne
    refine held?_congr rfl ?_
    rw [List.find?_append, List.find?_singleton, if_neg (by simpa using Ne.symm hne),
      Option.or_none]

/-- A file that is updated keeps its origin if it is loaded, and has none if not. -/
theorem held?_updateFile (program : Program) (path text other : String) :
    (program.updateFile path text).held? other =
      if other = path then some ((program.files.get? path).bind LoadedFile.origin)
      else program.held? other := by
  split
  · rename_i hsame
    subst hsame
    have hunloaded : (program.updateFile other text).isLoaded other = false := by
      rw [isLoaded_updateFile, bne_self_eq_false, Bool.false_and]
    rw [held?_of_unloaded hunloaded, updateFile, List.find?_append, List.find?_filter,
      List.find?_eq_none.2 (by simp)]
    simp
  · rename_i hne
    refine held?_congr (Keyed.get?_erase_of_ne _ hne) ?_
    rw [updateFile, List.find?_append, List.find?_filter, List.find?_singleton,
      if_neg (by simpa using Ne.symm hne), Option.or_none]
    refine congrArg (List.find? · program.queue) (funext fun pending => ?_)
    by_cases hpath : pending.path = other
    · simp [hpath, hne]
    · simp [hpath]

/-- The first file of the queue keeps its origin when it is loaded, and is not held any more when it
    fails. -/
theorem held?_load (horderly : before.Orderly) (hqueue : before.queue = pending :: queue)
    (hleft : after.queue = queue)
    (hfiles : after.files = before.files ∨ ∃ source inference,
      after.files = before.files.put pending.path ⟨source, inference, pending.origin⟩)
    (h : after.held? path = some origin) : before.held? path = some origin := by
  obtain ⟨hunqueued, hunloaded, -⟩ := horderly.pop hqueue
  by_cases hpath : path = pending.path
  · subst hpath
    rcases hfiles with hsame | ⟨source, inference, hput⟩
    · have hunloaded' : after.isLoaded pending.path = false := by
        unfold isLoaded
        rw [hsame]
        exact hunloaded
      have hunqueued' : after.isQueued pending.path = false := by
        rw [← Bool.not_eq_true, isQueued_iff]
        unfold queued
        rw [hleft]
        exact hunqueued
      rw [held?_eq_none hunloaded' hunqueued'] at h
      cases h
    · have hput' : after.files.get? pending.path = some ⟨source, inference, pending.origin⟩ := by
        rw [hput]
        exact Keyed.get?_put_self _ _ _
      rw [held?_of_get? hput'] at h
      rw [held?_of_unloaded hunloaded, hqueue, List.find?_cons_of_pos (by simp), ← h]
      rfl
  · rw [← h]
    refine (held?_congr ?_ ?_).symm
    · rcases hfiles with hsame | ⟨source, inference, hput⟩
      · rw [hsame]
      · rw [hput, Keyed.get?_put_of_ne _ _ hpath]
    · rw [hleft, hqueue, List.find?_cons_of_neg (by simpa using Ne.symm hpath)]

/-- What is present is held. -/
theorem isSome_held?_of_present (h : Present program path) :
    (program.held? path).isSome = true := by
  rw [isSome_held?, Bool.or_eq_true]
  rcases h with hloaded | ⟨pending, hpending, hpath, -⟩
  · exact Or.inl hloaded
  · exact Or.inr (List.any_eq_true.2 ⟨pending, hpending, by simpa using hpath⟩)

theorem held?_eq_none_of_added (h : (program.addFile path text origin).1 = true) :
    program.held? path = none := by
  obtain ⟨hunloaded, hunqueued, -⟩ := addFile_eq_true_iff.1 h
  exact held?_eq_none hunloaded hunqueued

end Program

end Capabilities.Session

namespace Capabilities.Resolver

open Host Session Engine Capabilities.Types Capabilities.Module

variable {config : Config} {given more : List String} {table arrived : PathTable} {mail : Mail}
  {program before after : Program} {base work : Work} {file name path asker : String}
  {origin : Option String} {pending : PendingFile}

/-! ### Why a file is there -/

/-- A path is the file of a module that the path table names, below the modules root of a
    consumer. -/
def Names (config : Config) (table : PathTable) (consumer path : String) : Prop :=
  ∃ paths name relative root, table.paths? = some paths ∧ paths.get? name = some relative ∧
    config.modulesRoot? consumer = some root ∧ path = root ++ relative ++ config.moduleExtension

/-- A path without an origin was given, and one with an origin is named for that, which is there. -/
def Vouched (config : Config) (given : List String) (table : PathTable) (program : Program)
    (path : String) : Option String → Prop
  | none => path ∈ given
  | some asker => Present program asker ∧ Names config table asker path

/-- It is known of every file why it is there, and following origins comes to an end. -/
structure Grounded (config : Config) (given : List String) (table : PathTable)
    (program : Program) : Prop where
  waits : table.Waits
  vouched : ∀ path origin, program.held? path = some origin →
    Vouched config given table program path origin
  founded : WellFounded program.OriginOf

theorem names_of_resolve {relative : String} (hresolve : table.resolve name = .found relative)
    (hpath : config.modulePath? asker relative = some path) : Names config table asker path := by
  obtain ⟨paths, hpaths, hget⟩ := PathTable.resolve_eq_found hresolve
  obtain ⟨root, hroot, rfl⟩ := Option.map_eq_some_iff.1 hpath
  exact ⟨paths, name, relative, root, hpaths, hget, hroot, rfl⟩

theorem Vouched.mono (h : Vouched config given table before path origin) (hgiven : given ⊆ more)
    (hpresent : ∀ other, Present before other → Present after other)
    (htable : ∀ paths, table.paths? = some paths → arrived.paths? = some paths) :
    Vouched config more arrived after path origin := by
  cases origin with
  | none => exact hgiven h
  | some asker =>
    obtain ⟨hasker, paths, name, relative, root, hpaths, hnames⟩ := h
    exact ⟨hpresent asker hasker, paths, name, relative, root, htable paths hpaths, hnames⟩

/-- A relation stays well-founded when a new item is put above some others. -/
theorem wellFounded_of_new {α : Type} {former relation : α → α → Prop} (new : α)
    (h : WellFounded former) (hnew : ∀ item, ¬relation new item)
    (hformer : ∀ first second, second ≠ new → relation first second → former first second) :
    WellFounded relation := by
  have hold : ∀ item, item ≠ new → Acc relation item := by
    intro item
    induction item using h.induction with
    | _ item ih =>
      refine fun hne => ⟨item, fun first hfirst => ih first (hformer first item hne hfirst) ?_⟩
      rintro rfl
      exact hnew item hfirst
  refine ⟨fun item => ?_⟩
  by_cases hitem : item = new
  · subst hitem
    refine ⟨item, fun first hfirst => hold first ?_⟩
    rintro rfl
    exact hnew first hfirst
  · exact hold item hitem

namespace Grounded

theorem initial (h : table.Waits) : Grounded config [] table .initial := by
  have hnothing : ∀ path origin, Program.initial.held? path ≠ some origin := by
    rintro path origin ⟨⟩
  refine ⟨h, fun path origin hheld => absurd hheld (hnothing path origin), ⟨fun path => ⟨path, ?_⟩⟩⟩
  exact fun asker hasker => absurd (Program.originOf_iff.1 hasker) (hnothing path _)

/-- A step from which files have the origins they had, or are given and have none. -/
theorem step (h : Grounded config given table before) (hgiven : given ⊆ more)
    (hpresent : ∀ path, Present before path → Present after path)
    (hheld : ∀ path origin, after.held? path = some origin →
      before.held? path = some origin ∨ origin = none ∧ path ∈ more) :
    Grounded config more table after := by
  refine ⟨h.waits, fun path origin hafter => ?_, h.founded.mono fun asker path hasker => ?_⟩
  · rcases hheld path origin hafter with hbefore | ⟨rfl, hmore⟩
    · exact (h.vouched path origin hbefore).mono hgiven hpresent fun _ => id
    · exact hmore
  · rcases hheld path _ (Program.originOf_iff.1 hasker) with hbefore | ⟨hnone, -⟩
    · exact Program.originOf_iff.2 hbefore
    · cases hnone

/-- A step that takes no part in what is loaded or queued. -/
theorem of_same (h : Grounded config given table before) (hfiles : after.files = before.files)
    (hqueue : after.queue = before.queue) : Grounded config given table after := by
  refine h.step (List.Subset.refl given) (fun path hpath => ?_) fun path origin hafter => Or.inl ?_
  · unfold Present Program.isLoaded at hpath ⊢
    rw [hfiles, hqueue]
    exact hpath
  · rw [← hafter]
    exact Program.held?_congr (by rw [hfiles]) (by rw [hqueue])

theorem poll (h : Grounded config given table program) (mail : Mail) :
    Grounded config given (table.poll mail) program := by
  refine ⟨h.waits.poll mail, fun path origin hheld => ?_, h.founded⟩
  refine (h.vouched path origin hheld).mono (List.Subset.refl given) (fun _ => id) ?_
  intro paths hpaths
  rw [h.waits.poll_of_paths? mail hpaths]
  exact hpaths

theorem later (h : Grounded config given table program)
    (harrived : arrived = table ∨ arrived = table.poll mail) :
    Grounded config given arrived program := by
  rcases harrived with rfl | rfl
  · exact h
  · exact h.poll mail

/-- Following origins from a path that is held ends at one that was given. -/
theorem exists_first (h : Grounded config given table program)
    (hheld : program.isLoaded path = true ∨ program.isQueued path = true) :
    ∃ first ∈ given, Relation.ReflTransGen program.OriginOf first path ∧
      program.origin? first = none := by
  rw [← Bool.or_eq_true, ← Program.isSome_held?] at hheld
  induction path using h.founded.induction with
  | _ path ih =>
    obtain ⟨origin, horigin⟩ := Option.isSome_iff_exists.1 hheld
    have hvouched := h.vouched path origin horigin
    cases origin with
    | none =>
      refine ⟨path, hvouched, .refl, ?_⟩
      rw [Program.origin?_eq, horigin]
      rfl
    | some asker =>
      have hasker : program.OriginOf asker path := Program.originOf_iff.2 horigin
      obtain ⟨first, hfirst, hreaches, hnone⟩ :=
        ih asker hasker (Program.isSome_held?_of_present hvouched.1)
      exact ⟨first, hfirst, hreaches.tail hasker, hnone⟩

/-- Asking for a file that is not held, on behalf of one that is loaded. The new path is nobody's
    origin, as origins are held. -/
theorem ask {text : Option String} (h : Grounded config given table program)
    (hadded : (program.addFile path text (some asker)).1 = true)
    (hasker : program.isLoaded asker = true) (hnames : Names config table asker path) :
    Grounded config given table (program.addFile path text (some asker)).2 := by
  have hpresent : ∀ other, Present program other →
      Present (program.addFile path text (some asker)).2 other := by
    rw [Program.queue_of_added hadded]
    exact fun other hother => hother.queueing _
  have hnew : ∀ other, Present program other → other ≠ path := by
    rintro other hother rfl
    have hheld := Program.isSome_held?_of_present hother
    rw [Program.held?_eq_none_of_added hadded] at hheld
    cases hheld
  refine ⟨h.waits, ?_, wellFounded_of_new path h.founded ?_ ?_⟩
  · intro other origin hheld
    rw [Program.held?_addFile hadded] at hheld
    split at hheld
    · rename_i hsame
      cases hheld
      rw [hsame]
      exact ⟨hpresent asker (Or.inl hasker), hnames⟩
    · exact (h.vouched other origin hheld).mono (List.Subset.refl given) hpresent fun _ => id
  · intro other hother
    rw [Program.originOf_iff, Program.held?_addFile hadded] at hother
    split at hother
    · cases hother
      exact hnew path (Or.inl hasker) rfl
    · exact hnew path (h.vouched other _ hother).1 rfl
  · intro first second hne hfirst
    rw [Program.originOf_iff, Program.held?_addFile hadded, if_neg hne] at hfirst
    exact Program.originOf_iff.2 hfirst

theorem schedule (h : Grounded config given work.table work.program)
    (horigin : work.state.currentOrigin = some file)
    (hloaded : work.program.isLoaded file = true) :
    Grounded config given (schedule config mail name file work).2.table
      (schedule config mail name file work).2.program := by
  have hpolled := h.poll mail
  unfold Resolver.schedule
  dsimp only
  split
  · exact hpolled
  · exact hpolled
  · rename_i relative hresolve
    split
    · exact hpolled
    · rename_i path hpath
      have hask : Grounded config given (work.table.poll mail)
          (work.program.addFile path none work.state.currentOrigin).2 := by
        cases hadded : (work.program.addFile path none work.state.currentOrigin).1 with
        | false =>
          rw [Program.addFile_of_refused hadded]
          exact hpolled
        | true =>
          rw [horigin] at hadded ⊢
          exact hpolled.ask hadded hloaded (names_of_resolve hresolve hpath)
      split
      · exact hask
      · exact hask

end Grounded

theorem currentOrigin_schedule (config : Config) (mail : Mail) (name consumer : String)
    (work : Work) :
    (schedule config mail name consumer work).2.state.currentOrigin = work.state.currentOrigin := by
  have hasks : work.Asks mail (fun _ => True) (schedule config mail name consumer work).2 :=
    asks_schedule fun _ _ _ _ => trivial
  exact hasks.state.currentOrigin

theorem Lacks.isLoaded (h : Lacks config work file name) : work.program.isLoaded file = true := by
  obtain ⟨source, _, hfile, -⟩ := h
  obtain ⟨loaded, hloaded, -⟩ := Option.map_eq_some_iff.1 hfile
  exact Option.isSome_iff_exists.2 ⟨loaded, hloaded⟩

/-- While the consumers of a file are bound, it is the origin of what is asked for. -/
theorem binds_grounded (config : Config) (mail : Mail) (given : List String) (file : String) :
    Binds config mail file fun work =>
      Grounded config given work.table work.program ∧ work.state.currentOrigin = some file := by
  refine ⟨?_, ?_, ?_, ?_, ?_⟩
  · exact fun work store hwork _ => ⟨hwork.1.of_same rfl rfl, hwork.2⟩
  · exact fun work object hwork => hwork
  · exact fun work binding hwork => hwork
  · intro work hwork
    exact ⟨hwork.1, (reports_warnFile work.state file _).currentOrigin.trans hwork.2⟩
  · intro work name hwork hlacks
    exact ⟨hwork.1.schedule hwork.2 hlacks.isLoaded,
      (currentOrigin_schedule config mail name file work).trans hwork.2⟩

theorem Grounded.bindFiles (h : Grounded config given work.table work.program) (mail : Mail)
    (files : List String) :
    Grounded config given (bindFiles config mail files work).table
      (bindFiles config mail files work).program := by
  induction files generalizing work with
  | nil => exact h
  | cons file rest ih =>
    exact ih ((binds_grounded config mail given file).bindFile (work.withOrigin (some file))
      ⟨h, rfl⟩).1

/-! ### The moment a file is scheduled -/

/-- A file is asked for on behalf of a consumer, which lacks what the path table names it for. -/
def SoughtBy (config : Config) (mail : Mail) (work : Work) (file : String)
    (pending : PendingFile) : Prop :=
  pending.origin = some file ∧ ∃ name relative, Lacks config work file name ∧
    (work.table.poll mail).resolve name = .found relative ∧
    config.modulePath? file relative = some pending.path

/-- Binding the consumers of a file puts another one into the queue. -/
structure Schedules (config : Config) (mail : Mail) (work : Work) (file : String)
    (pending : PendingFile) : Prop where
  added : pending ∉ work.program.queue
  queued : pending ∈ (bindFiles config mail [file] work).program.queue
  sought : SoughtBy config mail work file pending

theorem binds_soughtBy (config : Config) (mail : Mail) (base : Work) (file : String) :
    Binds config mail file fun work => base.Visits config mail work ∧
      work.state.currentOrigin = some file ∧ ∀ pending ∈ work.program.queue,
        pending ∈ base.program.queue ∨ SoughtBy config mail base file pending := by
  have hvisits := @binds_visits config mail base file
  refine ⟨?_, ?_, ?_, ?_, ?_⟩
  · exact fun work store hwork hstore => ⟨hvisits.write work store hwork.1 hstore, hwork.2⟩
  · exact fun work object hwork => ⟨hvisits.object work object hwork.1, hwork.2⟩
  · exact fun work binding hwork => ⟨hvisits.store work binding hwork.1, hwork.2⟩
  · rintro work ⟨hwork, horigin, hqueue⟩
    exact ⟨hvisits.warn work hwork,
      (reports_warnFile work.state file _).currentOrigin.trans horigin, hqueue⟩
  · rintro work name ⟨hwork, horigin, hqueue⟩ hlacks
    have hbase := hlacks.congr hwork.program.files.symm hwork.registry.symm
    refine ⟨hvisits.schedule work name hwork hlacks,
      (currentOrigin_schedule config mail name file work).trans horigin, ?_⟩
    have hasks : work.Asks mail (SoughtBy config mail base file)
        (schedule config mail name file work).2 := by
      refine asks_schedule fun relative path hresolve hpath =>
        ⟨horigin, name, relative, hbase, ?_, hpath⟩
      rw [← hwork.polled]
      exact hresolve
    obtain ⟨more, hmore, hprogram⟩ := hasks.program
    intro pending hpending
    rw [hprogram] at hpending
    rcases List.mem_append.1 hpending with hold | hnew
    · exact hqueue pending hold
    · exact Or.inr (hmore pending hnew)

theorem schedules_of_bindFiles {files : List String}
    (h : pending ∈ (bindFiles config mail files work).program.queue)
    (hadded : pending ∉ work.program.queue) :
    ∃ front file back, files = front ++ file :: back ∧
      Schedules config mail (bindFiles config mail front work) file pending := by
  induction files generalizing work with
  | nil => exact absurd h hadded
  | cons file rest ih =>
    let next := bindFiles config mail [file] work
    by_cases hnext : pending ∈ next.program.queue
    · refine ⟨[], file, rest, rfl, hadded, hnext, ?_⟩
      have hsought := (binds_soughtBy config mail (work.withOrigin (some file)) file).bindFile _
        ⟨.refl config mail _, rfl, fun _ => Or.inl⟩
      exact (hsought.2.2 pending hnext).resolve_left hadded
    · obtain ⟨front, other, back, rfl, hschedules⟩ := @ih next h hnext
      exact ⟨file :: front, other, back, rfl, hschedules⟩

end Capabilities.Resolver
