import Capabilities.Proofs.Session.Account

/-!
# What plugins make of a program

A hook sees the program through its host: it can write to the store and ask for files, in any order
and any number of times, and it has no other way to change the program. `Program.Allows` says what
comes of that, and a `LawfulPlugin` is a plugin whose hooks do no more. Whatever asking for a file
keeps, and does not depend on the store, is kept by every hook of such plugins (`Allows.keeps`).

The store always has the primitives, so no file that was read is refused by inference, and loading
a file comes to the two announcements around it (`load_read`).
-/

namespace Capabilities.Session

open Host Script Inference Capabilities.Types

namespace Program

variable {wanted : PendingFile → Prop} {first second third program : Program}

/-! ### Asking for files -/

def asking (program : Program) (asked : List PendingFile) : Program :=
  asked.foldl (fun program file => (program.addFile file.path file.text file.origin).2) program

/-- What hooks may make of a program: files that are `wanted` are asked for, and the store is
    written to without harm to the primitives. -/
def Allows (wanted : PendingFile → Prop) (before after : Program) : Prop :=
  ∃ asked store, (∀ file ∈ asked, wanted file) ∧
    (before.store.HasPrimitives → store.HasPrimitives) ∧
    after = (before.asking asked).withStore store

theorem addFile_withStore (program : Program) (store : Store) (path : String)
    (text origin : Option String) :
    (program.withStore store).addFile path text origin =
      ((program.addFile path text origin).1,
        (program.addFile path text origin).2.withStore store) := by
  have hloaded : (program.withStore store).isLoaded path = program.isLoaded path := rfl
  have hqueued : (program.withStore store).isQueued path = program.isQueued path := rfl
  have hfailed : (program.withStore store).hasFailed path = program.hasFailed path := rfl
  unfold addFile
  rw [hloaded, hqueued, hfailed]
  split
  · rfl
  · split <;> rfl

theorem asking_append (program : Program) (first second : List PendingFile) :
    program.asking (first ++ second) = (program.asking first).asking second :=
  List.foldl_append ..

theorem asking_withStore (program : Program) (store : Store) (asked : List PendingFile) :
    (program.withStore store).asking asked = (program.asking asked).withStore store := by
  induction asked generalizing program with
  | nil => rfl
  | cons file rest ih =>
    change ((program.withStore store).addFile file.path file.text file.origin).2.asking rest = _
    rw [addFile_withStore]
    exact ih _

/-- Of the files asked for some are queued, in order. -/
theorem asking_eq_queueing (program : Program) (asked : List PendingFile) :
    ∃ more, more.Sublist asked ∧ program.asking asked = program.queueing more := by
  induction asked generalizing program with
  | nil => exact ⟨[], .slnil, (queueing_nil program).symm⟩
  | cons file rest ih =>
    obtain ⟨more, hmore, hrest⟩ := ih (program.addFile file.path file.text file.origin).2
    have hask : program.asking (file :: rest) = _ := hrest
    rw [hask]
    unfold addFile
    split
    · exact ⟨more, hmore.cons file, rfl⟩
    · split
      · exact ⟨more, hmore.cons file, rfl⟩
      · exact ⟨file :: more, hmore.cons_cons file, queueing_queueing program [file] more⟩

/-! ### What hooks may do -/

namespace Allows

theorem refl (wanted : PendingFile → Prop) (program : Program) : program.Allows wanted program :=
  ⟨[], program.store, fun _ h => (by cases h), id, rfl⟩

theorem write (wanted : PendingFile → Prop) (program : Program) {store : Store}
    (h : program.store.HasPrimitives → store.HasPrimitives) :
    program.Allows wanted (program.withStore store) :=
  ⟨[], store, fun _ h => (by cases h), h, rfl⟩

theorem ask {path : String} {text origin : Option String} (program : Program)
    (h : wanted ⟨path, text, origin⟩) :
    program.Allows wanted (program.addFile path text origin).2 := by
  refine ⟨[⟨path, text, origin⟩], (program.addFile path text origin).2.store, ?_, ?_, rfl⟩
  · intro file hfile
    rw [List.mem_singleton.1 hfile]
    exact h
  · obtain ⟨more, hmore, -⟩ := addFile_eq_queueing program path text origin
    rw [hmore]
    exact id

theorem trans (h : first.Allows wanted second) (h' : second.Allows wanted third) :
    first.Allows wanted third := by
  obtain ⟨asked, store, hasked, hstore, rfl⟩ := h
  obtain ⟨asked', store', hasked', hstore', rfl⟩ := h'
  refine ⟨asked ++ asked', store', ?_, fun hfirst => hstore' (hstore hfirst), ?_⟩
  · intro file hfile
    rcases List.mem_append.1 hfile with hfile | hfile
    · exact hasked file hfile
    · exact hasked' file hfile
  · rw [asking_withStore, asking_append]
    rfl

theorem mono {other : PendingFile → Prop} (h : first.Allows wanted second)
    (hother : ∀ file, wanted file → other file) : first.Allows other second := by
  obtain ⟨asked, store, hasked, hstore, hsecond⟩ := h
  exact ⟨asked, store, fun file hfile => hother file (hasked file hfile), hstore, hsecond⟩

/-- What is kept by asking for a file, whatever the store is. -/
theorem keeps {P : Program → Prop} (h : first.Allows wanted second)
    (hask : ∀ program file, wanted file → P program →
      P (program.addFile file.path file.text file.origin).2)
    (hstore : ∀ program store, P program → P (program.withStore store)) (hP : P first) :
    P second := by
  obtain ⟨asked, store, hasked, -, rfl⟩ := h
  refine hstore _ store ?_
  induction asked generalizing first with
  | nil => exact hP
  | cons file rest ih =>
    exact ih (hask first file (hasked file List.mem_cons_self) hP)
      fun other hother => hasked other (List.mem_cons_of_mem _ hother)

theorem primitives (h : first.Allows wanted second) (hfirst : first.store.HasPrimitives) :
    second.store.HasPrimitives := by
  obtain ⟨asked, store, -, hstore, rfl⟩ := h
  exact hstore hfirst

/-- Hooks put wanted files behind those that wait already, and change nothing else but the
    store. -/
theorem queueing (h : first.Allows wanted second) :
    ∃ more, (∀ file ∈ more, wanted file) ∧
      second = (first.queueing more).withStore second.store := by
  obtain ⟨asked, store, hasked, -, rfl⟩ := h
  obtain ⟨more, hmore, hqueueing⟩ := asking_eq_queueing first asked
  refine ⟨more, fun file hfile => hasked file (hmore.subset hfile), ?_⟩
  rw [hqueueing]
  rfl

theorem files (h : first.Allows wanted second) : second.files = first.files := by
  obtain ⟨more, -, hsecond⟩ := h.queueing
  rw [hsecond]
  rfl

theorem failed (h : first.Allows wanted second) : second.failed = first.failed := by
  obtain ⟨more, -, hsecond⟩ := h.queueing
  rw [hsecond]
  rfl

theorem queue (h : first.Allows wanted second) :
    ∃ more, (∀ file ∈ more, wanted file) ∧ second.queue = first.queue ++ more := by
  obtain ⟨more, hmore, hsecond⟩ := h.queueing
  refine ⟨more, hmore, ?_⟩
  rw [hsecond]
  rfl

theorem knows {path : String} (h : first.Allows wanted second) (hpath : first.Knows path) :
    second.Knows path := by
  obtain ⟨more, -, hsecond⟩ := h.queueing
  rw [hsecond]
  exact hpath.queueing more

end Allows

end Program

/-! ### Lawful plugins -/

/-- A plugin that changes the program only as its host allows it to. -/
class LawfulPlugin (π : Type) [Plugin π] : Prop where
  beforeLoad : ∀ mail path (plugin : π) (program : Program),
    program.Allows (fun _ => True) (Plugin.beforeLoad mail path plugin program).2
  afterLoad : ∀ mail path (plugin : π) (program : Program),
    program.Allows (fun _ => True) (Plugin.afterLoad mail path plugin program).2
  postInfer : ∀ mail (plugin : π) (program : Program),
    program.Allows (fun _ => True) (Plugin.postInfer mail plugin program).2

namespace Engine

variable {π : Type} {wanted : PendingFile → Prop} {engine : Engine π}
  {hook : π → Program → π × Program}

theorem allows_through
    (h : ∀ plugin (program : Program), program.Allows wanted (hook plugin program).2)
    (plugins : List π) (program : Program) :
    program.Allows wanted (dispatch.through hook plugins program).2 := by
  induction plugins generalizing program with
  | nil => exact .refl wanted program
  | cons plugin rest ih => exact (h plugin program).trans (ih (hook plugin program).2)

/-- All plugins together make of a program what each of them may make of it. -/
theorem allows_dispatch
    (h : ∀ plugin (program : Program), program.Allows wanted (hook plugin program).2)
    (engine : Engine π) : engine.program.Allows wanted (engine.dispatch hook).program :=
  allows_through h engine.plugins engine.program

variable [Plugin π] [LawfulPlugin π] {read : String → Option String}
  {pending : PendingFile} {text : String}

theorem allows_beforeLoad (mail : Mail) (path : String) (engine : Engine π) :
    engine.program.Allows (fun _ => True)
      (engine.dispatch (Plugin.beforeLoad mail path)).program :=
  allows_dispatch (LawfulPlugin.beforeLoad mail path) engine

theorem allows_afterLoad (mail : Mail) (path : String) (engine : Engine π) :
    engine.program.Allows (fun _ => True)
      (engine.dispatch (Plugin.afterLoad mail path)).program :=
  allows_dispatch (LawfulPlugin.afterLoad mail path) engine

theorem allows_postInfer (mail : Mail) (engine : Engine π) :
    engine.program.Allows (fun _ => True) (engine.dispatch (Plugin.postInfer mail)).program :=
  allows_dispatch (LawfulPlugin.postInfer mail) engine

variable [Parser]

/-- A file with a text is announced, inferred, and announced again. Inference never refuses it. -/
theorem load_read (mail : Mail) (hprimitives : engine.program.store.HasPrimitives)
    (htext : pending.text.or (read pending.path) = some text) :
    ∃ inference store,
      inferFile pending.path (parse text) ((engine.opening pending text).dispatch
        (Plugin.beforeLoad mail pending.path)).program.store = (.ok inference, store) ∧
      store.HasPrimitives ∧
      engine.load read mail pending = (true, (((engine.opening pending text).dispatch
        (Plugin.beforeLoad mail pending.path)).inferring store pending.path
          ⟨.ofText pending.path text, .empty, pending.origin⟩ inference).dispatch
            (Plugin.afterLoad mail pending.path)) := by
  have hallows := allows_beforeLoad mail pending.path (engine.opening pending text)
  have hthere : ((engine.opening pending text).dispatch
      (Plugin.beforeLoad mail pending.path)).program.files.get? pending.path =
        some ⟨.ofText pending.path text, .empty, pending.origin⟩ := by
    rw [hallows.files]
    exact Keyed.get?_put_self _ _ _
  have hannounced : ((engine.opening pending text).dispatch
      (Plugin.beforeLoad mail pending.path)).program.store.HasPrimitives :=
    hallows.primitives hprimitives
  generalize hannouncing : (engine.opening pending text).dispatch
    (Plugin.beforeLoad mail pending.path) = announced at *
  obtain ⟨inference, own, -, hinfer, hold, -⟩ :=
    inferFile_followedBy pending.path (parse text) hannounced
  rw [hinfer] at hold
  refine ⟨_, _, hinfer, ?_, load_inferred htext hannouncing hthere hinfer⟩
  refine hannounced.keep fun type kind htype => ?_
  rw [hold type (Store.lt_of_type? htype)]
  exact htype

/-- It is noted that a file was loaded, or that it has failed. -/
def noting (engine : Engine π) (path : String) (succeeded : Bool) : Engine π :=
  let known := engine.program.failed.filter (· != path)
  { engine with program := { engine.program with
    failed := if succeeded then known else known ++ [path] } }

/-- The first file of the queue has no text and fails, or it is announced, inferred and announced
    again. -/
theorem loadNext_cases (hprimitives : engine.program.store.HasPrimitives)
    (read : String → Option String) (mail : Mail) (pending : PendingFile)
    (queue : List PendingFile) :
    (pending.text.or (read pending.path) = none ∧
      engine.loadNext read mail pending queue =
        (engine.popping queue).noting pending.path false) ∨
    ∃ text inference store, pending.text.or (read pending.path) = some text ∧
      inferFile pending.path (parse text) (((engine.popping queue).opening pending text).dispatch
        (Plugin.beforeLoad mail pending.path)).program.store = (.ok inference, store) ∧
      store.HasPrimitives ∧
      engine.loadNext read mail pending queue = (((((engine.popping queue).opening pending
        text).dispatch (Plugin.beforeLoad mail pending.path)).inferring store pending.path
          ⟨.ofText pending.path text, .empty, pending.origin⟩ inference).dispatch
            (Plugin.afterLoad mail pending.path)).noting pending.path true := by
  cases htext : pending.text.or (read pending.path) with
  | none =>
    have hload : (engine.popping queue).load read mail pending = (false, engine.popping queue) :=
      load_unreadable htext
    exact Or.inl ⟨rfl, loadNext_eq hload⟩
  | some text =>
    obtain ⟨inference, store, hinfer, hstore, hload⟩ :=
      @load_read π (engine.popping queue) _ _ read pending text _ mail hprimitives htext
    exact Or.inr ⟨text, inference, store, rfl, hinfer, hstore, loadNext_eq hload⟩

end Engine

end Capabilities.Session
