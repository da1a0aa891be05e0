import Capabilities.Proofs.Types.Places
import Capabilities.Session.Program

/-!
# The files of a session, read back

What the loaded files declare, and what queueing and updating a file leave alone.
-/

namespace Capabilities.Session.Program

open Capabilities.Types

def locals (program : Program) : Variables :=
  fun of => program.localValue? of.file of.scope of.name

def withStore (program : Program) (store : Store) : Program := { program with store := store }

/-- Only the loaded files declare variables. -/
theorem locals_of_files {first second : Program} (h : first.files = second.files) :
    first.locals = second.locals := by
  funext of
  simp only [locals, localValue?, h]

/-! ### What is loaded -/

theorem isLoaded_iff {program : Program} {path : String} :
    program.isLoaded path = true ↔ ∃ loaded, program.files.get? path = some loaded :=
  Option.isSome_iff_exists

theorem isLoaded_of_get? {program : Program} {path : String} {loaded : LoadedFile}
    (h : program.files.get? path = some loaded) : program.isLoaded path = true :=
  isLoaded_iff.2 ⟨loaded, h⟩

theorem get?_of_unloaded {program : Program} {path : String}
    (h : program.isLoaded path = false) : program.files.get? path = none :=
  Option.not_isSome_iff_eq_none.1 (Bool.eq_false_iff.1 h)

theorem isLoaded_congr {first second : Program} {path : String}
    (h : second.files.get? path = first.files.get? path) :
    second.isLoaded path = first.isLoaded path :=
  congrArg Option.isSome h

theorem isLoaded_put (program : Program) (path : String) (loaded : LoadedFile) :
    ({ program with files := program.files.put path loaded } : Program).isLoaded path = true :=
  isLoaded_of_get? (Keyed.get?_put_self _ _ _)

theorem isLoaded_put_eq (program : Program) (path : String) (loaded : LoadedFile)
    (other : String) :
    ({ program with files := program.files.put path loaded } : Program).isLoaded other =
      (other == path || program.isLoaded other) := by
  by_cases hother : other = path
  · rw [hother, isLoaded_put, beq_self_eq_true, Bool.true_or]
  · rw [isLoaded_congr (Keyed.get?_put_of_ne _ _ hother), beq_eq_false_iff_ne.2 hother,
      Bool.false_or]

theorem isLoaded_updateFile (program : Program) (path text other : String) :
    (program.updateFile path text).isLoaded other =
      (other != path && program.isLoaded other) := by
  by_cases hother : other = path
  · rw [hother, bne_self_eq_false, Bool.false_and]
    exact congrArg Option.isSome ((Keyed.get?_erase _ _ _).trans (if_pos rfl))
  · rw [isLoaded_congr (Keyed.get?_erase_of_ne _ hother), bne_iff_ne.2 hother, Bool.true_and]

/-! ### The queue -/

/-- Every path is queued once, and none of a loaded file is. -/
structure Orderly (program : Program) : Prop where
  nodup : program.queued.Nodup
  unloaded : ∀ path ∈ program.queued, program.isLoaded path = false

theorem Orderly.initial : Program.initial.Orderly :=
  ⟨List.nodup_nil, fun _ h => by cases h⟩

theorem Orderly.of_same {first second : Program} (h : first.Orderly)
    (hfiles : second.files = first.files) (hqueue : second.queue = first.queue) :
    second.Orderly := by
  have hqueued : second.queued = first.queued := by
    unfold queued
    rw [hqueue]
  constructor
  · rw [hqueued]
    exact h.nodup
  · intro path hpath
    rw [hqueued] at hpath
    unfold isLoaded
    rw [hfiles]
    exact h.unloaded path hpath

/-- A file that is not queued any more is loaded. -/
theorem Orderly.put {program : Program} {path : String} {loaded : LoadedFile}
    (h : program.Orderly) (hpath : path ∉ program.queued) :
    ({ program with files := program.files.put path loaded } : Program).Orderly := by
  refine ⟨h.nodup, ?_⟩
  intro other hother
  have hne : other ≠ path := by
    rintro rfl
    exact hpath hother
  rw [isLoaded_congr (Keyed.get?_put_of_ne _ _ hne)]
  exact h.unloaded other hother

/-- A loaded file is not queued, so putting it again changes nothing about that. -/
theorem Orderly.putAgain {program : Program} {path : String} {loaded : LoadedFile}
    (h : program.Orderly) (hthere : ∃ former, program.files.get? path = some former) :
    ({ program with files := program.files.put path loaded } : Program).Orderly := by
  refine h.put fun hqueued => ?_
  have hunloaded := h.unloaded path hqueued
  rw [isLoaded_iff.2 hthere] at hunloaded
  cases hunloaded

/-- The first file of the queue is neither loaded nor queued a second time. -/
theorem Orderly.pop {program : Program} {pending : PendingFile} {queue : List PendingFile}
    (h : program.Orderly) (hqueue : program.queue = pending :: queue) :
    pending.path ∉ queue.map PendingFile.path ∧ program.isLoaded pending.path = false ∧
      ({ program with queue := queue } : Program).Orderly := by
  have hqueued : program.queued = pending.path :: queue.map PendingFile.path := by
    unfold queued
    rw [hqueue]
    rfl
  have hnodup := h.nodup
  rw [hqueued, List.nodup_cons] at hnodup
  refine ⟨hnodup.1, h.unloaded _ (by simp [hqueued]), hnodup.2, ?_⟩
  intro path hpath
  refine h.unloaded path ?_
  rw [hqueued]
  exact List.mem_cons_of_mem _ hpath

theorem isQueued_iff (program : Program) (path : String) :
    program.isQueued path = true ↔ path ∈ program.queued := by
  simp [isQueued, queued]

theorem Orderly.addFile {program : Program} (h : program.Orderly) (path : String)
    (text origin : Option String) : (program.addFile path text origin).2.Orderly := by
  unfold Program.addFile
  split
  · exact h
  rename_i hnew
  split
  · exact h
  have hunloaded : program.isLoaded path = false := by
    cases hloaded : program.isLoaded path with
    | false => rfl
    | true => simp [hloaded] at hnew
  have hunqueued : path ∉ program.queued := by
    intro hqueued
    have hisQueued := (isQueued_iff program path).2 hqueued
    simp [hisQueued] at hnew
  constructor
  · simp only [queued, List.map_append, List.map_cons, List.map_nil]
    rw [List.nodup_append]
    refine ⟨h.nodup, by simp, ?_⟩
    intro first hfirst second hsecond heq
    rw [List.mem_singleton.1 hsecond] at heq
    rw [heq] at hfirst
    exact hunqueued hfirst
  · intro other hother
    simp only [queued, List.map_append, List.map_cons, List.map_nil, List.mem_append,
      List.mem_singleton] at hother
    rcases hother with hother | rfl
    · exact h.unloaded other hother
    · exact hunloaded

/-- A file that is updated goes to the end of the queue. -/
theorem queued_updateFile (program : Program) (path text : String) :
    (program.updateFile path text).queued = program.queued.filter (· != path) ++ [path] := by
  simp [updateFile, queued, List.filter_map, Function.comp_def]

theorem isQueued_updateFile (program : Program) (path text other : String) :
    (program.updateFile path text).isQueued other = (other == path || program.isQueued other) := by
  rw [Bool.eq_iff_iff, Bool.or_eq_true, isQueued_iff, isQueued_iff, queued_updateFile]
  by_cases hother : other = path
  · simp [hother]
  · simp [hother]

theorem hasFailed_updateFile (program : Program) (path text other : String) :
    (program.updateFile path text).hasFailed other =
      (other != path && program.hasFailed other) := by
  rw [Bool.eq_iff_iff]
  simp [hasFailed, updateFile, and_comm]

theorem Orderly.updateFile {program : Program} (h : program.Orderly) (path text : String) :
    (program.updateFile path text).Orderly := by
  constructor
  · rw [queued_updateFile, List.nodup_append]
    refine ⟨h.nodup.sublist List.filter_sublist, by simp, ?_⟩
    intro first hfirst second hsecond heq
    rw [List.mem_singleton.1 hsecond] at heq
    simp [heq] at hfirst
  · intro other hother
    rw [queued_updateFile] at hother
    rw [isLoaded_updateFile]
    rcases List.mem_append.1 hother with hother | hother
    · rw [h.unloaded other (List.mem_filter.1 hother).1, Bool.and_false]
    · rw [List.mem_singleton.1 hother, bne_self_eq_false, Bool.false_and]

end Capabilities.Session.Program
