import Capabilities.Proofs.Resolver.Visiting
import Capabilities.Script.Parse

/-!
# The queue of a session

A path that is not loaded may be queued, and one that could not be loaded is queued again only with
a text. While a file is loaded its path has left the queue and may still be noted as failed; hooks
ask for files at that moment too, so the invariant is stated with the path that is being loaded
(`Program.TidyBut`) and is kept by every request then. Between two files it is `Program.Tidy`.
-/

namespace Capabilities.Session

open Host Script Resolver Capabilities.Types

/-! ### The plugins of a session are lawful -/

theorem allows_ask (rules : List Rule) (events : List RecordedEvent) (program : Program) :
    program.Allows (fun _ => True) (Recorder.ask rules events program).2 := by
  induction rules generalizing events program with
  | nil => exact .refl _ program
  | cons rule rest ih =>
    have hask : program.Allows (fun _ => True)
        (program.addFile rule.path rule.text rule.origin).2 := .ask program trivial
    exact hask.trans (ih _ _)

instance : LawfulPlugin Recorder where
  beforeLoad _ _ _ program := allows_ask _ _ program
  afterLoad _ _ _ program := allows_ask _ _ program
  postInfer _ _ program := allows_ask _ _ program

/-- Announcing a file to a resolver leaves the program alone. -/
theorem program_beforeLoad (mail : Mail) (path : String) (resolver : ResolverPlugin)
    (program : Program) : (ResolverPlugin.beforeLoad mail path resolver program).2 = program := by
  unfold ResolverPlugin.beforeLoad
  dsimp only
  split <;> rfl

/-- When a file is inferred a resolver asks for nothing and reports no capability. -/
theorem serves_afterLoad (mail : Mail) (path : String) (resolver : ResolverPlugin)
    (program : Program) (wanted : PendingFile → Prop) (named : String → Prop) :
    (resolver.work program).Serves mail wanted named
      ((ResolverPlugin.afterLoad mail path resolver program).1.work
        (ResolverPlugin.afterLoad mail path resolver program).2) := by
  unfold ResolverPlugin.afterLoad
  dsimp only
  split
  · have hserves := serves_synthesize resolver.config mail wanted named path (resolver.work program)
    obtain ⟨hprogram, hstate, htable⟩ := hserves
    exact ⟨hprogram, hstate.trans (.of_same named rfl rfl), htable⟩
  · exact .refl mail wanted named (resolver.work program)

/-- In a pass a resolver asks for what consumers lack, and reports it if it cannot. -/
theorem visits_postInfer (mail : Mail) (resolver : ResolverPlugin) (program : Program) :
    (resolver.work program).Visits resolver.config mail
      ((ResolverPlugin.postInfer mail resolver program).1.work
        (ResolverPlugin.postInfer mail resolver program).2) := by
  unfold ResolverPlugin.postInfer
  dsimp only
  split
  · exact visits_bindProgram resolver.config mail (resolver.work program)
  · exact .refl resolver.config mail (resolver.work program)

instance : LawfulPlugin ResolverPlugin where
  beforeLoad mail path resolver program := by
    have hsame : (Plugin.beforeLoad mail path resolver program).2 = program :=
      program_beforeLoad mail path resolver program
    rw [hsame]
    exact .refl _ program
  afterLoad mail path resolver program :=
    (serves_afterLoad mail path resolver program _ fun _ => False).program
  postInfer mail resolver program :=
    (visits_postInfer mail resolver program).program.mono fun _ _ => trivial

instance : LawfulPlugin Installed where
  beforeLoad mail path plugin program := by
    cases plugin with
    | resolver resolver => exact LawfulPlugin.beforeLoad mail path resolver program
    | recorder recorder => exact LawfulPlugin.beforeLoad mail path recorder program
  afterLoad mail path plugin program := by
    cases plugin with
    | resolver resolver => exact LawfulPlugin.afterLoad mail path resolver program
    | recorder recorder => exact LawfulPlugin.afterLoad mail path recorder program
  postInfer mail plugin program := by
    cases plugin with
    | resolver resolver => exact LawfulPlugin.postInfer mail resolver program
    | recorder recorder => exact LawfulPlugin.postInfer mail recorder program

/-! ### Asking for a file -/

namespace Program

variable {first second program : Program} {path : String} {text origin : Option String}

/-- A file is queued if it is neither loaded nor queued, and has a text or has not failed. -/
theorem addFile_eq_true_iff :
    (program.addFile path text origin).1 = true ↔
      program.isLoaded path = false ∧ program.isQueued path = false ∧
        (text.isSome = true ∨ program.hasFailed path = false) := by
  unfold addFile
  cases program.isLoaded path <;> cases program.isQueued path <;>
    cases program.hasFailed path <;> cases text <;> simp

theorem addFile_of_refused (h : (program.addFile path text origin).1 = false) :
    (program.addFile path text origin).2 = program := by
  unfold addFile at h ⊢
  split
  · rfl
  · split
    · rfl
    · rename_i hfirst hsecond
      rw [if_neg hfirst, if_neg hsecond] at h
      cases h

theorem queue_of_added (h : (program.addFile path text origin).1 = true) :
    (program.addFile path text origin).2 =
      { program with queue := program.queue ++ [⟨path, text, origin⟩] } := by
  unfold addFile at h ⊢
  split
  · rename_i hfirst
    rw [if_pos hfirst] at h
    cases h
  · split
    · rename_i hfirst hsecond
      rw [if_neg hfirst, if_pos hsecond] at h
      cases h
    · rfl

/-! ### One place for a path -/

/-- Every path is queued once, and none that is loaded; what is loaded has not failed unless it is
    being loaded just now, and what has failed is queued with a text only. -/
structure TidyBut (current : Option String) (program : Program) : Prop
    extends program.Orderly where
  loaded : ∀ path, current ≠ some path → program.isLoaded path = true →
    program.hasFailed path = false
  retried : ∀ pending ∈ program.queue, program.hasFailed pending.path = true →
    pending.text.isSome = true

/-- No file is being loaded just now. -/
abbrev Tidy (program : Program) : Prop := program.TidyBut none

variable {current : Option String}

theorem tidy_initial : Program.initial.Tidy :=
  ⟨.initial, fun _ _ h => (by cases h), fun _ h => (by cases h)⟩

theorem TidyBut.of_same (h : first.TidyBut current)
    (hloaded : ∀ path, second.isLoaded path = first.isLoaded path)
    (hqueue : second.queue = first.queue) (hfailed : second.failed = first.failed) :
    second.TidyBut current := by
  have hsame : ∀ path, second.hasFailed path = first.hasFailed path := by
    intro path
    unfold hasFailed
    rw [hfailed]
  have hqueued : second.queued = first.queued := by
    unfold queued
    rw [hqueue]
  refine ⟨⟨hqueued ▸ h.nodup, ?_⟩, ?_, ?_⟩
  · intro path hpath
    rw [hloaded]
    exact h.unloaded path (hqueued ▸ hpath)
  · intro path hne hpath
    rw [hloaded] at hpath
    rw [hsame]
    exact h.loaded path hne hpath
  · intro pending hpending hpath
    rw [hqueue] at hpending
    rw [hsame] at hpath
    exact h.retried pending hpending hpath

theorem TidyBut.addFile (h : program.TidyBut current) (path : String)
    (text origin : Option String) : (program.addFile path text origin).2.TidyBut current := by
  cases hadded : (program.addFile path text origin).1 with
  | false =>
    rw [addFile_of_refused hadded]
    exact h
  | true =>
    have horderly := h.toOrderly.addFile path text origin
    obtain ⟨-, -, htext⟩ := addFile_eq_true_iff.1 hadded
    rw [queue_of_added hadded] at horderly ⊢
    refine ⟨horderly, h.loaded, ?_⟩
    intro pending hpending hfailed
    rcases List.mem_append.1 hpending with hold | hnew
    · exact h.retried pending hold hfailed
    · rw [List.mem_singleton.1 hnew] at hfailed ⊢
      refine htext.resolve_right fun hnone => ?_
      have hsame : program.hasFailed path = true := hfailed
      rw [hnone] at hsame
      cases hsame

/-- Hooks keep the program tidy at any moment. -/
theorem Allows.tidy {wanted : PendingFile → Prop} (h : first.Allows wanted second)
    (hfirst : first.TidyBut current) : second.TidyBut current :=
  h.keeps (fun _ file _ hprogram => hprogram.addFile file.path file.text file.origin)
    (fun _ _ hprogram => hprogram.of_same (fun _ => rfl) rfl rfl) hfirst

theorem Tidy.updateFile (h : program.Tidy) (path text : String) :
    (program.updateFile path text).Tidy := by
  have hfewer : ∀ other, (program.updateFile path text).hasFailed other = true →
      other ≠ path ∧ program.hasFailed other = true := by
    intro other hother
    rw [hasFailed_updateFile, Bool.and_eq_true, bne_iff_ne] at hother
    exact hother
  refine ⟨h.toOrderly.updateFile path text, ?_, ?_⟩
  · intro other _ hloaded
    rw [← Bool.not_eq_true]
    intro hfailed
    obtain ⟨hne, hbefore⟩ := hfewer other hfailed
    rw [isLoaded_updateFile, Bool.and_eq_true] at hloaded
    rw [h.loaded other (by simp) hloaded.2] at hbefore
    cases hbefore
  · intro pending hpending hfailed
    obtain ⟨hne, hbefore⟩ := hfewer pending.path hfailed
    rcases List.mem_append.1 hpending with hold | hnew
    · exact h.retried pending (List.mem_filter.1 hold).1 hbefore
    · rw [List.mem_singleton.1 hnew] at hne
      exact absurd rfl hne

/-- The file that is loaded next is taken out of the queue. -/
theorem Tidy.pop {pending : PendingFile} {queue : List PendingFile} (h : program.Tidy)
    (hqueue : program.queue = pending :: queue) :
    ({ program with queue := queue } : Program).Tidy := by
  obtain ⟨-, -, horderly⟩ := h.toOrderly.pop hqueue
  refine ⟨horderly, h.loaded, ?_⟩
  intro other hother
  exact h.retried other (by rw [hqueue]; exact List.mem_cons_of_mem _ hother)

/-- Its text is put among the loaded files, whether it has failed before or not. -/
theorem Tidy.put {loaded : LoadedFile} (h : program.Tidy) (hpath : path ∉ program.queued) :
    ({ program with files := program.files.put path loaded } : Program).TidyBut (some path) := by
  refine ⟨h.toOrderly.put hpath, ?_, h.retried⟩
  intro other hne hother
  refine h.loaded other (by simp) ?_
  have hdifferent : other ≠ path := fun hsame => hne (by rw [hsame])
  rw [isLoaded_congr (Keyed.get?_put_of_ne _ _ hdifferent)] at hother
  exact hother

/-- When it is loaded it has not failed any more. -/
theorem TidyBut.done (h : program.TidyBut (some path)) :
    ({ program with failed := program.failed.filter (· != path) } : Program).Tidy := by
  have hfewer : ∀ other, (program.failed.filter (· != path)).contains other = true →
      other ≠ path ∧ program.hasFailed other = true := by
    intro other hother
    simp only [hasFailed, List.contains_eq_mem, List.mem_filter, decide_eq_true_eq,
      bne_iff_ne] at hother ⊢
    exact ⟨hother.2, hother.1⟩
  refine ⟨⟨h.nodup, h.unloaded⟩, ?_, ?_⟩
  · intro other _ hloaded
    rw [← Bool.not_eq_true]
    intro hfailed
    obtain ⟨hne, hbefore⟩ := hfewer other hfailed
    rw [h.loaded other (fun hsame => hne (Option.some.inj hsame).symm) hloaded] at hbefore
    cases hbefore
  · intro pending hpending hfailed
    exact h.retried pending hpending (hfewer pending.path hfailed).2

/-- When it cannot be read it has failed, and is neither loaded nor queued. -/
theorem Tidy.fail (h : program.Tidy) (hunqueued : path ∉ program.queued)
    (hunloaded : program.isLoaded path = false) :
    ({ program with failed := program.failed.filter (· != path) ++ [path] } : Program).Tidy := by
  have hcases : ∀ other, (program.failed.filter (· != path) ++ [path]).contains other = true →
      other = path ∨ program.hasFailed other = true := by
    intro other hother
    simp only [hasFailed, List.contains_eq_mem, List.mem_append, List.mem_filter,
      List.mem_singleton, decide_eq_true_eq] at hother ⊢
    exact hother.elim (fun hold => Or.inr hold.1) Or.inl
  refine ⟨⟨h.nodup, h.unloaded⟩, ?_, ?_⟩
  · intro other _ hloaded
    rw [← Bool.not_eq_true]
    intro hfailed
    rcases hcases other hfailed with rfl | hbefore
    · have hloaded' : program.isLoaded other = true := hloaded
      rw [hunloaded] at hloaded'
      cases hloaded'
    · rw [h.loaded other (by simp) hloaded] at hbefore
      cases hbefore
  · intro pending hpending hfailed
    rcases hcases pending.path hfailed with hsame | hbefore
    · refine absurd ?_ hunqueued
      rw [← hsame]
      exact List.mem_map.2 ⟨pending, hpending, rfl⟩
    · exact h.retried pending hpending hbefore

end Program

/-! ### Attempts -/

namespace Engine

/-- The program is tidy, and its store has the primitives. -/
structure InOrder {π : Type} (engine : Engine π) : Prop where
  tidy : engine.program.Tidy
  primitives : engine.program.store.HasPrimitives

theorem inOrder_of_initial {π : Type} {engine : Engine π} (h : engine.program = .initial) :
    engine.InOrder := by
  constructor
  · rw [h]
    exact Program.tidy_initial
  · rw [h]
    exact .initial

theorem inOrder_new {π : Type} (plugins : List π) : (new plugins).InOrder :=
  inOrder_of_initial rfl

theorem Starts.inOrder {config : Config} {others : Nat} {engine : Engine Installed}
    (h : engine.Starts config others) : engine.InOrder := by
  obtain ⟨_, _, _, hprogram⟩ := h
  exact inOrder_of_initial hprogram

variable {π : Type} [Plugin π] [LawfulPlugin π] {engine : Engine π} {pending : PendingFile}
  {queue : List PendingFile}

/-- What an attempt to load the first file of the queue makes of a program. -/
structure Attempted (pending : PendingFile) (queue : List PendingFile) (succeeded : Bool)
    (before after : Program) : Prop where
  loaded : ∀ path, after.isLoaded path =
    (succeeded && path == pending.path || before.isLoaded path)
  failed : after.failed = if succeeded then before.failed.filter (· != pending.path)
    else before.failed.filter (· != pending.path) ++ [pending.path]
  queue : ∃ more, after.queue = queue ++ more
  primitives : after.store.HasPrimitives
  tidy : after.Tidy

/-- An attempt succeeds if the file has a text or can be read. -/
theorem InOrder.attempted [Parser] (h : engine.InOrder) (read : String → Option String)
    (mail : Mail) (hqueue : engine.program.queue = pending :: queue) :
    Attempted pending queue (pending.text.or (read pending.path)).isSome engine.program
      (engine.loadNext read mail pending queue).program := by
  obtain ⟨hunqueued, hunloaded, -⟩ := h.tidy.toOrderly.pop hqueue
  have hpopped : (engine.popping queue).program.Tidy := h.tidy.pop hqueue
  rcases loadNext_cases h.primitives read mail pending queue with
    ⟨htext, hnext⟩ | ⟨text, inference, store, htext, -, hstore, hnext⟩
  · rw [htext, hnext]
    refine ⟨fun _ => rfl, rfl, ⟨[], (List.append_nil queue).symm⟩, h.primitives, ?_⟩
    exact hpopped.fail hunqueued hunloaded
  · rw [htext, hnext]
    have hbefore := allows_beforeLoad mail pending.path
      ((engine.popping queue).opening pending text)
    have hopened : ((engine.popping queue).opening pending text).program.TidyBut
        (some pending.path) := hpopped.put hunqueued
    generalize ((engine.popping queue).opening pending text).dispatch
      (Plugin.beforeLoad mail pending.path) = announced at hbefore
    let file : LoadedFile := ⟨.ofText pending.path text, .empty, pending.origin⟩
    have hannounced : ∀ path, announced.program.isLoaded path =
        (path == pending.path || engine.program.isLoaded path) := by
      intro path
      unfold Program.isLoaded
      rw [hbefore.files]
      exact Program.isLoaded_put_eq (engine.popping queue).program pending.path file path
    have hthere : ∀ path, (announced.inferring store pending.path file inference).program.isLoaded
        path = announced.program.isLoaded path := by
      intro path
      refine (Program.isLoaded_put_eq announced.program pending.path _ path).trans ?_
      rw [hannounced, ← Bool.or_assoc, Bool.or_self]
    have hinferred : (announced.inferring store pending.path file inference).program.TidyBut
        (some pending.path) :=
      (hbefore.tidy hopened).of_same hthere rfl rfl
    have hafter := allows_afterLoad mail pending.path
      (announced.inferring store pending.path file inference)
    generalize (announced.inferring store pending.path file inference).dispatch
      (Plugin.afterLoad mail pending.path) = next at hafter
    refine ⟨?_, ?_, ?_, ?_, ?_⟩
    · intro path
      refine Eq.trans ?_ ((hthere path).trans (hannounced path))
      change next.program.files.contains path = _
      rw [hafter.files]
      rfl
    · change next.program.failed.filter (· != pending.path) = _
      rw [hafter.failed]
      change announced.program.failed.filter (· != pending.path) = _
      rw [hbefore.failed]
      rfl
    · obtain ⟨first, -, hfirst⟩ := hbefore.queue
      obtain ⟨second, -, hsecond⟩ := hafter.queue
      refine ⟨first ++ second, ?_⟩
      change next.program.queue = _
      rw [hsecond]
      change announced.program.queue ++ second = _
      rw [hfirst, List.append_assoc]
      rfl
    · exact hafter.primitives hstore
    · exact (hafter.tidy hinferred).done

/-- The path of an attempt is loaded or has failed afterwards, and no other path is forgotten. -/
theorem Attempted.knows {succeeded : Bool} {before after : Program} {path : String}
    (h : Attempted pending queue succeeded before after) (hqueue : before.queue = pending :: queue)
    (hknown : before.Knows path) : after.Knows path := by
  by_cases hpath : path = pending.path
  · subst hpath
    cases succeeded with
    | true =>
      left
      rw [h.loaded]
      simp
    | false =>
      right
      right
      unfold Program.hasFailed
      rw [h.failed]
      simp
  rcases hknown with hloaded | hqueued | hfailed
  · left
    rw [h.loaded, hloaded, Bool.or_true]
  · right
    left
    obtain ⟨more, hmore⟩ := h.queue
    unfold Program.isQueued at hqueued ⊢
    rw [hqueue, List.any_cons, beq_eq_false_iff_ne.2 (Ne.symm hpath), Bool.false_or] at hqueued
    rw [hmore, List.any_append, hqueued, Bool.true_or]
  · right
    right
    unfold Program.hasFailed at hfailed ⊢
    rw [h.failed]
    have hkept : path ∈ before.failed.filter (· != pending.path) :=
      List.mem_filter.2 ⟨by simpa using hfailed, bne_iff_ne.2 hpath⟩
    split
    · simpa using hkept
    · simpa using Or.inl hkept

/-! ### What every part of a session keeps -/

section

variable [Parser]

theorem endures_inOrder : Endures (@InOrder π) := by
  constructor
  · intro engine path text origin h
    refine ⟨h.tidy.addFile path text origin, ?_⟩
    obtain ⟨more, hmore, -⟩ := addFile_eq_queueing engine.program path text origin
    change (engine.program.addFile path text origin).2.store.HasPrimitives
    rw [hmore]
    exact h.primitives
  · intro engine path text h
    exact ⟨h.tidy.updateFile path text, h.primitives⟩
  · intro engine read mail pending queue hqueue h
    obtain ⟨-, -, -, hprimitives, htidy⟩ := h.attempted read mail hqueue
    exact ⟨htidy, hprimitives⟩
  · intro engine mail h
    have hallows := allows_postInfer mail engine
    exact ⟨hallows.tidy h.tidy, hallows.primitives h.primitives⟩

theorem InOrder.perform (h : engine.InOrder) (actions : List Action) :
    (engine.perform actions).InOrder :=
  endures_inOrder.perform actions h

/-- A path that is known stays known. -/
theorem endures_knows (path : String) :
    Endures fun engine : Engine π => engine.InOrder ∧ engine.program.Knows path := by
  have horder := @endures_inOrder π _ _
  constructor
  · rintro engine other text origin ⟨h, hknown⟩
    refine ⟨horder.addFile engine other text origin h, ?_⟩
    obtain ⟨more, hmore, -⟩ := addFile_eq_queueing engine.program other text origin
    change (engine.program.addFile other text origin).2.Knows path
    rw [hmore]
    exact hknown.queueing more
  · rintro engine other text ⟨h, hknown⟩
    exact ⟨horder.updateFile engine other text h, hknown.updateFile other text⟩
  · rintro engine read mail pending queue hqueue ⟨h, hknown⟩
    exact ⟨horder.load engine read mail pending queue hqueue h,
      (h.attempted read mail hqueue).knows hqueue hknown⟩
  · rintro engine mail ⟨h, hknown⟩
    exact ⟨horder.look engine mail h, (allows_postInfer mail engine).knows hknown⟩

/-- At every moment of a session, whatever files its plugins ask for: no path is queued twice, a
    path that is loaded is neither queued nor has it failed, and one that has failed is queued with
    a text only. Whatever comes next, the paths that are known stay known; a file that is added is
    queued if it is neither loaded nor queued, and has a text or has not failed, and else nothing
    changes. -/
theorem queue_in_order (plugins : List π) (actions : List Action) :
    let engine := (new plugins).perform actions
    engine.program.queued.Nodup ∧
    (∀ path, engine.program.isLoaded path = true →
      engine.program.isQueued path = false ∧ engine.program.hasFailed path = false) ∧
    (∀ pending ∈ engine.program.queue, engine.program.hasFailed pending.path = true →
      pending.text.isSome = true) ∧
    (∀ action path, engine.program.Knows path → (engine.act action).program.Knows path) ∧
    ∀ path text origin,
      ((engine.program.addFile path text origin).1 = true ↔
        engine.program.isLoaded path = false ∧ engine.program.isQueued path = false ∧
          (text.isSome = true ∨ engine.program.hasFailed path = false)) ∧
      ((engine.program.addFile path text origin).1 = false →
        engine.step (.addFile path text origin) = engine) := by
  intro engine
  have horder : engine.InOrder := (inOrder_new plugins).perform actions
  refine ⟨horder.tidy.nodup, ?_, horder.tidy.retried, ?_, ?_⟩
  · intro path hloaded
    refine ⟨?_, horder.tidy.loaded path (by simp) hloaded⟩
    rw [← Bool.not_eq_true]
    intro hqueued
    have hunloaded := horder.tidy.unloaded path ((Program.isQueued_iff _ path).1 hqueued)
    rw [hloaded] at hunloaded
    cases hunloaded
  · intro action path hknown
    exact ((endures_knows path).act engine action ⟨horder, hknown⟩).2
  · intro path text origin
    refine ⟨Program.addFile_eq_true_iff, ?_⟩
    intro hrefused
    change ({ engine with program := (engine.program.addFile path text origin).2 } : Engine π) = _
    rw [Program.addFile_of_refused hrefused]

end

/-- A recorder that asks for a file while that very file is loaded, and a resolver. -/
def retrying : List Installed :=
  [.recorder ⟨[⟨.before, some "/a.js", "/a.js", some "var a = 2;", none⟩,
      ⟨.before, some "/a.js", "/b.js", none, some "/a.js"⟩], []⟩,
    .resolver ⟨.default, .initial, .fixed ⟨[]⟩, none⟩]

def retryActions : List Action :=
  [.step (.addFile "/a.js" none none), .step (.analyze (fun _ => none) []),
    .step (.addFile "/a.js" (some "var a = 1;") none)]

theorem queue_in_order_retrying :
    let engine := (new retrying).perform retryActions
    (engine.program.failed = ["/a.js"] ∧ engine.program.queued = ["/a.js"] ∧
      (engine.act (.load (fun _ => none) [])).program.fileNames = ["/a.js"] ∧
      (engine.act (.load (fun _ => none) [])).program.failed = [] ∧
      (engine.act (.load (fun _ => none) [])).program.queued = ["/b.js"]) ∧
    (∀ pending ∈ engine.program.queue, engine.program.hasFailed pending.path = true →
      pending.text.isSome = true) ∧
    ∀ action path, engine.program.Knows path → (engine.act action).program.Knows path := by
  obtain ⟨-, -, hretried, hknown, -⟩ := queue_in_order retrying retryActions
  exact ⟨by decide +kernel, hretried, hknown⟩

end Engine

end Capabilities.Session
