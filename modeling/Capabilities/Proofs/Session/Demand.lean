import Capabilities.Proofs.Session.Course

/-!
# An analysis loads all that is queued

While files are loaded a resolver asks for none, and a recorder's rule puts its file into the queue
at most once: afterwards the file is loaded, or it has failed and the rule has no text for it. So
what is queued and the rules that may still have an effect (`outstanding`) get fewer with every
attempt, and as many attempts as `Engine.pending` allows empty the queue.
-/

namespace Capabilities.Session

open Host Script Resolver Inference

/-! ### Rules that may still have an effect -/

def Installed.rules : Installed → List Rule
  | .recorder plugin => plugin.rules
  | .resolver _ => []

namespace Program

/-- A rule may still put its file into the queue, now or when what is queued has been loaded: the
    file is not loaded, and if the rule has a text for it, it is not queued with a text; else it is
    not queued and has not failed. -/
def heeds (program : Program) (rule : Rule) : Bool :=
  !program.isLoaded rule.path &&
    if rule.text.isSome then
      !program.queue.any fun pending => pending.path == rule.path && pending.text.isSome
    else !program.isQueued rule.path && !program.hasFailed rule.path

/-- What waits to be loaded and what rules may add to that. -/
def outstanding (rules : List Rule) (program : Program) : Nat :=
  program.queue.length + rules.countP program.heeds

variable {before after program : Program} {rules : List Rule}

/-- As rules lose their effect nothing is added. -/
theorem outstanding_le (count : Nat)
    (hheeds : ∀ rule, after.heeds rule = true → before.heeds rule = true)
    (hqueue : after.queue.length + count ≤ before.queue.length) :
    outstanding rules after + count ≤ outstanding rules before := by
  have hrules : rules.countP after.heeds ≤ rules.countP before.heeds :=
    List.countP_mono_left fun rule _ => hheeds rule
  unfold outstanding
  omega

theorem heeds_eq_true_iff {rule : Rule} :
    program.heeds rule = true ↔ program.isLoaded rule.path = false ∧
      (rule.text.isSome = true → ∀ pending ∈ program.queue, pending.path = rule.path →
        pending.text.isSome = false) ∧
      (rule.text.isSome = false → program.isQueued rule.path = false ∧
        program.hasFailed rule.path = false) := by
  unfold heeds
  cases program.isLoaded rule.path <;> cases rule.text.isSome <;> simp

/-- A rule that puts its file into the queue has no effect any more. -/
theorem outstanding_addFile {rule : Rule} (hrule : rule ∈ rules) :
    outstanding rules (program.addFile rule.path rule.text rule.origin).2 ≤
      outstanding rules program := by
  cases hadded : (program.addFile rule.path rule.text rule.origin).1 with
  | false => exact Nat.le_of_eq (by rw [addFile_of_refused hadded])
  | true =>
    obtain ⟨hunloaded, hunqueued, htext⟩ := addFile_eq_true_iff.1 hadded
    rw [queue_of_added hadded]
    let added : Program :=
      { program with queue := program.queue ++ [⟨rule.path, rule.text, rule.origin⟩] }
    have hfewer : ∀ other, added.heeds other = true → program.heeds other = true := by
      intro other hother
      obtain ⟨hloaded, hqueued, hfailed⟩ := heeds_eq_true_iff.1 hother
      refine heeds_eq_true_iff.2 ⟨hloaded, fun hsome pending hpending =>
        hqueued hsome pending (List.mem_append_left _ hpending), fun hnone => ?_⟩
      obtain ⟨hunqueued', hfailed'⟩ := hfailed hnone
      have hany : program.queue.any (·.path == other.path) = false := by
        have hall : added.queue.any (·.path == other.path) = false := hunqueued'
        rw [List.any_append, Bool.or_eq_false_iff] at hall
        exact hall.1
      exact ⟨hany, hfailed'⟩
    have hbefore : program.heeds rule = true := by
      refine heeds_eq_true_iff.2 ⟨hunloaded, fun _ pending hpending hpath => ?_, fun hnone => ?_⟩
      · have hqueued : program.isQueued rule.path = true :=
          List.any_eq_true.2 ⟨pending, hpending, by simp [hpath]⟩
        rw [hunqueued] at hqueued
        cases hqueued
      · refine ⟨hunqueued, htext.resolve_left fun hsome => ?_⟩
        rw [hnone] at hsome
        cases hsome
    have hafter : added.heeds rule = false := by
      rw [← Bool.not_eq_true]
      intro hheeds
      obtain ⟨-, hqueued, hfailed⟩ := heeds_eq_true_iff.1 hheeds
      cases hsome : rule.text.isSome with
      | true =>
        have hnone := hqueued hsome ⟨rule.path, rule.text, rule.origin⟩ (by simp [added]) rfl
        rw [hsome] at hnone
        cases hnone
      | false =>
        have hunqueued' := (hfailed hsome).1
        simp [isQueued, added] at hunqueued'
    have hlt := countP_lt_countP hfewer hrule hafter hbefore
    have hlength : added.queue.length = program.queue.length + 1 := by simp [added]
    change outstanding rules added ≤ outstanding rules program
    unfold outstanding
    omega

theorem heeds_of_same (hloaded : ∀ path, after.isLoaded path = before.isLoaded path)
    (hqueue : after.queue = before.queue) (hfailed : after.failed = before.failed) (rule : Rule) :
    after.heeds rule = before.heeds rule := by
  unfold heeds isQueued hasFailed
  rw [hloaded, hqueue, hfailed]

theorem outstanding_of_same (hloaded : ∀ path, after.isLoaded path = before.isLoaded path)
    (hqueue : after.queue = before.queue) (hfailed : after.failed = before.failed) :
    outstanding rules after = outstanding rules before := by
  have hheeds : after.heeds = before.heeds := funext (heeds_of_same hloaded hqueue hfailed)
  unfold outstanding
  rw [hheeds, hqueue]

/-- A file is taken from the queue and is loaded. -/
theorem outstanding_enter {pending : PendingFile} {queue : List PendingFile}
    (hqueue : program.queue = pending :: queue) (loaded : LoadedFile) :
    outstanding rules { program with
      queue := queue
      files := program.files.put pending.path loaded } + 1 ≤ outstanding rules program := by
  refine outstanding_le 1 ?_ (by rw [hqueue]; exact Nat.le_refl _)
  intro rule hrule
  obtain ⟨hunloaded, hqueued, hfailed⟩ := heeds_eq_true_iff.1 hrule
  have hput := (isLoaded_put_eq program pending.path loaded rule.path).symm.trans hunloaded
  rw [Bool.or_eq_false_iff, beq_eq_false_iff_ne] at hput
  refine heeds_eq_true_iff.2 ⟨hput.2, ?_, ?_⟩
  · intro hsome other hother hpath
    rw [hqueue] at hother
    rcases List.mem_cons.1 hother with rfl | hother
    · exact absurd hpath.symm hput.1
    · exact hqueued hsome other hother hpath
  · intro hnone
    obtain ⟨hunqueued, hunfailed⟩ := hfailed hnone
    refine ⟨?_, hunfailed⟩
    unfold isQueued at hunqueued ⊢
    rw [hqueue, List.any_cons, hunqueued, Bool.or_false]
    exact beq_eq_false_iff_ne.2 (Ne.symm hput.1)

/-- A file is taken from the queue and has failed. -/
theorem outstanding_fail {pending : PendingFile} {queue : List PendingFile}
    (hqueue : program.queue = pending :: queue) (htext : pending.text = none) :
    outstanding rules { program with
      queue := queue
      failed := program.failed.filter (· != pending.path) ++ [pending.path] } + 1 ≤
        outstanding rules program := by
  refine outstanding_le 1 ?_ (by rw [hqueue]; exact Nat.le_refl _)
  intro rule hrule
  obtain ⟨hunloaded, hqueued, hfailed⟩ := heeds_eq_true_iff.1 hrule
  refine heeds_eq_true_iff.2 ⟨hunloaded, ?_, ?_⟩
  · intro hsome other hother hpath
    rw [hqueue] at hother
    rcases List.mem_cons.1 hother with rfl | hother
    · rw [htext]
      rfl
    · exact hqueued hsome other hother hpath
  · intro hnone
    obtain ⟨hunqueued, hunfailed⟩ := hfailed hnone
    simp only [hasFailed, List.contains_eq_mem, decide_eq_false_iff_not, List.mem_append,
      List.mem_filter, List.mem_singleton, bne_iff_ne, not_or, not_and,
      Decidable.not_not] at hunfailed
    obtain ⟨hother, hne⟩ := hunfailed
    refine ⟨?_, by simpa [hasFailed] using fun hmem => hne (hother hmem)⟩
    unfold isQueued at hunqueued ⊢
    rw [hqueue, List.any_cons, hunqueued, Bool.or_false]
    exact beq_eq_false_iff_ne.2 (Ne.symm hne)

/-- A loaded file has not failed any more. -/
theorem outstanding_done {path : String} (hloaded : program.isLoaded path = true) :
    outstanding rules { program with failed := program.failed.filter (· != path) } ≤
      outstanding rules program := by
  refine outstanding_le 0 ?_ (Nat.le_refl _)
  intro rule hrule
  obtain ⟨hunloaded, hqueued, hfailed⟩ := heeds_eq_true_iff.1 hrule
  refine heeds_eq_true_iff.2 ⟨hunloaded, hqueued, fun hnone => ⟨(hfailed hnone).1, ?_⟩⟩
  have hunfailed := (hfailed hnone).2
  have hne : rule.path ≠ path := by
    intro hsame
    have hthere : program.isLoaded rule.path = false := hunloaded
    rw [hsame, hloaded] at hthere
    cases hthere
  simp only [hasFailed, List.contains_eq_mem, decide_eq_false_iff_not, List.mem_filter,
    bne_iff_ne, not_and, Decidable.not_not] at hunfailed ⊢
  exact fun hmem => hne (hunfailed hmem)

end Program

open Program

/-! ### Hooks -/

/-- A hook of loading keeps what rules a plugin has, and follows none but those. -/
def Modest (rules : List Rule) (hook : Installed → Program → Installed × Program) : Prop :=
  ∀ plugin program, plugin.rules ⊆ rules → (hook plugin program).1.rules ⊆ rules ∧
    outstanding rules (hook plugin program).2 ≤ outstanding rules program

variable {rules : List Rule} {hook : Installed → Program → Installed × Program}

theorem outstanding_ask {some : List Rule} (hsome : some ⊆ rules) (events : List RecordedEvent)
    (program : Program) :
    outstanding rules (Recorder.ask some events program).2 ≤ outstanding rules program := by
  induction some generalizing events program with
  | nil => exact Nat.le_refl _
  | cons rule rest ih =>
    have hfirst := @outstanding_addFile program rules rule (hsome List.mem_cons_self)
    exact Nat.le_trans (ih (fun _ hmem => hsome (List.mem_cons_of_mem _ hmem)) _ _) hfirst

theorem outstanding_note (when : Hook) (file : Option String) {recorder : Recorder}
    (hrules : recorder.rules ⊆ rules) (program : Program) :
    outstanding rules (Recorder.note when file recorder program).2 ≤ outstanding rules program :=
  outstanding_ask (fun _ hrule => hrules (List.mem_filter.1 hrule).1) _ program

theorem outstanding_of_allows {before after : Program} (h : before.Allows (fun _ => False) after) :
    outstanding rules after = outstanding rules before := by
  obtain ⟨more, hmore, hqueue⟩ := h.queue
  obtain rfl : more = [] := List.eq_nil_iff_forall_not_mem.2 hmore
  rw [List.append_nil] at hqueue
  refine outstanding_of_same (fun path => ?_) hqueue h.failed
  unfold isLoaded
  rw [h.files]

theorem modest_beforeLoad (mail : Mail) (path : String) :
    Modest rules (Plugin.beforeLoad mail path) := by
  rintro (resolver | recorder) program hrules
  · refine ⟨hrules, Nat.le_of_eq ?_⟩
    exact congrArg (outstanding rules) (program_beforeLoad mail path resolver program)
  · exact ⟨hrules, outstanding_note .before (some path) hrules program⟩

theorem modest_afterLoad (mail : Mail) (path : String) :
    Modest rules (Plugin.afterLoad mail path) := by
  rintro (resolver | recorder) program hrules
  · exact ⟨hrules, Nat.le_of_eq
      (outstanding_of_allows
        (serves_afterLoad mail path resolver program (fun _ => False) fun _ => False).program)⟩
  · exact ⟨hrules, outstanding_note .after (some path) hrules program⟩

namespace Engine

/-- All rules that plugins of an engine follow are among some. -/
def Obeys (rules : List Rule) (engine : Engine Installed) : Prop :=
  ∀ plugin ∈ engine.plugins, plugin.rules ⊆ rules

variable {engine : Engine Installed} {pending : PendingFile} {queue : List PendingFile}

theorem Obeys.dispatch (h : engine.Obeys rules) (hmodest : Modest rules hook) :
    (engine.dispatch hook).Obeys rules ∧
      outstanding rules (engine.dispatch hook).program ≤ outstanding rules engine.program := by
  have hthrough : ∀ (plugins : List Installed) (program : Program),
      (∀ plugin ∈ plugins, plugin.rules ⊆ rules) →
      (∀ plugin ∈ (dispatch.through hook plugins program).1, plugin.rules ⊆ rules) ∧
        outstanding rules (dispatch.through hook plugins program).2 ≤
          outstanding rules program := by
    intro plugins
    induction plugins with
    | nil => exact fun program hplugins => ⟨hplugins, Nat.le_refl _⟩
    | cons plugin rest ih =>
      intro program hplugins
      obtain ⟨hfirst, hle⟩ := hmodest plugin program (hplugins plugin List.mem_cons_self)
      obtain ⟨hrest, hle'⟩ := ih (hook plugin program).2
        fun other hother => hplugins other (List.mem_cons_of_mem _ hother)
      refine ⟨?_, Nat.le_trans hle' hle⟩
      intro other hother
      rcases List.mem_cons.1 hother with rfl | hother
      · exact hfirst
      · exact hrest other hother
  exact hthrough engine.plugins engine.program h

/-- With every attempt there is less to come. -/
theorem InOrder.outstanding_lt [Parser] (h : engine.InOrder) (hrules : engine.Obeys rules)
    (read : String → Option String) (mail : Mail)
    (hqueue : engine.program.queue = pending :: queue) :
    (engine.loadNext read mail pending queue).Obeys rules ∧
      outstanding rules (engine.loadNext read mail pending queue).program <
        outstanding rules engine.program := by
  rcases loadNext_cases h.primitives read mail pending queue with
    ⟨htext, hnext⟩ | ⟨text, inference, store, htext, -, -, hnext⟩
  · rw [hnext]
    exact ⟨hrules, outstanding_fail hqueue (Option.or_eq_none_iff.1 htext).1⟩
  · rw [hnext]
    let file : LoadedFile := ⟨.ofText pending.path text, .empty, pending.origin⟩
    let opened : Engine Installed := (engine.popping queue).opening pending text
    let announced : Engine Installed := opened.dispatch (Plugin.beforeLoad mail pending.path)
    let inferred : Engine Installed := announced.inferring store pending.path file inference
    let loaded : Engine Installed := inferred.dispatch (Plugin.afterLoad mail pending.path)
    have hopened : outstanding rules opened.program + 1 ≤ outstanding rules engine.program :=
      outstanding_enter hqueue file
    obtain ⟨hannounced, hle⟩ := (show opened.Obeys rules from hrules).dispatch
      (modest_beforeLoad mail pending.path)
    have hthere : announced.program.isLoaded pending.path = true := by
      unfold isLoaded
      rw [(allows_beforeLoad mail pending.path opened).files]
      exact isLoaded_put (engine.popping queue).program pending.path _
    have hinferred : outstanding rules inferred.program = outstanding rules announced.program := by
      refine outstanding_of_same (fun path => ?_) rfl rfl
      refine (isLoaded_put_eq announced.program pending.path _ path).trans ?_
      by_cases hpath : path = pending.path
      · rw [hpath, hthere, Bool.or_true]
      · rw [beq_eq_false_iff_ne.2 hpath, Bool.false_or]
    obtain ⟨hloaded, hle'⟩ := (show inferred.Obeys rules from hannounced).dispatch
      (modest_afterLoad mail pending.path)
    have hthere' : loaded.program.isLoaded pending.path = true := by
      unfold isLoaded
      rw [(allows_afterLoad mail pending.path inferred).files]
      exact isLoaded_put announced.program pending.path _
    have hdone := @outstanding_done loaded.program rules pending.path hthere'
    refine ⟨hloaded, ?_⟩
    calc outstanding rules { loaded.program with
            failed := loaded.program.failed.filter (· != pending.path) }
        ≤ outstanding rules loaded.program := hdone
      _ ≤ outstanding rules inferred.program := hle'
      _ = outstanding rules announced.program := hinferred
      _ ≤ outstanding rules opened.program := hle
      _ < outstanding rules engine.program := hopened

theorem InOrder.drained_of_outstanding [Parser] (h : engine.InOrder) (hrules : engine.Obeys rules)
    {read : String → Option String} {mail : Mail} {enough : Nat}
    (hle : outstanding rules engine.program ≤ enough) :
    (engine.drain read mail enough).2.2.program.queue = [] := by
  induction enough generalizing engine with
  | zero =>
    have hqueue : engine.program.queue.length ≤ 0 := Nat.le_trans (Nat.le_add_right _ _) hle
    exact List.eq_nil_of_length_eq_zero (Nat.le_zero.1 hqueue)
  | succ enough ih =>
    cases hqueue : engine.program.queue with
    | nil =>
      rw [drain_nil _ hqueue]
      exact hqueue
    | cons pending queue =>
      obtain ⟨hnext, hlt⟩ := h.outstanding_lt hrules read mail hqueue
      rw [Engine.drain_cons _ hqueue]
      exact ih (h.next read mail hqueue).1 hnext (by omega)

theorem pending_eq (engine : Engine Installed) :
    engine.pending =
      engine.program.queue.length + (engine.plugins.flatMap Installed.rules).length := by
  have hfold : ∀ (plugins : List Installed) (start : Nat),
      plugins.foldl (fun total plugin => total + Plugin.demand plugin) start =
        start + (plugins.flatMap Installed.rules).length := by
    intro plugins
    induction plugins with
    | nil => exact fun _ => rfl
    | cons plugin rest ih =>
      intro start
      have hdemand : Plugin.demand plugin = plugin.rules.length := by cases plugin <;> rfl
      rw [List.foldl_cons, ih, hdemand, List.flatMap_cons, List.length_append, Nat.add_assoc]
  exact hfold engine.plugins _

variable [Parser]

/-- The plugins of a session leave nothing in the queue when it is drained. -/
theorem InOrder.drained_pending (h : engine.InOrder) (read : String → Option String)
    (mail : Mail) : (engine.drain read mail engine.pending).2.2.program.queue = [] := by
  have hrules : engine.Obeys (engine.plugins.flatMap Installed.rules) :=
    fun plugin hplugin rule hrule => List.mem_flatMap.2 ⟨plugin, hplugin, hrule⟩
  refine h.drained_of_outstanding hrules ?_
  rw [pending_eq]
  unfold outstanding
  exact Nat.add_le_add_left List.countP_le_length _

/-- At any moment of a session an analysis loads all that is queued, and what its plugins ask for
    meanwhile. -/
theorem analyzed_installed (plugins : List Installed) (actions : List Action)
    (read : String → Option String) (mail : Mail) :
    let engine := (new plugins).perform actions
    ∃ attempts, Analyzed read mail engine attempts (engine.analyze read mail).1
      (engine.analyze read mail).2 := by
  intro engine
  have horder : engine.InOrder := (inOrder_new plugins).perform actions
  rw [analyze_eq_analyzeWithin]
  exact ⟨_, horder.analyzed (horder.drained_pending read mail) (length_attempts_le _ engine)⟩

end Engine

end Capabilities.Session
