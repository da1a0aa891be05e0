import Capabilities.Proofs.Session.Queue
import Capabilities.Script.Parse

/-!
# The course of an analysis

An analysis is laid out as a list of `Move`s: a file leaves the queue, its text is put among the
loaded ones, one plugin after the other is called, the file is inferred, and so on. The moves of an
attempt are read off from whether the file has a text (`Attempt.moves`), and following the moves of
all attempts is what draining the queue comes to (`drain_eq_follow`). So the moves say which plugin
is called for what, in which order, and what the program is at that moment.

Hooks may put files behind those that wait, at any call. Nothing is lost and nothing is taken
twice, because what was queued and what the calls add is, in this order, what the attempts take and
what is left (`queue_attempts`). A path is attempted at most twice, so draining ends when the paths
that ever get into the queue are finitely many (`burden`).
-/

namespace Capabilities.Session

open Host Script Inference Capabilities.Types

/-! ### Moves -/

inductive Event where
  | before (file : String)
  | after (file : String)
  | post
deriving DecidableEq, Repr

def Event.hook {π : Type} [Plugin π] (mail : Mail) : Event → π → Program → π × Program
  | .before file => Plugin.beforeLoad mail file
  | .after file => Plugin.afterLoad mail file
  | .post => Plugin.postInfer mail

theorem Event.hook_resolver (event : Event) (mail : Mail) (resolver : Resolver.ResolverPlugin)
    (program : Program) : event.hook mail (Installed.resolver resolver) program =
      (.resolver (event.hook mail resolver program).1, (event.hook mail resolver program).2) := by
  cases event <;> rfl

theorem Event.hook_recorder (event : Event) (mail : Mail) (recorder : Recorder)
    (program : Program) : event.hook mail (Installed.recorder recorder) program =
      (.recorder (event.hook mail recorder program).1, (event.hook mail recorder program).2) := by
  cases event <;> rfl

/-- A part of an analysis: the first file leaves the queue, its text is put among the loaded ones,
    a plugin is called, the file is inferred, or it is noted whether it was loaded. -/
inductive Move where
  | take
  | enter (pending : PendingFile) (text : String)
  | call (plugin : Nat) (event : Event)
  | infer (path text : String)
  | note (path : String) (succeeded : Bool)
deriving DecidableEq, Repr

/-- The plugin that a move calls, and what for. -/
def Move.call? : Move → Option (Nat × Event)
  | .call plugin event => some (plugin, event)
  | _ => none

def calls (count : Nat) (event : Event) : List Move := (List.range count).map (.call · event)

theorem call?_calls (count : Nat) (event : Event) :
    (calls count event).filterMap Move.call? = (List.range count).map (·, event) := by
  unfold calls
  rw [List.filterMap_map, ← List.filterMap_eq_map]
  rfl

/-- A file that is taken from the queue, with its text if it has one or can be read. -/
structure Attempt where
  file : PendingFile
  text : Option String
deriving DecidableEq, Repr

namespace Attempt

def succeeded (attempt : Attempt) : Bool := attempt.text.isSome

/-- The parts of an attempt. Plugins are not called for a file that has no text. -/
def moves (count : Nat) (attempt : Attempt) : List Move :=
  let path := attempt.file.path
  match attempt.text with
  | none => [.take, .note path false]
  | some text =>
    [.take, .enter attempt.file text] ++ calls count (.before path) ++ [.infer path text] ++
      calls count (.after path) ++ [.note path true]

/-- An attempt takes one file from the queue, in the beginning. -/
theorem moves_eq_take (count : Nat) (attempt : Attempt) :
    ∃ rest, attempt.moves count = .take :: rest ∧ .take ∉ rest := by
  unfold moves
  cases attempt.text with
  | none => exact ⟨_, rfl, by simp⟩
  | some text => exact ⟨_, rfl, by simp [calls]⟩

/-- The plugins are called for a file that is loaded, before it is inferred and after that. -/
theorem call?_moves (count : Nat) (attempt : Attempt) :
    (attempt.moves count).filterMap Move.call? =
      (if attempt.succeeded then
        [Event.before attempt.file.path, .after attempt.file.path] else []).flatMap
          fun event => (List.range count).map (·, event) := by
  unfold moves succeeded
  cases attempt.text with
  | none => rfl
  | some text =>
    simp only [List.filterMap_append, call?_calls]
    simp [List.filterMap_cons, Move.call?]

end Attempt

def outcomes (succeeded : Bool) (attempts : List Attempt) : List String :=
  (attempts.filter (·.succeeded == succeeded)).map (·.file.path)

/-- What plugins are called for when some files are loaded: each is announced twice, and in the end
    there is a look at the whole program. -/
def events (loaded : List String) : List Event :=
  loaded.flatMap (fun file => [.before file, .after file]) ++ [.post]

/-- The parts of all attempts, and of the look at the whole program in the end. -/
def course (count : Nat) (attempts : List Attempt) : List Move :=
  attempts.flatMap (Attempt.moves count) ++ calls count .post

theorem call?_course (count : Nat) (attempts : List Attempt) :
    (course count attempts).filterMap Move.call? = (events (outcomes true attempts)).flatMap
      fun event => (List.range count).map (·, event) := by
  have hattempts : (attempts.flatMap (Attempt.moves count)).filterMap Move.call? =
      ((outcomes true attempts).flatMap fun file => [Event.before file, .after file]).flatMap
        fun event => (List.range count).map (·, event) := by
    induction attempts with
    | nil => rfl
    | cons attempt rest ih =>
      rw [List.flatMap_cons, List.filterMap_append, ih, Attempt.call?_moves]
      cases hsucceeded : attempt.succeeded <;> simp [outcomes, hsucceeded]
  unfold course events
  rw [List.filterMap_append, hattempts, call?_calls, List.flatMap_append]
  simp

/-- Fewer items are counted if none is counted newly and one not any more. -/
theorem countP_lt_countP {α : Type} {first second : α → Bool} {items : List α} {item : α}
    (h : ∀ other, first other = true → second other = true) (hmem : item ∈ items)
    (hfirst : first item = false) (hsecond : second item = true) :
    items.countP first < items.countP second := by
  induction items with
  | nil => cases hmem
  | cons head rest ih =>
    have hle : rest.countP first ≤ rest.countP second :=
      List.countP_mono_left fun other _ => h other
    rcases List.mem_cons.1 hmem with rfl | hrest
    · rw [List.countP_cons_of_neg (by simp [hfirst]), List.countP_cons_of_pos hsecond]
      omega
    · have hlt := ih hrest
      cases hhead : first head with
      | true =>
        rw [List.countP_cons_of_pos hhead, List.countP_cons_of_pos (h head hhead)]
        omega
      | false =>
        rw [List.countP_cons_of_neg (by simp [hhead]), List.countP_cons]
        omega

namespace Engine

variable {π : Type} [Plugin π]

def call (mail : Mail) (plugin : Nat) (event : Event) (engine : Engine π) : Engine π :=
  match engine.plugins[plugin]? with
  | none => engine
  | some called =>
    let (called, program) := event.hook mail called engine.program
    ⟨program, engine.plugins.set plugin called⟩

section

variable [Parser]

def inferAt (path text : String) (program : Program) : Program :=
  let inferred := inferFile path (parse text) program.store
  match inferred.1, program.files.get? path with
  | .ok inference, some loaded =>
    { program with
      store := inferred.2
      files := program.files.put path { loaded with inference := inference } }
  | _, _ => { program with store := inferred.2 }

def move (mail : Mail) (engine : Engine π) : Move → Engine π
  | .take => { engine with program := { engine.program with queue := engine.program.queue.tail } }
  | .enter pending text => engine.opening pending text
  | .call plugin event => engine.call mail plugin event
  | .infer path text => { engine with program := inferAt path text engine.program }
  | .note path succeeded =>
    let known := engine.program.failed.filter (· != path)
    { engine with program := { engine.program with
      failed := if succeeded then known else known ++ [path] } }

def follow (mail : Mail) (engine : Engine π) (moves : List Move) : Engine π :=
  moves.foldl (move mail) engine

/-- The files that the calls among some moves put into the queue, in order. -/
def asked (mail : Mail) : Engine π → List Move → List PendingFile
  | _, [] => []
  | engine, .call plugin event :: rest =>
    (engine.call mail plugin event).program.queue.drop engine.program.queue.length ++
      (engine.call mail plugin event).asked mail rest
  | engine, first :: rest => (engine.move mail first).asked mail rest

/-- Each of some moves is made in an engine that is as it should be for it. -/
def Throughout (mail : Mail) (P : Engine π → Move → Prop) : Engine π → List Move → Prop
  | _, [] => True
  | engine, first :: rest => P engine first ∧ Throughout mail P (engine.move mail first) rest

/-- The attempts of draining the queue, at most `steps` of them. -/
def attempts (read : String → Option String) (mail : Mail) : Nat → Engine π → List Attempt
  | 0, _ => []
  | steps + 1, engine =>
    match engine.program.queue with
    | [] => []
    | pending :: queue =>
      ⟨pending, pending.text.or (read pending.path)⟩ ::
        (engine.loadNext read mail pending queue).attempts read mail steps

def analyzeWithin (read : String → Option String) (mail : Mail) (steps : Nat) (engine : Engine π) :
    AnalysisReport × Engine π :=
  let (loaded, failed, engine) := engine.drain read mail steps
  let engine := engine.dispatch (Plugin.postInfer mail)
  (⟨loaded, failed, engine.program.queue.length⟩, engine)

theorem analyze_eq_analyzeWithin (read : String → Option String) (mail : Mail)
    (engine : Engine π) :
    engine.analyze read mail = engine.analyzeWithin read mail engine.pending := rfl

variable {read : String → Option String} {mail : Mail} {engine : Engine π} {pending : PendingFile}
  {queue : List PendingFile}

/-! ### Following moves -/

theorem follow_append (mail : Mail) (engine : Engine π) (first second : List Move) :
    engine.follow mail (first ++ second) = (engine.follow mail first).follow mail second :=
  List.foldl_append ..

theorem asked_cons (mail : Mail) (engine : Engine π) (first : Move) (rest : List Move) :
    engine.asked mail (first :: rest) =
      engine.asked mail [first] ++ (engine.move mail first).asked mail rest := by
  cases first with
  | call plugin event => simp only [asked, List.append_nil, move]
  | take => rfl
  | enter pending text => rfl
  | infer path text => rfl
  | note path succeeded => rfl

theorem asked_append (mail : Mail) (engine : Engine π) (first second : List Move) :
    engine.asked mail (first ++ second) =
      engine.asked mail first ++ (engine.follow mail first).asked mail second := by
  induction first generalizing engine with
  | nil => rfl
  | cons move rest ih =>
    rw [List.cons_append, asked_cons, ih, asked_cons mail engine move rest, List.append_assoc]
    rfl

theorem throughout_append {P : Engine π → Move → Prop} {first second : List Move} :
    engine.Throughout mail P (first ++ second) ↔
      engine.Throughout mail P first ∧ (engine.follow mail first).Throughout mail P second := by
  induction first generalizing engine with
  | nil => simp [Throughout, follow]
  | cons move rest ih =>
    simp only [List.cons_append, Throughout, ih, and_assoc]
    rfl

/-- What holds throughout holds before each move. -/
theorem Throughout.here {P : Engine π → Move → Prop} {front back : List Move} {move : Move}
    (h : engine.Throughout mail P (front ++ move :: back)) :
    P (engine.follow mail front) move :=
  (throughout_append.1 h).2.1

theorem length_plugins_move (mail : Mail) (engine : Engine π) (move : Move) :
    (engine.move mail move).plugins.length = engine.plugins.length := by
  cases move with
  | call plugin event =>
    unfold Engine.move call
    dsimp only
    split
    · rfl
    · exact List.length_set
  | take => rfl
  | enter pending text => rfl
  | infer path text => rfl
  | note path succeeded => rfl

theorem length_plugins_follow (mail : Mail) (engine : Engine π) (moves : List Move) :
    (engine.follow mail moves).plugins.length = engine.plugins.length := by
  induction moves generalizing engine with
  | nil => rfl
  | cons move rest ih =>
    exact (ih (engine.move mail move)).trans (length_plugins_move mail engine move)

/-- Calling all plugins in order is dispatching the hook. The plugins before `rest` were called
    already. -/
theorem follow_calls_from (mail : Mail) (event : Event) (done rest : List π) (program : Program) :
    follow mail ⟨program, done ++ rest⟩
        ((List.range' done.length rest.length).map (.call · event)) =
      ⟨(dispatch.through (event.hook mail) rest program).2,
        done ++ (dispatch.through (event.hook mail) rest program).1⟩ := by
  induction rest generalizing done program with
  | nil => rfl
  | cons plugin rest ih =>
    have hcall : call mail done.length event ⟨program, done ++ plugin :: rest⟩ =
        ⟨(event.hook mail plugin program).2,
          (done ++ [(event.hook mail plugin program).1]) ++ rest⟩ := by
      unfold call
      simp
    have hnext := ih (done ++ [(event.hook mail plugin program).1])
      (event.hook mail plugin program).2
    rw [← hcall, List.length_append, List.length_singleton] at hnext
    rw [List.length_cons, List.range'_succ, List.map_cons]
    refine hnext.trans ?_
    simp only [dispatch.through, List.append_assoc, List.singleton_append]

theorem follow_calls (mail : Mail) (event : Event) (engine : Engine π) :
    engine.follow mail (calls engine.plugins.length event) =
      engine.dispatch (event.hook mail) := by
  unfold calls
  rw [List.range_eq_range']
  exact follow_calls_from mail event [] engine.plugins engine.program

/-! ### One attempt -/

/-- A plugin that is called for a file finds it loaded, as the last of all. -/
def Announced (engine : Engine π) : Move → Prop
  | .call _ (.before file) | .call _ (.after file) =>
    engine.program.isLoaded file = true ∧ engine.program.fileNames.getLast? = some file
  | _ => True

theorem attempts_cons (hqueue : engine.program.queue = pending :: queue) (steps : Nat) :
    engine.attempts read mail (steps + 1) = ⟨pending, pending.text.or (read pending.path)⟩ ::
      (engine.loadNext read mail pending queue).attempts read mail steps := by
  simp only [attempts, hqueue]

theorem attempts_nil (hqueue : engine.program.queue = []) (steps : Nat) :
    engine.attempts read mail steps = [] := by
  cases steps with
  | zero => rfl
  | succ steps => simp only [attempts, hqueue]

theorem length_attempts_le (steps : Nat) (engine : Engine π) :
    (engine.attempts read mail steps).length ≤ steps := by
  induction steps generalizing engine with
  | zero => exact Nat.le_refl _
  | succ steps ih =>
    cases hqueue : engine.program.queue with
    | nil =>
      rw [attempts_nil hqueue]
      exact Nat.zero_le _
    | cons pending queue =>
      rw [attempts_cons hqueue]
      exact Nat.succ_le_succ (ih _)

variable [LawfulPlugin π]

omit [Parser] in
theorem allows_call (mail : Mail) (plugin : Nat) (event : Event) (engine : Engine π) :
    engine.program.Allows (fun _ => True) (engine.call mail plugin event).program := by
  unfold call
  split
  · exact .refl _ engine.program
  · cases event with
    | before file => exact LawfulPlugin.beforeLoad mail file _ engine.program
    | after file => exact LawfulPlugin.afterLoad mail file _ engine.program
    | post => exact LawfulPlugin.postInfer mail _ engine.program

/-- What the calls put into the queue stands behind what waited before. -/
theorem queue_follow (mail : Mail) (engine : Engine π) {moves : List Move}
    (htake : .take ∉ moves) :
    (engine.follow mail moves).program.queue =
      engine.program.queue ++ engine.asked mail moves := by
  induction moves generalizing engine with
  | nil => exact (List.append_nil _).symm
  | cons move rest ih =>
    have hrest := ih (engine.move mail move) fun hmem => htake (List.mem_cons_of_mem _ hmem)
    have hmove : (engine.move mail move).program.queue =
        engine.program.queue ++ engine.asked mail [move] := by
      cases move with
      | call plugin event =>
        obtain ⟨more, -, hmore⟩ := (allows_call mail plugin event engine).queue
        simp only [asked, Engine.move, List.append_nil, hmore, List.drop_left]
      | take => exact absurd List.mem_cons_self htake
      | enter pending text => exact (List.append_nil _).symm
      | note path succeeded => exact (List.append_nil _).symm
      | infer path text =>
        have hsame : (inferAt path text engine.program).queue = engine.program.queue := by
          unfold inferAt
          dsimp only
          split <;> rfl
        exact hsame.trans (List.append_nil _).symm
    rw [asked_cons, ← List.append_assoc, ← hmove]
    exact hrest

/-- Calls leave the loaded files alone, so all of them find what the first one finds. -/
theorem throughout_calls {file : String} {event : Event}
    (hevent : event = .before file ∨ event = .after file)
    (h : engine.program.isLoaded file = true ∧ engine.program.fileNames.getLast? = some file)
    (count : Nat) : engine.Throughout mail Announced (calls count event) := by
  unfold calls
  generalize List.range count = plugins
  induction plugins generalizing engine with
  | nil => trivial
  | cons plugin rest ih =>
    refine ⟨by rcases hevent with rfl | rfl <;> exact h, ih ?_⟩
    have hfiles := (allows_call mail plugin event engine).files
    unfold Program.isLoaded Program.fileNames at h ⊢
    change (engine.call mail plugin event).program.files.contains file = true ∧
      (engine.call mail plugin event).program.files.keys.getLast? = some file
    rw [hfiles]
    exact h

omit [LawfulPlugin π] in
theorem throughout_post (count : Nat) :
    engine.Throughout mail Announced (calls count .post) := by
  unfold calls
  generalize List.range count = plugins
  induction plugins generalizing engine with
  | nil => trivial
  | cons plugin rest ih => exact ⟨trivial, ih⟩

/-- Loading the first file of the queue is following the moves of an attempt. -/
theorem InOrder.loadNext (h : engine.InOrder) (read : String → Option String) (mail : Mail)
    (hqueue : engine.program.queue = pending :: queue) :
    engine.loadNext read mail pending queue = engine.follow mail
        (Attempt.moves engine.plugins.length ⟨pending, pending.text.or (read pending.path)⟩) ∧
      engine.Throughout mail Announced
        (Attempt.moves engine.plugins.length ⟨pending, pending.text.or (read pending.path)⟩) := by
  have htake : engine.move mail .take = engine.popping queue := by
    unfold Engine.move
    rw [hqueue]
    rfl
  unfold Attempt.moves
  rcases loadNext_cases h.primitives read mail pending queue with
    ⟨htext, hnext⟩ | ⟨text, inference, store, htext, hinfer, -, hnext⟩
  · rw [htext, hnext]
    refine ⟨?_, ⟨trivial, trivial, trivial⟩⟩
    change _ = (engine.move mail .take).move mail (.note pending.path false)
    rw [htake]
    rfl
  · rw [htext, hnext]
    let opened : Engine π := (engine.popping queue).opening pending text
    have hbefore := allows_beforeLoad mail pending.path opened
    let announced : Engine π := opened.dispatch (Plugin.beforeLoad mail pending.path)
    let file : LoadedFile := ⟨.ofText pending.path text, .empty, pending.origin⟩
    let inferred : Engine π := announced.inferring store pending.path file inference
    have hopened : opened.program.isLoaded pending.path = true ∧
        opened.program.fileNames.getLast? = some pending.path := by
      refine ⟨Program.isLoaded_put _ _ _, ?_⟩
      obtain ⟨-, hunloaded, -⟩ := h.tidy.toOrderly.pop hqueue
      have hnew : pending.path ∉ engine.program.files.keys := by
        intro hmem
        have hloaded := (Keyed.contains_iff _ _).2 hmem
        unfold Program.isLoaded at hunloaded
        rw [hunloaded] at hloaded
        cases hloaded
      change (engine.program.files.put pending.path file).keys.getLast? = _
      rw [Keyed.keys_put, if_neg hnew, List.getLast?_concat]
    have hthere : announced.program.files.get? pending.path = some file := by
      rw [hbefore.files]
      exact Keyed.get?_put_self _ _ _
    have hinferred : inferred.program.isLoaded pending.path = true ∧
        inferred.program.fileNames.getLast? = some pending.path := by
      refine ⟨Program.isLoaded_put _ _ _, ?_⟩
      change (announced.program.files.put pending.path _).keys.getLast? = _
      have hmem : pending.path ∈ announced.program.files.keys :=
        (Keyed.mem_keys_iff _ _).2 (by rw [hthere]; rfl)
      rw [Keyed.keys_put, if_pos hmem, hbefore.files]
      exact hopened.2
    have hopen : engine.follow mail [.take, .enter pending text] = opened := by
      change (engine.move mail .take).move mail (.enter pending text) = opened
      rw [htake]
      rfl
    have hannounce : opened.follow mail (calls engine.plugins.length (.before pending.path)) =
        announced := follow_calls mail (.before pending.path) opened
    have hcount : announced.plugins.length = engine.plugins.length := by
      rw [← hannounce, length_plugins_follow]
      rfl
    have hinfers : announced.follow mail [.infer pending.path text] = inferred := by
      have hstep : inferAt pending.path text announced.program = inferred.program := by
        unfold inferAt
        rw [hinfer, hthere]
        rfl
      change ({ announced with program := inferAt pending.path text announced.program } :
        Engine π) = inferred
      rw [hstep]
      rfl
    have hprovide : inferred.follow mail (calls engine.plugins.length (.after pending.path)) =
        inferred.dispatch (Plugin.afterLoad mail pending.path) := by
      rw [← hcount]
      exact follow_calls mail (.after pending.path) inferred
    simp only [follow_append, throughout_append, hopen, hannounce, hinfers, hprovide]
    refine ⟨rfl, ⟨⟨⟨⟨trivial, trivial, trivial⟩, ?_⟩, trivial, trivial⟩, ?_⟩, trivial, trivial⟩
    · exact throughout_calls (Or.inl rfl) hopened _
    · exact throughout_calls (Or.inr rfl) hinferred _

/-- The lists of an analysis grow by the path of the attempt. -/
theorem InOrder.drain_cons (h : engine.InOrder)
    (hqueue : engine.program.queue = pending :: queue) (steps : Nat) :
    engine.drain read mail (steps + 1) =
      let rest := (engine.loadNext read mail pending queue).drain read mail steps
      if (pending.text.or (read pending.path)).isSome then
        (pending.path :: rest.1, rest.2.1, rest.2.2)
      else (rest.1, pending.path :: rest.2.1, rest.2.2) := by
  have hload : ((engine.popping queue).load read mail pending).1 =
      (pending.text.or (read pending.path)).isSome := by
    cases htext : pending.text.or (read pending.path) with
    | none =>
      have hload : (engine.popping queue).load read mail pending = (false, engine.popping queue) :=
        load_unreadable htext
      rw [hload]
      rfl
    | some text =>
      obtain ⟨inference, store, -, -, hload⟩ :=
        @load_read π (engine.popping queue) _ _ read pending text _ mail h.primitives htext
      rw [hload]
      rfl
  rw [drain_succ steps hqueue, hload]

/-! ### All attempts -/

theorem InOrder.next (h : engine.InOrder) (read : String → Option String) (mail : Mail)
    (hqueue : engine.program.queue = pending :: queue) :
    (engine.loadNext read mail pending queue).InOrder ∧
      (engine.loadNext read mail pending queue).plugins.length = engine.plugins.length := by
  refine ⟨endures_inOrder.load engine read mail pending queue hqueue h, ?_⟩
  rw [(h.loadNext read mail hqueue).1, length_plugins_follow]

/-- Draining the queue is following the moves of its attempts; whoever is called for a file finds
    it loaded last. -/
theorem InOrder.drain_eq_follow (h : engine.InOrder) (steps : Nat) :
    (engine.drain read mail steps).2.2 = engine.follow mail
        ((engine.attempts read mail steps).flatMap (Attempt.moves engine.plugins.length)) ∧
      engine.Throughout mail Announced
        ((engine.attempts read mail steps).flatMap (Attempt.moves engine.plugins.length)) := by
  induction steps generalizing engine with
  | zero => exact ⟨rfl, trivial⟩
  | succ steps ih =>
    cases hqueue : engine.program.queue with
    | nil =>
      rw [attempts_nil hqueue, drain_nil _ hqueue]
      exact ⟨rfl, trivial⟩
    | cons pending queue =>
      obtain ⟨hnext, hcount⟩ := h.next read mail hqueue
      obtain ⟨hloaded, hannounced⟩ := h.loadNext read mail hqueue
      obtain ⟨hdrained, hrest⟩ := ih hnext
      rw [attempts_cons hqueue, Engine.drain_cons _ hqueue, List.flatMap_cons, follow_append,
        throughout_append, ← hloaded]
      rw [hcount] at hdrained hrest
      exact ⟨hdrained, hannounced, hrest⟩

/-- Each attempt is reported once: among the loaded files if there is a text, else among those that
    failed. -/
theorem InOrder.drain_outcomes (h : engine.InOrder) (steps : Nat) :
    (engine.drain read mail steps).1 = outcomes true (engine.attempts read mail steps) ∧
      (engine.drain read mail steps).2.1 = outcomes false (engine.attempts read mail steps) ∧
      ∀ attempt ∈ engine.attempts read mail steps,
        attempt.text = attempt.file.text.or (read attempt.file.path) := by
  induction steps generalizing engine with
  | zero => exact ⟨rfl, rfl, fun _ hattempt => by cases hattempt⟩
  | succ steps ih =>
    cases hqueue : engine.program.queue with
    | nil =>
      rw [attempts_nil hqueue]
      unfold drain
      simp only [hqueue]
      exact ⟨rfl, rfl, fun _ hattempt => by cases hattempt⟩
    | cons pending queue =>
      obtain ⟨hloaded, hfailed, htexts⟩ :=
        ih (h.next read mail hqueue).1
      rw [attempts_cons hqueue, h.drain_cons hqueue]
      refine ⟨?_, ?_, ?_⟩
      · cases htext : pending.text.or (read pending.path) with
        | none => simpa [outcomes, Attempt.succeeded] using hloaded
        | some text => simpa [outcomes, Attempt.succeeded] using hloaded
      · cases htext : pending.text.or (read pending.path) with
        | none => simpa [outcomes, Attempt.succeeded] using hfailed
        | some text => simpa [outcomes, Attempt.succeeded] using hfailed
      · intro attempt hattempt
        rcases List.mem_cons.1 hattempt with rfl | hrest
        · rfl
        · exact htexts attempt hrest

/-- What was queued, and what the calls add, is what the attempts take and what is left. -/
theorem InOrder.queue_attempts (h : engine.InOrder) (steps : Nat) :
    engine.program.queue ++ engine.asked mail
        ((engine.attempts read mail steps).flatMap (Attempt.moves engine.plugins.length)) =
      (engine.attempts read mail steps).map Attempt.file ++
        (engine.drain read mail steps).2.2.program.queue := by
  induction steps generalizing engine with
  | zero => exact List.append_nil _
  | succ steps ih =>
    cases hqueue : engine.program.queue with
    | nil =>
      rw [attempts_nil hqueue, drain_nil _ hqueue, hqueue]
      rfl
    | cons pending queue =>
      obtain ⟨hnext, hcount⟩ := h.next read mail hqueue
      obtain ⟨hloaded, -⟩ := h.loadNext read mail hqueue
      have hrest := ih hnext
      rw [hcount] at hrest
      have hfirst : (engine.loadNext read mail pending queue).program.queue =
          queue ++ engine.asked mail (Attempt.moves engine.plugins.length
            ⟨pending, pending.text.or (read pending.path)⟩) := by
        obtain ⟨rest, hmoves, htake⟩ := Attempt.moves_eq_take engine.plugins.length
          ⟨pending, pending.text.or (read pending.path)⟩
        have hfollow := queue_follow mail (engine.move mail .take) htake
        have htail : (engine.move mail .take).program.queue = queue := by
          change engine.program.queue.tail = queue
          rw [hqueue]
          rfl
        rw [hloaded, hmoves]
        rw [htail] at hfollow
        exact hfollow
      rw [attempts_cons hqueue, Engine.drain_cons _ hqueue, List.flatMap_cons, asked_append,
        ← hloaded, List.map_cons, List.cons_append, List.cons_append]
      rw [hfirst, List.append_assoc] at hrest
      rw [hrest]

/-! ### Draining ends -/

def isUnloaded (program : Program) (path : String) : Bool := !program.isLoaded path

/-- A path is neither loaded nor has it failed. -/
def isUntried (program : Program) (path : String) : Bool :=
  !program.isLoaded path && !program.hasFailed path

/-- How many attempts at some paths there may still be: none at a path that is loaded, one at a path
    that has failed, because that is queued with a text only, and two at any other path. -/
def burden (paths : List String) (program : Program) : Nat :=
  paths.countP (isUnloaded program) + paths.countP (isUntried program)

omit [Parser] in
theorem burden_le (paths : List String) (program : Program) :
    burden paths program ≤ 2 * paths.length := by
  have hfirst : paths.countP (isUnloaded program) ≤ paths.length := List.countP_le_length
  have hsecond : paths.countP (isUntried program) ≤ paths.length := List.countP_le_length
  unfold burden
  omega

theorem InOrder.burden_lt {paths : List String} (h : engine.InOrder)
    (read : String → Option String) (mail : Mail) (hqueue : engine.program.queue = pending :: queue)
    (hpath : pending.path ∈ paths) :
    burden paths (engine.loadNext read mail pending queue).program <
      burden paths engine.program := by
  have hattempted := h.attempted read mail hqueue
  generalize engine.loadNext read mail pending queue = next at hattempted
  obtain ⟨-, hunloaded, -⟩ := h.tidy.toOrderly.pop hqueue
  have htried : isUntried next.program pending.path = false := by
    unfold isUntried Program.hasFailed
    rw [hattempted.loaded, hattempted.failed]
    cases (pending.text.or (read pending.path)).isSome <;> simp
  have hfirst : ∀ path, isUnloaded next.program path = true →
      isUnloaded engine.program path = true := by
    intro path
    unfold isUnloaded
    rw [hattempted.loaded]
    cases engine.program.isLoaded path <;> simp
  have hsecond : ∀ path, isUntried next.program path = true →
      isUntried engine.program path = true := by
    intro path huntried
    have hne : path ≠ pending.path := by
      rintro rfl
      rw [htried] at huntried
      cases huntried
    have hfailed : next.program.hasFailed path = engine.program.hasFailed path := by
      unfold Program.hasFailed
      rw [hattempted.failed]
      split <;> simp [hne]
    unfold isUntried at huntried ⊢
    rw [hattempted.loaded, hfailed, beq_eq_false_iff_ne.2 hne, Bool.and_false,
      Bool.false_or] at huntried
    exact huntried
  have hle : paths.countP (isUnloaded next.program) ≤ paths.countP (isUnloaded engine.program) :=
    List.countP_mono_left fun path _ => hfirst path
  have hle' : paths.countP (isUntried next.program) ≤ paths.countP (isUntried engine.program) :=
    List.countP_mono_left fun path _ => hsecond path
  unfold burden
  -- a file that has failed before has a text, so it is loaded now
  cases htext : pending.text.or (read pending.path) with
  | some text =>
    have hlt := countP_lt_countP hfirst hpath
      (by unfold isUnloaded; rw [hattempted.loaded, htext]; simp)
      (by unfold isUnloaded; rw [hunloaded]; rfl)
    omega
  | none =>
    have hunfailed : engine.program.hasFailed pending.path = false := by
      rw [← Bool.not_eq_true]
      intro hfailed
      have hsome := h.tidy.retried pending (by rw [hqueue]; exact List.mem_cons_self) hfailed
      rw [(Option.or_eq_none_iff.1 htext).1] at hsome
      cases hsome
    have hlt := countP_lt_countP hsecond hpath htried
      (by unfold isUntried; rw [hunloaded, hunfailed]; rfl)
    omega

/-- All paths that get into the queue while it is drained, however far that has come. -/
def Confined (read : String → Option String) (mail : Mail) (engine : Engine π)
    (paths : List String) : Prop :=
  ∀ steps, ∀ path ∈ (engine.drain read mail steps).2.2.program.queued, path ∈ paths

/-- If they are finitely many, the queue is empty after so many attempts as these paths allow. -/
theorem InOrder.drained {paths : List String} (h : engine.InOrder)
    (hpaths : engine.Confined read mail paths) {enough : Nat}
    (hle : burden paths engine.program ≤ enough) :
    (engine.drain read mail enough).2.2.program.queue = [] := by
  induction enough generalizing engine with
  | zero =>
    cases hqueue : engine.program.queue with
    | nil =>
      rw [drain_nil _ hqueue]
      exact hqueue
    | cons pending queue =>
      have hlt := h.burden_lt read mail hqueue
        (hpaths 0 pending.path (List.mem_map.2 ⟨pending, by rw [drain, hqueue]; simp, rfl⟩))
      omega
  | succ enough ih =>
    cases hqueue : engine.program.queue with
    | nil =>
      rw [drain_nil _ hqueue]
      exact hqueue
    | cons pending queue =>
      have hlt := h.burden_lt read mail hqueue
        (hpaths 0 pending.path (List.mem_map.2 ⟨pending, by rw [drain, hqueue]; simp, rfl⟩))
      rw [Engine.drain_cons _ hqueue]
      refine ih (h.next read mail hqueue).1 ?_ (by omega)
      intro steps path hpath
      rw [← Engine.drain_cons _ hqueue] at hpath
      exact hpaths (steps + 1) path hpath

/-- Once the queue is empty it does not matter how many attempts were allowed. -/
theorem InOrder.attempts_of_drained (h : engine.InOrder) {enough : Nat}
    (hdrained : (engine.drain read mail enough).2.2.program.queue = []) {steps : Nat}
    (hle : (engine.attempts read mail enough).length ≤ steps) :
    engine.attempts read mail steps = engine.attempts read mail enough ∧
      engine.drain read mail steps = engine.drain read mail enough := by
  induction enough generalizing engine steps with
  | zero =>
    have hqueue : engine.program.queue = [] := hdrained
    rw [attempts_nil hqueue, drain_of_empty hqueue]
    exact ⟨rfl, rfl⟩
  | succ enough ih =>
    cases hqueue : engine.program.queue with
    | nil =>
      rw [attempts_nil hqueue, attempts_nil hqueue, drain_of_empty hqueue, drain_of_empty hqueue]
      exact ⟨rfl, rfl⟩
    | cons pending queue =>
      rw [attempts_cons hqueue, List.length_cons] at hle
      rw [Engine.drain_cons _ hqueue] at hdrained
      cases steps with
      | zero => omega
      | succ steps =>
        obtain ⟨hattempts, hdrain⟩ :=
          ih (h.next read mail hqueue).1 hdrained (Nat.le_of_succ_le_succ hle)
        rw [attempts_cons hqueue, attempts_cons hqueue, h.drain_cons hqueue, h.drain_cons hqueue,
          hattempts, hdrain]
        exact ⟨rfl, rfl⟩

/-! ### Analyses -/

/-- What there is to say of an analysis that goes through some attempts: `report` is what it tells
    and `analyzed` the engine it leaves. -/
structure Analyzed (read : String → Option String) (mail : Mail) (engine : Engine π)
    (attempts : List Attempt) (report : AnalysisReport) (analyzed : Engine π) : Prop where
  /-- Each attempt has the text that came with the file, or else the one on disk. -/
  texts : ∀ attempt ∈ attempts, attempt.text = attempt.file.text.or (read attempt.file.path)
  /-- The attempts are at what was queued, in order, and then at what the hooks added to that. -/
  order : attempts.map Attempt.file = engine.program.queue ++
    engine.asked mail (attempts.flatMap (Attempt.moves engine.plugins.length))
  /-- Each attempt is reported once. -/
  loaded : report.loaded = outcomes true attempts
  failed : report.failed = outcomes false attempts
  /-- The engine is what comes of the moves, one after the other. -/
  follows : analyzed = engine.follow mail (course engine.plugins.length attempts)
  /-- For each loaded file all plugins are called before it is inferred and all after that, and
      once more in the end; for nothing else. -/
  called : (course engine.plugins.length attempts).filterMap Move.call? =
    (events report.loaded).flatMap fun event => (List.range engine.plugins.length).map (·, event)
  /-- A plugin that is called for a file finds it loaded, and last among the loaded files. -/
  announced : ∀ front back plugin event, course engine.plugins.length attempts =
    front ++ .call plugin event :: back → ∀ file, event = .before file ∨ event = .after file →
      (engine.follow mail front).program.isLoaded file = true ∧
      (engine.follow mail front).program.fileNames.getLast? = some file
  /-- Nothing waits when the plugins look at the whole program. -/
  drained : (engine.follow mail
    (attempts.flatMap (Attempt.moves engine.plugins.length))).program.queue = []
  /-- What is asked for then waits for the next analysis. -/
  left : analyzed.program.queue = (engine.follow mail
    (attempts.flatMap (Attempt.moves engine.plugins.length))).asked mail
      (calls engine.plugins.length .post)
  queued : report.queued = analyzed.program.queue.length

/-- An analysis that may go on until the queue is empty. -/
theorem InOrder.analyzed (h : engine.InOrder) {enough : Nat}
    (hdrained : (engine.drain read mail enough).2.2.program.queue = []) {steps : Nat}
    (hsteps : (engine.attempts read mail enough).length ≤ steps) :
    Analyzed read mail engine (engine.attempts read mail enough)
      (engine.analyzeWithin read mail steps).1 (engine.analyzeWithin read mail steps).2 := by
  obtain ⟨hattempts, hdrain⟩ := h.attempts_of_drained hdrained hsteps
  obtain ⟨hloaded, hfailed, htexts⟩ := @InOrder.drain_outcomes π _ _ read mail engine _ h enough
  obtain ⟨hfollow, hthroughout⟩ := @InOrder.drain_eq_follow π _ _ read mail engine _ h enough
  have hqueue := @InOrder.queue_attempts π _ _ read mail engine _ h enough
  rw [hdrained, List.append_nil] at hqueue
  have hcount : (engine.drain read mail enough).2.2.plugins.length = engine.plugins.length := by
    rw [hfollow, length_plugins_follow]
  have hlook : (engine.drain read mail enough).2.2.dispatch (Plugin.postInfer mail) =
      (engine.drain read mail enough).2.2.follow mail (calls engine.plugins.length .post) := by
    rw [← hcount]
    exact (follow_calls mail .post _).symm
  unfold analyzeWithin
  rw [hdrain]
  dsimp only
  refine ⟨htexts, hqueue.symm, hloaded, hfailed, ?_, ?_, ?_, ?_, ?_, rfl⟩
  · rw [hlook, hfollow]
    exact (follow_append mail engine _ _).symm
  · rw [hloaded]
    exact call?_course _ _
  · intro front back plugin event hsplit file hevent
    have hall : engine.Throughout mail Announced
        (course engine.plugins.length (engine.attempts read mail enough)) :=
      throughout_append.2 ⟨hthroughout, throughout_post _⟩
    rw [hsplit] at hall
    have hat := hall.here
    rcases hevent with rfl | rfl
    · exact hat
    · exact hat
  · rw [← hfollow]
    exact hdrained
  · have hpost : .take ∉ calls engine.plugins.length .post := by simp [calls]
    have hleft := queue_follow mail (engine.drain read mail enough).2.2 hpost
    rw [hdrained, List.nil_append] at hleft
    rw [hlook, hleft, hfollow]

/-- If the queue gets empty at some time, the paths that were in it until then are all. -/
theorem InOrder.confined {paths : List String} (h : engine.InOrder) {enough : Nat}
    (hdrained : (engine.drain read mail enough).2.2.program.queue = [])
    (hpaths : ∀ steps < enough, ∀ path ∈ (engine.drain read mail steps).2.2.program.queued,
      path ∈ paths) : engine.Confined read mail paths := by
  intro steps path hpath
  rcases Nat.lt_or_ge steps enough with hlt | hge
  · exact hpaths steps hlt path hpath
  · have hle : (engine.attempts read mail enough).length ≤ steps :=
      Nat.le_trans (length_attempts_le enough engine) hge
    rw [(h.attempts_of_drained hdrained hle).2] at hpath
    unfold Program.queued at hpath
    rw [hdrained] at hpath
    cases hpath

/-- At any moment of a session an analysis comes to an end if the paths that get into the queue in
    its course are finitely many. It goes through certain attempts then, at most two for each path,
    and does what these attempts come to. -/
theorem analysis_proceeds (plugins : List π) (actions : List Action) (paths : List String)
    (hpaths : ((new plugins).perform actions).Confined read mail paths) :
    let engine := (new plugins).perform actions
    ∃ attempts, attempts.length ≤ 2 * paths.length ∧ ∀ steps, attempts.length ≤ steps →
      Analyzed read mail engine attempts (engine.analyzeWithin read mail steps).1
        (engine.analyzeWithin read mail steps).2 := by
  intro engine
  have horder : engine.InOrder := (inOrder_new plugins).perform actions
  obtain ⟨enough, hle, hdrained⟩ : ∃ enough, enough ≤ 2 * paths.length ∧
      (engine.drain read mail enough).2.2.program.queue = [] :=
    ⟨_, burden_le paths engine.program, horder.drained hpaths (Nat.le_refl _)⟩
  exact ⟨engine.attempts read mail enough, Nat.le_trans (length_attempts_le enough engine) hle,
    fun steps hsteps => horder.analyzed hdrained hsteps⟩

end

/-- Two recorders and a resolver. The first recorder asks for files at every event; one of them
    cannot be read and is asked for again with a text. -/
def inquirers : List Installed :=
  [.recorder ⟨[⟨.before, some "/a.js", "/b.js", none, some "/a.js"⟩,
      ⟨.after, some "/a.js", "/c.js", some "var c = 1;", none⟩,
      ⟨.before, some "/c.js", "/b.js", some "var b = 1;", some "/c.js"⟩,
      ⟨.post, none, "/late.js", some "var late = 1;", some "/a.js"⟩], []⟩,
    .resolver ⟨.default, .initial, .fixed ⟨[]⟩, none⟩, .recorder ⟨[], []⟩]

def inquiredDisk (path : String) : Option String :=
  if path = "/a.js" then some "var a = 1;" else none

theorem analysis_proceeds_inquirers :
    let engine := (new inquirers).perform [.step (.addFile "/a.js" none none)]
    (engine.analyze inquiredDisk []).1 = ⟨["/a.js", "/c.js", "/b.js"], ["/b.js"], 1⟩ ∧
    ∃ attempts, attempts.length ≤ 6 ∧ ∀ steps, attempts.length ≤ steps →
      Analyzed inquiredDisk [] engine attempts (engine.analyzeWithin inquiredDisk [] steps).1
        (engine.analyzeWithin inquiredDisk [] steps).2 := by
  refine ⟨by decide +kernel, ?_⟩
  refine analysis_proceeds inquirers [.step (.addFile "/a.js" none none)]
    ["/a.js", "/b.js", "/c.js"] ?_
  have horder : ((new inquirers).perform [.step (.addFile "/a.js" none none)]).InOrder :=
    (inOrder_new inquirers).perform _
  exact @InOrder.confined Installed _ _ inquiredDisk [] _ _ _ horder 4 (by decide +kernel)
    (by decide +kernel)

end Engine

end Capabilities.Session
