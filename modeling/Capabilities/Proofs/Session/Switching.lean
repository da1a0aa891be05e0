import Capabilities.Proofs.Host.Letters
import Capabilities.Proofs.Session.Analysis
import Capabilities.Proofs.Session.Demand
import Capabilities.Proofs.Session.Hearing
import Capabilities.Script.Parse

/-!
# Switching a resolver off

As long as the letter of its request holds no list that disables it, a session with a resolver is
the one in which the resolver has not asked for the list; and from the moment on that the letter
holds such a list, the session goes on as one without the resolver, in which only inference writes
to the store. Which of the two it is can change once, because the letter is written once: the first
list that comes while the link is there decides, and later lists, the end of the link and whatever
else happens on it do not matter.

The time until the list comes, the time after that and the time without a link are *phases*: in each
of them the link stays as it is in some respect, whatever happens on it, and a view shows all that
there is to say of the engine (`Phase.seen`).
-/

namespace Capabilities.Session

open Host Script Resolver Capabilities.Types

/-! ### Sessions with a link -/

/-- An engine and the link that its plugins hear from. -/
structure Linked (π : Type) where
  engine : Engine π
  dialogue : Dialogue

/-- What can happen next: a turn of the engine, or an act on the link. -/
inductive Happening where
  | turn (turn : Engine.Turn)
  | link (act : Act)

def Happening.list? : Happening → Option (List PluginInfo)
  | .turn _ => none
  | .link act =>
    match act.reply? with
    | some (.plugins list) => some list
    | _ => none

theorem Happening.request_ne_of_list? {act : Act} (h : (Happening.link act).list? = none)
    (reply : Reply) (hreply : act.reply? = some reply) : reply.request ≠ .plugins := by
  cases reply with
  | paths table => exact Request.noConfusion
  | plugins list =>
    simp only [list?, hreply] at h
    cases h

theorem Happening.exists_link_of_list? {happening : Happening} {list : List PluginInfo}
    (h : happening.list? = some list) :
    ∃ act, happening = .link act ∧ act.reply? = some (.plugins list) := by
  cases happening with
  | turn turn => cases h
  | link act =>
    refine ⟨act, rfl, ?_⟩
    simp only [list?] at h
    split at h
    · rename_i hreply
      cases h
      exact hreply
    · cases h

namespace Linked

variable {π ρ : Type}

def mail (session : Linked π) : Mail := session.dialogue.exchange.mail

def viewed (view : π → Option ρ) (session : Linked π) : Linked ρ :=
  ⟨session.engine.viewed view, session.dialogue⟩

section

variable [Plugin π]

variable [Parser]

def step (session : Linked π) : Happening → Linked π
  | .turn turn => { session with engine := session.engine.act (turn.action session.mail) }
  | .link act => { session with dialogue := session.dialogue.step act }

def run (session : Linked π) (happenings : List Happening) : Linked π :=
  happenings.foldl step session

def attempts (session : Linked π) : List Happening → List Attempt
  | [] => []
  | .turn turn :: rest =>
    turn.attempts session.mail session.engine ++ (session.step (.turn turn)).attempts rest
  | .link act :: rest => (session.step (.link act)).attempts rest

variable {session : Linked π}

theorem run_append (session : Linked π) (first second : List Happening) :
    session.run (first ++ second) = (session.run first).run second := List.foldl_append ..

theorem attempts_append (session : Linked π) (first second : List Happening) :
    session.attempts (first ++ second) =
      session.attempts first ++ (session.run first).attempts second := by
  induction first generalizing session with
  | nil => rfl
  | cons happening rest ih =>
    cases happening with
    | turn turn =>
      simp only [List.cons_append, attempts, ih, List.append_assoc]
      rfl
    | link act =>
      simp only [List.cons_append, attempts, ih]
      rfl

/-- What every part of a session keeps holds whatever happens. -/
theorem engine_run {P : Engine π → Prop} (h : Engine.Endures P) (hP : P session.engine)
    (happenings : List Happening) : P (session.run happenings).engine := by
  induction happenings generalizing session with
  | nil => exact hP
  | cons happening rest ih =>
    refine ih ?_
    cases happening with
    | turn turn => exact h.act session.engine (turn.action session.mail) hP
    | link act => exact hP

/-- If there are only recorders, only inference writes to the store. -/
theorem store_run (session : Linked Recorder) (happenings : List Happening) :
    (session.run happenings).engine.program.store =
      (session.attempts happenings).foldl Attempt.infer session.engine.program.store := by
  induction happenings generalizing session with
  | nil => rfl
  | cons happening rest ih =>
    have hrest := ih (session.step happening)
    cases happening with
    | turn turn =>
      change ((session.step (.turn turn)).run rest).engine.program.store = _
      rw [hrest, attempts, List.foldl_append, ← Engine.store_turn]
      rfl
    | link act => exact hrest

end

/-! ### Phases -/

variable [Plugin π] [Plugin ρ]

variable [Parser]

/-- What is seen of a session while some things happen is what happens to what is seen of it. -/
structure Seen (view : π → Option ρ) (session : Linked π) (happenings : List Happening) :
    Prop where
  run : (session.run happenings).viewed view = (session.viewed view).run happenings
  attempts : session.attempts happenings = (session.viewed view).attempts happenings

/-- As long as a link is as it should be, fitting plugins can be viewed, and the acts that may
    happen on the link leave both so. -/
structure Phase (view : π → Option ρ) (right : Dialogue → Prop) (fit : Dialogue → π → Prop)
    (may : Act → Prop) : Prop where
  shows : ∀ dialogue, right dialogue → Engine.Shows view dialogue.exchange.mail (fit dialogue)
  step : ∀ dialogue act, may act → right dialogue → right (dialogue.step act)
  keeps : ∀ dialogue act, may act → right dialogue →
    ∀ plugin, fit dialogue plugin → fit (dialogue.step act) plugin

/-- The link is as it should be, and all plugins fit. -/
structure Suits (right : Dialogue → Prop) (fit : Dialogue → π → Prop) (session : Linked π) :
    Prop where
  link : right session.dialogue
  plugins : ∀ plugin ∈ session.engine.plugins, fit session.dialogue plugin

variable {view : π → Option ρ} {right : Dialogue → Prop} {fit : Dialogue → π → Prop}
  {may : Act → Prop} {session : Linked π} {first second happenings : List Happening}

theorem Seen.append (hfirst : Seen view session first)
    (hsecond : Seen view (session.run first) second) : Seen view session (first ++ second) := by
  constructor
  · rw [run_append, run_append, hsecond.run, hfirst.run]
  · rw [attempts_append, attempts_append, hsecond.attempts, hfirst.attempts, hfirst.run]

/-- The plugins do not notice what happens on the link before they are called. -/
theorem seen_link (view : π → Option ρ) (session : Linked π) (act : Act) :
    Seen view session [.link act] := ⟨rfl, rfl⟩

theorem Phase.link (h : Phase view right fit may) (hsuits : session.Suits right fit) {act : Act}
    (hact : may act) : (session.step (.link act)).Suits right fit := by
  refine ⟨h.step session.dialogue act hact hsuits.link, ?_⟩
  intro plugin hplugin
  exact h.keeps session.dialogue act hact hsuits.link plugin (hsuits.plugins plugin hplugin)

theorem Phase.turn (h : Phase view right fit may) (hsuits : session.Suits right fit)
    (turn : Engine.Turn) :
    Seen view session [.turn turn] ∧ (session.step (.turn turn)).Suits right fit := by
  have hshows := h.shows session.dialogue hsuits.link
  have hmirrors : Engine.Mirrors view (fit session.dialogue) session.engine
      (session.engine.viewed view) := ⟨rfl, hsuits.plugins⟩
  have hact := hshows.act hmirrors turn
  refine ⟨⟨?_, ?_⟩, hsuits.link, hact.fit⟩
  · exact congrArg (Linked.mk · session.dialogue) hact.shown.symm
  · exact congrArg (· ++ []) (hshows.attempts_turn hmirrors turn).symm

/-- During a phase the view shows all that happens. -/
theorem Phase.seen (h : Phase view right fit may) (hsuits : session.Suits right fit)
    (hmay : ∀ act, .link act ∈ happenings → may act) :
    Seen view session happenings ∧ (session.run happenings).Suits right fit := by
  induction happenings generalizing session with
  | nil => exact ⟨⟨rfl, rfl⟩, hsuits⟩
  | cons happening rest ih =>
    have hrest : ∀ act, .link act ∈ rest → may act :=
      fun act hact => hmay act (List.mem_cons_of_mem _ hact)
    have hfirst : Seen view session [happening] ∧ (session.step happening).Suits right fit := by
      cases happening with
      | turn turn => exact h.turn hsuits turn
      | link act =>
        exact ⟨seen_link view session act, h.link hsuits (hmay act List.mem_cons_self)⟩
    obtain ⟨hseen, hlater⟩ := ih hfirst.2 hrest
    exact ⟨hfirst.1.append hseen, hlater⟩

end Linked

/-! ### The phases of a resolver -/

variable {config : Config} {ticket : Ticket} {dialogue : Dialogue} {list : List PluginInfo}
  {happenings : List Happening}

/-- The request at the ticket is for the list of plugins. -/
structure Asked (ticket : Ticket) (dialogue : Dialogue) : Prop where
  consistent : dialogue.Consistent
  kind : dialogue.exchange.kind? ticket = some .plugins

theorem Asked.step (h : Asked ticket dialogue) (act : Act) : Asked ticket (dialogue.step act) :=
  ⟨h.consistent.step act, h.consistent.kind?_step h.kind act⟩

/-- Nobody has answered the request. -/
def Unanswered (ticket : Ticket) (dialogue : Dialogue) : Prop :=
  ∀ reply, dialogue.exchange.mail.letter ticket ≠ .answered reply

/-- The request was answered with a list. -/
def Answered (ticket : Ticket) (list : List PluginInfo) (dialogue : Dialogue) : Prop :=
  dialogue.exchange.mail.letter ticket = .answered (.plugins list)

theorem Unanswered.admits (h : Unanswered ticket dialogue) (config : Config) :
    config.admits (dialogue.exchange.mail.letter ticket) = true := by
  unfold Unanswered at h
  cases hletter : dialogue.exchange.mail.letter ticket with
  | answered reply => exact absurd hletter (h reply)
  | _ => rfl

theorem Answered.admits (h : Answered ticket list dialogue) (config : Config) :
    config.admits (dialogue.exchange.mail.letter ticket) = config.permits list := by
  rw [h]
  rfl

theorem Answered.step (h : Answered ticket list dialogue) (hasked : Asked ticket dialogue)
    (act : Act) : Answered ticket list (dialogue.step act) :=
  hasked.consistent.answered_step h act

theorem unanswered_of_waits (h : dialogue.Waits .plugins ticket) : Unanswered ticket dialogue := by
  intro reply hletter
  rw [h.awaits.2] at hletter
  cases hletter

/-- What is shown of a plugin that works: all but a request for the list of plugins. -/
def working (plugin : Installed) : Option Installed := some plugin.unasked

/-- All resolvers have sent the request and go by its letter. -/
def Attends (config : Config) (ticket : Ticket) (dialogue : Dialogue) : Installed → Prop :=
  Installed.Hears config ticket (dialogue.exchange.mail.letter ticket)

/-- A phase in which the letter admits the resolver. -/
structure Admitting (config : Config) (ticket : Ticket) (right : Dialogue → Prop)
    (may : Act → Prop) : Prop where
  held : ∀ act, may act → act ≠ .drop ticket
  admits : ∀ dialogue, right dialogue →
    config.admits (dialogue.exchange.mail.letter ticket) = true
  step : ∀ dialogue act, may act → Asked ticket dialogue → right dialogue →
    right (dialogue.step act)

/-- While the letter admits the resolver, it works as if it had not asked. -/
theorem Admitting.phase {right : Dialogue → Prop} {may : Act → Prop}
    (h : Admitting config ticket right may) :
    Linked.Phase working (fun dialogue => Asked ticket dialogue ∧ right dialogue)
      (Attends config ticket) may := by
  refine ⟨?_, ?_, ?_⟩
  · rintro dialogue ⟨-, hright⟩
    exact Engine.shows_unasked (h.admits dialogue hright)
  · rintro dialogue act hact ⟨hasked, hright⟩
    exact ⟨hasked.step act, h.step dialogue act hact hasked hright⟩
  · rintro dialogue act hact ⟨hasked, -⟩ plugin hhears
    exact hhears.next (hasked.consistent.becomes_step hasked.kind (h.held act hact))

/-- The request waits. -/
theorem admitting_waits (config : Config) (ticket : Ticket) :
    Admitting config ticket (Dialogue.Waits · .plugins ticket) fun act =>
      act ≠ .drop ticket ∧ act ≠ .hangUp ∧ (Happening.link act).list? = none := by
  refine ⟨fun act hact => hact.1, ?_, ?_⟩
  · intro dialogue hwaits
    exact (unanswered_of_waits hwaits).admits config
  · rintro dialogue act ⟨hdrop, hlink, hlist⟩ hasked hwaits
    exact hasked.consistent.waits_step hwaits hdrop hlink (Happening.request_ne_of_list? hlist)

/-- No list comes. -/
theorem admitting_unanswered (config : Config) (ticket : Ticket) :
    Admitting config ticket (Unanswered ticket) fun act =>
      act ≠ .drop ticket ∧ (Happening.link act).list? = none := by
  refine ⟨fun act hact => hact.1, ?_, ?_⟩
  · intro dialogue hunanswered
    exact hunanswered.admits config
  · rintro dialogue act ⟨-, hlist⟩ hasked hunanswered
    exact hasked.consistent.unanswered_step hasked.kind hunanswered fun _ =>
      Happening.request_ne_of_list? hlist

/-- No list can come, because there is no link. -/
theorem admitting_gone (config : Config) (ticket : Ticket) :
    Admitting config ticket
      (fun dialogue => Unanswered ticket dialogue ∧ ¬dialogue.linked = true)
      (· ≠ .drop ticket) := by
  refine ⟨fun act hact => hact, ?_, ?_⟩
  · rintro dialogue ⟨hunanswered, -⟩
    exact hunanswered.admits config
  · rintro dialogue act - hasked ⟨hunanswered, hgone⟩
    refine ⟨?_, fun hlinked => hgone (Dialogue.linked_of_step hlinked)⟩
    exact hasked.consistent.unanswered_step hasked.kind hunanswered fun hlinked =>
      absurd hlinked hgone

/-- The list that has come lets the resolver work. -/
theorem admitting_answered (ticket : Ticket) (hpermits : config.permits list = true) :
    Admitting config ticket (Answered ticket list) (· ≠ .drop ticket) := by
  refine ⟨fun act hact => hact, ?_, ?_⟩
  · intro dialogue hanswered
    exact (hanswered.admits config).trans hpermits
  · intro dialogue act _ hasked hanswered
    exact hanswered.step hasked act

/-- All resolvers have sent the request, and keep what they have. -/
def Idles (config : Config) (ticket : Ticket) (state : State) (table : PathTable)
    (dialogue : Dialogue) (plugin : Installed) : Prop :=
  ∀ resolver, plugin = .resolver resolver →
    Engine.Rests config ticket (dialogue.exchange.mail.letter ticket) state table resolver

/-- The list that has come disables the resolver: only the recorders go on. -/
theorem phase_refused (ticket : Ticket) (state : State) (table : PathTable)
    (hrefuses : config.permits list = false) :
    Linked.Phase Installed.recorder?
      (fun dialogue => Asked ticket dialogue ∧ Answered ticket list dialogue)
      (Idles config ticket state table) (· ≠ .drop ticket) := by
  refine ⟨?_, ?_, ?_⟩
  · rintro dialogue ⟨-, hanswered⟩
    exact Engine.shows_recorders ((hanswered.admits config).trans hrefuses) state table
  · rintro dialogue act - ⟨hasked, hanswered⟩
    exact ⟨hasked.step act, hanswered.step hasked act⟩
  · rintro dialogue act hact ⟨hasked, -⟩ plugin hrests resolver hresolver
    obtain ⟨hhears, hstate, htable⟩ := hrests resolver hresolver
    exact ⟨hhears.next (hasked.consistent.becomes_step hasked.kind hact), hstate, htable⟩

/-! ### Sessions with a resolver -/

/-- The resolver is connected to the link, on which anything may have happened before, and its
    request for the list of plugins was accepted. -/
def Begins (config : Config) (ticket : Ticket) (session : Linked Installed) : Prop :=
  ∃ fresh table acts, ∃ before after : List Recorder,
    let link := Dialogue.initial.run acts
    let connected := ((ResolverPlugin.withTable fresh table).connect link.exchange).1
    ResolverPlugin.new config = .ok fresh ∧ link.linked = true ∧
    connected.plugins = some (.awaiting ticket) ∧
    session = ⟨.new (before.map .recorder ++ .resolver connected :: after.map .recorder),
      link.run [.request .paths, .request .plugins]⟩

/-- Whatever happens, the resolver works at its next look as it would if it had not asked for the
    list of plugins. -/
structure LikeUnasked [Parser] (session : Linked Installed) (happenings : List Happening) :
    Prop where
  enabled : ∃ resolver, (session.run happenings).engine.resolver? = some resolver ∧
    (resolver.poll (session.run happenings).mail).isEnabled = true
  seen : Linked.Seen working session happenings

/-- Whatever happens, the resolver does nothing: it keeps its memory and its path table and leaves
    any program alone, so all goes on as it would with the recorders only. What is inferred for the
    files that are loaded is all that is written to the store, and files are loaded as before. -/
structure Inert [Parser] (session : Linked Installed) (happenings : List Happening) : Prop where
  rests : ∃ resolver later, session.engine.resolver? = some resolver ∧
    (session.run happenings).engine.resolver? = some later ∧
    later.config = resolver.config ∧ later.state = resolver.state ∧
    later.table = resolver.table ∧
    ∀ (event : Event) program, event.hook (session.run happenings).mail later program =
      (later.poll (session.run happenings).mail, program)
  seen : Linked.Seen Installed.recorder? session happenings
  store : (session.run happenings).engine.program.store =
    (session.attempts happenings).foldl Attempt.infer session.engine.program.store
  loads : ∀ read, ∃ attempts, Engine.Analyzed read (session.run happenings).mail
    (session.run happenings).engine attempts
    ((session.run happenings).engine.analyze read (session.run happenings).mail).1
    ((session.run happenings).engine.analyze read (session.run happenings).mail).2

variable {session : Linked Installed} {others : Nat}

theorem Engine.Hosts.mem_iff {engine : Engine Installed} {resolver other : ResolverPlugin}
    (h : engine.Hosts resolver others) : .resolver other ∈ engine.plugins ↔ other = resolver := by
  obtain ⟨before, after, -, hplugins⟩ := h
  rw [hplugins]
  simp

/-- Among the plugins there is one resolver. -/
def HasResolver [Parser] (config : Config) (session : Linked Installed) : Prop :=
  session.engine.InOrder ∧
    ∃ others resolver, Engine.Watches config (Chronicle config) Engine.Registered others
      session.engine resolver

theorem HasResolver.run [Parser] (h : HasResolver config session) (happenings : List Happening) :
    HasResolver config (session.run happenings) := by
  obtain ⟨horder, others, hwatches⟩ := h
  exact ⟨Linked.engine_run Engine.endures_inOrder horder happenings, others,
    Linked.engine_run (Engine.endures_watches (Engine.outlasts_registered config) others) hwatches
      happenings⟩

/-- The link is in a phase, and the resolver goes by the letter. -/
abbrev During (config : Config) (ticket : Ticket) (right : Dialogue → Prop) :
    Linked Installed → Prop :=
  Linked.Suits (fun dialogue => Asked ticket dialogue ∧ right dialogue) (Attends config ticket)

/-- During a phase in which the letter admits the resolver. -/
theorem HasResolver.admitted [Parser] {right : Dialogue → Prop} {may : Act → Prop}
    (hhas : HasResolver config session) (hadmitting : Admitting config ticket right may)
    (hduring : During config ticket right session)
    (hmay : ∀ act, .link act ∈ happenings → may act) :
    LikeUnasked session happenings ∧ During config ticket right (session.run happenings) := by
  obtain ⟨hseen, hafter⟩ := hadmitting.phase.seen hduring hmay
  obtain ⟨-, others, resolver, hwatches⟩ := hhas.run happenings
  have hhosts := hwatches.hosts
  have hhears := hafter.plugins (.resolver resolver) (hhosts.mem_iff.2 rfl) resolver rfl
  have henabled := hhears.isEnabled_poll.trans (hadmitting.admits _ hafter.link.2)
  exact ⟨⟨⟨resolver, hhosts.resolver?, henabled⟩, hseen⟩, hafter⟩

theorem ne_drop (hkeeps : .link (.drop ticket) ∉ happenings) (act : Act)
    (hact : .link act ∈ happenings) : act ≠ .drop ticket := by
  rintro rfl
  exact hkeeps hact

/-- From the moment on that the list has come that disables the resolver. -/
theorem HasResolver.inert [Parser] (hhas : HasResolver config session)
    (hduring : During config ticket (Answered ticket list) session)
    (hrefuses : config.permits list = false) (hkeeps : .link (.drop ticket) ∉ happenings) :
    Inert session happenings := by
  obtain ⟨horder, _, later, hlater⟩ := hhas.run happenings
  obtain ⟨-, _, resolver, hwatches⟩ := hhas
  have hthere := hwatches.hosts
  have hthere' := hlater.hosts
  have hheard := hduring.plugins (.resolver resolver) (hthere.mem_iff.2 rfl) resolver rfl
  have hidles : session.Suits
      (fun dialogue => Asked ticket dialogue ∧ Answered ticket list dialogue)
      (Idles config ticket resolver.state resolver.table) := by
    refine ⟨hduring.link, ?_⟩
    rintro plugin hplugin other rfl
    rw [hthere.mem_iff.1 hplugin]
    exact ⟨hheard, rfl, rfl⟩
  obtain ⟨hseen, hsuits⟩ :=
    (phase_refused ticket resolver.state resolver.table hrefuses).seen hidles (ne_drop hkeeps)
  have hrests := hsuits.plugins (.resolver later) (hthere'.mem_iff.2 rfl) later rfl
  have hdisabled : ¬(later.poll (session.run happenings).mail).isEnabled = true := by
    have hadmits := hrests.isEnabled_poll.trans (hsuits.link.2.admits config)
    rw [hrefuses] at hadmits
    exact Bool.eq_false_iff.1 hadmits
  refine ⟨⟨resolver, later, hthere.resolver?, hthere'.resolver?,
    hrests.config.trans hheard.config.symm, hrests.state, hrests.table,
    Engine.hook_disabled hdisabled⟩, hseen, ?_, ?_⟩
  · have hstore := Linked.store_run (session.viewed Installed.recorder?) happenings
    rw [← hseen.run, ← hseen.attempts] at hstore
    exact hstore
  · intro read
    exact ⟨_, horder.analyzed (horder.drained_pending read _)
      (Engine.length_attempts_le _ _)⟩

/-! ### Connecting -/

/-- What a resolver without a request has after it was connected is the second request. -/
theorem accepted_of_connect {resolver : ResolverPlugin} {exchange : Exchange}
    (hnone : resolver.plugins = none)
    (hasked : (resolver.connect exchange).1.plugins = some (.awaiting ticket)) :
    ((exchange.request .paths).2.request .plugins).1 = .ok ticket := by
  unfold ResolverPlugin.connect Exchange.requestPaths Exchange.requestPlugins at hasked
  dsimp only at hasked
  cases haccepted : ((exchange.request .paths).2.request .plugins).1 with
  | error error =>
    rw [haccepted] at hasked
    cases hpaths : (exchange.request .paths).1 with
    | error error =>
      rw [hpaths] at hasked
      cases hnone.symm.trans hasked
    | ok asked =>
      rw [hpaths] at hasked
      cases hnone.symm.trans hasked
  | ok other =>
    rw [haccepted] at hasked
    cases hasked
    rfl

/-- The request for the list of plugins that a resolver gets by being connected. -/
theorem waits_of_connect {resolver : ResolverPlugin} {link : Dialogue} (h : link.Consistent)
    (hlinked : link.linked = true) (hnone : resolver.plugins = none)
    (hasked : (resolver.connect link.exchange).1.plugins = some (.awaiting ticket)) :
    (link.run [.request .paths, .request .plugins]).Consistent ∧
      (link.run [.request .paths, .request .plugins]).Waits .plugins ticket := by
  have hpaths : (link.step (.request .paths)).exchange = (link.exchange.request .paths).2 := by
    rw [Dialogue.exchange_step_request hlinked, Exchange.ask_eq]
  have haccepted := accepted_of_connect hnone hasked
  rw [← hpaths] at haccepted
  have hlinked' : (link.step (.request .paths)).linked = true :=
    (Dialogue.linked_step Act.noConfusion).trans hlinked
  exact ⟨h.run _, (h.step _).waits_of_request hlinked' haccepted⟩

/-- What a session begins with: a resolver that has seen no file and whose request waits. -/
theorem Begins.exists_connected (h : Begins config ticket session) :
    ∃ connected, ∃ before after : List Recorder, connected.Fresh config ∧
      connected.plugins = some (.awaiting ticket) ∧
      session.engine = .new (before.map .recorder ++ .resolver connected :: after.map .recorder) ∧
      session.dialogue.Consistent ∧ session.dialogue.Waits .plugins ticket := by
  obtain ⟨fresh, table, acts, before, after, hnew, hlinked, hasked, rfl⟩ := h
  have hnone : (fresh.withTable table).plugins = none := by
    rw [ResolverPlugin.eq_of_new hnew]
    rfl
  obtain ⟨hconsistent, hwaits⟩ :=
    waits_of_connect (Dialogue.consistent_initial.run acts) hlinked hnone hasked
  exact ⟨_, before, after, ((ResolverPlugin.fresh_new hnew).withTable table).connect _, hasked, rfl,
    hconsistent, hwaits⟩

theorem Begins.hasResolver [Parser] (h : Begins config ticket session) :
    HasResolver config session := by
  obtain ⟨connected, before, after, hfresh, -, hengine, -⟩ := h.exists_connected
  have hstarts : session.engine.Starts config (before.length + after.length) := by
    rw [hengine]
    exact ⟨connected, ⟨before, after, rfl, rfl⟩, hfresh, rfl⟩
  exact ⟨hstarts.inOrder, _, hstarts.watches⟩

/-- In the beginning the request waits. -/
theorem Begins.during (h : Begins config ticket session) :
    During config ticket (Dialogue.Waits · .plugins ticket) session := by
  obtain ⟨connected, before, after, hfresh, hasked, hengine, hconsistent, hwaits⟩ :=
    h.exists_connected
  refine ⟨⟨⟨hconsistent, hwaits.awaits.1⟩, hwaits⟩, ?_⟩
  rintro plugin hplugin resolver rfl
  obtain rfl : resolver = connected := by
    simpa [hengine, Engine.new] using hplugin
  refine ⟨hfresh.settings, _, hasked, Or.inl ⟨rfl, ?_⟩⟩
  rw [hwaits.awaits.2]
  exact Letter.noConfusion

/-! ### Switching -/

section

variable [Parser]

theorem LikeUnasked.append {first second : List Happening}
    (hfirst : Linked.Seen working session first)
    (hsecond : LikeUnasked (session.run first) second) : LikeUnasked session (first ++ second) := by
  refine ⟨?_, hfirst.append hsecond.seen⟩
  rw [Linked.run_append]
  exact hsecond.enabled

/-- As long as no list comes. -/
theorem HasResolver.unheard (hhas : HasResolver config session)
    (hduring : During config ticket (Unanswered ticket) session)
    (hkeeps : .link (.drop ticket) ∉ happenings)
    (hlist : ∀ happening ∈ happenings, happening.list? = none) :
    LikeUnasked session happenings ∧
      During config ticket (Unanswered ticket) (session.run happenings) := by
  apply hhas.admitted (admitting_unanswered config ticket) hduring
  intro act hact
  exact ⟨ne_drop hkeeps act hact, hlist _ hact⟩

/-- The first list that comes while the link is there is the one that the resolver hears of. -/
theorem During.answered (h : During config ticket (Dialogue.Waits · .plugins ticket) session)
    {act : Act} (hreply : act.reply? = some (.plugins list)) :
    During config ticket (Answered ticket list) (session.step (.link act)) := by
  obtain ⟨⟨hasked, hwaits⟩, hattend⟩ := h
  have hheld : act ≠ .drop ticket := by
    rintro rfl
    cases hreply
  refine ⟨⟨hasked.step act, hasked.consistent.letter_of_reply hwaits hreply⟩, ?_⟩
  intro plugin hplugin
  exact (hattend plugin hplugin).next (hasked.consistent.becomes_step hasked.kind hheld)

theorem During.hungUp (h : During config ticket (Unanswered ticket) session) :
    During config ticket (fun dialogue => Unanswered ticket dialogue ∧ ¬dialogue.linked = true)
      (session.step (.link .hangUp)) := by
  have hafter : During config ticket (Unanswered ticket) (session.step (.link .hangUp)) :=
    (admitting_unanswered config ticket).phase.link h ⟨Act.noConfusion, rfl⟩
  obtain ⟨⟨hasked, hunanswered⟩, hattend⟩ := hafter
  exact ⟨⟨hasked, hunanswered, Dialogue.linked_hangUp session.dialogue⟩, hattend⟩

/-- A resolver that is connected, and whose request for the list of plugins was accepted and is not
    let go of, works as if it had not asked until a list comes. If the list disables it, it does
    nothing from then on, whatever comes later. Otherwise, and also if the link ends before a list
    has come, it works as if it had not asked, whatever comes later. -/
theorem decided_by_first_list (hbegins : Begins config ticket session)
    (hkeeps : .link (.drop ticket) ∉ happenings) :
    ((∀ happening ∈ happenings, happening.list? = none) → LikeUnasked session happenings) ∧
    (∀ before after, happenings = before ++ .link .hangUp :: after →
      (∀ happening ∈ before, happening.list? = none) → LikeUnasked session happenings) ∧
    ∀ before first after list, happenings = before ++ first :: after →
      first.list? = some list → (∀ happening ∈ before, happening.list? = none) →
      .link .hangUp ∉ before →
      LikeUnasked session before ∧
        if config.permits list then LikeUnasked session happenings
        else Inert (session.run (before ++ [first])) after := by
  have hhas := hbegins.hasResolver
  have hwaits := hbegins.during
  have hunheard : During config ticket (Unanswered ticket) session :=
    ⟨⟨hwaits.link.1, unanswered_of_waits hwaits.link.2⟩, hwaits.plugins⟩
  refine ⟨?_, ?_, ?_⟩
  · intro hlist
    exact (hhas.unheard hunheard hkeeps hlist).1
  · rintro before after rfl hlist
    rw [List.mem_append, List.mem_cons, not_or, not_or] at hkeeps
    obtain ⟨hbefore, -, hafter⟩ := hkeeps
    obtain ⟨hlike, hmid⟩ := hhas.unheard hunheard hbefore hlist
    have hlater := hhas.run (before ++ [.link .hangUp])
    rw [Linked.run_append] at hlater
    have hrest := (hlater.admitted (admitting_gone config ticket) hmid.hungUp (ne_drop hafter)).1
    exact .append hlike.seen (.append (Linked.seen_link working _ .hangUp) hrest)
  · rintro before first after list rfl hfirst hlist hlink
    rw [List.mem_append, List.mem_cons, not_or, not_or] at hkeeps
    obtain ⟨hbefore, -, hafter⟩ := hkeeps
    obtain ⟨act, rfl, hreply⟩ := Happening.exists_link_of_list? hfirst
    obtain ⟨hlike, hmid⟩ := hhas.admitted (admitting_waits config ticket) hwaits fun act hact =>
      ⟨ne_drop hbefore act hact, fun hact' => hlink (hact' ▸ hact), hlist _ hact⟩
    have hlater := hhas.run (before ++ [.link act])
    rw [Linked.run_append] at hlater ⊢
    refine ⟨hlike, ?_⟩
    split
    · rename_i hpermits
      have hrest := (hlater.admitted (admitting_answered ticket hpermits) (hmid.answered hreply)
        (ne_drop hafter)).1
      exact .append hlike.seen (.append (Linked.seen_link working _ act) hrest)
    · rename_i hrefuses
      exact hlater.inert (hmid.answered hreply) (Bool.eq_false_iff.2 hrefuses) hafter

end

def attentive : Linked Installed :=
  ⟨.new [.resolver ⟨.default, .initial, .requested (.awaiting ⟨0⟩), some (.awaiting ⟨1⟩)⟩],
    Dialogue.initial.run [.request .paths, .request .plugins]⟩

/-- The path table comes, and a consumer is bound to its provider, which is found on disk. -/
def beforeList : List Happening :=
  [.link (.deliver (.paths ⟨[(.of "fs", "plugins/b/index")]⟩)),
    .turn (.addFile "/m/plugins/a/index.js" (some Engine.consumerText) none),
    .turn (.analyze fun _ => none), .turn (.analyze fun _ => some Engine.providerText)]

def disabling : Happening := .link (.deliver (.plugins [⟨"architect_resolver", false, none⟩]))

/-- The consumer gets another text, and a list comes that would enable the resolver. -/
def afterList : List Happening :=
  [.turn (.updateFile "/m/plugins/a/index.js" "var a = 1;"),
    .link (.deliver (.plugins [⟨"architect_resolver", true, none⟩])),
    .turn (.addFile "/m/plugins/a/index.js" (some "var a = 1;") none),
    .turn (.analyze fun _ => none), .link .hangUp, .turn (.analyze fun _ => none)]

theorem begins_attentive : Begins .default ⟨1⟩ attentive :=
  ⟨⟨.default, .initial, .notRequested, none⟩, .notRequested, [], [], [], rfl, rfl, rfl, rfl⟩

/-- The new text is loaded, and the binding is still that of the former one. -/
theorem run_attentive :
    let session := attentive.run (beforeList ++ disabling :: afterList)
    (session.engine.program.file? "/m/plugins/a/index.js").map (·.text) = some "var a = 1;" ∧
      (session.engine.resolver?.bind fun resolver =>
        resolver.state.bound? "/m/plugins/a/index.js" "fs").isSome = true := by
  decide +kernel

theorem decided_by_first_list_attentive :
    Begins .default ⟨1⟩ attentive ∧
    .link (.drop ⟨1⟩) ∉ beforeList ++ disabling :: afterList ∧
    LikeUnasked attentive beforeList ∧
    Inert (attentive.run (beforeList ++ [disabling])) afterList ∧
    let session := attentive.run (beforeList ++ disabling :: afterList)
    (session.engine.program.file? "/m/plugins/a/index.js").map (·.text) = some "var a = 1;" ∧
      (session.engine.resolver?.bind fun resolver =>
        resolver.state.bound? "/m/plugins/a/index.js" "fs").isSome = true := by
  have hkeeps : .link (.drop ⟨1⟩) ∉ beforeList ++ disabling :: afterList := by
    simp [beforeList, disabling, afterList]
  have hlink : .link .hangUp ∉ beforeList := by
    simp [beforeList]
  obtain ⟨-, -, hdecided⟩ := decided_by_first_list begins_attentive hkeeps
  obtain ⟨hlike, hinert⟩ := hdecided beforeList disabling afterList _ rfl rfl (by decide) hlink
  exact ⟨begins_attentive, hkeeps, hlike, hinert, run_attentive⟩

end Capabilities.Session
