import Capabilities.Proofs.Host.Overlap

/-!
# What a link promises while calls overlap

Whatever the order of the turns, a link keeps its promises about the requests that a reply can still
reach. Among these are all accepted requests that nobody let go of and no reply was handed to, as
long as each call that could not send finds its own listener when it takes the listener of its kind
down. Calls find it if replies come only for requests that went out, and calls that nobody comes in
between find it whatever comes.
-/

namespace Capabilities.Host

namespace Traffic

variable {traffic next : Traffic} {turn : Turn} {turns later : List Turn} {ticket other : Ticket}
  {kind : Request} {reply found : Reply} {party : Party}

/-! ### What a turn changes -/

/-- What a turn makes of the letter at a ticket. -/
inductive Posts (traffic : Traffic) (turn : Turn) (ticket : Ticket) : Letter → Letter → Prop where
  | same (letter : Letter) : Posts traffic turn ticket letter letter
  | listed (kind : Request) (hturn : turn = .enlist kind) (hnew : traffic.party? ticket = none) :
      Posts traffic turn ticket .abandoned .awaited
  | answered (reply : Reply) (hturn : turn = .hand ticket)
      (hmem : (ticket, reply) ∈ traffic.hands) :
      Posts traffic turn ticket .awaited (.answered reply)
  | discarded (hturn : turn = .act (.drop ticket) ∨ turn = .withdraw ticket) :
      Posts traffic turn ticket .awaited .discarded
  | hungUp (hturn : turn = .act .hangUp) (hallowed : traffic.allows .hangUp = true) :
      Posts traffic turn ticket .awaited .abandoned
  | lost (other : Ticket) (party : Party) (hturn : turn = .withdraw other)
      (hparty : traffic.party? other = some party)
      (hprogress : traffic.progress? other = some .failing)
      (hlistener : traffic.exchange.listener? party.kind = some ticket) :
      Posts traffic turn ticket .awaited .abandoned

theorem Sound.posts_act (h : traffic.Sound) {act : Act} (hallowed : traffic.allows act = true)
    (ticket : Ticket) : Posts traffic (.act act) ticket (traffic.exchange.mail.letter ticket)
      ((traffic.toDialogue.step act).exchange.mail.letter ticket) := by
  cases act with
  | request kind => cases hallowed
  | deliver reply => cases hallowed
  | deliverJson text => cases hallowed
  | poll other => exact .same _
  | wait other => exact .same _
  | resume other => exact .same _
  | drop other =>
    cases hparty : traffic.party? other with
    | none =>
      simp only [Dialogue.step, hparty]
      exact .same _
    | some party =>
      simp only [Dialogue.step, hparty, ((h.fine other).fits party hparty).release.1]
      change Posts traffic _ ticket _ ((traffic.exchange.discard other).mail.letter ticket)
      rw [Exchange.letter_discard]
      split
      · rename_i hboth
        rw [hboth.1, hboth.2]
        exact .discarded (Or.inl rfl)
      · exact .same _
  | setChannel ready => exact .same _
  | hangUp =>
    simp only [Dialogue.step]
    split
    · simp only [Exchange.letter_hangUp]
      split
      · rename_i hawaited
        rw [hawaited]
        exact .hungUp rfl hallowed
      · exact .same _
    · exact .same _

/-- A call that could not send takes down whatever listener of its kind is up, and lets go of its
    own reply if that listener was not its own. -/
theorem Sound.posts_withdraw (h : traffic.Sound) (hparty : traffic.party? other = some party)
    (hprogress : traffic.progress? other = some .failing) (ticket : Ticket) :
    Posts traffic (.withdraw other) ticket (traffic.exchange.mail.letter ticket)
      ((traffic.withdraw other party.kind).exchange.mail.letter ticket) := by
  rw [h.withdraw_eq hparty, letter_released]
  split
  · rename_i hboth
    obtain ⟨rfl, hawaited⟩ := hboth
    have hbefore : traffic.exchange.mail.letter ticket = .awaited := by
      change (traffic.exchange.withdraw party.kind).mail.letter ticket = _ at hawaited
      rw [Exchange.letter_withdraw] at hawaited
      split at hawaited
      · cases hawaited
      · exact hawaited
    rw [hbefore]
    exact .discarded (Or.inr rfl)
  · change Posts traffic _ ticket _ ((traffic.exchange.withdraw party.kind).mail.letter ticket)
    rw [Exchange.letter_withdraw]
    split
    · rename_i hboth
      rw [hboth.2]
      exact .lost other party rfl hparty hprogress hboth.1
    · exact .same _

theorem Sound.posts (h : traffic.Sound) (turn : Turn) (ticket : Ticket) :
    Posts traffic turn ticket (traffic.exchange.mail.letter ticket)
      ((traffic.step turn).exchange.mail.letter ticket) := by
  have heffect := traffic.effect_step turn
  generalize traffic.step turn = next at heffect ⊢
  cases heffect with
  | idle => exact .same _
  | listed kind hlinked hfree =>
    rw [h.letter_listed]
    split
    · rename_i heq
      rw [heq, h.letter_new]
      exact .listed kind rfl party?_new
    · exact .same _
  | sent => exact .same _
  | failed => exact .same _
  | withdrawn other party hparty hprogress => exact h.posts_withdraw hparty hprogress ticket
  | taken => exact .same _
  | handed other reply hmem =>
    change Posts traffic _ ticket _ ((traffic.exchange.hand other reply).2.mail.letter ticket)
    rw [Exchange.letter_hand]
    split
    · rename_i hboth
      rw [hboth.1, hboth.2]
      exact .answered reply rfl hmem
    · exact .same _
  | acted act hallowed => exact h.posts_act hallowed ticket

theorem Sound.party?_withdraw (h : traffic.Sound) (hparty : traffic.party? ticket = some party) :
    (traffic.withdraw ticket kind).party? other =
      if other = ticket then some ⟨party.kind, party.holder.drop⟩ else traffic.party? other := by
  rw [h.withdraw_eq hparty, party?_released]
  split
  · rename_i heq
    rw [heq]
    exact congrArg _ hparty
  · rfl

theorem progress?_withdraw (hprogress : traffic.progress? ticket = some .failing) :
    (traffic.withdraw ticket kind).progress? other =
      if other = ticket then some .withdrawn else traffic.progress? other :=
  progress?_set hprogress other

/-- What a turn makes of who has the reply at a ticket. -/
structure Becomes (traffic next : Traffic) (turn : Turn) (ticket : Ticket) (before after : Party) :
    Prop where
  kind : after.kind = before.kind
  held : after.holder.IsHeld → before.holder.IsHeld
  kept : after.holder = .dropped → before.holder = .dropped ∨ turn = .act (.drop ticket) ∨
    next.progress? ticket = some .withdrawn

theorem Sound.exists_becomes (h : traffic.Sound) (turn : Turn)
    (hparty : traffic.party? ticket = some party) :
    ∃ after, (traffic.step turn).party? ticket = some after ∧
      Becomes traffic (traffic.step turn) turn ticket party after := by
  have heffect := traffic.effect_step turn
  generalize traffic.step turn = next at heffect ⊢
  have hidle : next.party? ticket = some party → ∃ after, next.party? ticket = some after ∧
      Becomes traffic next turn ticket party after :=
    fun hsame => ⟨party, hsame, rfl, id, Or.inl⟩
  cases heffect with
  | listed kind hlinked hfree =>
    refine hidle (h.party?_listed.trans ((if_neg ?_).trans hparty))
    rintro rfl
    cases party?_new.symm.trans hparty
  | withdrawn other gone hgone hprogress =>
    have hafter : (traffic.withdraw other gone.kind).party? ticket = _ := h.party?_withdraw hgone
    by_cases heq : ticket = other
    · obtain rfl := Option.some.inj (hparty.symm.trans (heq ▸ hgone))
      rw [if_pos heq] at hafter
      exact ⟨_, hafter, rfl, Holder.isHeld_of_drop, fun _ => Or.inr (Or.inr
        ((progress?_withdraw hprogress).trans (if_pos heq)))⟩
    · exact hidle (hafter.trans ((if_neg heq).trans hparty))
  | acted act hallowed =>
    obtain ⟨after, hafter, hbecome⟩ := Dialogue.exists_become_step hparty act
    refine ⟨after, hafter, hbecome.kind, hbecome.held, fun hdropped => ?_⟩
    by_cases hact : act = .drop ticket
    · exact Or.inr (Or.inl (congrArg Turn.act hact))
    · exact Or.inl (not_not.1 fun hkept => hbecome.kept hact hkept hdropped)
  | _ => exact hidle hparty

theorem Sound.awaited_of_new (h : traffic.Sound) (hnone : traffic.party? ticket = none)
    (hparty : (traffic.step turn).party? ticket = some party) :
    (traffic.step turn).exchange.mail.letter ticket = .awaited := by
  have heffect := traffic.effect_step turn
  generalize traffic.step turn = next at heffect hparty ⊢
  cases heffect with
  | listed kind hlinked hfree =>
    rw [h.party?_listed] at hparty
    split at hparty
    · exact h.letter_listed.trans (if_pos ‹_›)
    · cases hnone.symm.trans hparty
  | withdrawn other gone hgone hprogress =>
    rw [h.party?_withdraw hgone] at hparty
    split at hparty
    · rename_i heq
      rw [← heq, hnone] at hgone
      cases hgone
    · cases hnone.symm.trans hparty
  | acted act hallowed =>
    have hact := Dialogue.eq_request_of_party?_step hnone hparty
    rw [hact] at hallowed
    cases hallowed
  | _ => cases hnone.symm.trans hparty

/-- What a turn makes of the replies that are on their way. -/
theorem hands_step (traffic : Traffic) (turn : Turn) (ticket : Ticket) (reply : Reply) :
    ((ticket, reply) ∈ (traffic.step turn).hands → (ticket, reply) ∈ traffic.hands ∨
      turn.reply? = some reply ∧ traffic.linked = true ∧
        traffic.exchange.listener? reply.request = some ticket) ∧
    ((ticket, reply) ∈ traffic.hands → (ticket, reply) ∈ (traffic.step turn).hands ∨
      turn = .hand ticket) := by
  have heffect := traffic.effect_step turn
  generalize traffic.step turn = next at heffect
  cases heffect with
  | taken turn found other hreply hlinked hlistener =>
    refine ⟨fun hmem => ?_, fun hmem => Or.inl (List.mem_append_left _ hmem)⟩
    rcases List.mem_append.1 hmem with hold | hnew
    · exact Or.inl hold
    · cases List.mem_singleton.1 hnew
      exact Or.inr ⟨hreply, hlinked, hlistener⟩
  | handed other found hfound =>
    refine ⟨fun hmem => Or.inl (mem_hands_hand.1 hmem).1, fun hmem => ?_⟩
    by_cases heq : ticket = other
    · exact Or.inr (by rw [heq])
    · exact Or.inl (mem_hands_hand.2 ⟨hmem, heq⟩)
  | _ => exact ⟨Or.inl, Or.inl⟩

/-- An act that can come now leaves the listeners, unless it takes the link down. -/
theorem Sound.listeners_act (h : traffic.Sound) {act : Act} (hallowed : traffic.allows act = true) :
    (traffic.toDialogue.step act).exchange.listeners = traffic.exchange.listeners ∨
      act = .hangUp ∧ (traffic.toDialogue.step act).exchange.listeners = [] := by
  cases act with
  | request kind => cases hallowed
  | deliver reply => cases hallowed
  | deliverJson text => cases hallowed
  | drop other =>
    left
    cases hparty : traffic.party? other with
    | none => simp only [Dialogue.step, hparty]
    | some party =>
      simp only [Dialogue.step, hparty, ((h.fine other).fits party hparty).release.1]
      exact Exchange.listeners_discard
  | hangUp =>
    simp only [Dialogue.step]
    split
    · exact Or.inr ⟨trivial, rfl⟩
    · exact Or.inl rfl
  | _ => exact Or.inl rfl

/-- Only a call that puts a listener of the kind up makes one more of the kind. -/
theorem Sound.listeners_step (h : traffic.Sound) (turn : Turn)
    (hlisted : (kind, ticket) ∈ (traffic.step turn).exchange.listeners) :
    (kind, ticket) ∈ traffic.exchange.listeners ∨ turn = .enlist kind := by
  have heffect := traffic.effect_step turn
  generalize traffic.step turn = next at heffect hlisted
  cases heffect with
  | listed found hlinked hfree =>
    rcases List.mem_append.1 hlisted with hold | hnew
    · exact Or.inl (List.mem_filter.1 hold).1
    · cases List.mem_singleton.1 hnew
      exact Or.inr rfl
  | withdrawn other gone hgone hprogress =>
    exact Or.inl ((h.mem_listeners_withdraw hgone).1 hlisted).1
  | taken => exact Or.inl (List.mem_filter.1 hlisted).1
  | handed other reply hmem =>
    rw [Traffic.hand, Exchange.listeners_hand] at hlisted
    exact Or.inl hlisted
  | acted act hallowed =>
    have hafter : (kind, ticket) ∈ (traffic.toDialogue.step act).exchange.listeners := hlisted
    rcases h.listeners_act hallowed with hsame | ⟨-, hnone⟩
    · exact Or.inl (hsame ▸ hafter)
    · rw [hnone] at hafter
      cases hafter
  | _ => exact Or.inl hlisted

/-! ### What stays -/

theorem Sound.observes_iff (h : traffic.Sound) : traffic.Observes ticket reply ↔
    (∃ party, traffic.party? ticket = some party ∧ party.holder ≠ .dropped) ∧
      traffic.exchange.mail.letter ticket = .answered reply :=
  Dialogue.observes_iff_of_fits (h.fine ticket).fits ((h.fine ticket).answered reply)

theorem Sound.answered_step (h : traffic.Sound) (turn : Turn)
    (hletter : traffic.exchange.mail.letter ticket = .answered reply) :
    (traffic.step turn).exchange.mail.letter ticket = .answered reply := by
  have hposts := h.posts turn ticket
  rw [hletter] at hposts
  generalize (traffic.step turn).exchange.mail.letter ticket = after at hposts
  cases hposts with
  | same => rfl

theorem Sound.discarded_step (h : traffic.Sound) (turn : Turn)
    (hletter : traffic.exchange.mail.letter ticket = .discarded) :
    (traffic.step turn).exchange.mail.letter ticket = .discarded := by
  have hposts := h.posts turn ticket
  rw [hletter] at hposts
  generalize (traffic.step turn).exchange.mail.letter ticket = after at hposts
  cases hposts with
  | same => rfl

/-- A call that has returned a failure is over. -/
theorem withdrawn_step (turn : Turn) (h : traffic.progress? ticket = some .withdrawn) :
    (traffic.step turn).progress? ticket = some .withdrawn := by
  have hset : ∀ {other : Ticket} {was progress : Progress}, traffic.progress? other = some was →
      was ≠ .withdrawn → (traffic.calls.set other.index progress)[ticket.index]? =
        some .withdrawn := by
    intro other was progress hwas hunder
    rw [progress?_set hwas, if_neg, h]
    rintro rfl
    exact hunder (Option.some.inj (hwas.symm.trans h))
  have heffect := traffic.effect_step turn
  generalize traffic.step turn = next at heffect ⊢
  cases heffect with
  | listed kind hlinked hfree =>
    exact (List.getElem?_append_left (List.getElem?_eq_some_iff.1 h).1).trans h
  | sent other party hparty hprogress => exact hset hprogress Progress.noConfusion
  | failed other hprogress => exact hset hprogress Progress.noConfusion
  | withdrawn other party hparty hprogress => exact hset hprogress Progress.noConfusion
  | _ => exact h

theorem Sound.step_hand (h : traffic.Sound) (hmem : (ticket, reply) ∈ traffic.hands) :
    traffic.step (.hand ticket) = traffic.hand ticket reply := by
  simp only [Traffic.step, (lookup_eq_some_iff_mem h.hands).2 hmem]

/-- Only a new listener makes a request outstanding. -/
theorem Sound.outstanding_of_step (h : traffic.Sound)
    (hout : (traffic.step turn).Outstanding kind ticket) (hturn : turn ≠ .enlist kind) :
    traffic.Outstanding kind ticket := by
  obtain ⟨hlisted, hawaited⟩ := (h.step turn).outstanding_iff.1 hout
  have hbefore := (h.listeners_step turn hlisted).resolve_right hturn
  refine h.outstanding_iff.2 ⟨hbefore, ?_⟩
  have hposts := h.posts turn ticket
  rw [hawaited] at hposts
  generalize traffic.exchange.mail.letter ticket = before at hposts
  cases hposts with
  | same => rfl
  | listed found hfound hnew =>
    -- a listener is up at the ticket, so it was given before
    have hkind := ((h.fine ticket).waits _ (Or.inl hbefore)).1
    rw [kind?, hnew] at hkind
    cases hkind

/-- What a holder sees it goes on seeing until it lets go, or its call returns a failure. -/
theorem Sound.observes_step (h : traffic.Sound) (hobserves : traffic.Observes ticket reply)
    (hdrop : turn ≠ .act (.drop ticket))
    (hover : (traffic.step turn).progress? ticket ≠ some .withdrawn) :
    (traffic.step turn).Observes ticket reply := by
  obtain ⟨⟨party, hparty, hkept⟩, hletter⟩ := h.observes_iff.1 hobserves
  obtain ⟨after, hafter, hbecomes⟩ := h.exists_becomes turn hparty
  refine (h.step turn).observes_iff.2
    ⟨⟨after, hafter, fun hdropped => ?_⟩, h.answered_step turn hletter⟩
  rcases hbecomes.kept hdropped with hbefore | hturn | hwithdrawn
  · exact hkept hbefore
  · exact hdrop hturn
  · exact hover hwithdrawn

/-! ### Runs -/

theorem run_append (traffic : Traffic) (first second : List Turn) :
    traffic.run (first ++ second) = (traffic.run first).run second :=
  List.foldl_append

theorem withdrawn_run (h : traffic.progress? ticket = some .withdrawn) (turns : List Turn) :
    (traffic.run turns).progress? ticket = some .withdrawn := by
  induction turns generalizing traffic with
  | nil => exact h
  | cons turn rest ih => exact ih (withdrawn_step turn h)

theorem Sound.observes_run (h : traffic.Sound) (hobserves : traffic.Observes ticket reply)
    (hdrop : .act (.drop ticket) ∉ turns)
    (hover : (traffic.run turns).progress? ticket ≠ some .withdrawn) :
    (traffic.run turns).Observes ticket reply := by
  induction turns generalizing traffic with
  | nil => exact hobserves
  | cons turn rest ih =>
    rw [List.mem_cons, not_or] at hdrop
    refine ih (h.step turn) (h.observes_step hobserves (Ne.symm hdrop.1) fun hwithdrawn => ?_)
      hdrop.2 hover
    exact hover (withdrawn_run hwithdrawn rest)

theorem Sound.outstanding_of_run (h : traffic.Sound)
    (hout : (traffic.run turns).Outstanding kind ticket) (hturns : .enlist kind ∉ turns) :
    traffic.Outstanding kind ticket := by
  induction turns generalizing traffic with
  | nil => exact hout
  | cons turn rest ih =>
    rw [List.mem_cons, not_or] at hturns
    exact h.outstanding_of_step (ih (h.step turn) hout hturns.2) (Ne.symm hturns.1)

theorem Sound.discarded_run (h : traffic.Sound) (turns : List Turn)
    (hletter : traffic.exchange.mail.letter ticket = .discarded) :
    (traffic.run turns).exchange.mail.letter ticket = .discarded := by
  induction turns generalizing traffic with
  | nil => exact hletter
  | cons turn rest ih => exact ih (h.step turn) (h.discarded_step turn hletter)

theorem mem_hands_run (hmem : (ticket, reply) ∈ traffic.hands) (hturns : .hand ticket ∉ turns) :
    (ticket, reply) ∈ (traffic.run turns).hands := by
  induction turns generalizing traffic with
  | nil => exact hmem
  | cons turn rest ih =>
    rw [List.mem_cons, not_or] at hturns
    refine ih ?_ hturns.2
    exact ((hands_step traffic turn ticket reply).2 hmem).resolve_right (Ne.symm hturns.1)

/-! ### Requests -/

/-- What a link promises about the next listener for a kind of reply. -/
structure AnswersRequests (traffic : Traffic) (kind : Request) : Prop where
  refused : (traffic.exchange.enlist kind).1 = .error (.inFlight kind) ↔
    ∃ ticket, traffic.Outstanding kind ticket
  silent : (∃ ticket, traffic.Outstanding kind ticket) → traffic.step (.enlist kind) = traffic
  listed : (¬∃ ticket, traffic.Outstanding kind ticket) →
    (traffic.exchange.enlist kind).1 = .ok ⟨traffic.parties.length⟩ ∧
    (traffic.step (.enlist kind)).exchange.sent = traffic.exchange.sent ∧
    (traffic.step (.enlist kind)).progress? ⟨traffic.parties.length⟩ = some .sending ∧
    (traffic.step (.enlist kind)).Outstanding kind ⟨traffic.parties.length⟩

theorem Sound.answersRequests (h : traffic.Sound) (hlinked : traffic.linked = true)
    (kind : Request) : traffic.AnswersRequests kind := by
  have hbusy : traffic.exchange.Busy kind ↔ ∃ ticket, traffic.Outstanding kind ticket := h.busy_iff
  constructor
  · rw [← hbusy]
    constructor
    · intro hrefused
      by_contra hfree
      rw [Exchange.enlist_of_free hfree] at hrefused
      cases hrefused
    · exact fun hbusy => by rw [Exchange.enlist_of_busy hbusy]
  · intro hout
    simp only [Traffic.step, enlist_of_busy (hbusy.2 hout), ite_self]
  · intro hfree
    rw [← hbusy] at hfree
    have hstep : traffic.step (.enlist kind) = traffic.listed kind := by
      simp only [Traffic.step, if_pos hlinked, enlist_of_free hfree]
    rw [hstep]
    refine ⟨by rw [Exchange.enlist_of_free hfree, h.mail], rfl,
      h.progress?_listed.trans (if_pos rfl), (h.listed hfree).outstanding_iff.2
        ⟨?_, h.letter_listed.trans (if_pos rfl)⟩⟩
    rw [← h.mail]
    exact List.mem_append_right _ List.mem_cons_self

structure Sends (traffic : Traffic) (ticket : Ticket) (kind : Request) : Prop where
  sent : traffic.exchange.channelReady = true →
    (traffic.step (.emit ticket)).exchange.sent = traffic.exchange.sent ++ [kind] ∧
    (traffic.step (.emit ticket)).progress? ticket = some .accepted
  failed : traffic.exchange.channelReady = false →
    (traffic.step (.emit ticket)).exchange.sent = traffic.exchange.sent ∧
    (traffic.step (.emit ticket)).progress? ticket = some .failing

theorem sends (hparty : traffic.party? ticket = some party)
    (hprogress : traffic.progress? ticket = some .sending) : traffic.Sends ticket party.kind := by
  have hstep : traffic.step (.emit ticket) = traffic.emit ticket party.kind := by
    simp only [step, hparty, hprogress]
  constructor
  · intro hready
    rw [hstep, emit_of_ready hready]
    exact ⟨rfl, (progress?_set hprogress ticket).trans (if_pos rfl)⟩
  · intro hready
    rw [hstep, emit_of_not_ready (by rw [hready]; exact Bool.false_ne_true)]
    exact ⟨rfl, (progress?_set hprogress ticket).trans (if_pos rfl)⟩

structure Clears (traffic : Traffic) (ticket : Ticket) (kind : Request) : Prop where
  silent : (traffic.step (.withdraw ticket)).exchange.sent = traffic.exchange.sent
  unlisted : (traffic.step (.withdraw ticket)).exchange.inFlight kind = false
  next : ∀ later, .enlist kind ∉ later →
    (traffic.run (.withdraw ticket :: later)).linked = true →
    ((traffic.run (.withdraw ticket :: later)).exchange.enlist kind).1 =
      .ok ⟨(traffic.run (.withdraw ticket :: later)).parties.length⟩

theorem Sound.clears (h : traffic.Sound) (hparty : traffic.party? ticket = some party)
    (hprogress : traffic.progress? ticket = some .failing) :
    traffic.Clears ticket party.kind := by
  have hstep : traffic.step (.withdraw ticket) = traffic.withdraw ticket party.kind := by
    simp only [Traffic.step, hparty, hprogress]
  have hsound := h.step (.withdraw ticket)
  have hnobody : ∀ other,
      (party.kind, other) ∉ (traffic.step (.withdraw ticket)).exchange.listeners := by
    intro other hmem
    rw [hstep, h.mem_listeners_withdraw hparty] at hmem
    exact hmem.2 rfl
  constructor
  · rw [hstep, h.withdraw_eq hparty]
    exact Exchange.sent_discard.trans Exchange.sent_withdraw
  · rw [Exchange.inFlight, Option.isSome_eq_false_iff, Option.isNone_iff_eq_none]
    cases hlistener : (traffic.step (.withdraw ticket)).exchange.listener? party.kind with
    | none => rfl
    | some other => exact absurd (Exchange.mem_of_listener? hlistener) (hnobody other)
  · intro later hlater hlinkedLater
    refine (((hsound.run later).answersRequests hlinkedLater party.kind).listed ?_).1
    rintro ⟨other, hout⟩
    exact hnobody other (hsound.outstanding_iff.1 (hsound.outstanding_of_run hout hlater)).1

/-! ### Replies -/

/-- What a link promises about a reply that comes: it is on its way to the request that is
    outstanding, and it is wanted if this request was outstanding then and is not let go of since.
    -/
structure Delivers (traffic : Traffic) (reply : Reply) : Prop where
  reached : ∀ ticket, traffic.Outstanding reply.request ticket →
    traffic.exchange.listener? reply.request = some ticket
  taken : ∀ ticket, traffic.exchange.listener? reply.request = some ticket →
    (ticket, reply) ∈ (traffic.step (.take reply)).hands
  wanted : ∀ ticket later, traffic.exchange.listener? reply.request = some ticket →
    .hand ticket ∉ later →
      (((traffic.run (.take reply :: later)).exchange.hand ticket reply).1 = true ↔
        traffic.Outstanding reply.request ticket ∧
          ∃ party, (traffic.run (.take reply :: later)).party? ticket = some party ∧
            party.holder.IsHeld)

theorem Sound.hand_iff (h : traffic.Sound) (hmem : (ticket, reply) ∈ traffic.hands) :
    ((traffic.exchange.hand ticket reply).1 = true ↔
      traffic.exchange.mail.letter ticket = .awaited) ∧
    (traffic.exchange.mail.letter ticket = .awaited ↔
      ∃ party, traffic.party? ticket = some party ∧ party.holder.IsHeld) := by
  have hfine := h.fine ticket
  obtain ⟨hkind, hwaits⟩ := hfine.waits _ (Or.inr ⟨reply, hmem, rfl⟩)
  obtain ⟨party, hparty, -⟩ := Option.map_eq_some_iff.1 hkind
  constructor
  · unfold Exchange.hand
    by_cases hawaited : traffic.exchange.mail.letter ticket = .awaited
    · rw [if_pos (beq_iff_eq.2 hawaited)]
      exact iff_of_true rfl hawaited
    · rw [if_neg fun heq => hawaited (beq_iff_eq.1 heq)]
      exact iff_of_false Bool.false_ne_true hawaited
  · constructor
    · intro hawaited
      have hfits := hfine.fits party hparty
      rw [hawaited] at hfits
      exact ⟨party, hparty, hfits.isHeld_of_awaited⟩
    · rintro ⟨found, hfound, hheld⟩
      exact hwaits.resolve_right ((hfine.fits found hfound).ne_discarded hheld)

theorem Sound.delivers (h : traffic.Sound) (hlinked : traffic.linked = true) (reply : Reply) :
    traffic.Delivers reply := by
  have hstep : ∀ ticket, traffic.exchange.listener? reply.request = some ticket →
      traffic.step (.take reply) = traffic.taken ticket reply := by
    intro ticket hlistener
    simp only [Traffic.step, if_pos hlinked, take_of_listener? hlistener]
  have htaken : ∀ ticket, traffic.exchange.listener? reply.request = some ticket →
      (ticket, reply) ∈ (traffic.step (.take reply)).hands := by
    intro ticket hlistener
    rw [hstep ticket hlistener]
    exact List.mem_append_right _ List.mem_cons_self
  refine ⟨fun ticket hout => ?_, htaken, fun ticket later hlistener hlater => ?_⟩
  · exact Exchange.listener?_of_mem h.keys (h.outstanding_iff.1 hout).1
  · have hsound := h.step (.take reply)
    have hlisted := Exchange.mem_of_listener? hlistener
    obtain ⟨hwanted, hheld⟩ := (hsound.run later).hand_iff
      (mem_hands_run (htaken ticket hlistener) hlater)
    refine (hwanted.trans hheld).trans ⟨fun hnow => ⟨?_, hnow⟩, And.right⟩
    refine h.outstanding_iff.2 ⟨hlisted, ?_⟩
    refine ((h.fine ticket).waits _ (Or.inl hlisted)).2.resolve_right fun hdiscarded => ?_
    have hstill := hsound.discarded_run later (h.discarded_step (.take reply) hdiscarded)
    cases hstill.symm.trans (hheld.2 hnow)

/-- What a link promises about a reply that is on its way. -/
structure HandsOver (traffic : Traffic) (ticket : Ticket) (reply : Reply) : Prop where
  received : (traffic.exchange.hand ticket reply).1 = true → ∀ later, .act (.drop ticket) ∉ later →
    (traffic.run (.hand ticket :: later)).progress? ticket ≠ some .withdrawn →
      (traffic.run (.hand ticket :: later)).Observes ticket reply
  others : ∀ other found, (traffic.exchange.hand ticket reply).1 = false ∨ other ≠ ticket →
    ((traffic.step (.hand ticket)).Observes other found ↔ traffic.Observes other found)

theorem Sound.handsOver (h : traffic.Sound) (hmem : (ticket, reply) ∈ traffic.hands) :
    traffic.HandsOver ticket reply := by
  obtain ⟨hwanted, hheld⟩ := h.hand_iff hmem
  have hstep := h.step_hand hmem
  have hafter := h.hand hmem
  have hletter : ∀ other, (traffic.hand ticket reply).exchange.mail.letter other = _ :=
    Exchange.letter_hand ticket reply
  constructor
  · intro htrue later hlater hover
    obtain ⟨party, hparty, hholds⟩ := hheld.1 (hwanted.1 htrue)
    have hnow : (traffic.hand ticket reply).Observes ticket reply := by
      refine hafter.observes_iff.2 ⟨⟨party, hparty, fun hdropped => ?_⟩,
        (hletter ticket).trans (if_pos ⟨rfl, hwanted.1 htrue⟩)⟩
      rw [hdropped] at hholds
      exact hholds
    change ((traffic.step (.hand ticket)).run later).progress? ticket ≠ _ at hover
    change ((traffic.step (.hand ticket)).run later).Observes ticket reply
    rw [hstep] at hover ⊢
    exact hafter.observes_run hnow hlater hover
  · intro other found hother
    have hsame : (traffic.hand ticket reply).exchange.mail.letter other =
        traffic.exchange.mail.letter other := by
      rw [hletter, if_neg]
      rintro ⟨heq, hawaited⟩
      rcases hother with hfalse | hne
      · rw [hwanted.2 hawaited] at hfalse
        cases hfalse
      · exact hne heq
    rw [hstep, hafter.observes_iff, h.observes_iff, hsame]
    rfl

/-! ### The protocol -/

/-- What a link promises at any time, while calls overlap. -/
structure Promises (traffic : Traffic) : Prop where
  single : ∀ kind first second, traffic.Outstanding kind first → traffic.Outstanding kind second →
    first = second
  sent : ∃ order : List Ticket, order.Nodup ∧
    (∀ ticket, ticket ∈ order ↔ traffic.progress? ticket = some .accepted) ∧
    traffic.exchange.sent.map some = order.map traffic.kind?
  requests : traffic.linked = true → ∀ kind, traffic.AnswersRequests kind
  sends : ∀ ticket party, traffic.party? ticket = some party →
    traffic.progress? ticket = some .sending → traffic.Sends ticket party.kind
  clears : ∀ ticket party, traffic.party? ticket = some party →
    traffic.progress? ticket = some .failing → traffic.Clears ticket party.kind
  unseen : ∀ kind ticket reply, traffic.Unanswered kind ticket → ¬traffic.Observes ticket reply
  replies : traffic.linked = true → ∀ reply, traffic.Delivers reply
  hands : ∀ ticket reply, (ticket, reply) ∈ traffic.hands → traffic.HandsOver ticket reply
  readable : ∀ text reply, Reply.ofText? text = some reply →
    traffic.step (.takeJson text) = traffic.step (.take reply)
  unreadable : ∀ text, Reply.ofText? text = none → traffic.step (.takeJson text) = traffic

theorem Sound.promises (h : traffic.Sound) : traffic.Promises := by
  constructor
  case single =>
    exact fun kind first second hfirst hsecond =>
      h.eq_of_listed (h.outstanding_iff.1 hsecond).1 (h.outstanding_iff.1 hfirst).1
  case sent => exact h.once
  case requests => exact h.answersRequests
  case sends => exact fun _ _ => sends
  case clears => exact fun _ _ => h.clears
  case unseen =>
    rintro kind ticket reply ⟨⟨_, _, _, _, hunanswered⟩, -⟩ hobserves
    exact hunanswered reply (h.observes_iff.1 hobserves).2
  case replies => exact h.delivers
  case hands => exact fun _ _ => h.handsOver
  case readable => exact fun text reply htext => by simp only [Traffic.step, htext]
  case unreadable => exact fun text htext => by simp only [Traffic.step, htext]

/-- A turn of the run brought the reply, and took the listener of a request down that was
    outstanding then. -/
def Brought (turns : List Turn) (ticket : Ticket) (reply : Reply) : Prop :=
  ∃ before turn after, turns = before ++ turn :: after ∧ turn.reply? = some reply ∧
    (initial.run before).linked = true ∧ (initial.run before).Outstanding reply.request ticket

theorem Brought.append (h : Brought turns ticket reply) (later : List Turn) :
    Brought (turns ++ later) ticket reply := by
  obtain ⟨before, turn, after, rfl, hturn⟩ := h
  exact ⟨before, turn, after ++ later, by simp, hturn⟩

/-- Whatever is on its way to somebody who waits, and whatever a letter says, was brought for a
    request that was outstanding. -/
theorem brought_of_run (h : (ticket, reply) ∈ (initial.run turns).hands ∧
        (initial.run turns).exchange.mail.letter ticket = .awaited ∨
      (initial.run turns).exchange.mail.letter ticket = .answered reply) :
    Brought turns ticket reply := by
  induction turns using List.reverseRecOn with
  | nil => rcases h with ⟨hmem, -⟩ | hletter <;> contradiction
  | append_singleton earlier turn ih =>
    have hsound := sound_initial.run earlier
    rw [run_append] at h
    change (ticket, reply) ∈ ((initial.run earlier).step turn).hands ∧
      ((initial.run earlier).step turn).exchange.mail.letter ticket = .awaited ∨
      ((initial.run earlier).step turn).exchange.mail.letter ticket = .answered reply at h
    have hposts := hsound.posts turn ticket
    rcases h with ⟨hmem, hawaited⟩ | hletter
    · rw [hawaited] at hposts
      rcases (hands_step _ turn ticket reply).1 hmem with hold | ⟨hreply, hlinked, hlistener⟩
      · refine (ih (Or.inl ⟨hold, ?_⟩)).append [turn]
        generalize (initial.run earlier).exchange.mail.letter ticket = before at hposts
        cases hposts with
        | same => rfl
        | listed kind hturn hnew =>
          have hkind := ((hsound.fine ticket).waits _ (Or.inr ⟨reply, hold, rfl⟩)).1
          rw [kind?, hnew] at hkind
          cases hkind
      · have hlisted := Exchange.mem_of_listener? hlistener
        refine ⟨earlier, turn, [], rfl, hreply, hlinked, hsound.outstanding_iff.2 ⟨hlisted, ?_⟩⟩
        refine ((hsound.fine ticket).waits _ (Or.inl hlisted)).2.resolve_right fun hdiscarded => ?_
        cases (hsound.discarded_step turn hdiscarded).symm.trans hawaited
    · rw [hletter] at hposts
      refine (ih ?_).append [turn]
      generalize (initial.run earlier).exchange.mail.letter ticket = before at hposts
      cases hposts with
      | same => exact Or.inr rfl
      | answered _ hturn hmem => exact Or.inl ⟨hmem, rfl⟩

/-! ### Calls that find their own listener -/

theorem linked_of_step (h : (traffic.step turn).linked = true) : traffic.linked = true := by
  have heffect := traffic.effect_step turn
  generalize traffic.step turn = next at heffect h
  cases heffect with
  | withdrawn ticket party =>
    have hdrop : (Dialogue.step { traffic.toDialogue with
        exchange := traffic.exchange.withdraw party.kind } (.drop ticket)).linked = true := h
    have hbefore := Dialogue.linked_of_step hdrop
    exact hbefore
  | acted act => exact Dialogue.linked_of_step h
  | _ => exact h

/-- Every reply that somebody holds can still come. -/
def Reachable (traffic : Traffic) : Prop :=
  ∀ ticket party, traffic.party? ticket = some party → party.holder.IsHeld →
    traffic.exchange.mail.letter ticket ≠ .abandoned

/-- A turn in which a call finds its own listener leaves every reply that can come. -/
theorem Sound.reachable_step (h : traffic.Sound) (hspares : traffic.Spares turn)
    (hreachable : traffic.Reachable) (hlinked : (traffic.step turn).linked = true) :
    (traffic.step turn).Reachable := by
  intro ticket after hafter hheld habandoned
  cases hparty : traffic.party? ticket with
  | none => cases (h.awaited_of_new hparty hafter).symm.trans habandoned
  | some party =>
    obtain ⟨found, hfound, hbecomes⟩ := h.exists_becomes turn hparty
    obtain rfl := Option.some.inj (hafter.symm.trans hfound)
    have hposts := h.posts turn ticket
    rw [habandoned] at hposts
    generalize hbefore : traffic.exchange.mail.letter ticket = before at hposts
    cases hposts with
    | same => exact hreachable ticket party hparty (hbecomes.held hheld) hbefore
    | hungUp hturn hallowed =>
      have hbefore := linked_of_step hlinked
      rw [hturn] at hlinked
      simp only [Traffic.step, if_pos hallowed, Dialogue.step, if_pos hbefore] at hlinked
      cases hlinked
    | lost other gone hturn hgone hprogress hlistener =>
      rw [hturn] at hspares hafter
      obtain ⟨kind, hlisted⟩ := exists_listed_of_spares hspares hprogress
      -- the listener that is taken down is the call's own, and the call lets go of its reply
      have hkind : kind = gone.kind := Option.some.inj
        (((h.fine other).waits kind (Or.inl hlisted)).1.symm.trans (kind?_of_party? hgone))
      rw [hkind] at hlisted
      have heq := h.eq_of_listed (Exchange.mem_of_listener? hlistener) hlisted
      simp only [Traffic.step, hgone, hprogress, h.party?_withdraw hgone, if_pos heq.symm] at hafter
      cases hafter
      obtain ⟨held, hholder⟩ := (h.fine other).underway (Or.inr hprogress)
      cases hgone.symm.trans hholder
      exact hheld

theorem linked_of_run (h : (traffic.run turns).linked = true) : traffic.linked = true := by
  induction turns generalizing traffic with
  | nil => exact h
  | cons turn rest ih => exact linked_of_step (ih h)

theorem Sound.reachable_run (h : traffic.Sound) (hspares : Along Spares traffic turns)
    (hreachable : traffic.Reachable) (hlinked : (traffic.run turns).linked = true) :
    (traffic.run turns).Reachable := by
  induction turns generalizing traffic with
  | nil => exact hreachable
  | cons turn rest ih =>
    exact ih (h.step turn) hspares.2
      (h.reachable_step hspares.1 hreachable (linked_of_run hlinked)) hlinked

theorem Reachable.outstanding_iff (h : traffic.Reachable) :
    traffic.Outstanding kind ticket ↔ traffic.Unanswered kind ticket := by
  refine and_iff_left_of_imp ?_
  rintro ⟨⟨party, hparty, -, hheld, -⟩, -⟩
  exact h ticket party hparty hheld

/-! ### Replies that only come for requests that went out -/

/-- A call under way holds its own reply, so its request is outstanding while its listener is up. -/
theorem Sound.outstanding_of_underway (h : traffic.Sound)
    (hunder : traffic.progress? ticket = some .sending ∨ traffic.progress? ticket = some .failing)
    (hlisted : (kind, ticket) ∈ traffic.exchange.listeners) : traffic.Outstanding kind ticket := by
  have hfine := h.fine ticket
  obtain ⟨found, hparty⟩ := hfine.underway hunder
  exact h.outstanding_iff.2 ⟨hlisted, (hfine.waits kind (Or.inl hlisted)).2.resolve_right
    ((hfine.fits _ hparty).ne_discarded trivial)⟩

/-- The listener of each call under way is up. -/
def Listening (traffic : Traffic) : Prop :=
  ∀ ticket, traffic.progress? ticket = some .sending ∨ traffic.progress? ticket = some .failing →
    ∃ kind, (kind, ticket) ∈ traffic.exchange.listeners

theorem Sound.listening_step (h : traffic.Sound) (hprompted : traffic.Prompted turn)
    (hlistening : traffic.Listening) : (traffic.step turn).Listening := by
  have heffect := traffic.effect_step turn
  generalize traffic.step turn = next at heffect ⊢
  intro ticket hunder
  cases heffect with
  | listed kind hlinked hfree =>
    rw [h.progress?_listed] at hunder
    by_cases hnew : ticket = ⟨traffic.parties.length⟩
    · rw [hnew, ← h.mail]
      exact ⟨kind, List.mem_append_right _ List.mem_cons_self⟩
    · rw [if_neg hnew] at hunder
      obtain ⟨found, hlisted⟩ := hlistening ticket hunder
      -- the kind that is free now is not the kind of a call under way
      have hkind : found ≠ kind := by
        rintro rfl
        exact hfree (h.busy_iff.2 ⟨ticket, h.outstanding_of_underway hunder hlisted⟩)
      exact ⟨found, List.mem_append_left _ (Exchange.mem_unlisten.2 ⟨hlisted, hkind⟩)⟩
  | sent other party hparty hprogress =>
    change (traffic.calls.set other.index .accepted)[ticket.index]? = _ ∨
      (traffic.calls.set other.index .accepted)[ticket.index]? = _ at hunder
    rw [progress?_set hprogress] at hunder
    split at hunder
    · rcases hunder with hunder | hunder <;> cases hunder
    · exact hlistening ticket hunder
  | failed other hprogress =>
    change (traffic.calls.set other.index .failing)[ticket.index]? = _ ∨
      (traffic.calls.set other.index .failing)[ticket.index]? = _ at hunder
    rw [progress?_set hprogress] at hunder
    split at hunder
    · rename_i heq
      exact hlistening ticket (Or.inl (heq ▸ hprogress))
    · exact hlistening ticket hunder
  | withdrawn other party hparty hprogress =>
    rw [progress?_withdraw hprogress] at hunder
    split at hunder
    · rcases hunder with hunder | hunder <;> cases hunder
    · rename_i hne
      obtain ⟨found, hlisted⟩ := hlistening ticket hunder
      obtain ⟨kind, hown⟩ := hlistening other (Or.inr hprogress)
      have hkind : kind = party.kind := Option.some.inj
        (((h.fine other).waits kind (Or.inl hown)).1.symm.trans (kind?_of_party? hparty))
      refine ⟨found, (h.mem_listeners_withdraw hparty).2 ⟨hlisted, ?_⟩⟩
      rintro rfl
      exact hne (h.eq_of_listed (hkind ▸ hown) hlisted)
  | taken turn reply other hreply hlinked hlistener =>
    obtain ⟨found, hlisted⟩ := hlistening ticket hunder
    refine ⟨found, Exchange.mem_unlisten.2 ⟨hlisted, ?_⟩⟩
    rintro rfl
    have haccepted := hprompted reply hreply ticket (Exchange.listener?_of_mem h.keys hlisted)
    change traffic.progress? ticket = _ ∨ traffic.progress? ticket = _ at hunder
    rw [haccepted] at hunder
    rcases hunder with hunder | hunder <;> cases hunder
  | handed other reply hmem =>
    rw [Traffic.hand, Exchange.listeners_hand]
    exact hlistening ticket hunder
  | acted act hallowed =>
    rcases h.listeners_act hallowed with hsame | ⟨rfl, -⟩
    · rw [hsame]
      exact hlistening ticket hunder
    · rcases hunder with hunder | hunder <;>
      · rcases (isQuiet_iff.1 hallowed).1 _ (List.mem_of_getElem? hunder) with hover | hover <;>
          cases hover
  | idle => exact hlistening ticket hunder

/-- If replies come only for requests that went out, each call that could not send finds its own
    listener. -/
theorem Sound.spares_of_prompted (h : traffic.Sound) (hlistening : traffic.Listening)
    (hprompted : Along Prompted traffic turns) : Along Spares traffic turns := by
  induction turns generalizing traffic with
  | nil => trivial
  | cons turn rest ih =>
    refine ⟨?_, ih (h.step turn) (h.listening_step hprompted.1 hlistening) hprompted.2⟩
    cases turn with
    | withdraw ticket =>
      intro hprogress
      obtain ⟨kind, hlisted⟩ := hlistening ticket (Or.inr hprogress)
      exact List.mem_map.2 ⟨_, hlisted, rfl⟩
    | _ => trivial

/-! ### Calls that nobody comes in between -/

def handing (traffic : Traffic) (reply : Reply) : List Turn :=
  (traffic.exchange.listener? reply.request).toList.map .hand

/-- The turns of an act that nobody comes in between. -/
def whole (traffic : Traffic) : Act → List Turn
  | .request kind =>
    [.enlist kind, .emit ⟨traffic.parties.length⟩, .withdraw ⟨traffic.parties.length⟩]
  | .deliver reply => .take reply :: traffic.handing reply
  | .deliverJson text => .takeJson text :: (Reply.ofText? text).toList.flatMap traffic.handing
  | act => [.act act]

/-- The turns of acts that come one after the other. -/
def turnsOf : Traffic → List Act → List Turn
  | _, [] => []
  | traffic, act :: rest => traffic.whole act ++ (traffic.run (traffic.whole act)).turnsOf rest

theorem spares_of_unwithdrawn (h : ∀ ticket, .withdraw ticket ∉ turns) :
    Along Spares traffic turns := by
  induction turns generalizing traffic with
  | nil => trivial
  | cons turn rest ih =>
    refine ⟨?_, ih fun ticket hmem => h ticket (List.mem_cons_of_mem _ hmem)⟩
    cases turn with
    | withdraw ticket => exact absurd List.mem_cons_self (h ticket)
    | _ => trivial

theorem unwithdrawn_handing : .withdraw ticket ∉ traffic.handing reply := by
  simp [handing]

theorem step_enlist_of_not (h : ¬(traffic.linked = true ∧ ¬traffic.exchange.Busy kind)) :
    traffic.step (.enlist kind) = traffic := by
  simp only [step]
  split
  · rename_i hlinked
    exact enlist_of_busy (not_not.1 fun hfree => h ⟨hlinked, hfree⟩)
  · rfl

theorem step_emit_of_ne (h : traffic.progress? ticket ≠ some .sending) :
    traffic.step (.emit ticket) = traffic := by
  simp only [step]
  split
  · exact absurd ‹_› h
  · rfl

theorem step_withdraw_of_ne (h : traffic.progress? ticket ≠ some .failing) :
    traffic.step (.withdraw ticket) = traffic := by
  simp only [step]
  split
  · exact absurd ‹_› h
  · rfl

/-- A request that could not be sent finds its own listener if nobody came in between. -/
theorem Sound.spares_whole (h : traffic.Sound) (act : Act) :
    Along Spares traffic (traffic.whole act) := by
  cases act with
  | request kind =>
    refine ⟨trivial, trivial, fun hprogress => ?_, trivial⟩
    generalize hticket : (⟨traffic.parties.length⟩ : Ticket) = ticket at hprogress ⊢
    have hnew : traffic.progress? ticket = none := hticket ▸ h.progress?_new
    by_cases hlisted : traffic.linked = true ∧ ¬traffic.exchange.Busy kind
    · have hstep : traffic.step (.enlist kind) = traffic.listed kind := by
        simp only [Traffic.step, if_pos hlisted.1, enlist_of_free hlisted.2]
      have hmem : ticket ∈ (traffic.listed kind).exchange.listeners.map Prod.snd := by
        rw [← hticket, ← h.mail]
        exact List.mem_map.2 ⟨_, List.mem_append_right _ List.mem_cons_self, rfl⟩
      rw [hstep]
      have heffect := (traffic.listed kind).effect_step (.emit ticket)
      generalize (traffic.listed kind).step (.emit ticket) = next at heffect ⊢
      cases heffect with
      | taken _ _ _ hreply => cases hreply
      | _ => exact hmem
    · rw [step_enlist_of_not hlisted, step_emit_of_ne (by rw [hnew]; simp), hnew] at hprogress
      cases hprogress
  | deliver reply =>
    exact spares_of_unwithdrawn fun ticket hmem =>
      (List.mem_cons.1 hmem).elim Turn.noConfusion unwithdrawn_handing
  | deliverJson text =>
    refine spares_of_unwithdrawn fun ticket hmem => (List.mem_cons.1 hmem).elim Turn.noConfusion ?_
    intro hmem
    obtain ⟨reply, -, hmem⟩ := List.mem_flatMap.1 hmem
    exact unwithdrawn_handing hmem
  | _ =>
    exact spares_of_unwithdrawn fun ticket hmem =>
      (List.mem_cons.1 hmem).elim Turn.noConfusion (absurd · List.not_mem_nil)

theorem along_append {should : Traffic → Turn → Prop} {first second : List Turn} :
    Along should traffic (first ++ second) ↔
      Along should traffic first ∧ Along should (traffic.run first) second := by
  induction first generalizing traffic with
  | nil => exact (iff_of_eq (true_and _)).symm
  | cons turn rest ih =>
    simp only [List.cons_append, Along, ih, and_assoc]
    rfl

theorem Sound.spares_turnsOf (h : traffic.Sound) (acts : List Act) :
    Along Spares traffic (traffic.turnsOf acts) := by
  induction acts generalizing traffic with
  | nil => trivial
  | cons act rest ih =>
    exact along_append.2 ⟨h.spares_whole act, ih (h.run (traffic.whole act))⟩

/-- A request that can be sent and nobody comes in between does what it does as one act. -/
theorem Sound.run_whole_request (h : traffic.Sound) (hready : traffic.exchange.channelReady = true)
    (kind : Request) : (traffic.run (traffic.whole (.request kind))).toDialogue =
      traffic.toDialogue.step (.request kind) := by
  generalize hticket : (⟨traffic.parties.length⟩ : Ticket) = ticket
  have hrun : traffic.run (traffic.whole (.request kind)) =
      ((traffic.step (.enlist kind)).step (.emit ticket)).step (.withdraw ticket) := by
    rw [← hticket]
    rfl
  by_cases hlisted : traffic.linked = true ∧ ¬traffic.exchange.Busy kind
  · obtain ⟨hlinked, hfree⟩ := hlisted
    have hlist : traffic.step (.enlist kind) = traffic.listed kind := by
      simp only [Traffic.step, if_pos hlinked, enlist_of_free hfree]
    have hparty : (traffic.listed kind).party? ticket = _ :=
      h.party?_listed.trans (if_pos hticket.symm)
    have hprogress : (traffic.listed kind).progress? ticket = some .sending :=
      h.progress?_listed.trans (if_pos hticket.symm)
    have hsend : (traffic.listed kind).step (.emit ticket) =
        (traffic.listed kind).sent ticket kind := by
      simp only [Traffic.step, hparty, hprogress]
      exact emit_of_ready hready
    have hsent : ((traffic.listed kind).sent ticket kind).progress? ticket = some .accepted :=
      (progress?_set hprogress ticket).trans (if_pos rfl)
    rw [hrun, hlist, hsend, step_withdraw_of_ne (by rw [hsent]; simp)]
    simp only [Dialogue.step, if_pos hlinked, Exchange.ask_eq, Exchange.request_of_not_busy hfree,
      if_pos hready]
    rfl
  · have hnew : traffic.progress? ticket = none := hticket ▸ h.progress?_new
    rw [hrun, step_enlist_of_not hlisted, step_emit_of_ne (by rw [hnew]; simp),
      step_withdraw_of_ne (by rw [hnew]; simp)]
    simp only [Dialogue.step]
    split
    · rename_i hlinked
      have hbusy := not_not.1 fun hfree => hlisted ⟨hlinked, hfree⟩
      simp only [Exchange.ask_eq, Exchange.request_of_busy hbusy]
      rfl
    · rfl

/-- A reply that nobody comes in between does what it does as one act. -/
theorem Sound.run_whole_deliver (h : traffic.Sound) (hlinked : traffic.linked = true)
    (reply : Reply) : (traffic.run (traffic.whole (.deliver reply))).toDialogue =
      traffic.toDialogue.step (.deliver reply) := by
  cases hlistener : traffic.exchange.listener? reply.request with
  | none =>
    have hidle : traffic.run (traffic.whole (.deliver reply)) = traffic := by
      simp [whole, handing, Traffic.run, Traffic.step, take, hlistener]
    rw [hidle]
    simp only [Dialogue.step, Exchange.deliver, hlistener, if_pos hlinked]
  | some ticket =>
    have htaken : traffic.step (.take reply) = traffic.taken ticket reply := by
      simp only [Traffic.step, if_pos hlinked, take_of_listener? hlistener]
    have hmem : (ticket, reply) ∈ (traffic.taken ticket reply).hands :=
      List.mem_append_right _ List.mem_cons_self
    have hrun : traffic.run (traffic.whole (.deliver reply)) =
        (traffic.taken ticket reply).hand ticket reply := by
      simp only [whole, handing, hlistener, Option.toList_some, List.map_cons, List.map_nil,
        Traffic.run, List.foldl_cons, List.foldl_nil, htaken, (h.taken hlistener).step_hand hmem]
    rw [hrun]
    simp only [Dialogue.step, Exchange.deliver, hlistener, if_pos hlinked]
    rfl

/-! ### Any interleaving -/

/-- A link keeps its promises after any acts that come one after the other, and while calls overlap
    in any order of their turns. Whatever a holder gets to see was brought for the request that it
    holds while that request was outstanding. As long as each call that could not send finds its own
    listener, an accepted request whose reply nobody let go of and none was handed to is
    outstanding. This is so if replies come only for requests that went out, and if acts come one
    after the other. -/
theorem promises_of_interleaving (acts : List Act) (turns : List Turn) :
    ((Dialogue.initial.run acts).Promises ∧
      ∀ ticket reply, (Dialogue.initial.run acts).Observes ticket reply →
        ∃ before act after, acts = before ++ act :: after ∧ act.reply? = some reply ∧
          (Dialogue.initial.run before).linked = true ∧
          (Dialogue.initial.run before).Outstanding reply.request ticket) ∧
    ((initial.run turns).Promises ∧
      ∀ ticket reply, (initial.run turns).Observes ticket reply → Brought turns ticket reply) ∧
    (Along Spares initial turns → (initial.run turns).linked = true → ∀ kind ticket,
      ((initial.run turns).Outstanding kind ticket ↔
        (initial.run turns).Unanswered kind ticket)) ∧
    (Along Prompted initial turns → Along Spares initial turns) ∧
    Along Spares initial (initial.turnsOf acts) := by
  have hsound := sound_initial.run turns
  have hreachable : initial.Reachable := fun _ _ hparty => by cases hparty
  have hlistening : initial.Listening := by rintro ticket (hunder | hunder) <;> cases hunder
  refine ⟨Dialogue.promises_of_run acts, ⟨hsound.promises, fun ticket reply hobserves => ?_⟩,
    fun hspares hlinked kind ticket => ?_, sound_initial.spares_of_prompted hlistening,
    sound_initial.spares_turnsOf acts⟩
  · exact brought_of_run (Or.inr (hsound.observes_iff.1 hobserves).2)
  · exact (sound_initial.reachable_run hspares hreachable hlinked).outstanding_iff

/-- While a request of one kind waits for its reply, a request of the other kind cannot be sent; the
    reply comes before the listener of that one is taken down. -/
theorem promises_of_overlap :
    let turns : List Turn := [.enlist .paths, .enlist .plugins, .emit ⟨0⟩,
      .act (.setChannel false), .emit ⟨1⟩, .take (.paths .empty), .withdraw ⟨1⟩, .hand ⟨0⟩,
      .act (.setChannel true), .enlist .plugins, .emit ⟨2⟩]
    Along Prompted initial turns ∧ (initial.run turns).Promises ∧
      (initial.run turns).exchange.sent = [.paths, .plugins] ∧
      (initial.run turns).exchange.mail.letter ⟨0⟩ = .answered (.paths .empty) ∧
      ((initial.run turns).Outstanding .plugins ⟨2⟩ ↔
        (initial.run turns).Unanswered .plugins ⟨2⟩) := by
  intro turns
  have hprompted : Along Prompted initial turns := by decide +kernel
  obtain ⟨-, ⟨hpromises, -⟩, houtstanding, hspares, -⟩ := promises_of_interleaving [] turns
  exact ⟨hprompted, hpromises, by decide +kernel, by decide +kernel,
    houtstanding (hspares hprompted) (by decide +kernel) .plugins ⟨2⟩⟩

/-- A reply comes for a request that then cannot be sent, and another request of the kind is
    accepted before the call takes the listener of its kind down: the other request has not failed
    for whoever holds its reply, but no reply reaches it any more. -/
theorem unreachable_of_crossing :
    let turns : List Turn := [.enlist .paths, .act (.setChannel false), .emit ⟨0⟩,
      .take (.paths .empty), .hand ⟨0⟩, .act (.setChannel true), .enlist .paths, .emit ⟨1⟩,
      .withdraw ⟨0⟩]
    ¬Along Spares initial turns ∧ (initial.run turns).progress? ⟨1⟩ = some .accepted ∧
      (initial.run turns).Unanswered .paths ⟨1⟩ ∧
      (initial.run turns).exchange.listener? .paths = none := by
  intro turns
  have habandoned : (initial.run turns).exchange.mail.letter ⟨1⟩ = .abandoned := by decide +kernel
  refine ⟨by decide +kernel, by decide +kernel,
    ⟨⟨⟨.paths, .held (.awaiting ⟨1⟩)⟩, rfl, rfl, trivial, fun reply hletter => ?_⟩,
      fun reply hmem => ?_⟩, by decide +kernel⟩
  · cases habandoned.symm.trans hletter
  · have hhands : (initial.run turns).hands = [] := rfl
    rw [hhands] at hmem
    cases hmem

end Traffic

end Capabilities.Host
