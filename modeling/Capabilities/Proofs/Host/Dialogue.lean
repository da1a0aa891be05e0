import Capabilities.Proofs.Host.Exchange

/-!
# Dialogues with the host

A *dialogue* is a link together with everybody who holds the reply to one of its requests. It goes
on by single acts, one after the other and in any order: requests, replies, looks at a reply, waits,
holders letting go, the channel failing or working again, and the link going down. A wait is begun,
asked again as often as one likes, and finishes or is let go of; until then it holds the reply.
-/

namespace Capabilities.Host

/-! ### What replies carry -/

def Request.Content : Request → Type
  | .paths => CapabilityPaths
  | .plugins => List PluginInfo

instance Request.payload : (kind : Request) → Payload kind.Content
  | .paths => inferInstanceAs (Payload CapabilityPaths)
  | .plugins => inferInstanceAs (Payload (List PluginInfo))

/-- A reply carries what was asked for exactly if it is of the kind. -/
theorem exists_ofReply?_iff {kind : Request} {reply : Reply} :
    (∃ value : kind.Content, Payload.ofReply? reply = some value) ↔ reply.request = kind := by
  constructor
  · rintro ⟨value, hvalue⟩
    cases kind <;> cases reply <;> first | rfl | cases hvalue
  · rintro rfl
    cases reply with
    | paths table => exact ⟨table, rfl⟩
    | plugins list => exact ⟨list, rfl⟩

theorem ofReply?_injective {kind : Request} {first second : Reply} {value : kind.Content}
    (hfirst : Payload.ofReply? first = some value)
    (hsecond : Payload.ofReply? second = some value) : first = second := by
  cases kind <;> cases first <;> cases second <;> cases hfirst <;> cases hsecond <;> rfl

def Exchange.ask (exchange : Exchange) :
    (kind : Request) → Except LinkError (PendingReply kind.Content) × Exchange
  | .paths => exchange.requestPaths
  | .plugins => exchange.requestPlugins

theorem Exchange.ask_eq (exchange : Exchange) (kind : Request) :
    exchange.ask kind =
      ((exchange.request kind).1.map .awaiting, (exchange.request kind).2) := by
  cases kind <;> rfl

def Reply.ofText? (text : String) : Option Reply := (Json.Value.parse? text).bind Reply.ofJson?

theorem Exchange.deliverJson_eq_some {exchange : Exchange} {text : String} {reply : Reply}
    (h : Reply.ofText? text = some reply) :
    exchange.deliverJson text = (some (exchange.deliver reply).1, (exchange.deliver reply).2) := by
  unfold Reply.ofText? at h
  simp only [deliverJson, h]

theorem Exchange.deliverJson_eq_none {exchange : Exchange} {text : String}
    (h : Reply.ofText? text = none) : exchange.deliverJson text = (none, exchange) := by
  unfold Reply.ofText? at h
  simp only [deliverJson, h]

/-! ### Holders -/

/-- Who has the reply to an accepted request. -/
inductive Holder (α : Type) where
  | held (reply : PendingReply α)
  | waiting (reply : PendingReply α)
  | finished (result : Except LinkError α)
  | dropped

namespace Holder

variable {α : Type} [Payload α]

/-- Whether somebody still holds the reply: neither let go of nor used up by a wait. -/
def IsHeld : Holder α → Prop
  | .held _ | .waiting _ => True
  | .finished _ | .dropped => False

def poll (mail : Mail) : Holder α → Holder α
  | .held reply => .held (reply.poll mail)
  | other => other

def wait : Holder α → Holder α
  | .held reply => .waiting reply
  | other => other

def resume (exchange : Exchange) : Holder α → Holder α
  | .waiting reply =>
    match (reply.wait exchange).1 with
    | .pending => .waiting reply
    | .done result => .finished result
  | other => other

def drop : Holder α → Holder α
  | .held _ | .waiting _ => .dropped
  | other => other

def release (exchange : Exchange) : Holder α → Exchange
  | .held reply | .waiting reply => reply.drop exchange
  | .finished _ | .dropped => exchange

/-- What the holder gets to see when it looks at the reply, or asks the wait, now. -/
def observed? (exchange : Exchange) : Holder α → Option α
  | .held reply => (reply.poll exchange.mail).state.value?
  | .waiting reply =>
    match (reply.wait exchange).1 with
    | .done (.ok value) => some value
    | _ => none
  | .finished result => result.toOption
  | .dropped => none

variable {holder : Holder α} {mail : Mail} {exchange : Exchange}

theorem isHeld_of_poll (h : (holder.poll mail).IsHeld) : holder.IsHeld := by
  cases holder <;> exact h

omit [Payload α] in
theorem isHeld_of_wait (h : holder.wait.IsHeld) : holder.IsHeld := by
  cases holder <;> exact h

theorem isHeld_of_resume (h : (holder.resume exchange).IsHeld) : holder.IsHeld := by
  cases holder with
  | waiting reply => trivial
  | _ => exact h

omit [Payload α] in
theorem isHeld_of_drop (h : holder.drop.IsHeld) : holder.IsHeld := by
  cases holder <;> trivial

theorem poll_eq_dropped : holder.poll mail = .dropped ↔ holder = .dropped := by
  cases holder <;> simp [poll]

omit [Payload α] in
theorem wait_eq_dropped : holder.wait = .dropped ↔ holder = .dropped := by
  cases holder <;> simp [wait]

theorem resume_eq_dropped : holder.resume exchange = .dropped ↔ holder = .dropped := by
  cases holder with
  | waiting reply =>
    simp only [resume]
    split <;> simp
  | _ => simp [resume]

end Holder

/-- An accepted request and who has its reply. -/
structure Party where
  kind : Request
  holder : Holder kind.Content

/-- A link, whether it is still there, and its accepted requests in order, so by ticket. -/
structure Dialogue where
  exchange : Exchange
  linked : Bool
  parties : List Party

inductive Act where
  | request (kind : Request)
  | deliver (reply : Reply)
  | deliverJson (text : String)
  | poll (ticket : Ticket)
  | wait (ticket : Ticket)
  | resume (ticket : Ticket)
  | drop (ticket : Ticket)
  | setChannel (ready : Bool)
  | hangUp

def Act.reply? : Act → Option Reply
  | .deliver reply => some reply
  | .deliverJson text => Reply.ofText? text
  | _ => none

namespace Dialogue

def initial : Dialogue := ⟨.initial, true, []⟩

def party? (dialogue : Dialogue) (ticket : Ticket) : Option Party := dialogue.parties[ticket.index]?

def change (dialogue : Dialogue) (ticket : Ticket)
    (next : (kind : Request) → Holder kind.Content → Holder kind.Content) : Dialogue :=
  { dialogue with
    parties := dialogue.parties.modify ticket.index fun party =>
      ⟨party.kind, next party.kind party.holder⟩ }

/-- One act. A link that is gone takes no requests and no replies. -/
def step (dialogue : Dialogue) : Act → Dialogue
  | .request kind =>
    if dialogue.linked then
      match dialogue.exchange.ask kind with
      | (.ok reply, exchange) =>
        { dialogue with
          exchange := exchange
          parties := dialogue.parties ++ [⟨kind, .held reply⟩] }
      | (.error _, exchange) => { dialogue with exchange := exchange }
    else dialogue
  | .deliver reply =>
    if dialogue.linked then { dialogue with exchange := (dialogue.exchange.deliver reply).2 }
    else dialogue
  | .deliverJson text =>
    if dialogue.linked then { dialogue with exchange := (dialogue.exchange.deliverJson text).2 }
    else dialogue
  | .poll ticket => dialogue.change ticket fun _ => Holder.poll dialogue.exchange.mail
  | .wait ticket => dialogue.change ticket fun _ => Holder.wait
  | .resume ticket => dialogue.change ticket fun _ => Holder.resume dialogue.exchange
  | .drop ticket =>
    match dialogue.party? ticket with
    | none => dialogue
    | some party =>
      { dialogue with exchange := party.holder.release dialogue.exchange }.change ticket
        fun _ => Holder.drop
  | .setChannel ready =>
    { dialogue with exchange := { dialogue.exchange with channelReady := ready } }
  | .hangUp =>
    if dialogue.linked then
      { dialogue with exchange := dialogue.exchange.hangUp, linked := false }
    else dialogue

def run (dialogue : Dialogue) (acts : List Act) : Dialogue := acts.foldl step dialogue

/-- A request of the kind was accepted, its reply is neither let go of nor used up by a wait, and
    no reply was handed to it. -/
def Outstanding (dialogue : Dialogue) (kind : Request) (ticket : Ticket) : Prop :=
  ∃ party, dialogue.party? ticket = some party ∧ party.kind = kind ∧ party.holder.IsHeld ∧
    ∀ reply, dialogue.exchange.mail.letter ticket ≠ .answered reply

/-- The holder of the reply at a ticket gets to see what a reply carries. -/
def Observes (dialogue : Dialogue) (ticket : Ticket) (reply : Reply) : Prop :=
  ∃ party value, dialogue.party? ticket = some party ∧
    party.holder.observed? dialogue.exchange = some value ∧ Payload.ofReply? reply = some value

end Dialogue

/-! ### Holders and letters -/

/-- What is known about a reply whose holder has looked at its letter. -/
def Letter.shown {α : Type} [Payload α] : Letter → ReplyState α
  | .awaited | .discarded => .notYetAvailable
  | .answered reply =>
    match Payload.ofReply? reply with
    | some value => .ready value
    | none => .failed
  | .abandoned => .failed

def Letter.IsSettled (letter : Letter) : Prop := letter ≠ .awaited ∧ letter ≠ .discarded

/-- What may become of a letter that its holder has not let go of. -/
def Letter.Becomes (letter next : Letter) : Prop :=
  next = letter ∨ letter = .awaited ∧ next.IsSettled

section Fitting

variable {α : Type} [Payload α] {ticket : Ticket} {letter next : Letter} {mail : Mail}
  {exchange : Exchange} {reply : PendingReply α} {holder : Holder α}

/-- A reply that knows nothing and looks at its own letter, or knows what its letter says. -/
def PendingReply.Genuine (ticket : Ticket) (letter : Letter) (reply : PendingReply α) : Prop :=
  reply = .awaiting ticket ∧ letter ≠ .discarded ∨
    reply = ⟨letter.shown, none⟩ ∧ letter.IsSettled

/-- A holder that has what its letter says. -/
def Holder.Fits (ticket : Ticket) (letter : Letter) : Holder α → Prop
  | .held reply | .waiting reply => reply.Genuine ticket letter
  | .finished result => result.toOption = (letter.shown : ReplyState α).value? ∧ letter.IsSettled
  | .dropped => letter ≠ .awaited

theorem PendingReply.poll_awaiting (h : (mail.letter ticket).IsSettled) :
    (awaiting ticket : PendingReply α).poll mail = ⟨(mail.letter ticket).shown, none⟩ := by
  simp only [PendingReply.poll, awaiting]
  cases hletter : mail.letter ticket with
  | awaited => exact absurd hletter h.1
  | discarded => exact absurd hletter h.2
  | abandoned => rfl
  | answered found =>
    simp only [Letter.shown]
    cases Payload.ofReply? (α := α) found <;> rfl

/-- A look shows what the letter says. -/
theorem PendingReply.Genuine.poll (h : reply.Genuine ticket (mail.letter ticket)) :
    (reply.poll mail).Genuine ticket (mail.letter ticket) ∧
      (reply.poll mail).state = (mail.letter ticket).shown := by
  rcases h with ⟨rfl, hwanted⟩ | ⟨rfl, hsettled⟩
  · by_cases hawaited : mail.letter ticket = .awaited
    · have hsame : (awaiting ticket : PendingReply α).poll mail = awaiting ticket := by
        simp only [PendingReply.poll, awaiting, hawaited]
      rw [hsame, hawaited]
      exact ⟨Or.inl ⟨rfl, Letter.noConfusion⟩, rfl⟩
    · have hsettled : (mail.letter ticket).IsSettled := ⟨hawaited, hwanted⟩
      rw [poll_awaiting hsettled]
      exact ⟨Or.inr ⟨rfl, hsettled⟩, rfl⟩
  · exact ⟨Or.inr ⟨rfl, hsettled⟩, rfl⟩

/-- A wait goes on as long as nothing is known, and then ends with what the letter says. -/
theorem PendingReply.Genuine.wait (h : reply.Genuine ticket (exchange.mail.letter ticket)) :
    (reply.wait exchange).1 = .pending ∧ exchange.mail.letter ticket = .awaited ∨
      ∃ result, (reply.wait exchange).1 = .done result ∧
        result.toOption = ((exchange.mail.letter ticket).shown : ReplyState α).value? ∧
        (exchange.mail.letter ticket).IsSettled := by
  rcases h with ⟨rfl, hwanted⟩ | ⟨rfl, hsettled⟩
  · simp only [PendingReply.wait, PendingReply.awaiting]
    cases hletter : exchange.mail.letter ticket with
    | awaited => exact Or.inl ⟨rfl, rfl⟩
    | discarded => exact absurd hletter hwanted
    | abandoned => exact Or.inr ⟨_, rfl, rfl, Letter.noConfusion, Letter.noConfusion⟩
    | answered found =>
      right
      simp only [Letter.shown]
      cases Payload.ofReply? (α := α) found with
      | none => exact ⟨_, rfl, rfl, Letter.noConfusion, Letter.noConfusion⟩
      | some value => exact ⟨_, rfl, rfl, Letter.noConfusion, Letter.noConfusion⟩
  · right
    simp only [PendingReply.wait]
    cases hletter : exchange.mail.letter ticket with
    | awaited => exact absurd hletter hsettled.1
    | discarded => exact absurd hletter hsettled.2
    | abandoned => exact ⟨_, rfl, rfl, Letter.noConfusion, Letter.noConfusion⟩
    | answered found =>
      simp only [Letter.shown]
      cases Payload.ofReply? (α := α) found with
      | none => exact ⟨_, rfl, rfl, Letter.noConfusion, Letter.noConfusion⟩
      | some value => exact ⟨_, rfl, rfl, Letter.noConfusion, Letter.noConfusion⟩

theorem PendingReply.Genuine.becomes (h : reply.Genuine ticket letter)
    (hnext : letter.Becomes next) : reply.Genuine ticket next := by
  rcases hnext with rfl | ⟨rfl, hsettled⟩
  · exact h
  · rcases h with ⟨rfl, -⟩ | ⟨-, hsettled', -⟩
    · exact Or.inl ⟨rfl, hsettled.2⟩
    · exact absurd rfl hsettled'

theorem Holder.Fits.becomes (h : holder.Fits ticket letter) (hnext : letter.Becomes next) :
    holder.Fits ticket next := by
  cases holder with
  | held reply => exact PendingReply.Genuine.becomes h hnext
  | waiting reply => exact PendingReply.Genuine.becomes h hnext
  | finished result =>
    rcases hnext with rfl | ⟨rfl, -⟩
    · exact h
    · exact absurd rfl h.2.1
  | dropped =>
    rcases hnext with rfl | ⟨rfl, -⟩
    · exact h
    · exact absurd rfl h

theorem Holder.Fits.poll (h : holder.Fits ticket (mail.letter ticket)) :
    (holder.poll mail).Fits ticket (mail.letter ticket) := by
  cases holder with
  | held reply => exact (PendingReply.Genuine.poll h).1
  | _ => exact h

theorem Holder.Fits.wait (h : holder.Fits ticket letter) : holder.wait.Fits ticket letter := by
  cases holder <;> exact h

theorem Holder.Fits.resume (h : holder.Fits ticket (exchange.mail.letter ticket)) :
    (holder.resume exchange).Fits ticket (exchange.mail.letter ticket) := by
  cases holder with
  | waiting reply =>
    rcases PendingReply.Genuine.wait h with ⟨hpending, -⟩ | ⟨result, hdone, hresult⟩
    · simp only [Holder.resume, hpending]
      exact h
    · simp only [Holder.resume, hdone]
      exact hresult
  | _ => exact h

/-- Who lets go of an awaited letter discards it. -/
theorem Holder.Fits.release (h : holder.Fits ticket (exchange.mail.letter ticket)) :
    holder.release exchange = exchange.discard ticket ∧
      holder.drop.Fits ticket ((exchange.discard ticket).mail.letter ticket) := by
  have hdropped : (exchange.discard ticket).mail.letter ticket ≠ .awaited := by
    rw [Exchange.letter_discard]
    split
    · exact Letter.noConfusion
    · rename_i hne
      exact fun hawaited => hne ⟨rfl, hawaited⟩
  have hreply : ∀ reply : PendingReply α,
      reply.Genuine ticket (exchange.mail.letter ticket) →
        reply.drop exchange = exchange.discard ticket := by
    intro reply hreply
    rcases hreply with ⟨rfl, -⟩ | ⟨rfl, hsettled⟩
    · rfl
    · exact (Exchange.discard_of_ne hsettled.1).symm
  cases holder with
  | held reply => exact ⟨hreply reply h, hdropped⟩
  | waiting reply => exact ⟨hreply reply h, hdropped⟩
  | finished result =>
    rw [Exchange.discard_of_ne h.2.1]
    exact ⟨rfl, h⟩
  | dropped =>
    rw [Exchange.discard_of_ne h]
    exact ⟨rfl, h⟩

theorem Holder.Fits.ne_discarded (h : holder.Fits ticket letter) (hheld : holder.IsHeld) :
    letter ≠ .discarded := by
  have hreply : ∀ reply : PendingReply α, reply.Genuine ticket letter → letter ≠ .discarded := by
    rintro reply (⟨-, hwanted⟩ | ⟨-, hsettled⟩)
    · exact hwanted
    · exact hsettled.2
  cases holder with
  | held reply => exact hreply reply h
  | waiting reply => exact hreply reply h
  | finished result => exact hheld.elim
  | dropped => exact hheld.elim

theorem Holder.Fits.isHeld_of_awaited (h : holder.Fits ticket .awaited) : holder.IsHeld := by
  cases holder with
  | held reply => trivial
  | waiting reply => trivial
  | finished result => exact absurd rfl h.2.1
  | dropped => exact absurd rfl h

/-- Who has not let go gets to see what the letter says. -/
theorem Holder.Fits.observed? (h : holder.Fits ticket (exchange.mail.letter ticket))
    (hheld : holder ≠ .dropped) :
    holder.observed? exchange = ((exchange.mail.letter ticket).shown : ReplyState α).value? := by
  cases holder with
  | held reply =>
    simp only [Holder.observed?]
    rw [(PendingReply.Genuine.poll h).2]
  | waiting reply =>
    simp only [Holder.observed?]
    rcases PendingReply.Genuine.wait h with ⟨hpending, hawaited⟩ | ⟨result, hdone, hresult, -⟩
    · rw [hpending, hawaited]
      rfl
    · rw [hdone, ← hresult]
      cases result <;> rfl
  | finished result => exact h.1
  | dropped => exact absurd rfl hheld

end Fitting

end Capabilities.Host
