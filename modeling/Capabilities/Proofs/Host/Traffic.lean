import Capabilities.Proofs.Host.Protocol

/-!
# Traffic on a link

The listeners of a link are kept under a lock, and calls hold the lock only while they look at the
listeners. A request puts its listener up, lets the lock go, sends, and takes the lock once more if
it could not be sent and the listener has to come down. A reply takes a listener down, lets the lock
go, and is handed over then. In between other calls have their turns.

A *traffic* is a dialogue in which calls overlap so. A request whose listener is up has a ticket and
a party, and until its call returns the call is the holder of the reply. A reply that has taken a
listener down is in somebody's hands until it is handed over.
-/

namespace Capabilities.Host

/-- How far the call of a request has come that was not refused: it sends the request, it could not
    send it, it has returned the reply to wait for, or it has returned a failure. -/
inductive Progress where
  | sending
  | failing
  | accepted
  | withdrawn
deriving DecidableEq

/-- A dialogue in which calls overlap: the calls of all requests that were not refused, by ticket,
    and the replies on their way to whoever waits at a ticket. -/
structure Traffic extends Dialogue where
  calls : List Progress
  hands : List (Ticket × Reply)

/-- What can happen next: a step of a call that asks for a reply or brings one, or an act of
    somebody else. -/
inductive Turn where
  | enlist (kind : Request)
  | emit (ticket : Ticket)
  | withdraw (ticket : Ticket)
  | take (reply : Reply)
  | takeJson (text : String)
  | hand (ticket : Ticket)
  | act (act : Act)

/-- The reply that a turn takes the listener down for, if it brings one. -/
def Turn.reply? : Turn → Option Reply
  | .take reply => some reply
  | .takeJson text => Reply.ofText? text
  | _ => none

namespace Traffic

def initial : Traffic := ⟨.initial, [], []⟩

/-- How far the call of a request has come. -/
def progress? (traffic : Traffic) (ticket : Ticket) : Option Progress :=
  traffic.calls[ticket.index]?

/-- No call is under way. -/
def isQuiet (traffic : Traffic) : Bool :=
  traffic.calls.all (fun progress => progress == .accepted || progress == .withdrawn) &&
    traffic.hands.isEmpty

/-- Whether an act can come now. A reply is looked at once its call has returned it, and a link goes
    down when no call is under way. Requests and replies have turns of their own. -/
def allows (traffic : Traffic) : Act → Bool
  | .poll ticket | .wait ticket | .resume ticket | .drop ticket =>
    traffic.progress? ticket == some .accepted
  | .setChannel _ => true
  | .hangUp => traffic.isQuiet
  | .request _ | .deliver _ | .deliverJson _ => false

def enlist (traffic : Traffic) (kind : Request) : Traffic :=
  match traffic.exchange.enlist kind with
  | (.error _, _) => traffic
  | (.ok ticket, exchange) =>
    { traffic with
      exchange := exchange
      parties := traffic.parties ++ [⟨kind, .held (.awaiting ticket)⟩]
      calls := traffic.calls ++ [.sending] }

def emit (traffic : Traffic) (ticket : Ticket) (kind : Request) : Traffic :=
  match traffic.exchange.emit kind with
  | (true, exchange) =>
    { traffic with exchange := exchange, calls := traffic.calls.set ticket.index .accepted }
  | (false, exchange) =>
    { traffic with exchange := exchange, calls := traffic.calls.set ticket.index .failing }

/-- A call that could not send takes the listener of its kind down and lets go of its reply. Both
    are one turn: whoever hands the reply over in between could as well have done so before. -/
def withdraw (traffic : Traffic) (ticket : Ticket) (kind : Request) : Traffic :=
  let unlisted : Dialogue := { traffic.toDialogue with exchange := traffic.exchange.withdraw kind }
  { unlisted.step (.drop ticket) with
    calls := traffic.calls.set ticket.index .withdrawn
    hands := traffic.hands }

def take (traffic : Traffic) (reply : Reply) : Traffic :=
  match traffic.exchange.listener? reply.request with
  | none => traffic
  | some ticket =>
    { traffic with
      exchange := traffic.exchange.unlisten reply.request
      hands := traffic.hands ++ [(ticket, reply)] }

def hand (traffic : Traffic) (ticket : Ticket) (reply : Reply) : Traffic :=
  { traffic with
    exchange := (traffic.exchange.hand ticket reply).2
    hands := traffic.hands.filter (·.1 != ticket) }

/-- One turn. A turn that cannot come now changes nothing. -/
def step (traffic : Traffic) : Turn → Traffic
  | .enlist kind => if traffic.linked then traffic.enlist kind else traffic
  | .emit ticket =>
    match traffic.party? ticket, traffic.progress? ticket with
    | some party, some .sending => traffic.emit ticket party.kind
    | _, _ => traffic
  | .withdraw ticket =>
    match traffic.party? ticket, traffic.progress? ticket with
    | some party, some .failing => traffic.withdraw ticket party.kind
    | _, _ => traffic
  | .take reply => if traffic.linked then traffic.take reply else traffic
  | .takeJson text =>
    match Reply.ofText? text with
    | none => traffic
    | some reply => if traffic.linked then traffic.take reply else traffic
  | .hand ticket =>
    match traffic.hands.lookup ticket with
    | none => traffic
    | some reply => traffic.hand ticket reply
  | .act act =>
    if traffic.allows act then { traffic with toDialogue := traffic.toDialogue.step act }
    else traffic

def run (traffic : Traffic) (turns : List Turn) : Traffic := turns.foldl step traffic

/-- A request of the kind has got a ticket, its reply is neither let go of nor used up by a wait,
    and no reply was handed to it or is on its way to it. -/
def Unanswered (traffic : Traffic) (kind : Request) (ticket : Ticket) : Prop :=
  traffic.toDialogue.Outstanding kind ticket ∧ ∀ reply, (ticket, reply) ∉ traffic.hands

/-- An unanswered request that a reply can still reach: it has not failed. -/
def Outstanding (traffic : Traffic) (kind : Request) (ticket : Ticket) : Prop :=
  traffic.Unanswered kind ticket ∧ traffic.exchange.mail.letter ticket ≠ .abandoned

/-- A call that could not send finds its own listener when it takes the listener of its kind down.
    -/
def Spares (traffic : Traffic) : Turn → Prop
  | .withdraw ticket => traffic.progress? ticket = some .failing →
    ticket ∈ traffic.exchange.listeners.map Prod.snd
  | _ => True

instance (traffic : Traffic) : DecidablePred traffic.Spares
  | .withdraw _ => inferInstanceAs (Decidable (_ → _))
  | .enlist _ | .emit _ | .take _ | .takeJson _ | .hand _ | .act _ => isTrue trivial

/-- A reply comes only for a request that went out. -/
def Prompted (traffic : Traffic) (turn : Turn) : Prop :=
  ∀ reply ∈ turn.reply?, ∀ ticket ∈ traffic.exchange.listener? reply.request,
    traffic.progress? ticket = some .accepted

instance (traffic : Traffic) : DecidablePred traffic.Prompted := fun turn =>
  inferInstanceAs (Decidable (∀ reply ∈ turn.reply?,
    ∀ ticket ∈ traffic.exchange.listener? reply.request, traffic.progress? ticket = some .accepted))

/-- Every turn is as it should be where it comes. -/
def Along (should : Traffic → Turn → Prop) : Traffic → List Turn → Prop
  | _, [] => True
  | traffic, turn :: rest => should traffic turn ∧ Along should (traffic.step turn) rest

instance decidableAlong {should : Traffic → Turn → Prop}
    [hshould : ∀ traffic turn, Decidable (should traffic turn)] :
    (traffic : Traffic) → (turns : List Turn) → Decidable (Along should traffic turns)
  | _, [] => isTrue trivial
  | traffic, turn :: rest =>
    have : Decidable (Along should (traffic.step turn) rest) := decidableAlong _ _
    inferInstanceAs (Decidable (_ ∧ _))

/-! ### Books of a traffic -/

def kind? (traffic : Traffic) (ticket : Ticket) : Option Request :=
  (traffic.party? ticket).map Party.kind

/-- A reply of the kind reaches whoever waits at the ticket: a listener is up, or a reply is on its
    way. -/
def Reaches (traffic : Traffic) (kind : Request) (ticket : Ticket) : Prop :=
  (kind, ticket) ∈ traffic.exchange.listeners ∨
    ∃ reply, (ticket, reply) ∈ traffic.hands ∧ reply.request = kind

/-- All is well at a ticket: whoever is reached by replies waits for them, and whoever waits is
    reached; a listener is up or has been taken down by one reply; the holder has what the letter
    says, and is the call as long as that is under way. -/
structure Fine (traffic : Traffic) (ticket : Ticket) : Prop where
  waits : ∀ kind, traffic.Reaches kind ticket → traffic.kind? ticket = some kind ∧
    (traffic.exchange.mail.letter ticket = .awaited ∨
      traffic.exchange.mail.letter ticket = .discarded)
  heard : ∀ kind, traffic.kind? ticket = some kind →
    traffic.exchange.mail.letter ticket = .awaited → traffic.Reaches kind ticket
  apart : ∀ kind reply, (kind, ticket) ∈ traffic.exchange.listeners →
    (ticket, reply) ∉ traffic.hands
  answered : ∀ reply, traffic.exchange.mail.letter ticket = .answered reply →
    traffic.kind? ticket = some reply.request
  fits : ∀ party, traffic.party? ticket = some party →
    party.holder.Fits ticket (traffic.exchange.mail.letter ticket)
  underway : traffic.progress? ticket = some .sending ∨ traffic.progress? ticket = some .failing →
    ∃ kind, traffic.party? ticket = some ⟨kind, .held (.awaiting ticket)⟩

/-- All is well at every ticket, no two listeners are of one kind, and every request that was
    accepted was sent once. -/
structure Sound (traffic : Traffic) : Prop where
  mail : traffic.exchange.mail.length = traffic.parties.length
  calls : traffic.calls.length = traffic.parties.length
  keys : (traffic.exchange.listeners.map Prod.fst).Nodup
  hands : (traffic.hands.map Prod.fst).Nodup
  fine : ∀ ticket, traffic.Fine ticket
  once : ∃ order : List Ticket, order.Nodup ∧
    (∀ ticket, ticket ∈ order ↔ traffic.progress? ticket = some .accepted) ∧
    traffic.exchange.sent.map some = order.map traffic.kind?

/-! ### What a turn does -/

variable {traffic next : Traffic} {turn : Turn} {ticket other : Ticket} {kind : Request}
  {reply : Reply} {party : Party}

/-- With a new listener for the kind, whose call goes on to send. -/
def listed (traffic : Traffic) (kind : Request) : Traffic :=
  { traffic with
    exchange := traffic.exchange.listed kind
    parties := traffic.parties ++ [⟨kind, .held (.awaiting ⟨traffic.exchange.mail.length⟩)⟩]
    calls := traffic.calls ++ [.sending] }

def sent (traffic : Traffic) (ticket : Ticket) (kind : Request) : Traffic :=
  { traffic with
    exchange := { traffic.exchange with sent := traffic.exchange.sent ++ [kind] }
    calls := traffic.calls.set ticket.index .accepted }

def failed (traffic : Traffic) (ticket : Ticket) : Traffic :=
  { traffic with calls := traffic.calls.set ticket.index .failing }

def taken (traffic : Traffic) (ticket : Ticket) (reply : Reply) : Traffic :=
  { traffic with
    exchange := traffic.exchange.unlisten reply.request
    hands := traffic.hands ++ [(ticket, reply)] }

/-- What a turn makes of the traffic, if it can come at all. -/
inductive Effect (traffic : Traffic) : Turn → Traffic → Prop
  | idle (turn : Turn) : Effect traffic turn traffic
  | listed (kind : Request) (hlinked : traffic.linked = true)
      (hfree : ¬traffic.exchange.Busy kind) : Effect traffic (.enlist kind) (traffic.listed kind)
  | sent (ticket : Ticket) (party : Party) (hparty : traffic.party? ticket = some party)
      (hprogress : traffic.progress? ticket = some .sending)
      (hready : traffic.exchange.channelReady = true) :
      Effect traffic (.emit ticket) (traffic.sent ticket party.kind)
  | failed (ticket : Ticket) (hprogress : traffic.progress? ticket = some .sending)
      (hready : ¬traffic.exchange.channelReady = true) :
      Effect traffic (.emit ticket) (traffic.failed ticket)
  | withdrawn (ticket : Ticket) (party : Party) (hparty : traffic.party? ticket = some party)
      (hprogress : traffic.progress? ticket = some .failing) :
      Effect traffic (.withdraw ticket) (traffic.withdraw ticket party.kind)
  | taken (turn : Turn) (reply : Reply) (ticket : Ticket) (hreply : turn.reply? = some reply)
      (hlinked : traffic.linked = true)
      (hlistener : traffic.exchange.listener? reply.request = some ticket) :
      Effect traffic turn (traffic.taken ticket reply)
  | handed (ticket : Ticket) (reply : Reply) (hmem : (ticket, reply) ∈ traffic.hands) :
      Effect traffic (.hand ticket) (traffic.hand ticket reply)
  | acted (act : Act) (hallowed : traffic.allows act = true) :
      Effect traffic (.act act) { traffic with toDialogue := traffic.toDialogue.step act }

theorem exists_listed_of_spares (h : traffic.Spares (.withdraw ticket))
    (hprogress : traffic.progress? ticket = some .failing) :
    ∃ kind, (kind, ticket) ∈ traffic.exchange.listeners := by
  obtain ⟨⟨kind, _⟩, hmem, rfl⟩ := List.mem_map.1 (h hprogress)
  exact ⟨kind, hmem⟩

theorem enlist_of_busy (h : traffic.exchange.Busy kind) : traffic.enlist kind = traffic := by
  simp only [enlist, Exchange.enlist_of_busy h]

theorem enlist_of_free (h : ¬traffic.exchange.Busy kind) :
    traffic.enlist kind = traffic.listed kind := by
  simp only [enlist, Exchange.enlist_of_free h]
  rfl

theorem emit_of_ready (h : traffic.exchange.channelReady = true) :
    traffic.emit ticket kind = traffic.sent ticket kind := by
  simp only [emit, Exchange.emit_of_ready h]
  rfl

theorem emit_of_not_ready (h : ¬traffic.exchange.channelReady = true) :
    traffic.emit ticket kind = traffic.failed ticket := by
  simp only [emit, Exchange.emit_of_not_ready h]
  rfl

theorem take_of_listener? (h : traffic.exchange.listener? reply.request = some ticket) :
    traffic.take reply = traffic.taken ticket reply := by
  simp only [take, h]
  rfl

theorem effect_take (hreply : turn.reply? = some reply) (hlinked : traffic.linked = true) :
    traffic.Effect turn (traffic.take reply) := by
  cases hlistener : traffic.exchange.listener? reply.request with
  | none =>
    simp only [take, hlistener]
    exact .idle turn
  | some ticket =>
    rw [take_of_listener? hlistener]
    exact .taken turn reply ticket hreply hlinked hlistener

theorem effect_step (traffic : Traffic) (turn : Turn) :
    traffic.Effect turn (traffic.step turn) := by
  cases turn with
  | enlist kind =>
    by_cases hlinked : traffic.linked = true
    · by_cases hbusy : traffic.exchange.Busy kind
      · simp only [step, enlist_of_busy hbusy, ite_self]
        exact .idle _
      · simp only [step, enlist_of_free hbusy, if_pos hlinked]
        exact .listed kind hlinked hbusy
    · simp only [step, if_neg hlinked]
      exact .idle _
  | emit ticket =>
    simp only [step]
    split
    · rename_i party hparty hprogress
      by_cases hready : traffic.exchange.channelReady = true
      · rw [emit_of_ready hready]
        exact .sent ticket party hparty hprogress hready
      · rw [emit_of_not_ready hready]
        exact .failed ticket hprogress hready
    · exact .idle _
  | withdraw ticket =>
    simp only [step]
    split
    · rename_i party hparty hprogress
      exact .withdrawn ticket party hparty hprogress
    · exact .idle _
  | take reply =>
    simp only [step]
    split
    · exact effect_take rfl ‹_›
    · exact .idle _
  | takeJson text =>
    simp only [step]
    split
    · exact .idle _
    · rename_i reply hreply
      split
      · exact effect_take hreply ‹_›
      · exact .idle _
  | hand ticket =>
    simp only [step]
    split
    · exact .idle _
    · rename_i reply hlookup
      exact .handed ticket reply (mem_of_lookup hlookup)
  | act act =>
    simp only [step]
    split
    · exact .acted act ‹_›
    · exact .idle _

end Traffic

end Capabilities.Host
