import Capabilities.Host.Message

/-!
# Requests and replies

An `Exchange` is a session's link to its host. Every accepted request gets a ticket, and the
letter at that ticket tells what became of it: still awaited, answered, abandoned because the link
is gone, or discarded because nobody waits for it any more. At most one listener of each kind
waits for a reply, and it leaves when the reply arrives.

Whoever holds a `PendingReply` looks at the letter of its ticket without blocking
(`PendingReply.poll`), so "not yet available" is a state like any other.
-/

namespace Capabilities.Host

/-! ### Letters -/

/-- The number of an accepted request. -/
structure Ticket where
  index : Nat
deriving DecidableEq, Repr

/-- What became of a request. -/
inductive Letter where
  | awaited
  | answered (reply : Reply)
  | abandoned
  | discarded
deriving DecidableEq, Repr

/-- The letters of all requests, by ticket. -/
abbrev Mail := List Letter

/-- The letter at a ticket. A ticket that was never handed out is as good as abandoned. -/
def Mail.letter (mail : Mail) (ticket : Ticket) : Letter := (mail[ticket.index]?).getD .abandoned

/-! ### The link -/

inductive LinkError where
  | inFlight (request : Request)
  | channelNotReady
  | droppedBeforeReply
  | unexpectedReply
  | replyFailed
deriving DecidableEq, Repr

def LinkError.message : LinkError → String
  | .inFlight request => "Request already in flight: " ++ request.name
  | .channelNotReady => "Host channel error: worker channel not ready"
  | .droppedBeforeReply => "Host channel error: request dropped before reply"
  | .unexpectedReply => "Host channel error: unexpected reply kind"
  | .replyFailed => "Host channel error: reply failed"

/-- The link to the host: whether its channel works, the requests that went out, who listens for
    which reply, and all letters. -/
structure Exchange where
  channelReady : Bool
  sent : List Request
  listeners : List (Request × Ticket)
  mail : Mail
deriving DecidableEq, Repr

namespace Exchange

/-- A link over a working channel, not used yet. -/
def initial : Exchange := ⟨true, [], [], []⟩

instance : Inhabited Exchange := ⟨initial⟩

def listener? (exchange : Exchange) (request : Request) : Option Ticket :=
  exchange.listeners.lookup request

def inFlight (exchange : Exchange) (request : Request) : Bool :=
  (exchange.listener? request).isSome

def unlisten (exchange : Exchange) (request : Request) : Exchange :=
  { exchange with listeners := exchange.listeners.filter (·.1 != request) }

def write (exchange : Exchange) (ticket : Ticket) (letter : Letter) : Exchange :=
  { exchange with mail := exchange.mail.set ticket.index letter }

/-- Put a listener for a kind of reply up. It is refused while one waits whose reply is still
    wanted, and takes the place of one whose reply nobody wants any more. -/
def enlist (exchange : Exchange) (request : Request) : Except LinkError Ticket × Exchange :=
  let busy := match exchange.listener? request with
    | some ticket => exchange.mail.letter ticket != Letter.discarded
    | none => false
  if busy then (.error (.inFlight request), exchange)
  else
    let exchange := exchange.unlisten request
    let ticket : Ticket := ⟨exchange.mail.length⟩
    (.ok ticket,
      { exchange with
        listeners := exchange.listeners ++ [(request, ticket)]
        mail := exchange.mail ++ [.awaited] })

def emit (exchange : Exchange) (request : Request) : Bool × Exchange :=
  if exchange.channelReady then (true, { exchange with sent := exchange.sent ++ [request] })
  else (false, exchange)

/-- Take the listener for a kind of reply down, whoever it is. What it waits for never comes. -/
def withdraw (exchange : Exchange) (request : Request) : Exchange :=
  match exchange.listener? request with
  | none => exchange
  | some ticket =>
    let exchange := exchange.unlisten request
    if exchange.mail.letter ticket == Letter.awaited then exchange.write ticket .abandoned
    else exchange

/-- Send a request, with nobody coming in between: a listener is put up, the request goes out, and
    if it cannot the listener is taken down. Nobody has seen the ticket then, so it is given to the
    next request. -/
def request (exchange : Exchange) (request : Request) : Except LinkError Ticket × Exchange :=
  match exchange.enlist request with
  | (.error error, exchange) => (.error error, exchange)
  | (.ok ticket, enlisted) =>
    match enlisted.emit request with
    | (true, exchange) => (.ok ticket, exchange)
    | (false, failed) =>
      (.error .channelNotReady, { failed.withdraw request with mail := exchange.mail })

/-- Hand a reply to whoever waits at a ticket; whether it was still wanted. -/
def hand (exchange : Exchange) (ticket : Ticket) (reply : Reply) : Bool × Exchange :=
  if exchange.mail.letter ticket == Letter.awaited then
    (true, exchange.write ticket (.answered reply))
  else (false, exchange)

/-- Take the listener for a reply down and hand the reply to it; whether it was still wanted. A
    reply that nobody waits for is dropped. -/
def deliver (exchange : Exchange) (reply : Reply) : Bool × Exchange :=
  match exchange.listener? reply.request with
  | none => (false, exchange)
  | some ticket => (exchange.unlisten reply.request).hand ticket reply

/-- Deliver a reply written as JSON; none if the text is no reply. -/
def deliverJson (exchange : Exchange) (text : String) : Option Bool × Exchange :=
  match (Json.Value.parse? text).bind Reply.ofJson? with
  | none => (none, exchange)
  | some reply =>
    let (wanted, exchange) := exchange.deliver reply
    (some wanted, exchange)

/-- Give the reply of a request up. -/
def discard (exchange : Exchange) (ticket : Ticket) : Exchange :=
  if exchange.mail.letter ticket == Letter.awaited then exchange.write ticket .discarded
  else exchange

/-- Give the link up: every reply still awaited will never come. -/
def hangUp (exchange : Exchange) : Exchange :=
  { exchange with
    listeners := []
    mail := exchange.mail.map fun letter =>
      if letter == Letter.awaited then .abandoned else letter }

end Exchange

/-! ### Pending replies -/

class Payload (α : Type) where
  /-- The kind of request that asks for it. -/
  request : Request
  /-- The payload of a reply of that kind. -/
  ofReply? : Reply → Option α

instance : Payload CapabilityPaths where
  request := .paths
  ofReply?
    | .paths table => some table
    | .plugins _ => none

instance : Payload (List PluginInfo) where
  request := .plugins
  ofReply?
    | .plugins list => some list
    | .paths _ => none

inductive ReplyState (α : Type) where
  | notYetAvailable
  | ready (value : α)
  | failed
deriving DecidableEq, Repr

def ReplyState.value? {α : Type} : ReplyState α → Option α
  | .ready value => some value
  | _ => none

/-- A reply that may not have arrived yet: what is known about it, and the ticket to look at as
    long as nothing is. -/
structure PendingReply (α : Type) where
  state : ReplyState α
  ticket : Option Ticket
deriving DecidableEq, Repr

namespace PendingReply

variable {α : Type}

def awaiting (ticket : Ticket) : PendingReply α := ⟨.notYetAvailable, some ticket⟩

def known (value : α) : PendingReply α := ⟨.ready value, none⟩

/-- Look whether the reply has arrived. What is known once stays known. -/
def poll [Payload α] (mail : Mail) (pending : PendingReply α) : PendingReply α :=
  match pending.ticket with
  | none => pending
  | some ticket =>
    match mail.letter ticket with
    | .awaited | .discarded => pending
    | .answered reply =>
      match Payload.ofReply? reply with
      | some value => ⟨.ready value, none⟩
      | none => ⟨.failed, none⟩
    | .abandoned => ⟨.failed, none⟩

/-- What waiting for a reply comes to when it is asked once. -/
inductive Outcome (α : Type) where
  | pending
  | done (result : Except LinkError α)

/-- Ask for the reply once and let go of it. -/
def wait [Payload α] (exchange : Exchange) (pending : PendingReply α) : Outcome α × Exchange :=
  match pending.ticket with
  | some ticket =>
    match exchange.mail.letter ticket with
    | .awaited | .discarded => (.pending, exchange.discard ticket)
    | .answered reply =>
      match Payload.ofReply? reply with
      | some value => (.done (.ok value), exchange)
      | none => (.done (.error .unexpectedReply), exchange)
    | .abandoned => (.done (.error .droppedBeforeReply), exchange)
  | none =>
    match pending.state with
    | .ready value => (.done (.ok value), exchange)
    | _ => (.done (.error .replyFailed), exchange)

def drop (exchange : Exchange) (pending : PendingReply α) : Exchange :=
  match pending.ticket with
  | some ticket => exchange.discard ticket
  | none => exchange

end PendingReply

def Exchange.requestPaths (exchange : Exchange) :
    Except LinkError (PendingReply CapabilityPaths) × Exchange :=
  let (ticket, exchange) := exchange.request .paths
  (ticket.map .awaiting, exchange)

def Exchange.requestPlugins (exchange : Exchange) :
    Except LinkError (PendingReply (List PluginInfo)) × Exchange :=
  let (ticket, exchange) := exchange.request .plugins
  (ticket.map .awaiting, exchange)

/-! ### The path table as far as it has arrived -/

inductive PathLookup where
  | found (path : String)
  | missing
  | notYetAvailable
deriving DecidableEq, Repr

/-- The host's path table: not asked for, or as far as the reply has arrived. -/
inductive PathTable where
  | notRequested
  | requested (reply : PendingReply CapabilityPaths)
deriving DecidableEq, Repr

namespace PathTable

def fixed (paths : CapabilityPaths) : PathTable := .requested (.known paths)

def poll (mail : Mail) : PathTable → PathTable
  | .notRequested => .notRequested
  | .requested reply => .requested (reply.poll mail)

def paths? : PathTable → Option CapabilityPaths
  | .notRequested => none
  | .requested reply => reply.state.value?

/-- What the table, as it was at the last look, says about a capability. -/
def resolve (table : PathTable) (name : String) : PathLookup :=
  match table.paths? with
  | none => .notYetAvailable
  | some paths =>
    match paths.get? name with
    | some path => .found path
    | none => .missing

end PathTable

end Capabilities.Host
