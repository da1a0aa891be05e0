import Capabilities.Proofs.Host.InFlight

/-!
# What becomes of one request

Whoever has sent a request and does not let go of its reply can tell what becomes of it without
looking at the other requests: while the link is there the first reply of the kind answers it, the
end of the link leaves it without an answer, and nothing else touches its letter.
-/

namespace Capabilities.Host.Dialogue

variable {dialogue : Dialogue} {ticket : Ticket} {kind : Request} {act : Act} {reply : Reply}

/-- Only the end of the link takes it away. -/
theorem linked_step (hact : act ≠ .hangUp) : (dialogue.step act).linked = dialogue.linked := by
  cases act with
  | hangUp => exact absurd rfl hact
  | request kind =>
    simp only [step]
    split
    · split <;> rfl
    · rfl
  | deliver reply =>
    simp only [step]
    split <;> rfl
  | deliverJson text =>
    simp only [step]
    split <;> rfl
  | drop ticket =>
    simp only [step]
    split <;> rfl
  | _ => rfl

theorem linked_hangUp (dialogue : Dialogue) : ¬(dialogue.step .hangUp).linked = true := by
  intro hlinked
  have hbefore := linked_of_step hlinked
  simp only [step, hbefore, if_true] at hlinked
  cases hlinked

theorem exchange_step_request (hlinked : dialogue.linked = true) (kind : Request) :
    (dialogue.step (.request kind)).exchange = (dialogue.exchange.ask kind).2 := by
  simp only [step, hlinked, if_true]
  split
  · rename_i hask
    rw [hask]
  · rename_i hask
    rw [hask]

/-- A request of the kind waits for its reply, and the link that it may come by is there. -/
structure Waits (dialogue : Dialogue) (kind : Request) (ticket : Ticket) : Prop where
  linked : dialogue.linked = true
  awaits : dialogue.exchange.Awaits kind ticket

/-- A request that was just accepted waits for its reply. -/
theorem Consistent.waits_of_request (h : dialogue.Consistent) (hlinked : dialogue.linked = true)
    (haccepted : (dialogue.exchange.request kind).1 = .ok ticket) :
    (dialogue.step (.request kind)).Waits kind ticket := by
  refine ⟨(linked_step Act.noConfusion).trans hlinked, ?_⟩
  rw [exchange_step_request hlinked, Exchange.ask_eq]
  by_cases hout : ∃ other, dialogue.exchange.Awaits kind other
  · obtain ⟨other, hawaits⟩ := hout
    rw [h.books.request_of_awaits hawaits] at haccepted
    cases haccepted
  · rw [h.books.request_of_free (not_exists.1 hout)] at haccepted ⊢
    split at haccepted
    · cases haccepted
      rename_i hready
      rw [if_pos hready]
      refine ⟨?_, ?_⟩
      · rw [Exchange.kind?_accept h.books, if_pos rfl]
      · rw [Exchange.letter_accept, if_pos rfl]
    · cases haccepted

/-- The kind of a request that was accepted stays the same. -/
theorem Consistent.kind?_step (h : dialogue.Consistent)
    (hkind : dialogue.exchange.kind? ticket = some kind) (act : Act) :
    (dialogue.step act).exchange.kind? ticket = some kind := by
  rw [h.kind?_eq, Option.map_eq_some_iff] at hkind
  obtain ⟨party, hparty, rfl⟩ := hkind
  obtain ⟨next, hnext, hbecome⟩ := exists_become_step hparty act
  rw [(h.step act).kind?_eq, hnext, Option.map_some, hbecome.kind]

/-- What an act makes of the letter of a request whose reply is not let go of. -/
theorem Consistent.becomes_step (h : dialogue.Consistent)
    (hkind : dialogue.exchange.kind? ticket = some kind) (hact : act ≠ .drop ticket) :
    (dialogue.exchange.mail.letter ticket).Becomes
      ((dialogue.step act).exchange.mail.letter ticket) := by
  have hposts := h.posts act ticket
  generalize dialogue.exchange.mail.letter ticket = letter at hposts ⊢
  generalize (dialogue.step act).exchange.mail.letter ticket = next at hposts ⊢
  cases hposts with
  | same => exact Or.inl rfl
  | sent hnew =>
    rw [hnew] at hkind
    cases hkind
  | discarded hdrop => exact absurd hdrop hact
  | answered | abandoned => exact Or.inr ⟨rfl, Letter.noConfusion, Letter.noConfusion⟩

/-- A request goes on waiting as long as no reply of the kind comes and the link does not end. -/
theorem Consistent.waits_step (h : dialogue.Consistent) (hwaits : dialogue.Waits kind ticket)
    (hact : act ≠ .drop ticket) (hlink : act ≠ .hangUp)
    (hreply : ∀ reply, act.reply? = some reply → reply.request ≠ kind) :
    (dialogue.step act).Waits kind ticket := by
  obtain ⟨hlinked, hkind, hletter⟩ := hwaits
  refine ⟨(linked_step hlink).trans hlinked, h.kind?_step hkind act, ?_⟩
  have hposts := h.posts act ticket
  rw [hletter] at hposts
  generalize (dialogue.step act).exchange.mail.letter ticket = next at hposts ⊢
  cases hposts with
  | same => rfl
  | answered reply hbrought _ hawaits =>
    exact absurd (Option.some.inj (hawaits.1.symm.trans hkind)) (hreply reply hbrought)
  | discarded hdrop => exact absurd hdrop hact
  | abandoned hhang => exact absurd hhang hlink

/-- A reply of the kind answers a request that waits for it. -/
theorem Consistent.letter_of_reply (h : dialogue.Consistent)
    (hwaits : dialogue.Waits reply.request ticket) (hreply : act.reply? = some reply) :
    (dialogue.step act).exchange.mail.letter ticket = .answered reply := by
  have hdelivered : (dialogue.step (.deliver reply)).exchange.mail.letter ticket =
      .answered reply := by
    rw [h.step_deliver_of_awaits hwaits.linked hwaits.awaits]
    exact (Exchange.letter_answer ticket hwaits.awaits).trans (if_pos rfl)
  cases act with
  | deliver other =>
    cases hreply
    exact hdelivered
  | deliverJson text =>
    rw [step_deliverJson_some hreply]
    exact hdelivered
  | _ => cases hreply

/-- A letter without an answer gets none from an act that brings no reply of the kind, and none
    when the link is gone. -/
theorem Consistent.unanswered_step (h : dialogue.Consistent)
    (hkind : dialogue.exchange.kind? ticket = some kind)
    (hunanswered : ∀ reply, dialogue.exchange.mail.letter ticket ≠ .answered reply)
    (hact : dialogue.linked = true → ∀ reply, act.reply? = some reply → reply.request ≠ kind)
    (reply : Reply) : (dialogue.step act).exchange.mail.letter ticket ≠ .answered reply := by
  intro hanswered
  have hposts := h.posts act ticket
  rw [hanswered] at hposts
  generalize dialogue.exchange.mail.letter ticket = letter at hposts hunanswered
  cases hposts with
  | same => exact hunanswered reply rfl
  | answered _ hbrought hlinked hawaits =>
    exact hact hlinked reply hbrought (Option.some.inj (hawaits.1.symm.trans hkind))

end Capabilities.Host.Dialogue
