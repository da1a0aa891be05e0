import Mathlib.Data.List.Induction
import Mathlib.Tactic.ByContra
import Capabilities.Proofs.Host.Dialogue

/-!
# The protocol of a link

Whatever is done with a link and with the replies to its requests, and in whatever order: of each
kind at most one request is outstanding, a request is refused as in flight exactly while one is, a
reply is wanted exactly while one is, and then it reaches the holder of that request and nobody
else.

The invariant that carries this is that the link is consistent and that every holder has what the
letter at its ticket says. Each act keeps it, and so does every run.
-/

namespace Capabilities.Host

namespace Dialogue

variable {dialogue : Dialogue} {ticket other : Ticket} {kind : Request} {reply : Reply}
  {exchange : Exchange} {party : Party}

/-- The link is consistent, and everybody has what the letter at the ticket says. -/
structure Consistent (dialogue : Dialogue) : Prop where
  books : dialogue.exchange.Consistent
  kinds : dialogue.exchange.sent = dialogue.parties.map Party.kind
  fits : ∀ ticket party, dialogue.party? ticket = some party →
    party.holder.Fits ticket (dialogue.exchange.mail.letter ticket)
  live : dialogue.linked = true → dialogue.exchange.Live

theorem Consistent.kind?_eq (h : dialogue.Consistent) (ticket : Ticket) :
    dialogue.exchange.kind? ticket = (dialogue.party? ticket).map Party.kind := by
  unfold Exchange.kind? party?
  rw [h.kinds, List.getElem?_map]

theorem Consistent.length_eq (h : dialogue.Consistent) :
    dialogue.exchange.mail.length = dialogue.parties.length := by
  rw [h.books.length, h.kinds, List.length_map]

/-! ### Outstanding requests -/

/-- The letter of an outstanding request is open. -/
theorem Consistent.isOpen_of_outstanding (h : dialogue.Consistent)
    (hout : dialogue.Outstanding kind ticket) :
    dialogue.exchange.kind? ticket = some kind ∧
      (dialogue.exchange.mail.letter ticket).IsOpen := by
  obtain ⟨party, hparty, rfl, hheld, hunanswered⟩ := hout
  refine ⟨by rw [h.kind?_eq, hparty]; rfl, ?_⟩
  have hwanted := (h.fits ticket party hparty).ne_discarded hheld
  cases hletter : dialogue.exchange.mail.letter ticket with
  | awaited => exact Or.inl rfl
  | abandoned => exact Or.inr rfl
  | discarded => exact absurd hletter hwanted
  | answered reply => exact absurd hletter (hunanswered reply)

/-- While the link is there, the outstanding requests are those that the link awaits. -/
theorem Consistent.outstanding_iff (h : dialogue.Consistent) (hlinked : dialogue.linked = true) :
    dialogue.Outstanding kind ticket ↔ dialogue.exchange.Awaits kind ticket := by
  constructor
  · intro hout
    obtain ⟨hkind, hopen⟩ := h.isOpen_of_outstanding hout
    exact ⟨hkind, (h.live hlinked).awaited_of_isOpen hkind hopen⟩
  · rintro ⟨hkind, hawaited⟩
    rw [h.kind?_eq] at hkind
    obtain ⟨party, hparty, rfl⟩ := Option.map_eq_some_iff.1 hkind
    have hfits := h.fits ticket party hparty
    rw [hawaited] at hfits
    exact ⟨party, hparty, rfl, hfits.isHeld_of_awaited,
      fun reply => by rw [hawaited]; exact Letter.noConfusion⟩

theorem Consistent.free_iff (h : dialogue.Consistent) (hlinked : dialogue.linked = true) :
    (¬∃ ticket, dialogue.Outstanding kind ticket) ↔
      ∀ ticket, ¬dialogue.exchange.Awaits kind ticket := by
  simp only [h.outstanding_iff hlinked, not_exists]

/-- A holder that has what its letter says and has not let go sees a reply exactly if it is the one
    in the letter. -/
theorem observes_iff_of_fits
    (hfits : ∀ party, dialogue.party? ticket = some party →
      party.holder.Fits ticket (dialogue.exchange.mail.letter ticket))
    (hanswered : dialogue.exchange.mail.letter ticket = .answered reply →
      (dialogue.party? ticket).map Party.kind = some reply.request) :
    dialogue.Observes ticket reply ↔
      (∃ party, dialogue.party? ticket = some party ∧ party.holder ≠ .dropped) ∧
        dialogue.exchange.mail.letter ticket = .answered reply := by
  constructor
  · rintro ⟨party, value, hparty, hvalue, hreply⟩
    have hheld : party.holder ≠ .dropped := by
      intro hdropped
      rw [hdropped] at hvalue
      cases hvalue
    refine ⟨⟨party, hparty, hheld⟩, ?_⟩
    rw [(hfits party hparty).observed? hheld] at hvalue
    cases hletter : dialogue.exchange.mail.letter ticket with
    | answered found =>
      rw [hletter] at hvalue
      simp only [Letter.shown] at hvalue
      split at hvalue
      · rename_i hfound
        cases hvalue
        rw [ofReply?_injective hfound hreply]
      · cases hvalue
    | _ => rw [hletter] at hvalue; cases hvalue
  · rintro ⟨⟨party, hparty, hheld⟩, hletter⟩
    have hkind := hanswered hletter
    rw [hparty] at hkind
    obtain ⟨value, hvalue⟩ := exists_ofReply?_iff.2 (Option.some.inj hkind).symm
    refine ⟨party, value, hparty, ?_, hvalue⟩
    rw [(hfits party hparty).observed? hheld, hletter]
    simp only [Letter.shown, hvalue]
    rfl

theorem Consistent.observes_iff (h : dialogue.Consistent) :
    dialogue.Observes ticket reply ↔
      (∃ party, dialogue.party? ticket = some party ∧ party.holder ≠ .dropped) ∧
        dialogue.exchange.mail.letter ticket = .answered reply :=
  observes_iff_of_fits (h.fits ticket) fun hletter =>
    (h.kind?_eq ticket).symm.trans (h.books.answered ticket reply hletter)

/-! ### What an act does -/

theorem party?_change (next : (kind : Request) → Holder kind.Content → Holder kind.Content) :
    (dialogue.change ticket next).party? other =
      if other = ticket then
        (dialogue.party? other).map fun party => ⟨party.kind, next party.kind party.holder⟩
      else dialogue.party? other := by
  obtain ⟨index⟩ := ticket
  obtain ⟨position⟩ := other
  simp only [change, party?, Ticket.mk.injEq, List.getElem?_modify, eq_comm (a := index)]
  split <;> simp

theorem kinds_change (next : (kind : Request) → Holder kind.Content → Holder kind.Content) :
    (dialogue.change ticket next).parties.map Party.kind = dialogue.parties.map Party.kind := by
  refine List.ext_getElem? fun index => ?_
  simp only [Dialogue.change, List.getElem?_map, List.getElem?_modify]
  cases dialogue.parties[index]? with
  | none => rfl
  | some party =>
    simp only [Option.map_eq_map, Option.map_some]
    split <;> rfl

theorem Consistent.step_request_of_awaits (h : dialogue.Consistent)
    (hawaits : dialogue.exchange.Awaits kind ticket) :
    dialogue.step (.request kind) = dialogue := by
  simp only [step, Exchange.ask_eq, h.books.request_of_awaits hawaits]
  exact ite_self _

theorem Consistent.step_request_of_free (h : dialogue.Consistent) (hlinked : dialogue.linked = true)
    (hfree : ∀ ticket, ¬dialogue.exchange.Awaits kind ticket) :
    dialogue.step (.request kind) =
      if dialogue.exchange.channelReady then
        { dialogue with
          exchange := dialogue.exchange.accept kind
          parties := dialogue.parties ++ [⟨kind, .held (.awaiting ⟨dialogue.parties.length⟩)⟩] }
      else { dialogue with exchange := dialogue.exchange.unlisten kind } := by
  simp only [step, Exchange.ask_eq, h.books.request_of_free hfree, hlinked, if_true, ← h.length_eq]
  cases dialogue.exchange.channelReady <;> rfl

theorem Consistent.step_deliver_of_awaits (h : dialogue.Consistent)
    (hlinked : dialogue.linked = true) (hawaits : dialogue.exchange.Awaits reply.request ticket) :
    dialogue.step (.deliver reply) =
      { dialogue with exchange := dialogue.exchange.answer ticket reply } := by
  simp only [step, h.books.deliver_of_awaits hawaits, hlinked, if_true]

theorem Consistent.step_deliver_of_free (h : dialogue.Consistent)
    (hlinked : dialogue.linked = true)
    (hfree : ∀ ticket, ¬dialogue.exchange.Awaits reply.request ticket) :
    dialogue.step (.deliver reply) =
      { dialogue with exchange := dialogue.exchange.unlisten reply.request } := by
  simp only [step, h.books.deliver_of_free hfree, hlinked, if_true]

theorem step_deliverJson_none {text : String} (h : Reply.ofText? text = none) :
    dialogue.step (.deliverJson text) = dialogue := by
  simp only [step, Exchange.deliverJson_eq_none h]
  exact ite_self _

theorem step_deliverJson_some {text : String} (h : Reply.ofText? text = some reply) :
    dialogue.step (.deliverJson text) = dialogue.step (.deliver reply) := by
  simp only [step, Exchange.deliverJson_eq_some h]

theorem Consistent.step_drop (h : dialogue.Consistent)
    (hparty : dialogue.party? ticket = some party) :
    dialogue.step (.drop ticket) =
      { dialogue with exchange := dialogue.exchange.discard ticket }.change ticket
        fun _ => Holder.drop := by
  simp only [step, hparty, (h.fits ticket party hparty).release.1]

theorem release_resume_waiting (pending : PendingReply kind.Content) :
    (Holder.resume exchange (.waiting pending)).release exchange = (pending.wait exchange).2 := by
  obtain ⟨state, ticket⟩ := pending
  cases ticket with
  | none => cases state <;> rfl
  | some ticket =>
    simp only [Holder.resume, PendingReply.wait]
    cases exchange.mail.letter ticket with
    | awaited => rfl
    | discarded => rfl
    | abandoned => rfl
    | answered reply =>
      simp only
      cases Payload.ofReply? (α := kind.Content) reply <;> rfl

/-- To ask a reply once and let go of it is to begin a wait, to ask it and to let go of it. -/
theorem exchange_run_wait {pending : PendingReply kind.Content}
    (hparty : dialogue.party? ticket = some ⟨kind, .held pending⟩) :
    (dialogue.run [.wait ticket, .resume ticket, .drop ticket]).exchange =
      (pending.wait dialogue.exchange).2 := by
  have hresumed : ((dialogue.step (.wait ticket)).step (.resume ticket)).party? ticket =
      some ⟨kind, Holder.resume dialogue.exchange (.waiting pending)⟩ := by
    simp only [step, party?_change, hparty, if_true]
    rfl
  rw [← release_resume_waiting]
  simp only [run, List.foldl_cons, List.foldl_nil]
  generalize hbefore : (dialogue.step (.wait ticket)).step (.resume ticket) = before at hresumed ⊢
  have hexchange : before.exchange = dialogue.exchange := by
    rw [← hbefore]
    rfl
  simp only [step, hresumed, hexchange]
  rfl

/-! ### Keeping the dialogue consistent -/

theorem Consistent.withExchange (h : dialogue.Consistent) (hbooks : exchange.Consistent)
    (hsent : exchange.sent = dialogue.exchange.sent)
    (hletters : ∀ ticket,
      (dialogue.exchange.mail.letter ticket).Becomes (exchange.mail.letter ticket))
    {linked : Bool} (hlive : linked = true → exchange.Live) :
    Consistent ⟨exchange, linked, dialogue.parties⟩ :=
  ⟨hbooks, hsent.trans h.kinds,
    fun ticket party hparty => (h.fits ticket party hparty).becomes (hletters ticket), hlive⟩

theorem Consistent.change (h : dialogue.Consistent)
    {next : (kind : Request) → Holder kind.Content → Holder kind.Content}
    (hnext : ∀ (kind : Request) (holder : Holder kind.Content),
      holder.Fits ticket (dialogue.exchange.mail.letter ticket) →
        (next kind holder).Fits ticket (dialogue.exchange.mail.letter ticket)) :
    (dialogue.change ticket next).Consistent := by
  refine ⟨h.books, h.kinds.trans (kinds_change next).symm, ?_, h.live⟩
  · intro other party hparty
    rw [party?_change] at hparty
    split at hparty
    · rename_i heq
      obtain ⟨before, hbefore, rfl⟩ := Option.map_eq_some_iff.1 hparty
      rw [heq] at hbefore ⊢
      exact hnext _ _ (h.fits ticket before hbefore)
    · exact h.fits other party hparty

theorem Consistent.accept (h : dialogue.Consistent) (hlinked : dialogue.linked = true)
    (hfree : ∀ ticket, ¬dialogue.exchange.Awaits kind ticket) :
    Consistent { dialogue with
      exchange := dialogue.exchange.accept kind
      parties := dialogue.parties ++ [⟨kind, .held (.awaiting ⟨dialogue.parties.length⟩)⟩] } := by
  refine ⟨h.books.accept (h.live hlinked) hfree, ?_, ?_, fun _ => (h.live hlinked).accept h.books⟩
  · simp only [Exchange.accept, h.kinds, List.map_append, List.map_cons, List.map_nil]
  · intro ticket party hparty
    change (dialogue.parties ++ _)[ticket.index]? = some party at hparty
    change party.holder.Fits ticket ((dialogue.exchange.accept kind).mail.letter ticket)
    rw [Exchange.letter_accept, h.length_eq]
    rcases Nat.lt_trichotomy ticket.index dialogue.parties.length with hlt | heq | hgt
    · rw [List.getElem?_append_left hlt] at hparty
      rw [if_neg (by rintro rfl; exact Nat.lt_irrefl _ hlt)]
      exact h.fits ticket party hparty
    · rw [heq, List.getElem?_concat_length] at hparty
      cases hparty
      have hticket : ticket = ⟨dialogue.parties.length⟩ := by rw [← heq]
      rw [if_pos hticket, hticket]
      exact Or.inl ⟨rfl, Letter.noConfusion⟩
    · rw [List.getElem?_eq_none (by simp; omega)] at hparty
      cases hparty

theorem Consistent.drop (h : dialogue.Consistent) :
    Consistent ({ dialogue with exchange := dialogue.exchange.discard ticket }.change ticket
      fun _ => Holder.drop) := by
  refine ⟨h.books.discard, ?_, ?_, fun hlinked => (h.live hlinked).discard⟩
  · rw [kinds_change]
    exact Exchange.sent_discard.trans h.kinds
  · intro other party hparty
    rw [party?_change] at hparty
    change party.holder.Fits other ((dialogue.exchange.discard ticket).mail.letter other)
    split at hparty
    · rename_i heq
      obtain ⟨before, hbefore, rfl⟩ := Option.map_eq_some_iff.1 hparty
      rw [heq] at hbefore ⊢
      exact (h.fits ticket before hbefore).release.2
    · rename_i hne
      rw [Exchange.letter_discard, if_neg fun heq => hne heq.1]
      exact h.fits other party hparty

theorem consistent_initial : initial.Consistent := by
  have hkind : ∀ ticket, Exchange.initial.kind? ticket = none := fun _ => rfl
  refine ⟨⟨rfl, List.nodup_nil, ?_, ?_, ?_, ?_⟩, rfl, ?_, ?_⟩
  · intro kind ticket hmem
    cases hmem
  · intro kind ticket h
    cases h
  · intro kind first second h
    cases h
  · intro ticket reply h
    cases h
  · intro ticket party h
    cases h
  · intro _ kind ticket h
    cases h

theorem Consistent.deliver (h : dialogue.Consistent) (reply : Reply) :
    (dialogue.step (.deliver reply)).Consistent := by
  by_cases hlinked : dialogue.linked = true
  · by_cases hout : ∃ ticket, dialogue.exchange.Awaits reply.request ticket
    · obtain ⟨ticket, hawaits⟩ := hout
      rw [h.step_deliver_of_awaits hlinked hawaits]
      refine h.withExchange (h.books.answer hawaits) rfl ?_ fun hl => (h.live hl).answer hawaits
      intro other
      rw [Exchange.letter_answer other hawaits]
      split
      · rename_i heq
        rw [heq]
        exact Or.inr ⟨hawaits.2, Letter.noConfusion, Letter.noConfusion⟩
      · exact Or.inl rfl
    · have hfree := not_exists.1 hout
      rw [h.step_deliver_of_free hlinked hfree]
      exact h.withExchange (h.books.unlisten hfree) rfl (fun _ => Or.inl rfl) h.live
  · simp only [Dialogue.step, if_neg hlinked]
    exact h

theorem Consistent.request (h : dialogue.Consistent) (kind : Request) :
    (dialogue.step (.request kind)).Consistent := by
  by_cases hlinked : dialogue.linked = true
  · by_cases hout : ∃ ticket, dialogue.exchange.Awaits kind ticket
    · obtain ⟨ticket, hawaits⟩ := hout
      rw [h.step_request_of_awaits hawaits]
      exact h
    · have hfree := not_exists.1 hout
      rw [h.step_request_of_free hlinked hfree]
      split
      · exact h.accept hlinked hfree
      · exact h.withExchange (h.books.unlisten hfree) rfl (fun _ => Or.inl rfl) h.live
  · simp only [Dialogue.step, if_neg hlinked]
    exact h

/-- Hanging up abandons what was awaited and touches nothing else. -/
theorem Consistent.hangUp (h : dialogue.Consistent) : (dialogue.step .hangUp).Consistent := by
  by_cases hlinked : dialogue.linked = true
  · simp only [Dialogue.step, if_pos hlinked]
    refine h.withExchange h.books.hangUp rfl ?_ fun hl => by cases hl
    intro ticket
    rw [Exchange.letter_hangUp]
    split
    · exact Or.inr ⟨‹_›, Letter.noConfusion, Letter.noConfusion⟩
    · exact Or.inl rfl
  · simp only [Dialogue.step, if_neg hlinked]
    exact h

/-- Every act leaves the dialogue consistent. -/
theorem Consistent.step (h : dialogue.Consistent) (act : Act) : (dialogue.step act).Consistent := by
  cases act with
  | request kind => exact h.request kind
  | deliver reply => exact h.deliver reply
  | deliverJson text =>
    cases htext : Reply.ofText? text with
    | none =>
      rw [step_deliverJson_none htext]
      exact h
    | some reply =>
      rw [step_deliverJson_some htext]
      exact h.deliver reply
  | poll ticket => exact h.change fun _ _ hfits => hfits.poll
  | wait ticket => exact h.change fun _ _ hfits => hfits.wait
  | resume ticket => exact h.change fun _ _ hfits => hfits.resume
  | drop ticket =>
    cases hparty : dialogue.party? ticket with
    | none =>
      simp only [Dialogue.step, hparty]
      exact h
    | some party =>
      rw [h.step_drop hparty]
      exact h.drop
  | setChannel ready =>
    have hbooks : Exchange.Consistent { dialogue.exchange with channelReady := ready } :=
      ⟨h.books.length, h.books.keys, h.books.listening, h.books.heard, h.books.single,
        h.books.answered⟩
    exact h.withExchange hbooks rfl (fun _ => Or.inl rfl) h.live
  | hangUp => exact h.hangUp

theorem Consistent.run (h : dialogue.Consistent) (acts : List Act) :
    (dialogue.run acts).Consistent := by
  induction acts generalizing dialogue with
  | nil => exact h
  | cons act rest ih => exact ih (h.step act)

theorem run_append (dialogue : Dialogue) (first second : List Act) :
    dialogue.run (first ++ second) = (dialogue.run first).run second :=
  List.foldl_append

/-! ### What stays -/

/-- A link that is gone stays gone. -/
theorem linked_of_step {act : Act} (h : (dialogue.step act).linked = true) :
    dialogue.linked = true := by
  by_contra hlinked
  refine hlinked (Eq.trans ?_ h)
  cases act with
  | drop ticket =>
    simp only [step]
    split <;> rfl
  | _ => simp only [step, if_neg hlinked, change]

/-- What may become of a party: who holds the reply afterwards has held it before, and unless it
    may let go it keeps what it has. -/
structure Become (party next : Party) (letsGo : Prop) : Prop where
  kind : next.kind = party.kind
  held : next.holder.IsHeld → party.holder.IsHeld
  kept : ¬letsGo → party.holder ≠ .dropped → next.holder ≠ .dropped

theorem Become.refl (party : Party) (letsGo : Prop) : Become party party letsGo :=
  ⟨rfl, id, fun _ h => h⟩

/-- What an act makes of the parties: it leaves them alone, adds one, or changes what one of them
    holds. -/
theorem parties_step (dialogue : Dialogue) (act : Act) :
    (dialogue.step act).parties = dialogue.parties ∨
      (∃ kind holder, act = .request kind ∧
        (dialogue.step act).parties = dialogue.parties ++ [⟨kind, holder⟩]) ∨
      ∃ (ticket : Ticket) (next : (kind : Request) → Holder kind.Content → Holder kind.Content),
        (dialogue.step act).parties = (dialogue.change ticket next).parties ∧
        (∀ kind (holder : Holder kind.Content), (next kind holder).IsHeld → holder.IsHeld) ∧
        (act ≠ .drop ticket → ∀ kind (holder : Holder kind.Content),
          next kind holder = .dropped → holder = .dropped) := by
  cases act with
  | request kind =>
    simp only [step]
    split
    · split
      · exact Or.inr (Or.inl ⟨kind, _, rfl, rfl⟩)
      · exact Or.inl rfl
    · exact Or.inl rfl
  | deliver reply =>
    left
    simp only [step]
    split <;> rfl
  | deliverJson text =>
    left
    simp only [step]
    split <;> rfl
  | poll ticket =>
    exact Or.inr (Or.inr ⟨ticket, _, rfl, fun _ _ => Holder.isHeld_of_poll,
      fun _ _ _ => Holder.poll_eq_dropped.1⟩)
  | wait ticket =>
    exact Or.inr (Or.inr ⟨ticket, _, rfl, fun _ _ => Holder.isHeld_of_wait,
      fun _ _ _ => Holder.wait_eq_dropped.1⟩)
  | resume ticket =>
    exact Or.inr (Or.inr ⟨ticket, _, rfl, fun _ _ => Holder.isHeld_of_resume,
      fun _ _ _ => Holder.resume_eq_dropped.1⟩)
  | drop ticket =>
    simp only [step]
    split
    · exact Or.inl rfl
    · exact Or.inr (Or.inr ⟨ticket, _, rfl, fun _ _ => Holder.isHeld_of_drop,
        fun hgo => absurd rfl hgo⟩)
  | setChannel ready => exact Or.inl rfl
  | hangUp =>
    left
    simp only [step]
    split <;> rfl

theorem party?_of_parties {first second : Dialogue} (h : second.parties = first.parties)
    (ticket : Ticket) : second.party? ticket = first.party? ticket := by
  unfold party?
  rw [h]

/-- A party stays, and what it holds it keeps unless it lets go. -/
theorem exists_become_step (hparty : dialogue.party? ticket = some party) (act : Act) :
    ∃ next, (dialogue.step act).party? ticket = some next ∧
      Become party next (act = .drop ticket) := by
  rcases parties_step dialogue act with
    hsame | ⟨kind, holder, -, hadded⟩ | ⟨other, next, hchanged, hheld, hkept⟩
  · exact ⟨party, (party?_of_parties hsame ticket).trans hparty, .refl _ _⟩
  · have hlt : ticket.index < dialogue.parties.length := (List.getElem?_eq_some_iff.1 hparty).1
    refine ⟨party, ?_, .refl _ _⟩
    unfold party?
    rw [hadded, List.getElem?_append_left hlt]
    exact hparty
  · rw [party?_of_parties hchanged, party?_change, hparty]
    split
    · rename_i heq
      rw [← heq] at hkept
      exact ⟨_, rfl, rfl, hheld _ _, fun hgo hne h => hne (hkept hgo _ _ h)⟩
    · exact ⟨party, rfl, .refl _ _⟩

/-- Only a request makes a party. -/
theorem eq_request_of_party?_step {act : Act} (hnone : dialogue.party? ticket = none)
    (hparty : (dialogue.step act).party? ticket = some party) : act = .request party.kind := by
  rcases parties_step dialogue act with
    hsame | ⟨kind, holder, hact, hadded⟩ | ⟨other, next, hchanged, -, -⟩
  · rw [party?_of_parties hsame, hnone] at hparty
    cases hparty
  · have hle : dialogue.parties.length ≤ ticket.index := List.getElem?_eq_none_iff.1 hnone
    unfold party? at hparty
    rw [hadded, List.getElem?_append_right hle, List.getElem?_singleton] at hparty
    split at hparty
    · cases hparty
      exact hact
    · cases hparty
  · rw [party?_of_parties hchanged, party?_change, hnone] at hparty
    split at hparty <;> cases hparty

/-- What an act makes of the letter at a ticket. -/
inductive Posts (dialogue : Dialogue) (act : Act) (ticket : Ticket) : Letter → Letter → Prop where
  | same (letter : Letter) : Posts dialogue act ticket letter letter
  | sent (hnew : dialogue.exchange.kind? ticket = none) :
      Posts dialogue act ticket .abandoned .awaited
  | answered (reply : Reply) (hreply : act.reply? = some reply) (hlinked : dialogue.linked = true)
      (hawaits : dialogue.exchange.Awaits reply.request ticket) :
      Posts dialogue act ticket .awaited (.answered reply)
  | discarded (hact : act = .drop ticket) : Posts dialogue act ticket .awaited .discarded
  | abandoned (hact : act = .hangUp) : Posts dialogue act ticket .awaited .abandoned

theorem Consistent.posts_reply (h : dialogue.Consistent) {act : Act} (ticket : Ticket)
    (hreply : act.reply? = some reply) :
    Posts dialogue act ticket (dialogue.exchange.mail.letter ticket)
      ((dialogue.step (.deliver reply)).exchange.mail.letter ticket) := by
  by_cases hlinked : dialogue.linked = true
  · by_cases hout : ∃ other, dialogue.exchange.Awaits reply.request other
    · obtain ⟨other, hawaits⟩ := hout
      rw [h.step_deliver_of_awaits hlinked hawaits]
      simp only [Exchange.letter_answer ticket hawaits]
      split
      · rename_i heq
        rw [← heq] at hawaits
        rw [hawaits.2]
        exact .answered reply hreply hlinked hawaits
      · exact .same _
    · rw [h.step_deliver_of_free hlinked (not_exists.1 hout)]
      exact .same _
  · simp only [Dialogue.step, if_neg hlinked]
    exact .same _

theorem Consistent.posts_request (h : dialogue.Consistent) (ticket : Ticket) (kind : Request) :
    Posts dialogue (.request kind) ticket (dialogue.exchange.mail.letter ticket)
      ((dialogue.step (.request kind)).exchange.mail.letter ticket) := by
  by_cases hlinked : dialogue.linked = true
  · by_cases hout : ∃ other, dialogue.exchange.Awaits kind other
    · obtain ⟨other, hawaits⟩ := hout
      rw [h.step_request_of_awaits hawaits]
      exact .same _
    · rw [h.step_request_of_free hlinked (not_exists.1 hout)]
      split
      · simp only [Exchange.letter_accept]
        split
        · rename_i heq
          -- the ticket is the one that is given out now: nothing has been written to it
          have hnone : dialogue.exchange.mail.letter ticket = .abandoned := by
            rw [heq, Mail.letter, List.getElem?_eq_none (Nat.le_refl _)]
            rfl
          have hnew : dialogue.exchange.kind? ticket = none := by
            rw [heq, Exchange.kind?, h.books.length]
            exact List.getElem?_eq_none (Nat.le_refl _)
          rw [hnone]
          exact .sent hnew
        · exact .same _
      · exact .same _
  · simp only [Dialogue.step, if_neg hlinked]
    exact .same _

theorem Consistent.posts (h : dialogue.Consistent) (act : Act) (ticket : Ticket) :
    Posts dialogue act ticket (dialogue.exchange.mail.letter ticket)
      ((dialogue.step act).exchange.mail.letter ticket) := by
  cases act with
  | request kind => exact h.posts_request ticket kind
  | deliver reply => exact h.posts_reply ticket rfl
  | deliverJson text =>
    cases htext : Reply.ofText? text with
    | none =>
      rw [step_deliverJson_none htext]
      exact .same _
    | some reply =>
      rw [step_deliverJson_some htext]
      exact h.posts_reply ticket htext
  | poll other => exact .same _
  | wait other => exact .same _
  | resume other => exact .same _
  | drop other =>
    cases hparty : dialogue.party? other with
    | none =>
      simp only [Dialogue.step, hparty]
      exact .same _
    | some party =>
      rw [h.step_drop hparty]
      change Posts dialogue _ ticket _ ((dialogue.exchange.discard other).mail.letter ticket)
      rw [Exchange.letter_discard]
      split
      · rename_i heq
        rw [heq.1, heq.2]
        exact .discarded rfl
      · exact .same _
  | setChannel ready => exact .same _
  | hangUp =>
    by_cases hlinked : dialogue.linked = true
    · simp only [Dialogue.step, if_pos hlinked, Exchange.letter_hangUp]
      split
      · rename_i hawaited
        rw [hawaited]
        exact .abandoned rfl
      · exact .same _
    · simp only [Dialogue.step, if_neg hlinked]
      exact .same _

/-- An answered letter stays as it is. -/
theorem Consistent.answered_step (h : dialogue.Consistent)
    (hletter : dialogue.exchange.mail.letter ticket = .answered reply) (act : Act) :
    (dialogue.step act).exchange.mail.letter ticket = .answered reply := by
  have hposts := h.posts act ticket
  rw [hletter] at hposts
  generalize (dialogue.step act).exchange.mail.letter ticket = after at hposts
  cases hposts with
  | same => rfl

/-- Whatever a letter says was brought while its request was outstanding. -/
theorem Consistent.answered_of_step (h : dialogue.Consistent) {act : Act}
    (hletter : (dialogue.step act).exchange.mail.letter ticket = .answered reply) :
    dialogue.exchange.mail.letter ticket = .answered reply ∨
      act.reply? = some reply ∧ dialogue.linked = true ∧
        dialogue.Outstanding reply.request ticket := by
  have hposts := h.posts act ticket
  rw [hletter] at hposts
  generalize dialogue.exchange.mail.letter ticket = before at hposts
  cases hposts with
  | same => exact Or.inl rfl
  | answered _ hreply hlinked hawaits =>
    exact Or.inr ⟨hreply, hlinked, (h.outstanding_iff hlinked).2 hawaits⟩

/-- Only a request makes a request outstanding. -/
theorem Consistent.outstanding_of_step (h : dialogue.Consistent) {act : Act}
    (hout : (dialogue.step act).Outstanding kind ticket) (hact : act ≠ .request kind) :
    dialogue.Outstanding kind ticket := by
  obtain ⟨next, hnext, rfl, hheld, hunanswered⟩ := hout
  cases hparty : dialogue.party? ticket with
  | none => exact absurd (eq_request_of_party?_step hparty hnext) hact
  | some party =>
    obtain ⟨after, hafter, hbecome⟩ := exists_become_step hparty act
    rw [hnext] at hafter
    cases hafter
    refine ⟨party, hparty, hbecome.kind.symm, hbecome.held hheld, ?_⟩
    intro reply hletter
    exact hunanswered reply (h.answered_step hletter act)

/-- What a holder sees it goes on seeing until it lets go. -/
theorem Consistent.observes_step (h : dialogue.Consistent)
    (hobserves : dialogue.Observes ticket reply) {act : Act} (hact : act ≠ .drop ticket) :
    (dialogue.step act).Observes ticket reply := by
  obtain ⟨⟨party, hparty, hkept⟩, hletter⟩ := h.observes_iff.1 hobserves
  obtain ⟨next, hnext, hbecome⟩ := exists_become_step hparty act
  exact (h.step act).observes_iff.2
    ⟨⟨next, hnext, hbecome.kept hact hkept⟩, h.answered_step hletter act⟩

theorem Consistent.observes_run (h : dialogue.Consistent)
    (hobserves : dialogue.Observes ticket reply) {acts : List Act} (hacts : .drop ticket ∉ acts) :
    (dialogue.run acts).Observes ticket reply := by
  induction acts generalizing dialogue with
  | nil => exact hobserves
  | cons act rest ih =>
    rw [List.mem_cons, not_or] at hacts
    exact ih (h.step act) (h.observes_step hobserves (Ne.symm hacts.1)) hacts.2

theorem Consistent.outstanding_of_run (h : dialogue.Consistent) {acts : List Act}
    (hout : (dialogue.run acts).Outstanding kind ticket) (hacts : .request kind ∉ acts) :
    dialogue.Outstanding kind ticket := by
  induction acts generalizing dialogue with
  | nil => exact hout
  | cons act rest ih =>
    rw [List.mem_cons, not_or] at hacts
    exact h.outstanding_of_step (ih (h.step act) hout hacts.2) (Ne.symm hacts.1)

/-! ### Requests -/

theorem Consistent.ask_of_outstanding (h : dialogue.Consistent) (hlinked : dialogue.linked = true)
    (hout : dialogue.Outstanding kind ticket) :
    (dialogue.exchange.ask kind).1 = .error (.inFlight kind) := by
  rw [Exchange.ask_eq, h.books.request_of_awaits ((h.outstanding_iff hlinked).1 hout)]
  rfl

theorem Consistent.ask_of_free (h : dialogue.Consistent) (hlinked : dialogue.linked = true)
    (hfree : ¬∃ ticket, dialogue.Outstanding kind ticket) :
    (dialogue.exchange.ask kind).1 =
      if dialogue.exchange.channelReady then .ok (.awaiting ⟨dialogue.parties.length⟩)
      else .error .channelNotReady := by
  rw [Exchange.ask_eq, h.books.request_of_free ((h.free_iff hlinked).1 hfree), h.length_eq]
  split <;> rfl

/-- What a link promises about the next request of a kind. -/
structure AnswersRequests (dialogue : Dialogue) (kind : Request) : Prop where
  refused : (dialogue.exchange.ask kind).1 = .error (.inFlight kind) ↔
    ∃ ticket, dialogue.Outstanding kind ticket
  silent : (∃ ticket, dialogue.Outstanding kind ticket) → dialogue.step (.request kind) = dialogue
  accepted : (¬∃ ticket, dialogue.Outstanding kind ticket) →
    dialogue.exchange.channelReady = true →
      (dialogue.exchange.ask kind).1 = .ok (.awaiting ⟨dialogue.parties.length⟩) ∧
      (dialogue.step (.request kind)).exchange.sent = dialogue.exchange.sent ++ [kind] ∧
      (dialogue.step (.request kind)).Outstanding kind ⟨dialogue.parties.length⟩
  failed : (¬∃ ticket, dialogue.Outstanding kind ticket) →
    dialogue.exchange.channelReady = false →
      (dialogue.exchange.ask kind).1 = .error .channelNotReady ∧
      (dialogue.step (.request kind)).exchange.sent = dialogue.exchange.sent ∧
      (dialogue.step (.request kind)).parties = dialogue.parties ∧
      (dialogue.step (.request kind)).exchange.inFlight kind = false ∧
      ∀ later, .request kind ∉ later →
        (dialogue.run (.request kind :: later)).linked = true →
        (dialogue.run (.request kind :: later)).exchange.channelReady = true →
        ∃ pending, ((dialogue.run (.request kind :: later)).exchange.ask kind).1 = .ok pending

theorem Consistent.answersRequests (h : dialogue.Consistent) (hlinked : dialogue.linked = true)
    (kind : Request) : dialogue.AnswersRequests kind := by
  constructor
  · constructor
    · intro hrefused
      by_contra hfree
      rw [h.ask_of_free hlinked hfree] at hrefused
      split at hrefused <;> cases hrefused
    · rintro ⟨ticket, hout⟩
      exact h.ask_of_outstanding hlinked hout
  · rintro ⟨ticket, hout⟩
    exact h.step_request_of_awaits ((h.outstanding_iff hlinked).1 hout)
  · intro hfree hready
    have hstep := h.step_request_of_free hlinked ((h.free_iff hlinked).1 hfree)
    rw [if_pos hready] at hstep
    refine ⟨by rw [h.ask_of_free hlinked hfree, if_pos hready], by rw [hstep]; rfl, ?_⟩
    have hafter := h.step (.request kind)
    rw [hstep] at hafter ⊢
    refine (hafter.outstanding_iff hlinked).2 ⟨?_, ?_⟩
    · change (dialogue.exchange.accept kind).kind? _ = _
      rw [Exchange.kind?_accept h.books, h.length_eq, if_pos rfl]
    · change (dialogue.exchange.accept kind).mail.letter _ = _
      rw [Exchange.letter_accept, h.length_eq, if_pos rfl]
  · intro hfree hready
    have hstep := h.step_request_of_free hlinked ((h.free_iff hlinked).1 hfree)
    have hnotReady : ¬dialogue.exchange.channelReady = true := by simp [hready]
    rw [if_neg hnotReady] at hstep
    have hafter := h.step (.request kind)
    refine ⟨by rw [h.ask_of_free hlinked hfree, if_neg hnotReady], by rw [hstep]; rfl,
      by rw [hstep], by rw [hstep]; exact Exchange.inFlight_unlisten, ?_⟩
    intro later hlater hlinkedLater hreadyLater
    have hfreeLater :
        ¬∃ ticket, (dialogue.run (.request kind :: later)).Outstanding kind ticket := by
      rintro ⟨ticket, hout⟩
      have hback := hafter.outstanding_of_run hout hlater
      refine hfree ⟨ticket, (h.outstanding_iff hlinked).2 ?_⟩
      rw [hstep] at hafter hback
      exact (hafter.outstanding_iff hlinked).1 hback
    refine ⟨.awaiting ⟨(dialogue.run (.request kind :: later)).parties.length⟩, ?_⟩
    rw [(h.run (.request kind :: later)).ask_of_free hlinkedLater hfreeLater, if_pos hreadyLater]

/-! ### Replies -/

/-- What a link promises about the next reply. -/
structure HandsOver (dialogue : Dialogue) (reply : Reply) : Prop where
  wanted : (dialogue.exchange.deliver reply).1 = true ↔
    ∃ ticket, dialogue.Outstanding reply.request ticket
  received : ∀ ticket, dialogue.Outstanding reply.request ticket → ∀ later, .drop ticket ∉ later →
    (dialogue.run (.deliver reply :: later)).Observes ticket reply
  others : ∀ ticket found, ¬dialogue.Outstanding reply.request ticket →
    ((dialogue.step (.deliver reply)).Observes ticket found ↔ dialogue.Observes ticket found)

theorem Consistent.handsOver (h : dialogue.Consistent) (hlinked : dialogue.linked = true)
    (reply : Reply) : dialogue.HandsOver reply := by
  have hafter := h.step (.deliver reply)
  constructor
  · constructor
    · intro hwanted
      by_contra hfree
      rw [h.books.deliver_of_free ((h.free_iff hlinked).1 hfree)] at hwanted
      cases hwanted
    · rintro ⟨ticket, hout⟩
      rw [h.books.deliver_of_awaits ((h.outstanding_iff hlinked).1 hout)]
  · intro ticket hout later hlater
    have hawaits := (h.outstanding_iff hlinked).1 hout
    obtain ⟨party, hparty, -, hheld, -⟩ := hout
    refine hafter.observes_run (hafter.observes_iff.2 ?_) hlater
    rw [h.step_deliver_of_awaits hlinked hawaits]
    refine ⟨⟨party, hparty, ?_⟩, ?_⟩
    · intro hdropped
      rw [hdropped] at hheld
      exact hheld
    · change (dialogue.exchange.answer ticket reply).mail.letter ticket = _
      rw [Exchange.letter_answer ticket hawaits, if_pos rfl]
  · intro ticket found hother
    have hparties : (dialogue.step (.deliver reply)).parties = dialogue.parties := by
      simp only [Dialogue.step]
      split <;> rfl
    have hletter : (dialogue.step (.deliver reply)).exchange.mail.letter ticket =
        dialogue.exchange.mail.letter ticket := by
      by_cases hout : ∃ target, dialogue.exchange.Awaits reply.request target
      · obtain ⟨target, hawaits⟩ := hout
        rw [h.step_deliver_of_awaits hlinked hawaits]
        refine (Exchange.letter_answer ticket hawaits).trans (if_neg ?_)
        rintro rfl
        exact hother ((h.outstanding_iff hlinked).2 hawaits)
      · rw [h.step_deliver_of_free hlinked (not_exists.1 hout)]
        rfl
    rw [hafter.observes_iff, h.observes_iff, hletter]
    unfold party?
    rw [hparties]

/-! ### The protocol -/

/-- What a link promises at any time. -/
structure Promises (dialogue : Dialogue) : Prop where
  single : ∀ kind first second, dialogue.Outstanding kind first →
    dialogue.Outstanding kind second → first = second
  sent : dialogue.exchange.sent = dialogue.parties.map Party.kind
  requests : dialogue.linked = true → ∀ kind, dialogue.AnswersRequests kind
  unseen : ∀ kind ticket reply, dialogue.Outstanding kind ticket → ¬dialogue.Observes ticket reply
  replies : dialogue.linked = true → ∀ reply, dialogue.HandsOver reply
  readable : ∀ text reply, Reply.ofText? text = some reply →
    (dialogue.exchange.deliverJson text).1 = some (dialogue.exchange.deliver reply).1 ∧
      dialogue.step (.deliverJson text) = dialogue.step (.deliver reply)
  unreadable : ∀ text, Reply.ofText? text = none →
    (dialogue.exchange.deliverJson text).1 = none ∧ dialogue.step (.deliverJson text) = dialogue

theorem Consistent.promises (h : dialogue.Consistent) : dialogue.Promises := by
  constructor
  · intro kind first second hfirst hsecond
    obtain ⟨hkindFirst, hopenFirst⟩ := h.isOpen_of_outstanding hfirst
    obtain ⟨hkindSecond, hopenSecond⟩ := h.isOpen_of_outstanding hsecond
    exact h.books.single kind first second hkindFirst hkindSecond hopenFirst hopenSecond
  · exact h.kinds
  · exact h.answersRequests
  · rintro kind ticket reply ⟨_, _, _, _, hunanswered⟩ hobserves
    exact hunanswered reply (h.observes_iff.1 hobserves).2
  · exact h.handsOver
  · intro text reply htext
    exact ⟨by rw [Exchange.deliverJson_eq_some htext], step_deliverJson_some htext⟩
  · intro text htext
    exact ⟨by rw [Exchange.deliverJson_eq_none htext], step_deliverJson_none htext⟩

/-- Whatever a letter says after a run was brought by an act of the run, while the request was
    outstanding. -/
theorem Consistent.answered_of_run (h : dialogue.Consistent) {acts : List Act}
    (hletter : (dialogue.run acts).exchange.mail.letter ticket = .answered reply)
    (hbefore : ∀ found, dialogue.exchange.mail.letter ticket ≠ .answered found) :
    ∃ before act after, acts = before ++ act :: after ∧ act.reply? = some reply ∧
      (dialogue.run before).linked = true ∧
      (dialogue.run before).Outstanding reply.request ticket := by
  induction acts using List.reverseRecOn with
  | nil => exact absurd hletter (hbefore reply)
  | append_singleton earlier act ih =>
    rw [run_append] at hletter
    rcases (h.run earlier).answered_of_step hletter with hold | ⟨hreply, hlinked, hout⟩
    · obtain ⟨before, first, after, hacts, hfirst⟩ := ih hold
      exact ⟨before, first, after ++ [act], by rw [hacts]; simp, hfirst⟩
    · exact ⟨earlier, act, [], rfl, hreply, hlinked, hout⟩

/-- A link keeps its promises after any acts, and whatever a holder gets to see was brought for the
    request that it holds while that request was outstanding. -/
theorem promises_of_run (acts : List Act) :
    (initial.run acts).Promises ∧
      ∀ ticket reply, (initial.run acts).Observes ticket reply →
        ∃ before act after, acts = before ++ act :: after ∧ act.reply? = some reply ∧
          (initial.run before).linked = true ∧
          (initial.run before).Outstanding reply.request ticket := by
  have hconsistent := consistent_initial.run acts
  refine ⟨hconsistent.promises, fun ticket reply hobserves => ?_⟩
  refine consistent_initial.answered_of_run (hconsistent.observes_iff.1 hobserves).2 ?_
  intro found hletter
  cases hletter

end Dialogue

end Capabilities.Host
