import Capabilities.Keyed
import Capabilities.Host.Exchange

/-!
# A link that keeps its books

The listeners of a link, the requests that went out and the letters at their tickets change one by
one: a reply takes a listener away, a holder that lets go only marks its letter, and a listener
whose reply nobody wants any more stays until the next request of its kind. A *consistent* link is
one whose books still agree: a listener listens for the kind that its ticket was given for, and its
letter is awaited or discarded; an awaited letter has its listener; no kind has two listeners; and
of the letters of a kind that were neither answered nor given up there is at most one.
-/

namespace Capabilities.Host

/-- Nobody has answered the letter, and nobody has given it up. -/
def Letter.IsOpen (letter : Letter) : Prop := letter = .awaited ∨ letter = .abandoned

namespace Exchange

def kind? (exchange : Exchange) (ticket : Ticket) : Option Request := exchange.sent[ticket.index]?

/-- The books of a link agree. -/
structure Consistent (exchange : Exchange) : Prop where
  length : exchange.mail.length = exchange.sent.length
  keys : (exchange.listeners.map Prod.fst).Nodup
  listening : ∀ kind ticket, (kind, ticket) ∈ exchange.listeners →
    exchange.kind? ticket = some kind ∧
      (exchange.mail.letter ticket = .awaited ∨ exchange.mail.letter ticket = .discarded)
  heard : ∀ kind ticket, exchange.kind? ticket = some kind →
    exchange.mail.letter ticket = .awaited → (kind, ticket) ∈ exchange.listeners
  single : ∀ kind first second, exchange.kind? first = some kind →
    exchange.kind? second = some kind → (exchange.mail.letter first).IsOpen →
    (exchange.mail.letter second).IsOpen → first = second
  answered : ∀ ticket reply, exchange.mail.letter ticket = .answered reply →
    exchange.kind? ticket = some reply.request

/-- No request was abandoned: the link is still there. -/
def Live (exchange : Exchange) : Prop :=
  ∀ kind ticket, exchange.kind? ticket = some kind → exchange.mail.letter ticket ≠ .abandoned

/-- A request of the kind waits for its reply. -/
def Awaits (exchange : Exchange) (kind : Request) (ticket : Ticket) : Prop :=
  exchange.kind? ticket = some kind ∧ exchange.mail.letter ticket = .awaited

variable {exchange : Exchange} {kind : Request} {ticket : Ticket}

/-! ### Letters -/

theorem kind?_eq_some_lt (h : exchange.kind? ticket = some kind) :
    ticket.index < exchange.sent.length :=
  (List.getElem?_eq_some_iff.1 h).1

theorem letter_write (other : Ticket) (letter : Letter)
    (hlt : ticket.index < exchange.mail.length) :
    (exchange.write ticket letter).mail.letter other =
      if other = ticket then letter else exchange.mail.letter other := by
  obtain ⟨index⟩ := ticket
  obtain ⟨position⟩ := other
  simp only [write, Mail.letter, Ticket.mk.injEq] at hlt ⊢
  by_cases h : position = index
  · rw [if_pos h, h, List.getElem?_set_self hlt, Option.getD_some]
  · rw [if_neg h, List.getElem?_set_ne (Ne.symm h)]

theorem getElem?_concat_ticket {α : Type} (other : Ticket) (value : α) (values : List α) :
    (values ++ [value])[other.index]? =
      if other = ⟨values.length⟩ then some value else values[other.index]? := by
  obtain ⟨position⟩ := other
  simp only [Ticket.mk.injEq]
  rcases Nat.lt_trichotomy position values.length with hlt | heq | hgt
  · rw [if_neg (Nat.ne_of_lt hlt), List.getElem?_append_left hlt]
  · rw [if_pos heq, heq, List.getElem?_concat_length]
  · rw [if_neg (Nat.ne_of_gt hgt), List.getElem?_eq_none (by simp; omega),
      List.getElem?_eq_none (Nat.le_of_lt hgt)]

theorem letter_append (other : Ticket) (letter : Letter) (mail : Mail) :
    Mail.letter (mail ++ [letter]) other =
      if other = ⟨mail.length⟩ then letter else mail.letter other := by
  unfold Mail.letter
  rw [getElem?_concat_ticket]
  split <;> rfl

/-! ### Listeners -/

theorem mem_of_listener? (h : exchange.listener? kind = some ticket) :
    (kind, ticket) ∈ exchange.listeners :=
  mem_of_lookup h

theorem listener?_of_mem (hkeys : (exchange.listeners.map Prod.fst).Nodup)
    (h : (kind, ticket) ∈ exchange.listeners) : exchange.listener? kind = some ticket :=
  (lookup_eq_some_iff_mem hkeys).2 h

theorem mem_unlisten {other : Request} :
    (other, ticket) ∈ (exchange.unlisten kind).listeners ↔
      (other, ticket) ∈ exchange.listeners ∧ other ≠ kind := by
  simp [unlisten]

theorem inFlight_unlisten : (exchange.unlisten kind).inFlight kind = false := by
  rw [inFlight, Option.isSome_eq_false_iff, Option.isNone_iff_eq_none]
  cases h : (exchange.unlisten kind).listener? kind with
  | none => rfl
  | some ticket => exact absurd rfl (mem_unlisten.1 (mem_of_listener? h)).2

/-- On a live link a letter is open only as long as it is awaited. -/
theorem Live.awaited_of_isOpen (h : exchange.Live) (hkind : exchange.kind? ticket = some kind)
    (hopen : (exchange.mail.letter ticket).IsOpen) : exchange.mail.letter ticket = .awaited := by
  rcases hopen with hawaited | habandoned
  · exact hawaited
  · exact absurd habandoned (h kind ticket hkind)

/-- Whoever is listened for and still wanted is awaited. -/
theorem Consistent.awaits_of_listener? (h : exchange.Consistent)
    (hlistener : exchange.listener? kind = some ticket)
    (hwanted : exchange.mail.letter ticket ≠ .discarded) : exchange.Awaits kind ticket := by
  obtain ⟨hkind, hletter⟩ := h.listening kind ticket (mem_of_listener? hlistener)
  exact ⟨hkind, hletter.resolve_right hwanted⟩

theorem Consistent.listener?_of_awaits (h : exchange.Consistent)
    (hawaits : exchange.Awaits kind ticket) : exchange.listener? kind = some ticket :=
  listener?_of_mem h.keys (h.heard kind ticket hawaits.1 hawaits.2)

theorem Consistent.awaits_unique (h : exchange.Consistent) {other : Ticket}
    (hawaits : exchange.Awaits kind ticket) (hother : exchange.Awaits kind other) :
    ticket = other :=
  h.single kind ticket other hawaits.1 hother.1 (Or.inl hawaits.2) (Or.inl hother.2)

/-! ### Requests -/

/-- Somebody listens for the kind whose reply is still wanted. -/
def Busy (exchange : Exchange) (kind : Request) : Prop :=
  ∃ ticket, exchange.listener? kind = some ticket ∧ exchange.mail.letter ticket ≠ .discarded

def listed (exchange : Exchange) (kind : Request) : Exchange :=
  { exchange.unlisten kind with
    listeners := (exchange.unlisten kind).listeners ++ [(kind, ⟨exchange.mail.length⟩)]
    mail := exchange.mail ++ [.awaited] }

theorem enlist_of_busy (h : exchange.Busy kind) :
    exchange.enlist kind = (.error (.inFlight kind), exchange) := by
  obtain ⟨ticket, hlistener, hwanted⟩ := h
  have hbusy : (exchange.mail.letter ticket != Letter.discarded) = true := bne_iff_ne.2 hwanted
  simp only [enlist, hlistener, hbusy, if_true]

theorem enlist_of_free (h : ¬exchange.Busy kind) :
    exchange.enlist kind = (.ok ⟨exchange.mail.length⟩, exchange.listed kind) := by
  cases hlistener : exchange.listener? kind with
  | none =>
    simp only [enlist, hlistener]
    rfl
  | some ticket =>
    have hunwanted : (exchange.mail.letter ticket != Letter.discarded) = false :=
      bne_eq_false_iff_eq.2 (Decidable.of_not_not fun hwanted => h ⟨ticket, hlistener, hwanted⟩)
    simp only [enlist, hlistener, hunwanted]
    rfl

theorem unlisten_listed :
    ((exchange.listed kind).unlisten kind).listeners = (exchange.unlisten kind).listeners := by
  simp [listed, unlisten]

theorem listener?_listed :
    (exchange.listed kind).listener? kind = some ⟨exchange.mail.length⟩ := by
  have hnone : (exchange.unlisten kind).listeners.lookup kind = none := by
    refine List.lookup_eq_none_iff.2 ?_
    rintro ⟨other, ticket⟩ hmem
    exact bne_iff_ne.2 (Ne.symm (mem_unlisten.1 hmem).2)
  simp [listener?, listed, List.lookup_append, hnone]

def accept (exchange : Exchange) (kind : Request) : Exchange :=
  { exchange.unlisten kind with
    sent := exchange.sent ++ [kind]
    listeners := (exchange.unlisten kind).listeners ++ [(kind, ⟨exchange.mail.length⟩)]
    mail := exchange.mail ++ [.awaited] }

theorem emit_of_ready (h : exchange.channelReady = true) :
    exchange.emit kind = (true, { exchange with sent := exchange.sent ++ [kind] }) :=
  if_pos h

theorem emit_of_not_ready (h : ¬exchange.channelReady = true) :
    exchange.emit kind = (false, exchange) :=
  if_neg h

/-- What a failing call leaves behind, once its listener is down. -/
theorem withdraw_listed :
    { (exchange.listed kind).withdraw kind with mail := exchange.mail } =
      exchange.unlisten kind := by
  unfold withdraw
  rw [listener?_listed]
  dsimp only
  split
  · simp only [write, unlisten_listed]
    rfl
  · rw [unlisten_listed]
    rfl

theorem request_of_busy (h : exchange.Busy kind) :
    exchange.request kind = (.error (.inFlight kind), exchange) := by
  simp only [request, enlist_of_busy h]

theorem request_of_not_busy (h : ¬exchange.Busy kind) :
    exchange.request kind =
      if exchange.channelReady then (.ok ⟨exchange.mail.length⟩, exchange.accept kind)
      else (.error .channelNotReady, exchange.unlisten kind) := by
  split
  · rename_i hready
    have hemit : (exchange.listed kind).emit kind = _ := emit_of_ready hready
    simp only [request, enlist_of_free h, hemit]
    rfl
  · rename_i hready
    have hemit : (exchange.listed kind).emit kind = _ := emit_of_not_ready hready
    simp only [request, enlist_of_free h, hemit]
    exact congrArg (Prod.mk _) withdraw_listed

theorem Consistent.busy_iff (h : exchange.Consistent) :
    exchange.Busy kind ↔ ∃ ticket, exchange.Awaits kind ticket := by
  constructor
  · rintro ⟨ticket, hlistener, hwanted⟩
    exact ⟨ticket, h.awaits_of_listener? hlistener hwanted⟩
  · rintro ⟨ticket, hawaits⟩
    exact ⟨ticket, h.listener?_of_awaits hawaits, by rw [hawaits.2]; exact Letter.noConfusion⟩

/-- A request while one of its kind is awaited. -/
theorem Consistent.request_of_awaits (h : exchange.Consistent)
    (hawaits : exchange.Awaits kind ticket) :
    exchange.request kind = (.error (.inFlight kind), exchange) :=
  request_of_busy (h.busy_iff.2 ⟨ticket, hawaits⟩)

/-- A request while none of its kind is awaited. -/
theorem Consistent.request_of_free (h : exchange.Consistent)
    (hfree : ∀ ticket, ¬exchange.Awaits kind ticket) :
    exchange.request kind =
      if exchange.channelReady then (.ok ⟨exchange.mail.length⟩, exchange.accept kind)
      else (.error .channelNotReady, exchange.unlisten kind) :=
  request_of_not_busy fun hbusy => not_exists.2 hfree (h.busy_iff.1 hbusy)

/-- Taking the listener of a kind away leaves the books in order if nobody waits. -/
theorem Consistent.unlisten (h : exchange.Consistent)
    (hfree : ∀ ticket, ¬exchange.Awaits kind ticket) : (exchange.unlisten kind).Consistent := by
  refine ⟨h.length, ?_, ?_, ?_, h.single, h.answered⟩
  · exact h.keys.sublist (List.filter_sublist.map _)
  · intro other ticket hmem
    exact h.listening other ticket (mem_unlisten.1 hmem).1
  · intro other ticket hkind hawaited
    refine mem_unlisten.2 ⟨h.heard other ticket hkind hawaited, ?_⟩
    rintro rfl
    exact hfree ticket ⟨hkind, hawaited⟩

theorem kind?_accept (h : exchange.Consistent) (other : Ticket) :
    (exchange.accept kind).kind? other =
      if other = ⟨exchange.mail.length⟩ then some kind else exchange.kind? other := by
  rw [h.length]
  exact getElem?_concat_ticket other kind exchange.sent

theorem letter_accept (other : Ticket) :
    (exchange.accept kind).mail.letter other =
      if other = ⟨exchange.mail.length⟩ then .awaited else exchange.mail.letter other :=
  letter_append other .awaited exchange.mail

theorem Consistent.accept (h : exchange.Consistent) (hlive : exchange.Live)
    (hfree : ∀ ticket, ¬exchange.Awaits kind ticket) : (exchange.accept kind).Consistent := by
  have hfar : ∀ other kind', exchange.kind? other = some kind' →
      other ≠ ⟨exchange.mail.length⟩ := by
    rintro other kind' hkind rfl
    have hlt := kind?_eq_some_lt hkind
    rw [← h.length] at hlt
    exact Nat.lt_irrefl _ hlt
  have hopen : ∀ other, exchange.kind? other = some kind →
      ¬(exchange.mail.letter other).IsOpen := by
    intro other hkind ho
    exact hfree other ⟨hkind, hlive.awaited_of_isOpen hkind ho⟩
  have hunlisten := h.unlisten hfree
  refine ⟨?_, ?_, ?_, ?_, ?_, ?_⟩
  · simp only [Exchange.accept, List.length_append, h.length, List.length_singleton]
  · simp only [Exchange.accept, List.map_append, List.map_cons, List.map_nil]
    rw [List.nodup_append]
    refine ⟨hunlisten.keys, by simp, ?_⟩
    intro key hkey other hother heq
    rw [List.mem_singleton.1 hother] at heq
    obtain ⟨⟨found, ticket⟩, hmem, rfl⟩ := List.mem_map.1 hkey
    exact (mem_unlisten.1 hmem).2 heq
  · intro other ticket hmem
    rw [kind?_accept h, letter_accept]
    rcases List.mem_append.1 hmem with hold | hnew
    · have hlistening := hunlisten.listening other ticket hold
      have hne := hfar ticket other hlistening.1
      rw [if_neg hne, if_neg hne]
      exact hlistening
    · cases List.mem_singleton.1 hnew
      rw [if_pos rfl, if_pos rfl]
      exact ⟨rfl, Or.inl rfl⟩
  · intro other ticket hkind hawaited
    rw [kind?_accept h] at hkind
    rw [letter_accept] at hawaited
    by_cases hnew : ticket = ⟨exchange.mail.length⟩
    · rw [if_pos hnew] at hkind
      cases hkind
      rw [hnew]
      exact List.mem_append_right _ List.mem_cons_self
    · rw [if_neg hnew] at hkind hawaited
      exact List.mem_append_left _ (hunlisten.heard other ticket hkind hawaited)
  · intro other first second hfirst hsecond hopenFirst hopenSecond
    rw [kind?_accept h] at hfirst hsecond
    rw [letter_accept] at hopenFirst hopenSecond
    by_cases hf : first = ⟨exchange.mail.length⟩ <;> by_cases hs : second = ⟨exchange.mail.length⟩
    · rw [hf, hs]
    · rw [if_pos hf] at hfirst
      rw [if_neg hs] at hsecond hopenSecond
      cases hfirst
      exact absurd hopenSecond (hopen second hsecond)
    · rw [if_pos hs] at hsecond
      rw [if_neg hf] at hfirst hopenFirst
      cases hsecond
      exact absurd hopenFirst (hopen first hfirst)
    · rw [if_neg hf] at hfirst hopenFirst
      rw [if_neg hs] at hsecond hopenSecond
      exact h.single other first second hfirst hsecond hopenFirst hopenSecond
  · intro ticket reply hletter
    rw [letter_accept] at hletter
    rw [kind?_accept h]
    by_cases hnew : ticket = ⟨exchange.mail.length⟩
    · rw [if_pos hnew] at hletter
      cases hletter
    · rw [if_neg hnew] at hletter ⊢
      exact h.answered ticket reply hletter

theorem Live.accept (h : exchange.Live) (hbooks : exchange.Consistent) :
    (exchange.accept kind).Live := by
  intro other ticket hkind
  rw [kind?_accept hbooks] at hkind
  rw [letter_accept]
  by_cases hnew : ticket = ⟨exchange.mail.length⟩
  · rw [if_pos hnew]
    exact Letter.noConfusion
  · rw [if_neg hnew] at hkind ⊢
    exact h other ticket hkind

/-! ### Replies -/

theorem lt_of_awaited (h : exchange.mail.letter ticket = .awaited) :
    ticket.index < exchange.mail.length := by
  rw [← Nat.not_le]
  intro hle
  rw [Mail.letter, List.getElem?_eq_none hle] at h
  cases h

theorem unlisten_of_listener?_none (h : exchange.listener? kind = none) :
    exchange.unlisten kind = exchange := by
  have hfilter : exchange.listeners.filter (·.1 != kind) = exchange.listeners := by
    refine List.filter_eq_self.2 ?_
    rintro ⟨other, ticket⟩ hmem
    exact bne_iff_ne.2 fun heq => bne_iff_ne.1 (List.lookup_eq_none_iff.1 h _ hmem) heq.symm
  unfold unlisten
  rw [hfilter]

theorem letter_hand (ticket : Ticket) (reply : Reply) (other : Ticket) :
    (exchange.hand ticket reply).2.mail.letter other =
      if other = ticket ∧ exchange.mail.letter ticket = .awaited then .answered reply
      else exchange.mail.letter other := by
  unfold hand
  by_cases hawaited : exchange.mail.letter ticket = .awaited
  · rw [if_pos (beq_iff_eq.2 hawaited), letter_write other _ (lt_of_awaited hawaited)]
    simp [hawaited]
  · rw [if_neg (fun heq => hawaited (beq_iff_eq.1 heq)), if_neg fun hboth => hawaited hboth.2]

theorem listeners_hand (ticket : Ticket) (reply : Reply) :
    (exchange.hand ticket reply).2.listeners = exchange.listeners := by
  unfold hand
  split <;> rfl

theorem sent_hand (ticket : Ticket) (reply : Reply) :
    (exchange.hand ticket reply).2.sent = exchange.sent := by
  unfold hand
  split <;> rfl

theorem length_hand (ticket : Ticket) (reply : Reply) :
    (exchange.hand ticket reply).2.mail.length = exchange.mail.length := by
  unfold hand
  split
  · exact List.length_set
  · rfl

/-- Who takes the listener of a kind down makes what it waits for fail. -/
theorem letter_withdraw (other : Ticket) : (exchange.withdraw kind).mail.letter other =
    if exchange.listener? kind = some other ∧ exchange.mail.letter other = .awaited then .abandoned
    else exchange.mail.letter other := by
  cases hlistener : exchange.listener? kind with
  | none => simp [withdraw, hlistener]
  | some found =>
    simp only [withdraw, hlistener, Option.some.injEq]
    by_cases hawaited : exchange.mail.letter found = .awaited
    · have hlt : found.index < (exchange.unlisten kind).mail.length := lt_of_awaited hawaited
      have hsame : ((exchange.unlisten kind).mail.letter found == Letter.awaited) = true :=
        beq_iff_eq.2 hawaited
      rw [if_pos hsame, letter_write other _ hlt]
      by_cases heq : other = found
      · rw [if_pos heq, if_pos ⟨heq.symm, by rw [heq]; exact hawaited⟩]
      · rw [if_neg heq, if_neg fun hboth => heq hboth.1.symm]
        rfl
    · have hsame : ¬((exchange.unlisten kind).mail.letter found == Letter.awaited) = true :=
        fun heq => hawaited (beq_iff_eq.1 heq)
      rw [if_neg hsame, if_neg]
      · rfl
      · rintro ⟨rfl, hother⟩
        exact hawaited hother

theorem listeners_withdraw :
    (exchange.withdraw kind).listeners = (exchange.unlisten kind).listeners := by
  unfold withdraw
  split
  · rename_i hlistener
    rw [unlisten_of_listener?_none hlistener]
  · dsimp only
    split <;> rfl

theorem sent_withdraw : (exchange.withdraw kind).sent = exchange.sent := by
  unfold withdraw
  split
  · rfl
  · dsimp only
    split <;> rfl

theorem length_withdraw : (exchange.withdraw kind).mail.length = exchange.mail.length := by
  unfold withdraw
  split
  · rfl
  · dsimp only
    split
    · exact List.length_set
    · rfl

/-- The link after a reply was handed to the request that waits for it. -/
def answer (exchange : Exchange) (ticket : Ticket) (reply : Reply) : Exchange :=
  (exchange.unlisten reply.request).write ticket (.answered reply)

theorem Consistent.deliver_of_awaits {reply : Reply} (h : exchange.Consistent)
    (hawaits : exchange.Awaits reply.request ticket) :
    exchange.deliver reply = (true, exchange.answer ticket reply) := by
  have hwanted : ((exchange.unlisten reply.request).mail.letter ticket == Letter.awaited) = true :=
    beq_iff_eq.2 hawaits.2
  simp only [deliver, hand, h.listener?_of_awaits hawaits, hwanted, if_true]
  rfl

theorem Consistent.deliver_of_free {reply : Reply} (h : exchange.Consistent)
    (hfree : ∀ ticket, ¬exchange.Awaits reply.request ticket) :
    exchange.deliver reply = (false, exchange.unlisten reply.request) := by
  cases hlistener : exchange.listener? reply.request with
  | none => simp only [deliver, hlistener, unlisten_of_listener?_none hlistener]
  | some ticket =>
    have hunwanted : ((exchange.unlisten reply.request).mail.letter ticket == Letter.awaited) =
        false := by
      refine beq_eq_false_iff_ne.2 ?_
      intro hawaited
      exact hfree ticket ⟨(h.listening _ ticket (mem_of_listener? hlistener)).1, hawaited⟩
    simp only [deliver, hand, hlistener, hunwanted]
    rfl

theorem letter_answer (other : Ticket) {reply : Reply}
    (hawaits : exchange.Awaits reply.request ticket) :
    (exchange.answer ticket reply).mail.letter other =
      if other = ticket then .answered reply else exchange.mail.letter other :=
  letter_write other (.answered reply) (lt_of_awaited hawaits.2)

theorem Consistent.answer {reply : Reply} (h : exchange.Consistent)
    (hawaits : exchange.Awaits reply.request ticket) :
    (exchange.answer ticket reply).Consistent := by
  have hold : ∀ {other letter}, (exchange.answer ticket reply).mail.letter other = letter →
      (∀ reply, letter ≠ .answered reply) → exchange.mail.letter other = letter := by
    intro other letter hletter hne
    rw [letter_answer other hawaits] at hletter
    by_cases heq : other = ticket
    · rw [if_pos heq] at hletter
      exact absurd hletter.symm (hne reply)
    · rwa [if_neg heq] at hletter
  have hopen : ∀ {other}, ((exchange.answer ticket reply).mail.letter other).IsOpen →
      (exchange.mail.letter other).IsOpen := by
    intro other ho
    rcases ho with ho | ho
    · exact Or.inl (hold ho (fun _ => Letter.noConfusion))
    · exact Or.inr (hold ho (fun _ => Letter.noConfusion))
  refine ⟨?_, h.keys.sublist (List.filter_sublist.map _), ?_, ?_, ?_, ?_⟩
  · exact (List.length_set).trans h.length
  · intro kind other hmem
    obtain ⟨hmem, hne⟩ := mem_unlisten.1 hmem
    have hlistening := h.listening kind other hmem
    have hother : other ≠ ticket := by
      rintro rfl
      exact hne (Option.some.inj (hlistening.1.symm.trans hawaits.1))
    rw [letter_answer other hawaits, if_neg hother]
    exact hlistening
  · intro kind other hkind hawaited
    have hbefore := hold hawaited (fun _ => Letter.noConfusion)
    refine mem_unlisten.2 ⟨h.heard kind other hkind hbefore, ?_⟩
    rintro rfl
    rw [h.awaits_unique ⟨hkind, hbefore⟩ hawaits, letter_answer ticket hawaits, if_pos rfl]
      at hawaited
    cases hawaited
  · intro kind first second hfirst hsecond hopenFirst hopenSecond
    exact h.single kind first second hfirst hsecond (hopen hopenFirst) (hopen hopenSecond)
  · intro other found hletter
    rw [letter_answer other hawaits] at hletter
    by_cases heq : other = ticket
    · rw [if_pos heq] at hletter
      cases hletter
      rw [heq]
      exact hawaits.1
    · rw [if_neg heq] at hletter
      exact h.answered other found hletter

theorem Live.answer {reply : Reply} (h : exchange.Live)
    (hawaits : exchange.Awaits reply.request ticket) : (exchange.answer ticket reply).Live := by
  intro kind other hkind
  rw [letter_answer other hawaits]
  split
  · exact Letter.noConfusion
  · exact h kind other hkind

/-! ### Letting go -/

theorem discard_of_ne (h : exchange.mail.letter ticket ≠ .awaited) :
    exchange.discard ticket = exchange :=
  if_neg fun hawaited => h (beq_iff_eq.1 hawaited)

theorem letter_discard (other : Ticket) :
    (exchange.discard ticket).mail.letter other =
      if other = ticket ∧ exchange.mail.letter ticket = .awaited then .discarded
      else exchange.mail.letter other := by
  unfold discard
  by_cases hawaited : exchange.mail.letter ticket = .awaited
  · rw [if_pos (beq_iff_eq.2 hawaited), letter_write other .discarded (lt_of_awaited hawaited)]
    simp [hawaited]
  · rw [if_neg (fun h => hawaited (beq_iff_eq.1 h)), if_neg (fun h => hawaited h.2)]

theorem kind?_discard (other : Ticket) : (exchange.discard ticket).kind? other =
    exchange.kind? other := by
  unfold discard
  split <;> rfl

theorem listeners_discard : (exchange.discard ticket).listeners = exchange.listeners := by
  unfold discard
  split <;> rfl

theorem sent_discard : (exchange.discard ticket).sent = exchange.sent := by
  unfold discard
  split <;> rfl

theorem length_discard : (exchange.discard ticket).mail.length = exchange.mail.length := by
  unfold discard
  split
  · exact List.length_set
  · rfl

theorem Consistent.discard (h : exchange.Consistent) : (exchange.discard ticket).Consistent := by
  have hold : ∀ {other letter}, (exchange.discard ticket).mail.letter other = letter →
      letter ≠ .discarded → exchange.mail.letter other = letter := by
    intro other letter hletter hne
    rw [letter_discard] at hletter
    split at hletter
    · exact absurd hletter.symm hne
    · exact hletter
  have hopen : ∀ {other}, ((exchange.discard ticket).mail.letter other).IsOpen →
      (exchange.mail.letter other).IsOpen := by
    intro other ho
    rcases ho with ho | ho
    · exact Or.inl (hold ho Letter.noConfusion)
    · exact Or.inr (hold ho Letter.noConfusion)
  refine ⟨?_, ?_, ?_, ?_, ?_, ?_⟩
  · rw [length_discard, sent_discard]
    exact h.length
  · rw [listeners_discard]
    exact h.keys
  · intro kind other hmem
    rw [listeners_discard] at hmem
    rw [kind?_discard, letter_discard]
    have hlistening := h.listening kind other hmem
    split
    · exact ⟨hlistening.1, Or.inr rfl⟩
    · exact hlistening
  · intro kind other hkind hawaited
    rw [kind?_discard] at hkind
    rw [listeners_discard]
    exact h.heard kind other hkind (hold hawaited Letter.noConfusion)
  · intro kind first second hfirst hsecond hopenFirst hopenSecond
    rw [kind?_discard] at hfirst hsecond
    exact h.single kind first second hfirst hsecond (hopen hopenFirst) (hopen hopenSecond)
  · intro other reply hletter
    rw [kind?_discard]
    exact h.answered other reply (hold hletter Letter.noConfusion)

theorem Live.discard (h : exchange.Live) : (exchange.discard ticket).Live := by
  intro kind other hkind
  rw [kind?_discard] at hkind
  rw [letter_discard]
  split
  · exact Letter.noConfusion
  · exact h kind other hkind

theorem letter_hangUp (other : Ticket) :
    exchange.hangUp.mail.letter other =
      if exchange.mail.letter other = .awaited then .abandoned else exchange.mail.letter other := by
  rcases h : exchange.mail[other.index]? with _ | letter
  · simp [hangUp, Mail.letter, List.getElem?_map, h]
  · simp [hangUp, Mail.letter, List.getElem?_map, h]

theorem Consistent.hangUp (h : exchange.Consistent) : exchange.hangUp.Consistent := by
  have hopen : ∀ {other}, (exchange.hangUp.mail.letter other).IsOpen →
      (exchange.mail.letter other).IsOpen := by
    intro other ho
    rw [letter_hangUp] at ho
    split at ho
    · exact Or.inl ‹_›
    · exact ho
  refine ⟨?_, List.nodup_nil, ?_, ?_, ?_, ?_⟩
  · exact (List.length_map _).trans h.length
  · intro kind ticket hmem
    cases hmem
  · intro kind ticket hkind hawaited
    rw [letter_hangUp] at hawaited
    split at hawaited
    · cases hawaited
    · exact absurd hawaited ‹_›
  · intro kind first second hfirst hsecond hopenFirst hopenSecond
    exact h.single kind first second hfirst hsecond (hopen hopenFirst) (hopen hopenSecond)
  · intro ticket reply hletter
    rw [letter_hangUp] at hletter
    split at hletter
    · cases hletter
    · exact h.answered ticket reply hletter

end Exchange

end Capabilities.Host
