import Mathlib.Data.List.Nodup
import Capabilities.Proofs.Host.Traffic

/-!
# Calls that overlap keep the books

A listener is up for a request until a reply or the call itself takes it down. A call that could not
send takes the listener of its kind down, and this is its own unless a reply has come for it before:
then it may be the listener of a later request, whose reply is abandoned. The books are kept in that
case too, since whoever waits at a ticket with an abandoned letter is told so.
-/

namespace Capabilities.Host

namespace Traffic

variable {traffic next : Traffic} {turn : Turn} {ticket other : Ticket} {kind : Request}
  {reply : Reply} {party : Party} {progress was : Progress} {calls : List Progress}

theorem kind?_of_party? (hparty : traffic.party? ticket = some party) :
    traffic.kind? ticket = some party.kind := by
  rw [kind?, hparty]
  rfl

/-! ### Outstanding requests -/

/-- The outstanding requests are those that are listened for and awaited. -/
theorem Sound.outstanding_iff (h : traffic.Sound) : traffic.Outstanding kind ticket ↔
    (kind, ticket) ∈ traffic.exchange.listeners ∧
      traffic.exchange.mail.letter ticket = .awaited := by
  have hfine := h.fine ticket
  constructor
  · rintro ⟨⟨⟨party, hparty, rfl, hheld, hunanswered⟩, hhands⟩, hreachable⟩
    have hawaited : traffic.exchange.mail.letter ticket = .awaited := by
      cases hletter : traffic.exchange.mail.letter ticket with
      | awaited => rfl
      | answered reply => exact absurd hletter (hunanswered reply)
      | abandoned => exact absurd hletter hreachable
      | discarded => exact absurd hletter ((hfine.fits party hparty).ne_discarded hheld)
    refine ⟨?_, hawaited⟩
    rcases hfine.heard _ (kind?_of_party? hparty) hawaited with hlisted | ⟨reply, hmem, -⟩
    · exact hlisted
    · exact absurd hmem (hhands reply)
  · rintro ⟨hlisted, hawaited⟩
    obtain ⟨party, hparty, rfl⟩ := Option.map_eq_some_iff.1 (hfine.waits kind (Or.inl hlisted)).1
    have hfits := hfine.fits party hparty
    rw [hawaited] at hfits
    refine ⟨⟨⟨party, hparty, rfl, hfits.isHeld_of_awaited, fun reply => ?_⟩,
      fun reply => hfine.apart _ reply hlisted⟩, ?_⟩ <;>
    · rw [hawaited]
      exact Letter.noConfusion

theorem Sound.busy_iff (h : traffic.Sound) :
    traffic.exchange.Busy kind ↔ ∃ ticket, traffic.Outstanding kind ticket := by
  constructor
  · rintro ⟨ticket, hlistener, hwanted⟩
    have hlisted := Exchange.mem_of_listener? hlistener
    exact ⟨ticket, h.outstanding_iff.2
      ⟨hlisted, ((h.fine ticket).waits kind (Or.inl hlisted)).2.resolve_right hwanted⟩⟩
  · rintro ⟨ticket, hout⟩
    obtain ⟨hlisted, hawaited⟩ := h.outstanding_iff.1 hout
    exact ⟨ticket, Exchange.listener?_of_mem h.keys hlisted,
      by rw [hawaited]; exact Letter.noConfusion⟩

theorem Sound.eq_of_listed (h : traffic.Sound)
    (hticket : (kind, ticket) ∈ traffic.exchange.listeners)
    (hother : (kind, other) ∈ traffic.exchange.listeners) : other = ticket :=
  Option.some.inj ((Exchange.listener?_of_mem h.keys hother).symm.trans
    (Exchange.listener?_of_mem h.keys hticket))

theorem Sound.mem_unlisten (h : traffic.Sound) {found : Request}
    (hlisted : (kind, ticket) ∈ traffic.exchange.listeners) :
    (found, other) ∈ (traffic.exchange.unlisten kind).listeners ↔
      (found, other) ∈ traffic.exchange.listeners ∧ other ≠ ticket := by
  refine Exchange.mem_unlisten.trans (and_congr_right fun hmem => not_congr ⟨?_, ?_⟩)
  · rintro rfl
    exact h.eq_of_listed hlisted hmem
  · rintro rfl
    exact Option.some.inj (((h.fine other).waits _ (Or.inl hmem)).1.symm.trans
      ((h.fine other).waits _ (Or.inl hlisted)).1)

/-! ### Tickets that a turn does not concern -/

/-- Two traffics look the same at a ticket. -/
structure Same (traffic next : Traffic) (ticket : Ticket) : Prop where
  party : next.party? ticket = traffic.party? ticket
  progress : next.progress? ticket = traffic.progress? ticket
  letter : next.exchange.mail.letter ticket = traffic.exchange.mail.letter ticket
  listed : ∀ kind, (kind, ticket) ∈ next.exchange.listeners ↔
    (kind, ticket) ∈ traffic.exchange.listeners
  handed : ∀ reply, (ticket, reply) ∈ next.hands ↔ (ticket, reply) ∈ traffic.hands

theorem Same.kind? (h : Same traffic next ticket) : next.kind? ticket = traffic.kind? ticket := by
  rw [Traffic.kind?, h.party]
  rfl

theorem Same.reaches (h : Same traffic next ticket) :
    next.Reaches kind ticket ↔ traffic.Reaches kind ticket := by
  simp only [Reaches, h.listed, h.handed]

theorem Fine.same (h : traffic.Fine ticket) (hsame : Same traffic next ticket) :
    next.Fine ticket := by
  constructor
  case waits =>
    intro kind hreaches
    rw [hsame.kind?, hsame.letter]
    exact h.waits kind (hsame.reaches.1 hreaches)
  case heard =>
    intro kind hkind hawaited
    exact hsame.reaches.2 (h.heard kind (hsame.kind?.symm.trans hkind)
      (hsame.letter.symm.trans hawaited))
  case apart =>
    intro kind reply hlisted hhanded
    exact h.apart kind reply ((hsame.listed kind).1 hlisted) ((hsame.handed reply).1 hhanded)
  case answered =>
    exact fun reply hletter => hsame.kind?.trans
      (h.answered reply (hsame.letter.symm.trans hletter))
  case fits =>
    intro party hparty
    rw [hsame.letter]
    exact h.fits party (hsame.party.symm.trans hparty)
  case underway =>
    rw [hsame.progress, hsame.party]
    exact h.underway

/-- A turn that concerns one ticket keeps all sound if it leaves that ticket well. -/
theorem Sound.of_same (h : traffic.Sound) (ticket : Ticket)
    (hsame : ∀ other, other ≠ ticket → Same traffic next other)
    (hfine : next.Fine ticket)
    (hmail : next.exchange.mail.length = traffic.exchange.mail.length)
    (hparties : next.parties.length = traffic.parties.length)
    (hcalls : next.calls.length = traffic.calls.length)
    (hkeys : (next.exchange.listeners.map Prod.fst).Nodup)
    (hhands : (next.hands.map Prod.fst).Nodup)
    (honce : ∃ order : List Ticket, order.Nodup ∧
      (∀ ticket, ticket ∈ order ↔ next.progress? ticket = some .accepted) ∧
      next.exchange.sent.map some = order.map next.kind?) : next.Sound := by
  refine ⟨?_, ?_, hkeys, hhands, fun other => ?_, honce⟩
  · rw [hmail, hparties, h.mail]
  · rw [hcalls, hparties, h.calls]
  · by_cases heq : other = ticket
    · rw [heq]
      exact hfine
    · exact (h.fine other).same (hsame other heq)

/-- What was accepted and sent, after a turn that neither accepts nor sends. -/
theorem Sound.once_of (h : traffic.Sound)
    (haccepted : ∀ ticket, next.progress? ticket = some .accepted ↔
      traffic.progress? ticket = some .accepted)
    (hkinds : ∀ ticket, next.kind? ticket = traffic.kind? ticket)
    (hsent : next.exchange.sent = traffic.exchange.sent) :
    ∃ order : List Ticket, order.Nodup ∧
      (∀ ticket, ticket ∈ order ↔ next.progress? ticket = some .accepted) ∧
      next.exchange.sent.map some = order.map next.kind? := by
  obtain ⟨order, hnodup, hmem, horder⟩ := h.once
  refine ⟨order, hnodup, fun ticket => (hmem ticket).trans (haccepted ticket).symm, ?_⟩
  rw [hsent, horder]
  exact List.map_congr_left fun ticket _ => (hkinds ticket).symm

theorem map_kind_change {dialogue : Dialogue}
    (next : (kind : Request) → Holder kind.Content → Holder kind.Content) :
    ((dialogue.change ticket next).party? other).map Party.kind =
      (dialogue.party? other).map Party.kind := by
  rw [Dialogue.party?_change]
  split
  · cases dialogue.party? other <;> rfl
  · rfl

/-! ### Turns of calls -/

theorem progress?_set (hprogress : traffic.progress? ticket = some was) (other : Ticket) :
    (traffic.calls.set ticket.index progress)[other.index]? =
      if other = ticket then some progress else traffic.progress? other := by
  obtain ⟨index⟩ := ticket
  obtain ⟨position⟩ := other
  simp only [Ticket.mk.injEq]
  by_cases h : position = index
  · rw [if_pos h, h, List.getElem?_set_self (List.getElem?_eq_some_iff.1 hprogress).1]
  · rw [if_neg h, List.getElem?_set_ne (Ne.symm h)]
    rfl

theorem Sound.sent (h : traffic.Sound) (hparty : traffic.party? ticket = some party)
    (hprogress : traffic.progress? ticket = some .sending) :
    (traffic.sent ticket party.kind).Sound := by
  have hset : ∀ other, (traffic.sent ticket party.kind).progress? other =
      if other = ticket then some .accepted else traffic.progress? other := progress?_set hprogress
  have hfine := h.fine ticket
  refine h.of_same ticket ?_ ?_ rfl rfl List.length_set h.keys h.hands ?_
  · exact fun other hne => ⟨rfl, (hset other).trans (if_neg hne), rfl, fun _ => Iff.rfl,
      fun _ => Iff.rfl⟩
  · refine ⟨hfine.waits, hfine.heard, hfine.apart, hfine.answered, hfine.fits, ?_⟩
    rw [hset, if_pos rfl]
    rintro (hunder | hunder) <;> cases hunder
  · obtain ⟨order, hnodup, hmem, hsent⟩ := h.once
    have hnew : ticket ∉ order := by
      rw [hmem, hprogress]
      simp
    refine ⟨order ++ [ticket], hnodup.append (List.nodup_singleton _) (by simpa using hnew), ?_, ?_⟩
    · intro other
      rw [hset, List.mem_append, List.mem_singleton, hmem]
      split <;> simp [*]
    · change (traffic.exchange.sent ++ [party.kind]).map some =
        (order ++ [ticket]).map traffic.kind?
      rw [List.map_append, List.map_append, hsent, List.map_singleton, List.map_singleton,
        kind?_of_party? hparty]

theorem Sound.failed (h : traffic.Sound) (hprogress : traffic.progress? ticket = some .sending) :
    (traffic.failed ticket).Sound := by
  have hset : ∀ other, (traffic.failed ticket).progress? other =
      if other = ticket then some .failing else traffic.progress? other := progress?_set hprogress
  have hfine := h.fine ticket
  refine h.of_same ticket ?_ ?_ rfl rfl List.length_set h.keys h.hands
    (h.once_of ?_ (fun _ => rfl) rfl)
  · exact fun other hne => ⟨rfl, (hset other).trans (if_neg hne), rfl, fun _ => Iff.rfl,
      fun _ => Iff.rfl⟩
  · exact ⟨hfine.waits, hfine.heard, hfine.apart, hfine.answered, hfine.fits,
      fun _ => hfine.underway (Or.inl hprogress)⟩
  · intro other
    rw [hset]
    split
    · rename_i heq
      rw [heq, hprogress]
      simp
    · rfl

theorem Sound.taken (h : traffic.Sound)
    (hlistener : traffic.exchange.listener? reply.request = some ticket) :
    (traffic.taken ticket reply).Sound := by
  have hlisted := Exchange.mem_of_listener? hlistener
  have hfine := h.fine ticket
  obtain ⟨hkind, hwaits⟩ := hfine.waits _ (Or.inl hlisted)
  have hfree : ∀ found, (ticket, found) ∉ traffic.hands := fun found => hfine.apart _ found hlisted
  have hhands : ∀ other found, (other, found) ∈ (traffic.taken ticket reply).hands ↔
      (other, found) ∈ traffic.hands ∨ (other, found) = (ticket, reply) := by
    simp [Traffic.taken]
  -- no other listener is of this kind, and this one is of no other
  have hlisteners : ∀ other kind, (kind, other) ∈ (traffic.taken ticket reply).exchange.listeners ↔
      (kind, other) ∈ traffic.exchange.listeners ∧ other ≠ ticket :=
    fun _ _ => h.mem_unlisten hlisted
  have hreaches : ∀ kind,
      (traffic.taken ticket reply).Reaches kind ticket ↔ kind = reply.request := by
    intro kind
    simp only [Reaches, hlisteners, hhands, Prod.mk.injEq, true_and]
    constructor
    · rintro (⟨-, hne⟩ | ⟨found, hfound | rfl, rfl⟩)
      · exact absurd rfl hne
      · exact absurd hfound (hfree found)
      · rfl
    · rintro rfl
      exact Or.inr ⟨reply, Or.inr rfl, rfl⟩
  refine h.of_same ticket ?_ ?_ rfl rfl rfl
    (h.keys.sublist (List.filter_sublist.map _)) ?_
      (h.once_of (fun _ => Iff.rfl) (fun _ => rfl) rfl)
  · intro other hne
    refine ⟨rfl, rfl, rfl, fun kind => ?_, fun found => ?_⟩
    · rw [hlisteners, and_iff_left hne]
    · rw [hhands, or_iff_left]
      rintro heq
      exact hne (Prod.ext_iff.1 heq).1
  · constructor
    case waits =>
      intro kind hreach
      rw [(hreaches kind).1 hreach]
      exact ⟨hkind, hwaits⟩
    case heard =>
      exact fun kind hfound _ => (hreaches kind).2 (Option.some.inj (hfound.symm.trans hkind))
    case apart => exact fun kind found hmem => absurd rfl ((hlisteners ticket kind).1 hmem).2
    case answered => exact hfine.answered
    case fits => exact hfine.fits
    case underway => exact hfine.underway
  · simp only [Traffic.taken, List.map_append, List.map_cons, List.map_nil]
    refine h.hands.append (List.nodup_singleton _) ?_
    rw [List.disjoint_singleton, List.mem_map]
    rintro ⟨⟨other, found⟩, hmem, rfl⟩
    exact hfree found hmem

theorem mem_hands_hand {found : Reply} :
    (other, found) ∈ (traffic.hand ticket reply).hands ↔
      (other, found) ∈ traffic.hands ∧ other ≠ ticket := by
  simp [Traffic.hand]

theorem Sound.hand (h : traffic.Sound) (hmem : (ticket, reply) ∈ traffic.hands) :
    (traffic.hand ticket reply).Sound := by
  have hletter : ∀ other, (traffic.hand ticket reply).exchange.mail.letter other = _ :=
    Exchange.letter_hand ticket reply
  have hlisteners : (traffic.hand ticket reply).exchange.listeners = traffic.exchange.listeners :=
    Exchange.listeners_hand ticket reply
  have hfine := h.fine ticket
  obtain ⟨hkind, hwaits⟩ := hfine.waits _ (Or.inr ⟨reply, hmem, rfl⟩)
  have hunreached : ∀ kind, ¬(traffic.hand ticket reply).Reaches kind ticket := by
    rintro kind (hlisted | ⟨found, hfound, -⟩)
    · rw [hlisteners] at hlisted
      exact hfine.apart kind reply hlisted hmem
    · exact (mem_hands_hand.1 hfound).2 rfl
  -- the letter is answered if anybody waits for it still
  have hsettled : (traffic.hand ticket reply).exchange.mail.letter ticket = .answered reply ∨
      (traffic.hand ticket reply).exchange.mail.letter ticket = .discarded ∧
        traffic.exchange.mail.letter ticket = .discarded := by
    rw [hletter]
    rcases hwaits with hawaited | hdiscarded
    · exact Or.inl (if_pos ⟨rfl, hawaited⟩)
    · rw [hdiscarded]
      exact Or.inr ⟨if_neg fun hboth => Letter.noConfusion hboth.2, rfl⟩
  refine h.of_same ticket ?_ ?_ (Exchange.length_hand ticket reply) rfl rfl ?_
    (h.hands.sublist (List.filter_sublist.map _))
    (h.once_of (fun _ => Iff.rfl) (fun _ => rfl) (Exchange.sent_hand ticket reply))
  · intro other hne
    refine ⟨rfl, rfl, (hletter other).trans (if_neg fun hboth => hne hboth.1), fun kind => ?_,
      fun found => ?_⟩
    · rw [hlisteners]
    · rw [mem_hands_hand, and_iff_left hne]
  · constructor
    case waits => exact fun kind hreach => absurd hreach (hunreached kind)
    case heard =>
      intro kind _ hawaited
      rcases hsettled with hanswered | ⟨hdiscarded, -⟩
      · rw [hanswered] at hawaited
        cases hawaited
      · rw [hdiscarded] at hawaited
        cases hawaited
    case apart => exact fun kind found hlisted => absurd (Or.inl hlisted) (hunreached kind)
    case answered =>
      intro found hfound
      rcases hsettled with hanswered | ⟨hdiscarded, -⟩
      · rw [hanswered] at hfound
        cases hfound
        exact hkind
      · rw [hdiscarded] at hfound
        cases hfound
    case fits =>
      intro party hparty
      refine (hfine.fits party hparty).becomes ?_
      rw [hletter]
      split
      · rename_i hboth
        exact Or.inr ⟨hboth.2, Letter.noConfusion, Letter.noConfusion⟩
      · exact Or.inl rfl
    case underway => exact hfine.underway
  · rw [hlisteners]
    exact h.keys

/-! ### Turns of others -/

/-- A turn of somebody who has got a reply to look at. -/
theorem Sound.change (h : traffic.Sound) (haccepted : traffic.progress? ticket = some .accepted)
    {next : (kind : Request) → Holder kind.Content → Holder kind.Content}
    (hfits : ∀ (kind : Request) (holder : Holder kind.Content),
      holder.Fits ticket (traffic.exchange.mail.letter ticket) →
        (next kind holder).Fits ticket (traffic.exchange.mail.letter ticket)) :
    Sound { traffic with toDialogue := traffic.change ticket next } := by
  have hfine := h.fine ticket
  have hparties : ∀ other,
      ({ traffic with toDialogue := traffic.change ticket next } : Traffic).party? other =
        if other = ticket then
          (traffic.party? other).map fun party => ⟨party.kind, next party.kind party.holder⟩
        else traffic.party? other :=
    fun other => Dialogue.party?_change next
  have hkinds : ∀ other,
      ({ traffic with toDialogue := traffic.change ticket next } : Traffic).kind? other =
        traffic.kind? other :=
    fun other => map_kind_change next
  refine h.of_same ticket ?_ ?_ rfl (List.length_modify ..) rfl h.keys h.hands
    (h.once_of (fun _ => Iff.rfl) hkinds rfl)
  · exact fun other hne => ⟨(hparties other).trans (if_neg hne), rfl, rfl, fun _ => Iff.rfl,
      fun _ => Iff.rfl⟩
  · constructor
    case waits =>
      intro kind hreach
      rw [hkinds]
      exact hfine.waits kind hreach
    case heard =>
      intro kind hkind
      rw [hkinds] at hkind
      exact hfine.heard kind hkind
    case apart => exact hfine.apart
    case answered =>
      intro reply hletter
      rw [hkinds]
      exact hfine.answered reply hletter
    case fits =>
      intro party hparty
      rw [hparties, if_pos rfl] at hparty
      obtain ⟨before, hbefore, rfl⟩ := Option.map_eq_some_iff.1 hparty
      exact hfits _ _ (hfine.fits before hbefore)
    case underway =>
      intro hunder
      change traffic.progress? ticket = _ ∨ traffic.progress? ticket = _ at hunder
      rw [haccepted] at hunder
      simp at hunder

/-- With the reply at a ticket let go of, when calls have come so far. -/
def released (traffic : Traffic) (ticket : Ticket) (calls : List Progress) : Traffic :=
  ⟨({ traffic.toDialogue with exchange := traffic.exchange.discard ticket }).change ticket
    fun _ => Holder.drop, calls, traffic.hands⟩

theorem party?_released : (traffic.released ticket calls).party? other =
    if other = ticket then
      (traffic.party? other).map fun party => ⟨party.kind, party.holder.drop⟩
    else traffic.party? other :=
  Dialogue.party?_change _

theorem kind?_released : (traffic.released ticket calls).kind? other = traffic.kind? other :=
  map_kind_change _

theorem letter_released : (traffic.released ticket calls).exchange.mail.letter other =
    if other = ticket ∧ traffic.exchange.mail.letter ticket = .awaited then .discarded
    else traffic.exchange.mail.letter other :=
  Exchange.letter_discard other

theorem listeners_released :
    (traffic.released ticket calls).exchange.listeners = traffic.exchange.listeners :=
  Exchange.listeners_discard

theorem reaches_released :
    (traffic.released ticket calls).Reaches kind other ↔ traffic.Reaches kind other := by
  rw [Reaches, listeners_released]
  rfl

theorem unawaited_released :
    (traffic.released ticket calls).exchange.mail.letter ticket ≠ .awaited := by
  rw [letter_released]
  split
  · exact Letter.noConfusion
  · rename_i hnot
    exact fun hawaited => hnot ⟨rfl, hawaited⟩

/-- Whoever has let go of a reply, and is no call under way, is well. -/
theorem Fine.released (h : traffic.Fine ticket) (hparty : traffic.party? ticket = some party)
    (hover : ¬(calls[ticket.index]? = some .sending ∨ calls[ticket.index]? = some .failing)) :
    (traffic.released ticket calls).Fine ticket := by
  constructor
  case waits =>
    intro kind hreach
    obtain ⟨hkind, hwaits⟩ := h.waits kind (reaches_released.1 hreach)
    refine ⟨kind?_released.trans hkind, Or.inr ?_⟩
    rw [letter_released]
    split
    · rfl
    · rename_i hnot
      exact hwaits.resolve_left fun hawaited => hnot ⟨rfl, hawaited⟩
  case heard => exact fun kind _ hawaited => absurd hawaited unawaited_released
  case apart =>
    rw [listeners_released]
    exact h.apart
  case answered =>
    intro found hfound
    rw [letter_released] at hfound
    split at hfound
    · cases hfound
    · exact kind?_released.trans (h.answered found hfound)
  case fits =>
    intro found hfound
    rw [party?_released, if_pos rfl, hparty] at hfound
    cases hfound
    exact (h.fits party hparty).release.2
  case underway => exact fun hunder => absurd hunder hover

/-- Somebody lets go of the reply at a ticket, and the call that made the request is over. -/
theorem Sound.released (h : traffic.Sound) (hparty : traffic.party? ticket = some party)
    (hlength : calls.length = traffic.calls.length)
    (hkept : ∀ other, other ≠ ticket → calls[other.index]? = traffic.progress? other)
    (hover : ¬(calls[ticket.index]? = some .sending ∨ calls[ticket.index]? = some .failing))
    (haccepted : calls[ticket.index]? = some .accepted ↔
      traffic.progress? ticket = some .accepted) :
    (traffic.released ticket calls).Sound := by
  refine h.of_same ticket (fun other hne => ?_) ((h.fine ticket).released hparty hover)
    Exchange.length_discard (List.length_modify ..) hlength ?_ h.hands
    (h.once_of (fun other => ?_) (fun _ => kind?_released) Exchange.sent_discard)
  · refine ⟨party?_released.trans (if_neg hne), hkept other hne,
      letter_released.trans (if_neg fun hboth => hne hboth.1), fun kind => ?_, fun _ => Iff.rfl⟩
    rw [listeners_released]
  · rw [listeners_released]
    exact h.keys
  · change calls[other.index]? = some .accepted ↔ _
    by_cases hother : other = ticket
    · rw [hother]
      exact haccepted
    · rw [hkept other hother]

theorem isQuiet_iff : traffic.isQuiet = true ↔
    (∀ progress ∈ traffic.calls, progress = .accepted ∨ progress = .withdrawn) ∧
      traffic.hands = [] := by
  simp [isQuiet]

theorem Sound.hangUp (h : traffic.Sound) (hquiet : traffic.isQuiet = true) :
    Sound { traffic with exchange := traffic.exchange.hangUp, linked := false } := by
  obtain ⟨hcalls, hhands⟩ := isQuiet_iff.1 hquiet
  have hletter : ∀ other, traffic.exchange.hangUp.mail.letter other = _ := Exchange.letter_hangUp
  have hunreached : ∀ kind other,
      ¬({ traffic with exchange := traffic.exchange.hangUp, linked := false } : Traffic).Reaches
        kind other := by
    rintro kind other (hmem | ⟨reply, hmem, -⟩)
    · cases hmem
    · rw [hhands] at hmem
      cases hmem
  refine ⟨(List.length_map _).trans h.mail, h.calls, List.nodup_nil, h.hands, fun other => ?_,
    h.once⟩
  have hfine := h.fine other
  constructor
  case waits => exact fun kind hreach => absurd hreach (hunreached kind other)
  case heard =>
    intro kind _ hawaited
    rw [hletter] at hawaited
    split at hawaited
    · cases hawaited
    · contradiction
  case apart => exact fun kind reply hmem => absurd (Or.inl hmem) (hunreached kind other)
  case answered =>
    intro reply hfound
    rw [hletter] at hfound
    split at hfound
    · cases hfound
    · exact hfine.answered reply hfound
  case fits =>
    intro party hparty
    refine (hfine.fits party hparty).becomes ?_
    rw [hletter]
    split
    · exact Or.inr ⟨‹_›, Letter.noConfusion, Letter.noConfusion⟩
    · exact Or.inl rfl
  case underway =>
    rintro (hunder | hunder) <;>
    · rcases hcalls _ (List.mem_of_getElem? hunder) with hover | hover <;> cases hover

theorem Sound.setChannel (h : traffic.Sound) (ready : Bool) :
    Sound { traffic with exchange := { traffic.exchange with channelReady := ready } } :=
  ⟨h.mail, h.calls, h.keys, h.hands,
    fun ticket => ⟨(h.fine ticket).waits, (h.fine ticket).heard, (h.fine ticket).apart,
      (h.fine ticket).answered, (h.fine ticket).fits, (h.fine ticket).underway⟩, h.once⟩

/-! ### Listeners that are put up and taken down -/

/-- A listener can be taken down if nobody waits at its ticket afterwards. -/
theorem Sound.unlist (h : traffic.Sound) (hlisted : (kind, ticket) ∈ traffic.exchange.listeners)
    {exchange : Exchange}
    (hlisteners : exchange.listeners = (traffic.exchange.unlisten kind).listeners)
    (hsent : exchange.sent = traffic.exchange.sent)
    (hmail : exchange.mail.length = traffic.exchange.mail.length)
    (hkept : ∀ other, other ≠ ticket →
      exchange.mail.letter other = traffic.exchange.mail.letter other)
    (hgone : exchange.mail.letter ticket = .abandoned ∨ exchange.mail.letter ticket = .discarded)
    (hbecomes : (traffic.exchange.mail.letter ticket).Becomes (exchange.mail.letter ticket)) :
    Sound { traffic with exchange := exchange } := by
  have hfine := h.fine ticket
  have hlisted' : ∀ other found, (found, other) ∈ exchange.listeners ↔
      (found, other) ∈ traffic.exchange.listeners ∧ other ≠ ticket := by
    intro other found
    rw [hlisteners]
    exact h.mem_unlisten hlisted
  have hunreached : ∀ found,
      ¬({ traffic with exchange := exchange } : Traffic).Reaches found ticket := by
    rintro found (hmem | ⟨reply, hmem, -⟩)
    · exact ((hlisted' ticket found).1 hmem).2 rfl
    · exact hfine.apart _ reply hlisted hmem
  refine h.of_same ticket ?_ ?_ hmail rfl rfl ?_ h.hands
    (h.once_of (fun _ => Iff.rfl) (fun _ => rfl) hsent)
  · refine fun other hne => ⟨rfl, rfl, hkept other hne, fun found => ?_, fun _ => Iff.rfl⟩
    rw [hlisted', and_iff_left hne]
  · refine ⟨fun found hreach => absurd hreach (hunreached found), fun found _ hawaited => ?_,
      fun found reply hmem => absurd (Or.inl hmem) (hunreached found), fun reply hanswered => ?_,
      fun party hparty => (hfine.fits party hparty).becomes hbecomes, hfine.underway⟩
    · rcases hgone with hgone | hgone <;> cases hgone.symm.trans hawaited
    · rcases hgone with hgone | hgone <;> cases hgone.symm.trans hanswered
  · rw [hlisteners]
    exact h.keys.sublist (List.filter_sublist.map _)

/-- A listener whose reply nobody wants any more can be taken down. -/
theorem Sound.unlisten (h : traffic.Sound) (hfree : ¬traffic.exchange.Busy kind) :
    Sound { traffic with exchange := traffic.exchange.unlisten kind } := by
  cases hlistener : traffic.exchange.listener? kind with
  | none =>
    rw [Exchange.unlisten_of_listener?_none hlistener]
    exact h
  | some ticket =>
    have hdiscarded : traffic.exchange.mail.letter ticket = .discarded := by
      by_contra hwanted
      exact hfree ⟨ticket, hlistener, hwanted⟩
    exact h.unlist (Exchange.mem_of_listener? hlistener) rfl rfl rfl (fun _ _ => rfl)
      (Or.inr hdiscarded) (Or.inl rfl)

/-- A call that could not send takes whatever listener of its kind is up down. -/
theorem Sound.withdrawn (h : traffic.Sound) (kind : Request) :
    Sound { traffic with exchange := traffic.exchange.withdraw kind } := by
  cases hlistener : traffic.exchange.listener? kind with
  | none =>
    have hsame : traffic.exchange.withdraw kind = traffic.exchange := by
      simp only [Exchange.withdraw, hlistener]
    rw [hsame]
    exact h
  | some ticket =>
    have hlisted := Exchange.mem_of_listener? hlistener
    have hletter : ∀ other, (traffic.exchange.withdraw kind).mail.letter other = _ :=
      Exchange.letter_withdraw
    refine h.unlist hlisted Exchange.listeners_withdraw Exchange.sent_withdraw
      Exchange.length_withdraw (fun other hne => ?_) ?_ ?_
    · rw [hletter, hlistener, if_neg fun hboth => hne (Option.some.inj hboth.1).symm]
    · rw [hletter, hlistener]
      rcases ((h.fine ticket).waits _ (Or.inl hlisted)).2 with hawaited | hdiscarded
      · exact Or.inl (if_pos ⟨rfl, hawaited⟩)
      · rw [if_neg fun hboth => Letter.noConfusion (hdiscarded.symm.trans hboth.2)]
        exact Or.inr hdiscarded
    · rw [hletter]
      split
      · rename_i hboth
        exact Or.inr ⟨hboth.2, Letter.noConfusion, Letter.noConfusion⟩
      · exact Or.inl rfl

theorem Sound.withdraw_eq (h : traffic.Sound) (hparty : traffic.party? ticket = some party) :
    traffic.withdraw ticket kind =
      ({ traffic with exchange := traffic.exchange.withdraw kind } : Traffic).released ticket
        (traffic.calls.set ticket.index .withdrawn) := by
  have hfits := ((h.withdrawn kind).fine ticket).fits party hparty
  have hunlisted : Dialogue.party? { traffic.toDialogue with
      exchange := traffic.exchange.withdraw kind } ticket = some party := hparty
  simp only [Traffic.withdraw, Dialogue.step, hunlisted, hfits.release.1]
  rfl

theorem Sound.mem_listeners_withdraw (h : traffic.Sound)
    (hparty : traffic.party? ticket = some party) {found : Request} :
    (found, other) ∈ (traffic.withdraw ticket kind).exchange.listeners ↔
      (found, other) ∈ traffic.exchange.listeners ∧ found ≠ kind := by
  rw [h.withdraw_eq hparty, listeners_released, ← Exchange.mem_unlisten]
  change (found, other) ∈ (traffic.exchange.withdraw kind).listeners ↔ _
  rw [Exchange.listeners_withdraw]

theorem Sound.withdraw (h : traffic.Sound) (hparty : traffic.party? ticket = some party)
    (hprogress : traffic.progress? ticket = some .failing) :
    (traffic.withdraw ticket kind).Sound := by
  have hset : ∀ other : Ticket, (traffic.calls.set ticket.index .withdrawn)[other.index]? =
      if other = ticket then some Progress.withdrawn else traffic.progress? other :=
    progress?_set hprogress
  rw [h.withdraw_eq hparty]
  refine (h.withdrawn kind).released hparty List.length_set
    (fun other hne => (hset other).trans (if_neg hne)) ?_ ?_
  · rw [hset, if_pos rfl]
    rintro (hunder | hunder) <;> cases hunder
  · rw [hset, if_pos rfl]
    refine iff_of_false (by rintro ⟨⟩) fun haccepted => ?_
    cases hprogress.symm.trans haccepted

/-! ### Tickets that are handed out -/

theorem party?_new : traffic.party? ⟨traffic.parties.length⟩ = none :=
  List.getElem?_eq_none (Nat.le_refl _)

theorem Sound.letter_new (h : traffic.Sound) :
    traffic.exchange.mail.letter ⟨traffic.parties.length⟩ = .abandoned := by
  rw [← h.mail, Mail.letter, List.getElem?_eq_none (Nat.le_refl _)]
  rfl

theorem Sound.progress?_new (h : traffic.Sound) :
    traffic.progress? ⟨traffic.parties.length⟩ = none := by
  rw [← h.calls]
  exact List.getElem?_eq_none (Nat.le_refl _)

theorem Sound.not_reaches_new (h : traffic.Sound) :
    ¬traffic.Reaches kind ⟨traffic.parties.length⟩ := by
  intro hreach
  have hkind := ((h.fine _).waits kind hreach).1
  rw [kind?, party?_new] at hkind
  cases hkind

theorem Sound.party?_listed (h : traffic.Sound) : (traffic.listed kind).party? other =
    if other = ⟨traffic.parties.length⟩ then
      some ⟨kind, .held (.awaiting ⟨traffic.parties.length⟩)⟩
    else traffic.party? other := by
  have hat := Exchange.getElem?_concat_ticket other
    (⟨kind, .held (.awaiting ⟨traffic.parties.length⟩)⟩ : Party) traffic.parties
  rw [← h.mail] at hat ⊢
  exact hat

theorem Sound.progress?_listed (h : traffic.Sound) : (traffic.listed kind).progress? other =
    if other = ⟨traffic.parties.length⟩ then some .sending else traffic.progress? other := by
  rw [← h.calls]
  exact Exchange.getElem?_concat_ticket other Progress.sending traffic.calls

theorem Sound.letter_listed (h : traffic.Sound) :
    (traffic.listed kind).exchange.mail.letter other =
      if other = ⟨traffic.parties.length⟩ then .awaited
      else traffic.exchange.mail.letter other := by
  rw [← h.mail]
  exact Exchange.letter_append other .awaited traffic.exchange.mail

theorem Sound.mem_listeners_listed (h : traffic.Sound)
    (hnone : traffic.exchange.listener? kind = none) {found : Request} :
    (found, other) ∈ (traffic.listed kind).exchange.listeners ↔
      (found, other) ∈ traffic.exchange.listeners ∨
        found = kind ∧ other = ⟨traffic.parties.length⟩ := by
  simp only [Traffic.listed, Exchange.listed, Exchange.unlisten_of_listener?_none hnone, h.mail,
    List.mem_append, List.mem_singleton, Prod.mk.injEq]

theorem Sound.same_listed (h : traffic.Sound) (hnone : traffic.exchange.listener? kind = none)
    (hold : other ≠ ⟨traffic.parties.length⟩) : Same traffic (traffic.listed kind) other := by
  refine ⟨h.party?_listed.trans (if_neg hold), h.progress?_listed.trans (if_neg hold),
    h.letter_listed.trans (if_neg hold), fun found => ?_, fun _ => Iff.rfl⟩
  rw [h.mem_listeners_listed hnone, or_iff_left fun hboth => hold hboth.2]

theorem Sound.fine_listed (h : traffic.Sound) (hnone : traffic.exchange.listener? kind = none) :
    (traffic.listed kind).Fine ⟨traffic.parties.length⟩ := by
  have hparty : (traffic.listed kind).party? ⟨traffic.parties.length⟩ = _ :=
    h.party?_listed.trans (if_pos rfl)
  have hawaited : (traffic.listed kind).exchange.mail.letter ⟨traffic.parties.length⟩ = _ :=
    h.letter_listed.trans (if_pos rfl)
  have hkind : (traffic.listed kind).kind? ⟨traffic.parties.length⟩ = some kind := by
    rw [kind?, hparty]
    rfl
  have hunhanded : ∀ reply, (⟨traffic.parties.length⟩, reply) ∉ traffic.hands :=
    fun reply hmem => h.not_reaches_new (Or.inr ⟨reply, hmem, rfl⟩)
  constructor
  case waits =>
    rintro found (hmem | ⟨reply, hmem, -⟩)
    · rcases (h.mem_listeners_listed hnone).1 hmem with hold | ⟨rfl, -⟩
      · exact absurd (Or.inl hold) h.not_reaches_new
      · exact ⟨hkind, Or.inl hawaited⟩
    · exact absurd hmem (hunhanded reply)
  case heard =>
    intro found hfound _
    obtain rfl := Option.some.inj (hkind.symm.trans hfound)
    exact Or.inl ((h.mem_listeners_listed hnone).2 (Or.inr ⟨rfl, rfl⟩))
  case apart => exact fun _ reply _ => hunhanded reply
  case answered => exact fun reply hfound => Letter.noConfusion (hawaited.symm.trans hfound)
  case fits =>
    intro party hfound
    rw [hparty] at hfound
    cases hfound
    rw [hawaited]
    exact Or.inl ⟨rfl, Letter.noConfusion⟩
  case underway => exact fun _ => ⟨kind, hparty⟩

/-- A new listener is put up where there is none of its kind. -/
theorem Sound.listed_of_unlisted (h : traffic.Sound)
    (hnone : traffic.exchange.listener? kind = none) : (traffic.listed kind).Sound := by
  refine ⟨?_, ?_, ?_, h.hands, fun other => ?_, ?_⟩
  · simp only [Traffic.listed, Exchange.listed, List.length_append, List.length_singleton, h.mail]
  · simp only [Traffic.listed, List.length_append, List.length_singleton, h.calls]
  · simp only [Traffic.listed, Exchange.listed, Exchange.unlisten_of_listener?_none hnone,
      List.map_append, List.map_cons, List.map_nil]
    refine h.keys.append (List.nodup_singleton _) ?_
    rw [List.disjoint_singleton, List.mem_map]
    rintro ⟨⟨found, other⟩, hmem, rfl⟩
    rw [Exchange.listener?_of_mem h.keys hmem] at hnone
    cases hnone
  · by_cases hother : other = ⟨traffic.parties.length⟩
    · rw [hother]
      exact h.fine_listed hnone
    · exact (h.fine other).same (h.same_listed hnone hother)
  · obtain ⟨order, hnodup, hmem, hsent⟩ := h.once
    have hold : ∀ other, traffic.progress? other = some .accepted →
        other ≠ ⟨traffic.parties.length⟩ := by
      rintro other hother rfl
      cases h.progress?_new.symm.trans hother
    refine ⟨order, hnodup, fun other => ?_,
      hsent.trans (List.map_congr_left fun other hother => ?_)⟩
    · rw [hmem, h.progress?_listed]
      constructor
      · intro hother
        rw [if_neg (hold other hother)]
        exact hother
      · intro hother
        split at hother
        · cases hother
        · exact hother
    · exact (h.same_listed hnone (hold other ((hmem other).1 hother))).kind?.symm

theorem Sound.listed (h : traffic.Sound) (hfree : ¬traffic.exchange.Busy kind) :
    (traffic.listed kind).Sound := by
  have hnone : (traffic.exchange.unlisten kind).listener? kind = none :=
    Option.isSome_eq_false_iff.1 Exchange.inFlight_unlisten |> Option.isNone_iff_eq_none.1
  have hlisted := (h.unlisten hfree).listed_of_unlisted hnone
  have htwice : (traffic.exchange.unlisten kind).unlisten kind = traffic.exchange.unlisten kind :=
    Exchange.unlisten_of_listener?_none hnone
  have hsame : (⟨⟨traffic.exchange.unlisten kind, traffic.linked, traffic.parties⟩, traffic.calls,
      traffic.hands⟩ : Traffic).listed kind = traffic.listed kind := by
    simp only [Traffic.listed, Exchange.listed, htwice]
    rfl
  rw [← hsame]
  exact hlisted

/-! ### Runs -/

theorem sound_initial : initial.Sound := by
  refine ⟨rfl, rfl, List.nodup_nil, List.nodup_nil, fun ticket => ?_, [], List.nodup_nil, ?_, rfl⟩
  · refine ⟨?_, fun _ hkind => ?_, fun _ _ _ => List.not_mem_nil, fun _ hletter => ?_,
      fun _ hparty => ?_, ?_⟩
    · rintro kind (hmem | ⟨reply, hmem, -⟩) <;> cases hmem
    · cases hkind
    · cases hletter
    · cases hparty
    · rintro (hunder | hunder) <;> cases hunder
  · exact fun ticket => iff_of_false List.not_mem_nil (by rintro ⟨⟩)

theorem Sound.act (h : traffic.Sound) {act : Act} (hallowed : traffic.allows act = true) :
    Sound { traffic with toDialogue := traffic.toDialogue.step act } := by
  cases act with
  | request kind => cases hallowed
  | deliver reply => cases hallowed
  | deliverJson text => cases hallowed
  | poll ticket => exact h.change (beq_iff_eq.1 hallowed) fun _ _ hfits => hfits.poll
  | wait ticket => exact h.change (beq_iff_eq.1 hallowed) fun _ _ hfits => hfits.wait
  | resume ticket => exact h.change (beq_iff_eq.1 hallowed) fun _ _ hfits => hfits.resume
  | drop ticket =>
    have haccepted : traffic.progress? ticket = some .accepted := beq_iff_eq.1 hallowed
    cases hparty : traffic.party? ticket with
    | none =>
      simp only [Dialogue.step, hparty]
      exact h
    | some party =>
      simp only [Dialogue.step, hparty, ((h.fine ticket).fits party hparty).release.1]
      refine h.released hparty rfl (fun _ _ => rfl) ?_ Iff.rfl
      change ¬(traffic.progress? ticket = _ ∨ traffic.progress? ticket = _)
      rw [haccepted]
      simp
  | setChannel ready => exact h.setChannel ready
  | hangUp =>
    simp only [Dialogue.step]
    split
    · exact h.hangUp hallowed
    · exact h

/-- Every turn keeps all sound. -/
theorem Sound.step (h : traffic.Sound) (turn : Turn) : (traffic.step turn).Sound := by
  have heffect := traffic.effect_step turn
  generalize traffic.step turn = next at heffect ⊢
  cases heffect with
  | idle => exact h
  | listed kind hlinked hfree => exact h.listed hfree
  | sent ticket party hparty hprogress => exact h.sent hparty hprogress
  | failed ticket hprogress => exact h.failed hprogress
  | withdrawn ticket party hparty hprogress => exact h.withdraw hparty hprogress
  | taken turn reply ticket hreply hlinked hlistener => exact h.taken hlistener
  | handed ticket reply hmem => exact h.hand hmem
  | acted act hallowed => exact h.act hallowed

theorem Sound.run (h : traffic.Sound) (turns : List Turn) : (traffic.run turns).Sound := by
  induction turns generalizing traffic with
  | nil => exact h
  | cons turn rest ih => exact ih (h.step turn)

end Traffic

end Capabilities.Host
