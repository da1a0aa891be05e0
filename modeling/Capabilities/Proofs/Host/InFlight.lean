import Mathlib.Data.List.Basic
import Capabilities.Proofs.Host.Protocol

/-!
# Who is in flight

Three things tell whether a request of a kind waits for its reply: whether a listener of the kind
is there, whether the next request of the kind is refused, and whether the next reply of the kind
is wanted. The second and the third say just whether a request is outstanding. The first says so
too, unless the holder of the last such request has let go of its reply: nobody takes its listener
away then, before the next request or reply of the kind comes. Such a listener is *stale*.
-/

namespace Capabilities.Host

namespace Exchange

variable {exchange : Exchange} {kind other : Request} {ticket : Ticket} {reply : Reply}

/-- A listener of the kind waits for a reply that was given up. -/
def Stale (exchange : Exchange) (kind : Request) : Prop :=
  ∃ ticket, (kind, ticket) ∈ exchange.listeners ∧ exchange.mail.letter ticket = .discarded

theorem Consistent.inFlight_iff_mem (h : exchange.Consistent) :
    exchange.inFlight kind = true ↔ ∃ ticket, (kind, ticket) ∈ exchange.listeners := by
  rw [inFlight, Option.isSome_iff_exists]
  constructor
  · rintro ⟨ticket, hlistener⟩
    exact ⟨ticket, mem_of_listener? hlistener⟩
  · rintro ⟨ticket, hmem⟩
    exact ⟨ticket, listener?_of_mem h.keys hmem⟩

/-- A listener waits for what is awaited or for what was given up. -/
theorem Consistent.inFlight_iff (h : exchange.Consistent) :
    exchange.inFlight kind = true ↔
      (∃ ticket, exchange.Awaits kind ticket) ∨ exchange.Stale kind := by
  rw [h.inFlight_iff_mem]
  constructor
  · rintro ⟨ticket, hmem⟩
    obtain ⟨hkind, hawaited | hdiscarded⟩ := h.listening kind ticket hmem
    · exact Or.inl ⟨ticket, hkind, hawaited⟩
    · exact Or.inr ⟨ticket, hmem, hdiscarded⟩
  · rintro (⟨ticket, hkind, hawaited⟩ | ⟨ticket, hmem, -⟩)
    · exact ⟨ticket, h.heard kind ticket hkind hawaited⟩
    · exact ⟨ticket, hmem⟩

theorem Consistent.not_stale_of_awaits (h : exchange.Consistent)
    (hawaits : exchange.Awaits kind ticket) : ¬exchange.Stale kind := by
  rintro ⟨other, hmem, hdiscarded⟩
  have hsame := (h.listener?_of_awaits hawaits).symm.trans (listener?_of_mem h.keys hmem)
  rw [← Option.some.inj hsame, hawaits.2] at hdiscarded
  cases hdiscarded

/-! ### How a listener gets stale, and how it goes -/

theorem stale_unlisten :
    (exchange.unlisten other).Stale kind ↔ exchange.Stale kind ∧ kind ≠ other := by
  constructor
  · rintro ⟨ticket, hmem, hdiscarded⟩
    obtain ⟨hmem, hne⟩ := mem_unlisten.1 hmem
    exact ⟨⟨ticket, hmem, hdiscarded⟩, hne⟩
  · rintro ⟨⟨ticket, hmem, hdiscarded⟩, hne⟩
    exact ⟨ticket, mem_unlisten.2 ⟨hmem, hne⟩, hdiscarded⟩

theorem stale_accept :
    (exchange.accept other).Stale kind ↔ exchange.Stale kind ∧ kind ≠ other := by
  have hletter : ∀ found, (exchange.accept other).mail.letter found = .discarded ↔
      found ≠ ⟨exchange.mail.length⟩ ∧ exchange.mail.letter found = .discarded := by
    intro found
    rw [letter_accept]
    split <;> simp [*]
  have hold : ∀ found, exchange.mail.letter found = .discarded →
      found ≠ ⟨exchange.mail.length⟩ := by
    rintro found hdiscarded rfl
    rw [Mail.letter, List.getElem?_eq_none (Nat.le_refl _)] at hdiscarded
    cases hdiscarded
  rw [← stale_unlisten]
  constructor
  · rintro ⟨found, hmem, hdiscarded⟩
    obtain ⟨hne, hdiscarded⟩ := (hletter found).1 hdiscarded
    rcases List.mem_append.1 hmem with hmem | hmem
    · exact ⟨found, hmem, hdiscarded⟩
    · cases List.mem_singleton.1 hmem
      exact absurd rfl hne
  · rintro ⟨found, hmem, hdiscarded⟩
    exact ⟨found, List.mem_append_left _ hmem,
      (hletter found).2 ⟨hold found hdiscarded, hdiscarded⟩⟩

theorem stale_answer
    (hawaits : exchange.Awaits reply.request ticket) :
    (exchange.answer ticket reply).Stale kind ↔ exchange.Stale kind ∧ kind ≠ reply.request := by
  rw [← stale_unlisten]
  have hletter : ∀ found, (exchange.answer ticket reply).mail.letter found = .discarded ↔
      exchange.mail.letter found = .discarded := by
    intro found
    rw [letter_answer found hawaits]
    split
    · rename_i hsame
      simp [hsame, hawaits.2]
    · rfl
  exact exists_congr fun found => and_congr_right fun _ => hletter found

/-- Who lets go of an awaited reply leaves a stale listener behind. -/
theorem Consistent.stale_discard (h : exchange.Consistent) :
    (exchange.discard ticket).Stale kind ↔ exchange.Awaits kind ticket ∨ exchange.Stale kind := by
  constructor
  · rintro ⟨found, hmem, hdiscarded⟩
    rw [listeners_discard] at hmem
    rw [letter_discard] at hdiscarded
    split at hdiscarded
    · rename_i hsame
      rw [hsame.1] at hmem
      exact Or.inl ⟨(h.listening kind ticket hmem).1, hsame.2⟩
    · exact Or.inr ⟨found, hmem, hdiscarded⟩
  · rintro (⟨hkind, hawaited⟩ | ⟨found, hmem, hdiscarded⟩)
    · refine ⟨ticket, ?_, ?_⟩
      · rw [listeners_discard]
        exact h.heard kind ticket hkind hawaited
      · rw [letter_discard, if_pos ⟨rfl, hawaited⟩]
    · refine ⟨found, by rwa [listeners_discard], ?_⟩
      rw [letter_discard]
      split
      · rfl
      · exact hdiscarded

end Exchange

/-- An act asks for a reply of the kind or brings one. -/
def Act.Concerns (act : Act) (kind : Request) : Prop :=
  act = .request kind ∨ ∃ reply, act.reply? = some reply ∧ reply.request = kind

namespace Dialogue

variable {dialogue : Dialogue} {kind : Request} {ticket : Ticket} {act : Act}

/-- What an act makes of stale listeners: letting go of an outstanding request leaves one, and
    each request and reply of the kind takes it away. -/
theorem Consistent.stale_step (h : dialogue.Consistent) (act : Act) (kind : Request)
    (hlinked : (dialogue.step act).linked = true) :
    (dialogue.step act).exchange.Stale kind ↔
      (∃ ticket, act = .drop ticket ∧ dialogue.Outstanding kind ticket) ∨
        dialogue.exchange.Stale kind ∧ ¬act.Concerns kind := by
  have hbefore := linked_of_step hlinked
  have hdeliver : ∀ reply, (dialogue.step (.deliver reply)).exchange.Stale kind ↔
      dialogue.exchange.Stale kind ∧ kind ≠ reply.request := by
    intro reply
    by_cases hout : ∃ ticket, dialogue.exchange.Awaits reply.request ticket
    · obtain ⟨ticket, hawaits⟩ := hout
      rw [h.step_deliver_of_awaits hbefore hawaits]
      exact Exchange.stale_answer hawaits
    · rw [h.step_deliver_of_free hbefore (not_exists.1 hout)]
      exact Exchange.stale_unlisten
  cases act with
  | request other =>
    have hconcerns : (Act.request other).Concerns kind ↔ kind = other := by
      simp [Act.Concerns, Act.reply?, eq_comm]
    have hstep : (dialogue.step (.request other)).exchange.Stale kind ↔
        dialogue.exchange.Stale kind ∧ kind ≠ other := by
      by_cases hout : ∃ ticket, dialogue.exchange.Awaits other ticket
      · obtain ⟨ticket, hawaits⟩ := hout
        rw [h.step_request_of_awaits hawaits]
        refine (and_iff_left_of_imp ?_).symm
        rintro hstale rfl
        exact h.books.not_stale_of_awaits hawaits hstale
      · rw [h.step_request_of_free hbefore (not_exists.1 hout)]
        split
        · exact Exchange.stale_accept
        · exact Exchange.stale_unlisten
    rw [hstep, hconcerns]
    simp
  | deliver reply =>
    rw [hdeliver reply]
    simp [Act.Concerns, Act.reply?, eq_comm]
  | deliverJson text =>
    cases htext : Reply.ofText? text with
    | none =>
      rw [step_deliverJson_none htext]
      simp [Act.Concerns, Act.reply?, htext]
    | some reply =>
      rw [step_deliverJson_some htext, hdeliver reply]
      simp [Act.Concerns, Act.reply?, htext, eq_comm]
  | drop ticket =>
    have hout : dialogue.Outstanding kind ticket ↔ dialogue.exchange.Awaits kind ticket :=
      h.outstanding_iff hbefore
    cases hparty : dialogue.party? ticket with
    | none =>
      have hfree : ¬dialogue.Outstanding kind ticket := by
        rintro ⟨party, hfound, -⟩
        rw [hparty] at hfound
        cases hfound
      simp only [Dialogue.step, hparty]
      simp [Act.Concerns, Act.reply?, hfree]
    | some party =>
      rw [h.step_drop hparty]
      refine h.books.stale_discard.trans ?_
      rw [← hout]
      simp [Act.Concerns, Act.reply?]
  | hangUp =>
    simp [Dialogue.step, hbefore] at hlinked
  | _ =>
    change dialogue.exchange.Stale kind ↔ _
    simp [Act.Concerns, Act.reply?]

/-- Of the kind, the holder of the last outstanding request has let go of its reply, and since then
    no reply of the kind was asked for and none was brought. -/
def GivenUp (acts : List Act) (kind : Request) : Prop :=
  ∃ before ticket after, acts = before ++ .drop ticket :: after ∧
    (initial.run before).Outstanding kind ticket ∧ ∀ act ∈ after, ¬act.Concerns kind

theorem givenUp_concat (acts : List Act) (act : Act) (kind : Request) :
    GivenUp (acts ++ [act]) kind ↔
      (∃ ticket, act = .drop ticket ∧ (initial.run acts).Outstanding kind ticket) ∨
        GivenUp acts kind ∧ ¬act.Concerns kind := by
  constructor
  · rintro ⟨before, ticket, after, hacts, hout, hafter⟩
    rcases List.eq_nil_or_concat' after with rfl | ⟨earlier, last, rfl⟩
    · obtain ⟨rfl, hlast⟩ := List.append_inj' hacts rfl
      exact Or.inl ⟨ticket, List.singleton_inj.1 hlast, hout⟩
    · rw [← List.cons_append, ← List.append_assoc] at hacts
      obtain ⟨rfl, hlast⟩ := List.append_inj' hacts rfl
      rw [List.singleton_inj.1 hlast]
      refine Or.inr ⟨⟨before, ticket, earlier, rfl, hout, ?_⟩, hafter last (by simp)⟩
      exact fun act hact => hafter act (List.mem_append_left _ hact)
  · rintro (⟨ticket, rfl, hout⟩ | ⟨⟨before, ticket, after, rfl, hout, hafter⟩, hact⟩)
    · exact ⟨acts, ticket, [], rfl, hout, fun act hact => absurd hact List.not_mem_nil⟩
    · refine ⟨before, ticket, after ++ [act], by simp, hout, fun other hother => ?_⟩
      rcases List.mem_append.1 hother with hother | hother
      · exact hafter other hother
      · rw [List.mem_singleton.1 hother]
        exact hact

/-- On a link that is still there, listeners are stale just after their requests were given up. -/
theorem stale_run_iff (acts : List Act) (hlinked : (initial.run acts).linked = true) :
    (initial.run acts).exchange.Stale kind ↔ GivenUp acts kind := by
  induction acts using List.reverseRecOn with
  | nil =>
    constructor
    · rintro ⟨ticket, hmem, -⟩
      cases hmem
    · rintro ⟨before, ticket, after, hacts, -⟩
      cases before <;> cases hacts
  | append_singleton acts act ih =>
    rw [run_append] at hlinked ⊢
    have hstep := (consistent_initial.run acts).stale_step act kind hlinked
    rw [givenUp_concat, ← ih (linked_of_step hlinked)]
    exact hstep

/-- On a link that is still there, a request of a kind is refused, and a reply of the kind is
    wanted, just while a request of the kind is outstanding. A listener of the kind is there then
    too; and besides, while no request of the kind is outstanding, as long as the last one is given
    up. -/
theorem inFlight_of_run (acts : List Act) (kind : Request)
    (hlinked : (initial.run acts).linked = true) :
    (((initial.run acts).exchange.ask kind).1 = .error (.inFlight kind) ↔
      ∃ ticket, (initial.run acts).Outstanding kind ticket) ∧
    (∀ reply : Reply, reply.request = kind →
      (((initial.run acts).exchange.deliver reply).1 = true ↔
        ∃ ticket, (initial.run acts).Outstanding kind ticket)) ∧
    ((initial.run acts).exchange.inFlight kind = true ↔
      (∃ ticket, (initial.run acts).Outstanding kind ticket) ∨ GivenUp acts kind) ∧
    (GivenUp acts kind → ¬∃ ticket, (initial.run acts).Outstanding kind ticket) := by
  have hconsistent := consistent_initial.run acts
  have houtstanding : (∃ ticket, (initial.run acts).Outstanding kind ticket) ↔
      ∃ ticket, (initial.run acts).exchange.Awaits kind ticket :=
    exists_congr fun ticket => hconsistent.outstanding_iff hlinked
  refine ⟨(hconsistent.answersRequests hlinked kind).refused, ?_, ?_, ?_⟩
  · rintro reply rfl
    exact (hconsistent.handsOver hlinked reply).wanted
  · rw [houtstanding, ← stale_run_iff acts hlinked]
    exact hconsistent.books.inFlight_iff
  · rw [houtstanding, ← stale_run_iff acts hlinked]
    rintro hstale ⟨ticket, hawaits⟩
    exact hconsistent.books.not_stale_of_awaits hawaits hstale

/-- Both kinds are requested, and the reply of one of them is given up. -/
def halfGivenUp : List Act := [.request .paths, .request .plugins, .poll ⟨1⟩, .drop ⟨0⟩]

theorem inFlight_of_run_halfGivenUp :
    (initial.run halfGivenUp).linked = true ∧
    (∃ ticket, (initial.run halfGivenUp).Outstanding .plugins ticket) ∧
    (initial.run halfGivenUp).exchange.inFlight .plugins = true ∧
    GivenUp halfGivenUp .paths ∧
    ¬∃ ticket, (initial.run halfGivenUp).Outstanding .paths ticket := by
  obtain ⟨hrefused, -, hflying, -⟩ := inFlight_of_run halfGivenUp .plugins rfl
  obtain ⟨-, hwanted, hstale, -⟩ := inFlight_of_run halfGivenUp .paths rfl
  have hout := hrefused.1 rfl
  have hfree : ¬∃ ticket, (initial.run halfGivenUp).Outstanding .paths ticket := by
    rw [← hwanted (.paths CapabilityPaths.empty) rfl]
    decide
  exact ⟨rfl, hout, hflying.2 (Or.inl hout), (hstale.1 rfl).resolve_left hfree, hfree⟩

/-- A reply that was given up is still in flight: yet nobody waits for it, the next request of its
    kind is accepted, and a reply is dropped. -/
theorem stale_listener_inFlight :
    (initial.run [.request .paths, .drop ⟨0⟩]).exchange.inFlight .paths = true ∧
    (¬∃ ticket, (initial.run [.request .paths, .drop ⟨0⟩]).Outstanding .paths ticket) ∧
    ((initial.run [.request .paths, .drop ⟨0⟩]).exchange.ask .paths).1 = .ok (.awaiting ⟨1⟩) ∧
    ((initial.run [.request .paths, .drop ⟨0⟩]).exchange.deliver (.paths CapabilityPaths.empty)).1 =
      false := by
  refine ⟨rfl, ?_, rfl, rfl⟩
  rintro ⟨⟨index⟩, party, hparty, -, hheld, -⟩
  cases index with
  | zero =>
    cases hparty
    exact hheld
  | succ index => cases hparty

end Dialogue

end Capabilities.Host
