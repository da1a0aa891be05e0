import Capabilities.CommandLine.Check
import Capabilities.Proofs.Host.Dialogue
import Capabilities.Proofs.Host.Paths

/-!
# Path tables that come from outside

A path table comes from outside in a reply of the host or in a file. Either way it is an object of
paths under keys, and the table that is made of it has just these keys. Keys made of names are sound
and texts read as keys make sound keys only, but the keys of a table are not read as keys: a text
without the mark is refused there and kept here. A capability finds the last path that is written
under its own key, whatever else is in the table.
-/

namespace Capabilities.CommandLine

open Host Json

/-- A text is taken for a path table: as the reply that a request for the table waits for, or as the
    text of a file. -/
inductive Accepted (text : String) (table : CapabilityPaths) : Prop where
  | delivered (exchange : Exchange) (ticket : Ticket)
      (hawaited : exchange.mail.letter ticket = .awaited)
      (hanswered : (exchange.deliverJson text).2.mail.letter ticket = .answered (.paths table))
  | loaded (hloaded : loadTable (some text) = .ok table)

/-- The entries that a text holds: by itself, or as what a reply carries. -/
def Holds (text : String) (entries : List (String × String)) : Prop :=
  ∃ value, Value.parse? text = some value ∧
    (value = CapabilityPaths.writtenValue entries ∨
      ∃ tag, value.tagged? tagField dataField =
        some (tag, some (CapabilityPaths.writtenValue entries)))

/-- What a table made of written entries is like. Its keys are the written ones, in order and each
    once, and a capability has the last path that is written under its own key. Whether the keys are
    sound and have names is up to what is written. -/
structure MadeOf (table : CapabilityPaths) (entries : List (String × String)) : Prop where
  ordered : table.Ordered
  keys : ∀ key, key ∈ table.entries.map Prod.fst ↔ key.text ∈ entries.map Prod.fst
  sound : (∀ key ∈ table.entries.map Prod.fst, key.Sound) ↔
    ∀ written ∈ entries.map Prod.fst, written.toList.head? = some CapabilityKey.mark
  named : (∀ key ∈ table.entries.map Prod.fst, key.name?.isSome = true) ↔
    ∀ written ∈ entries.map Prod.fst, ∃ c, written.toList.head? = some c ∧ c.utf8Size = 1
  found : ∀ name, table.get? name = entries.reverse.lookup (CapabilityKey.of name).text
  stored : ∀ name path,
    table.get? name = some path ↔ (CapabilityKey.of name, path) ∈ table.entries

variable {text : String} {table : CapabilityPaths}

theorem madeOf_ofWritten (entries : List (String × String)) :
    MadeOf (CapabilityPaths.ofWritten entries) entries := by
  have hordered := CapabilityPaths.ordered_ofEntries
    (entries.map fun entry => ((⟨entry.1⟩ : CapabilityKey), entry.2))
  have hkeys := CapabilityPaths.mem_keys_ofWritten entries
  constructor
  case ordered => exact hordered
  case keys => exact hkeys
  case sound =>
    constructor
    · exact fun h written hwritten => (h ⟨written⟩ ((hkeys _).2 hwritten)).marked
    · exact fun h key hkey => CapabilityKey.sound_iff.2 (h key.text ((hkeys key).1 hkey))
  case named =>
    constructor
    · exact fun h written hwritten =>
        CapabilityKey.isSome_name?_iff.1 (h ⟨written⟩ ((hkeys _).2 hwritten))
    · exact fun h key hkey => CapabilityKey.isSome_name?_iff.2 (h key.text ((hkeys key).1 hkey))
  case found =>
    exact fun name => CapabilityPaths.lookup_ofWritten entries (CapabilityKey.of name).text
  case stored => exact fun name path => hordered.lookup_eq_some_iff

theorem eq_of_deliver_letter {exchange : Exchange} {ticket : Ticket} {reply answer : Reply}
    (hawaited : exchange.mail.letter ticket = .awaited)
    (h : (exchange.deliver reply).2.mail.letter ticket = .answered answer) : reply = answer := by
  unfold Exchange.deliver at h
  split at h
  · rw [hawaited] at h
    cases h
  · rename_i listener _
    unfold Exchange.hand at h
    split at h
    · rename_i hlistener
      have hlt := Exchange.lt_of_awaited (beq_iff_eq.1 hlistener)
      rw [Exchange.letter_write ticket _ hlt] at h
      split at h
      · cases h
        rfl
      · have hletter : (exchange.unlisten reply.request).mail.letter ticket = .awaited := hawaited
        rw [hletter] at h
        cases h
    · have hletter : (exchange.unlisten reply.request).mail.letter ticket = .awaited := hawaited
      rw [hletter] at h
      cases h

theorem ofText?_paths (h : Reply.ofText? text = some (.paths table)) :
    ∃ value tag body, Value.parse? text = some value ∧
      value.tagged? tagField dataField = some (tag, some body) ∧
      CapabilityPaths.ofJson? body = some table := by
  obtain ⟨value, hvalue, hread⟩ := Option.bind_eq_some_iff.1 h
  obtain ⟨⟨tag, content⟩, htagged, hcontent⟩ := Option.bind_eq_some_iff.1 hread
  obtain ⟨body, hbody, hreply⟩ := Option.bind_eq_some_iff.1 hcontent
  subst hbody
  refine ⟨value, tag, body, hvalue, htagged, ?_⟩
  split at hreply
  · obtain ⟨found, hfound, hsame⟩ := Option.bind_eq_some_iff.1 hreply
    cases hsame
    exact hfound
  · obtain ⟨list, -, hsame⟩ := Option.bind_eq_some_iff.1 hreply
    cases hsame
  · cases hreply

theorem loadTable_eq_ok_iff :
    loadTable (some text) = .ok table ↔
      (Value.parse? text).bind CapabilityPaths.ofJson? = some table := by
  have hload : loadTable (some text) =
      orFail .json ((Value.parse? text).bind CapabilityPaths.ofJson?) := rfl
  rw [hload]
  cases (Value.parse? text).bind CapabilityPaths.ofJson? with
  | none => exact iff_of_false (by rintro ⟨⟩) (by rintro ⟨⟩)
  | some found => simp [orFail]

/-- A table that is accepted is made of the entries that the text holds. -/
theorem Accepted.exists_entries (h : Accepted text table) :
    ∃ entries, Holds text entries ∧ table = CapabilityPaths.ofWritten entries := by
  cases h with
  | delivered exchange ticket hawaited hanswered =>
    cases hreply : Reply.ofText? text with
    | none =>
      rw [Exchange.deliverJson_eq_none hreply, hawaited] at hanswered
      cases hanswered
    | some reply =>
      rw [Exchange.deliverJson_eq_some hreply] at hanswered
      obtain rfl := eq_of_deliver_letter hawaited hanswered
      obtain ⟨value, tag, body, hvalue, htagged, hbody⟩ := ofText?_paths hreply
      obtain ⟨entries, rfl, rfl⟩ := CapabilityPaths.ofJson?_eq_some_iff.1 hbody
      exact ⟨entries, ⟨value, hvalue, Or.inr ⟨tag, htagged⟩⟩, rfl⟩
  | loaded hloaded =>
    obtain ⟨value, hvalue, htable⟩ := Option.bind_eq_some_iff.1 (loadTable_eq_ok_iff.1 hloaded)
    obtain ⟨entries, rfl, rfl⟩ := CapabilityPaths.ofJson?_eq_some_iff.1 htable
    exact ⟨entries, ⟨_, hvalue, Or.inl rfl⟩, rfl⟩

/-- Keys of names and texts that are read as keys are sound, and keys of different names are
    different. A table that is accepted is made of the entries that its text holds: its keys are
    sound just when all written keys begin with the mark, for no other key is refused. -/
theorem keys_of_accepted (text : String) (table : CapabilityPaths) :
    (∀ name, (CapabilityKey.of name).Sound ∧ (CapabilityKey.of name).name? = some name) ∧
    (∀ wire key, CapabilityKey.ofWire? wire = some key → key.Sound ∧ key.text = wire) ∧
    (∀ name other, CapabilityKey.of name = CapabilityKey.of other → name = other) ∧
    (Accepted text table → ∃ entries, Holds text entries ∧ MadeOf table entries) := by
  refine ⟨?_, fun _ _ => CapabilityKey.sound_of_ofWire?, fun _ _ => CapabilityKey.of_inj, ?_⟩
  · exact fun name => ⟨CapabilityKey.sound_of name, CapabilityKey.name?_of name⟩
  · intro h
    obtain ⟨entries, hentries, rfl⟩ := h.exists_entries
    exact ⟨entries, hentries, madeOf_ofWritten entries⟩

/-- A reply with a key twice, the key of the empty name, a key without the mark and one that begins
    with a character of two bytes. -/
theorem keys_of_accepted_reply :
    let text := "\x7b\"type\":\"architectPluginsResult\",\"data\":\x7b\"_fs\":\"old\"," ++
      "\"\u00e9\":\"d\",\"_fs\":\"a\",\"fs\":\"c\",\"_\":\"b\"\x7d\x7d"
    let table : CapabilityPaths :=
      ⟨[(⟨"_"⟩, "b"), (⟨"_fs"⟩, "a"), (⟨"fs"⟩, "c"), (⟨"\u00e9"⟩, "d")]⟩
    Accepted text table ∧ table.get? "fs" = some "a" ∧
      ∃ entries, Holds text entries ∧ MadeOf table entries := by
  intro text table
  have haccepted : Accepted text table := by
    apply Accepted.delivered (Exchange.initial.request .paths).2 ⟨0⟩
    · decide +kernel
    · decide +kernel
  exact ⟨haccepted, by decide +kernel, (keys_of_accepted text table).2.2.2 haccepted⟩

/-- A key without the mark is refused where keys are read, and kept in a table: it has another name
    than the one that it is the key of. The empty key has no name at all. -/
theorem unmarked_key_kept :
    let table : CapabilityPaths := ⟨[(⟨""⟩, "y"), (⟨"fs"⟩, "x")]⟩
    Accepted "\x7b\"fs\":\"x\",\"\":\"y\"\x7d" table ∧
      CapabilityKey.ofWire? "fs" = none ∧
      (CapabilityKey.mk "fs").name? = some "s" ∧ CapabilityKey.of "s" ≠ ⟨"fs"⟩ ∧
      (CapabilityKey.mk "").name? = none ∧
      ¬ ∀ key ∈ table.entries.map Prod.fst, key.Sound := by
  intro table
  have haccepted : Accepted "\x7b\"fs\":\"x\",\"\":\"y\"\x7d" table :=
    .loaded (loadTable_eq_ok_iff.2 (by decide +kernel))
  have hunsound : ¬ ∀ key ∈ table.entries.map Prod.fst, key.Sound := by
    intro h
    have hmarked := (h ⟨"fs"⟩ (by decide +kernel)).marked
    unfold CapabilityKey.Marked at hmarked
    revert hmarked
    decide +kernel
  exact ⟨haccepted, by decide +kernel, by decide +kernel, by decide +kernel, by decide +kernel,
    hunsound⟩

end Capabilities.CommandLine
