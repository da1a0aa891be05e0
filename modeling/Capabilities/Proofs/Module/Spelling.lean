import Capabilities.Module.Declaration
import Capabilities.Proofs.Resolver.State
import Capabilities.Proofs.Script.StringLiteral
import Mathlib.Data.List.Forall2

/-!
# Names however they are spelled

A module names capabilities by string literals, in the lists that it declares and in the keys of the
objects that it registers. A name can be spelled in many ways, and two modules that mean the same
capability need not spell it alike. They meet in the registry if both spell it simply. If one of
them does not, they miss each other, although they denote the same name.
-/

namespace Capabilities.Module

open Script Host Resolver Capabilities.Types

theorem keyName?_of_writes {literal : StringLiteral} {node : Node} (h : node.Writes literal) :
    node.keyName? = node.stringValue? := by
  unfold Node.keyName?
  rw [h.kind]

/-- The literals of a list are read as the names that they denote just when all are simple. -/
theorem filterMap_stringValue?_eq_iff {nodes : List Node} {literals : List StringLiteral}
    {names : List String} (hnodes : List.Forall₂ Node.Writes nodes literals)
    (hnames : List.Forall₂ StringLiteral.Denotes literals names) :
    nodes.filterMap Node.stringValue? = names ↔ literals.all StringLiteral.isSimple = true := by
  induction hnodes generalizing names with
  | nil =>
    cases hnames
    exact iff_of_true rfl rfl
  | cons hnode hnodes ih =>
    rename_i node literal nodes literals
    cases hnames with
    | cons hname hnames =>
      rename_i name names
      rw [List.filterMap_cons_some (StringLiteral.stringValue?_of_writes hnode), List.cons.injEq,
        ih hnames, List.all_cons, Bool.and_eq_true,
        ← StringLiteral.stringValue?_eq_iff hnode hname,
        StringLiteral.stringValue?_of_writes hnode, Option.some.injEq]

theorem lookup?_register (registry : Registry) (given wanted : String) (type : TypeId)
    (origin : Option String) :
    (registry.register given type origin).2.lookup? wanted =
      if wanted = given then some type else registry.lookup? wanted := by
  unfold Registry.lookup?
  rw [Registry.provider?_register]
  split <;> rfl

/-- A provider and a consumer each write a literal, and what is provided under the one name is what
    is found under the other. -/
def Meet (provider consumer : Node) : Prop :=
  ∃ given wanted, provider.stringValue? = some given ∧ consumer.stringValue? = some wanted ∧
    CapabilityKey.of given = CapabilityKey.of wanted ∧
    ∀ (registry : Registry) (type : TypeId) (origin : Option String),
      (registry.register given type origin).2.lookup? wanted = some type

theorem meet_iff {provider consumer : Node} {given wanted : String}
    (hprovider : provider.stringValue? = some given)
    (hconsumer : consumer.stringValue? = some wanted) :
    Meet provider consumer ↔ given = wanted := by
  constructor
  · rintro ⟨given', wanted', hgiven, hwanted, hkey, -⟩
    rw [hprovider, Option.some.injEq] at hgiven
    rw [hconsumer, Option.some.injEq] at hwanted
    subst hgiven hwanted
    exact CapabilityKey.of_inj hkey
  · rintro rfl
    refine ⟨given, given, hprovider, hconsumer, rfl, fun registry type origin => ?_⟩
    rw [lookup?_register, if_pos rfl]

/-- Of a literal that denotes a name: a node that writes it has the name as its value just when the
    literal is simple. A provider that spells the name simply meets just the consumers that do so
    too, and a list of simple literals declares their names. -/
theorem name_of_literal {literal : StringLiteral} {name : String} (hname : literal.Denotes name) :
    (∀ node : Node, node.Writes literal →
      (node.stringValue? = some name ↔ literal.isSimple = true) ∧
      (node.keyName? = some name ↔ literal.isSimple = true)) ∧
    (∀ (other : StringLiteral) (provider consumer : Node), other.Denotes name →
      provider.Writes literal → consumer.Writes other → literal.isSimple = true →
      (Meet provider consumer ↔ other.isSimple = true)) ∧
    (∀ (array : Node) (literals : List StringLiteral) (names : List String),
      List.Forall₂ Node.Writes array.parts literals →
      List.Forall₂ StringLiteral.Denotes literals names →
      literals.all StringLiteral.isSimple = true → arrayNames array = names.filter (· != "")) := by
  refine ⟨?_, ?_, ?_⟩
  · intro node hnode
    have hvalue := StringLiteral.stringValue?_eq_iff hnode hname
    exact ⟨hvalue, by rw [keyName?_of_writes hnode]; exact hvalue⟩
  · intro other provider consumer hother hprovider hconsumer hsimple
    have hgiven := (StringLiteral.stringValue?_eq_iff hprovider hname).2 hsimple
    have hwanted := StringLiteral.stringValue?_of_writes hconsumer
    rw [meet_iff hgiven hwanted, ← StringLiteral.stringValue?_eq_iff hconsumer hother, hwanted,
      Option.some.injEq, eq_comm]
  · intro array literals names hnodes hnames hsimple
    unfold arrayNames
    rw [(filterMap_stringValue?_eq_iff hnodes hnames).2 hsimple]

/-- The name `fs` in two spellings, one of them with an escape that means nothing. -/
theorem meet_of_simple_spellings :
    let provider : StringLiteral :=
      ⟨'\x27', [.plain 'f', .escaped 's'], Or.inr rfl, by decide +kernel⟩
    let consumer : StringLiteral := ⟨'"', [.plain 'f', .plain 's'], Or.inl rfl, by decide +kernel⟩
    provider.Denotes "fs" ∧ consumer.Denotes "fs" ∧ provider.isSimple = true ∧
      Meet (provider.node 0) (consumer.node 0) := by
  intro provider consumer
  have hprovider : provider.Denotes "fs" := by decide +kernel
  have hconsumer : consumer.Denotes "fs" := by decide +kernel
  have hsimple : provider.isSimple = true := by decide +kernel
  have hmeet := (name_of_literal hprovider).2.1 consumer (provider.node 0) (consumer.node 0)
    hconsumer (provider.node_writes 0) (consumer.node_writes 0) hsimple
  exact ⟨hprovider, hconsumer, hsimple, hmeet.2 (by decide +kernel)⟩

/-- The name `fs` with its first letter spelled by number: it is read as another name, and the
    consumer does not find what is provided under the name. -/
theorem name_misread_of_hex :
    let provider : StringLiteral := ⟨'"', [.plain 'f', .plain 's'], Or.inl rfl, by decide +kernel⟩
    let consumer : StringLiteral :=
      ⟨'"', [.hex ['6', '6'], .plain 's'], Or.inl rfl, by decide +kernel⟩
    provider.Denotes "fs" ∧ consumer.Denotes "fs" ∧
      (consumer.node 0).stringValue? = some "x66s" ∧
      ¬ Meet (provider.node 0) (consumer.node 0) := by
  intro provider consumer
  have hgiven : (provider.node 0).stringValue? = some "fs" := by decide +kernel
  have hwanted : (consumer.node 0).stringValue? = some "x66s" := by decide +kernel
  refine ⟨by decide +kernel, by decide +kernel, hwanted, ?_⟩
  rw [meet_iff hgiven hwanted]
  decide +kernel

end Capabilities.Module
