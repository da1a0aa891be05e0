import Capabilities.Proofs.Host.Dialogue
import Capabilities.Proofs.Session.Providers
import Capabilities.Proofs.Session.Views

/-!
# What a resolver hears

A resolver that is connected to a host has asked for the list of plugins, and looks at the letter
of that request whenever it is called. While the letter admits it, the resolver does what it would
do without that request, so it may be shown without it (`shows_unasked`). When the letter does not
admit it any more, it does nothing, so the recorders may be shown on their own
(`shows_recorders`).
-/

namespace Capabilities.Resolver

open Host Session

variable {config : Config} {ticket : Ticket} {letter after : Letter} {mail : Mail}
  {resolver later : ResolverPlugin}

/-! ### What a list says about a resolver -/

/-- Whether a list of plugins lets a resolver with some settings work: the first entry of its name
    is enabled, or there is none. -/
def Config.permits (config : Config) (list : List PluginInfo) : Bool :=
  match list.find? (·.name == config.pluginName) with
  | some plugin => plugin.enabled
  | none => true

/-- Whether a resolver with some settings works when this is the letter of its request. -/
def Config.admits (config : Config) : Letter → Bool
  | .answered (.plugins list) => config.permits list
  | _ => true

/-- A resolver with some settings that has asked for the list of plugins, and knows of the letter at
    the ticket or is yet to look at it. -/
structure ResolverPlugin.Hears (config : Config) (ticket : Ticket) (letter : Letter)
    (resolver : ResolverPlugin) : Prop where
  config : resolver.config = config
  reply : ∃ reply, resolver.plugins = some reply ∧ reply.Genuine ticket letter

namespace ResolverPlugin

/-- At its next look the resolver goes by the letter. -/
theorem Hears.isEnabled_poll (h : resolver.Hears config ticket (mail.letter ticket)) :
    (resolver.poll mail).isEnabled = config.admits (mail.letter ticket) := by
  obtain ⟨reply, hplugins, hgenuine⟩ := h.reply
  have hstate := hgenuine.poll.2
  unfold isEnabled poll
  simp only [hplugins, Option.map_some, Option.bind_some, hstate, h.config]
  cases mail.letter ticket with
  | answered reply =>
    cases reply with
    | paths table => rfl
    | plugins list => rfl
  | _ => rfl

theorem Hears.next (h : resolver.Hears config ticket letter) (hafter : letter.Becomes after) :
    resolver.Hears config ticket after := by
  obtain ⟨reply, hplugins, hgenuine⟩ := h.reply
  exact ⟨h.config, reply, hplugins, hgenuine.becomes hafter⟩

theorem Hears.becomes (h : resolver.Hears config ticket (mail.letter ticket))
    (hbecomes : resolver.Becomes mail later) :
    later.Hears config ticket (mail.letter ticket) := by
  obtain ⟨reply, hplugins, hgenuine⟩ := h.reply
  refine ⟨hbecomes.config.trans h.config, ?_⟩
  rcases hbecomes.plugins with hsame | hpolled
  · exact ⟨reply, hsame.trans hplugins, hgenuine⟩
  · refine ⟨reply.poll mail, hpolled.trans ?_, hgenuine.poll.1⟩
    unfold poll
    rw [hplugins, Option.map_some]

def unasked (resolver : ResolverPlugin) : ResolverPlugin := { resolver with plugins := none }

end ResolverPlugin

end Capabilities.Resolver

namespace Capabilities.Session

open Host Script Resolver Capabilities.Types

variable {config : Config} {ticket : Ticket} {letter after : Letter} {mail : Mail}

/-! ### What is shown of the plugins -/

namespace Installed

def unasked : Installed → Installed
  | .resolver plugin => .resolver plugin.unasked
  | .recorder plugin => .recorder plugin

/-- The plugin knows of the letter at the ticket or is yet to look at it, if it is a resolver. -/
def Hears (config : Config) (ticket : Ticket) (letter : Letter) (plugin : Installed) : Prop :=
  ∀ resolver, plugin = .resolver resolver → resolver.Hears config ticket letter

theorem Hears.next {plugin : Installed} (h : plugin.Hears config ticket letter)
    (hafter : letter.Becomes after) : plugin.Hears config ticket after := by
  intro resolver hresolver
  exact (h resolver hresolver).next hafter

end Installed

namespace Engine

variable {resolver : ResolverPlugin} {event : Event} {program : Program}

theorem becomes_hook (mail : Mail) (event : Event) (resolver : ResolverPlugin)
    (program : Program) : resolver.Becomes mail (event.hook mail resolver program).1 := by
  cases event with
  | before file => exact becomes_beforeLoad file program
  | after file => exact becomes_afterLoad file program
  | post => exact (becomes_postInfer program).1

/-- A disabled resolver takes note of the list and does nothing else. -/
theorem hook_disabled (h : ¬(resolver.poll mail).isEnabled = true) (event : Event)
    (program : Program) : event.hook mail resolver program = (resolver.poll mail, program) := by
  cases event with
  | before file => exact beforeLoad_disabled h
  | after file => exact afterLoad_disabled h
  | post => exact postInfer_disabled h

/-- An enabled resolver does what it would do without its request. -/
theorem hook_unasked (h : (resolver.poll mail).isEnabled = true) (event : Event)
    (program : Program) : event.hook mail resolver.unasked program =
      ((event.hook mail resolver program).1.unasked, (event.hook mail resolver program).2) := by
  have hunasked : (resolver.unasked.poll mail).isEnabled = true := rfl
  cases event with
  | before file =>
    change ResolverPlugin.beforeLoad mail file resolver.unasked program =
      ((ResolverPlugin.beforeLoad mail file resolver program).1.unasked,
        (ResolverPlugin.beforeLoad mail file resolver program).2)
    rw [beforeLoad_eq file program h, beforeLoad_eq file program hunasked]
    rfl
  | after file =>
    change ResolverPlugin.afterLoad mail file resolver.unasked program =
      ((ResolverPlugin.afterLoad mail file resolver program).1.unasked,
        (ResolverPlugin.afterLoad mail file resolver program).2)
    unfold ResolverPlugin.afterLoad
    simp only [h, hunasked, if_true]
    rfl
  | post =>
    change ResolverPlugin.postInfer mail resolver.unasked program =
      ((ResolverPlugin.postInfer mail resolver program).1.unasked,
        (ResolverPlugin.postInfer mail resolver program).2)
    rw [postInfer_eq program h, postInfer_eq program hunasked]
    rfl

theorem hears_hook {plugin : Installed} (h : plugin.Hears config ticket (mail.letter ticket))
    (event : Event) (program : Program) :
    (event.hook mail plugin program).1.Hears config ticket (mail.letter ticket) := by
  intro called hcalled
  cases plugin with
  | recorder recorder =>
    rw [event.hook_recorder] at hcalled
    cases hcalled
  | resolver resolver =>
    rw [event.hook_resolver] at hcalled
    cases hcalled
    exact (h resolver rfl).becomes (becomes_hook mail event resolver program)

/-- As long as the letter admits the resolver, it is shown without its request. -/
theorem shows_unasked (h : config.admits (mail.letter ticket) = true) :
    Shows (fun plugin => some (Installed.unasked plugin)) mail
      (Installed.Hears config ticket (mail.letter ticket)) := by
  refine ⟨?_, ?_, ?_, ?_⟩
  · intro event plugin shown program hears hshown
    cases hshown
    cases plugin with
    | recorder recorder =>
      rw [Installed.unasked, event.hook_recorder]
      exact ⟨rfl, rfl⟩
    | resolver resolver =>
      have henabled := (hears resolver rfl).isEnabled_poll.trans h
      rw [Installed.unasked, event.hook_resolver, event.hook_resolver,
        hook_unasked henabled]
      exact ⟨rfl, rfl⟩
  · intro event plugin program _ hview
    cases hview
  · intro event plugin program hears
    exact hears_hook hears event program
  · intro plugin _
    cases plugin <;> rfl

/-- A resolver of which nothing but what it knows of the list will change. -/
structure Rests (config : Config) (ticket : Ticket) (letter : Letter) (state : State)
    (table : PathTable) (resolver : ResolverPlugin) : Prop
    extends resolver.Hears config ticket letter where
  state : resolver.state = state
  table : resolver.table = table

/-- When the letter does not admit the resolver any more, only the recorders are shown. -/
theorem shows_recorders (h : config.admits (mail.letter ticket) = false) (state : State)
    (table : PathTable) :
    Shows Installed.recorder? mail fun plugin => ∀ resolver, plugin = .resolver resolver →
      Rests config ticket (mail.letter ticket) state table resolver := by
  have hdisabled : ∀ resolver, Rests config ticket (mail.letter ticket) state table resolver →
      ¬(resolver.poll mail).isEnabled = true := by
    intro resolver hrests
    rw [hrests.isEnabled_poll, h]
    exact Bool.false_ne_true
  refine ⟨?_, ?_, ?_, ?_⟩
  · intro event plugin shown program _ hshown
    cases plugin with
    | resolver resolver => cases hshown
    | recorder recorder =>
      cases hshown
      rw [event.hook_recorder]
      exact ⟨rfl, rfl⟩
  · intro event plugin program hrests hview
    cases plugin with
    | recorder recorder => cases hview
    | resolver resolver =>
      rw [event.hook_resolver, hook_disabled (hdisabled resolver (hrests resolver rfl))]
      exact ⟨rfl, rfl⟩
  · intro event plugin program hrests called hcalled
    cases plugin with
    | recorder recorder =>
      rw [event.hook_recorder] at hcalled
      cases hcalled
    | resolver resolver =>
      have hbefore := hrests resolver rfl
      rw [event.hook_resolver, hook_disabled (hdisabled resolver hbefore)] at hcalled
      cases hcalled
      exact ⟨hbefore.toHears.becomes ⟨rfl, Or.inr rfl⟩, hbefore.state, hbefore.table⟩
  · intro plugin _
    cases plugin <;> rfl

end Engine

end Capabilities.Session
