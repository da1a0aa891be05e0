import Capabilities.Script.Node

/-!
# Readers of scripts

What a library makes of a script depends on the tree that it is read into, and on nothing else that
a reader of scripts does. A `Parser` is any such reader. It gives a tree for every text, also for
one with errors in it, and nothing is known of the tree but that its nodes are told apart by their
identities.
-/

namespace Capabilities.Script

/-- A reader of scripts. -/
class Parser where
  /-- The tree of a script. -/
  parse : String → Node
  /-- The nodes of a tree have identities of their own. -/
  nodup_ids : ∀ text, ((parse text).nodes.map Node.id).Nodup

export Parser (parse)

end Capabilities.Script
