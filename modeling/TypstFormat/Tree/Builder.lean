import TypstFormat.Tree.Basic

/-!
# Building trees

A `TreeBuilder` makes trees from the inside out: nodes are entered and left like brackets, and
every token goes to the innermost node that is entered and not yet left.
-/

namespace TypstFormat

/-- A node that is entered and not yet left. -/
structure OpenNode where
  kind : Kind
  /-- The children so far, the latest first. -/
  children : List Tree := []
  deriving Repr

namespace OpenNode

def push (node : OpenNode) (tree : Tree) : OpenNode :=
  { node with children := tree :: node.children }

/-- The node as it is when it is left. -/
def toTree (node : OpenNode) : Tree :=
  .node node.kind node.children.reverse

end OpenNode

structure TreeBuilder where
  /-- The nodes that are entered and not yet left, the innermost first. -/
  stack : List OpenNode := []
  /-- The trees that stand in no node, the latest first. -/
  roots : List Tree := []
  deriving Repr

/-- Why no tree can be built. -/
inductive BuildError where
  /-- More nodes are left than were entered. -/
  | nothingToLeave
  /-- A node is entered and never left. -/
  | neverLeft
  deriving DecidableEq, Repr

namespace BuildError

def message : BuildError → String
  | nothingToLeave => "finish_node called with empty builder stack"
  | neverLeft => "Cannot finish tree: unclosed nodes remain on stack"

end BuildError

namespace TreeBuilder

/-- Adds a tree to the innermost open node. -/
def push (builder : TreeBuilder) (tree : Tree) : TreeBuilder :=
  match builder.stack with
  | [] => { builder with roots := tree :: builder.roots }
  | node :: stack => { builder with stack := node.push tree :: stack }

/-- Enters a node. -/
def enter (builder : TreeBuilder) (kind : Kind) : TreeBuilder :=
  { builder with stack := { kind } :: builder.stack }

/-- Adds a token. -/
def token (builder : TreeBuilder) (kind : Kind) (text : List Char) : TreeBuilder :=
  builder.push (.token kind text)

/-- Leaves the innermost node. -/
def leave (builder : TreeBuilder) : Except BuildError TreeBuilder :=
  match builder.stack with
  | [] => .error .nothingToLeave
  | node :: stack => .ok ({ builder with stack }.push node.toTree)

/-- The tree that was built: the only one, if it is a node, and a node of kind `root` around all of
them otherwise. -/
def finish (builder : TreeBuilder) (root : Kind := .markup) : Except BuildError Tree :=
  match builder.stack, builder.roots with
  | _ :: _, _ => .error .neverLeft
  | [], [.node kind children] => .ok (.node kind children)
  | [], roots => .ok (.node root roots.reverse)

end TreeBuilder

end TypstFormat
