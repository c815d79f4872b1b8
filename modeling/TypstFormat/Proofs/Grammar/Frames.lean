import TypstFormat.Grammar.Node
import TypstFormat.Tree.Builder

/-!
# Nodes by frames

The grammar starts, finishes and wraps nodes by writing events. Here the same actions are given
their meaning directly: a `Desk` keeps a stack of frames, one for each node that is started, and a
finished node is put down in the frame around it. `Recorder` carries the actions out on a parser, as
the grammar does, and remembers which starts belong to which nodes.

What the actions mean and what their events lead to is compared in `Proofs.Grammar.Recording`.
-/

namespace TypstFormat

/-- What the grammar does to build nodes. A finished node is called by its number: the nodes are
numbered in the order in which they are finished. -/
inductive NodeAction where
  | start
  /-- Consumes the current token. -/
  | token
  | finish (kind : Kind)
  | dissolve
  /-- Starts a node around a finished one. -/
  | wrap (name : Nat)
  | rename (name : Nat) (kind : Kind)
  deriving DecidableEq, Repr

/-- The kind that an action gives to a node. -/
def NodeAction.kind? : NodeAction → Option Kind
  | finish kind => some kind
  | rename _ kind => some kind
  | _ => none

/-! ## What the actions mean -/

/-- A tree whose nodes are called by their numbers. -/
inductive Plan where
  | token (token : Token)
  | node (name : Nat) (children : List Plan)
  deriving Repr

namespace Plan

mutual

/-- The tree of a plan, from the kinds of its nodes and the texts of its tokens. -/
def tree (kindOf : Nat → Kind) (text : Kind → Nat → List Char) : Plan → Tree
  | token t => .token t.kind (text t.kind t.range.stop)
  | node name children => .node (kindOf name) (trees kindOf text children)

/-- The trees of several plans. -/
def trees (kindOf : Nat → Kind) (text : Kind → Nat → List Char) : List Plan → List Tree
  | [] => []
  | plan :: plans => tree kindOf text plan :: trees kindOf text plans

end

end Plan

/-- A node that is started, and what belongs to it so far. -/
structure Frame where
  /-- The finished node that it was started around. -/
  around : Option Plan := none
  behind : List Plan := []
  deriving Repr

namespace Frame

/-- All that belongs to the node. -/
def children (frame : Frame) : List Plan :=
  frame.around.toList ++ frame.behind

/-- Puts plans down in a frame. -/
def push (frame : Frame) (plans : List Plan) : Frame :=
  { frame with behind := frame.behind ++ plans }

end Frame

/-- The kind of a finished node, where the kinds of all of them are listed. -/
def kindIn (kinds : List Kind) (name : Nat) : Kind :=
  kinds.getD name .error

/-- The nodes that are started, and the kinds of those that are finished. -/
structure Desk where
  /-- Where the tokens come from. -/
  reader : Parser
  /-- The kinds of the finished nodes, in the order of their numbers. -/
  kinds : List Kind := []
  /-- The innermost frame. -/
  frame : Frame := {}
  /-- The frames around it, the innermost first; the last one is no node. -/
  outer : List Frame := []
  deriving Repr

namespace Desk

/-- What one action does. A node can be finished or dissolved only inside another frame, and only
the node that was put down last in the innermost frame can be wrapped. At an end no token is
consumed. -/
def perform (desk : Desk) : NodeAction → Option Desk
  | .start => some { desk with frame := {}, outer := desk.frame :: desk.outer }
  | .token =>
    if desk.reader.isAtEnd then
      some desk
    else
      some { desk with
        reader := desk.reader.bump
        frame := desk.frame.push [.token desk.reader.stream.current] }
  | .finish kind =>
    match desk.outer with
    | [] => none
    | frame :: outer =>
      some { desk with
        kinds := desk.kinds ++ [kind]
        frame := frame.push [.node desk.kinds.length desk.frame.children]
        outer }
  | .dissolve =>
    match desk.outer with
    | [] => none
    | frame :: outer => some { desk with frame := frame.push desk.frame.children, outer }
  | .wrap name =>
    match desk.frame.behind.getLast? with
    | some (.node own children) =>
      if own = name then
        some { desk with
          frame := { around := some (.node own children) }
          outer := { desk.frame with behind := desk.frame.behind.dropLast } :: desk.outer }
      else
        none
    | _ => none
  | .rename name kind =>
    if name < desk.kinds.length then some { desk with kinds := desk.kinds.set name kind } else none

/-- What all actions do, the first one first. -/
def run (desk : Desk) (actions : List NodeAction) : Option Desk :=
  actions.foldlM perform desk

end Desk

/-! ## Carrying the actions out -/

/-- The nodes that a parser has started and finished. -/
structure Recorder where
  /-- The nodes that are started, the innermost first. -/
  opened : List Opening := []
  /-- The nodes that are finished, in the order of their numbers. -/
  closed : List Closed := []
  deriving Repr

namespace Recorder

/-- Carries out one action. The node to finish or to dissolve is the one that was started last. -/
def perform (recorder : Recorder) : NodeAction → Parse Recorder
  | .start => do
    let node ← Parse.start
    return { recorder with opened := node :: recorder.opened }
  | .token => do
    Parse.bump
    return recorder
  | .finish kind => do
    match recorder.opened with
    | [] => return recorder
    | node :: opened =>
      let closed ← node.finish kind
      return { opened, closed := recorder.closed ++ [closed] }
  | .dissolve => do
    match recorder.opened with
    | [] => return recorder
    | node :: opened =>
      node.dissolve
      return { recorder with opened }
  | .wrap name => do
    match recorder.closed[name]? with
    | none => return recorder
    | some closed =>
      let node ← closed.wrap
      return { recorder with opened := node :: recorder.opened }
  | .rename name kind => do
    match recorder.closed[name]? with
    | none => return recorder
    | some closed =>
      closed.rename kind
      return recorder

/-- Carries out all actions, the first one first. -/
def run (recorder : Recorder) (actions : List NodeAction) : Parse Recorder :=
  actions.foldlM perform recorder

end Recorder

/-! ## Steps as brackets -/

/-- Every node that is entered is left again, and no other one is. -/
inductive Step.Balanced : List Step → Prop where
  | nil : Balanced []
  | token (kind : Kind) (stop : Nat) {rest : List Step} :
    Balanced rest → Balanced (.token kind stop :: rest)
  | node (kind : Kind) {inner rest : List Step} :
    Balanced inner → Balanced rest → Balanced (.enter kind :: (inner ++ .leave :: rest))

namespace TreeBuilder

/-- Takes one step, where the texts of the tokens are known. -/
def take (text : Kind → Nat → List Char) (builder : TreeBuilder) :
    Step → Except BuildError TreeBuilder
  | .enter kind => .ok (builder.enter kind)
  | .token kind stop => .ok (builder.token kind (text kind stop))
  | .leave => builder.leave

end TreeBuilder

end TypstFormat
