import TypstFormat.Token.Basic
import TypstFormat.Tree.Builder
import TypstFormat.Tree.Event

/-!
# Putting tokens and trivia together

An `Assembly` builds the tree of a source from the steps of its events and the trivia that was
recorded beside them. Trivia becomes a token like any other. It goes to the outermost place at which
it can stand: in front of a node rather than into it, and behind a node rather than at its end. Only
the root holds trivia at its own ends.

`buildTree` runs all the steps. It gives a tree only if the outermost node, when it is left, covers
the whole source.
-/

namespace TypstFormat

/-- Why events make no tree. -/
inductive TreeError where
  /-- A link leads nowhere. -/
  | link (error : LinkError)
  /-- More nodes are left than were entered. -/
  | leftTooOften
  /-- The outermost node was left at an offset that is not the end of the source. -/
  | stopped (position length : Nat)
  | build (error : BuildError)
  deriving DecidableEq, Repr

namespace TreeError

/-- The message of an error, if it has one. A link in front of the first event is only an index out
of range. -/
def message? : TreeError → Option String
  | link .pastEnd => some "Invalid forward_parent offset in parser events"
  | link .notAStart => some "forward_parent must point to StartEvent"
  | link .beforeStart => none
  | leftTooOften => some "finish_node called more often than start_node"
  | stopped position length => some s!"Tree sink stopped at offset {position} of {length}"
  | build error => some error.message

end TreeError

structure Assembly where
  source : List Char
  /-- How much of the source is in the tree. -/
  position : Nat := 0
  /-- The trivia that is not in the tree yet. -/
  pending : List Trivia
  builder : TreeBuilder := {}
  deriving Repr

namespace Assembly

/-- Adds the source up to `stop` as one token. -/
def addToken (a : Assembly) (kind : Kind) (stop : Nat) : Assembly :=
  { a with
    position := stop
    builder := a.builder.token kind ((a.source.drop a.position).take (stop - a.position)) }

/-- Adds the pieces of trivia that stand next to each other from the current position on, and keeps
the others for later. -/
def addPieces (a : Assembly) : List Trivia → Assembly
  | [] => { a with pending := [] }
  | piece :: rest =>
    if piece.range.start = a.position then
      (a.addToken piece.kind piece.range.stop).addPieces rest
    else
      { a with pending := piece :: rest }

/-- Adds the trivia at the current position. -/
def addTrivia (a : Assembly) : Assembly :=
  a.addPieces a.pending

/-- Leaves the innermost node; the outermost one takes the trivia at the end of the source. -/
def leave (a : Assembly) : Except TreeError Assembly :=
  match a.builder.stack with
  | [] => .error .leftTooOften
  | [_] =>
    let a := a.addTrivia
    if a.position = a.source.length then
      (a.builder.leave.map fun builder => { a with builder }).mapError .build
    else
      .error (.stopped a.position a.source.length)
  | _ => (a.builder.leave.map fun builder => { a with builder }).mapError .build

/-- Takes one step. -/
def step (a : Assembly) : Step → Except TreeError Assembly
  | .enter kind =>
    let a := if a.builder.stack.isEmpty then a else a.addTrivia
    .ok { a with builder := a.builder.enter kind }
  | .token kind stop => .ok (a.addTrivia.addToken kind stop)
  | .leave => a.leave

/-- Takes all steps, the first one first. -/
def run (a : Assembly) (steps : List Step) : Except TreeError Assembly :=
  steps.foldlM step a

end Assembly

/-- The tree of a source, and the events afterwards. -/
def buildTree (source : List Char) (trivia : List Trivia) (events : Array Event) :
    Except TreeError (Tree × Array Event) := do
  let replay := Event.replay events
  let assembly ← ({ source, pending := trivia } : Assembly).run replay.steps
  let events ← replay.result.mapError .link
  let tree ← assembly.builder.finish.mapError .build
  return (tree, events)

end TypstFormat
