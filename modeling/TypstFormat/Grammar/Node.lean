import TypstFormat.Grammar.Parser

/-!
# Starting and finishing nodes

A node is started before its kind is known. The `Opening` that stands for it is later finished with
a kind, or dissolved, which leaves what was read in the node around it. A `Closed` node can be
wrapped: this starts a node around it, although the start is written behind it.
-/

namespace TypstFormat

/-- A node that is started. -/
structure Opening where
  /-- The index of its start among the events. -/
  index : Nat
  /-- The start of the node that it was started around. -/
  wraps : Option Nat := none
  deriving DecidableEq, Repr

/-- A node that is finished. -/
structure Closed where
  /-- The index of its start among the events. -/
  index : Nat
  deriving DecidableEq, Repr

namespace Parse

/-- The kind and the link of the start at an index. -/
def startAt (index : Nat) : Parse (Kind × Option Int) := do
  match (← get).events[index]? with
  | some (.start kind link) => return (kind, link)
  | some _ => throw .notAStart
  | none => throw .noEvent

/-- Replaces the event at an index. -/
def putEvent (index : Nat) (event : Event) : Parse Unit :=
  modify fun p => { p with events := p.events.setIfInBounds index event }

/-- Starts a node. -/
def start : Parse Opening := do
  let p ← get
  set { p with events := p.events.push .tombstone }
  return { index := p.events.size }

end Parse

open Parse

namespace Opening

/-- Finishes a node. -/
def finish (node : Opening) (kind : Kind) : Parse Closed := do
  let (_, link) ← startAt node.index
  putEvent node.index (.start kind link)
  modify fun p => { p with events := p.events.push .finish }
  return { index := node.index }

/-- Drops the start of a node if nothing was read since. -/
def dropStart (node : Opening) : Parse Unit := do
  if node.index + 1 = (← get).events.size then
    let (_, link) ← startAt node.index
    if link.isNone then
      modify fun p => { p with events := p.events.pop }

/-- Gives up a node: what was read in it belongs to the node around it. -/
def dissolve (node : Opening) : Parse Unit := do
  node.dropStart
  match node.wraps with
  | none => return
  | some inner =>
    let (kind, _) ← startAt inner
    putEvent inner (.start kind none)

end Opening

namespace Closed

def kind (node : Closed) : Parse Kind :=
  return (← startAt node.index).1

/-- Gives a finished node another kind. -/
def rename (node : Closed) (kind : Kind) : Parse Unit := do
  let (_, link) ← startAt node.index
  putEvent node.index (.start kind link)

/-- Starts a node around a finished one. -/
def wrap (node : Closed) : Parse Opening := do
  let outer ← start
  if outer.index ≤ node.index then
    throw .nothingToWrap
  let (kind, _) ← startAt node.index
  putEvent node.index (.start kind (some (outer.index - node.index : Nat)))
  return { outer with wraps := some node.index }

end Closed

end TypstFormat
