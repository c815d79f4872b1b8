import TypstFormat.Kind

/-!
# Events

The grammar does not build nodes while it reads. It writes down `Event`s: where a node starts, where
one finishes, and the tokens in between. A node that turns out to lie around one that is finished
already starts behind it in the list, and the start of the inner node carries a `link` to it.

`replay` turns such a list into `Step`s in which every node is entered before what it contains. It
follows each chain of links and replaces what it reaches by a tombstone, so that no node is entered
twice. A chain may not be followed forever: each event on it loses its link.
-/

namespace TypstFormat

inductive Event where
  /-- A node starts; the link is the distance to the start of the node around it. -/
  | start (kind : Kind) (link : Option Int)
  /-- The innermost node finishes. -/
  | finish
  /-- A token that reaches up to an offset. -/
  | token (kind : Kind) (stop : Nat)
  deriving DecidableEq, Repr, Inhabited

namespace Event

/-- The start of a node that has no kind yet, or never gets one. -/
def tombstone : Event :=
  .start .tombstone none

/-- Whether an event is a start with a link. -/
def isLinked : Event → Bool
  | .start _ (some _) => true
  | _ => false

end Event

/-- What happens when a tree is built from events. -/
inductive Step where
  | enter (kind : Kind)
  | token (kind : Kind) (stop : Nat)
  | leave
  deriving DecidableEq, Repr

/-- What is wrong with a link. -/
inductive LinkError where
  /-- It leads past the last event. -/
  | pastEnd
  /-- It leads in front of the first event. -/
  | beforeStart
  /-- It leads to an event that is no start. -/
  | notAStart
  deriving DecidableEq, Repr

namespace Event

/-- The place of an event in a list of `size` events. A number below zero counts from the end. -/
def place (size : Nat) (index : Int) : Except LinkError Nat :=
  if index ≥ size then .error .pastEnd
  else if 0 ≤ index then .ok index.toNat
  else if 0 ≤ size + index then .ok (size + index).toNat
  else .error .beforeStart

theorem isLinked_tombstone : isLinked tombstone = false := rfl

theorem place_lt {size n : Nat} {index : Int} (h : place size index = .ok n) : n < size := by
  simp only [place] at h
  split at h
  · cases h
  · split at h
    · cases h; omega
    · split at h
      · cases h; omega
      · cases h

/-- Replacing a linked event by a tombstone leaves fewer linked events. -/
theorem countP_isLinked_set_lt {events : Array Event} {n : Nat} (hn : n < events.size)
    (h : events[n].isLinked = true) :
    (events.set n tombstone).countP isLinked < events.countP isLinked := by
  rw [Array.countP_set]
  have hpos : 0 < events.countP isLinked :=
    Array.countP_pos_iff.2 ⟨events[n], Array.getElem_mem hn, h⟩
  simp only [h, if_true, isLinked_tombstone]
  simp only [Bool.false_eq_true, if_false]
  omega

/-- Follows the links from the event at `index`, whose own link is `distance` long. The result is the
kinds of the nodes around it, the outermost first and followed by `inner`, and the events, in which
everything that was reached is a tombstone. -/
def followLinks (events : Array Event) (index distance : Int) (inner : List Kind) :
    Except LinkError (List Kind × Array Event) :=
  match hplace : place events.size (index + distance) with
  | .error e => .error e
  | .ok n =>
    have hn : n < events.size := place_lt hplace
    match hevent : events[n] with
    | .start kind next =>
      let kinds := if kind = .tombstone then inner else kind :: inner
      match next with
      | none => .ok (kinds, events.set n tombstone)
      | some further =>
        have : (events.set n tombstone).countP isLinked < events.countP isLinked :=
          countP_isLinked_set_lt hn (by rw [hevent]; rfl)
        followLinks (events.set n tombstone) (index + distance) further kinds
    | _ => .error .notAStart
termination_by events.countP isLinked

/-- The kinds of the nodes that start with the event at `index`, the outermost first: those its
links lead to, and its own. -/
def kindsFrom (events : Array Event) (index : Nat) (kind : Kind) :
    Option Int → Except LinkError (List Kind × Array Event)
  | none => .ok ([kind], events)
  | some distance => followLinks events index distance [kind]

/-- What a list of events leads to. -/
structure Replay where
  steps : List Step
  /-- The events afterwards, unless a link led nowhere. -/
  result : Except LinkError (Array Event)
  deriving Repr

namespace Replay

/-- A replay with more steps in front. -/
def after (replay : Replay) (steps : List Step) : Replay :=
  { replay with steps := steps ++ replay.steps }

end Replay

/-- Replays the last `n` events of a list. -/
def replayLast : Nat → Array Event → Replay
  | 0, events => { steps := [], result := .ok events }
  | n + 1, events =>
    let index := events.size - (n + 1)
    match events[index]? with
    | some (.start kind link) =>
      if kind = .tombstone then
        replayLast n events
      else
        match kindsFrom events index kind link with
        | .error e => { steps := [], result := .error e }
        | .ok (kinds, events) => (replayLast n events).after (kinds.map .enter)
    | some .finish => (replayLast n events).after [.leave]
    | some (.token kind stop) => (replayLast n events).after [.token kind stop]
    | none => replayLast n events

/-- The steps in which the tree of a list of events is built. -/
def replay (events : Array Event) : Replay :=
  replayLast events.size events

end Event

end TypstFormat
