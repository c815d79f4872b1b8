import TypstFormat.Proofs.Grammar.Frames
import TypstFormat.Proofs.Tree.Replay

/-!
# Events that need nothing around them

A stretch of events can be taken out of a list if its starts and ends belong together and its links
stay inside it. Then it is replayed by itself into steps that leave every node that they enter, and
no other one. The events of drafts are of this kind.

## Key results

- `Draft.selfContained_eventsAll`: the events of drafts need nothing around them
-/

namespace TypstFormat

/-- Starts and ends belong together: every end finishes a node that was started before it, and every
start that has a kind is that of a node that is finished. -/
inductive Event.Balanced : List Event → Prop where
  | nil : Balanced []
  | token (kind : Kind) (stop : Nat) {rest : List Event} :
    Balanced rest → Balanced (.token kind stop :: rest)
  /-- A node that was given up has no end. -/
  | void {rest : List Event} : Balanced rest → Balanced (.tombstone :: rest)
  | node (kind : Kind) (link : Option Int) {inner rest : List Event} :
    kind ≠ .tombstone → Balanced inner → Balanced rest →
    Balanced (.start kind link :: (inner ++ .finish :: rest))

/-- The events need nothing around them: starts and ends belong together, and by themselves the
events are replayed, over links between them only, into steps that leave what they enter. -/
structure Event.SelfContained (events : List Event) : Prop where
  balanced : Balanced events
  replays : ∃ steps rest,
    replay events.toArray = { steps, result := .ok rest } ∧ Step.Balanced steps

theorem Event.Balanced.append {events more : List Event} (h : Balanced events)
    (hmore : Balanced more) : Balanced (events ++ more) := by
  induction h with
  | nil => exact hmore
  | token kind stop _ ih => exact .token kind stop ih
  | void _ ih => exact .void ih
  | @node kind link inner rest hkind hinner _ _ ih =>
    have h := Balanced.node kind link hkind hinner ih
    rw [List.cons_append, List.append_assoc, List.cons_append]
    exact h

theorem Step.Balanced.append {steps more : List Step} (h : Balanced steps)
    (hmore : Balanced more) : Balanced (steps ++ more) := by
  induction h with
  | nil => exact hmore
  | token kind stop _ ih => exact .token kind stop ih
  | @node kind inner rest hinner _ _ ih =>
    have h := Balanced.node kind hinner ih
    rw [List.cons_append, List.append_assoc, List.cons_append]
    exact h

namespace Draft

@[simp] theorem linkedAll_append (drafts more : List Draft) :
    LinkedAll (drafts ++ more) ↔ LinkedAll drafts ∧ LinkedAll more := by
  induction drafts with
  | nil => simp [LinkedAll]
  | cons draft drafts ih => simp [LinkedAll, ih, and_assoc]

mutual

/-- The start of a node around another one stands behind the end of the inner one. -/
theorem balanced_events (link : Option Int) :
    (draft : Draft) → draft.Linked → Event.Balanced (draft.events link)
  | token _ _, _ => .token _ _ .nil
  | void, _ => .void .nil
  | node kind false children, h =>
    .node kind link h.1 (balanced_eventsAll children h.2.2) .nil
  | node kind true [], h => .node kind link h.1 .nil .nil
  | node kind true (inner :: children), h =>
    (balanced_events _ inner h.2.2.1).append
      (.node kind link h.1 (balanced_eventsAll children h.2.2.2) .nil)

theorem balanced_eventsAll :
    (drafts : List Draft) → LinkedAll drafts → Event.Balanced (eventsAll drafts)
  | [], _ => .nil
  | draft :: drafts, h => (balanced_events none draft h.1).append (balanced_eventsAll drafts h.2)

end

mutual

theorem balanced_steps : (draft : Draft) → Step.Balanced draft.steps
  | token _ _ => .token _ _ .nil
  | void => .nil
  | node kind _ children => .node kind (balanced_stepsAll children) .nil

theorem balanced_stepsAll : (drafts : List Draft) → Step.Balanced (stepsAll drafts)
  | [] => .nil
  | draft :: drafts => (balanced_steps draft).append (balanced_stepsAll drafts)

end

/-- The events of drafts need nothing around them. -/
theorem selfContained_eventsAll {drafts : List Draft} (h : LinkedAll drafts) :
    Event.SelfContained (eventsAll drafts) := by
  obtain ⟨rest, hreplay⟩ := replay_eventsAll h
  exact ⟨balanced_eventsAll drafts h, stepsAll drafts, rest, hreplay, balanced_stepsAll drafts⟩

end Draft

end TypstFormat
