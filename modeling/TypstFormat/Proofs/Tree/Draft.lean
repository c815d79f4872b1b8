import TypstFormat.Proofs.Token.Look
import TypstFormat.Tree.Event

/-!
# Drafts

A `Draft` is a tree as the grammar writes it down: its leaves are the looks that were consumed, and
a node may have been started around its first child after that child was finished. `Draft.events` is
the list of events of a draft and `Draft.steps` the list of steps in which its tree is built.

The start of a node around another one stands behind the events of the inner one, so each node has
one start of its own, at `Draft.head`, from which a link leads to the start of the next node around
it. The events from there on are as many as `Draft.span`, and that is how long the link is.

## Key results

- `length_events`: how many events a draft has
- `getElem?_start`, `set_start`: the link of a node sits in the event at its `head`
-/

namespace TypstFormat

inductive Draft where
  /-- A token that was consumed, possibly as plain text. -/
  | token (look : Look) (asText : Bool)
  /-- The start of a node that was given up. -/
  | void
  /-- A node; it `wraps` its first child if it was started around it. -/
  | node (kind : Kind) (wraps : Bool) (children : List Draft)
  deriving Repr

namespace Draft

def kind : Draft → Kind
  | token look asText => if asText then .text else look.token.kind
  | void => .tombstone
  | node kind _ _ => kind

def isNode : Draft → Bool
  | node .. => true
  | _ => false

def isVoid : Draft → Bool
  | void => true
  | _ => false

/-- The kinds of what is left of drafts in a tree. -/
def kinds (drafts : List Draft) : List Kind :=
  (drafts.filter (!·.isVoid)).map kind

mutual

/-- How many events a draft has. -/
def size : Draft → Nat
  | token .. => 1
  | void => 1
  | node _ _ children => sizeAll children + 2

/-- How many events several drafts have. -/
def sizeAll : List Draft → Nat
  | [] => 0
  | draft :: drafts => size draft + sizeAll drafts

end

/-- How many events of a node stand in front of its own start. -/
def head : Draft → Nat
  | node _ true (inner :: _) => size inner
  | _ => 0

/-- How many events a node has from its own start on. -/
def span (draft : Draft) : Nat :=
  draft.size - draft.head

mutual

/-- The events of a draft. A link leads from its own start to that of the node around it. -/
def events (link : Option Int) : Draft → List Event
  | token look asText => [.token (if asText then .text else look.token.kind) look.token.range.stop]
  | void => [.tombstone]
  | node kind false children => .start kind link :: (eventsAll children ++ [.finish])
  | node kind true [] => [.start kind link, .finish]
  | node kind true (inner :: children) =>
    events (some (inner.span : Nat)) inner ++ .start kind link :: (eventsAll children ++ [.finish])

/-- The events of several drafts. -/
def eventsAll : List Draft → List Event
  | [] => []
  | draft :: drafts => events none draft ++ eventsAll drafts

end

mutual

/-- The steps in which the tree of a draft is built. -/
def steps : Draft → List Step
  | token look asText => [.token (if asText then .text else look.token.kind) look.token.range.stop]
  | void => []
  | node kind _ children => .enter kind :: (stepsAll children ++ [.leave])

/-- The steps in which the trees of several drafts are built. -/
def stepsAll : List Draft → List Step
  | [] => []
  | draft :: drafts => steps draft ++ stepsAll drafts

end

mutual

/-- The looks that were consumed, in the order of the source. -/
def leaves : Draft → List Look
  | token look _ => [look]
  | void => []
  | node _ _ children => leavesAll children

/-- The looks of several drafts. -/
def leavesAll : List Draft → List Look
  | [] => []
  | draft :: drafts => leaves draft ++ leavesAll drafts

end

mutual

/-- The tokens of a draft, as they stand in a tree. -/
def pieces : Draft → List Trivia
  | token look asText =>
    [{ look.token.toTrivia with kind := if asText then .text else look.token.kind }]
  | void => []
  | node _ _ children => piecesAll children

/-- The tokens of several drafts. -/
def piecesAll : List Draft → List Trivia
  | [] => []
  | draft :: drafts => pieces draft ++ piecesAll drafts

end

/-- A node that wraps its first child does so to a node. -/
def WrapsNode (wraps : Bool) (children : List Draft) : Prop :=
  wraps = true → ∃ inner rest, children = inner :: rest ∧ inner.isNode = true

mutual

/-- All nodes have a kind, and only nodes are wrapped. -/
def Linked : Draft → Prop
  | token .. => True
  | void => True
  | node kind wraps children =>
    kind ≠ .tombstone ∧ WrapsNode wraps children ∧ LinkedAll children

/-- All nodes of several drafts have a kind, and only nodes are wrapped. -/
def LinkedAll : List Draft → Prop
  | [] => True
  | draft :: drafts => Linked draft ∧ LinkedAll drafts

end

mutual

/-- Nodes have kinds of nodes, only nodes are wrapped, and neither white space nor anything that may
be flawed is made plain text. -/
def Proper : Draft → Prop
  | token look asText =>
    asText = true → look.token.kind.mayBeFlawed = false ∧ look.token.kind.isSpace = false
  | void => True
  | node kind wraps children =>
    kind.isNode = true ∧ WrapsNode wraps children ∧ ProperAll children

/-- Several drafts are proper. -/
def ProperAll : List Draft → Prop
  | [] => True
  | draft :: drafts => Proper draft ∧ ProperAll drafts

end

/-- The node with another kind. -/
def rename (kind : Kind) : Draft → Draft
  | node _ wraps children => node kind wraps children
  | draft => draft

/-- A node around drafts, the first of which was finished before the node was started. -/
def around (kind : Kind) (inner : Option Draft) (children : List Draft) : Draft :=
  node kind inner.isSome (inner.toList ++ children)

/-! ## Several drafts -/

@[simp] theorem kinds_nil : kinds [] = [] := rfl

@[simp] theorem kinds_append (drafts more : List Draft) :
    kinds (drafts ++ more) = kinds drafts ++ kinds more := by
  simp [kinds]

@[simp] theorem kinds_void (drafts : List Draft) : kinds (void :: drafts) = kinds drafts := rfl

@[simp] theorem kinds_token (look : Look) (asText : Bool) (drafts : List Draft) :
    kinds (token look asText :: drafts) = (token look asText).kind :: kinds drafts := rfl

@[simp] theorem kinds_node (kind : Kind) (wraps : Bool) (children drafts : List Draft) :
    kinds (node kind wraps children :: drafts) = kind :: kinds drafts := rfl

@[simp] theorem eventsAll_append (drafts more : List Draft) :
    eventsAll (drafts ++ more) = eventsAll drafts ++ eventsAll more := by
  induction drafts with
  | nil => rfl
  | cons draft drafts ih => simp [eventsAll, ih]

@[simp] theorem leavesAll_append (drafts more : List Draft) :
    leavesAll (drafts ++ more) = leavesAll drafts ++ leavesAll more := by
  induction drafts with
  | nil => rfl
  | cons draft drafts ih => simp [leavesAll, ih]

@[simp] theorem piecesAll_append (drafts more : List Draft) :
    piecesAll (drafts ++ more) = piecesAll drafts ++ piecesAll more := by
  induction drafts with
  | nil => rfl
  | cons draft drafts ih => simp [piecesAll, ih]

@[simp] theorem properAll_append (drafts more : List Draft) :
    ProperAll (drafts ++ more) ↔ ProperAll drafts ∧ ProperAll more := by
  induction drafts with
  | nil => simp [ProperAll]
  | cons draft drafts ih => simp [ProperAll, ih, and_assoc]

private theorem ne_tombstone_of_isNode {kind : Kind} (h : kind.isNode = true) :
    kind ≠ .tombstone := by
  rintro rfl
  cases h

mutual

theorem linked_of_proper : (draft : Draft) → draft.Proper → draft.Linked
  | token .., _ => trivial
  | void, _ => trivial
  | node _ _ children, h =>
    ⟨ne_tombstone_of_isNode h.1, h.2.1, linkedAll_of_properAll children h.2.2⟩

theorem linkedAll_of_properAll : (drafts : List Draft) → ProperAll drafts → LinkedAll drafts
  | [], _ => trivial
  | draft :: drafts, h => ⟨linked_of_proper draft h.1, linkedAll_of_properAll drafts h.2⟩

end

theorem leavesAll_singleton (draft : Draft) : leavesAll [draft] = leaves draft := by
  simp [leavesAll]

/-- The first look of drafts, or else the one behind them. -/
def front (drafts : List Draft) (next : Look) : Look :=
  (leavesAll drafts).headD next

@[simp] theorem front_nil (next : Look) : front [] next = next := rfl

theorem front_append (drafts more : List Draft) (next : Look) :
    front (drafts ++ more) next = front drafts (front more next) := by
  unfold front
  rw [leavesAll_append]
  cases leavesAll drafts <;> rfl

theorem front_cons (draft : Draft) (drafts : List Draft) (next : Look) :
    front (draft :: drafts) next = front [draft] (front drafts next) :=
  front_append [draft] drafts next

theorem front_node (kind : Kind) (wraps : Bool) (children : List Draft) (next : Look) :
    front [.node kind wraps children] next = front children next := by
  unfold front
  rw [leavesAll_singleton]
  rfl

theorem front_of_head? {drafts : List Draft} {l : Look} (h : (leavesAll drafts).head? = some l)
    (next : Look) : front drafts next = l := by
  unfold front
  rw [List.headD_eq_head?_getD, h]
  rfl

theorem eventsAll_singleton (draft : Draft) : eventsAll [draft] = events none draft := by
  simp [eventsAll]

/-! ## The own start of a node -/

theorem head_lt_size (draft : Draft) : draft.head < draft.size := by
  cases draft with
  | token look asText => exact Nat.one_pos
  | void => exact Nat.one_pos
  | node kind wraps children =>
    cases wraps with
    | false => exact Nat.succ_pos _
    | true =>
      cases children with
      | nil => exact Nat.succ_pos _
      | cons inner rest =>
        -- The events of the inner node come first, and a start and an end behind them.
        simp only [head, size, sizeAll]
        omega

theorem head_add_span (draft : Draft) : draft.head + draft.span = draft.size := by
  have := draft.head_lt_size
  unfold span
  omega

mutual

theorem length_events (link : Option Int) :
    (draft : Draft) → (draft.events link).length = draft.size
  | token _ _ => rfl
  | void => rfl
  | node _ false children => by simp [events, size, length_eventsAll children]
  | node _ true [] => by simp [events, size, sizeAll]
  | node _ true (inner :: children) => by
    simp only [events, size, sizeAll, List.length_append, List.length_cons, List.length_nil,
      length_events _ inner, length_eventsAll children]
    omega

theorem length_eventsAll : (drafts : List Draft) → (eventsAll drafts).length = sizeAll drafts
  | [] => rfl
  | draft :: drafts => by
    simp [eventsAll, sizeAll, length_events none draft, length_eventsAll drafts]

end

theorem getElem?_head_events {draft : Draft} (h : draft.isNode = true) (link : Option Int) :
    (draft.events link)[draft.head]? = some (.start draft.kind link) := by
  cases draft with
  | token look asText => cases h
  | void => cases h
  | node kind wraps children =>
    cases wraps with
    | false => rfl
    | true =>
      cases children with
      | nil => rfl
      | cons inner rest =>
        -- Behind the events of the inner node stands the start of the node itself.
        simp only [events, head, Draft.kind]
        rw [List.getElem?_append_right (Nat.le_of_eq (length_events _ inner)), length_events,
          Nat.sub_self]
        rfl

/-- Another link, or another kind, goes into the own start of a node and nowhere else. -/
theorem events_relink {draft : Draft} (h : draft.isNode = true) (kind : Kind)
    (link link' : Option Int) :
    (draft.events link).set draft.head (.start kind link') = (draft.rename kind).events link' := by
  cases draft with
  | token look asText => cases h
  | void => cases h
  | node own wraps children =>
    cases wraps with
    | false => rfl
    | true =>
      cases children with
      | nil => rfl
      | cons inner rest =>
        simp only [events, head, rename]
        rw [List.set_append_right _ _ (Nat.le_of_eq (length_events _ inner)), length_events,
          Nat.sub_self]
        rfl

/-- The start of a node stands behind all events in front of it. -/
theorem getElem?_start {draft : Draft} (h : draft.isNode = true) (before behind : List Event)
    (link : Option Int) :
    (before ++ (draft.events link ++ behind))[before.length + draft.head]? =
      some (.start draft.kind link) := by
  have hlt : draft.head < (draft.events link).length := by
    rw [length_events]
    exact draft.head_lt_size
  rw [List.getElem?_append_right (Nat.le_add_right _ _), Nat.add_sub_cancel_left,
    List.getElem?_append_left hlt]
  exact getElem?_head_events h link

theorem set_start {draft : Draft} (h : draft.isNode = true) (before behind : List Event)
    (kind : Kind) (link link' : Option Int) :
    (before ++ (draft.events link ++ behind)).set (before.length + draft.head)
        (.start kind link') =
      before ++ ((draft.rename kind).events link' ++ behind) := by
  have hlt : draft.head < (draft.events link).length := by
    rw [length_events]
    exact draft.head_lt_size
  rw [List.set_append_right _ _ (Nat.le_add_right _ _), Nat.add_sub_cancel_left,
    List.set_append_left _ _ hlt, events_relink h]

theorem rename_kind {draft : Draft} : draft.rename draft.kind = draft := by
  cases draft <;> rfl

theorem proper_rename {kind : Kind} (hkind : kind.isNode = true) {draft : Draft}
    (h : draft.Proper) : (draft.rename kind).Proper := by
  cases draft with
  | token => exact h
  | void => trivial
  | node own wraps children => exact ⟨hkind, h.2⟩

/-! ## Nodes around a finished one -/

/-- The events of the node that was finished before, linked to the start behind it. -/
def wrapped : Option Draft → List Event
  | none => []
  | some inner => inner.events (some (inner.span : Nat))

theorem events_around (kind : Kind) (inner : Option Draft) (children : List Draft)
    (link : Option Int) :
    (around kind inner children).events link =
      wrapped inner ++ .start kind link :: (eventsAll children ++ [.finish]) := by
  cases inner <;> rfl

theorem head_around (kind : Kind) (inner : Option Draft) (children : List Draft) :
    (around kind inner children).head = (wrapped inner).length := by
  cases inner with
  | none => rfl
  | some inner => exact (length_events _ inner).symm

@[simp] theorem leaves_around (kind : Kind) (inner : Option Draft) (children : List Draft) :
    (around kind inner children).leaves = leavesAll (inner.toList ++ children) := rfl

theorem proper_around {kind : Kind} (hkind : kind.isNode = true) {inner : Option Draft}
    {children : List Draft} (hnode : ∀ d ∈ inner, d.isNode = true)
    (hinner : ProperAll inner.toList) (hchildren : ProperAll children) :
    (around kind inner children).Proper := by
  refine ⟨hkind, ?_, properAll_append _ _ |>.2 ⟨hinner, hchildren⟩⟩
  cases inner with
  | none =>
    intro hwraps
    cases hwraps
  | some inner => exact fun _ => ⟨inner, children, rfl, hnode inner rfl⟩

end Draft

end TypstFormat
