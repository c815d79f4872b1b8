import TypstFormat.Proofs.Grammar.Node
import TypstFormat.Proofs.Tree.Balanced

/-!
# What was entered and not left

An action of the grammar may start nodes, enter modes and put rules for line breaks in force; each
of these is a `Layer` until it is finished or left again. `Nested p layers q` says that the parser
came from `p` to `q`, that the layers were entered on the way and not left, the innermost one first,
and that all else that was written is drafts. This asks nothing of `p`: neither of its stream nor of
its events.

When a layer is left, the modes, the rules and the events are again what they were when it was
entered, with drafts behind them (`Writes`).

## Key results

- `Nested.write`: what is written inside layers
- `Opened.start`, `Opened.finish`, `Puts.wrap`, `Puts.rename`: nodes
- `Writes.leaveMode`, `Writes.leaveBreakRule`: modes and rules
-/

namespace TypstFormat

open Draft

namespace Stream

/-! ## The mode of a stream -/

@[simp] theorem mode_fetch (s : Stream) : s.fetch.mode = s.mode := by
  unfold fetch mode
  rw [s.scanner.significant_eq]

@[simp] theorem mode_bump (s : Stream) : s.bump.mode = s.mode := by
  unfold bump
  split
  · rfl
  · rw [mode_fetch]
    rfl

@[simp] theorem mode_relex (s : Stream) (mode : Mode) : (s.relex mode).mode = mode := by
  unfold relex
  rw [mode_fetch]
  rfl

end Stream

namespace Parser

/-- Drafts were written behind the events that were there, and the mode, the modes to come back to
and the rules for line breaks are what they were. -/
structure Writes (p : Parser) (drafts : List Draft) (q : Parser) : Prop extends Agrees p q where
  linked : LinkedAll drafts
  events_eq : q.events.toList = p.events.toList ++ eventsAll drafts

/-- One node was written, whose own start is where it is said to be. -/
structure Puts (p : Parser) (draft : Draft) (closed : Closed) (q : Parser) : Prop
    extends Writes p [draft] q where
  isNode : draft.isNode = true
  index_eq : closed.index = p.events.size + draft.head

/-- A node was started, perhaps around a finished one, and drafts were written in it. -/
structure Opened (p : Parser) (inner : Option Draft) (drafts : List Draft) (node : Opening)
    (q : Parser) : Prop extends Agrees p q where
  isNode : ∀ d ∈ inner, d.isNode = true
  linked : LinkedAll (inner.toList ++ drafts)
  events_eq : q.events.toList =
    p.events.toList ++ (wrapped inner ++ Event.tombstone :: eventsAll drafts)
  index_eq : node.index = p.events.size + (wrapped inner).length
  wraps_eq : node.wraps = inner.map fun d => p.events.size + d.head

variable {p q r : Parser} {inner : Option Draft} {drafts more : List Draft} {node : Opening}
  {draft : Draft} {closed : Closed}

/-! ## Drafts -/

namespace Writes

theorem refl (p : Parser) : Writes p [] p :=
  ⟨.refl p, trivial, by simp [eventsAll]⟩

theorem trans (h₁ : Writes p drafts q) (h₂ : Writes q more r) : Writes p (drafts ++ more) r :=
  ⟨h₁.toAgrees.trans h₂.toAgrees, (linkedAll_append _ _).2 ⟨h₁.linked, h₂.linked⟩, by
    rw [h₂.events_eq, h₁.events_eq, eventsAll_append, List.append_assoc]⟩

/-- The mode is the one that was entered, and it is left for the one that held before. -/
theorem leaveMode {mode : Mode} (h : Writes (p.enterMode mode) drafts q) :
    q.modes = p.stream.mode :: p.modes ∧
      Writes p drafts { q with
        modes := p.modes
        stream := if p.stream.mode = q.stream.mode then q.stream
          else q.stream.relex p.stream.mode } := by
  refine ⟨h.modes_eq, ⟨?_, rfl, h.breakRules_eq⟩, h.linked, h.events_eq⟩
  dsimp only
  split
  · rename_i hmode
    exact hmode.symm
  · exact Stream.mode_relex _ _

theorem leaveBreakRule {rule : BreakRule} (h : Writes (p.enterBreakRule rule) drafts q) :
    q.breakRules = (rule, p.position) :: p.breakRules ∧
      Writes p drafts { q with breakRules := p.breakRules } :=
  ⟨h.breakRules_eq, ⟨h.mode_eq, h.modes_eq, rfl⟩, h.linked, h.events_eq⟩

/-- Going back to where drafts began forgets them. -/
theorem rewind (h : Writes p drafts q) : Writes p [] (q.rewind p.mark) := by
  refine ⟨⟨rfl, rfl, rfl⟩, trivial, ?_⟩
  have htake : q.events.take p.events.size = (q.events.toList.take p.events.size).toArray := by
    rw [← List.take_toArray]
  show (q.events.take p.events.size).toList = _
  rw [htake, h.events_eq, ← Array.length_toList, List.take_left]
  simp [eventsAll]

end Writes

/-! ## Nodes -/

private theorem linked_around {kind : Kind} (hkind : kind ≠ .tombstone)
    (h : Opened p inner drafts node q) : (around kind inner drafts).Linked := by
  refine ⟨hkind, ?_, h.linked⟩
  cases inner with
  | none =>
    intro hwraps
    cases hwraps
  | some inner => exact fun _ => ⟨inner, drafts, rfl, h.isNode inner rfl⟩

namespace Opened

theorem start (p : Parser) : Opened p none [] ⟨p.events.size, none⟩ p.started :=
  ⟨⟨rfl, rfl, rfl⟩, by simp, trivial, by simp [started, wrapped, eventsAll], rfl, rfl⟩

theorem write (h : Opened p inner drafts node q) (h' : Writes q more r) :
    Opened p inner (drafts ++ more) node r :=
  { h.toAgrees.trans h'.toAgrees with
    isNode := h.isNode
    linked := by
      rw [← List.append_assoc]
      exact (linkedAll_append _ _).2 ⟨h.linked, h'.linked⟩
    events_eq := by
      rw [h'.events_eq, h.events_eq, eventsAll_append]
      simp
    index_eq := h.index_eq
    wraps_eq := h.wraps_eq }

/-- In front of the own start of a node stand all events before it and those of the node that it is
around. -/
theorem events_split (h : Opened p inner drafts node q) :
    ∃ before : List Event, before = p.events.toList ++ wrapped inner ∧
      before.length = node.index ∧ q.events.toList = before ++ .tombstone :: eventsAll drafts := by
  refine ⟨_, rfl, ?_, ?_⟩
  · rw [List.length_append, Array.length_toList, h.index_eq]
  · rw [h.events_eq, List.append_assoc]

theorem start_eq (h : Opened p inner drafts node q) :
    q.events[node.index]? = some .tombstone := by
  obtain ⟨before, -, hlength, hevents⟩ := h.events_split
  rw [← Array.getElem?_toList, hevents, ← hlength]
  simp

/-- A node that is finished was written, with what was written in it and the node it is around. -/
theorem finish {kind : Kind} (hkind : kind ≠ .tombstone) (h : Opened p inner drafts node q) :
    Puts p (around kind inner drafts) ⟨node.index⟩ { q with
      events := (q.events.setIfInBounds node.index (.start kind none)).push .finish } := by
  obtain ⟨before, hbefore, hlength, hevents⟩ := h.events_split
  refine ⟨⟨⟨h.mode_eq, h.modes_eq, h.breakRules_eq⟩, ⟨linked_around hkind h, trivial⟩, ?_⟩, rfl, ?_⟩
  · rw [Array.toList_push, Array.toList_setIfInBounds, hevents, ← hlength,
      List.set_append_right _ _ (Nat.le_refl _), Nat.sub_self, List.set_cons_zero, hbefore,
      eventsAll_singleton, events_around]
    simp
  · rw [head_around]
    exact h.index_eq

end Opened

/-- The own start of a node that was written. -/
theorem Puts.start_eq (h : Puts p draft closed q) :
    q.events[closed.index]? = some (.start draft.kind none) := by
  rw [h.index_eq, ← Array.getElem?_toList, h.events_eq, ← Array.length_toList, eventsAll_singleton]
  have hstart := getElem?_start h.isNode p.events.toList [] none
  rwa [List.append_nil] at hstart

/-- A node that was written gets another kind. -/
theorem Puts.rename {kind : Kind} (hkind : kind ≠ .tombstone) (h : Puts p draft closed q) :
    Puts p (draft.rename kind) closed
      { q with events := q.events.setIfInBounds closed.index (.start kind none) } := by
  refine ⟨⟨⟨h.mode_eq, h.modes_eq, h.breakRules_eq⟩, ⟨?_, trivial⟩, ?_⟩, ?_, ?_⟩
  · have hlinked := h.linked.1
    cases draft with
    | token => exact hlinked
    | void => trivial
    | node own wraps children => exact ⟨hkind, hlinked.2⟩
  · rw [Array.toList_setIfInBounds, h.events_eq, h.index_eq, ← Array.length_toList,
      eventsAll_singleton]
    have hset := set_start h.isNode p.events.toList [] kind none none
    rw [List.append_nil, List.append_nil] at hset
    rw [hset, eventsAll_singleton]
  · have hnode := h.isNode
    cases draft with
    | node => rfl
    | token => cases hnode
    | void => cases hnode
  · rw [h.index_eq]
    cases draft with
    | token => rfl
    | void => rfl
    | node own wraps children =>
      cases wraps with
      | false => rfl
      | true => cases children <;> rfl

/-- A node is started around one that was written last: a link leads from the own start of the inner
one to the end of the events. -/
theorem Puts.wrap (h : Puts p draft closed q) :
    closed.index < q.events.size ∧
      Opened p (some draft) [] ⟨q.events.size, some closed.index⟩ { q with
        events := (q.events.push .tombstone).setIfInBounds closed.index
          (.start draft.kind (some (q.events.size - closed.index : Nat))) } := by
  have hsize : q.events.size = p.events.size + draft.size := by
    rw [← Array.length_toList, h.events_eq, eventsAll_singleton, List.length_append, length_events,
      Array.length_toList]
  have hlt := draft.head_lt_size
  have hspan := draft.head_add_span
  have hindex := h.index_eq
  refine ⟨by omega, ⟨h.mode_eq, h.modes_eq, h.breakRules_eq⟩, ?_, h.linked, ?_, ?_, ?_⟩
  · rintro d ⟨⟩
    exact h.isNode
  · have hlink : q.events.size - closed.index = draft.span := by omega
    rw [Array.toList_setIfInBounds, Array.toList_push, h.events_eq, eventsAll_singleton, hlink,
      hindex, List.append_assoc, ← Array.length_toList, set_start h.isNode, rename_kind]
    rfl
  · show q.events.size = p.events.size + (draft.events _).length
    rw [hsize, length_events]
  · show some closed.index = some (p.events.size + draft.head)
    rw [hindex]

end Parser

/-! ## Layers -/

/-- What an action has entered and not left. -/
inductive Layer where
  | node (node : Opening)
  | mode
  | breakRule
  deriving DecidableEq, Repr

open TypstFormat.Parser

/-- Since `p`, the layers were entered and not left, the innermost one first, and all else that was
written is drafts. -/
inductive Nested (p : Parser) : List Layer → Parser → Prop where
  | ground {q : Parser} {drafts : List Draft} : Writes p drafts q → Nested p [] q
  | node {q r : Parser} {layers : List Layer} {inner : Option Draft} {drafts : List Draft}
    {node : Opening} : Nested p layers q → Opened q inner drafts node r →
    Nested p (.node node :: layers) r
  | mode {q r : Parser} {layers : List Layer} {drafts : List Draft} {mode : Mode} :
    Nested p layers q → Writes (q.enterMode mode) drafts r → Nested p (.mode :: layers) r
  | breakRule {q r : Parser} {layers : List Layer} {drafts : List Draft} {rule : BreakRule} :
    Nested p layers q → Writes (q.enterBreakRule rule) drafts r → Nested p (.breakRule :: layers) r

namespace Nested

variable {p q r : Parser} {layers : List Layer} {drafts : List Draft}

theorem refl (p : Parser) : Nested p [] p :=
  .ground (.refl p)

/-- What is written inside layers stays inside them. -/
theorem write (h : Nested p layers q) (h' : Writes q drafts r) : Nested p layers r := by
  cases h with
  | ground hwrites => exact .ground (hwrites.trans h')
  | node hlayers hopened => exact .node hlayers (hopened.write h')
  | mode hlayers hwrites => exact .mode hlayers (hwrites.trans h')
  | breakRule hlayers hwrites => exact .breakRule hlayers (hwrites.trans h')

end Nested

/-- Inside layers, a node was put down last. -/
def Finished (p : Parser) (layers : List Layer) (closed : Closed) (r : Parser) : Prop :=
  ∃ q draft, Nested p layers q ∧ Puts q draft closed r

theorem Finished.nested {p r : Parser} {layers : List Layer} {closed : Closed}
    (h : Finished p layers closed r) : Nested p layers r := by
  obtain ⟨q, draft, hlayers, hputs⟩ := h
  exact hlayers.write hputs.toWrites

/-- What was put down since some parser was put down inside the layers around it. -/
theorem Finished.inside {p q r : Parser} {layers : List Layer} {closed : Closed}
    (h : Nested p layers q) (hfinished : Finished q [] closed r) : Finished p layers closed r := by
  obtain ⟨q', draft, hground, hputs⟩ := hfinished
  cases hground with
  | ground hwrites => exact ⟨q', draft, h.write hwrites, hputs⟩

end TypstFormat
