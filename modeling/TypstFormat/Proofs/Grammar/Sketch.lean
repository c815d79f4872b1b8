import TypstFormat.Proofs.Grammar.Frames
import TypstFormat.Proofs.Tree.Draft

/-!
# Sketches

A `Sketch` is a draft whose nodes are called by their numbers, since the kind of a node may change
after it was finished. Its entries are the events of the draft, in which the start of a node holds
its number. So another kind for one node is another event at one place, wherever the node stands
(`Sketch.LogEntry.map_update`).

## Key results

- `Sketch.events_draft`: the events of the draft, from the entries and the kinds of the nodes
- `Sketch.stepsAll_drafts`: the steps of the drafts are those of the plans
- `Sketch.LogEntry.map_update`: what another kind changes
-/

namespace TypstFormat

inductive Sketch where
  | token (token : Token)
  /-- The start of a node that was given up. -/
  | void
  /-- A node; it `wraps` its first child if it was started around it. -/
  | node (name : Nat) (wraps : Bool) (children : List Sketch)
  deriving Repr

namespace Sketch

def isNode : Sketch → Bool
  | node .. => true
  | _ => false

def isVoid : Sketch → Bool
  | void => true
  | _ => false

mutual

/-- The draft of a sketch, from the kinds of its nodes. -/
def draft (kindOf : Nat → Kind) : Sketch → Draft
  | token t => .token ⟨.markup, [], t, []⟩ false
  | void => .void
  | node name wraps children => .node (kindOf name) wraps (drafts kindOf children)

/-- The drafts of several sketches. -/
def drafts (kindOf : Nat → Kind) : List Sketch → List Draft
  | [] => []
  | sketch :: sketches => draft kindOf sketch :: drafts kindOf sketches

end

mutual

/-- What is left of a sketch in a tree. -/
def plans : Sketch → List Plan
  | token t => [.token t]
  | void => []
  | node name _ children => [.node name (plansAll children)]

/-- What is left of several sketches. -/
def plansAll : List Sketch → List Plan
  | [] => []
  | sketch :: sketches => plans sketch ++ plansAll sketches

end

/-- How many events a sketch has. -/
def size (sketch : Sketch) : Nat :=
  (sketch.draft fun _ => .tombstone).size

/-- How many events of a node stand in front of its own start. -/
def head (sketch : Sketch) : Nat :=
  (sketch.draft fun _ => .tombstone).head

/-- How many events a node has from its own start on. -/
def span (sketch : Sketch) : Nat :=
  (sketch.draft fun _ => .tombstone).span

/-- An event before the kinds of the nodes are known. -/
inductive LogEntry where
  /-- The start of a finished node. -/
  | own (name : Nat) (link : Option Int)
  | other (event : Event)
  deriving Repr

/-- The event that an entry stands for. -/
def LogEntry.event (kindOf : Nat → Kind) : LogEntry → Event
  | own name link => .start (kindOf name) link
  | other event => event

mutual

/-- The events of a sketch. A link leads from its own start to that of the node around it. -/
def entries (link : Option Int) : Sketch → List LogEntry
  | token t => [.other (.token t.kind t.range.stop)]
  | void => [.other .tombstone]
  | node name false children => .own name link :: (entriesAll children ++ [.other .finish])
  | node name true [] => [.own name link, .other .finish]
  | node name true (inner :: children) =>
    entries (some (inner.span : Nat)) inner ++
      .own name link :: (entriesAll children ++ [.other .finish])

/-- The events of several sketches. -/
def entriesAll : List Sketch → List LogEntry
  | [] => []
  | sketch :: sketches => entries none sketch ++ entriesAll sketches

end

mutual

/-- Only nodes are wrapped. -/
def Linked : Sketch → Prop
  | node _ wraps children =>
    (wraps = true → ∃ inner rest, children = inner :: rest ∧ inner.isNode = true) ∧
      LinkedAll children
  | _ => True

/-- Only nodes are wrapped in several sketches. -/
def LinkedAll : List Sketch → Prop
  | [] => True
  | sketch :: sketches => Linked sketch ∧ LinkedAll sketches

end

/-- A node around sketches, the first of which was finished before the node was started. -/
def around (name : Nat) (inner : Option Sketch) (children : List Sketch) : Sketch :=
  node name inner.isSome (inner.toList ++ children)

/-- The entries of the node that was finished before, linked to the start behind it. -/
def wrapped : Option Sketch → List LogEntry
  | none => []
  | some inner => inner.entries (some (inner.span : Nat))

variable {kindOf : Nat → Kind}

/-! ## Several sketches -/

@[simp] theorem plansAll_append (sketches more : List Sketch) :
    plansAll (sketches ++ more) = plansAll sketches ++ plansAll more := by
  induction sketches with
  | nil => rfl
  | cons sketch sketches ih => simp [plansAll, ih]

@[simp] theorem entriesAll_append (sketches more : List Sketch) :
    entriesAll (sketches ++ more) = entriesAll sketches ++ entriesAll more := by
  induction sketches with
  | nil => rfl
  | cons sketch sketches ih => simp [entriesAll, ih]

@[simp] theorem linkedAll_append (sketches more : List Sketch) :
    LinkedAll (sketches ++ more) ↔ LinkedAll sketches ∧ LinkedAll more := by
  induction sketches with
  | nil => simp [LinkedAll]
  | cons sketch sketches ih => simp [LinkedAll, ih, and_assoc]

theorem entriesAll_singleton (sketch : Sketch) : entriesAll [sketch] = sketch.entries none := by
  simp [entriesAll]

theorem plansAll_singleton (sketch : Sketch) : plansAll [sketch] = sketch.plans := by
  simp [plansAll]

/-! ## The draft of a sketch -/

mutual

theorem size_draft : (sketch : Sketch) → (sketch.draft kindOf).size = sketch.size
  | token _ => rfl
  | void => rfl
  | node name wraps children => by
    simp only [size, draft, Draft.size, sizeAll_drafts children]

theorem sizeAll_drafts : (sketches : List Sketch) →
    Draft.sizeAll (drafts kindOf sketches) = Draft.sizeAll (drafts (fun _ => .tombstone) sketches)
  | [] => rfl
  | sketch :: sketches => by
    have hsketch := size_draft sketch
    simp only [drafts, Draft.sizeAll, hsketch, sizeAll_drafts sketches]
    rfl

end

theorem head_draft (sketch : Sketch) : (sketch.draft kindOf).head = sketch.head := by
  cases sketch with
  | token => rfl
  | void => rfl
  | node name wraps children =>
    cases wraps with
    | false => rfl
    | true =>
      cases children with
      | nil => rfl
      | cons inner rest => exact size_draft inner

theorem span_draft (sketch : Sketch) : (sketch.draft kindOf).span = sketch.span := by
  unfold Draft.span
  rw [size_draft, head_draft]
  rfl

mutual

/-- The events of the draft are those that the entries stand for. -/
theorem events_draft (link : Option Int) : (sketch : Sketch) →
    (sketch.draft kindOf).events link = (sketch.entries link).map (LogEntry.event kindOf)
  | token _ => rfl
  | void => rfl
  | node name false children => by
    simp [draft, Draft.events, entries, LogEntry.event, eventsAll_drafts children]
  | node name true [] => rfl
  | node name true (inner :: children) => by
    simp [draft, drafts, Draft.events, entries, LogEntry.event, events_draft _ inner, span_draft,
      eventsAll_drafts children]

theorem eventsAll_drafts : (sketches : List Sketch) →
    Draft.eventsAll (drafts kindOf sketches) = (entriesAll sketches).map (LogEntry.event kindOf)
  | [] => rfl
  | sketch :: sketches => by
    simp [drafts, Draft.eventsAll, entriesAll, events_draft none sketch, eventsAll_drafts sketches]

end

theorem length_entries (link : Option Int) (sketch : Sketch) :
    (sketch.entries link).length = sketch.size := by
  have h := congrArg List.length (@events_draft (fun _ => .tombstone) link sketch)
  rw [Draft.length_events, List.length_map] at h
  exact h.symm

theorem isNode_draft (sketch : Sketch) : (sketch.draft kindOf).isNode = sketch.isNode := by
  cases sketch <;> rfl

mutual

theorem linked_draft (hkind : ∀ name, kindOf name ≠ .tombstone) : (sketch : Sketch) →
    sketch.Linked → (sketch.draft kindOf).Linked
  | token _, _ => trivial
  | void, _ => trivial
  | node name wraps children, h => by
    refine ⟨hkind name, ?_, linkedAll_drafts hkind children h.2⟩
    intro hwraps
    obtain ⟨inner, rest, rfl, hnode⟩ := h.1 hwraps
    exact ⟨_, _, rfl, (isNode_draft inner).trans hnode⟩

theorem linkedAll_drafts (hkind : ∀ name, kindOf name ≠ .tombstone) : (sketches : List Sketch) →
    LinkedAll sketches → Draft.LinkedAll (drafts kindOf sketches)
  | [], _ => trivial
  | sketch :: sketches, h =>
    ⟨linked_draft hkind sketch h.1, linkedAll_drafts hkind sketches h.2⟩

end

/-! ## The own start of a node -/

theorem head_add_span (sketch : Sketch) : sketch.head + sketch.span = sketch.size :=
  Draft.head_add_span _

theorem head_lt_size (sketch : Sketch) : sketch.head < sketch.size :=
  Draft.head_lt_size _

/-- The entries of a node are those in front of its own start, and those behind it. -/
theorem entries_node (name : Nat) (wraps : Bool) (children : List Sketch) :
    ∃ front behind : List LogEntry, front.length = (node name wraps children).head ∧
      ∀ link, (node name wraps children).entries link = front ++ .own name link :: behind := by
  cases wraps with
  | false => exact ⟨[], _, rfl, fun _ => rfl⟩
  | true =>
    cases children with
    | nil => exact ⟨[], _, rfl, fun _ => rfl⟩
    | cons inner rest => exact ⟨_, _, length_entries _ inner, fun _ => rfl⟩

theorem entries_around (name : Nat) (inner : Option Sketch) (children : List Sketch)
    (link : Option Int) :
    (around name inner children).entries link =
      wrapped inner ++ .own name link :: (entriesAll children ++ [.other .finish]) := by
  cases inner <;> rfl

theorem linked_around (name : Nat) {inner : Option Sketch} {children : List Sketch}
    (hnode : ∀ s ∈ inner, s.isNode = true) (hinner : LinkedAll inner.toList)
    (hchildren : LinkedAll children) : (around name inner children).Linked := by
  refine ⟨?_, (linkedAll_append _ _).2 ⟨hinner, hchildren⟩⟩
  cases inner with
  | none =>
    intro hwraps
    cases hwraps
  | some inner => exact fun _ => ⟨inner, children, rfl, hnode inner rfl⟩

theorem plans_around (name : Nat) (inner : Option Sketch) (children : List Sketch) :
    (around name inner children).plans = [.node name (plansAll (inner.toList ++ children))] := rfl

end Sketch

/-! ## The steps of plans -/

namespace Plan

mutual

/-- The steps in which the tree of a plan is built. -/
def steps (kindOf : Nat → Kind) : Plan → List Step
  | token t => [.token t.kind t.range.stop]
  | node name children => .enter (kindOf name) :: (stepsAll kindOf children ++ [.leave])

/-- The steps in which the trees of several plans are built. -/
def stepsAll (kindOf : Nat → Kind) : List Plan → List Step
  | [] => []
  | plan :: plans => steps kindOf plan ++ stepsAll kindOf plans

end

theorem stepsAll_append (kindOf : Nat → Kind) (plans more : List Plan) :
    stepsAll kindOf (plans ++ more) = stepsAll kindOf plans ++ stepsAll kindOf more := by
  induction plans with
  | nil => rfl
  | cons plan plans ih => simp [stepsAll, ih]

mutual

theorem balanced_steps (kindOf : Nat → Kind) : (plan : Plan) → {rest : List Step} →
    Step.Balanced rest → Step.Balanced (plan.steps kindOf ++ rest)
  | token _, _, h => .token _ _ h
  | node name children, rest, h => by
    have hinner := balanced_stepsAll kindOf children .nil
    rw [List.append_nil] at hinner
    have hnode := Step.Balanced.node (kindOf name) hinner h
    simpa [steps] using hnode

theorem balanced_stepsAll (kindOf : Nat → Kind) : (plans : List Plan) → {rest : List Step} →
    Step.Balanced rest → Step.Balanced (stepsAll kindOf plans ++ rest)
  | [], _, h => h
  | plan :: plans, _, h => by
    rw [stepsAll, List.append_assoc]
    exact balanced_steps kindOf plan (balanced_stepsAll kindOf plans h)

end

end Plan

namespace Sketch

variable {kindOf : Nat → Kind}

mutual

theorem steps_draft : (sketch : Sketch) →
    (sketch.draft kindOf).steps = Plan.stepsAll kindOf sketch.plans
  | token _ => rfl
  | void => rfl
  | node name wraps children => by
    simp [draft, Draft.steps, plans, Plan.stepsAll, Plan.steps, stepsAll_drafts children]

/-- A tree is built in the same steps whether or not its nodes wrap others. -/
theorem stepsAll_drafts : (sketches : List Sketch) →
    Draft.stepsAll (drafts kindOf sketches) = Plan.stepsAll kindOf (plansAll sketches)
  | [] => rfl
  | sketch :: sketches => by
    rw [drafts, Draft.stepsAll, steps_draft sketch, stepsAll_drafts sketches, plansAll,
      Plan.stepsAll_append]

end

/-! ## Other kinds -/

/-- A node gets another kind: only its own start becomes another event. -/
theorem LogEntry.map_update {kindOf' : Nat → Kind} {name i : Nat} {link : Option Int}
    {list : List LogEntry} (hother : ∀ n, n ≠ name → kindOf' n = kindOf n)
    (hstart : list[i]? = some (.own name link))
    (honly : ∀ j link', list[j]? = some (.own name link') → j = i) :
    list.map (LogEntry.event kindOf') =
      (list.map (LogEntry.event kindOf)).set i (.start (kindOf' name) link) := by
  apply List.ext_getElem?
  intro j
  rw [List.getElem?_set, List.getElem?_map, List.getElem?_map, List.length_map]
  by_cases hj : i = j
  · subst hj
    have hlt : i < list.length := (List.getElem?_eq_some_iff.1 hstart).1
    rw [if_pos rfl, if_pos hlt, hstart]
    rfl
  · rw [if_neg hj]
    cases hentry : list[j]? with
    | none => rfl
    | some entry =>
      cases entry with
      | other event => rfl
      | own n link' =>
        -- It is the start of another node, since this one has only one.
        have hne : n ≠ name := by
          rintro rfl
          exact hj (honly j link' hentry).symm
        simp [LogEntry.event, hother n hne]

end Sketch

end TypstFormat
