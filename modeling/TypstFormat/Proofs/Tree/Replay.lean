import TypstFormat.Proofs.Tree.Draft

/-!
# Replaying the events of drafts

The events of drafts are replayed into the steps of their trees. The first event of a node opens it
together with all the nodes that were started around it: the chain of links is followed and every
start on it becomes a tombstone. What is left of the events then only has to be passed.

## Key results

- `kindsFrom_events`: the first event of a node opens the node and those inside it that start there
- `replay_eventsAll`: replaying the events of drafts takes the steps of their trees and goes well
-/

namespace TypstFormat

namespace Event

namespace Replay

@[simp] theorem after_nil (r : Replay) : r.after [] = r := rfl

@[simp] theorem after_after (r : Replay) (steps more : List Step) :
    (r.after more).after steps = r.after (steps ++ more) := by
  simp [after]

end Replay

/-! ## Passing events -/

/-- Wherever the events stand, replaying them takes the steps and goes on behind them. The events in
front may become others. -/
def Yields (events : List Event) (steps : List Step) : Prop :=
  ∀ before behind : List Event, ∃ passed : List Event,
    passed.length = before.length + events.length ∧
    replayLast (events.length + behind.length) (before ++ (events ++ behind)).toArray =
      (replayLast behind.length (passed ++ behind).toArray).after steps

/-- One event is replayed by its own. -/
private theorem replayLast_cons (before behind : List Event) (event : Event) :
    replayLast (behind.length + 1) (before ++ event :: behind).toArray =
      match event with
      | .start kind link =>
        if kind = .tombstone then
          replayLast behind.length (before ++ event :: behind).toArray
        else
          match kindsFrom (before ++ event :: behind).toArray before.length kind link with
          | .error e => { steps := [], result := .error e }
          | .ok (kinds, events) => (replayLast behind.length events).after (kinds.map .enter)
      | .finish => (replayLast behind.length (before ++ event :: behind).toArray).after [.leave]
      | .token kind stop =>
        (replayLast behind.length (before ++ event :: behind).toArray).after
          [.token kind stop] := by
  have hindex : (before ++ event :: behind).toArray.size - (behind.length + 1) = before.length := by
    simp
  have hevent : (before ++ event :: behind).toArray[before.length]? = some event := by simp
  rw [replayLast]
  simp only [hindex, hevent]
  cases event <;> rfl

theorem yields_nil : Yields [] [] := by
  intro before behind
  exact ⟨before, rfl, by simp⟩

theorem Yields.append {events more : List Event} {steps rest : List Step}
    (h₁ : Yields events steps) (h₂ : Yields more rest) :
    Yields (events ++ more) (steps ++ rest) := by
  intro before behind
  -- The first events leave others in their place, and the second ones are replayed behind those.
  obtain ⟨passed, hlen, heq⟩ := h₁ before (more ++ behind)
  obtain ⟨passed', hlen', heq'⟩ := h₂ passed behind
  refine ⟨passed', ?_, ?_⟩
  · rw [hlen', hlen, List.length_append]
    omega
  · have hcount : (events ++ more).length + behind.length =
        events.length + (more ++ behind).length := by
      simp only [List.length_append]
      omega
    have hcount' : (more ++ behind).length = more.length + behind.length := List.length_append
    rw [hcount, List.append_assoc, heq, hcount', heq', Replay.after_after]

theorem yields_finish : Yields [.finish] [.leave] := by
  intro before behind
  refine ⟨before ++ [.finish], by simp, ?_⟩
  have h := replayLast_cons before behind .finish
  simpa [Nat.add_comm] using h

theorem yields_token (kind : Kind) (stop : Nat) : Yields [.token kind stop] [.token kind stop] := by
  intro before behind
  refine ⟨before ++ [.token kind stop], by simp, ?_⟩
  have h := replayLast_cons before behind (.token kind stop)
  simpa [Nat.add_comm] using h

theorem yields_tombstone : Yields [tombstone] [] := by
  intro before behind
  refine ⟨before ++ [tombstone], by simp, ?_⟩
  have h := replayLast_cons before behind tombstone
  simpa [Nat.add_comm, tombstone] using h

/-! ## Following links -/

/-- The kinds found so far, outermost first, if there is no link, and else those that the link at
`index` leads to as well. -/
def onward (events : Array Event) (index : Int) (kinds : List Kind) :
    Option Int → Except LinkError (List Kind × Array Event)
  | none => .ok (kinds, events)
  | some distance => followLinks events index distance kinds

theorem kindsFrom_eq_onward (events : Array Event) (index : Nat) (kind : Kind)
    (link : Option Int) : kindsFrom events index kind link = onward events index [kind] link := by
  cases link <;> rfl

/-- A link leads to a start, which becomes a tombstone and may have a link itself. -/
theorem followLinks_eq (events : Array Event) (index distance : Int) (inner : List Kind) :
    followLinks events index distance inner =
      match place events.size (index + distance) with
      | .error e => .error e
      | .ok n =>
        match events[n]? with
        | some (.start kind next) =>
          onward (events.setIfInBounds n tombstone) (index + distance)
            (if kind = .tombstone then inner else kind :: inner) next
        | _ => .error .notAStart := by
  rw [followLinks.eq_def]
  split
  · rename_i e hplace
    rw [hplace]
  · rename_i n hplace
    have hn := place_lt hplace
    have hset : events.setIfInBounds n tombstone = events.set n tombstone := dif_pos hn
    dsimp only
    split
    · rename_i kind next hevent
      simp only [hplace, Array.getElem?_eq_getElem hn, hevent, hset]
      cases next <;> rfl
    · -- At that place is no start.
      rename_i hother
      simp only [hplace, Array.getElem?_eq_getElem hn]
      split
      · rename_i kind next hevent
        exact (hother kind next (Option.some.inj hevent)).elim
      · rfl

/-- One link is followed to the start that it leads to. -/
theorem onward_some {before : List Event} {kind : Kind} {index distance : Nat}
    (hkind : kind ≠ .tombstone) (hindex : index + distance = before.length) (behind : List Event)
    (next : Option Int) (kinds : List Kind) :
    onward (before ++ .start kind next :: behind).toArray index kinds (some (distance : Int)) =
      onward (before ++ tombstone :: behind).toArray before.length (kind :: kinds) next := by
  -- Indices may be negative in the list of events, which this sum is not.
  have hsum : (index : Int) + distance = (before.length : Nat) := by omega
  have hplace : place (before ++ Event.start kind next :: behind).toArray.size
      ((index : Int) + distance) = .ok before.length := by
    unfold place
    rw [if_neg (by simp only [List.size_toArray, List.length_append, List.length_cons]; omega),
      if_pos (by omega), hsum, Int.toNat_natCast]
  have hevent : (before ++ Event.start kind next :: behind).toArray[before.length]? =
      some (.start kind next) := by simp
  have hset : (before ++ Event.start kind next :: behind).toArray.setIfInBounds before.length
      tombstone = (before ++ tombstone :: behind).toArray := by simp
  rw [onward, followLinks_eq, hplace]
  simp only [hevent, hset, hsum, if_neg hkind]

end Event

/-! ## Drafts -/

namespace Draft

open Event

/-- The kinds of the nodes that start with the first event of a node, the outermost first. -/
def opened : Draft → List Kind
  | node kind true (inner :: _) => kind :: opened inner
  | draft => [draft.kind]

/-- What is left of the events of a node behind the first one, when its links have been followed. -/
def unopened : Draft → List Event
  | node _ true (inner :: children) =>
    unopened inner ++ tombstone :: (eventsAll children ++ [.finish])
  | node _ _ children => eventsAll children ++ [.finish]
  | _ => []

/-- The steps behind those that open a node. -/
def closing : Draft → List Step
  | node _ true (inner :: children) => closing inner ++ (stepsAll children ++ [.leave])
  | node _ _ children => stepsAll children ++ [.leave]
  | _ => []

private theorem wraps_cons {kind : Kind} {inner : Draft} {children : List Draft}
    (h : (node kind true (inner :: children)).Linked) :
    kind ≠ .tombstone ∧ inner.isNode = true ∧ inner.Linked ∧ LinkedAll children := by
  obtain ⟨hkind, hwraps, hinner, hchildren⟩ := h
  obtain ⟨inner', rest, heq, hnode⟩ := hwraps rfl
  obtain ⟨rfl, rfl⟩ := List.cons.inj heq
  exact ⟨hkind, hnode, hinner, hchildren⟩

private theorem not_wraps_nil {kind : Kind} (h : (node kind true []).Linked) : False := by
  obtain ⟨_, hwraps, _⟩ := h
  obtain ⟨_, _, heq, _⟩ := hwraps rfl
  cases heq

theorem steps_eq_opened {draft : Draft} (hnode : draft.isNode = true) (h : draft.Linked) :
    draft.steps = draft.opened.map .enter ++ draft.closing := by
  fun_induction opened draft with
  | case1 kind inner children ih =>
    obtain ⟨_, hinner, hlinked, _⟩ := wraps_cons h
    simp only [steps, closing, stepsAll, ih hinner hlinked]
    simp
  | case2 draft hne =>
    cases draft with
    | token look asText => cases hnode
    | void => cases hnode
    | node kind wraps children =>
      cases wraps with
      | false => rfl
      | true =>
        cases children with
        | nil => exact (not_wraps_nil h).elim
        | cons inner rest => exact absurd rfl (hne kind inner rest)

theorem length_unopened {draft : Draft} (hnode : draft.isNode = true) (h : draft.Linked) :
    draft.unopened.length + 1 = draft.size := by
  fun_induction unopened draft with
  | case1 kind inner children ih =>
    obtain ⟨_, hinner, hlinked, _⟩ := wraps_cons h
    have := ih hinner hlinked
    simp only [size, sizeAll, List.length_append, List.length_cons, List.length_nil,
      length_eventsAll]
    omega
  | case2 kind wraps children hne =>
    simp only [size, List.length_append, List.length_cons, List.length_nil, length_eventsAll]
  | case3 draft _ hne =>
    cases draft with
    | token look asText => cases hnode
    | void => cases hnode
    | node kind wraps children => exact absurd rfl (hne kind wraps children)

/-- The first event of a node opens it and the nodes inside it that start there as well. The link
that its own start has leads on from there. -/
theorem kindsFrom_events {draft : Draft} (hnode : draft.isNode = true) (h : draft.Linked)
    (link : Option Int) (before behind : List Event) :
    ∃ kind first,
      draft.events link = .start kind first :: (draft.events link).tail ∧ kind ≠ .tombstone ∧
      kindsFrom (before ++ (draft.events link ++ behind)).toArray before.length kind first =
        onward (before ++ (.start kind first :: draft.unopened ++ behind)).toArray
          (before.length + draft.head : Nat) draft.opened link := by
  fun_induction opened draft generalizing link behind with
  | case1 own inner children ih =>
    -- The first event is that of the inner node, so the links are followed through it first.
    obtain ⟨hown, hinner, hlinked, _⟩ := wraps_cons h
    let rest := eventsAll children ++ [Event.finish]
    obtain ⟨kind, first, hcons, hkind, heq⟩ :=
      ih hinner hlinked (some (inner.span : Nat)) (.start own link :: rest ++ behind)
    have hevents : (node own true (inner :: children)).events link =
        inner.events (some (inner.span : Nat)) ++ .start own link :: rest := rfl
    refine ⟨kind, first, ?_, hkind, ?_⟩
    · rw [hevents, hcons]
      rfl
    · -- The start of the outer node stands where the link of the inner one leads.
      have hlength : (before ++ .start kind first :: inner.unopened).length =
          before.length + inner.size := by
        rw [← length_unopened hinner hlinked, List.length_append, List.length_cons]
      have hindex : before.length + inner.head + inner.span =
          (before ++ .start kind first :: inner.unopened).length := by
        rw [hlength, ← inner.head_add_span]
        omega
      have hstep := onward_some hown hindex (rest ++ behind) link inner.opened
      have harray : before ++ ((node own true (inner :: children)).events link ++ behind) =
          before ++ (inner.events (some (inner.span : Nat)) ++
            (.start own link :: rest ++ behind)) := by
        rw [hevents]
        simp
      rw [harray, heq]
      rw [hlength] at hstep
      simpa [opened, unopened, head, rest] using hstep
  | case2 draft hne =>
    cases draft with
    | token look asText => cases hnode
    | void => cases hnode
    | node own wraps children =>
      have hown := h.1
      cases wraps with
      | false =>
        -- The first event is the node's own start.
        refine ⟨own, link, rfl, hown, ?_⟩
        rw [kindsFrom_eq_onward]
        rfl
      | true =>
        cases children with
        | nil => exact (not_wraps_nil h).elim
        | cons inner rest => exact absurd rfl (hne own inner rest)

/-- A node yields the steps of its tree if the events behind its first one do. -/
theorem yields_of_unopened {draft : Draft} (hnode : draft.isNode = true) (h : draft.Linked)
    (hrest : Yields draft.unopened draft.closing) : Yields (draft.events none) draft.steps := by
  intro before behind
  -- The first event takes the steps that open nodes, and leaves `unopened` behind it.
  obtain ⟨kind, first, hcons, hkind, hopen⟩ := kindsFrom_events hnode h none before behind
  obtain ⟨passed, hlen, heq⟩ := hrest (before ++ [.start kind first]) behind
  have hsize := length_unopened hnode h
  refine ⟨passed, ?_, ?_⟩
  · rw [hlen, length_events, ← hsize, List.length_append, List.length_singleton]
    omega
  · have htail : (draft.events none).tail.length = draft.unopened.length := by
      rw [List.length_tail, length_events, ← hsize]
      rfl
    have hcount : (draft.events none).length + behind.length =
        ((draft.events none).tail ++ behind).length + 1 := by
      rw [length_events, ← hsize, List.length_append, htail]
      omega
    have hfirst := replayLast_cons before ((draft.events none).tail ++ behind) (.start kind first)
    have harray : before ++ .start kind first :: ((draft.events none).tail ++ behind) =
        before ++ (draft.events none ++ behind) := by
      rw [hcons]
      simp
    have hpassed : before ++ (.start kind first :: draft.unopened ++ behind) =
        before ++ [.start kind first] ++ (draft.unopened ++ behind) := by simp
    have hbehind : ((draft.events none).tail ++ behind).length =
        draft.unopened.length + behind.length := by
      rw [List.length_append, htail]
    rw [harray] at hfirst
    rw [hcount, hfirst]
    simp only [if_neg hkind, hopen, onward]
    rw [hpassed, hbehind, heq, Replay.after_after, steps_eq_opened hnode h]

mutual

/-- The events behind the first one of a node yield the steps behind those that open it. -/
theorem yields_unopened : (draft : Draft) → draft.Linked → draft.isNode = true →
    Yields draft.unopened draft.closing
  | token _ _, _, hnode => by cases hnode
  | void, _, hnode => by cases hnode
  | node _ false children, h, _ => (yields_eventsAll children h.2.2).append yields_finish
  | node _ true [], h, _ => (not_wraps_nil h).elim
  | node _ true (inner :: children), h, _ => by
    obtain ⟨_, hinner, hlinked, hchildren⟩ := wraps_cons h
    -- The start of the node itself has become a tombstone.
    have h₁ := yields_unopened inner hlinked hinner
    have h₂ := (yields_eventsAll children hchildren).append yields_finish
    exact h₁.append (yields_tombstone.append h₂)

/-- The events of drafts yield the steps of their trees. -/
theorem yields_eventsAll : (drafts : List Draft) → LinkedAll drafts →
    Yields (eventsAll drafts) (stepsAll drafts)
  | [], _ => yields_nil
  | token look asText :: drafts, h =>
    (yields_token (if asText then .text else look.token.kind) look.token.range.stop).append
      (yields_eventsAll drafts h.2)
  | void :: drafts, h => yields_tombstone.append (yields_eventsAll drafts h.2)
  | node kind wraps children :: drafts, h =>
    (yields_of_unopened rfl h.1 (yields_unopened (node kind wraps children) h.1 rfl)).append
      (yields_eventsAll drafts h.2)

end

/-- Replaying the events of drafts takes the steps of their trees, and no link leads nowhere. -/
theorem replay_eventsAll {drafts : List Draft} (h : LinkedAll drafts) :
    ∃ events,
      replay (eventsAll drafts).toArray = { steps := stepsAll drafts, result := .ok events } := by
  obtain ⟨passed, _, heq⟩ := yields_eventsAll drafts h [] []
  refine ⟨passed.toArray, ?_⟩
  simpa [replay, replayLast, Replay.after] using heq

end Draft

end TypstFormat
