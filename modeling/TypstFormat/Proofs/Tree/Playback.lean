import TypstFormat.Proofs.Tree.Replay

/-!
# Replaying events turn by turn

A `Playback` is a replay under way. In one turn it looks at the next event, or follows one link of
the chain that it is on. The links may lead anywhere, also back to where the chain was before, and
nothing but the links that are left bounds how long a chain is. What makes each chain end is that a
start that a link leads to becomes a tombstone, which has no link.

A playback without a chain has `events.size - next` events to look at, each of which may begin a
chain. A chain loses a link in each turn, except in its last one. So
`2 * (events.size - next) + events.countP isLinked`, and one more on a chain, falls in every turn.

## Key results

- `Playback.measure_lt`, `Turns.measure_add_le`: how many turns are left
- `Playback.replay_eq`, `Turns.replay_eq`: a turn does what `Event.replay` does
- `Turns.tombstone`: what has become a tombstone remains one
- `Event.replay_ends`: whatever the links are, the replay ends, and all that they led to is void
-/

namespace TypstFormat

open Event

/-- A chain of links that is followed. -/
structure Chain where
  /-- The place of the start at its end, which may be counted from the last event. -/
  index : Int
  /-- The length of the link of that start. -/
  distance : Int
  /-- The kinds of the nodes on it, the outermost first. -/
  kinds : List Kind
  deriving DecidableEq, Repr

/-- A replay under way. -/
structure Playback where
  events : Array Event
  /-- The place of the event to be looked at next. -/
  next : Nat := 0
  chain : Option Chain := none
  steps : List Step := []
  deriving Repr

/-- What a turn of a playback comes to. -/
inductive Turn where
  | goesOn (after : Playback)
  | done
  | fails (error : LinkError)
  deriving Repr

namespace Playback

/-- The link at the end of a chain leads to a start, with a kind and a link of its own. The chain
goes on with that link, or ends there. -/
def reach (p : Playback) (chain : Chain) (n : Nat) (kind : Kind) (link : Option Int) : Playback :=
  let kinds := if kind = .tombstone then chain.kinds else kind :: chain.kinds
  let events := p.events.setIfInBounds n tombstone
  match link with
  | none => { p with events, chain := none, steps := p.steps ++ kinds.map .enter }
  | some distance =>
    { p with events, chain := some ⟨chain.index + chain.distance, distance, kinds⟩ }

/-- Follows the link at the end of a chain. -/
def follow (p : Playback) (chain : Chain) : Turn :=
  match place p.events.size (chain.index + chain.distance) with
  | .error e => .fails e
  | .ok n =>
    match p.events[n]? with
    | some (.start kind link) => .goesOn (p.reach chain n kind link)
    | _ => .fails .notAStart

/-- Looks at the next event. -/
def look (p : Playback) : Turn :=
  match p.events[p.next]? with
  | none => .done
  | some (.start kind link) =>
    if kind = .tombstone then
      .goesOn { p with next := p.next + 1 }
    else
      match link with
      | none => .goesOn { p with next := p.next + 1, steps := p.steps ++ [.enter kind] }
      | some distance =>
        .goesOn { p with next := p.next + 1, chain := some ⟨p.next, distance, [kind]⟩ }
  | some .finish => .goesOn { p with next := p.next + 1, steps := p.steps ++ [.leave] }
  | some (.token kind stop) =>
    .goesOn { p with next := p.next + 1, steps := p.steps ++ [.token kind stop] }

def turn (p : Playback) : Turn :=
  match p.chain with
  | none => p.look
  | some chain => p.follow chain

/-- The playback is over, with a result. -/
inductive Ends (p : Playback) : Except LinkError (Array Event) → Prop where
  | done : p.turn = .done → Ends p (.ok p.events)
  | fails {error : LinkError} : p.turn = .fails error → Ends p (.error error)

/-- The link that is followed next leads to a start at a place. -/
def LeadsTo (p : Playback) (n : Nat) : Prop :=
  ∃ chain ∈ p.chain, place p.events.size (chain.index + chain.distance) = .ok n ∧
    ∃ kind link, p.events[n]? = some (.start kind link)

/-- How many turns are left at most. -/
def measure (p : Playback) : Nat :=
  2 * (p.events.size - p.next) + p.events.countP isLinked + p.chain.isSome.toNat

end Playback

/-- So many turns lead from one playback to another. -/
inductive Turns : Nat → Playback → Playback → Prop where
  | none (p : Playback) : Turns 0 p p
  | turn {n : Nat} {p q r : Playback} : p.turn = .goesOn q → Turns n q r → Turns (n + 1) p r

/-! ## One turn -/

namespace Playback

/-- What a turn can do to the events: either it leaves them alone and looks at one, or it follows a
link to a start, which becomes a tombstone. -/
inductive Changes (p q : Playback) : Prop where
  | looked (chain : p.chain = none) (lt : p.next < p.events.size) (events : q.events = p.events)
    (next : q.next = p.next + 1)
  | followed {n : Nat} {kind : Kind} {link : Option Int} (chain : p.chain.isSome = true)
    (start : p.events[n]? = some (.start kind link))
    (events : q.events = p.events.setIfInBounds n tombstone) (next : q.next = p.next)
    (further : q.chain.isSome = link.isSome)

variable {p q : Playback} {chain : Chain}

/-- There is an event to be looked at, or the playback is done. -/
theorem look_cases (p : Playback) :
    (p.events.size ≤ p.next ∧ p.look = .done) ∨
      (p.next < p.events.size ∧
        ∃ q, p.look = .goesOn q ∧ q.events = p.events ∧ q.next = p.next + 1) := by
  unfold look
  cases hevent : p.events[p.next]? with
  | none => exact .inl ⟨Array.getElem?_eq_none_iff.1 hevent, rfl⟩
  | some event =>
    refine .inr ⟨(Array.getElem?_eq_some_iff.1 hevent).1, ?_⟩
    cases event with
    | start kind link =>
      by_cases hkind : kind = .tombstone
      · exact ⟨_, if_pos hkind, rfl, rfl⟩
      · cases link with
        | none => exact ⟨_, if_neg hkind, rfl, rfl⟩
        | some distance => exact ⟨_, if_neg hkind, rfl, rfl⟩
    | finish => exact ⟨_, rfl, rfl, rfl⟩
    | token kind stop => exact ⟨_, rfl, rfl, rfl⟩

/-- The link at the end of a chain leads to a start, or else the links cannot be followed. -/
theorem follow_cases (p : Playback) (chain : Chain) :
    (∃ error, p.follow chain = .fails error ∧
      followLinks p.events chain.index chain.distance chain.kinds = .error error) ∨
      ∃ n kind link, place p.events.size (chain.index + chain.distance) = .ok n ∧
        p.events[n]? = some (.start kind link) ∧
        p.follow chain = .goesOn (p.reach chain n kind link) := by
  unfold follow
  rw [followLinks_eq]
  cases hplace : place p.events.size (chain.index + chain.distance) with
  | error error => exact .inl ⟨error, rfl, rfl⟩
  | ok n =>
    dsimp only
    cases hevent : p.events[n]? with
    | none => exact .inl ⟨.notAStart, rfl, rfl⟩
    | some event =>
      cases event with
      | start kind link => exact .inr ⟨n, kind, link, rfl, hevent, rfl⟩
      | finish => exact .inl ⟨.notAStart, rfl, rfl⟩
      | token kind stop => exact .inl ⟨.notAStart, rfl, rfl⟩

/-- A chain that goes on has reached a start. -/
theorem follow_goesOn (h : p.follow chain = .goesOn q) :
    ∃ n kind link, place p.events.size (chain.index + chain.distance) = .ok n ∧
      p.events[n]? = some (.start kind link) ∧ q = p.reach chain n kind link := by
  rcases p.follow_cases chain with ⟨error, hfails, -⟩ | ⟨n, kind, link, hplace, hstart, hgoes⟩
  · rw [hfails] at h
    cases h
  · rw [hgoes] at h
    cases h
    exact ⟨n, kind, link, hplace, hstart, rfl⟩

theorem changes_follow (hchain : p.chain = some chain) (h : p.follow chain = .goesOn q) :
    p.Changes q := by
  have hsome : p.chain.isSome = true := by rw [hchain]; rfl
  obtain ⟨n, kind, link, -, hstart, rfl⟩ := follow_goesOn h
  cases link with
  | none => exact .followed hsome hstart rfl rfl rfl
  | some distance => exact .followed hsome hstart rfl rfl rfl

theorem changes_look (hchain : p.chain = none) (h : p.look = .goesOn q) : p.Changes q := by
  rcases p.look_cases with ⟨-, hdone⟩ | ⟨hlt, r, hgoes, hevents, hnext⟩
  · rw [hdone] at h
    cases h
  · rw [hgoes] at h
    cases h
    exact .looked hchain hlt hevents hnext

theorem changes_turn (h : p.turn = .goesOn q) : p.Changes q := by
  unfold turn at h
  split at h
  · rename_i hchain
    exact changes_look hchain h
  · rename_i hchain
    exact changes_follow hchain h

/-- A start that becomes a tombstone takes its link with it. -/
theorem countP_isLinked_setIfInBounds {events : Array Event} {n : Nat} {kind : Kind}
    {link : Option Int} (hstart : events[n]? = some (.start kind link)) :
    (events.setIfInBounds n tombstone).countP isLinked + link.isSome.toNat =
      events.countP isLinked := by
  obtain ⟨hn, hevent⟩ := Array.getElem?_eq_some_iff.1 hstart
  have hset : events.setIfInBounds n tombstone = events.set n tombstone := dif_pos hn
  rw [hset, Array.countP_set, hevent, isLinked_tombstone, if_neg Bool.false_ne_true]
  cases link with
  | none => rfl
  | some distance =>
    have hpos : 0 < events.countP isLinked :=
      Array.countP_pos_iff.2 ⟨events[n], Array.getElem_mem hn, by rw [hevent]; rfl⟩
    show events.countP isLinked - 1 + 0 + 1 = events.countP isLinked
    omega

/-- There are fewer turns left after each. -/
theorem measure_lt (h : p.turn = .goesOn q) : q.measure < p.measure := by
  unfold measure
  cases changes_turn h with
  | looked chain lt events next =>
    have hle : q.chain.isSome.toNat ≤ 1 := Bool.toNat_le _
    rw [chain, events, next]
    show _ < _ + 0
    omega
  | followed chain start events next further =>
    have hcount := countP_isLinked_setIfInBounds start
    rw [chain, events, next, further, Array.size_setIfInBounds]
    show _ < _ + 1
    omega

/-- A turn leaves tombstones where they are. -/
theorem tombstone_turn {n : Nat} (h : p.turn = .goesOn q) (hn : p.events[n]? = some tombstone) :
    q.events[n]? = some tombstone := by
  cases changes_turn h with
  | looked chain lt events next => rw [events, hn]
  | followed chain start events next further =>
    have hlt := (Array.getElem?_eq_some_iff.1 hn).1
    rw [events, Array.getElem?_setIfInBounds]
    split
    · rw [if_pos (by omega)]
    · exact hn

/-- What a link leads to is a tombstone after the turn in which it is followed. -/
theorem LeadsTo.turn_eq {n : Nat} (h : p.LeadsTo n) :
    ∃ q, p.turn = .goesOn q ∧ q.events[n]? = some tombstone := by
  obtain ⟨chain, hchain, hplace, kind, link, hstart⟩ := h
  have hevent : (p.events.setIfInBounds n tombstone)[n]? = some tombstone := by
    rw [Array.getElem?_setIfInBounds, if_pos rfl, if_pos (place_lt hplace)]
  refine ⟨p.reach chain n kind link, ?_, ?_⟩
  · rw [turn, Option.mem_def.1 hchain]
    simp only [follow, hplace, hstart]
  · cases link with
    | none => exact hevent
    | some distance => exact hevent

/-! ## What is still to be replayed -/

/-- The nodes of a chain are entered, and the last `n` events replayed behind them. -/
def entering (n : Nat) : Except LinkError (List Kind × Array Event) → Replay
  | .error e => { steps := [], result := .error e }
  | .ok (kinds, events) => (replayLast n events).after (kinds.map .enter)

/-- The replay of what is left, of the chain first. -/
def rest (p : Playback) : Replay :=
  match p.chain with
  | none => replayLast (p.events.size - p.next) p.events
  | some chain =>
    entering (p.events.size - p.next)
      (followLinks p.events chain.index chain.distance chain.kinds)

theorem rest_of_chain (hchain : p.chain = some chain) :
    p.rest = entering (p.events.size - p.next)
      (followLinks p.events chain.index chain.distance chain.kinds) := by
  rw [rest, hchain]

theorem replayLast_start {n : Nat} {events : Array Event} {kind : Kind} {link : Option Int}
    (hkind : kind ≠ .tombstone)
    (hstart : events[events.size - (n + 1)]? = some (.start kind link)) :
    replayLast (n + 1) events =
      entering n (kindsFrom events (events.size - (n + 1)) kind link) := by
  rw [replayLast]
  simp only [hstart, if_neg hkind]
  cases kindsFrom events (events.size - (n + 1)) kind link <;> rfl

/-- Looking at an event takes its step, or begins the chain whose kinds are entered later. -/
theorem replay_look (hchain : p.chain = none) (h : p.look = .goesOn q) :
    q.rest.after q.steps = p.rest.after p.steps := by
  cases changes_look hchain h with
  | followed chain =>
    rw [hchain] at chain
    cases chain
  | looked _ lt =>
    have hcount : p.events.size - p.next = p.events.size - (p.next + 1) + 1 := by omega
    have hindex : p.events.size - (p.events.size - (p.next + 1) + 1) = p.next := by omega
    have hrest : p.rest = replayLast (p.events.size - (p.next + 1) + 1) p.events := by
      rw [rest, hchain, hcount]
    rw [hrest]
    unfold look at h
    cases hevent : p.events[p.next]? with
    | none =>
      rw [hevent] at h
      cases h
    | some event =>
      rw [hevent] at h
      cases event with
      | start kind link =>
        by_cases hkind : kind = .tombstone
        · simp only [if_pos hkind] at h
          cases h
          rw [replayLast, hindex, hevent]
          simp only [if_pos hkind, rest, hchain]
        · simp only [if_neg hkind] at h
          rw [replayLast_start hkind (by rw [hindex, hevent]), hindex]
          cases link with
          | none =>
            cases h
            simp only [kindsFrom, entering, rest, hchain, Replay.after_after]
            rfl
          | some distance =>
            cases h
            simp only [kindsFrom, rest]
      | finish =>
        cases h
        rw [replayLast, hindex, hevent]
        simp only [rest, hchain, Replay.after_after]
      | token kind stop =>
        cases h
        rw [replayLast, hindex, hevent]
        simp only [rest, hchain, Replay.after_after]

/-- Following a link takes the first link of those that are to be followed. -/
theorem replay_follow (hchain : p.chain = some chain) (h : p.follow chain = .goesOn q) :
    q.rest.after q.steps = p.rest.after p.steps := by
  obtain ⟨n, kind, link, hplace, hstart, rfl⟩ := follow_goesOn h
  rw [rest_of_chain hchain, followLinks_eq, hplace]
  simp only [hstart]
  cases link with
  | none => simp only [reach, rest, onward, entering, Array.size_setIfInBounds, Replay.after_after]
  | some distance => simp only [reach, rest, onward, Array.size_setIfInBounds]

/-- What was replayed and what is left make the same replay after each turn. -/
theorem replay_eq (h : p.turn = .goesOn q) : q.rest.after q.steps = p.rest.after p.steps := by
  unfold turn at h
  split at h
  · rename_i hchain
    exact replay_look hchain h
  · rename_i hchain
    exact replay_follow hchain h

/-- A playback is done behind the last event. -/
theorem turn_done (h : p.turn = .done) : p.chain = none ∧ p.events.size ≤ p.next := by
  unfold turn at h
  split at h
  · rename_i hchain
    rcases p.look_cases with ⟨hle, -⟩ | ⟨-, q, hgoes, -⟩
    · exact ⟨hchain, hle⟩
    · rw [hgoes] at h
      cases h
  · rename_i chain _
    rcases p.follow_cases chain with ⟨error, hfails, -⟩ | ⟨n, kind, link, -, -, hgoes⟩
    · rw [hfails] at h
      cases h
    · rw [hgoes] at h
      cases h

/-- A playback fails on a chain whose links cannot be followed. -/
theorem turn_fails {error : LinkError} (h : p.turn = .fails error) :
    ∃ chain, p.chain = some chain ∧
      followLinks p.events chain.index chain.distance chain.kinds = .error error := by
  unfold turn at h
  split at h
  · rcases p.look_cases with ⟨-, hdone⟩ | ⟨-, q, hgoes, -⟩
    · rw [hdone] at h
      cases h
    · rw [hgoes] at h
      cases h
  · rename_i chain hchain
    rcases p.follow_cases chain with ⟨error', hfails, hlinks⟩ | ⟨n, kind, link, -, -, hgoes⟩
    · rw [hfails] at h
      cases h
      exact ⟨chain, hchain, hlinks⟩
    · rw [hgoes] at h
      cases h

/-- When a playback is over, nothing is left to be replayed. -/
theorem rest_of_ends {result : Except LinkError (Array Event)} (h : p.Ends result) :
    p.rest = { steps := [], result } := by
  cases h with
  | done h =>
    obtain ⟨hchain, hle⟩ := turn_done h
    rw [rest, hchain, Nat.sub_eq_zero_of_le hle]
    rfl
  | fails h =>
    obtain ⟨chain, hchain, herror⟩ := turn_fails h
    rw [rest_of_chain hchain, herror]
    rfl

/-- A turn leads on, or it is the last one. -/
theorem goesOn_or_ends (p : Playback) :
    (∃ q, p.turn = .goesOn q) ∨ ∃ result, p.Ends result := by
  cases hturn : p.turn with
  | goesOn q => exact .inl ⟨q, rfl⟩
  | done => exact .inr ⟨_, .done hturn⟩
  | fails error => exact .inr ⟨_, .fails hturn⟩

/-- A playback that is over does not go on. -/
theorem Ends.not_goesOn {result : Except LinkError (Array Event)} (h : p.Ends result) :
    p.turn ≠ .goesOn q := by
  intro hturn
  cases h with
  | done h => rw [hturn] at h; cases h
  | fails h => rw [hturn] at h; cases h

end Playback

/-! ## A run of turns -/

namespace Turns

variable {n k : Nat} {p q r : Playback}

theorem measure_add_le (h : Turns n p q) : q.measure + n ≤ p.measure := by
  induction h with
  | none p => exact Nat.le_refl _
  | turn hturn _ ih =>
    have hlt := Playback.measure_lt hturn
    omega

theorem replay_eq (h : Turns n p q) : q.rest.after q.steps = p.rest.after p.steps := by
  induction h with
  | none p => rfl
  | turn hturn _ ih => exact ih.trans (Playback.replay_eq hturn)

theorem tombstone {place : Nat} (h : Turns n p q) (hplace : p.events[place]? = some tombstone) :
    q.events[place]? = some tombstone := by
  induction h with
  | none p => exact hplace
  | turn hturn _ ih => exact ih (Playback.tombstone_turn hturn hplace)

/-- Whatever is reached is reached on the way to the end. -/
theorem of_ends {result : Except LinkError (Array Event)} (h : Turns k p q) (hr : Turns n p r)
    (hends : r.Ends result) : ∃ m, Turns m q r := by
  induction h generalizing n with
  | none p => exact ⟨n, hr⟩
  | turn hturn _ ih =>
    cases hr with
    | none => exact absurd hturn hends.not_goesOn
    | turn hturn' hr =>
      rw [hturn] at hturn'
      cases hturn'
      exact ih hr

/-- The turns lead to an end, since fewer and fewer are left. -/
theorem exists_ends (p : Playback) : ∃ n q result, Turns n p q ∧ q.Ends result := by
  induction hmeasure : p.measure using Nat.strong_induction_on generalizing p with
  | _ measure ih =>
    rcases p.goesOn_or_ends with ⟨q, hturn⟩ | ⟨result, hends⟩
    · obtain ⟨n, r, result, hturns, hends⟩ := ih q.measure
        (hmeasure ▸ Playback.measure_lt hturn) q rfl
      exact ⟨n + 1, r, result, .turn hturn hturns, hends⟩
    · exact ⟨0, p, result, .none p, hends⟩

/-- What a link of a chain led to is a tombstone at the end. -/
theorem tombstone_of_leadsTo {place : Nat} {result : Except LinkError (Array Event)}
    (h : Turns n p q) (hplace : p.LeadsTo place) (hends : q.Ends result) :
    q.events[place]? = some Event.tombstone := by
  obtain ⟨next, hturn, htombstone⟩ := hplace.turn_eq
  cases h with
  | none => exact absurd hturn hends.not_goesOn
  | turn hturn' h =>
    rw [hturn] at hturn'
    cases hturn'
    exact h.tombstone htombstone

end Turns

/-- Whatever the links between events are, a replay ends, after no more turns than twice the number
of events and the number of links. It completes, or it fails on a link, and every start that a link
led to until then has become a tombstone. -/
theorem Event.replay_ends (events : Array Event) :
    ∃ n last, n ≤ 2 * events.size + events.countP isLinked ∧ Turns n { events } last ∧
      last.Ends (replay events).result ∧ last.steps = (replay events).steps ∧
      ∀ k p place, Turns k { events } p → p.LeadsTo place →
        last.events[place]? = some tombstone := by
  obtain ⟨n, last, result, hturns, hends⟩ := Turns.exists_ends { events }
  have hreplay : replay events = { steps := last.steps, result } := by
    have heq := hturns.replay_eq
    rw [last.rest_of_ends hends] at heq
    have hsteps : ({ steps := [], result } : Replay).after last.steps =
        { steps := last.steps, result } := by
      simp [Replay.after]
    rw [hsteps] at heq
    exact heq.symm
  have hmeasure := hturns.measure_add_le
  have hstart : ({ events } : Playback).measure = 2 * events.size + events.countP isLinked := rfl
  refine ⟨n, last, by omega, hturns, ?_, ?_, fun k p place hp hplace => ?_⟩
  · rw [hreplay]
    exact hends
  · rw [hreplay]
  · obtain ⟨m, hrest⟩ := hp.of_ends hturns hends
    exact hrest.tombstone_of_leadsTo hplace hends

end TypstFormat
