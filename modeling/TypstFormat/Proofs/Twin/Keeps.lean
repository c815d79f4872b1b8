import TypstFormat.Grammar.Expect
import TypstFormat.Proofs.Grammar.Reads
import TypstFormat.Proofs.Grammar.Returns
import TypstFormat.Proofs.Token.Stream

/-!
# What actions leave alone

Whatever an action of the grammar does, it only goes on in the source, and what was found, recorded
and reported before it stays (`Parser.Later`). Of the events that were there before, it changes only
those whose place it has been told: the starts of nodes that are open, or that may still be wrapped
or renamed. `Keeps held x held'` says so of an action, where `held` are the places that it may
change and `held'` those that are handed on with its result. This holds wherever the action runs.

## Key results

- `Keeps.bind`: one action after the other
- `keeps_bump`, `keeps_enterMode`, `keeps_report`, ...: reading, modes and diagnostics
- `keeps_start`, `keeps_finish`, `keeps_wrap`, `keeps_rename`: nodes
-/

namespace TypstFormat

open Parse

/-- Tokens lead from one offset of a source to another one, each read in some mode. -/
inductive Reach (source : List Char) : Nat → Nat → Prop where
  | refl (offset : Nat) : Reach source offset offset
  | step {offset stop : Nat} (mode : Mode) : (look source mode offset).token.kind ≠ .eof →
    Reach source (look source mode offset).token.range.stop stop → Reach source offset stop

namespace Reach

variable {source : List Char} {a b c : Nat}

theorem trans (h₁ : Reach source a b) (h₂ : Reach source b c) : Reach source a c := by
  induction h₁ with
  | refl => exact h₂
  | step mode hkind _ ih => exact .step mode hkind (ih h₂)

end Reach

namespace Parser

/-- The parser has gone on in the source, and nothing that was there before is lost. -/
structure Later (p q : Parser) : Prop where
  steady : q.stream.Steady
  source_eq : q.source = p.source
  reach : Reach p.source p.stream.consumed q.stream.consumed
  findings : p.findings <:+ q.findings
  settled : p.stream.settled <:+ q.stream.settled
  found : p.stream.found <:+ q.stream.found

namespace Later

variable {p q r : Parser}

theorem refl (hp : p.stream.Steady) : Later p p :=
  ⟨hp, rfl, .refl _, List.suffix_refl _, List.suffix_refl _, List.suffix_refl _⟩

theorem trans (h₁ : Later p q) (h₂ : Later q r) : Later p r :=
  ⟨h₂.steady, h₂.source_eq.trans h₁.source_eq, h₁.reach.trans (h₁.source_eq ▸ h₂.reach),
    h₁.findings.trans h₂.findings, h₁.settled.trans h₂.settled, h₁.found.trans h₂.found⟩

/-- Only the events, the modes to come back to or the rules for line breaks have changed. -/
theorem of_stream (hp : p.stream.Steady) (hstream : q.stream = p.stream)
    (hfindings : q.findings = p.findings) : Later p q := by
  refine ⟨hstream ▸ hp, congrArg Stream.source hstream, ?_, ?_, ?_, ?_⟩
  · rw [hstream]
    exact .refl _
  · exact hfindings ▸ List.suffix_refl _
  · exact hstream ▸ List.suffix_refl _
  · exact hstream ▸ List.suffix_refl _

end Later

/-- Of the events that were there, only those at places that were held have changed, and no others
are held now. -/
def Leaves (held held' : List Nat) (p q : Parser) : Prop :=
  ∀ k < p.events.size, k ∉ held → k ∉ held' ∧ q.events[k]? = p.events[k]?

namespace Leaves

variable {held held' : List Nat} {p q : Parser}

theorem of_events (h : q.events = p.events) : Leaves held held p q := by
  intro k _ hk
  exact ⟨hk, by rw [h]⟩

theorem push {event : Event} (h : q.events = p.events.push event) : Leaves held held p q := by
  intro k hlt hk
  refine ⟨hk, ?_⟩
  rw [h, Array.getElem?_push_lt hlt, Array.getElem?_eq_getElem hlt]

/-- What is left alone is still there. -/
theorem lt_size (h : Leaves held held' p q) {k : Nat} (hlt : k < p.events.size) (hk : k ∉ held) :
    k < q.events.size := by
  have heq := (h k hlt hk).2
  rw [Array.getElem?_eq_getElem hlt] at heq
  exact (Array.getElem?_eq_some_iff.1 heq).1

end Leaves

end Parser

open TypstFormat.Parser

/-- Wherever the action runs, the parser afterwards is a later one, and of the events that were
there only those at places in `held` have changed. -/
def Keeps (held : List Nat) (x : Parse α) (held' : α → List Nat) : Prop :=
  ∀ p a q, p.stream.Steady → x p = .ok (a, q) → Later p q ∧ Leaves held (held' a) p q

namespace Keeps

variable {held : List Nat}

theorem pure_of_subset {held' : α → List Nat} {a : α} (h : held' a ⊆ held) :
    Keeps held (Pure.pure a : Parse α) held' := by
  intro p b q hp hrun
  cases hrun
  exact ⟨.refl hp, fun k hlt hk => ⟨fun hmem => hk (h hmem), rfl⟩⟩

theorem pure (a : α) : Keeps held (Pure.pure a : Parse α) fun _ => held :=
  pure_of_subset (List.Subset.refl _)

theorem throw (error : ParseError) {held' : α → List Nat} :
    Keeps held (MonadExcept.throw error : Parse α) held' := by
  intro p a q _ hrun
  cases hrun

theorem bind {x : Parse α} {f : α → Parse β} {held' : α → List Nat} {held'' : β → List Nat}
    (hx : Keeps held x held') (hf : ∀ a, Keeps (held' a) (f a) held'') :
    Keeps held (x >>= f) held'' := by
  intro p b r hp hrun
  obtain ⟨a, q, hx', hf'⟩ := bind_eq_ok hrun
  obtain ⟨hlater, hleaves⟩ := hx p a q hp hx'
  obtain ⟨hlater', hleaves'⟩ := hf a q b r hlater.steady hf'
  refine ⟨hlater.trans hlater', fun k hlt hk => ?_⟩
  obtain ⟨hk', heq⟩ := hleaves k hlt hk
  obtain ⟨hk'', heq'⟩ := hleaves' k (hleaves.lt_size hlt hk) hk'
  exact ⟨hk'', heq'.trans heq⟩

/-- Fewer places may be handed on than are held. -/
theorem mono {x : Parse α} {held' held'' : α → List Nat} (hx : Keeps held x held')
    (h : ∀ a, held'' a ⊆ held' a) : Keeps held x held'' := by
  intro p a q hp hrun
  obtain ⟨hlater, hleaves⟩ := hx p a q hp hrun
  refine ⟨hlater, fun k hlt hk => ?_⟩
  obtain ⟨hk', heq⟩ := hleaves k hlt hk
  exact ⟨fun hmem => hk' (h a hmem), heq⟩

theorem ask (g : Parser → α) : Keeps held (Parse.ask g) fun _ => held := by
  intro p a q hp hrun
  cases hrun
  exact ⟨.refl hp, .of_events rfl⟩

theorem get : Keeps held (MonadState.get : Parse Parser) fun _ => held := by
  intro p a q hp hrun
  cases hrun
  exact ⟨.refl hp, .of_events rfl⟩

theorem ite {x y : Parse α} {held' : α → List Nat} (c : Prop) [Decidable c]
    (hx : Keeps held x held') (hy : Keeps held y held') :
    Keeps held (if c then x else y) held' := by
  split
  · exact hx
  · exact hy

theorem iterate {σ : Type} {step : σ → Parse (σ ⊕ α)} {held : σ → List Nat} {held' : α → List Nat}
    (hstep : ∀ s, Keeps (held s) (step s) (Sum.elim held held')) (fuel : Nat) (s : σ) :
    Keeps (held s) (Parse.iterate fuel step s) held' := by
  induction fuel generalizing s with
  | zero => exact .throw _
  | succ fuel ih =>
    refine bind (hstep s) fun r => ?_
    cases r with
    | inl s' => exact ih s'
    | inr a => exact .pure_of_subset (List.Subset.refl _)

theorem loop {σ : Type} {step : σ → Parse (σ ⊕ α)} (hstep : ∀ s, Keeps held (step s) fun _ => held)
    (s : σ) : Keeps held (Parse.loop step s) fun _ => held := by
  refine bind get fun p => ?_
  have hrounds (s : σ) : Keeps held (step s) (Sum.elim (fun _ => held) fun _ => held) :=
    (hstep s).mono fun r => by cases r <;> exact List.Subset.refl _
  exact iterate hrounds _ s

end Keeps

/-! ## Reading -/

section

variable {held : List Nat}

/-- An action that changes the parser and leaves the events alone. -/
theorem keeps_modify {g : Parser → Parser} (hg : ∀ p, p.stream.Steady → Later p (g p))
    (hevents : ∀ p, (g p).events = p.events) :
    Keeps held (modify g : Parse PUnit) fun _ => held := by
  intro p a q hp hrun
  cases hrun
  exact ⟨hg p hp, .of_events (hevents p)⟩

/-- What was found up to the current token is settled when the token is consumed. -/
theorem Parser.Later.bumpAs {p : Parser} (hp : p.stream.Steady) (kind : Kind) :
    Later p (p.bumpAs kind) := by
  unfold Parser.bumpAs
  split
  · exact .refl hp
  · by_cases hkind : p.stream.kind = .eof
    · exact .of_stream hp (Stream.bump_of_eof hkind) rfl
    · have hb := hp.bump hkind
      have hreach : Reach p.source p.stream.consumed p.stream.bump.consumed := by
        rw [hb.consumed]
        exact .step p.stream.mode (hp.kind_eq ▸ hkind) (.refl _)
      exact ⟨hb.steady, hb.source, hreach, List.suffix_refl _, ⟨_, hb.settled.symm⟩,
        ⟨_, hb.found.symm⟩⟩

theorem keeps_bumpAs (kind : Kind) :
    Keeps held (modify (·.bumpAs kind) : Parse PUnit) fun _ => held := by
  intro p a q hp hrun
  cases hrun
  refine ⟨.bumpAs hp kind, ?_⟩
  show Leaves held held p (p.bumpAs kind)
  unfold Parser.bumpAs
  split
  · exact .of_events rfl
  · exact .push rfl

theorem keeps_bump : Keeps held Parse.bump fun _ => held := by
  intro p a q hp hrun
  exact keeps_bumpAs p.stream.kind p a q hp hrun

theorem keeps_report (diagnostic : Diagnostic) :
    Keeps held (Parse.report diagnostic) fun _ => held := by
  refine keeps_modify (fun p hp => ?_) fun p => ?_
  · unfold Parser.report
    split
    · exact .refl hp
    · exact ⟨hp, rfl, .refl _, List.suffix_cons _ _, List.suffix_refl _, List.suffix_refl _⟩
  · unfold Parser.report
    split <;> rfl

theorem keeps_eat (kind : Kind) : Keeps held (eat kind) fun _ => held :=
  .bind (.ask _) fun _ => .ite _ (.bind keeps_bump fun _ => .pure _) (.pure _)

theorem keeps_expectClosing (opening : Text.Range) (kind : Kind) :
    Keeps held (expectClosing opening kind) fun _ => held :=
  .bind (keeps_eat kind) fun _ =>
    .ite _ (.pure _) (.bind (keeps_report _) fun _ => .pure _)

/-! ## Modes and rules for line breaks -/

/-- Changing the mode scans again what lies behind the last token consumed. -/
theorem Parser.Later.switch {p q : Parser} (hp : p.stream.Steady) (mode : Mode)
    (hstream : q.stream = if mode = p.stream.mode then p.stream else p.stream.relex mode)
    (hfindings : q.findings = p.findings) : Later p q := by
  split at hstream
  · exact .of_stream hp hstream hfindings
  · have hr := hp.relex mode
    refine ⟨hstream ▸ hr.steady, ?_, ?_, ?_, ?_, ?_⟩
    · show q.stream.source = p.stream.source
      rw [hstream, hr.source]
    · rw [hstream, hr.consumed]
      exact .refl _
    · exact hfindings ▸ List.suffix_refl _
    · exact hstream ▸ hr.settled ▸ List.suffix_refl _
    · exact hstream ▸ hr.found ▸ List.suffix_refl _

theorem keeps_enterMode (mode : Mode) : Keeps held (enterMode mode) fun _ => held :=
  keeps_modify (fun _ hp => .switch hp mode rfl rfl) fun _ => rfl

theorem keeps_leaveMode : Keeps held leaveMode fun _ => held := by
  intro p a q hp hrun
  obtain ⟨p₁, p₂, hget, hset⟩ := bind_eq_ok hrun
  cases hget
  cases hmodes : p.modes with
  | nil =>
    rw [hmodes] at hset
    cases hset
  | cons mode modes =>
    rw [hmodes] at hset
    cases hset
    exact ⟨.switch hp mode rfl rfl, .of_events rfl⟩

theorem keeps_enterBreakRule (rule : BreakRule) :
    Keeps held (enterBreakRule rule) fun _ => held :=
  keeps_modify (fun _ hp => .of_stream hp rfl rfl) fun _ => rfl

theorem keeps_leaveBreakRule : Keeps held leaveBreakRule fun _ => held := by
  intro p a q hp hrun
  obtain ⟨p₁, p₂, hget, hset⟩ := bind_eq_ok hrun
  cases hget
  cases hrules : p.breakRules with
  | nil =>
    rw [hrules] at hset
    cases hset
  | cons rule rules =>
    rw [hrules] at hset
    cases hset
    exact ⟨.of_stream hp rfl rfl, .of_events rfl⟩

/-! ## Nodes -/

/-- The places of a node that is open: that of its own start, and that of the start it wraps. -/
def Opening.places (node : Opening) : List Nat :=
  node.index :: node.wraps.toList

/-- Only a start is found at a place, and looking for it changes nothing. -/
theorem startAt_eq_ok {p q : Parser} {index : Nat} {found : Kind × Option Int}
    (h : startAt index p = .ok (found, q)) :
    q = p ∧ p.events[index]? = some (.start found.1 found.2) := by
  obtain ⟨p₁, p₂, hget, hrest⟩ := bind_eq_ok h
  cases hget
  cases hevent : p.events[index]? with
  | none =>
    rw [hevent] at hrest
    cases hrest
  | some event =>
    rw [hevent] at hrest
    cases event with
    | start kind link =>
      cases hrest
      exact ⟨rfl, rfl⟩
    | finish => cases hrest
    | token => cases hrest

/-- Finishing a node changes its start and adds an event. -/
theorem finish_eq_ok {node : Opening} {kind : Kind} {closed : Closed} {p q : Parser}
    (hrun : node.finish kind p = .ok (closed, q)) :
    closed = ⟨node.index⟩ ∧ ∃ link, q = { p with
      events := (p.events.setIfInBounds node.index (.start kind link)).push .finish } := by
  obtain ⟨⟨own, link⟩, p₁, hstart, hrest⟩ := bind_eq_ok hrun
  rw [(startAt_eq_ok hstart).1] at hrest
  obtain ⟨_, p₂, hput, hrest⟩ := bind_eq_ok hrest
  obtain ⟨_, p₃, hpush, hrest⟩ := bind_eq_ok hrest
  cases hput
  cases hpush
  cases hrest
  exact ⟨rfl, link, rfl⟩

theorem keeps_startAt (index : Nat) : Keeps held (startAt index) fun _ => held := by
  intro p a q hp hrun
  rw [(startAt_eq_ok hrun).1]
  exact ⟨.refl hp, .of_events rfl⟩

theorem keeps_putEvent {index : Nat} (hindex : index ∈ held) (event : Event) :
    Keeps held (putEvent index event) fun _ => held := by
  intro p a q hp hrun
  cases hrun
  refine ⟨.of_stream hp rfl rfl, fun k hlt hk => ⟨hk, ?_⟩⟩
  have hne : index ≠ k := fun h => hk (h ▸ hindex)
  exact Array.getElem?_setIfInBounds_ne hne

theorem keeps_pushEvent (event : Event) :
    Keeps held (modify fun p => { p with events := p.events.push event } : Parse PUnit)
      fun _ => held := by
  intro p a q hp hrun
  cases hrun
  exact ⟨.of_stream hp rfl rfl, .push rfl⟩

theorem keeps_start : Keeps held start fun node => node.places ++ held := by
  intro p a q hp hrun
  cases hrun
  refine ⟨.of_stream hp rfl rfl, fun k hlt hk => ⟨?_, ?_⟩⟩
  · have hne : k ≠ p.events.size := Nat.ne_of_lt hlt
    simpa [Opening.places] using ⟨hne, hk⟩
  · exact (@Leaves.push held _ _ _ rfl k hlt hk).2

theorem keeps_finish {node : Opening} (hnode : node.index ∈ held) (kind : Kind) :
    Keeps held (node.finish kind) fun _ => held :=
  .bind (keeps_startAt _) fun _ => .bind (keeps_putEvent hnode _) fun _ =>
    .bind (keeps_pushEvent _) fun _ => .pure _

theorem keeps_rename {node : Closed} (hnode : node.index ∈ held) (kind : Kind) :
    Keeps held (node.rename kind) fun _ => held :=
  .bind (keeps_startAt _) fun _ => keeps_putEvent hnode _

theorem keeps_kind (node : Closed) : Keeps held node.kind fun _ => held :=
  .bind (keeps_startAt _) fun _ => .pure _

theorem keeps_wrap {node : Closed} (hnode : node.index ∈ held) :
    Keeps held node.wrap fun outer => outer.places ++ held := by
  refine .bind keeps_start fun outer => ?_
  by_cases hle : outer.index ≤ node.index
  · rw [if_pos hle]
    exact .throw _
  · rw [if_neg hle]
    have hmem : node.index ∈ outer.places ++ held := List.mem_append_right _ hnode
    refine .bind (keeps_startAt _) fun _ => .bind (keeps_putEvent hmem _) fun _ => ?_
    refine .pure_of_subset ?_
    simp [Opening.places, hnode]

/-- Only the start itself may be dropped. -/
theorem keeps_dropStart {node : Opening} (hnode : node.index ∈ held) :
    Keeps held node.dropStart fun _ => held := by
  intro p a q hp hrun
  obtain ⟨p₁, p₂, hget, hrest⟩ := bind_eq_ok hrun
  cases hget
  split at hrest
  · rename_i hlast
    obtain ⟨⟨kind, link⟩, p₃, hstart, hpop⟩ := bind_eq_ok hrest
    obtain rfl := (startAt_eq_ok hstart).1
    dsimp only at hpop
    split at hpop
    · cases hpop
      refine ⟨.of_stream hp rfl rfl, fun k hlt hk => ⟨hk, ?_⟩⟩
      have hne : k ≠ node.index := fun h => hk (h ▸ hnode)
      rw [Array.getElem?_pop, if_pos (by omega)]
    · cases hpop
      exact ⟨.refl hp, .of_events rfl⟩
  · cases hrest
    exact ⟨.refl hp, .of_events rfl⟩

end

end TypstFormat
