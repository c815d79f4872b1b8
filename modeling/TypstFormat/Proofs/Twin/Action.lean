import TypstFormat.Proofs.Twin.Twin

/-!
# The basic actions side by side

Nodes, tokens, diagnostics, modes and rules for line breaks. Two parsers at corresponding places open
corresponding nodes (`Sides.opening`), consume corresponding tokens and report corresponding
diagnostics. In a clean comparison a diagnostic is the end, so that afterwards the left parser is
known to have found what it asked for.

## Key results

- `Twin.start`, `Twin.finish`, `Twin.dissolve`, `Twin.wrap`, `Twin.rename`: nodes
- `Twin.bump`, `Twin.eat`, `Twin.expect`, `Twin.isAt`: tokens
- `Twin.enterMode`, `Twin.leaveMode`, `Twin.enterBreakRule`, `Twin.leaveBreakRule`
-/

namespace TypstFormat

open Parse TypstFormat.Parser

namespace Opening

@[simp] theorem index_mem_places (node : Opening) : node.index ∈ node.places :=
  List.mem_cons_self

/-- The place of a node is none of those that are held, and the node does not wrap itself. -/
structure Fresh (held : List Nat) (node : Opening) : Prop where
  not_mem : node.index ∉ held
  not_wraps : node.index ∉ node.wraps.toList

end Opening

namespace Sides

variable (S : Sides)

/-- The node that the right parser opens where the left one opens a node. -/
def opening (node : Opening) : Opening where
  index := S.shift + node.index
  wraps := node.wraps.map (S.shift + ·)

/-- The node that the right parser closes where the left one closes a node. -/
def closed (node : Closed) : Closed where
  index := S.shift + node.index

variable {S} {closing : Bool} {fact : Prop} {held : List Nat} {stage : Stage} {n ahead : Nat}
variable {scope : Scope}

/-- The node is handed on in a place of its own. -/
abbrev Handed (S : Sides) (held : List Nat) (P : Parser → Parser → Prop) (node node' : Opening)
    (q q' : Parser) : Prop :=
  node' = S.opening node ∧ node.Fresh held ∧ P q q'

/-- Ranges between corresponding offsets, as far as they are compared. -/
def Ranges (S : Sides) (r r' : Text.Range) : Prop :=
  ¬S.clean → S.place r.start r'.start ∧ S.place r.stop r'.stop

theorem At.ranges (hS : S.Lawful) {p p' : Parser} (h : S.At stage n ahead scope p p')
    (hscope : S.Follows closing scope) : S.Ranges p.range p'.range := by
  intro hclean
  have hstrict : ¬S.strict := fun hstrict => hclean (hS.clean_of_strict hstrict)
  have hsight := h.sight hS (by rw [h.mode_eq_scope]; exact hscope.unbarred)
  have hrange : p.range = p.look.token.range := congrArg Token.range h.steady.current
  have hrange' : p'.range = p'.look.token.range := congrArg Token.range h.steady'.current
  rw [hrange, hrange']
  cases hsight with
  | agree halike hstop => exact ⟨halike.start, hstop⟩
  | foreign h => exact absurd h hclean
  | ending h => exact absurd h hstrict
  | gap h => exact absurd h hstrict
  | lost h => exact absurd h hstrict
  | spent h => exact absurd h hstrict

theorem At.errorRanges (hS : S.Lawful) {p p' : Parser} (h : S.At stage n ahead scope p p')
    (hscope : S.Follows closing scope) : S.Ranges p.errorRange p'.errorRange := by
  intro hclean
  have hstrict : ¬S.strict := fun hstrict => hclean (hS.clean_of_strict hstrict)
  have hsame := h.same_of_not_strict hS hscope.unbarred hstrict
  have hplace : S.place p.stream.consumed p'.stream.consumed :=
    h.consumed.resolve_right fun hfirst => hstrict (hS.strict_of_first hfirst)
  unfold Parser.errorRange Parser.isAt
  rw [hsame.current_eq]
  split
  · exact ⟨hplace, hplace⟩
  · exact h.ranges hS hscope hclean

/-- Looking how far a loop has come changes nothing. -/
theorem eq_of_advance {p q : Parser} {progress next : Progress}
    (h : Parse.advance progress p = .ok (next, q)) : q = p := by
  obtain ⟨p₁, p₂, hget, hrest⟩ := bind_eq_ok h
  cases hget
  dsimp only at hrest
  split at hrest
  · cases hrest
    rfl
  · cases hrest

/-- A later parser that has not dropped events. -/
theorem Stands.later {p q : Parser} (hp : S.Stands held p) (hlater : Later p q)
    (hsize : p.events.size ≤ q.events.size) : S.Stands held q :=
  ⟨hlater.steady, hlater.source_eq.trans hp.source_eq,
    fun k hk => Nat.lt_of_lt_of_le (hp.held_lt k hk) hsize⟩

theorem size_bumpAs (p : Parser) (kind : Kind) :
    p.events.size ≤ (p.bumpAs kind).events.size := by
  unfold Parser.bumpAs
  split
  · exact Nat.le_refl _
  · simp

namespace Twin

variable {P : Parser → Parser → Prop}

/-- A node is opened in a place of its own. -/
theorem bindNode [hS : S.Lawful] {α α' β β' : Type} {x : Parse α} {x' : Parse α'}
    {f : α → Parse β} {f' : α' → Parse β'} {g : α → α'} {new : α → Prop}
    {R : Parser → Parser → Prop} {held₁ : α → List Nat} {held' : β → List Nat}
    {Q : β → β' → Parser → Parser → Prop}
    (hx : S.Twin closing fact held P x x' held₁ fun a a' q q' => a' = g a ∧ new a ∧ R q q')
    (hf : ∀ a, S.Twin closing (fact ∧ new a) (held₁ a) R (f a) (f' (g a)) held' Q) :
    S.Twin closing fact held P (x >>= f) (x' >>= f') held' Q :=
  .bindEq hx fun a => .learn (fun _ _ _ h => h.1) ((hf a).pre fun _ _ _ h => h.2)

/-! ## Nodes -/

theorem startAt (index : Nat) :
    S.Twin closing fact held (S.At stage n ahead scope) (Parse.startAt index)
      (Parse.startAt (S.shift + index)) (fun _ => held)
      fun a a' q q' => a' = a ∧ S.At stage n ahead scope q q' where
  keeps := keeps_startAt index
  run _ p p' a a' q q' hp h hrun hrun' := by
    obtain ⟨rfl, hleft⟩ := startAt_eq_ok hrun
    obtain ⟨rfl, hright⟩ := startAt_eq_ok hrun'
    obtain ⟨hkind, hlink⟩ := h.events.start_eq hleft hright
    exact .inl ⟨⟨Prod.ext hkind hlink, h⟩, hp⟩

theorem putEvent {index : Nat} (hindex : index ∈ held) (kind : Kind) (link : Option Int) :
    S.Twin closing fact held (S.At stage n ahead scope) (Parse.putEvent index (.start kind link))
      (Parse.putEvent (S.shift + index) (.start kind link)) (fun _ => held)
      fun _ _ => S.At stage n ahead scope where
  keeps := keeps_putEvent hindex _
  run _ p p' a a' q q' hp h hrun hrun' := by
    cases hrun
    cases hrun'
    refine .inl ⟨h.write (h.events.set index (.start kind link)), hp.steady, hp.source_eq, ?_⟩
    intro k hk
    show k < (p.events.setIfInBounds index _).size
    rw [Array.size_setIfInBounds]
    exact hp.held_lt k hk

theorem pushFinish :
    S.Twin closing fact held (S.At stage n ahead scope)
      (modify fun p => { p with events := p.events.push .finish } : Parse PUnit)
      (modify fun p => { p with events := p.events.push .finish } : Parse PUnit) (fun _ => held)
      fun _ _ => S.At stage n ahead scope where
  keeps := keeps_pushEvent _
  run _ p p' a a' q q' hp h hrun hrun' := by
    cases hrun
    cases hrun'
    refine .inl ⟨h.write (h.events.push .finish), hp.steady, hp.source_eq, ?_⟩
    intro k hk
    show k < (p.events.push .finish).size
    rw [Array.size_push]
    exact Nat.lt_succ_of_lt (hp.held_lt k hk)

theorem start :
    S.Twin closing fact held (S.At stage n ahead scope) Parse.start Parse.start
      (fun node => node.places ++ held) (S.Handed held (S.At stage n ahead scope)) where
  keeps := keeps_start
  run _ p p' a a' q q' hp h hrun hrun' := by
    cases hrun
    cases hrun'
    have hnew : p.events.size ∉ held := fun hmem => Nat.lt_irrefl _ (hp.held_lt _ hmem)
    refine .inl ⟨⟨?_, ⟨hnew, by simp⟩, h.write (h.events.push (.start .tombstone none))⟩, hp.steady,
      hp.source_eq, ?_⟩
    · rw [h.events.size_eq]
      rfl
    · intro k hk
      show k < (p.events.push .tombstone).size
      rw [Array.size_push]
      rcases List.mem_append.1 hk with hk | hk
      · obtain rfl : k = p.events.size := by simpa [Opening.places] using hk
        exact Nat.lt_succ_self _
      · exact Nat.lt_succ_of_lt (hp.held_lt k hk)

section

variable [hS : S.Lawful]

theorem finish {node : Opening} (hnode : node.index ∈ held) (kind : Kind) :
    S.Twin closing fact held (S.At stage n ahead scope) (node.finish kind)
      ((S.opening node).finish kind) (fun closed => closed.index :: held)
      fun closed closed' q q' => closed' = S.closed closed ∧ S.At stage n ahead scope q q' := by
  refine .bindEq (.startAt node.index) fun ⟨_, link⟩ => ?_
  refine .bind (.putEvent hnode kind link) fun _ _ => .bind .pushFinish fun _ _ => ?_
  refine .pure ?_ fun _ q q' h => ⟨rfl, h⟩
  simpa using hnode

/-- A node is finished, and not changed any more. -/
theorem finishOff {node : Opening} {kind : Kind} :
    S.Twin closing fact (node.places ++ held) (S.At stage n ahead scope) (node.finish kind)
      ((S.opening node).finish kind) (fun _ => held) fun _ _ => S.At stage n ahead scope :=
  ((Twin.finish (by simp) kind).drop fun _ => by simp).post fun _ _ _ _ _ h => h.2

theorem finishLast {node : Opening} {kind : Kind} :
    S.Twin closing fact (node.places ++ held) (S.At stage n ahead scope)
      (do let _ ← node.finish kind) (do let _ ← (S.opening node).finish kind) (fun _ => held)
      fun _ _ => S.At stage n ahead scope :=
  .bind finishOff fun _ _ => .pure (List.Subset.refl _) fun _ _ _ h => h

theorem rename {node : Closed} (hnode : node.index ∈ held) (kind : Kind) :
    S.Twin closing fact held (S.At stage n ahead scope) (node.rename kind)
      ((S.closed node).rename kind) (fun _ => held) fun _ _ => S.At stage n ahead scope :=
  .bindEq (.startAt node.index) fun ⟨_, link⟩ => .putEvent hnode kind link

theorem kind (node : Closed) :
    S.Twin closing fact held (S.At stage n ahead scope) node.kind (S.closed node).kind
      (fun _ => held) fun a a' q q' => a' = a ∧ S.At stage n ahead scope q q' :=
  .bindEq (.startAt node.index) fun ⟨_, _⟩ =>
    .pure (List.Subset.refl _) fun _ _ _ h => ⟨rfl, h⟩

theorem wrap {node : Closed} (hnode : node.index ∈ held) :
    S.Twin closing fact held (S.At stage n ahead scope) node.wrap (S.closed node).wrap
      (fun outer => outer.places ++ held) (S.Handed held (S.At stage n ahead scope)) := by
  refine .bindNode .start fun outer => ?_
  have hiff : (S.opening outer).index ≤ (S.closed node).index ↔ outer.index ≤ node.index :=
    Nat.add_le_add_iff_left
  have hdistance : (S.opening outer).index - (S.closed node).index = outer.index - node.index :=
    Nat.add_sub_add_left _ _ _
  have hmem : node.index ∈ outer.places ++ held := List.mem_append_right _ hnode
  extract_lets next next'
  simp only [hiff]
  split
  · refine ⟨fun _ _ _ _ hrun => ?_, fun _ _ _ _ _ _ _ _ _ hrun _ => ?_⟩ <;> cases hrun
  · refine .bindEq (.startAt node.index) fun ⟨kind, _⟩ => ?_
    simp only [hdistance]
    refine .bind (.putEvent hmem kind _) fun _ _ => ?_
    refine .pure ?_ fun ⟨_, hnew⟩ q q' h => ⟨rfl, ⟨hnew.not_mem, fun hmem => ?_⟩, h⟩
    · simp [Opening.places, hnode]
    · obtain hself : outer.index = node.index := by simpa using hmem
      exact hnew.not_mem (hself ▸ hnode)

omit hS in
/-- The start of a node is dropped if nothing was read since. Its place is not handed on. -/
theorem dropStart {node : Opening} {held' : List Nat} (hnode : node.index ∈ held)
    (hsub : held' ⊆ held) (hnew : fact → node.index ∉ held') :
    S.Twin closing fact held (S.At stage n ahead scope) node.dropStart
      (S.opening node).dropStart (fun _ => held') fun _ _ => S.At stage n ahead scope where
  keeps := (keeps_dropStart hnode).mono fun _ => hsub
  run hfact p p' a a' q q' hp h hrun hrun' := by
    have hsize := h.events.size_eq
    have hdropped {r : Parser} (hr : r.stream = p.stream)
        (hlt : ∀ k ∈ held', k < r.events.size) : S.Stands held' r :=
      ⟨hr ▸ hp.steady, (congrArg Stream.source hr).trans hp.source_eq, hlt⟩
    have hstays : S.Stands held' p := hdropped rfl fun k hk => hp.held_lt k (hsub hk)
    obtain ⟨p₁, p₂, hget, hrest⟩ := bind_eq_ok hrun
    obtain ⟨p₁', p₂', hget', hrest'⟩ := bind_eq_ok hrun'
    cases hget
    cases hget'
    by_cases hlast : node.index + 1 = p.events.size
    · have hlast' : (S.opening node).index + 1 = p'.events.size := by
        show S.shift + node.index + 1 = _
        omega
      rw [if_pos hlast] at hrest
      rw [if_pos hlast'] at hrest'
      obtain ⟨⟨kind, link⟩, p₃, hstart, hpop⟩ := bind_eq_ok hrest
      obtain ⟨⟨kind', link'⟩, p₃', hstart', hpop'⟩ := bind_eq_ok hrest'
      obtain ⟨rfl, hleft⟩ := startAt_eq_ok hstart
      obtain ⟨rfl, hright⟩ := startAt_eq_ok hstart'
      obtain ⟨rfl, rfl⟩ := h.events.start_eq hleft hright
      cases hnone : link'.isNone with
      | true =>
        simp only [hnone, if_true] at hpop hpop'
        cases hpop
        cases hpop'
        refine .inl ⟨h.write (h.events.pop (by omega)), hdropped rfl fun k hk => ?_⟩
        have hlt := hp.held_lt k (hsub hk)
        have hne : k ≠ node.index := fun heq => hnew hfact (heq ▸ hk)
        simp only [Array.size_pop]
        omega
      | false =>
        simp only [hnone, Bool.false_eq_true, if_false] at hpop hpop'
        cases hpop
        cases hpop'
        exact .inl ⟨h, hstays⟩
    · have hlast' : ¬(S.opening node).index + 1 = p'.events.size := by
        show ¬S.shift + node.index + 1 = _
        omega
      rw [if_neg hlast] at hrest
      rw [if_neg hlast'] at hrest'
      cases hrest
      cases hrest'
      exact .inl ⟨h, hstays⟩

/-- A node is given up. Its place is not handed on. -/
theorem dissolve {node : Opening} {held' : List Nat} (hnode : node.places ⊆ held)
    (hsub : held' ⊆ held) (hnew : fact → node.Fresh held') :
    S.Twin closing fact held (S.At stage n ahead scope) node.dissolve (S.opening node).dissolve
      (fun _ => held') fun _ _ => S.At stage n ahead scope := by
  have hwraps : node.wraps.toList ⊆ held := fun k hk => hnode (List.mem_cons_of_mem _ hk)
  refine .bind (.dropStart (hnode (by simp)) (List.append_subset.2 ⟨hwraps, hsub⟩) fun hfact =>
    List.not_mem_append (hnew hfact).not_wraps (hnew hfact).not_mem) fun _ _ => ?_
  unfold opening
  cases node.wraps with
  | none => exact .pure (List.subset_append_right _ _) fun _ _ _ h => h
  | some inner =>
    refine .bindEq (.startAt inner) fun ⟨kind, _⟩ => ?_
    refine (Twin.putEvent ?_ kind none).drop fun _ => List.subset_append_right _ _
    exact List.mem_append_left _ (by simp)

/-- A node is started around a finished one. Other places need not be handed on. -/
theorem wrapInner {node : Closed} {held₀ : List Nat} (hnode : node.index ∈ held₀)
    (hsub : held ⊆ held₀) :
    S.Twin closing fact held₀ (S.At stage n ahead scope) node.wrap (S.closed node).wrap
      (fun outer => outer.places ++ held) (S.Handed held (S.At stage n ahead scope)) := by
  refine ((Twin.wrap hnode).drop fun outer k hk => ?_).post fun _ outer _ _ _ h => ?_
  · exact (List.mem_append.1 hk).elim (List.mem_append_left _)
      fun hk => List.mem_append_right _ (hsub hk)
  · exact ⟨h.1, ⟨fun hmem => h.2.1.not_mem (hsub hmem), h.2.1.not_wraps⟩, h.2.2⟩

/-- A node is finished, and another one is started around it. -/
theorem finishAndWrap {α β : Type} {node : Opening} {kind : Kind} {f : Opening → Parse α}
    {f' : Opening → Parse β} {held' : α → List Nat} {Q : α → β → Parser → Parser → Prop}
    (hf : ∀ outer, S.Twin closing (fact ∧ outer.Fresh held) (outer.places ++ held)
      (S.At stage n ahead scope) (f outer) (f' (S.opening outer)) held' Q) :
    S.Twin closing fact (node.places ++ held) (S.At stage n ahead scope)
      (node.finish kind >>= fun inner => inner.wrap >>= f)
      ((S.opening node).finish kind >>= fun inner => inner.wrap >>= f') held' Q :=
  .bindEq (.finish (by simp) kind) fun _ => .bindNode (.wrapInner List.mem_cons_self fun _ hk =>
    List.mem_cons_of_mem _ (List.mem_append_right _ hk)) hf

/-- A loop that hands on a node, which may be another one after each round. -/
theorem loopNode {P : Parser → Parser → Prop} {step step' : Opening → Parse (Opening ⊕ Opening)}
    (hstep : ∀ node, S.Twin closing (fact ∧ node.Fresh held) (node.places ++ held) P (step node)
      (step' (S.opening node)) (Sum.elim (·.places ++ held) (·.places ++ held))
      (Round (S.Handed held P) (S.Handed held P))) (node : Opening) :
    S.Twin closing (fact ∧ node.Fresh held) (node.places ++ held) P (Parse.loop step node)
      (Parse.loop step' (S.opening node)) (fun node => node.places ++ held)
      (S.Handed held P) := by
  have hrounds (s s' : Opening) : S.Twin closing fact (s.places ++ held) (S.Handed held P s s')
      (step s) (step' s') (Sum.elim (·.places ++ held) (·.places ++ held))
      (Round (S.Handed held P) (S.Handed held P)) := by
    refine ⟨(hstep s).keeps, fun hfact _ _ _ _ _ _ hp h hrun hrun' => ?_⟩
    obtain ⟨rfl, hnew, hP⟩ := h
    exact (hstep s).run ⟨hfact, hnew⟩ hp hP hrun hrun'
  exact (Twin.loop hrounds node (S.opening node)).mono And.left fun h _ _ hP => ⟨rfl, h.2, hP⟩

/-! ## Tokens -/

/-- What both see is consumed, if anything can be. -/
private theorem bumpWith (hscope : fact → S.Follows closing scope) (kind : Parser → Kind)
    (hkind : ∀ p, kind p = p.stream.kind ∨ kind p = .text)
    (hkinds : ∀ p p', S.Same p p' → kind p' = kind p)
    (hsame : fact → ∀ p p', S.At stage n ahead scope p p' → S.Same p p')
    (hend : fact → ∀ p p', S.At stage n ahead scope p p' → S.strict → p.isAtEnd = true →
      stage.covers .past = true) :
    S.Twin closing fact held (S.At stage n ahead scope)
      (modify fun p => p.bumpAs (kind p) : Parse PUnit)
      (modify fun p => p.bumpAs (kind p) : Parse PUnit) (fun _ => held)
      fun _ _ => S.At .past n (ahead - 1) scope where
  keeps p a q hp hrun := keeps_bumpAs (kind p) p a q hp hrun
  run hfact p p' a a' q q' hp h hrun hrun' := by
    cases hrun
    cases hrun'
    have hsame := hsame hfact p p' h
    have hstands := hp.later (.bumpAs hp.steady (kind p)) (size_bumpAs p (kind p))
    have hright : p'.bumpAs (kind p') = p'.bumpAs (kind p) := by rw [hkinds p p' hsame]
    have hnew : p.events.size ∉ held := fun hmem => Nat.lt_irrefl _ (hp.held_lt _ hmem)
    show (S.At _ _ _ _ _ (p'.bumpAs (kind p')) ∧ _) ∨ _
    rw [hright]
    exact (h.bumpAs hS (hscope hfact) hsame hnew (hend hfact p p' h) (hkind p)).imp_left
      fun h => ⟨h, hstands⟩

/-- The token that is seen is consumed. -/
theorem bump (hscope : fact → S.Follows closing scope) (hon : stage.covers .on = true) :
    S.Twin closing fact held (S.At stage n ahead scope) Parse.bump Parse.bump (fun _ => held)
      fun _ _ => S.At .past n (ahead - 1) scope := by
  refine bumpWith hscope (·.stream.kind) (fun _ => .inl rfl) (fun _ _ h => h.kind_eq)
    (fun hfact _ _ h => h.same_of_on hS (hscope hfact).unbarred hon) fun _ p p' h hstrict hend => ?_
  rw [(h.stage hstrict).on hon] at hend
  cases hend

/-- A token that was found ahead is consumed, unless code ends in front of it. -/
theorem bumpAhead (hscope : fact → S.Follows closing scope) (hpast : stage.covers .past = true) :
    S.Twin closing fact held (S.At stage n (ahead + 1) scope) Parse.bump Parse.bump
      (fun _ => held) fun _ _ => S.At .past n ahead scope :=
  bumpWith hscope (·.stream.kind) (fun _ => .inl rfl) (fun _ _ h => h.kind_eq)
    (fun hfact _ _ h => h.same_of_ahead hS (hscope hfact).unbarred) fun _ _ _ _ _ _ => hpast

/-- In markup and math, whatever stands there is consumed. -/
theorem bumpOther (hscope : fact → S.Follows closing scope) (hmode : scope.mode ≠ .code)
    (hpast : stage.covers .past = true) :
    S.Twin closing fact held (S.At stage n ahead scope) Parse.bump Parse.bump (fun _ => held)
      fun _ _ => S.At .past n (ahead - 1) scope :=
  bumpWith hscope (·.stream.kind) (fun _ => .inl rfl) (fun _ _ h => h.kind_eq)
    (fun hfact _ _ h => h.same_of_mode hS (hscope hfact).unbarred hmode) fun _ _ _ _ _ _ => hpast

theorem bumpText (hscope : fact → S.Follows closing scope) (hmode : scope.mode ≠ .code)
    (hpast : stage.covers .past = true) :
    S.Twin closing fact held (S.At stage n ahead scope)
      (modify (·.bumpAs .text) : Parse PUnit) (modify (·.bumpAs .text) : Parse PUnit)
      (fun _ => held) fun _ _ => S.At .past n (ahead - 1) scope :=
  bumpWith hscope (fun _ => .text) (fun _ => .inr rfl) (fun _ _ _ => rfl)
    (fun hfact _ _ h => h.same_of_mode hS (hscope hfact).unbarred hmode) fun _ _ _ _ _ _ => hpast

/-- In a comparison that is not strict, whatever stands there is consumed. -/
theorem bumpLoose (hscope : fact → S.Follows closing scope) (hstrict : fact → ¬S.strict) :
    S.Twin closing fact held (S.At stage n ahead scope) Parse.bump Parse.bump (fun _ => held)
      fun _ _ => S.At stage n ahead scope :=
  (bumpWith hscope (·.stream.kind) (fun _ => .inl rfl) (fun _ _ h => h.kind_eq)
    (fun hfact _ _ h => h.same_of_not_strict hS (hscope hfact).unbarred (hstrict hfact))
    fun hfact _ _ _ h => absurd h (hstrict hfact)).post
    fun hfact _ _ _ _ h => h.of_not_strict (hstrict hfact) _ _ _

/-! ## Questions about the current token -/

section Questions

variable {α β : Type} {f : Bool → Parse α} {f' : Bool → Parse β} {held' : α → List Nat}
variable {Q : α → β → Parser → Parser → Prop}

omit hS in
/-- A question that both answer in the same way, and affirm of tokens only. -/
theorem askToken {g : Parser → Bool}
    (heq : fact → ∀ p p', S.At stage n ahead scope p p' → g p' = g p)
    (htoken : ∀ p, g p = true → p.isAtEnd = false)
    (hyes : S.Twin closing fact held (S.At stage.seen n ahead scope) (f true) (f' true) held' Q)
    (hno : S.Twin closing fact held (S.At stage n ahead scope) (f false) (f' false) held' Q) :
    S.Twin closing fact held (S.At stage n ahead scope) (Parse.ask g >>= f) (Parse.ask g >>= f')
      held' Q :=
  .askBool heq (hyes.pre fun _ _ _ h => h.1.seen (htoken _ h.2)) (hno.pre fun _ _ _ h => h.1)

omit hS in
/-- A question about what both see. -/
theorem askSame {γ : Type} {g : Parser → γ} {f : γ → Parse α} {f' : γ → Parse β}
    (hg : ∀ p p', S.Same p p' → g p' = g p)
    (hsame : fact → ∀ p p', S.At stage n ahead scope p p' → S.Same p p')
    (hf : ∀ b, S.Twin closing fact held (S.At stage n ahead scope) (f b) (f' b) held' Q) :
    S.Twin closing fact held (S.At stage n ahead scope) (Parse.ask g >>= f) (Parse.ask g >>= f')
      held' Q :=
  .ask (fun hfact p p' h => hg p p' (hsame hfact p p' h)) fun b => (hf b).pre fun _ _ _ h => h.1

theorem isAtEnd_of_isAt {kind : Kind} (hkind : kind.closesCode = false) {p : Parser}
    (hat : p.isAt kind = true) : p.isAtEnd = false := by
  simp only [Kind.closesCode, Bool.or_eq_false_iff, decide_eq_false_iff_not] at hkind
  rw [isAtEnd_eq_false, isAt_iff.1 hat]
  exact ⟨hkind.1.2, hkind.1.1⟩

theorem isAt {kind : Kind} (hscope : fact → S.Follows closing scope)
    (hkind : kind.closesCode = false)
    (hyes : S.Twin closing fact held (S.At stage.seen n ahead scope) (f true) (f' true) held' Q)
    (hno : S.Twin closing fact held (S.At stage n ahead scope) (f false) (f' false) held' Q) :
    S.Twin closing fact held (S.At stage n ahead scope) (Parse.isAt kind >>= f)
      (Parse.isAt kind >>= f') held' Q :=
  askToken (fun hfact _ _ h => h.isAt_eq hS (hscope hfact).unbarred hkind)
    (fun _ hat => isAtEnd_of_isAt hkind hat) hyes hno

/-- Whether a token is of one of two kinds. -/
theorem isAtEither {kind₁ kind₂ : Kind} (hscope : fact → S.Follows closing scope)
    (hkind₁ : kind₁.closesCode = false) (hkind₂ : kind₂.closesCode = false)
    {y z : Parse α} {y' z' : Parse β}
    (hyes : S.Twin closing fact held (S.At stage.seen n ahead scope) y y' held' Q)
    (hno : S.Twin closing fact held (S.At stage n ahead scope) z z' held' Q) :
    S.Twin closing fact held (S.At stage n ahead scope)
      (Parse.isAt kind₁ >>= fun a => Parse.isAt kind₂ >>= fun b =>
        if (a || b) = true then y else z)
      (Parse.isAt kind₁ >>= fun a => Parse.isAt kind₂ >>= fun b =>
        if (a || b) = true then y' else z') held' Q := by
  refine .askOr (fun hfact _ _ h => ?_) (hyes.pre fun _ _ _ h => h.1.seen ?_)
    (hno.pre fun _ _ _ h => h.1)
  · rw [h.isAt_eq hS (hscope hfact).unbarred hkind₁, h.isAt_eq hS (hscope hfact).unbarred hkind₂]
  · rcases Bool.or_eq_true_iff.1 h.2 with hat | hat
    · exact isAtEnd_of_isAt hkind₁ hat
    · exact isAtEnd_of_isAt hkind₂ hat

theorem isAtAny {kinds : List Kind} (hscope : fact → S.Follows closing scope)
    (hkinds : ∀ kind ∈ kinds, kind.closesCode = false)
    (hyes : S.Twin closing fact held (S.At stage.seen n ahead scope) (f true) (f' true) held' Q)
    (hno : S.Twin closing fact held (S.At stage n ahead scope) (f false) (f' false) held' Q) :
    S.Twin closing fact held (S.At stage n ahead scope) (Parse.isAtAny kinds >>= f)
      (Parse.isAtAny kinds >>= f') held' Q := by
  refine askToken (fun hfact _ _ h => h.isAtAny_eq hS (hscope hfact).unbarred hkinds)
    (fun p hat => ?_) hyes hno
  exact isAtEnd_of_isAt (hkinds p.current (by simpa [Parser.isAtAny] using hat)) (isAt_iff.2 rfl)

theorem isDirectlyAt {kind : Kind} (hscope : fact → S.Follows closing scope)
    (hpast : stage.covers .past = true) (hkind : kind.closesCode = false)
    (hyes : S.Twin closing fact held (S.At stage.seen n ahead scope) (f true) (f' true) held' Q)
    (hno : S.Twin closing fact held (S.At stage n ahead scope) (f false) (f' false) held' Q) :
    S.Twin closing fact held (S.At stage n ahead scope) (Parse.isDirectlyAt kind >>= f)
      (Parse.isDirectlyAt kind >>= f') held' Q :=
  askToken
    (fun hfact _ _ h => h.isDirectlyAt_eq hS (hscope hfact).unbarred hpast hkind)
    (fun _ hat => isAtEnd_of_isAt hkind (Bool.and_eq_true_iff.1 hat).1) hyes hno

/-- Where a list does not end, there is a token. -/
theorem isAtTerminator (hscope : fact → S.Follows closing scope)
    (hyes : S.Twin closing fact held (S.At stage n ahead scope) (f true) (f' true) held' Q)
    (hno : S.Twin closing fact held (S.At stage.seen n ahead scope) (f false) (f' false)
      held' Q) :
    S.Twin closing fact held (S.At stage n ahead scope) (Parse.isAtTerminator >>= f)
      (Parse.isAtTerminator >>= f') held' Q := by
  refine .askBool (fun hfact _ _ h => h.isAtTerminator_eq hS (hscope hfact).unbarred)
    (hyes.pre fun _ _ _ h => h.1) (hno.pre fun _ p _ h => h.1.seen ?_)
  obtain ⟨hterminator, heof⟩ := Bool.or_eq_false_iff.1 h.2
  rw [isAtEnd_eq_false]
  refine ⟨fun hcurrent => ?_, of_decide_eq_false heof⟩
  rw [hcurrent] at hterminator
  cases hterminator

end Questions

omit hS in
/-- How far a loop has come is not compared. -/
theorem advance {progress progress' : Progress} :
    S.Twin closing fact held P (Parse.advance progress) (Parse.advance progress')
      (fun _ => held) fun _ _ => P where
  keeps p a q hp hrun := by
    rw [eq_of_advance hrun]
    exact ⟨.refl hp, .of_events rfl⟩
  run _ p p' a a' q q' hp h hrun hrun' := by
    rw [eq_of_advance hrun, eq_of_advance hrun']
    exact .inl ⟨h, hp⟩

/-- The ranges of the tokens that both see. In a clean comparison nothing is known of them. -/
theorem range (hscope : fact → S.Follows closing scope) :
    S.Twin closing fact held (S.At stage n ahead scope) Parse.range Parse.range (fun _ => held)
      fun r r' q q' => S.Ranges r r' ∧ S.At stage n ahead scope q q' where
  keeps := .ask _
  run hfact p p' a a' q q' hp h hrun hrun' := by
    cases hrun
    cases hrun'
    exact .inl ⟨⟨h.ranges hS (hscope hfact), h⟩, hp⟩

/-- A token of the kind is consumed, or there is none. -/
theorem eats {kind : Kind} (hscope : fact → S.Follows closing scope)
    (hkind : kind.closesCode = false) :
    S.Twin closing fact held (S.At stage n ahead scope) (Parse.eat kind) (Parse.eat kind)
      (fun _ => held) fun found found' q q' => found' = found ∧
        (found = true → S.At .past n (ahead - 1) scope q q') ∧
        (found = false → S.At stage n ahead scope q q') := by
  refine .isAt hscope hkind ?_ ?_
  · refine .bind (.bump hscope (Stage.seen_covers_on stage)) fun _ _ => ?_
    exact .pure (List.Subset.refl _) fun _ _ _ h => ⟨rfl, fun _ => h, by simp⟩
  · exact .pure (List.Subset.refl _) fun _ _ _ h => ⟨rfl, by simp, fun _ => h⟩

theorem eat {α β : Type} {f : Bool → Parse α} {f' : Bool → Parse β} {held' : α → List Nat}
    {Q : α → β → Parser → Parser → Prop} {kind : Kind}
    (hscope : fact → S.Follows closing scope) (hkind : kind.closesCode = false)
    (hyes : S.Twin closing fact held (S.At .past n (ahead - 1) scope) (f true) (f' true) held' Q)
    (hno : S.Twin closing fact held (S.At stage n ahead scope) (f false) (f' false) held' Q) :
    S.Twin closing fact held (S.At stage n ahead scope) (Parse.eat kind >>= f)
      (Parse.eat kind >>= f') held' Q := by
  refine .bindEq (.eats hscope hkind) fun found => ?_
  cases found with
  | true => exact hyes.pre fun _ _ _ h => h.1 rfl
  | false => exact hno.pre fun _ _ _ h => h.2 rfl

/-- A token of the kind is consumed, or nothing has changed. -/
theorem eatOr {α β : Type} {f : Bool → Parse α} {f' : Bool → Parse β} {held' : α → List Nat}
    {Q : α → β → Parser → Parser → Prop} {kind : Kind} {P : Parser → Parser → Prop}
    (hscope : fact → S.Follows closing scope) (hkind : kind.closesCode = false)
    (hP : fact → ∀ p p', P p p' → S.At stage n ahead scope p p')
    (hyes : S.Twin closing fact held (S.At .past n (ahead - 1) scope) (f true) (f' true) held' Q)
    (hno : S.Twin closing fact held (fun p p' => P p p' ∧ p.isAt kind = false) (f false) (f' false)
      held' Q) :
    S.Twin closing fact held P (Parse.eat kind >>= f) (Parse.eat kind >>= f') held' Q := by
  have heats : S.Twin closing fact held P (Parse.eat kind) (Parse.eat kind) (fun _ => held)
      fun found found' q q' => found' = found ∧
        (found = true → S.At .past n (ahead - 1) scope q q') ∧
        (found = false → P q q' ∧ q.isAt kind = false) := by
    refine .askBool (fun hfact _ _ h => (hP hfact _ _ h).isAt_eq hS (hscope hfact).unbarred hkind)
      ?_ (.pure (List.Subset.refl _) fun _ _ _ h => ⟨rfl, by simp, fun _ => h⟩)
    refine .pre (P := S.At stage.seen n ahead scope) ?_ fun hfact _ _ h =>
      (hP hfact _ _ h.1).seen (isAtEnd_of_isAt hkind h.2)
    refine .bind (.bump hscope (Stage.seen_covers_on stage)) fun _ _ => ?_
    exact .pure (List.Subset.refl _) fun _ _ _ h => ⟨rfl, fun _ => h, by simp⟩
  refine .bindEq heats fun found => ?_
  cases found with
  | true => exact hyes.pre fun _ _ _ h => h.1 rfl
  | false => exact hno.pre fun _ _ _ h => h.2 rfl

omit hS in
/-- No token of the kind is there to be consumed. -/
theorem eatAbsent {α β : Type} {f : Bool → Parse α} {f' : Bool → Parse β} {held' : α → List Nat}
    {Q : α → β → Parser → Parser → Prop} {kind : Kind} {P : Parser → Parser → Prop}
    (habsent : fact → ∀ p p', P p p' → p.isAt kind = false ∧ p'.isAt kind = false)
    (hkeeps : Keeps held (f true) held')
    (hf : S.Twin closing fact held P (f false) (f' false) held' Q) :
    S.Twin closing fact held P (Parse.eat kind >>= f) (Parse.eat kind >>= f') held' Q where
  keeps := .bind (keeps_eat kind) fun found => by
    cases found with
    | true => exact hkeeps
    | false => exact hf.keeps
  run hfact p p' b b' r r' hp hP hrun hrun' := by
    obtain ⟨habsent, habsent'⟩ := habsent hfact p p' hP
    obtain ⟨_, q, heat, hrest⟩ := bind_eq_ok hrun
    obtain ⟨_, q', heat', hrest'⟩ := bind_eq_ok hrun'
    rw [eat_of_absent habsent] at heat
    rw [eat_of_absent habsent'] at heat'
    cases heat
    cases heat'
    exact hf.run hfact hp hP hrest hrest'

/-! ## Diagnostics -/

/-- In a clean comparison a diagnostic is the end; otherwise nothing depends on the stage. -/
theorem report {issue : Issue} {r r' : Text.Range} {message message' : Option String}
    (hranges : fact → S.Ranges r r') (hmessage : fact → ¬S.strict → message' = message)
    {stage' : Stage} {m ahead' : Nat} :
    S.Twin closing fact held (S.At stage n ahead scope) (Parse.report (issue.report r message))
      (Parse.report (issue.report r' message')) (fun _ => held)
      fun _ _ q q' => ¬S.strict ∧ S.At stage' m ahead' scope q q' where
  keeps := keeps_report _
  run hfact p p' a a' q q' hp h hrun hrun' := by
    cases hrun
    cases hrun'
    by_cases hclean : S.clean
    · exact .inr (broken_report hp.steady hp.source_eq hclean _)
    · have hstrict : ¬S.strict := fun hstrict => hclean (hS.clean_of_strict hstrict)
      obtain ⟨hstart, hstop⟩ := hranges hfact hclean
      obtain rfl := hmessage hfact hstrict
      have hd : S.Finding (issue.report r message') (issue.report r' message') :=
        ⟨rfl, rfl, hstart, hstop⟩
      have hevents : (p.report (issue.report r message')).events = p.events := by
        unfold Parser.report
        split <;> rfl
      have hlater := (@keeps_report held (issue.report r message') p () _ hp.steady rfl).1
      exact .inl ⟨⟨hstrict, (h.report hS hd).of_not_strict hstrict _ _ _⟩,
        hp.later hlater (Nat.le_of_eq (congrArg Array.size hevents.symm))⟩

theorem errorRange (hscope : fact → S.Follows closing scope) :
    S.Twin closing fact held (S.At stage n ahead scope) (Parse.ask (·.errorRange))
      (Parse.ask (·.errorRange)) (fun _ => held)
      fun r r' q q' => S.Ranges r r' ∧ S.At stage n ahead scope q q' where
  keeps := .ask _
  run hfact p p' a a' q q' hp h hrun hrun' := by
    cases hrun
    cases hrun'
    exact .inl ⟨⟨h.errorRanges hS (hscope hfact), h⟩, hp⟩

theorem position (hscope : fact → S.Follows closing scope) :
    S.Twin closing fact held (S.At stage n ahead scope) (Parse.ask (·.position))
      (Parse.ask (·.position)) (fun _ => held)
      fun a a' q q' => S.Ranges (.empty a) (.empty a') ∧ S.At stage n ahead scope q q' where
  keeps := .ask _
  run hfact p p' a a' q q' hp h hrun hrun' := by
    cases hrun
    cases hrun'
    have hplace (hstrict : ¬S.strict) : S.place p.position p'.position :=
      (h.same_of_not_strict hS (hscope hfact).unbarred hstrict).position
    have hranges : S.Ranges (.empty p.position) (.empty p'.position) := fun hclean =>
      have hstrict : ¬S.strict := fun hstrict => hclean (hS.clean_of_strict hstrict)
      ⟨hplace hstrict, hplace hstrict⟩
    exact .inl ⟨⟨hranges, h⟩, hp⟩

/-- A fact that is known afterwards. -/
theorem bindFact {α α' β β' : Type} [Nonempty α'] {x : Parse α} {x' : Parse α'}
    {f : α → Parse β} {f' : α' → Parse β'} {ψ : α → α' → Prop} {R : Parser → Parser → Prop}
    {held₁ : α → List Nat} {held' : β → List Nat} {Q : β → β' → Parser → Parser → Prop}
    (hx : S.Twin closing fact held P x x' held₁ fun a a' q q' => ψ a a' ∧ R q q')
    (hf : ∀ a a', S.Twin closing (fact ∧ ψ a a') (held₁ a) R (f a) (f' a') held' Q) :
    S.Twin closing fact held P (x >>= f) (x' >>= f') held' Q :=
  .bind hx fun a a' => .learn (fun _ _ _ h => h.1) ((hf a a').pre fun _ _ _ h => h.2)

/-- A token of the kind is consumed, or in a comparison that is not strict it is reported as
missing. -/
theorem expect {kind : Kind} {description : Option String}
    (hscope : fact → S.Follows closing scope) (hkind : kind.closesCode = false) :
    S.Twin closing fact held (S.At stage n ahead scope) (Parse.expect kind description)
      (Parse.expect kind description) (fun _ => held) fun found found' q q' => found' = found ∧
        S.At .past n (ahead - 1) scope q q' := by
  refine .eat hscope hkind (.pure (List.Subset.refl _) fun _ _ _ h => ⟨rfl, h⟩) ?_
  refine .bindFact (.errorRange hscope) fun r r' => ?_
  exact .bindFact (.report (fun h => h.2) fun _ _ => rfl) fun _ _ =>
    .pure (List.Subset.refl _) fun _ _ _ h => ⟨rfl, h⟩

/-- The closing delimiter is consumed, or in a comparison that is not strict it is reported as
missing. -/
theorem expectClosing {opening opening' : Text.Range} {kind : Kind}
    (hscope : fact → S.Follows closing scope) (hkind : kind.closesCode = false)
    (hranges : fact → S.Ranges opening opening') :
    S.Twin closing fact held (S.At stage n ahead scope) (Parse.expectClosing opening kind)
      (Parse.expectClosing opening' kind) (fun _ => held) fun found found' q q' => found' = found ∧
        S.At .past n (ahead - 1) scope q q' := by
  refine .eat hscope hkind (.pure (List.Subset.refl _) fun _ _ _ h => ⟨rfl, h⟩) ?_
  exact .bindFact (.report hranges fun _ _ => rfl) fun _ _ =>
    .pure (List.Subset.refl _) fun _ _ _ h => ⟨rfl, h⟩

/-- The token that closes markup or math is consumed, behind which there may be nothing left. -/
theorem bumpLast {kind : Kind} (hunbarred : fact → S.barred → scope.mode ≠ .markup)
    (hkind : kind.closesCode = false) (hends : kind ∉ endless) :
    S.Twin closing fact held (fun p p' => S.At stage n ahead scope p p' ∧ p.isAt kind = true)
      Parse.bump Parse.bump (fun _ => held) fun _ _ => S.Near .past n 0 scope where
  keeps := keeps_bump
  run hfact p p' a a' q q' hp h hrun hrun' := by
    obtain ⟨h, hat⟩ := h
    have hend := isAtEnd_of_isAt hkind hat
    have hsame := h.same_of_isAt hS (hunbarred hfact) hkind hat
    have hcurrent : p.stream.kind = kind := by
      rw [kind_eq_current (isAtEnd_eq_false.1 hend).1, isAt_iff.1 hat]
    have h₁ : S.At stage n 1 scope p p' :=
      (h.weaken (Stage.covers_self stage) (fun _ => Nat.le_refl n) (Nat.zero_le ahead)).ahead_one
        fun _ => hend
    have hlater := (@keeps_bump held p a q hp.steady hrun).1
    cases hrun
    cases hrun'
    have hbump' : p'.bump = p'.bumpAs p.stream.kind := by
      unfold Parser.bump
      rw [hsame.kind_eq]
    show (S.Near _ _ _ _ (p.bumpAs p.stream.kind) p'.bump ∧ _) ∨ _
    rw [hbump']
    have hnear : S.Near .past n 0 scope (p.bumpAs p.stream.kind) (p'.bumpAs p.stream.kind) :=
      (h₁.pass hS (hunbarred hfact) hend (.inl rfl) List.not_mem_nil fun _ hmem =>
        absurd (hcurrent ▸ hmem) hends).resolve_right
        fun h : _ ∧ S.Broken closing [] _ => hends (hcurrent ▸ h.1)
    exact .inl ⟨hnear, hp.later hlater (size_bumpAs p p.stream.kind)⟩

/-- The last delimiter of markup or math is consumed, or in a comparison that is not strict it is
reported as missing. -/
theorem expectLast {opening opening' : Text.Range} {kind : Kind}
    (hunbarred : fact → S.barred → scope.mode ≠ .markup) (hkind : kind.closesCode = false)
    (hends : kind ∉ endless) (hranges : fact → S.Ranges opening opening') :
    S.Twin closing fact held (S.At stage n ahead scope) (Parse.expectClosing opening kind)
      (Parse.expectClosing opening' kind) (fun _ => held) fun _ _ => S.Near .past n 0 scope := by
  have heats : S.Twin closing fact held (S.At stage n ahead scope) (Parse.eat kind)
      (Parse.eat kind) (fun _ => held) fun found found' q q' => found' = found ∧
        (found = true → S.Near .past n 0 scope q q') ∧
        (found = false → S.At stage n ahead scope q q') := by
    refine .askBool (fun hfact _ _ h => h.isAt_eq hS (hunbarred hfact) hkind) ?_ ?_
    · exact .bind (.bumpLast hunbarred hkind hends) fun _ _ =>
        .pure (List.Subset.refl _) fun _ _ _ h => ⟨rfl, fun _ => h, by simp⟩
    · exact .pure (List.Subset.refl _) fun _ _ _ h => ⟨rfl, by simp, fun _ => h.1⟩
  refine .bindEq heats fun found => ?_
  cases found with
  | true => exact .pure (List.Subset.refl _) fun _ _ _ h => h.1 rfl
  | false =>
    refine .pre (P := S.At stage n ahead scope) ?_ fun _ _ _ h => h.2 rfl
    exact .bindFact (.report hranges fun _ _ => rfl) fun _ _ =>
      .pure (List.Subset.refl _) fun _ _ _ h => At.toNear h

/-- What is reported about the current token, if anything is. -/
theorem reportMissingExpression (hscope : fact → S.Follows closing scope) {stage' : Stage}
    {m ahead' : Nat} :
    S.Twin closing fact held (S.At stage n ahead scope) Parse.reportMissingExpression
      Parse.reportMissingExpression (fun _ => held)
      fun _ _ q q' => ¬S.strict ∧ S.At stage' m ahead' scope q q' :=
  .bindFact (.position hscope) fun _ _ => .report (fun h => h.2) fun _ _ => rfl

theorem reportMissingSeparator (hscope : fact → S.Follows closing scope) {stage' : Stage}
    {m ahead' : Nat} :
    S.Twin closing fact held (S.At stage n ahead scope) Parse.reportMissingSeparator
      Parse.reportMissingSeparator (fun _ => held)
      fun _ _ q q' => ¬S.strict ∧ S.At stage' m ahead' scope q q' :=
  .bindFact (.position hscope) fun _ _ => .report (fun h => h.2) fun _ _ => rfl

theorem reportUnexpected (hscope : fact → S.Follows closing scope) {stage' : Stage}
    {m ahead' : Nat} :
    S.Twin closing fact held (S.At stage n ahead scope) Parse.reportUnexpected
      Parse.reportUnexpected (fun _ => held)
      fun _ _ q q' => ¬S.strict ∧ S.At stage' m ahead' scope q q' := by
  refine .get fun p p' => ?_
  refine .pre (P := S.At stage n ahead scope) (.report (fun h => ?_) fun h hstrict => ?_) ?_
  · exact h.2.ranges hS (hscope h.1)
  · rw [(h.2.same_of_not_strict hS (hscope h.1).unbarred hstrict).current_eq]
  · rintro ⟨_, h⟩ _ _ ⟨rfl, rfl⟩
    exact h

/-! ## Modes and rules for line breaks -/

theorem enterMode {mode : Mode} (hpast : stage.covers .past = true)
    (hclosing : fact → mode ≠ .code → closing = true) :
    S.Twin closing fact held (S.At stage n ahead scope) (Parse.enterMode mode)
      (Parse.enterMode mode) (fun _ => held)
      fun _ _ => S.At .past n 0 (scope.enter mode) where
  keeps := keeps_enterMode mode
  run hfact p p' a a' q q' hp h hrun hrun' := by
    cases hrun
    cases hrun'
    have hlater := (@keeps_enterMode held mode p () _ hp.steady rfl).1
    have h₀ := h.weaken hpast (fun _ => Nat.le_refl n) (Nat.zero_le ahead)
    exact (h₀.enterMode hS (hclosing hfact)).imp_left fun h => ⟨h, hp.later hlater (Nat.le_refl _)⟩

/-- The mode changes back. In code nothing waits to be closed any more. -/
theorem leaveMode {mode : Mode} (hpast : stage.covers .past = true)
    (hclosing : fact → scope.mode ≠ .code → closing = true) :
    S.Twin closing fact held (S.Near stage n ahead (scope.enter mode)) Parse.leaveMode
      Parse.leaveMode (fun _ => held) fun _ _ => S.At .past n 0 scope where
  keeps := keeps_leaveMode
  run hfact p p' a a' q q' hp h hrun hrun' := by
    have hmodes : p.modes = scope.mode :: scope.modes := congrArg Scope.modes h.scope_eq
    have hlater := (@keeps_leaveMode held p a q hp.steady hrun).1
    have h₀ := h.weaken hpast (fun _ => Nat.le_refl n) (Nat.zero_le ahead)
    obtain ⟨p₁, p₂, hget, hset⟩ := bind_eq_ok hrun
    obtain ⟨p₁', p₂', hget', hset'⟩ := bind_eq_ok hrun'
    cases hget
    cases hget'
    rw [hmodes] at hset
    rw [h.modes_eq, hmodes] at hset'
    cases hset
    cases hset'
    exact ((h₀.switch hS rfl).at_or_broken (hclosing hfact)).imp_left
      fun h => ⟨h, hp.later hlater (Nat.le_refl _)⟩

/-- A rule comes into force at the current token. What was consumed stays where it was. -/
theorem enterBreakRuleBehind {α β : Type} {f : Unit → Parse α} {f' : Unit → Parse β}
    {held' : α → List Nat} {Q : α → β → Parser → Parser → Prop} {rule : BreakRule}
    (hunbarred : fact → S.barred → scope.mode ≠ .markup) (hon : stage.covers .on = true)
    (hf : ∀ entered, S.Twin closing (fact ∧ (S.strict → n ≤ entered)) held
      (fun p p' => S.At .on entered 0 (scope.rule rule entered) p p' ∧
        (stage.covers .past = true → S.place p.stream.consumed p'.stream.consumed))
      (f ()) (f' ()) held' Q) :
    S.Twin closing fact held (S.At stage n ahead scope) (Parse.enterBreakRule rule >>= f)
      (Parse.enterBreakRule rule >>= f') held' Q where
  keeps := .bind (keeps_enterBreakRule rule) fun _ => (hf 0).keeps
  run hfact p p' b b' r r' hp h hrun hrun' := by
    obtain ⟨_, q, henter, hrest⟩ := bind_eq_ok hrun
    obtain ⟨_, q', henter', hrest'⟩ := bind_eq_ok hrun'
    cases henter
    cases henter'
    have hlater := (@keeps_enterBreakRule held rule p () _ hp.steady rfl).1
    have hplace := h.place_consumed hS
    exact (hf p.position).run ⟨hfact, fun hstrict => (h.stage hstrict).come hp.steady⟩
      (hp.later hlater (Nat.le_refl _))
      ⟨h.enterBreakRule hS (hunbarred hfact) hon rule, hplace⟩ hrest hrest'

theorem enterBreakRule {α β : Type} {f : Unit → Parse α} {f' : Unit → Parse β}
    {held' : α → List Nat} {Q : α → β → Parser → Parser → Prop} {rule : BreakRule}
    (hunbarred : fact → S.barred → scope.mode ≠ .markup) (hon : stage.covers .on = true)
    (hf : ∀ entered, S.Twin closing (fact ∧ (S.strict → n ≤ entered)) held
      (S.At .on entered 0 (scope.rule rule entered)) (f ()) (f' ()) held' Q) :
    S.Twin closing fact held (S.At stage n ahead scope) (Parse.enterBreakRule rule >>= f)
      (Parse.enterBreakRule rule >>= f') held' Q :=
  enterBreakRuleBehind hunbarred hon fun entered => (hf entered).pre fun _ _ _ h => h.1

/-- A rule comes into force in markup or math. -/
theorem enterBreakRuleOther {α β : Type} {f : Unit → Parse α} {f' : Unit → Parse β}
    {held' : α → List Nat} {Q : α → β → Parser → Parser → Prop} {rule : BreakRule}
    (hunbarred : fact → S.barred → scope.mode ≠ .markup) (hmode : scope.mode ≠ .code)
    (hf : ∀ entered, S.Twin closing fact held (S.At .past n 0 (scope.rule rule entered)) (f ())
      (f' ()) held' Q) :
    S.Twin closing fact held (S.At .past n 0 scope) (Parse.enterBreakRule rule >>= f)
      (Parse.enterBreakRule rule >>= f') held' Q where
  keeps := .bind (keeps_enterBreakRule rule) fun _ => (hf 0).keeps
  run hfact p p' b b' r r' hp h hrun hrun' := by
    obtain ⟨_, q, henter, hrest⟩ := bind_eq_ok hrun
    obtain ⟨_, q', henter', hrest'⟩ := bind_eq_ok hrun'
    cases henter
    cases henter'
    have hlater := (@keeps_enterBreakRule held rule p () _ hp.steady rfl).1
    exact (hf p.position).run hfact (hp.later hlater (Nat.le_refl _))
      (h.enterBreakRuleOther hS (hunbarred hfact) hmode rule) hrest hrest'

/-- The rule that came into force last is not in force any more. -/
theorem leaveLastRule {rule : BreakRule} {entered m : Nat} (hpast : stage.covers .past = true)
    (hle : fact → S.strict → n ≤ m) :
    S.Twin closing fact held (S.Near stage m ahead (scope.rule rule entered))
      Parse.leaveBreakRule Parse.leaveBreakRule (fun _ => held)
      fun _ _ => S.Near .past n 0 scope where
  keeps := keeps_leaveBreakRule
  run hfact p p' a a' q q' hp h hrun hrun' := by
    have hrules : p.breakRules = (rule, entered) :: scope.breakRules :=
      congrArg Scope.breakRules h.scope_eq
    have hlater := (@keeps_leaveBreakRule held p a q hp.steady hrun).1
    have h₀ := h.weaken hpast (hle hfact) (Nat.zero_le ahead)
    obtain ⟨own, hown, hpairs⟩ := h.breakRules
    obtain ⟨p₁, p₂, hget, hset⟩ := bind_eq_ok hrun
    obtain ⟨p₁', p₂', hget', hset'⟩ := bind_eq_ok hrun'
    cases hget
    cases hget'
    rw [hrules] at hpairs hset
    obtain ⟨first, rest, _, hrest, rfl⟩ := List.forall₂_cons_left_iff.1 hpairs
    rw [hown] at hset'
    cases hset
    cases hset'
    have hnot_first : ¬S.first p.stream.consumed p'.stream.consumed := fun hfirst => by
      have hzero := hS.first_zero hfirst
      have hlt : n < p.stream.consumed := h₀.stage (hS.strict_of_first hfirst)
      omega
    refine .inl ⟨?_, hp.later hlater (Nat.le_refl _)⟩
    exact { h₀ with
      breakRules := ⟨rest, rfl, hrest⟩
      entered_first := fun hfirst => absurd hfirst hnot_first
      scope_eq := congrArg (fun scope' => (⟨scope'.mode, scope'.modes, scope.breakRules⟩ : Scope))
        h.scope_eq
      stage := h₀.stage
      ahead := h₀.ahead }

theorem leaveBreakRule {rule : BreakRule} {entered : Nat} (hpast : stage.covers .past = true)
    (hmode : scope.mode = .code) (hle : fact → S.strict → n ≤ entered) :
    S.Twin closing fact held (S.At stage entered ahead (scope.rule rule entered))
      Parse.leaveBreakRule Parse.leaveBreakRule (fun _ => held)
      fun _ _ => S.At .past n 0 scope :=
  ((leaveLastRule hpast hle).pre fun _ _ _ h => h.toNear).post fun _ _ _ _ _ h => h.at_code hmode

end

end Twin

end Sides

end TypstFormat
