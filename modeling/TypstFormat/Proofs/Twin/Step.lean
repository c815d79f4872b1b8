import TypstFormat.Proofs.Twin.View

/-!
# What two parsers do

Two parsers at corresponding places stay so when both write the same event, report the same
diagnostic, consume the token that both see, or change the mode or the rule for line breaks. Only in
a strict comparison, changing the mode may also bring the comparison to its end. Consuming a token
does so where the token need not end at the corresponding place.

## Key results

- `Written.push`, `Written.set`, `Written.pop`: events
- `At.bumpAs`: consuming a token
- `At.report`: reporting a diagnostic
- `At.enterMode`, `At.leaveMode`, `At.enterBreakRule`, `At.leaveBreakRule`: modes and rules
-/

namespace TypstFormat

open TypstFormat.Parser

/-- The stream after a change of the mode that may be none. -/
theorem Stream.Steady.switch {s : Stream} (h : s.Steady) (mode : Mode) :
    Stream.Relexed s mode (if mode = s.mode then s else s.relex mode) := by
  split
  · rename_i hmode
    exact ⟨h, rfl, hmode.symm, rfl, rfl, rfl⟩
  · exact h.relex mode

namespace Sides

variable {S : Sides} {p p' : Parser} {stage : Stage} {n ahead : Nat} {scope : Scope}

/-! ## Events -/

namespace Written

variable {events events' : Array Event}

theorem push (h : S.Written events events') {event event' : Event} (hevent : S.Matches event event') :
    S.Written (events.push event) (events'.push event') := by
  refine ⟨?_, fun k hk => ?_, fun k e hk => ?_⟩
  · rw [Array.size_push, Array.size_push, h.size_eq]
    omega
  · have hsize := h.size_eq
    rw [Array.getElem?_push, if_neg (by omega)]
    exact h.front k hk
  · rw [Array.getElem?_push] at hk ⊢
    rw [h.size_eq]
    by_cases hlast : k = events.size
    · rw [if_pos hlast] at hk
      cases hk
      exact ⟨event', if_pos (by omega), hevent⟩
    · rw [if_neg hlast] at hk
      rw [if_neg (by omega)]
      exact h.own k e hk

theorem set (h : S.Written events events') (index : Nat) {event event' : Event}
    (hevent : S.Matches event event') :
    S.Written (events.setIfInBounds index event)
      (events'.setIfInBounds (S.shift + index) event') := by
  have hsize := h.size_eq
  refine ⟨?_, fun k hk => ?_, fun k e hk => ?_⟩
  · rw [Array.size_setIfInBounds, Array.size_setIfInBounds, hsize]
  · rw [Array.getElem?_setIfInBounds_ne (by omega)]
    exact h.front k hk
  · by_cases heq : index = k
    · subst heq
      rw [Array.getElem?_setIfInBounds_self] at hk ⊢
      by_cases hlt : index < events.size
      · rw [if_pos hlt] at hk
        cases hk
        exact ⟨event', if_pos (by omega), hevent⟩
      · rw [if_neg hlt] at hk
        cases hk
    · rw [Array.getElem?_setIfInBounds_ne heq] at hk
      rw [Array.getElem?_setIfInBounds_ne (by omega)]
      exact h.own k e hk

theorem pop (h : S.Written events events') (hne : 0 < events.size) :
    S.Written events.pop events'.pop := by
  have hsize := h.size_eq
  refine ⟨?_, fun k hk => ?_, fun k e hk => ?_⟩
  · rw [Array.size_pop, Array.size_pop, hsize]
    omega
  · rw [Array.getElem?_pop, if_pos (by omega)]
    exact h.front k hk
  · rw [Array.getElem?_pop] at hk ⊢
    by_cases hlt : k < events.size - 1
    · rw [if_pos hlt] at hk
      rw [if_pos (by omega)]
      exact h.own k e hk
    · rw [if_neg hlt] at hk
      cases hk

/-- The same start stands at corresponding places. -/
theorem start_eq (h : S.Written events events') {index : Nat} {kind kind' : Kind}
    {link link' : Option Int} (hleft : events[index]? = some (.start kind link))
    (hright : events'[S.shift + index]? = some (.start kind' link')) :
    kind' = kind ∧ link' = link := by
  obtain ⟨event', hevent, hmatch⟩ := h.own index _ hleft
  rw [hright] at hevent
  cases hevent
  cases hmatch
  exact ⟨rfl, rfl⟩

end Written

/-- Writing the same on both sides. -/
theorem At.write (h : S.At stage n ahead scope p p') {events events' : Array Event}
    (hwritten : S.Written events events') :
    S.At stage n ahead scope { p with events } { p' with events := events' } where
  steady := h.steady
  steady' := h.steady'
  source_eq := h.source_eq
  source_eq' := h.source_eq'
  mode_eq := h.mode_eq
  consumed := h.consumed
  settled := h.settled
  settled_first := h.settled_first
  found := h.found
  findings := h.findings
  events := hwritten
  modes_eq := h.modes_eq
  breakRules := h.breakRules
  entered_first := h.entered_first
  scope_eq := h.scope_eq
  stage := h.stage
  ahead := h.ahead
  clear := h.clear

/-! ## Stages -/

theorem Stage.Holds.come (hp : p.stream.Steady) (h : stage.Holds n p) : n ≤ p.position := by
  have hposition : p.stream.consumed ≤ p.position := hp.consumed_le_position
  cases stage with
  | come => exact h
  | on => exact h.1
  | past => exact Nat.le_trans (Nat.le_of_lt h) hposition
  | met => exact Nat.le_trans (Nat.le_of_lt h.1) hposition

theorem Stage.Holds.mono {stage' : Stage} {m : Nat} (hp : p.stream.Steady)
    (h : stage.Holds n p) (hcovers : stage.covers stage' = true) (hle : m ≤ n) :
    stage'.Holds m p := by
  cases stage' with
  | come => exact Nat.le_trans hle (h.come hp)
  | on => exact ⟨Nat.le_trans hle (h.come hp), h.on hcovers⟩
  | past => exact Nat.lt_of_le_of_lt hle (h.past hcovers)
  | met =>
    cases stage <;> cases hcovers
    exact ⟨Nat.lt_of_le_of_lt hle h.1, h.2⟩

theorem Stage.Holds.seen (h : stage.Holds n p) (hend : p.isAtEnd = false) :
    stage.seen.Holds n p := by
  cases stage with
  | come => exact ⟨h, hend⟩
  | on => exact h
  | past => exact ⟨h, hend⟩
  | met => exact h

theorem Stage.covers_self (stage : Stage) : stage.covers stage = true := by
  cases stage <;> rfl

@[simp] theorem Stage.seen_covers_on (stage : Stage) : stage.seen.covers .on = true := by
  cases stage <;> rfl

/-- Less may be known of how far the left parser has come. -/
theorem Near.weaken (h : S.Near stage n ahead scope p p') {stage' : Stage} {m ahead' : Nat}
    (hcovers : stage.covers stage' = true) (hle : S.strict → m ≤ n) (hahead : ahead' ≤ ahead) :
    S.Near stage' m ahead' scope p p' where
  toBeside := h.toBeside
  scope_eq := h.scope_eq
  stage hstrict := (h.stage hstrict).mono h.steady hcovers (hle hstrict)
  ahead hstrict i hi := h.ahead hstrict i (Nat.lt_of_lt_of_le hi hahead)

theorem At.weaken (h : S.At stage n ahead scope p p') {stage' : Stage} {m ahead' : Nat}
    (hcovers : stage.covers stage' = true) (hle : S.strict → m ≤ n) (hahead : ahead' ≤ ahead) :
    S.At stage' m ahead' scope p p' :=
  ⟨h.toNear.weaken hcovers hle hahead, h.clear⟩

/-- A parser that sees a token which can be consumed. -/
theorem At.seen (h : S.At stage n ahead scope p p') (hend : p.isAtEnd = false) :
    S.At stage.seen n ahead scope p p' where
  toBeside := h.toBeside
  scope_eq := h.scope_eq
  stage hstrict := (h.stage hstrict).seen hend
  ahead := h.ahead
  clear := h.clear

/-- Where a token can be consumed, the source does not end. -/
theorem At.ahead_one (h : S.At stage n 0 scope p p') (hend : S.strict → p.isAtEnd = false) :
    S.At stage n 1 scope p p' where
  toBeside := h.toBeside
  scope_eq := h.scope_eq
  stage := h.stage
  ahead hstrict i hi := by
    obtain rfl : i = 0 := by omega
    exact kind_ne_eof (hend hstrict)
  clear := h.clear

/-- What is known of the stage only matters in a strict comparison. -/
theorem At.of_not_strict (h : S.At stage n ahead scope p p') (hstrict : ¬S.strict)
    (stage' : Stage) (m ahead' : Nat) : S.At stage' m ahead' scope p p' where
  toBeside := h.toBeside
  scope_eq := h.scope_eq
  stage h := absurd h hstrict
  ahead h := absurd h hstrict
  clear h := absurd h hstrict

/-- What has to hold of a scope for the comparison to go on in it. -/
structure Follows (S : Sides) (closing : Bool) (scope : Scope) : Prop where
  closing : scope.mode ≠ .code → closing = true
  unbarred : S.barred → scope.mode ≠ .markup

theorem Follows.code {closing : Bool} (h : scope.mode = .code) : S.Follows closing scope :=
  ⟨fun hne => absurd h hne, fun _ hmarkup => by rw [h] at hmarkup; cases hmarkup⟩

variable {closing : Bool} {held : List Nat}

theorem At.same_of_ne_eof (hS : S.Lawful) (h : S.At stage n ahead scope p p')
    (hunbarred : S.barred → scope.mode ≠ .markup) (hkind : S.strict → p.stream.kind ≠ .eof) :
    S.Same p p' :=
  (h.view hS hunbarred).resolve_right fun hgap => hkind hgap.strict hgap.kind_eq

theorem At.same_of_on (hS : S.Lawful) (h : S.At stage n ahead scope p p')
    (hunbarred : S.barred → scope.mode ≠ .markup) (hon : stage.covers .on = true) : S.Same p p' :=
  h.same_of_ne_eof hS hunbarred fun hstrict => kind_ne_eof ((h.stage hstrict).on hon)

theorem At.same_of_ahead (hS : S.Lawful) (h : S.At stage n (ahead + 1) scope p p')
    (hunbarred : S.barred → scope.mode ≠ .markup) : S.Same p p' :=
  h.same_of_ne_eof hS hunbarred fun hstrict => h.ahead hstrict 0 (Nat.succ_pos _)

/-- Only code ends on the left where it goes on on the right. -/
theorem At.same_of_mode (hS : S.Lawful) (h : S.At stage n ahead scope p p')
    (hunbarred : S.barred → scope.mode ≠ .markup) (hmode : scope.mode ≠ .code) : S.Same p p' :=
  (h.view hS hunbarred).resolve_right fun hgap => hmode (h.mode_eq_scope ▸ hgap.mode_eq)

theorem At.same_of_not_strict (hS : S.Lawful) (h : S.At stage n ahead scope p p')
    (hunbarred : S.barred → scope.mode ≠ .markup) (hstrict : ¬S.strict) : S.Same p p' :=
  (h.view hS hunbarred).resolve_right fun hgap => hstrict hgap.strict

theorem Same.isAt_eq (h : S.Same p p') (kind : Kind) : p'.isAt kind = p.isAt kind := by
  unfold Parser.isAt
  rw [h.current_eq]

theorem Same.isAtAny_eq (h : S.Same p p') (kinds : List Kind) :
    p'.isAtAny kinds = p.isAtAny kinds := by
  unfold Parser.isAtAny
  rw [h.current_eq]

theorem Same.isAtEnd_eq (h : S.Same p p') : p'.isAtEnd = p.isAtEnd := by
  unfold Parser.isAtEnd
  rw [h.current_eq]

/-! ## Consuming a token -/

/-- What consuming a token does to a parser. -/
structure Consumed (p : Parser) (kind : Kind) (q : Parser) : Prop where
  bumped : Stream.Bumped p.stream q.stream
  events : q.events = p.events.push (.token kind p.range.stop)
  findings : q.findings = p.findings
  modes : q.modes = p.modes
  breakRules : q.breakRules = p.breakRules

theorem consumed_bumpAs (hp : p.stream.Steady) (hend : p.isAtEnd = false) (kind : Kind) :
    Consumed p kind (p.bumpAs kind) := by
  have hbump : p.bumpAs kind = { p with
      events := p.events.push (.token kind p.range.stop), stream := p.stream.bump } := by
    unfold Parser.bumpAs
    rw [hend]
    rfl
  rw [hbump]
  exact ⟨hp.bump (kind_ne_eof hend), rfl, rfl, rfl, rfl⟩

theorem bumpAs_of_isAtEnd (hend : p.isAtEnd = true) (kind : Kind) : p.bumpAs kind = p := by
  unfold Parser.bumpAs
  exact if_pos hend

/-- What lay ahead of the token consumed lies ahead of the next one. -/
theorem ahead_consumed (hend : p.isAtEnd = false) (kind : Kind)
    (hahead : ∀ i < ahead + 1, p.stream.nth i ≠ .eof) :
    ∀ i < ahead, (p.bumpAs kind).stream.nth i ≠ .eof := by
  have hstream : (p.bumpAs kind).stream = p.stream.bump := by
    unfold Parser.bumpAs
    rw [hend]
    rfl
  have hne : p.stream.kind ≠ .eof := kind_ne_eof hend
  rw [hstream]
  intro i hi
  have hone (h : 1 < ahead + 1) : p.stream.bump.kind ≠ .eof := by
    rw [← Stream.nth_one hne]
    exact hahead 1 h
  cases i with
  | zero => exact hone (by omega)
  | succ i =>
    rw [← Stream.nth_succ hne (hone (by omega))]
    exact hahead (i + 2) (by omega)

/-- The kinds of tokens that may end elsewhere on the right. -/
def endless : List Kind :=
  [.str, .raw, .escape, .eof, .text, .lineComment]

/-- Consuming the same token leads to corresponding places again, or the comparison comes to its
end. -/
theorem At.pass (hS : S.Lawful) (hunbarred : S.barred → scope.mode ≠ .markup)
    (h : S.At stage n (ahead + 1) scope p p') (hend : p.isAtEnd = false) {kind : Kind}
    (hkind : kind = p.stream.kind ∨ kind = .text) (hnew : p.events.size ∉ held)
    (hclosing : scope.mode ≠ .code → p.stream.kind ∈ endless → closing = true) :
    S.Near .past n ahead scope (p.bumpAs kind) (p'.bumpAs kind) ∨
      (p.stream.kind ∈ endless ∧ S.Broken closing held (p.bumpAs kind)) := by
  have hne := kind_ne_eof hend
  have hsame := h.same_of_ne_eof hS hunbarred fun _ => hne
  have hq := consumed_bumpAs h.steady hend kind
  have hq' := consumed_bumpAs h.steady' (hsame.isAtEnd_eq.trans hend) kind
  have hahead (hstrict : S.strict) := ahead_consumed hend kind (h.ahead hstrict)
  generalize p.bumpAs kind = q at hq hahead ⊢
  generalize p'.bumpAs kind = q' at hq' ⊢
  have hnot_eof : p.look.token.kind ≠ .eof := h.steady.kind_eq ▸ hne
  have hmode : p.stream.mode = scope.mode := h.mode_eq_scope
  have hlt : p.position < q.stream.consumed := by
    have hlt := h.steady.covers.start_lt_stop hnot_eof
    rw [hq.bumped.consumed]
    show p.stream.position < _
    rw [h.steady.position_eq]
    exact hlt
  have hsight := h.sight hS (by rw [hmode]; exact hunbarred)
  cases hsight with
  | agree halike hstop hpieces hfound _ =>
    have hplace : S.place q.stream.consumed q'.stream.consumed := by
      rw [hq.bumped.consumed, hq'.bumped.consumed]
      exact hstop
    have hnot_first : ¬S.first q.stream.consumed q'.stream.consumed := by
      intro hfirst
      have hzero := hS.first_zero hfirst
      omega
    have hsettled : S.Settled q.stream.settled q'.stream.settled := by
      rw [hq.bumped.settled, hq'.bumped.settled]
      intro hstays
      rcases h.consumed with hbefore | hfirst
      · obtain ⟨own, own', old, old', hown, hown', hpairs, hold⟩ :=
          h.settled hbefore fun piece hpiece => hstays piece (List.mem_append_right _ hpiece)
        have hpieces := hpieces hbefore fun piece hpiece =>
          hstays piece (List.mem_append_left _ (List.mem_reverse.2 hpiece))
        refine ⟨p.look.trivia.reverse ++ own, p'.look.trivia.reverse ++ own', old, old', ?_, ?_,
          ?_, hold⟩
        · rw [hown, List.append_assoc]
          rfl
        · rw [hown', List.append_assoc]
          rfl
        · exact List.rel_append (List.rel_reverse hpieces) hpairs
      · -- The trivia in front of the first token is different on the two sides.
        obtain ⟨hnil, hnil', hcode⟩ := h.settled_first hfirst
        have hold := hS.old_first hfirst
        have hlook := h.look_eq
        have hlook' := h.look_eq'
        rw [hcode] at hlook hlook'
        rw [← hlook, ← hlook'] at hold
        refine ⟨[], [], _, _, ?_, ?_, .nil, hold⟩
        · rw [hnil, List.append_nil]
          rfl
        · rw [hnil', List.append_nil]
          rfl
    refine .inl ⟨⟨hq.bumped.steady, hq'.bumped.steady, hq.bumped.source.trans h.source_eq,
      hq'.bumped.source.trans h.source_eq', ?_, .inl hplace, fun _ => hsettled,
      fun hfirst => absurd hfirst hnot_first, ?_, ?_, ?_, ?_, ?_,
      fun hfirst => absurd hfirst hnot_first⟩, ?_, ?_, hahead⟩
    · rw [hq.bumped.mode, hq'.bumped.mode]
      exact h.mode_eq
    · rw [hq.bumped.found, hq'.bumped.found]
      exact List.rel_append hfound h.found
    · rw [hq.findings, hq'.findings]
      exact h.findings
    · rw [hq.events, hq'.events]
      refine h.events.push (.token kind ?_)
      show S.place p.stream.current.range.stop p'.stream.current.range.stop
      rw [h.steady.current, h.steady'.current]
      exact hstop
    · rw [hq.modes, hq'.modes]
      exact h.modes_eq
    · rw [hq.breakRules, hq'.breakRules]
      exact h.breakRules
    · rw [← h.scope_eq]
      unfold Parser.scope
      rw [hq.bumped.mode, hq.modes, hq.breakRules]
    · intro hstrict
      exact Nat.lt_of_le_of_lt ((h.stage hstrict).come h.steady) hlt
  | ending hstrict _ hendless hcause =>
    have hendless : p.stream.kind ∈ endless := by
      rw [h.steady.kind_eq]
      exact List.mem_append_left [.text, .lineComment] hendless
    refine .inr ⟨hendless, hq.bumped.steady, hq.bumped.source.trans h.source_eq, ?_⟩
    rcases hcause with hfindings | ⟨hmode', hspent⟩
    · refine .finding (hS.clean_of_strict hstrict) (.inr ?_)
      rw [hq.bumped.found]
      exact fun hnil => hfindings (List.append_eq_nil_iff.1 hnil).1
    · refine .spent hstrict (hclosing (hmode ▸ hmode') hendless) ?_
      rw [hq.bumped.consumed]
      exact hspent
  | foreign _ _ hforeign habsent =>
    -- The token that is written is not found on the left in the end.
    have hseen : p.look.token.kind = p.stream.kind := h.steady.kind_eq.symm
    rw [hseen] at hforeign habsent
    have hendless : p.stream.kind ∈ endless :=
      List.mem_append_right [Kind.str, .raw, .escape, .eof] hforeign
    have hstop : p.look.token.range.stop = p.range.stop :=
      congrArg (·.range.stop) h.steady.current.symm
    refine .inr ⟨hendless, hq.bumped.steady, hq.bumped.source.trans h.source_eq, ?_⟩
    refine .event (k := p.events.size) hnew ?_ (hstop ▸ habsent kind hkind)
    rw [hq.events, Array.getElem?_push_size]
  | gap _ _ hkind' => exact absurd hkind' hnot_eof
  | lost _ _ hkind' => exact absurd hkind' hnot_eof
  | spent hstrict hmode' hspent => exact absurd hspent (h.clear hstrict (hmode ▸ hmode'))

/-- Where something waits to be closed, the end of the left source is the end of the comparison. -/
theorem Near.at_or_broken (h : S.Near stage n ahead scope p p')
    (hclosing : scope.mode ≠ .code → closing = true) :
    S.At stage n ahead scope p p' ∨ S.Broken closing held p := by
  by_cases hspent : S.strict ∧ scope.mode ≠ .code ∧ S.spent p.stream.consumed
  · obtain ⟨hstrict, hne, hspent⟩ := hspent
    exact .inr ⟨h.steady, h.source_eq, .spent hstrict (hclosing hne) hspent⟩
  · exact .inl ⟨h, fun hstrict hne hspent' => hspent ⟨hstrict, hne, hspent'⟩⟩

/-- In code, the comparison goes on. -/
theorem Near.at_code (h : S.Near stage n ahead scope p p') (hmode : scope.mode = .code) :
    S.At stage n ahead scope p p' :=
  ⟨h, fun _ hne => absurd hmode hne⟩

/-- Consuming the token that both see, if there is one. -/
theorem At.bumpAs (hS : S.Lawful) (hscope : S.Follows closing scope)
    (h : S.At stage n ahead scope p p') (hsame : S.Same p p') (hnew : p.events.size ∉ held)
    (hend : S.strict → p.isAtEnd = true → stage.covers .past = true) {kind : Kind}
    (hkind : kind = p.stream.kind ∨ kind = .text) :
    S.At .past n (ahead - 1) scope (p.bumpAs kind) (p'.bumpAs kind) ∨
      S.Broken closing held (p.bumpAs kind) := by
  cases hat : p.isAtEnd with
  | true =>
    rw [bumpAs_of_isAtEnd hat, bumpAs_of_isAtEnd (hsame.isAtEnd_eq.trans hat)]
    by_cases hstrict : S.strict
    · exact .inl (h.weaken (hend hstrict hat) (fun _ => Nat.le_refl n) (Nat.sub_le ahead 1))
    · exact .inl (h.of_not_strict hstrict _ _ _)
  | false =>
    have hclosing (hne : scope.mode ≠ .code) (_ : p.stream.kind ∈ endless) : closing = true :=
      hscope.closing hne
    have hpass : S.Near .past n (ahead - 1) scope (p.bumpAs kind) (p'.bumpAs kind) ∨
        (p.stream.kind ∈ endless ∧ S.Broken closing held (p.bumpAs kind)) := by
      cases ahead with
      | zero => exact (h.ahead_one fun _ => hat).pass hS hscope.unbarred hat hkind hnew hclosing
      | succ ahead => exact h.pass hS hscope.unbarred hat hkind hnew hclosing
    exact hpass.elim (fun h => h.at_or_broken hscope.closing) fun h => .inr h.2

/-! ## Diagnostics -/

/-- Of two diagnostics at one place only the first is reported, on both sides. -/
theorem At.report (hS : S.Lawful) (h : S.At stage n ahead scope p p') {d d' : Diagnostic}
    (hd : S.Finding d d') : S.At stage n ahead scope (p.report d) (p'.report d') := by
  have hlast : (p'.findings.head?.any fun last => last.range.start = d'.range.start) =
      p.findings.head?.any fun last => last.range.start = d.range.start := by
    have hall := h.findings
    cases hfindings : p.findings with
    | nil =>
      rw [hfindings] at hall
      rw [List.forall₂_nil_left_iff.1 hall]
      rfl
    | cons last rest =>
      rw [hfindings] at hall
      obtain ⟨last', rest', hfirst, _, hright⟩ := List.forall₂_cons_left_iff.1 hall
      rw [hright]
      show decide _ = decide _
      exact decide_eq_decide.2 (hS.place_iff hfirst.start hd.start).symm
  unfold Parser.report
  rw [hlast]
  split
  · exact h
  · exact { h with findings := .cons hd h.findings }

/-- In a clean comparison, a diagnostic is the end. -/
theorem broken_report (hp : p.stream.Steady) (hsource : p.source = S.left) (hclean : S.clean)
    (d : Diagnostic) : S.Broken closing held (p.report d) := by
  have hstream : (p.report d).stream = p.stream := by
    unfold Parser.report
    split <;> rfl
  refine ⟨?_, ?_, .finding hclean (.inl (findings_report_ne_nil p d))⟩
  · rw [hstream]
    exact hp
  · show (p.report d).stream.source = _
    rw [hstream]
    exact hsource

/-! ## Modes -/

/-- Changing the mode leads to corresponding places again. -/
theorem Near.switch (hS : S.Lawful) (h : S.Near .past n 0 scope p p') {mode : Mode}
    {modes modes' : List Mode} (hmodes : modes' = modes ++ S.modes) :
    S.Near .past n 0 ⟨mode, modes, scope.breakRules⟩
      { p with
        modes
        stream := if mode = p.stream.mode then p.stream else p.stream.relex mode }
      { p' with
        modes := modes'
        stream := if mode = p'.stream.mode then p'.stream else p'.stream.relex mode } := by
  have hplace := h.place_consumed hS rfl
  have hs := h.steady.switch mode
  have hs' := h.steady'.switch mode
  generalize (if mode = p.stream.mode then p.stream else p.stream.relex mode) = s at hs ⊢
  generalize (if mode = p'.stream.mode then p'.stream else p'.stream.relex mode) = s' at hs' ⊢
  rw [← hs.consumed, ← hs'.consumed] at hplace
  have hnot_first : ¬S.first s.consumed s'.consumed := by
    intro hfirst
    have hzero := hS.first_zero hfirst
    rw [hs.consumed] at hzero
    have hlt : n < p.stream.consumed := h.stage (hS.strict_of_first hfirst)
    omega
  refine ⟨⟨hs.steady, hs'.steady, hs.source.trans h.source_eq, hs'.source.trans h.source_eq', ?_,
    .inl hplace, ?_, fun hfirst => absurd hfirst hnot_first, ?_, h.findings, h.events, hmodes,
    h.breakRules, fun hfirst => absurd hfirst hnot_first⟩, ?_, ?_, ?_⟩
  · rw [hs.mode, hs'.mode]
  · rw [hs.settled, hs'.settled]
    exact fun _ => h.settled (h.place_consumed hS rfl)
  · rw [hs.found, hs'.found]
    exact h.found
  · have hrules : p.breakRules = scope.breakRules := by
      rw [← h.scope_eq]
      rfl
    show Scope.mk _ _ p.breakRules = _
    rw [hs.mode, hrules]
  · intro hstrict
    show n < s.consumed
    rw [hs.consumed]
    exact h.stage hstrict
  · exact fun _ i hi => absurd hi (Nat.not_lt_zero i)

theorem At.enterMode (hS : S.Lawful) (h : S.At .past n 0 scope p p') {mode : Mode}
    (hclosing : mode ≠ .code → closing = true) :
    S.At .past n 0 (scope.enter mode) (p.enterMode mode) (p'.enterMode mode) ∨
      S.Broken closing held (p.enterMode mode) := by
  have hmodes : p'.stream.mode :: p'.modes = (p.stream.mode :: p.modes) ++ S.modes := by
    rw [h.mode_eq, h.modes_eq]
    rfl
  have hscope : scope.enter mode = ⟨mode, p.stream.mode :: p.modes, scope.breakRules⟩ := by
    rw [← h.scope_eq]
    rfl
  rw [hscope]
  exact (h.switch hS hmodes).at_or_broken hclosing

theorem Beside.enterBreakRule (h : S.Beside p p') (hposition : S.place p.position p'.position)
    (rule : BreakRule) : S.Beside (p.enterBreakRule rule) (p'.enterBreakRule rule) := by
  obtain ⟨own, hown, hrules⟩ := h.breakRules
  have hright : (p'.enterBreakRule rule).breakRules = ((rule, p'.position) :: own) ++ S.breakRules :=
    congrArg ((rule, p'.position) :: ·) hown
  exact { h with
    breakRules := ⟨_, hright, .cons ⟨rfl, hposition⟩ hrules⟩
    entered_first := fun hfirst rule' hmem => by
      rcases List.mem_cons.1 hmem with rfl | hmem
      · rfl
      · exact h.entered_first hfirst rule' hmem }

/-- A rule comes into force where a token can be consumed. -/
theorem At.enterBreakRule (hS : S.Lawful) (h : S.At stage n ahead scope p p')
    (hunbarred : S.barred → scope.mode ≠ .markup) (hon : stage.covers .on = true) (rule : BreakRule) :
    S.At .on p.position 0 (scope.rule rule p.position) (p.enterBreakRule rule)
      (p'.enterBreakRule rule) where
  toBeside := h.toBeside.enterBreakRule (h.same_of_on hS hunbarred hon).position rule
  scope_eq := by
    rw [← h.scope_eq]
    rfl
  stage hstrict := by
    have hend := isAtEnd_eq_false.1 ((h.stage hstrict).on hon)
    refine ⟨Nat.le_refl _, ?_⟩
    rw [isAtEnd_eq_false, current_enterBreakRule, kind_eq_current hend.1]
    exact hend
  ahead _ i hi := absurd hi (Nat.not_lt_zero i)
  clear := h.clear

/-- A rule comes into force in markup or math. -/
theorem At.enterBreakRuleOther (hS : S.Lawful) (h : S.At .past n 0 scope p p')
    (hunbarred : S.barred → scope.mode ≠ .markup) (hmode : scope.mode ≠ .code) (rule : BreakRule) :
    S.At .past n 0 (scope.rule rule p.position) (p.enterBreakRule rule)
      (p'.enterBreakRule rule) where
  toBeside := h.toBeside.enterBreakRule (h.same_of_mode hS hunbarred hmode).position rule
  scope_eq := by
    rw [← h.scope_eq]
    rfl
  stage := h.stage
  ahead := h.ahead
  clear := h.clear

end Sides

end TypstFormat
