import TypstFormat.Proofs.Grammar.Action
import TypstFormat.Proofs.Twin.Sides

/-!
# What two parsers at corresponding places see

The rules of the grammar decide by what they see. Two parsers that are at corresponding places see
the same (`Same`), with one exception: in a strict comparison the code may end on the left where a
block ends on the right (`Gap`). The tokens by which the rules decide tell these two apart in
few places only, so that most questions have the same answer in any case.

## Key results

- `At.view`: what two parsers see
- `At.isAt_eq`, `At.isAtAny_eq`, `At.isAtTerminator_eq`: questions with the same answer
- `At.isAtEnd_eq`: whether code ends, where a rule for line breaks is in force
-/

namespace TypstFormat

open TypstFormat.Parser

/-- The kinds that are seen where the code ends on one of the sides. -/
def Kind.closesCode (kind : Kind) : Bool :=
  kind = .eof || kind = .breakEnd || kind = .rightBrace

/-- The end of code at a line break is no token of the source. -/
theorem Stream.Steady.kind_ne_breakEnd {s : Stream} (h : s.Steady) :
    s.kind ≠ .breakEnd := by
  rw [h.kind_eq]
  intro hkind
  have hlexical := h.covers.isLexical (by rw [hkind]; simp)
  rw [hkind] at hlexical
  cases hlexical

namespace Sides

variable {S : Sides} {p p' : Parser} {stage : Stage} {n ahead : Nat} {scope : Scope}

namespace Lawful

theorem place_iff (hS : S.Lawful) {a a' b b' : Nat} (ha : S.place a a') (hb : S.place b b') :
    a = b ↔ a' = b' := by
  have h₁ := hS.place_lt ha hb
  have h₂ := hS.place_lt hb ha
  omega

end Lawful

/-- Two parsers see the same token. -/
structure Same (S : Sides) (p p' : Parser) : Prop where
  kind_eq : p'.stream.kind = p.stream.kind
  current_eq : p'.current = p.current
  position : S.place p.position p'.position
  afterTrivia_eq : S.place p.stream.consumed p'.stream.consumed →
    p'.stream.afterTrivia = p.stream.afterTrivia

/-- The code ends on the left, and on the right the block of code, or there is nothing left. -/
structure Gap (S : Sides) (p p' : Parser) : Prop where
  strict : S.strict
  mode_eq : p.stream.mode = .code
  kind_eq : p.stream.kind = .eof
  right : (p'.stream.kind = .rightBrace ∧ p'.stream.afterLineBreak = true) ∨ p'.stream.kind = .eof

theorem Beside.look_eq (h : S.Beside p p') :
    p.look = TypstFormat.look S.left p.stream.mode p.stream.consumed := by
  rw [← h.source_eq]
  rfl

theorem Beside.look_eq' (h : S.Beside p p') :
    p'.look = TypstFormat.look S.right p.stream.mode p'.stream.consumed := by
  rw [← h.source_eq', ← h.mode_eq]
  rfl

theorem Beside.sight (hS : S.Lawful) (h : S.Beside p p')
    (hbarred : S.barred → p.stream.mode ≠ .markup) :
    S.Sight p.stream.mode p.stream.consumed p'.stream.consumed p.look p'.look := by
  rw [h.look_eq, h.look_eq']
  refine hS.sight hbarred h.consumed (fun hfirst => (h.settled_first hfirst).2.2) ?_ ?_
  · rw [← h.source_eq]
    exact h.steady.consumed_le
  · rw [← h.source_eq']
    exact h.steady'.consumed_le

theorem Near.mode_eq_scope (h : S.Near stage n ahead scope p p') : p.stream.mode = scope.mode := by
  rw [← h.scope_eq]
  rfl

theorem Stage.Holds.past (h : stage.Holds n p) (hpast : stage.covers .past = true) :
    n < p.stream.consumed := by
  cases stage with
  | past => exact h
  | met => exact h.1
  | come => cases hpast
  | on => cases hpast

theorem Stage.Holds.on (h : stage.Holds n p) (hon : stage.covers .on = true) :
    p.isAtEnd = false := by
  cases stage with
  | on => exact h.2
  | met => exact h.2
  | come => cases hon
  | past => cases hon

/-- A parser that has passed an offset has consumed the first token. -/
theorem Near.place_consumed (hS : S.Lawful) (h : S.Near stage n ahead scope p p')
    (hpast : stage.covers .past = true) : S.place p.stream.consumed p'.stream.consumed := by
  refine h.consumed.resolve_right fun hfirst => ?_
  have hzero := hS.first_zero hfirst
  have hlt : n < p.stream.consumed := (h.stage (hS.strict_of_first hfirst)).past hpast
  omega

/-- The same rule is in force on both sides, and hides the same tokens. -/
theorem Beside.current_eq (hS : S.Lawful) (h : S.Beside p p')
    (hkind : p'.stream.kind = p.stream.kind) (hposition : S.place p.position p'.position)
    (hbreak : S.place p.stream.consumed p'.stream.consumed →
      p'.stream.afterLineBreak = p.stream.afterLineBreak) :
    p'.current = p.current := by
  obtain ⟨own, hrules, hown⟩ := h.breakRules
  unfold current
  cases hleft : p.breakRules with
  | nil =>
    rw [hleft] at hown
    cases hown
    rw [hrules, List.nil_append]
    cases hfront : S.breakRules with
    | nil => exact hkind
    | cons rule rules =>
      obtain ⟨rule, entered⟩ := rule
      obtain rfl : rule = .ignored := hS.breakRules (rule, entered) (by rw [hfront]; rfl)
      simp only
      split <;> exact hkind
  | cons rule rules =>
    obtain ⟨rule, entered⟩ := rule
    rw [hleft] at hown
    cases hown with
    | cons hrule _ =>
      rename_i rule' rules' _
      obtain ⟨rule', entered'⟩ := rule'
      obtain ⟨hsame, hentered⟩ := hrule
      simp only at hsame
      subst hsame
      rw [hrules]
      simp only [List.cons_append]
      have hiff := hS.place_iff hposition hentered
      rcases h.consumed with hplace | hfirst
      · rw [hbreak hplace, hkind]
        have hcond : (p.stream.afterLineBreak = true ∧ p'.stream.position ≠ entered') ↔
            (p.stream.afterLineBreak = true ∧ p.stream.position ≠ entered) :=
          and_congr_right fun _ => not_congr hiff.symm
        simp only [hcond]
      · -- In front of the first token, all rules came into force where the parsers still are.
        have hposition : entered = p.position :=
          h.entered_first hfirst (rule', entered) (by rw [hleft]; exact List.mem_cons_self)
        have hposition' : p'.position = entered' := hiff.1 hposition.symm
        rw [if_neg fun hcond => hcond.2 hposition', if_neg fun hcond => hcond.2 hposition.symm]
        exact hkind

/-- What two parsers see. -/
theorem At.view (hS : S.Lawful) (h : S.At stage n ahead scope p p')
    (hbarred : S.barred → scope.mode ≠ .markup) : S.Same p p' ∨ S.Gap p p' := by
  have hmode := h.mode_eq_scope
  have hsight := h.sight hS (by rw [hmode]; exact hbarred)
  have hsame (halike : S.Alike p.stream.consumed p'.stream.consumed p.look p'.look) :
      S.Same p p' := by
    have hkind : p'.stream.kind = p.stream.kind := by
      rw [h.steady'.kind_eq, h.steady.kind_eq]
      exact halike.kind
    have hposition : S.place p.position p'.position := by
      show S.place p.stream.position p'.stream.position
      rw [h.steady.position_eq, h.steady'.position_eq]
      exact halike.start
    refine ⟨hkind, h.current_eq hS hkind hposition fun hplace => ?_, hposition, fun hplace => ?_⟩
    · rw [h.steady.afterLineBreak, h.steady'.afterLineBreak]
      exact halike.afterLineBreak hplace
    · rw [h.steady.afterTrivia, h.steady'.afterTrivia]
      exact congrArg (!·) (halike.afterTrivia hplace)
  cases hsight with
  | agree halike => exact .inl (hsame halike)
  | ending _ halike => exact .inl (hsame halike)
  | foreign _ halike => exact .inl (hsame halike)
  | gap hstrict hcode hkind hkind' hbreak =>
    exact .inr ⟨hstrict, hcode, h.steady.kind_eq.trans hkind,
      .inl ⟨h.steady'.kind_eq.trans hkind', h.steady'.afterLineBreak.trans hbreak⟩⟩
  | lost hstrict hcode hkind hkind' =>
    exact .inr ⟨hstrict, hcode, h.steady.kind_eq.trans hkind,
      .inr (h.steady'.kind_eq.trans hkind')⟩
  | spent hstrict hcode hspent => exact absurd hspent (h.clear hstrict (hmode ▸ hcode))

/-- Where nothing is left, the code ends under every rule for line breaks. -/
theorem isAtEnd_of_eof {p : Parser} (h : p.stream.kind = .eof) : p.isAtEnd = true := by
  unfold Parser.isAtEnd
  rcases Parser.current_eq p with hcurrent | hcurrent <;> rw [hcurrent]
  · rw [h]
    rfl
  · rfl

namespace Gap

theorem closesCode (h : S.Gap p p') : p.current.closesCode = true := by
  rcases Parser.current_eq p with hcurrent | hcurrent <;> rw [hcurrent]
  · rw [h.kind_eq]
    rfl
  · rfl

theorem closesCode' (h : S.Gap p p') : p'.current.closesCode = true := by
  rcases Parser.current_eq p' with hcurrent | hcurrent <;> rw [hcurrent]
  · rcases h.right with ⟨hkind, _⟩ | hkind <;> rw [hkind] <;> rfl
  · rfl

/-- The left one has come to the end. -/
theorem isAtEnd (h : S.Gap p p') : p.isAtEnd = true :=
  isAtEnd_of_eof h.kind_eq

end Gap

/-! ## Questions with the same answer -/

/-- A kind that is not one of those that are seen at an end. -/
theorem isAt_eq_false_of_closesCode {kind : Kind} (hkind : kind.closesCode = false)
    (h : p.current.closesCode = true) : p.isAt kind = false := by
  unfold isAt
  refine decide_eq_false fun heq => ?_
  rw [heq, hkind] at h
  cases h

theorem At.same_of_isAt (hS : S.Lawful) (h : S.At stage n ahead scope p p')
    (hbarred : S.barred → scope.mode ≠ .markup) {kind : Kind} (hkind : kind.closesCode = false)
    (hat : p.isAt kind = true) : S.Same p p' := by
  refine (h.view hS hbarred).resolve_right fun hgap => ?_
  rw [isAt_eq_false_of_closesCode hkind hgap.closesCode] at hat
  cases hat

theorem At.isAt_eq (hS : S.Lawful) (h : S.At stage n ahead scope p p')
    (hbarred : S.barred → scope.mode ≠ .markup) {kind : Kind} (hkind : kind.closesCode = false) :
    p'.isAt kind = p.isAt kind := by
  rcases h.view hS hbarred with hsame | hgap
  · unfold isAt
    rw [hsame.current_eq]
  · rw [isAt_eq_false_of_closesCode hkind hgap.closesCode,
      isAt_eq_false_of_closesCode hkind hgap.closesCode']

theorem At.isAtAny_eq (hS : S.Lawful) (h : S.At stage n ahead scope p p')
    (hbarred : S.barred → scope.mode ≠ .markup) {kinds : List Kind}
    (hkinds : ∀ kind ∈ kinds, kind.closesCode = false) :
    p'.isAtAny kinds = p.isAtAny kinds := by
  have hany (q : Parser) : q.isAtAny kinds = kinds.any q.isAt := by
    unfold isAtAny isAt
    rw [List.contains_eq_any_beq]
    rfl
  rw [hany, hany, Bool.eq_iff_iff, List.any_eq_true, List.any_eq_true]
  refine exists_congr fun kind => and_congr_right fun hmem => ?_
  rw [h.isAt_eq hS hbarred (hkinds kind hmem)]

theorem At.isAtTerminator_eq (hS : S.Lawful) (h : S.At stage n ahead scope p p')
    (hbarred : S.barred → scope.mode ≠ .markup) : p'.isAtTerminator = p.isAtTerminator := by
  have hall {q : Parser} (hclose : q.current.closesCode = true) : q.isAtTerminator = true := by
    unfold isAtTerminator isAt
    generalize q.current = kind at hclose
    simp only [Kind.closesCode, Bool.or_eq_true, decide_eq_true_eq] at hclose
    rcases hclose with (rfl | rfl) | rfl <;> rfl
  rcases h.view hS hbarred with hsame | hgap
  · unfold isAtTerminator isAt
    rw [hsame.current_eq]
  · rw [hall hgap.closesCode, hall hgap.closesCode']

/-- Whether nothing sets off the current token from the last one. -/
theorem At.isDirectlyAt_eq (hS : S.Lawful) (h : S.At stage n ahead scope p p')
    (hbarred : S.barred → scope.mode ≠ .markup) (hpast : stage.covers .past = true) {kind : Kind}
    (hkind : kind.closesCode = false) : p'.isDirectlyAt kind = p.isDirectlyAt kind := by
  unfold isDirectlyAt
  rw [h.isAt_eq hS hbarred hkind]
  cases hat : p.isAt kind with
  | false => rfl
  | true =>
    have hsame := h.same_of_isAt hS hbarred hkind hat
    rw [hsame.afterTrivia_eq (h.place_consumed hS hpast)]

/-- Where a rule came into force that ends code at line breaks, and the parser has moved on since, both
sides see the same of the end of the code. -/
theorem At.isAtEnd_eq (hS : S.Lawful) {scope : Scope} {rule : BreakRule} {entered : Nat}
    {rules : List (BreakRule × Nat)} (h : S.At stage n ahead scope p p')
    (hbarred : S.barred → scope.mode ≠ .markup)
    (hrules : scope.breakRules = (rule, entered) :: rules) (hrule : rule ≠ .ignored)
    (hpast : stage.covers .past = true) (hentered : S.strict → entered ≤ n) :
    p'.isAtEnd = p.isAtEnd := by
  rcases h.view hS hbarred with hsame | hgap
  · unfold Parser.isAtEnd
    rw [hsame.current_eq]
  · rw [hgap.isAtEnd]
    rcases hgap.right with ⟨hkind', hbreak'⟩ | heof
    swap
    · exact isAtEnd_of_eof heof
    have hleft : p.breakRules = (rule, entered) :: rules := by
      rw [← hrules, ← h.scope_eq]
      rfl
    obtain ⟨own, hright, hown⟩ := h.breakRules
    rw [hleft] at hown
    cases hown with
    | cons hfirst _ =>
      rename_i first rest _
      obtain ⟨rule', entered'⟩ := first
      obtain ⟨hsame, hplace⟩ := hfirst
      simp only at hsame
      subst hsame
      -- The right parser has moved as well, so that the rule applies to the closing brace.
      have hstage := (h.stage hgap.strict).past hpast
      have hlt : entered < p.stream.consumed := Nat.lt_of_le_of_lt (hentered hgap.strict) hstage
      have hlt' := (hS.place_lt hplace (h.place_consumed hS hpast)).1 hlt
      have hposition := h.steady'.consumed_le_position
      have hne : p'.stream.position ≠ entered' := by omega
      have hcurrent : p'.current = .breakEnd := by
        unfold current
        rw [hright]
        simp only [List.cons_append]
        rw [if_pos ⟨hbreak', hne⟩]
        cases rule' with
        | ends => rfl
        | endsUnlessContinued =>
          rw [hkind']
          rfl
        | ignored => exact absurd rfl hrule
      unfold Parser.isAtEnd
      rw [hcurrent]
      rfl

end Sides

end TypstFormat
