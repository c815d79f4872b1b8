import TypstFormat.Proofs.Twin.Rules

/-!
# What two parsers see further ahead

Besides the current token, the grammar looks at one or two tokens behind it in a few places. Behind a
token that cannot lack its end, two parsers at corresponding places see the same there as well, and
no rule for line breaks hides it.

## Key results

- `At.beyond`: what lies behind the current token is at corresponding places
- `Twin.isAtThen`: two tokens in a row
-/

namespace TypstFormat

open Parse TypstFormat.Parser

/-- A kind of tokens that neither end code nor lack their own end. -/
def Kind.isPlain (kind : Kind) : Bool :=
  !kind.closesCode && !Sides.endless.contains kind

theorem Kind.closesCode_of_isPlain {kind : Kind} (h : kind.isPlain = true) :
    kind.closesCode = false := by
  simpa using (Bool.and_eq_true_iff.1 h).1

theorem Kind.not_endless_of_isPlain {kind : Kind} (h : kind.isPlain = true) :
    kind ∉ Sides.endless := by
  simpa using (Bool.and_eq_true_iff.1 h).2

/-- The scope without its rules for line breaks. -/
def Scope.bare (scope : Scope) : Scope :=
  { scope with breakRules := [] }

namespace Sides

variable {S : Sides} {p p' : Parser} {stage : Stage} {n ahead : Nat} {scope : Scope}

/-- Rules for line breaks do not change where parsers are. -/
theorem At.bare (h : S.At stage n ahead scope p p') :
    S.At .come n ahead scope.bare { p with breakRules := [] }
      { p' with breakRules := S.breakRules } :=
  { h with
    breakRules := ⟨[], rfl, .nil⟩
    entered_first := fun _ _ hmem => absurd hmem List.not_mem_nil
    scope_eq := congrArg Scope.bare h.scope_eq
    stage := fun hstrict => Stage.Holds.come (p := p) h.steady (h.stage hstrict)
    ahead := h.ahead }

theorem isAtEnd_bare (hp : p.stream.Steady) (hkind : p.stream.kind ≠ .eof) :
    ({ p with breakRules := [] } : Parser).isAtEnd = false :=
  isAtEnd_eq_false.2 ⟨hp.kind_ne_breakEnd, hkind⟩

theorem stream_bumpAs (h : p.isAtEnd = false) (kind : Kind) :
    (p.bumpAs kind).stream = p.stream.bump := by
  simp [bumpAs, h]

/-- Behind the current token, the parsers are at corresponding places. -/
theorem At.beyond (hS : S.Lawful) (hmode : scope.mode = .code)
    (h : S.At stage n ahead scope p p') (hkind : p.stream.kind ∉ endless) :
    ∃ q q', q.stream = p.stream.bump ∧ q'.stream = p'.stream.bump ∧
      S.At .past n 0 scope.bare q q' := by
  have hne : p.stream.kind ≠ .eof := fun heof => hkind (heof ▸ by simp [endless])
  have hcode : scope.bare.mode = .code := hmode
  have hend := isAtEnd_bare h.steady hne
  have hbare : S.At .come n 0 scope.bare _ _ :=
    h.bare.weaken rfl (fun _ => Nat.le_refl n) (Nat.zero_le ahead)
  have hend' := (hbare.same_of_ne_eof hS (unbarred_code hcode trivial) fun _ => hne).isAtEnd_eq
  have hpass : S.Near .past n 0 scope.bare _ _ :=
    ((hbare.ahead_one fun _ => hend).pass hS (unbarred_code hcode trivial) hend (.inr rfl)
      List.not_mem_nil fun hother => absurd hcode hother).resolve_right
      fun h : _ ∧ S.Broken true [] _ => hkind h.1
  exact ⟨_, _, stream_bumpAs hend _, stream_bumpAs (hend'.trans hend) _, hpass.at_code hcode⟩

/-- Two parsers stand in front of a token of a kind together. -/
theorem At.kind_iff (hS : S.Lawful) (hmode : scope.mode = .code)
    (h : S.At stage n ahead scope p p') {kind : Kind} (hkind : kind.closesCode = false) :
    p'.stream.kind = kind ↔ p.stream.kind = kind := by
  rcases h.view hS (unbarred_code hmode trivial) with hsame | hgap
  · rw [hsame.kind_eq]
  · rw [hgap.kind_eq]
    rcases hgap.right with ⟨hkind', _⟩ | hkind'
    · rw [hkind']
      constructor <;> rintro rfl <;> cases hkind
    · rw [hkind']

/-- Neither side is at its end in front of a token that cannot lack its end. -/
theorem At.ne_eof (hS : S.Lawful) (hmode : scope.mode = .code)
    (h : S.At stage n ahead scope p p') (hplain : p.stream.kind ∉ endless) :
    p.stream.kind ≠ .eof ∧ p'.stream.kind ≠ .eof := by
  have hne : p.stream.kind ≠ .eof := fun heof => hplain (heof ▸ by simp [endless])
  rw [(h.same_of_ne_eof hS (unbarred_code hmode trivial) fun _ => hne).kind_eq]
  exact ⟨hne, hne⟩

/-- The next token is of a kind on both sides. -/
theorem At.nth_one_iff (hS : S.Lawful) (hmode : scope.mode = .code)
    (h : S.At stage n ahead scope p p') (hplain : p.stream.kind ∉ endless) {kind : Kind}
    (hkind : kind.closesCode = false) : p'.stream.nth 1 = kind ↔ p.stream.nth 1 = kind := by
  obtain ⟨hne, hne'⟩ := h.ne_eof hS hmode hplain
  obtain ⟨q, q', hq, hq', hnext⟩ := h.beyond hS hmode hplain
  have hcode : scope.bare.mode = .code := hmode
  rw [Stream.nth_one hne, Stream.nth_one hne', ← hq, ← hq']
  exact hnext.kind_iff hS hcode hkind

theorem At.nth_two_iff (hS : S.Lawful) (hmode : scope.mode = .code)
    (h : S.At stage n ahead scope p p') (hplain : p.stream.kind ∉ endless)
    (hnext : p.stream.nth 1 ∉ endless) {kind : Kind} (hkind : kind.closesCode = false) :
    p'.stream.nth 2 = kind ↔ p.stream.nth 2 = kind := by
  obtain ⟨hne, hne'⟩ := h.ne_eof hS hmode hplain
  obtain ⟨q, q', hq, hq', hat⟩ := h.beyond hS hmode hplain
  have hcode : scope.bare.mode = .code := hmode
  rw [Stream.nth_one hne, ← hq] at hnext
  obtain ⟨hqne, hqne'⟩ := hat.ne_eof hS hcode hnext
  rw [Stream.nth_succ hne (hq ▸ hqne), Stream.nth_succ hne' (hq' ▸ hqne'), ← hq, ← hq']
  exact hat.nth_one_iff hS hcode hnext hkind

/-- Nothing sets off the next token, which is of a kind, on both sides. -/
theorem At.nthDirectly_one_eq (hS : S.Lawful) (hmode : scope.mode = .code)
    (h : S.At stage n ahead scope p p') (hplain : p.stream.kind ∉ endless) {kind : Kind}
    (hkind : kind.closesCode = false) : p'.nthDirectly 1 kind = p.nthDirectly 1 kind := by
  obtain ⟨hne, hne'⟩ := h.ne_eof hS hmode hplain
  obtain ⟨q, q', hq, hq', hat⟩ := h.beyond hS hmode hplain
  have hcode : scope.bare.mode = .code := hmode
  have hiff := hat.kind_iff hS hcode hkind
  unfold Parser.nthDirectly
  rw [Stream.lookahead_one hne, Stream.lookahead_one hne', ← hq, ← hq']
  show (decide (q'.stream.kind = kind) && !q'.stream.afterTrivia) =
    (decide (q.stream.kind = kind) && !q.stream.afterTrivia)
  by_cases heq : q.stream.kind = kind
  · rw [hiff.2 heq, heq]
    have hsame := hat.same_of_ne_eof hS (unbarred_code hcode trivial) fun _ heof => by
      rw [heq] at heof
      rw [heof] at hkind
      cases hkind
    rw [hsame.afterTrivia_eq (hat.place_consumed hS rfl)]
  · rw [decide_eq_false heq, decide_eq_false (mt hiff.1 heq)]
    rfl

/-! ## Several tokens in a row -/

theorem kind_of_isAt {kind : Kind} (hkind : kind.closesCode = false) (h : p.isAt kind = true) :
    p.stream.kind = kind := by
  rw [← isAt_iff.1 h]
  refine kind_eq_current fun hbreak => ?_
  rw [isAt_iff.1 h] at hbreak
  rw [hbreak] at hkind
  cases hkind

theorem At.isAtThen_eq (hS : S.Lawful) (hmode : scope.mode = .code)
    (h : S.At stage n ahead scope p p') {kind next : Kind} (hkind : kind.isPlain = true)
    (hnext : next.closesCode = false) :
    (p'.isAt kind && decide (p'.stream.nth 1 = next)) =
      (p.isAt kind && decide (p.stream.nth 1 = next)) := by
  rw [h.isAt_eq hS (unbarred_code hmode trivial) (Kind.closesCode_of_isPlain hkind)]
  cases hat : p.isAt kind with
  | false => rfl
  | true =>
    have hcurrent := kind_of_isAt (Kind.closesCode_of_isPlain hkind) hat
    have hplain : p.stream.kind ∉ endless := hcurrent ▸ Kind.not_endless_of_isPlain hkind
    rw [Bool.true_and, Bool.true_and, decide_eq_decide]
    exact h.nth_one_iff hS hmode hplain hnext

theorem At.isAtThenThen_eq (hS : S.Lawful) (hmode : scope.mode = .code)
    (h : S.At stage n ahead scope p p') {kind next last : Kind} (hkind : kind.isPlain = true)
    (hnext : next.isPlain = true) (hlast : last.closesCode = false) :
    (p'.isAt kind && decide (p'.stream.nth 1 = next) && decide (p'.stream.nth 2 = last)) =
      (p.isAt kind && decide (p.stream.nth 1 = next) && decide (p.stream.nth 2 = last)) := by
  rw [h.isAtThen_eq hS hmode hkind (Kind.closesCode_of_isPlain hnext)]
  cases hat : p.isAt kind && decide (p.stream.nth 1 = next) with
  | false => rfl
  | true =>
    obtain ⟨hat, hthen⟩ := Bool.and_eq_true_iff.1 hat
    have hcurrent := kind_of_isAt (Kind.closesCode_of_isPlain hkind) hat
    have hplain : p.stream.kind ∉ endless := hcurrent ▸ Kind.not_endless_of_isPlain hkind
    have hplain' : p.stream.nth 1 ∉ endless :=
      of_decide_eq_true hthen ▸ Kind.not_endless_of_isPlain hnext
    rw [Bool.true_and, Bool.true_and, decide_eq_decide]
    exact h.nth_two_iff hS hmode hplain hplain' hlast

/-- Where some of the next tokens are known, the left source does not end in front of them. -/
theorem At.withAhead (h : S.At stage n ahead scope p p') {count : Nat}
    (hahead : S.strict → ∀ i < count, p.stream.nth i ≠ .eof) : S.At stage n count scope p p' where
  toBeside := h.toBeside
  scope_eq := h.scope_eq
  stage := h.stage
  ahead := hahead
  clear := h.clear

/-- Two tokens that come next. -/
theorem At.seenTwo (h : S.At stage n ahead scope p p') {kind next : Kind}
    (hkind : kind.closesCode = false) (hnext : next.closesCode = false) (hat : p.isAt kind = true)
    (hthen : p.stream.nth 1 = next) : S.At stage.seen n 2 scope p p' := by
  have hend := Twin.isAtEnd_of_isAt hkind hat
  refine (h.seen hend).withAhead fun _ i hi => ?_
  match i, hi with
  | 0, _ => exact kind_ne_eof hend
  | 1, _ =>
    rw [hthen]
    rintro rfl
    cases hnext

namespace Twin

variable [hS : S.Lawful] {closing : Bool} {fact : Prop} {held : List Nat} {α β : Type}
variable {held' : α → List Nat} {Q : α → β → Parser → Parser → Prop}

/-- Whether a token of one kind comes next, and behind it one of another kind. -/
theorem isAtThen {kind next : Kind} (hmode : scope.mode = .code) (hkind : kind.isPlain = true)
    (hnext : next.closesCode = false) {y z : Parse α} {y' z' : Parse β}
    (hyes : S.Twin closing fact held (S.At stage.seen n 2 scope) y y' held' Q)
    (hno : S.Twin closing fact held (S.At stage n ahead scope) z z' held' Q) :
    S.Twin closing fact held (S.At stage n ahead scope)
      (Parse.isAt kind >>= fun a => Parse.nth 1 >>= fun b =>
        if (a && decide (b = next)) = true then y else z)
      (Parse.isAt kind >>= fun a => Parse.nth 1 >>= fun b =>
        if (a && decide (b = next)) = true then y' else z') held' Q := by
  have h : S.Twin closing fact held (S.At stage n ahead scope)
      (Parse.ask (fun p => p.isAt kind && decide (p.stream.nth 1 = next)) >>= fun c =>
        if c = true then y else z)
      (Parse.ask (fun p => p.isAt kind && decide (p.stream.nth 1 = next)) >>= fun c =>
        if c = true then y' else z') held' Q := by
    refine .askBool (fun _ _ _ h => h.isAtThen_eq hS hmode hkind hnext) ?_
      (hno.pre fun _ _ _ h => h.1)
    refine hyes.pre fun _ _ _ h => ?_
    obtain ⟨hat, hthen⟩ := Bool.and_eq_true_iff.1 h.2
    exact h.1.seenTwo (Kind.closesCode_of_isPlain hkind) hnext hat (of_decide_eq_true hthen)
  exact h

/-- Whether tokens of three kinds come next. -/
theorem isAtThenThen {kind next last : Kind} (hmode : scope.mode = .code)
    (hkind : kind.isPlain = true) (hnext : next.isPlain = true) (hlast : last.closesCode = false)
    {y z : Parse α} {y' z' : Parse β}
    (hyes : S.Twin closing fact held (S.At stage.seen n 3 scope) y y' held' Q)
    (hno : S.Twin closing fact held (S.At stage n ahead scope) z z' held' Q) :
    S.Twin closing fact held (S.At stage n ahead scope)
      (Parse.isAt kind >>= fun a => Parse.nth 1 >>= fun b => Parse.nth 2 >>= fun c =>
        if (a && decide (b = next) && decide (c = last)) = true then y else z)
      (Parse.isAt kind >>= fun a => Parse.nth 1 >>= fun b => Parse.nth 2 >>= fun c =>
        if (a && decide (b = next) && decide (c = last)) = true then y' else z') held' Q := by
  let all (p : Parser) : Bool :=
    p.isAt kind && decide (p.stream.nth 1 = next) && decide (p.stream.nth 2 = last)
  have h : S.Twin closing fact held (S.At stage n ahead scope)
      (Parse.ask all >>= fun c => if c = true then y else z)
      (Parse.ask all >>= fun c => if c = true then y' else z') held' Q := by
    refine .askBool (fun _ _ _ h => h.isAtThenThen_eq hS hmode hkind hnext hlast) ?_
      (hno.pre fun _ _ _ h => h.1)
    refine hyes.pre fun _ _ _ h => ?_
    obtain ⟨hthen, hlast'⟩ := Bool.and_eq_true_iff.1 h.2
    obtain ⟨hat, hthen⟩ := Bool.and_eq_true_iff.1 hthen
    have htwo := h.1.seenTwo (Kind.closesCode_of_isPlain hkind)
      (Kind.closesCode_of_isPlain hnext) hat (of_decide_eq_true hthen)
    refine htwo.withAhead fun hstrict i hi => ?_
    by_cases hi₂ : i = 2
    · rw [hi₂, of_decide_eq_true hlast']
      rintro rfl
      cases hlast
    · exact htwo.ahead hstrict i (by omega)
  exact h

end Twin

end Sides

end TypstFormat
