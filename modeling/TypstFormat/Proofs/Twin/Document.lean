import TypstFormat.Grammar.Document
import TypstFormat.Proofs.Grammar.Document
import TypstFormat.Proofs.Twin.Expression
import TypstFormat.Proofs.Twin.Markup

/-!
# Whole sources side by side

The recursive rules do the same on both sides, however deeply they may be nested, by induction on the
depth. Two sources that are read as a whole are therefore read to corresponding ends, unless
something that ends the comparison is found on the left.

## Key results

- `rules_twin`: the rules of the grammar do the same on both sides
- `Apart.document_at`: two sources are read to corresponding ends
-/

namespace TypstFormat

open Parse TypstFormat.Parser

namespace Sides

open Grammar

variable {S : Sides}

/-! ## The recursive rules -/

/-- The rules leave alone what they are not told to change. -/
theorem rules_keep (depth : Nat) : (rules depth).Keep := by
  induction depth with
  | zero => exact ⟨fun _ _ _ => .throw _, fun _ _ _ _ => .throw _, .throw _⟩
  | succ depth ih =>
    have hr := void_rulesTwin ih
    refine ⟨fun atomic precedence _ => (expression_passes hr atomic precedence).keeps,
      fun atLineStart extent stops held => ?_, (conditional_passes hr).keeps⟩
    have h : void.Twin true False held _ (markup (rules depth) atLineStart extent stops) _ _ _ :=
      markup_twin (n := 0) hr atLineStart stops (rfl : (Scope.whole .markup).mode = .markup)
        False.elim
    exact h.keeps

/-- Nothing is related to an action that fails. -/
theorem Twin.throw_left {α β : Type} {closing : Bool} {fact : Prop} {held : List Nat}
    {P : Parser → Parser → Prop} {held' : α → List Nat} {Q : α → β → Parser → Parser → Prop}
    (error : ParseError) (x' : Parse β) :
    S.Twin closing fact held P (MonadExcept.throw error) x' held' Q where
  keeps := .throw error
  run _ _ _ _ _ _ _ _ _ hrun := by cases hrun

/-- The rules do the same on both sides, as deeply as they may be nested on both. -/
theorem rules_twin [S.Lawful] (depth depth' : Nat) : S.RulesTwin (rules depth) (rules depth') := by
  induction depth' generalizing depth with
  | zero =>
    have hkeep := rules_keep depth
    exact ⟨fun atomic precedence _ _ _ _ _ _ => .throw_right (hkeep.expression atomic precedence) _,
      fun _ _ _ _ _ _ => .throw_right hkeep.conditional _,
      fun atLineStart extent stops _ _ _ _ _ _ =>
        .throw_right (hkeep.markup atLineStart extent stops) _,
      rules_keep 0⟩
  | succ depth' ih =>
    cases depth with
    | zero =>
      exact ⟨fun _ _ _ _ _ _ _ _ => .throw_left _ _, fun _ _ _ _ _ _ => .throw_left _ _,
        fun _ _ _ _ _ _ _ _ _ => .throw_left _ _, rules_keep (depth' + 1)⟩
    | succ depth =>
      have hr := ih depth
      exact ⟨expression_passes hr, conditional_passes hr,
        fun atLineStart _ stops _ _ _ _ hmode hextent =>
          markup_twin hr atLineStart stops hmode hextent,
        rules_keep (depth' + 1)⟩

/-! ## Two sources as a whole -/

/-- Both sources are read as a whole, and compared from the start to the end. -/
structure Apart (S : Sides) : Prop where
  not_strict : ¬S.strict
  place_zero : S.place 0 0
  old : ∀ {old old'}, S.old old old' ↔ old = [] ∧ old' = []
  front : S.front = []
  modes : S.modes = []
  breakRules : S.breakRules = []

namespace Apart

variable (hS : S.Apart)

include hS

/-- Both parsers start at the start. -/
theorem at_ofSource [hlaw : S.Lawful] (mode : Mode) :
    S.At .past 0 0 (.whole mode) (ofSource S.left mode) (ofSource S.right mode) := by
  obtain ⟨hconsumed, hsource, hmode, hsettled, hfound⟩ := Stream.ofSource_fields S.left mode
  obtain ⟨hconsumed', hsource', hmode', hsettled', hfound'⟩ := Stream.ofSource_fields S.right mode
  have hnot_first (a a' : Nat) : ¬S.first a a' := fun h =>
    hS.not_strict (hlaw.strict_of_first h)
  refine ⟨⟨⟨Stream.steady_ofSource _ mode, Stream.steady_ofSource _ mode, hsource, hsource',
    hmode'.trans hmode.symm, ?_, ?_, fun h => absurd h (hnot_first _ _), ?_, .nil, ?_, ?_, ?_,
    fun h => absurd h (hnot_first _ _)⟩, ?_, fun h => absurd h hS.not_strict,
    fun h => absurd h hS.not_strict⟩, fun h => absurd h hS.not_strict⟩
  · show S.behind (Stream.ofSource _ _).consumed (Stream.ofSource _ _).consumed
    rw [hconsumed, hconsumed']
    exact .inl hS.place_zero
  · intro _
    show S.Settled (Stream.ofSource _ _).settled (Stream.ofSource _ _).settled
    rw [hsettled, hsettled']
    exact fun _ => ⟨[], [], [], [], rfl, rfl, .nil, hS.old.2 ⟨rfl, rfl⟩⟩
  · show List.Forall₂ S.Finding (Stream.ofSource _ _).found (Stream.ofSource _ _).found
    rw [hfound, hfound']
    exact .nil
  · refine ⟨?_, fun k hk => ?_, fun k event hk => ?_⟩
    · simp [ofSource, Sides.shift, hS.front]
    · simp [Sides.shift, hS.front] at hk
    · simp [ofSource] at hk
  · simp [ofSource, hS.modes]
  · exact ⟨[], by simp [ofSource, hS.breakRules], .nil⟩
  · show Scope.mk (Stream.ofSource _ _).mode [] [] = _
    rw [hmode]
    rfl

/-- A language does the same on both sides. -/
theorem document_twin [S.Lawful] {rules rules' : Rules} (hr : S.RulesTwin rules rules') {mode : Mode}
    (hbarred : S.barred → mode ≠ .markup) :
    S.Twin true True [] (S.At .past 0 0 (.whole mode)) (document rules mode) (document rules' mode)
      (fun _ => []) fun _ _ => S.At .past 0 0 (.whole mode) := by
  cases mode with
  | markup =>
    exact unbarred_twin hr rfl (fun _ h => hbarred h rfl) true (fun _ _ => Extent.fixed_unbounded) []
  | code => exact code_twin hr rfl (.same fun h => absurd h hS.not_strict) rfl
  | math => exact math_flows hr [] _ _ _ _ (by simp [Scope.whole]) fun _ => hbarred

/-- Both sources are read to corresponding ends, unless the left one is complained about in a clean
comparison, or an absent event was written for it. -/
theorem document_at [S.Lawful] {mode : Mode} (hbarred : S.barred → mode ≠ .markup)
    {closed closed' : Closed} {q q' : Parser}
    (hrun : document (rulesFor S.left) mode (ofSource S.left mode) = .ok (closed, q))
    (hrun' : document (rulesFor S.right) mode (ofSource S.right mode) = .ok (closed', q')) :
    S.At .past 0 0 (.whole mode) q q' ∨
      (S.clean ∧ (q.findings ≠ [] ∨ q.stream.found ≠ [])) ∨
      ∃ event ∈ q.events.toList, S.absent event := by
  have hat := hS.at_ofSource mode
  have hstands : S.Stands [] (ofSource S.left mode) := ⟨hat.steady, hat.source_eq, by simp⟩
  have htwin := hS.document_twin (rules_twin (S.left.length + 2) (S.right.length + 2)) hbarred
  rcases htwin.run trivial hstands hat hrun hrun' with ⟨hend, _⟩ | hbroken
  · exact .inl hend
  · cases hbroken.cause with
    | finding hclean hcause => exact .inr (.inl ⟨hclean, hcause⟩)
    | spent hstrict => exact absurd hstrict hS.not_strict
    | event _ hevent habsent =>
      exact .inr (.inr ⟨_, Array.mem_toList_iff.2 (Array.mem_of_getElem? hevent), habsent⟩)

end Apart

end Sides

end TypstFormat
