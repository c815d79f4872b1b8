import TypstFormat.Grammar.Keyword
import TypstFormat.Proofs.Twin.Item

/-!
# Expressions that start with a keyword side by side

Each of them consumes its keyword and goes on with rules that are shown already.

## Key results

- `letBinding_passes`, `setRule_passes`, `showRule_passes`: bindings and rules
- `conditional_passes`, `whileLoop_passes`, `forLoop_passes`: control flow
- `moduleImport_passes`, `moduleInclude_passes`, `funcReturn_passes`: modules and jumps
-/

namespace TypstFormat

open Parse TypstFormat.Parser

namespace Sides

variable {S : Sides} [hS : S.Lawful] {rules rules' : Rules} {closing : Bool} {fact : Prop}
variable {held : List Nat} {stage : Stage} {n ahead : Nat} {scope : Scope}

open Grammar

theorem block_passes (hr : S.RulesTwin rules rules') : S.Passes .come (block rules) (block rules') := by
  intro closing fact held n scope hmode
  have hscope {fact : Prop} : fact → S.Follows closing scope := follows_code hmode
  refine .isAt hscope rfl ?_ (.isAt hscope rfl ?_ ?_)
  · exact .bind (contentBlock_twin hr hscope rfl) fun _ _ =>
      .pure (List.Subset.refl _) fun _ _ _ h => h
  · exact .bind (codeBlock_twin hr hmode rfl) fun _ _ =>
      .pure (List.Subset.refl _) fun _ _ _ h => h
  · exact .bindEq (.expect hscope rfl) fun _ => .pure (List.Subset.refl _) fun _ _ _ h => h

/-! ## Bindings -/

theorem initializer_passes (hr : S.RulesTwin rules rules') (isRequired : Bool) :
    S.Passes .past (initializer rules isRequired) (initializer rules' isRequired) := by
  intro closing fact held n scope hmode
  have hscope {fact : Prop} : fact → S.Follows closing scope := follows_code hmode
  cases isRequired with
  | true =>
    refine .bindEq (.expect hscope rfl) fun found => ?_
    cases found with
    | true => exact (hr.expression false 0).run hmode rfl
    | false => exact .pure (List.Subset.refl _) fun _ _ _ h => h
  | false =>
    refine .eat hscope rfl ((hr.expression false 0).run hmode rfl) ?_
    exact .pure (List.Subset.refl _) fun _ _ _ h => h

theorem bound_twin (hr : S.RulesTwin rules rules') (hmode : scope.mode = .code) :
    S.Twin closing fact held (S.At stage n ahead scope) (bound rules) (bound rules')
      (fun _ => held) fun found found' q q' => found' = found ∧ S.At .past n 0 scope q q' := by
  have hscope {fact : Prop} : fact → S.Follows closing scope := follows_code hmode
  refine .isAt hscope rfl ?_ ?_
  · refine .bind (.bump hscope (Stage.seen_covers_on stage)) fun _ _ => ?_
    refine .isDirectlyAt hscope rfl rfl ?_ ?_
    · refine .bindEq (collection_twin hr hmode rfl _) fun _ => ?_
      exact .pure (by simp) fun _ _ _ h => ⟨rfl, h⟩
    · exact .pure (List.Subset.refl _) fun _ _ _ h =>
        ⟨rfl, h.weaken rfl (fun _ => Nat.le_refl n) (Nat.zero_le _)⟩
  · refine .bind ((pattern_passes hr).run hmode (by cases stage <;> rfl)) fun _ _ => ?_
    exact .pure (List.Subset.refl _) fun _ _ _ h => ⟨rfl, h⟩

theorem letBinding_passes (hr : S.RulesTwin rules rules') :
    S.Passes .on (letBinding rules) (letBinding rules') := by
  intro closing fact held n scope hmode
  have hscope {fact : Prop} : fact → S.Follows closing scope := follows_code hmode
  refine .bindNode .start fun node => .bind (.bump hscope rfl) fun _ _ => ?_
  refine .bindNode .start fun closure => ?_
  refine .bindEq (g := id) (R := fun _ => S.At .past n 0 scope) (bound_twin hr hmode)
    fun ⟨isClosure, needsValue⟩ => ?_
  refine .bind ((initializer_passes hr needsValue).run hmode rfl) fun _ _ => ?_
  cases isClosure with
  | true => exact .bind .finishOff fun _ _ => .finishLast
  | false => exact .bind (.dissolve (by simp) (by simp) fun h => h.2) fun _ _ => .finishLast

/-! ## Set rules and show rules -/

theorem setTarget_twin (hmode : scope.mode = .code) :
    S.Twin closing fact held (S.At stage n ahead scope) setTarget setTarget (fun _ => held)
      fun _ _ => S.At .past n 0 scope := by
  have hscope {fact : Prop} : fact → S.Follows closing scope := follows_code hmode
  refine .bindNode .start fun target => .bindEq (.expect hscope rfl) fun _ => ?_
  refine .pre (P := S.At .past n 0 scope) ?_ fun _ _ _ h => h.weaken rfl (fun _ => Nat.le_refl n)
    (Nat.zero_le _)
  refine .bindNode (.loopNode (P := S.At .past n 0 scope) (fun target => ?_) target)
    fun target => .dissolve (by simp) (by simp) fun h => h.2
  refine .eat hscope rfl ?_ (.pure (List.Subset.refl _) fun hfact _ _ h => ⟨rfl, hfact.2, h⟩)
  refine .bindEq (.expect hscope rfl) fun _ => .finishAndWrap fun outer => ?_
  exact .pure (List.Subset.refl _) fun hfact _ _ h => ⟨rfl, hfact.2, h⟩

theorem setRule_passes (hr : S.RulesTwin rules rules') :
    S.Passes .on (setRule rules) (setRule rules') := by
  intro closing fact held n scope hmode
  have hscope {fact : Prop} : fact → S.Follows closing scope := follows_code hmode
  refine .bindNode .start fun node => .bind (.bump hscope rfl) fun _ _ => ?_
  refine .bind (setTarget_twin hmode) fun _ _ => ?_
  have hcondition {fact : Prop} : S.Twin closing fact (node.places ++ held) (S.At .past n 0 scope)
      (do
        if ← Parse.eat .kwIf then
          rules.expression false 0
        let _ ← node.finish .setRule)
      (do
        if ← Parse.eat .kwIf then
          rules'.expression false 0
        let _ ← (S.opening node).finish .setRule) (fun _ => held)
      fun _ _ => S.At .past n 0 scope :=
    .eat hscope rfl (.bind ((hr.expression false 0).run hmode rfl) fun _ _ => .finishLast)
      .finishLast
  refine .isAtEither hscope rfl rfl ?_ ?_
  · exact .bind (args_twin hr hmode rfl) fun _ _ => hcondition
  · exact .bindEq (.expect hscope rfl) fun _ => hcondition

theorem showRule_passes (hr : S.RulesTwin rules rules') :
    S.Passes .on (showRule rules) (showRule rules') := by
  intro closing fact held n scope hmode
  have hscope {fact : Prop} : fact → S.Follows closing scope := follows_code hmode
  refine .bindNode .start fun node => .bind (.bump hscope rfl) fun _ _ => ?_
  have htransform {fact : Prop} {stage : Stage} (hpast : stage.covers .past = true) :
      S.Twin closing fact (node.places ++ held) (S.At stage n 0 scope)
        (do
          if ← Parse.expect .colon then
            rules.expression false 0
          let _ ← node.finish .showRule)
        (do
          if ← Parse.expect .colon then
            rules'.expression false 0
          let _ ← (S.opening node).finish .showRule) (fun _ => held)
        fun _ _ => S.At .past n 0 scope := by
    refine .bindEq (.expect hscope rfl) fun found => ?_
    cases found with
    | true => exact .bind ((hr.expression false 0).run hmode rfl) fun _ _ => .finishLast
    | false => exact .finishLast
  refine .isAt hscope rfl (htransform rfl) ?_
  exact .bind ((hr.expression false 0).run hmode rfl) fun _ _ => htransform rfl

theorem contextual_passes (hr : S.RulesTwin rules rules') (atomic : Bool) :
    S.Passes .on (contextual rules atomic) (contextual rules' atomic) := by
  intro closing fact held n scope hmode
  refine .bindNode .start fun node => .bind (.bump (follows_code hmode) rfl) fun _ _ => ?_
  exact .bind ((hr.expression atomic 0).run hmode rfl) fun _ _ => .finishLast

/-! ## Control flow -/

theorem conditional_passes (hr : S.RulesTwin rules rules') :
    S.Passes .on (conditional rules) (conditional rules') := by
  intro closing fact held n scope hmode
  have hscope {fact : Prop} : fact → S.Follows closing scope := follows_code hmode
  refine .bindNode .start fun node => .bind (.bump hscope rfl) fun _ _ => ?_
  refine .bind ((hr.expression false 0).run hmode rfl) fun _ _ => ?_
  refine .bind ((block_passes hr).run hmode rfl) fun _ _ => ?_
  refine .eat hscope rfl (.isAt hscope rfl ?_ ?_) .finishLast
  · exact .bind (hr.conditional.run hmode rfl) fun _ _ => .finishLast
  · exact .bind ((block_passes hr).run hmode rfl) fun _ _ => .finishLast

theorem whileLoop_passes (hr : S.RulesTwin rules rules') :
    S.Passes .on (whileLoop rules) (whileLoop rules') := by
  intro closing fact held n scope hmode
  refine .bindNode .start fun node => .bind (.bump (follows_code hmode) rfl) fun _ _ => ?_
  refine .bind ((hr.expression false 0).run hmode rfl) fun _ _ => ?_
  exact .bind ((block_passes hr).run hmode rfl) fun _ _ => .finishLast

theorem forLoop_passes (hr : S.RulesTwin rules rules') :
    S.Passes .on (forLoop rules) (forLoop rules') := by
  intro closing fact held n scope hmode
  have hscope {fact : Prop} : fact → S.Follows closing scope := follows_code hmode
  refine .bindNode .start fun node => .bind (.bump hscope rfl) fun _ _ => ?_
  refine .bind ((pattern_passes hr).run hmode rfl) fun _ _ => ?_
  refine .bindEq (.expect hscope rfl) fun found => ?_
  cases found with
  | true =>
    refine .bind ((hr.expression false 0).run hmode rfl) fun _ _ => ?_
    exact .bind ((block_passes hr).run hmode rfl) fun _ _ => .finishLast
  | false => exact .bind ((block_passes hr).run hmode rfl) fun _ _ => .finishLast

/-! ## Modules and jumps -/

theorem imported_twin (hmode : scope.mode = .code) :
    S.Twin closing fact held (S.At .past n 0 scope) imported imported (fun _ => held)
      fun _ _ => S.At .past n 0 scope := by
  have hscope {fact : Prop} : fact → S.Follows closing scope := follows_code hmode
  refine .isAt hscope rfl ?_ (.eat hscope rfl ?_ (importItems_twin hmode))
  · refine .bindFact (.range hscope) fun opening opening' => ?_
    refine .enterBreakRule (unbarred_code hmode) rfl fun entered => ?_
    have hinner : (scope.rule .ignored entered).mode = .code := hmode
    refine .bind (.bump (follows_code hinner) rfl) fun _ _ => ?_
    refine .bind (importItems_twin hinner) fun _ _ => ?_
    refine .bindEq (.expectClosing (follows_code hinner) rfl fun h => h.1.2) fun _ => ?_
    exact .leaveBreakRule rfl hmode fun h => h.2
  · exact .pure (List.Subset.refl _) fun _ _ _ h => h

theorem moduleImport_passes (hr : S.RulesTwin rules rules') :
    S.Passes .on (moduleImport rules) (moduleImport rules') := by
  intro closing fact held n scope hmode
  have hscope {fact : Prop} : fact → S.Follows closing scope := follows_code hmode
  refine .bindNode .start fun node => .bind (.bump hscope rfl) fun _ _ => ?_
  refine .bind ((hr.expression false 0).run hmode rfl) fun _ _ => ?_
  have hcontents {fact : Prop} : S.Twin closing fact (node.places ++ held) (S.At .past n 0 scope)
      (do
        if ← Parse.eat .colon then
          imported
        let _ ← node.finish .moduleImport)
      (do
        if ← Parse.eat .colon then
          imported
        let _ ← (S.opening node).finish .moduleImport) (fun _ => held)
      fun _ _ => S.At .past n 0 scope :=
    .eat hscope rfl (.bind (imported_twin hmode) fun _ _ => .finishLast) .finishLast
  refine .eat hscope rfl ?_ hcontents
  exact .bindEq (.expect hscope rfl) fun _ => hcontents

theorem moduleInclude_passes (hr : S.RulesTwin rules rules') :
    S.Passes .on (moduleInclude rules) (moduleInclude rules') := by
  intro closing fact held n scope hmode
  refine .bindNode .start fun node => .bind (.bump (follows_code hmode) rfl) fun _ _ => ?_
  exact .bind ((hr.expression false 0).run hmode rfl) fun _ _ => .finishLast

theorem funcReturn_passes (hr : S.RulesTwin rules rules') :
    S.Passes .on (funcReturn rules) (funcReturn rules') := by
  intro closing fact held n scope hmode
  have hscope {fact : Prop} : fact → S.Follows closing scope := follows_code hmode
  refine .bindNode .start fun node => .bind (.bump hscope rfl) fun _ _ => ?_
  refine .isAtAny hscope expressionStarts_are_tokens ?_ .finishLast
  exact .bind ((hr.expression false 0).run hmode rfl) fun _ _ => .finishLast

theorem loneKeyword_passes (kind : Kind) : S.Passes .on (loneKeyword kind) (loneKeyword kind) := by
  intro closing fact held n scope hmode
  refine .bindNode .start fun node => ?_
  exact .bind (.bump (follows_code hmode) rfl) fun _ _ => .finishLast

end Sides

end TypstFormat
