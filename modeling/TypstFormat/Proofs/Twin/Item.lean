import TypstFormat.Grammar.Item
import TypstFormat.Proofs.Twin.Ahead
import TypstFormat.Proofs.Twin.Block

/-!
# Items between parentheses side by side

Arguments, parameters, collections, patterns and imported names. The items that were collected are
the same on both sides, so that a list gets the same kind.

## Key results

- `collection_twin`: a list between parentheses
- `args_twin`: the arguments of a call
- `pattern_passes`: what a value is bound to
- `importItems_twin`: imported names
-/

namespace TypstFormat

open Parse TypstFormat.Parser

namespace Sides

variable {S : Sides} [hS : S.Lawful] {rules rules' : Rules} {closing : Bool} {fact : Prop}
variable {held : List Nat} {stage : Stage} {n ahead : Nat} {scope : Scope}

open Grammar

/-! ## Items -/

theorem keyedItem_twin (hr : S.RulesTwin rules rules') (hmode : scope.mode = .code) :
    S.Twin closing fact held (S.At stage n ahead scope) (keyedItem rules) (keyedItem rules')
      (fun _ => held) fun found found' q q' => found' = found ∧ S.At .past n 0 scope q q' := by
  have hscope {fact : Prop} : fact → S.Follows closing scope := follows_code hmode
  refine .bindNode .start fun node => .isAtThen hmode rfl rfl ?_ ?_
  · refine .bind (.bump hscope (Stage.seen_covers_on stage)) fun _ _ => ?_
    refine .bind (.bumpAhead hscope rfl) fun _ _ => ?_
    refine .bind ((hr.expression false 0).run hmode rfl) fun _ _ => ?_
    refine .bindEq (.finish (by simp) .named) fun _ => ?_
    exact .pure (by simp) fun _ _ _ h => ⟨rfl, h⟩
  · refine .bind ((hr.expression false 0).run hmode (by cases stage <;> rfl)) fun _ _ => ?_
    refine .eat hscope rfl ?_ ?_
    · refine .bind ((hr.expression false 0).run hmode rfl) fun _ _ => ?_
      refine .bindEq (.finish (by simp) .keyed) fun _ => ?_
      exact .pure (by simp) fun _ _ _ h => ⟨rfl, h⟩
    · refine .bind (.dissolve (by simp) (by simp) fun h => h.2) fun _ _ => ?_
      exact .pure (List.Subset.refl _) fun _ _ _ h => ⟨rfl, h⟩

theorem item_twin (hr : S.RulesTwin rules rules') (hmode : scope.mode = .code) :
    S.Twin closing fact held (S.At stage n ahead scope) (item rules) (item rules')
      (fun _ => held) fun found found' q q' => found' = found ∧
        (found.isNone = false → S.At .past n 0 scope q q') ∧
        (found.isNone = true → S.At stage n ahead scope q q') := by
  have hscope {fact : Prop} : fact → S.Follows closing scope := follows_code hmode
  refine .isAt hscope rfl ?_ (.isAtAny hscope expressionStarts_are_tokens ?_ ?_)
  · refine .bindNode .start fun node => ?_
    refine .bind (.bump hscope (Stage.seen_covers_on stage)) fun _ _ => ?_
    extract_lets next next'
    have hnext {fact : Prop} : S.Twin closing fact (node.places ++ held) (S.At .past n 0 scope)
        (next ()) (next' ()) (fun _ => held) fun found found' q q' => found' = found ∧
          (found.isNone = false → S.At .past n 0 scope q q') ∧
          (found.isNone = true → S.At stage n ahead scope q q') := by
      refine .bindEq (.finish (by simp) .spread) fun _ => ?_
      exact .pure (by simp) fun _ _ _ h => ⟨rfl, fun _ => h, by simp⟩
    refine .isAtAny hscope expressionStarts_are_tokens ?_ ?_
    · exact .bind ((hr.expression false 0).run hmode rfl) fun _ _ => hnext
    · exact hnext.pre fun _ _ _ h => At.weaken h rfl (fun _ => Nat.le_refl n) (Nat.zero_le _)
  · refine .bindEq (keyedItem_twin hr hmode) fun found => ?_
    exact .pure (List.Subset.refl _) fun _ _ _ h => ⟨rfl, fun _ => h, by simp⟩
  · exact .pure (List.Subset.refl _) fun _ _ _ h => ⟨rfl, by simp, fun _ => h⟩

theorem skipToItem_twin (hscope : fact → S.Follows closing scope) {stage' : Stage}
    {m ahead' : Nat} :
    S.Twin closing fact held (S.At stage n ahead scope) skipToItem skipToItem
      (fun _ => held) fun ended ended' q q' => ended' = ended ∧
        S.At stage' m ahead' scope q q' := by
  refine .bindFact (R := S.At stage' m ahead' scope) (.reportUnexpected hscope) fun _ _ => ?_
  refine .bindEq (.recover (fun h => hscope h.1) fun h => h.2) fun r => ?_
  cases r <;> exact .pure (List.Subset.refl _) fun _ _ _ h => ⟨rfl, h⟩

/-- The same items were collected. -/
structure Collects (collected collected' : Collected) : Prop where
  items : collected'.items = collected.items
  hasComma : collected'.hasComma = collected.hasComma

theorem Collects.kind_eq {collected collected' : Collected} (h : Collects collected collected') :
    collected'.kind = collected.kind := by
  unfold Collected.kind
  rw [h.items, h.hasComma]

instance : Nonempty Collected := ⟨{}⟩

theorem nextItem_twin (hr : S.RulesTwin rules rules') (hmode : scope.mode = .code)
    (collected collected' : Collected) :
    S.Twin closing fact held
      (fun p p' => Collects collected collected' ∧ S.At .past n 0 scope p p')
      (nextItem rules collected) (nextItem rules' collected') (fun _ => held)
      (Twin.Round (fun c c' q q' => Collects c c' ∧ S.At .past n 0 scope q q')
        fun c c' q q' => Collects c c' ∧ S.At .past n 0 scope q q') := by
  have hscope {fact : Prop} : fact → S.Follows closing scope := follows_code hmode
  refine .learn (fun _ _ _ h => h.1) (.pre (P := S.At .past n 0 scope) ?_ fun _ _ _ h => h.2)
  refine .isAtTerminator hscope (.pure (List.Subset.refl _) fun hfact _ _ h => ⟨hfact.2, h⟩) ?_
  refine .bind .advance fun progress progress' => ?_
  refine .bindEq (item_twin hr hmode) fun found => ?_
  extract_lets all next all' next'
  have hall {fact' : Prop} (h : fact' → fact ∧ Collects collected collected') :
      fact' → Collects all all' := fun hfact =>
    ⟨congrArg (found.toList ++ ·) (h hfact).2.items, (h hfact).2.hasComma⟩
  have hnext {fact' : Prop} (h : fact' → fact ∧ Collects collected collected') (ended : Bool) :
      S.Twin closing fact' held (S.At .past n 0 scope) (next ended) (next' ended) (fun _ => held)
        (Twin.Round (fun c c' q q' => Collects c c' ∧ S.At .past n 0 scope q q')
          fun c c' q q' => Collects c c' ∧ S.At .past n 0 scope q q') := by
    refine .ask (fun _ _ _ h => h.isAtTerminator_eq hS (unbarred_code hmode trivial))
      fun atEnd => .pre (P := S.At .past n 0 scope) ?_ fun _ _ _ h => h.1
    split
    · exact .pure (List.Subset.refl _) fun hfact _ _ hat => ⟨hall h hfact, hat⟩
    · refine .bindEq (.expect hscope rfl) fun comma => .pure (List.Subset.refl _) ?_
      intro hfact _ _ hat
      exact ⟨⟨(hall h hfact).items, congrArg (comma || ·) (hall h hfact).hasComma⟩, hat⟩
  cases found.isNone with
  | true =>
    refine .pre (P := S.At .met n 0 scope) ?_ fun _ _ _ h => h.2 rfl
    exact .bindEq (R := fun _ => S.At .past n 0 scope) (skipToItem_twin hscope)
      fun ended => hnext id ended
  | false => exact (hnext id false).pre fun _ _ _ h => h.1 rfl

theorem items_twin (hr : S.RulesTwin rules rules') (hmode : scope.mode = .code)
    (hon : stage.covers .on = true) :
    S.Twin closing fact held (S.At stage n ahead scope) (items rules) (items rules')
      (fun _ => held) fun c c' q q' => Collects c c' ∧ S.At .past n 0 scope q q' := by
  refine .bindFact (.range (follows_code hmode)) fun opening opening' => ?_
  refine .enterBreakRule (unbarred_code hmode) hon fun entered => ?_
  have hinner : (scope.rule .ignored entered).mode = .code := hmode
  refine .bindEq (.expect (follows_code hmode) rfl) fun _ => ?_
  have hloop {fact : Prop} : S.Twin closing fact held
      (S.At .past entered 0 (scope.rule .ignored entered)) (Parse.loop (nextItem rules) {})
      (Parse.loop (nextItem rules') {}) (fun _ => held) fun c c' q q' =>
        Collects c c' ∧ S.At .past entered 0 (scope.rule .ignored entered) q q' :=
    (Twin.loopHeld (nextItem_twin hr hinner) _ _).pre fun _ _ _ h => ⟨⟨rfl, rfl⟩, h⟩
  refine .bindFact hloop fun c c' => ?_
  refine .bindEq (.expectClosing (follows_code hmode) rfl fun h => h.1.1.2) fun _ => ?_
  refine .bind (.leaveBreakRule rfl hmode fun h => h.1.2) fun _ _ => ?_
  exact .pure (List.Subset.refl _) fun hfact _ _ h => ⟨hfact.2, h⟩

/-! ## Lists and arguments -/

theorem collection_twin (hr : S.RulesTwin rules rules') (hmode : scope.mode = .code)
    (hon : stage.covers .on = true) (kind : Option Kind) :
    S.Twin closing fact held (S.At stage n ahead scope) (collection rules kind)
      (collection rules' kind) (fun closed => closed.index :: held)
      fun closed closed' q q' => closed' = S.closed closed ∧ S.At .past n 0 scope q q' := by
  have hscope {fact : Prop} : fact → S.Follows closing scope := follows_code hmode
  have hfinish {fact : Prop} {node : Opening} (kind : Kind) :
      S.Twin closing fact (node.places ++ held) (S.At .past n 0 scope) (node.finish kind)
        ((S.opening node).finish kind) (fun closed => closed.index :: held)
        fun closed closed' q q' => closed' = S.closed closed ∧ S.At .past n 0 scope q q' :=
    (Twin.finish (by simp) kind).drop fun _ => by simp
  refine .bindNode .start fun node => .isAtThenThen hmode rfl rfl rfl ?_ ?_
  · refine .bind (.bump hscope (Stage.seen_covers_on stage)) fun _ _ => ?_
    refine .bind (.bumpAhead hscope rfl) fun _ _ => ?_
    exact .bind (.bumpAhead hscope rfl) fun _ _ => hfinish _
  · refine .bindFact (items_twin hr hmode hon) fun c c' => ?_
    apply Twin.congr_right
    · intro hfact
      rw [hfact.2.kind_eq]
    exact hfinish _

theorem trailingBlocks_twin (hr : S.RulesTwin rules rules') (hmode : scope.mode = .code) :
    S.Twin closing fact held (S.At .past n 0 scope) (trailingBlocks rules)
      (trailingBlocks rules') (fun _ => held) fun _ _ => S.At .past n 0 scope := by
  have hscope {fact : Prop} : fact → S.Follows closing scope := follows_code hmode
  refine .loopSteady (Q := fun _ _ => S.At .past n 0 scope) (fun _ _ => ?_) _ _
  refine .isDirectlyAt hscope rfl rfl ?_ (.pure (List.Subset.refl _) fun _ _ _ h => h)
  refine .bind (contentBlock_twin hr hscope rfl) fun _ _ => ?_
  exact .pure (List.Subset.refl _) fun _ _ _ h => h

theorem args_twin (hr : S.RulesTwin rules rules') (hmode : scope.mode = .code)
    (hpast : stage.covers .past = true) :
    S.Twin closing fact held (S.At stage n ahead scope) (args rules) (args rules')
      (fun _ => held) fun _ _ => S.At .past n 0 scope := by
  have hscope {fact : Prop} : fact → S.Follows closing scope := follows_code hmode
  refine .bindNode .start fun node => ?_
  extract_lets next next'
  have hnext {fact : Prop} : S.Twin closing fact (node.places ++ held) (S.At .past n 0 scope)
      (next ()) (next' ()) (fun _ => held) fun _ _ => S.At .past n 0 scope := by
    refine .bind (trailingBlocks_twin hr hmode) fun _ _ => ?_
    exact .finishOff
  refine .isAt hscope rfl ?_ ?_
  · exact .bindFact (items_twin hr hmode (Stage.seen_covers_on stage)) fun _ _ => hnext
  · exact hnext.pre fun _ _ _ h => At.weaken h hpast (fun _ => Nat.le_refl n) (Nat.zero_le _)

/-! ## Patterns -/

theorem pattern_passes (hr : S.RulesTwin rules rules') :
    S.Passes .come (pattern rules) (pattern rules') := by
  intro closing fact held n scope hmode
  have hscope {fact : Prop} : fact → S.Follows closing scope := follows_code hmode
  refine .isAtEither hscope rfl rfl (.bump hscope rfl) (.isAt hscope rfl ?_ ?_)
  · refine .bindEq (collection_twin hr hmode rfl none) fun list => ?_
    refine .bindEq (.kind list) fun kind => ?_
    split
    · exact .pure (by simp) fun _ _ _ h => h
    · exact (Twin.rename (by simp) .destructuring).drop fun _ => by simp
  · refine .bindEq (.expect hscope rfl) fun _ => ?_
    exact .pure (List.Subset.refl _) fun _ _ _ h => h

/-! ## Imported names -/

theorem path_twin (hmode : scope.mode = .code) :
    S.Twin closing fact held (S.At .past n 0 scope) path path (fun _ => held)
      fun _ _ => S.At .past n 0 scope := by
  have hscope {fact : Prop} : fact → S.Follows closing scope := follows_code hmode
  refine .loopSteady (Q := fun _ _ => S.At .past n 0 scope) (fun _ _ => ?_) _ _
  refine .eat hscope rfl ?_ (.pure (List.Subset.refl _) fun _ _ _ h => h)
  refine .bindEq (.expect hscope rfl) fun _ => ?_
  exact .pure (List.Subset.refl _) fun _ _ _ h => h

theorem importItem_twin (hmode : scope.mode = .code) (hon : stage.covers .on = true) :
    S.Twin closing fact held (S.At stage n ahead scope) importItem importItem
      (fun _ => held) fun _ _ => S.At .past n 0 scope := by
  have hscope {fact : Prop} : fact → S.Follows closing scope := follows_code hmode
  refine .bindNode .start fun node => .bind (.bump hscope hon) fun _ _ => ?_
  refine .pre (P := S.At .past n 0 scope) (.bind (path_twin hmode) fun _ _ => ?_) fun _ _ _ h =>
    h.weaken rfl (fun _ => Nat.le_refl n) (Nat.zero_le _)
  refine .eat hscope rfl ?_ (.dissolve (by simp) (by simp) fun h => h.2)
  refine .bindEq (.expect hscope rfl) fun _ => ?_
  exact .finishLast

theorem nextImportItem_twin (hmode : scope.mode = .code) (progress progress' : Progress) :
    S.Twin closing fact held (S.At .past n 0 scope) (nextImportItem progress)
      (nextImportItem progress') (fun _ => held)
      (Twin.Round (fun _ _ => S.At .past n 0 scope) fun _ _ => S.At .past n 0 scope) := by
  have hscope {fact : Prop} : fact → S.Follows closing scope := follows_code hmode
  refine .isAtTerminator hscope (.pure (List.Subset.refl _) fun _ _ _ h => h) ?_
  refine .bind .advance fun progress progress' => ?_
  have hnext {fact : Prop} : S.Twin closing fact held (S.At .past n 0 scope)
      (do
        unless ← Parse.isAtTerminator do
          let _ ← Parse.expect .comma
        return (.inl progress : Progress ⊕ Unit))
      (do
        unless ← Parse.isAtTerminator do
          let _ ← Parse.expect .comma
        return (.inl progress' : Progress ⊕ Unit)) (fun _ => held)
      (Twin.Round (fun _ _ => S.At .past n 0 scope) fun _ _ => S.At .past n 0 scope) := by
    refine .isAtTerminator hscope (.pure (List.Subset.refl _) fun _ _ _ h => h) ?_
    refine .bindEq (.expect hscope rfl) fun _ => ?_
    exact .pure (List.Subset.refl _) fun _ _ _ h => h
  refine .isAt hscope rfl ?_ ?_
  · exact .bind (importItem_twin hmode rfl) fun _ _ => hnext
  · refine .bindEq (R := fun _ => S.At .past n 0 scope) (skipToItem_twin hscope) fun ended => ?_
    cases ended with
    | true => exact .pure (List.Subset.refl _) fun _ _ _ h => h
    | false => exact hnext

theorem importItems_twin (hmode : scope.mode = .code) :
    S.Twin closing fact held (S.At .past n 0 scope) importItems importItems (fun _ => held)
      fun _ _ => S.At .past n 0 scope := by
  refine .bindNode .start fun node => ?_
  refine .bind (.loopSteady (nextImportItem_twin hmode) _ _) fun _ _ => ?_
  exact .finishLast

end Sides

end TypstFormat
