import TypstFormat.Proofs.Twin.Rewind

/-!
# Expressions side by side

Where the code ends on the left and the block of code on the right, neither side sees a token that
an expression starts or goes on with. On the left this is reported where an expression is needed.

## Key results

- `primary_passes`: expressions without operators around them
- `continuation_twin`: what goes on with an expression
- `expression_passes`: expressions
-/

namespace TypstFormat

open Parse TypstFormat.Parser

namespace Sides

variable {S : Sides} [hS : S.Lawful] {rules rules' : Rules} {closing : Bool} {fact : Prop}
variable {held : List Nat} {stage : Stage} {n ahead : Nat} {scope : Scope}

open Grammar

/-! ## Primary expressions -/

theorem loneParamClosure_twin (hr : S.RulesTwin rules rules') (hmode : scope.mode = .code)
    (hon : stage.covers .on = true) :
    S.Twin closing fact held (S.At stage n 2 scope) (loneParamClosure rules)
      (loneParamClosure rules') (fun _ => held) fun _ _ => S.At .past n 0 scope := by
  have hscope {fact : Prop} : fact → S.Follows closing scope := follows_code hmode
  refine .bindNode .start fun params => .bind (.bump hscope hon) fun _ _ => ?_
  refine .finishAndWrap fun closure => .bind (.bumpAhead hscope rfl) fun _ _ => ?_
  exact .bind ((hr.expression false 0).run hmode rfl) fun _ _ => .finishLast

/-- A name, or a function of one parameter. -/
theorem nameOrClosure_twin (hr : S.RulesTwin rules rules') (hmode : scope.mode = .code)
    (atomic : Bool) {kind : Kind} (hkind : kind.isPlain = true) :
    S.Twin closing fact held (fun p p' => S.At stage n 0 scope p p' ∧ p.current = kind)
      (do if !atomic && (← Parse.nth 1) = .arrow then loneParamClosure rules else Parse.bump)
      (do if !atomic && (← Parse.nth 1) = .arrow then loneParamClosure rules' else Parse.bump)
      (fun _ => held) fun _ _ => S.At .past n 0 scope := by
  have htoken := Kind.closesCode_of_isPlain hkind
  have harrow (p p' : Parser) (h : S.At stage n 0 scope p p' ∧ p.current = kind) :
      (!atomic && decide (p'.stream.nth 1 = .arrow)) =
        (!atomic && decide (p.stream.nth 1 = .arrow)) := by
    have hcurrent := kind_of_isAt htoken (isAt_iff.2 h.2)
    have hplain : p.stream.kind ∉ endless := hcurrent ▸ Kind.not_endless_of_isPlain hkind
    rw [decide_eq_decide.2 (h.1.nth_one_iff hS hmode hplain rfl)]
  have h : S.Twin closing fact held (fun p p' => S.At stage n 0 scope p p' ∧ p.current = kind)
      (Parse.ask (fun p => !atomic && decide (p.stream.nth 1 = .arrow)) >>= fun b =>
        if b = true then loneParamClosure rules else Parse.bump)
      (Parse.ask (fun p => !atomic && decide (p.stream.nth 1 = .arrow)) >>= fun b =>
        if b = true then loneParamClosure rules' else Parse.bump)
      (fun _ => held) fun _ _ => S.At .past n 0 scope := by
    refine .askBool (fun _ p p' h => harrow p p' h) ?_ ?_
    · refine (loneParamClosure_twin hr hmode (Stage.seen_covers_on stage)).pre fun _ _ _ h => ?_
      exact h.1.1.seenTwo htoken rfl (isAt_iff.2 h.1.2)
        (of_decide_eq_true (Bool.and_eq_true_iff.1 h.2).2)
    · refine .pre (P := S.At stage.seen n 0 scope) ?_ fun _ _ _ h =>
        h.1.1.seen (Twin.isAtEnd_of_isAt htoken (isAt_iff.2 h.1.2))
      exact .bump (follows_code hmode) (Stage.seen_covers_on stage)
  exact h

theorem literals_are_tokens : ∀ kind ∈ literals, kind.closesCode = false := by
  decide

/-- In front of an end, an expression is missing. -/
theorem primary_of_gap {p p' q : Parser} (h : S.Gap p p') {atomic : Bool}
    (hp : p.stream.Steady) (hsource : p.source = S.left)
    (hrun : primary rules atomic p = .ok ((), q)) : S.Broken closing held q := by
  obtain ⟨_, _, hask, hrest⟩ := bind_eq_ok hrun
  cases hask
  have hcurrent : p.current = .eof ∨ p.current = .breakEnd := by
    rw [← h.kind_eq]
    exact p.current_eq
  dsimp only at hrest
  rcases hcurrent with hcurrent | hcurrent
  · rw [hcurrent] at hrest
    cases hrest
    exact broken_report hp hsource (hS.clean_of_strict h.strict) _
  · rw [hcurrent] at hrest
    cases hrest
    exact broken_report hp hsource (hS.clean_of_strict h.strict) _

theorem primary_passes (hr : S.RulesTwin rules rules') (atomic : Bool) :
    S.Passes .come (primary rules atomic) (primary rules' atomic) := by
  intro closing fact held n scope hmode
  refine .orBroken (C := fun p p' => S.At .come n 0 scope p p' ∧ S.Same p p') ?_ ?_
  · refine .askExcept .leftParen (fun _ _ _ h => h.2.current_eq) ?_ ?_ fun kind hkind => ?_
    · intro p _ q hp hat hrun
      exact keeps_parenthesized hr.keep hp (isAt_iff.2 hat) hrun
    · intro _ p p' _ _ q q' hp h hat hrun hrun'
      have hat := isAt_iff.2 hat
      exact parenthesized_run hr hmode (Stage.seen_covers_on .come) hp
        (h.1.seen (Twin.isAtEnd_of_isAt rfl hat)) hat hrun hrun'
    · have hat {kind : Kind} (hkind : kind.closesCode = false) {x x' : Parse Unit}
          (h : S.Passes .on x x') : S.Twin closing fact held (fun p p' =>
            (S.At .come n 0 scope p p' ∧ S.Same p p') ∧ p.current = kind) x x' (fun _ => held)
            fun _ _ => S.At .past n 0 scope :=
        .pre (P := S.At .on n 0 scope) (h.run hmode rfl) fun _ _ _ h =>
          h.1.1.seen (Twin.isAtEnd_of_isAt hkind (isAt_iff.2 h.2))
      have hone {x x' : Parse Closed} (h : S.Passes .on x x') :
          S.Passes .on (do let _ ← x) (do let _ ← x') := fun _ _ _ _ _ hmode =>
        .bind (h.run hmode rfl) fun _ _ => .pure (List.Subset.refl _) fun _ _ _ h => h
      split
      · exact (nameOrClosure_twin hr hmode atomic rfl).pre fun _ _ _ h => ⟨h.1.1, h.2⟩
      · exact (nameOrClosure_twin hr hmode atomic rfl).pre fun _ _ _ h => ⟨h.1.1, h.2⟩
      · exact hat rfl (hone fun _ _ _ _ _ hmode => codeBlock_twin hr hmode rfl)
      · exact hat rfl (hone fun _ _ _ _ _ hmode => contentBlock_twin hr (follows_code hmode) rfl)
      · exact absurd rfl hkind
      · exact hat rfl (hone fun _ _ _ _ _ hmode => equation_twin hr (follows_code hmode) rfl)
      · exact hat rfl (letBinding_passes hr)
      · exact hat rfl (setRule_passes hr)
      · exact hat rfl (showRule_passes hr)
      · exact hat rfl (contextual_passes hr atomic)
      · exact hat rfl (conditional_passes hr)
      · exact hat rfl (whileLoop_passes hr)
      · exact hat rfl (forLoop_passes hr)
      · exact hat rfl (moduleImport_passes hr)
      · exact hat rfl (moduleInclude_passes hr)
      · exact hat rfl (loneKeyword_passes _)
      · exact hat rfl (loneKeyword_passes _)
      · exact hat rfl (funcReturn_passes hr)
      · split
        · rename_i hliteral
          exact hat (literals_are_tokens kind (by simpa using hliteral)) fun _ _ _ _ _ hmode =>
            .bump (follows_code hmode) rfl
        · refine .pre (P := S.At .come n 0 scope) ?_ fun _ _ _ h => h.1.1
          exact (Twin.reportMissingExpression (follows_code hmode)).post fun _ _ _ _ _ h => h.2
  · intro hfact p p' hp h
    refine (h.view hS (unbarred_code hmode hfact)).imp (fun hsame => ⟨h, hsame⟩) fun hgap => ?_
    exact fun _ _ hrun => primary_of_gap hgap hp.steady hp.source_eq hrun

/-! ## Operators -/

/-- In front of an end, there is no operator. -/
theorem binaryPrecedence_of_closesCode {kind : Kind} (h : kind.closesCode = true) :
    binaryPrecedence? kind = none ∧ unaryPrecedence? kind = none := by
  simp only [Kind.closesCode, Bool.or_eq_true, decide_eq_true_eq] at h
  rcases h with (rfl | rfl) | rfl <;> exact ⟨rfl, rfl⟩

theorem At.nextPrecedence_eq (hmode : scope.mode = .code) {p p' : Parser}
    (h : S.At stage n ahead scope p p') : nextPrecedence? p' = nextPrecedence? p := by
  have hbinary : binaryPrecedence? p'.current = binaryPrecedence? p.current := by
    rcases h.view hS (unbarred_code hmode trivial) with hsame | hgap
    · rw [hsame.current_eq]
    · rw [(binaryPrecedence_of_closesCode hgap.closesCode).1,
        (binaryPrecedence_of_closesCode hgap.closesCode').1]
  unfold nextPrecedence?
  rw [h.isAtThen_eq hS hmode rfl rfl, hbinary]

theorem At.unaryPrecedence_eq (hmode : scope.mode = .code) {p p' : Parser}
    (h : S.At stage n ahead scope p p') :
    unaryPrecedence? p'.current = unaryPrecedence? p.current := by
  rcases h.view hS (unbarred_code hmode trivial) with hsame | hgap
  · rw [hsame.current_eq]
  · rw [(binaryPrecedence_of_closesCode hgap.closesCode).2,
      (binaryPrecedence_of_closesCode hgap.closesCode').2]

/-- An operator is consumed, which may be two words. -/
theorem operator_twin {α β : Type} {f : Unit → Parse α} {f' : Unit → Parse β}
    {held' : α → List Nat} {Q : α → β → Parser → Parser → Prop} (hmode : scope.mode = .code)
    (hf : S.Twin closing fact held (S.At .past n 0 scope) (f ()) (f' ()) held' Q) :
    S.Twin closing fact held
      (fun p p' => S.At stage n 0 scope p p' ∧ nextPrecedence? p ≠ none)
      (Parse.eat .kwNot >>= fun _ => Parse.bump >>= f)
      (Parse.eat .kwNot >>= fun _ => Parse.bump >>= f') held' Q := by
  have hscope {fact : Prop} : fact → S.Follows closing scope := follows_code hmode
  have hon := Stage.seen_covers_on stage
  refine .byCases (C := fun p => (p.isAt .kwNot && decide (p.stream.nth 1 = .kwIn)) = true) ?_ ?_
  · refine .pre (P := S.At stage.seen n 2 scope) ?_ fun _ _ _ h => ?_
    · refine .eat hscope rfl (.bind (.bumpAhead hscope rfl) fun _ _ => hf) ?_
      refine .pre (P := S.At stage.seen n 0 scope) (.bind (.bump hscope hon) fun _ _ => hf) ?_
      exact fun _ _ _ h => h.weaken (Stage.covers_self _) (fun _ => Nat.le_refl n) (Nat.zero_le _)
    · obtain ⟨hat, hthen⟩ := Bool.and_eq_true_iff.1 h.2
      exact h.1.1.seenTwo rfl rfl hat (of_decide_eq_true hthen)
  · -- The operator is one word.
    have hword {p p' : Parser} (h : (S.At stage n 0 scope p p' ∧ nextPrecedence? p ≠ none) ∧
        ¬(p.isAt .kwNot && decide (p.stream.nth 1 = .kwIn)) = true) :
        S.At stage.seen n 0 scope p p' ∧ p.isAt .kwNot = false := by
      obtain ⟨⟨h, hnext⟩, hnot⟩ := h
      unfold nextPrecedence? at hnext
      rw [if_neg hnot] at hnext
      refine ⟨h.seen ?_, decide_eq_false fun hcurrent => hnext (by rw [hcurrent]; rfl)⟩
      rw [isAtEnd_eq_false]
      constructor <;> intro hcurrent <;> exact hnext (by rw [hcurrent]; rfl)
    refine .pre (P := fun p p' => S.At stage.seen n 0 scope p p' ∧ p.isAt .kwNot = false) ?_
      fun _ _ _ h => hword h
    refine .eatAbsent (fun _ p p' h => ⟨h.2, ?_⟩) ?_ ?_
    · rw [h.1.isAt_eq hS (unbarred_code hmode trivial) rfl, h.2]
    · exact .bind keeps_bump fun _ => hf.keeps
    · refine .pre (P := S.At stage.seen n 0 scope) ?_ fun _ _ _ h => h.1
      exact .bind (.bump hscope hon) fun _ _ => hf

/-! ## Expressions -/

/-- What goes on with an expression hands on the node around it. -/
theorem continuation_twin (hr : S.RulesTwin rules rules') (hmode : scope.mode = .code)
    (atomic : Bool) (precedence : Nat) (node : Opening) :
    S.Twin closing (fact ∧ node.Fresh held) (node.places ++ held) (S.At .past n 0 scope)
      (continuation rules atomic precedence node)
      (continuation rules' atomic precedence (S.opening node))
      (Sum.elim (·.places ++ held) (·.places ++ held))
      (Twin.Round (S.Handed held (S.At .past n 0 scope))
        (S.Handed held (S.At .past n 0 scope))) := by
  have hscope {fact : Prop} : fact → S.Follows closing scope := follows_code hmode
  refine .get fun p p' => ?_
  apply Twin.congr_right
  · rintro ⟨_, h⟩
    have hunbarred : S.barred → scope.mode ≠ .markup := unbarred_code hmode trivial
    have hdot : (p'.isDirectlyAt .dot && p'.nthDirectly 1 .ident) =
        (p.isDirectlyAt .dot && p.nthDirectly 1 .ident) := by
      rw [h.isDirectlyAt_eq hS hunbarred rfl rfl]
      cases hat : p.isDirectlyAt .dot with
      | false => rfl
      | true =>
        have hkind := kind_of_isAt rfl (isAt_of_isDirectlyAt hat)
        rw [h.nthDirectly_one_eq hS hmode (by simp [hkind, endless]) rfl]
    rw [h.isDirectlyAt_eq hS hunbarred rfl rfl, h.isDirectlyAt_eq hS hunbarred rfl rfl, hdot,
      h.nextPrecedence_eq hmode]
  refine .pre (P := fun q q' => S.At .past n 0 scope q q' ∧ q = p) ?_ ?_
  · split
    · refine .pre (P := S.At .past n 0 scope) ?_ fun _ _ _ h => h.1
      refine .bind (args_twin hr hmode rfl) fun _ _ => .finishAndWrap fun outer => ?_
      exact .pure (List.Subset.refl _) fun hfact _ _ h => ⟨rfl, hfact.2, h⟩
    split
    · exact .pure (List.Subset.refl _) fun hfact _ _ h => ⟨rfl, hfact.1.2, h.1⟩
    refine .eatOr hscope rfl (fun _ _ _ h => h.1) ?_ ?_
    · refine .bindEq (.expect hscope rfl) fun _ => .finishAndWrap fun outer => ?_
      exact .pure (List.Subset.refl _) fun hfact _ _ h => ⟨rfl, hfact.2, h⟩
    simp only [Bool.false_eq_true, if_false]
    split
    · exact .pure (List.Subset.refl _) fun hfact _ _ h => ⟨rfl, hfact.1.2, h.1.1⟩
    split
    · exact .pure (List.Subset.refl _) fun hfact _ _ h => ⟨rfl, hfact.1.2, h.1.1⟩
    · rename_i hnext _
      refine (operator_twin hmode ?_).pre fun _ _ _ h => ⟨h.1.1, by rw [h.1.2, hnext]; simp⟩
      refine .bind ((hr.expression _ _).run hmode rfl) fun _ _ => .finishAndWrap fun outer => ?_
      exact .pure (List.Subset.refl _) fun hfact _ _ h => ⟨rfl, hfact.2, h⟩
  · rintro ⟨_, h⟩ _ _ ⟨rfl, rfl⟩
    exact ⟨h, rfl⟩

theorem operand_twin (hr : S.RulesTwin rules rules') (hmode : scope.mode = .code) (atomic : Bool)
    (node : Opening) :
    S.Twin closing (fact ∧ node.Fresh held) (node.places ++ held) (S.At .come n 0 scope)
      (operand rules atomic node) (operand rules' atomic (S.opening node))
      (fun node => node.places ++ held) (S.Handed held (S.At .past n 0 scope)) := by
  refine .get fun p p' => ?_
  apply Twin.congr_right
  · rintro ⟨_, h⟩
    rw [h.unaryPrecedence_eq hmode]
  refine .pre (P := fun q q' => S.At .come n 0 scope q q' ∧ q = p) ?_ ?_
  · split
    · rename_i precedence hunary
      have hend : p.isAtEnd = false := by
        rw [isAtEnd_eq_false]
        constructor <;> intro hcurrent <;> rw [hcurrent] at hunary <;> cases atomic <;> cases hunary
      refine .pre (P := S.At .on n 0 scope) ?_ fun _ _ _ h => h.1.seen (h.2 ▸ hend)
      refine .bind (.bump (follows_code hmode) rfl) fun _ _ => ?_
      refine .bind ((hr.expression _ _).run hmode rfl) fun _ _ => ?_
      exact .bindEq (.finish (by simp) .unary) fun _ => .wrapInner List.mem_cons_self fun _ hk =>
        List.mem_cons_of_mem _ (List.mem_append_right _ hk)
    · refine .pre (P := S.At .come n 0 scope) ?_ fun _ _ _ h => h.1
      refine .bind ((primary_passes hr atomic).run hmode rfl) fun _ _ => ?_
      exact .pure (List.Subset.refl _) fun hfact _ _ h => ⟨rfl, hfact.1.2, h⟩
  · rintro ⟨_, h⟩ _ _ ⟨rfl, rfl⟩
    exact ⟨h, rfl⟩

theorem expression_passes (hr : S.RulesTwin rules rules') (atomic : Bool) (precedence : Nat) :
    S.Passes .come (expression rules atomic precedence) (expression rules' atomic precedence) := by
  intro closing fact held n scope hmode
  refine .bindNode .start fun node => .bindNode (operand_twin hr hmode atomic node) fun node => ?_
  refine .bindNode (.loopNode (fun node => continuation_twin hr hmode atomic precedence node) node)
    fun node => ?_
  exact .dissolve (by simp) (by simp) fun h => h.2

end Sides

end TypstFormat
