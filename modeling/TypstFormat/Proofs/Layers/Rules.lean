import TypstFormat.Grammar.Document
import TypstFormat.Proofs.Layers.Action

/-!
# Rules that leave what they enter

Each rule of the grammar leaves the layers that it enters, if the recursive rules do. Where a rule
may give up, go on after an error or read something again, all its ways lead out of the same layers.

A proof follows its rule action by action. Where several ways of a rule come together again, what is
left to be done there is proved first.

## Key results

- `restores_embeddedCode`, `restores_math`, `restores_equation`, `restores_contentBlock`,
  `restores_code`, `restores_codeBlock`: blocks
- `restores_args`, `collection_ensures`: items between parentheses
- `restores_primary`, `restores_expression`: expressions
- `restores_markup`: markup
- `rules_restore`: the rules, however deeply they may be nested
-/

namespace TypstFormat

open Parse

/-- The recursive rules leave what they enter. -/
structure Rules.Restore (rules : Rules) : Prop where
  expression (atomic : Bool) (precedence : Nat) : Restores (rules.expression atomic precedence)
  markup (atLineStart : Bool) (extent : Extent) (stops : List Kind) :
    Restores (rules.markup atLineStart extent stops)
  conditional : Restores rules.conditional

namespace Grammar

variable {rules : Rules} {p : Parser} {layers : List Layer}

/-! ## Blocks -/

theorem restores_embeddedCode (hr : rules.Restore) : Restores (embeddedCode rules) := by
  intro p layers
  have hleave : Ensures (Nested p (.breakRule :: .mode :: layers)) (do leaveBreakRule; leaveMode)
      fun _ => Nested p layers :=
    Ensures.leaveBreakRule.seq Ensures.leaveMode
  have hreport {report : Parse Unit} (h : Restores report) :
      Ensures (Nested p (.breakRule :: .mode :: layers)) (do report; leaveBreakRule; leaveMode)
        fun _ => Nested p layers :=
    h.seq hleave
  refine restores_bump.seq ?_
  refine (Ensures.enterMode .code).seq ?_
  refine (Ensures.enterBreakRule .ends).seq ?_
  refine Ensures.get fun q => ?_
  refine Ensures.ite _ ?_ ?_
  · exact hreport restores_reportMissingExpression
  · refine (hr.expression true 0).seq ?_
    refine Ensures.ask fun mayEnd => ?_
    extract_lets next
    have hnext (ended : Bool) : Ensures (Nested p (.breakRule :: .mode :: layers)) (next ended)
        fun _ => Nested p layers := by
      refine Ensures.ite _ ?_ ?_
      · refine Ensures.ask fun isLast => ?_
        refine Ensures.ite _ ?_ ?_
        · exact hleave
        · exact hreport restores_reportMissingSeparator
      · exact hleave
    refine Ensures.ite _ ?_ ?_
    · exact (restores_eat .semicolon).run.bind hnext
    · exact hnext false

theorem restores_math (hr : rules.Restore) (stops : List Kind) : Restores (math rules stops) := by
  have hround (progress : Progress) : Restores (do
      if (← isAt .eof) || (← isAtAny stops) then
        return .inr ()
      else
        let progress ← advance progress
        if ← isAt .hash then embeddedCode rules else bump
        return .inl progress : Parse (Progress ⊕ Unit)) := by
    intro p layers
    refine Ensures.ask fun isAtEof => ?_
    refine Ensures.ask fun isAtStop => ?_
    refine Ensures.ite _ ?_ ?_
    · exact Ensures.done
    · refine (restores_advance progress).run.bind fun progress => ?_
      refine Ensures.ask fun isAtHash => ?_
      refine Ensures.ite _ ?_ ?_
      · exact ((restores_embeddedCode hr).returning _).run
      · exact (restores_bump.returning _).run
  intro p layers
  refine Ensures.start.bind fun node => ?_
  refine (Restores.loop hround {}).seq ?_
  exact Ensures.finishOff (by decide)

theorem restores_equation (hr : rules.Restore) : Restores (equation rules) := by
  intro p layers
  refine Ensures.start.bind fun node => ?_
  refine Ensures.ask fun opening => ?_
  refine restores_bump.seq ?_
  refine (Ensures.enterMode .math).seq ?_
  refine (Ensures.enterBreakRule .ignored).seq ?_
  refine (restores_math hr [.dollar]).seq ?_
  refine (restores_expectClosing opening .dollar).seq ?_
  refine Ensures.leaveBreakRule.seq ?_
  refine Ensures.leaveMode.seq ?_
  exact Ensures.finishOff (by decide)

theorem restores_contentBlock (hr : rules.Restore) : Restores (contentBlock rules) := by
  intro p layers
  refine Ensures.start.bind fun node => ?_
  refine Ensures.ask fun opening => ?_
  refine restores_bump.seq ?_
  refine (Ensures.enterMode .markup).seq ?_
  refine (hr.markup true .unbounded [.rightBracket]).seq ?_
  refine (restores_expectClosing opening .rightBracket).seq ?_
  refine Ensures.leaveMode.seq ?_
  exact Ensures.finishOff (by decide)

theorem restores_statement (hr : rules.Restore) (stops : List Kind) :
    Restores (statement rules stops) := by
  intro p layers
  have hleave : Ensures (Nested p (.breakRule :: layers)) (do leaveBreakRule; return true)
      fun _ => Nested p layers :=
    Ensures.leaveBreakRule.seq Ensures.done
  refine (restores_eat .semicolon).run.bind fun isEmpty => ?_
  refine Ensures.ite _ ?_ ?_
  · exact Ensures.done
  · refine Ensures.ask fun starts => ?_
    refine Ensures.ite _ ?_ ?_
    · refine (Ensures.enterBreakRule .endsUnlessContinued).seq ?_
      refine (hr.expression false 0).seq ?_
      refine Ensures.ask fun isLast => ?_
      refine Ensures.ite _ ?_ ?_
      · exact hleave
      · refine (restores_eat .semicolon).run.bind fun isSeparated => ?_
        refine Ensures.ite _ ?_ ?_
        · exact hleave
        · exact restores_reportMissingSeparator.seq hleave
    · exact Ensures.done

theorem restores_skipToStatement : Restores skipToStatement := by
  intro p layers
  refine restores_reportUnexpected.seq ?_
  refine (restores_recover (by decide) statementResumes).run.bind fun recovery => ?_
  cases recovery <;> exact Ensures.done

theorem restores_code (hr : rules.Restore) (stops : List Kind) : Restores (code rules stops) :=
  restores_nodeList (by decide) _ (restores_statement hr stops) restores_skipToStatement

theorem restores_codeBlock (hr : rules.Restore) : Restores (codeBlock rules) := by
  intro p layers
  refine Ensures.start.bind fun node => ?_
  refine Ensures.ask fun opening => ?_
  refine (Ensures.enterBreakRule .ignored).seq ?_
  refine restores_bump.seq ?_
  refine (restores_code hr closingDelimiters).seq ?_
  refine (restores_expectClosing opening .rightBrace).seq ?_
  refine Ensures.leaveBreakRule.seq ?_
  exact Ensures.finishOff (by decide)

/-! ## Items between parentheses -/

theorem restores_keyedItem (hr : rules.Restore) : Restores (keyedItem rules) := by
  intro p layers
  refine Ensures.start.bind fun node => ?_
  refine Ensures.ask fun isAtIdent => ?_
  refine Ensures.ask fun second => ?_
  refine Ensures.ite _ ?_ ?_
  · refine restores_bump.seq ?_
    refine restores_bump.seq ?_
    refine (hr.expression false 0).seq ?_
    exact Ensures.finishLast (by decide)
  · refine (hr.expression false 0).seq ?_
    refine (restores_eat .colon).run.bind fun isKeyed => ?_
    refine Ensures.ite _ ?_ ?_
    · refine (hr.expression false 0).seq ?_
      exact Ensures.finishLast (by decide)
    · exact Ensures.dissolve.seq Ensures.done

theorem restores_item (hr : rules.Restore) : Restores (item rules) := by
  intro p layers
  refine Ensures.ask fun isAtDots => ?_
  refine Ensures.ite _ ?_ ?_
  · refine Ensures.start.bind fun node => ?_
    refine restores_bump.seq ?_
    refine Ensures.ask fun isSpread => ?_
    refine Ensures.ite _ ?_ ?_
    · refine (hr.expression false 0).seq ?_
      exact Ensures.finishLast (by decide)
    · exact Ensures.finishLast (by decide)
  · refine Ensures.ask fun starts => ?_
    refine Ensures.ite _ ?_ ?_
    · refine (restores_keyedItem hr).run.bind fun item => ?_
      exact Ensures.done
    · exact Ensures.done

theorem restores_skipToItem : Restores skipToItem := by
  intro p layers
  refine restores_reportUnexpected.seq ?_
  refine (restores_recover (by decide) itemResumes).run.bind fun recovery => ?_
  cases recovery <;> exact Ensures.done

theorem restores_nextItem (hr : rules.Restore) (collected : Collected) :
    Restores (nextItem rules collected) := by
  intro p layers
  refine Ensures.ask fun isAtEnd => ?_
  refine Ensures.ite _ ?_ ?_
  · exact Ensures.done
  · refine (restores_advance collected.progress).run.bind fun progress => ?_
    refine (restores_item hr).run.bind fun found => ?_
    extract_lets all next
    have hnext (ended : Bool) :
        Ensures (Nested p layers) (next ended) fun _ => Nested p layers := by
      refine Ensures.ask fun isLast => ?_
      refine Ensures.ite _ ?_ ?_
      · exact Ensures.done
      · refine (restores_expect .comma none).run.bind fun comma => ?_
        exact Ensures.done
    refine Ensures.ite _ ?_ ?_
    · exact restores_skipToItem.run.bind hnext
    · exact hnext false

theorem restores_items (hr : rules.Restore) : Restores (items rules) := by
  intro p layers
  refine Ensures.ask fun opening => ?_
  refine (Ensures.enterBreakRule .ignored).seq ?_
  refine (restores_expect .leftParen none).seq ?_
  refine (Restores.loop (restores_nextItem hr) {}).run.bind fun collected => ?_
  refine (restores_expectClosing opening .rightParen).seq ?_
  exact Ensures.leaveBreakRule.seq Ensures.done

theorem Collected.kind_ne_tombstone (collected : Collected) : collected.kind ≠ .tombstone := by
  unfold Collected.kind
  split
  · decide
  · split <;> decide

/-- A list between parentheses is put down as a node. -/
theorem collection_ensures (hr : rules.Restore) {kind : Option Kind}
    (hkind : ∀ k ∈ kind, k ≠ .tombstone) :
    Ensures (Nested p layers) (collection rules kind) (Finished p layers) := by
  have hne {default : Kind} (h : default ≠ .tombstone) : kind.getD default ≠ .tombstone := by
    cases kind with
    | none => exact h
    | some k => exact hkind k rfl
  refine Ensures.start.bind fun node => ?_
  refine Ensures.ask fun isAtParen => ?_
  refine Ensures.ask fun second => ?_
  refine Ensures.ask fun third => ?_
  refine Ensures.ite _ ?_ ?_
  · refine restores_bump.seq ?_
    refine restores_bump.seq ?_
    refine restores_bump.seq ?_
    exact Ensures.finish (hne (by decide))
  · refine (restores_items hr).run.bind fun collected => ?_
    exact Ensures.finish (hne collected.kind_ne_tombstone)

theorem restores_trailingBlocks (hr : rules.Restore) : Restores (trailingBlocks rules) := by
  refine Restores.loop (fun _ => ?_) ()
  intro p layers
  refine Ensures.ask fun isAtBracket => ?_
  refine Ensures.ite _ ?_ ?_
  · exact ((restores_contentBlock hr).returning _).run
  · exact Ensures.done

theorem restores_args (hr : rules.Restore) : Restores (args rules) := by
  intro p layers
  have hblocks (node : Opening) : Ensures (Nested p (.node node :: layers)) (do
      trailingBlocks rules
      node.finish .args) fun _ => Nested p layers := by
    refine (restores_trailingBlocks hr).seq ?_
    exact Ensures.finishOff (by decide)
  refine Ensures.start.bind fun node => ?_
  refine Ensures.ask fun isAtParen => ?_
  refine Ensures.ite _ ?_ ?_
  · exact (restores_items hr).seq (hblocks node)
  · exact hblocks node

/-- A list that turns out to be a pattern gets another kind, unless it is only parenthesized. -/
theorem destructure_ensures {list : Closed} :
    Ensures (Finished p layers list) (do
      unless (← list.kind) = .parenthesized do
        list.rename .destructuring) fun _ => Nested p layers := by
  have hrenamed : Ensures (Finished p layers list) (list.rename .destructuring)
      fun _ => Finished p layers list := Ensures.rename (by decide)
  refine Ensures.kind.bind fun kind => ?_
  refine Ensures.ite _ ?_ ?_
  · exact Ensures.pure fun _ h => h.nested
  · exact hrenamed.post fun _ _ h => h.nested

theorem restores_pattern (hr : rules.Restore) : Restores (pattern rules) := by
  intro p layers
  refine Ensures.ask fun isAtIdent => ?_
  refine Ensures.ask fun isAtUnderscore => ?_
  refine Ensures.ite _ ?_ ?_
  · exact restores_bump.run
  · refine Ensures.ask fun isAtParen => ?_
    refine Ensures.ite _ ?_ ?_
    · refine (collection_ensures hr (by simp)).bind fun list => ?_
      exact destructure_ensures
    · exact ((restores_expect .ident "pattern").returning ()).run

theorem restores_path : Restores path := by
  refine Restores.loop (fun _ => ?_) ()
  intro p layers
  refine (restores_eat .dot).run.bind fun goesOn => ?_
  refine Ensures.ite _ ?_ ?_
  · exact ((restores_expect .ident none).returning _).run
  · exact Ensures.done

theorem restores_importItem : Restores importItem := by
  intro p layers
  refine Ensures.start.bind fun node => ?_
  refine restores_bump.seq ?_
  refine restores_path.seq ?_
  refine (restores_eat .kwAs).run.bind fun isRenamed => ?_
  refine Ensures.ite _ ?_ ?_
  · refine (restores_expect .ident none).seq ?_
    exact Ensures.finishLast (by decide)
  · exact Ensures.dissolve

theorem restores_nextImportItem (progress : Progress) : Restores (nextImportItem progress) := by
  intro p layers
  have hcomma (progress : Progress) (ended : Bool) : Ensures (Nested p layers) (do
      if ended then
        return .inr ()
      else
        unless ← isAtTerminator do
          let _ ← expect .comma
        return .inl progress : Parse (Progress ⊕ Unit)) fun _ => Nested p layers := by
    refine Ensures.ite _ ?_ ?_
    · exact Ensures.done
    · refine Ensures.ask fun isLast => ?_
      refine Ensures.ite _ ?_ ?_
      · exact Ensures.done
      · exact ((restores_expect .comma none).returning _).run
  refine Ensures.ask fun isAtEnd => ?_
  refine Ensures.ite _ ?_ ?_
  · exact Ensures.done
  · refine (restores_advance progress).run.bind fun progress => ?_
    refine Ensures.ask fun isAtIdent => ?_
    refine Ensures.ite _ ?_ ?_
    · exact restores_importItem.seq (hcomma progress false)
    · exact restores_skipToItem.run.bind (hcomma progress)

theorem restores_importItems : Restores importItems := by
  intro p layers
  refine Ensures.start.bind fun node => ?_
  refine (Restores.loop restores_nextImportItem {}).seq ?_
  exact Ensures.finishLast (by decide)

/-! ## Expressions that start with a keyword -/

theorem restores_block (hr : rules.Restore) : Restores (block rules) := by
  intro p layers
  refine Ensures.ask fun isAtBracket => ?_
  refine Ensures.ite _ ?_ ?_
  · exact ((restores_contentBlock hr).returning ()).run
  · refine Ensures.ask fun isAtBrace => ?_
    refine Ensures.ite _ ?_ ?_
    · exact ((restores_codeBlock hr).returning ()).run
    · exact ((restores_expect .leftBrace "block").returning ()).run

theorem restores_initializer (hr : rules.Restore) (isRequired : Bool) :
    Restores (initializer rules isRequired) := by
  intro p layers
  have hvalue (found : Bool) : Ensures (Nested p layers)
      (if found = true then rules.expression false 0 else return ()) fun _ => Nested p layers := by
    refine Ensures.ite _ ?_ ?_
    · exact (hr.expression false 0).run
    · exact Ensures.done
  cases isRequired with
  | true => exact (restores_expect .eq none).run.bind hvalue
  | false => exact (restores_eat .eq).run.bind hvalue

theorem restores_bound (hr : rules.Restore) : Restores (bound rules) := by
  intro p layers
  refine Ensures.ask fun isAtIdent => ?_
  refine Ensures.ite _ ?_ ?_
  · refine restores_bump.seq ?_
    refine Ensures.ask fun isClosure => ?_
    refine Ensures.ite _ ?_ ?_
    · refine (collection_ensures hr (by simp)).bind fun params => ?_
      exact Ensures.pure fun _ h => h.nested
    · exact Ensures.done
  · exact ((restores_pattern hr).returning _).run

theorem restores_letBinding (hr : rules.Restore) : Restores (letBinding rules) := by
  intro p layers
  refine Ensures.start.bind fun node => ?_
  refine restores_bump.seq ?_
  refine Ensures.start.bind fun closure => ?_
  refine (restores_bound hr).run.bind fun ⟨isClosure, needsValue⟩ => ?_
  refine (restores_initializer hr needsValue).seq ?_
  refine Ensures.ite _ ?_ ?_
  · have hclosure : Ensures (Nested p (.node closure :: .node node :: layers))
        (closure.finish .closure) fun _ => Nested p (.node node :: layers) :=
      Ensures.finishOff (by decide)
    refine hclosure.seq ?_
    exact Ensures.finishLast (by decide)
  · refine Ensures.dissolve.seq ?_
    exact Ensures.finishLast (by decide)

theorem restores_setTarget : Restores setTarget := by
  intro p layers
  -- In each round the target is another node, around the one of the round before.
  have hround (target : Opening) : Ensures (Nested p (.node target :: layers)) (do
      if ← eat .dot then
        let _ ← expect .ident
        return .inl (← (← target.finish .fieldAccess).wrap)
      else
        return .inr target : Parse (Opening ⊕ Opening))
      (Sum.elim (fun target => Nested p (.node target :: layers))
        fun target => Nested p (.node target :: layers)) := by
    refine (restores_eat .dot).run.bind fun goesOn => ?_
    refine Ensures.ite _ ?_ ?_
    · refine (restores_expect .ident none).seq ?_
      refine Ensures.finishAndWrap (by decide) fun outer => ?_
      exact Ensures.pure fun _ h => h
    · exact Ensures.pure fun _ h => h
  refine Ensures.start.bind fun target => ?_
  refine (restores_expect .ident none).seq ?_
  refine (Ensures.loop hround target).bind fun outermost => ?_
  exact Ensures.dissolve

theorem restores_setRule (hr : rules.Restore) : Restores (setRule rules) := by
  intro p layers
  have hcondition (node : Opening) : Ensures (Nested p (.node node :: layers)) (do
      if ← eat .kwIf then
        rules.expression false 0
      let _ ← node.finish .setRule) fun _ => Nested p layers := by
    refine (restores_eat .kwIf).run.bind fun isConditional => ?_
    refine Ensures.ite _ ?_ ?_
    · refine (hr.expression false 0).seq ?_
      exact Ensures.finishLast (by decide)
    · exact Ensures.finishLast (by decide)
  refine Ensures.start.bind fun node => ?_
  refine restores_bump.seq ?_
  refine restores_setTarget.seq ?_
  refine Ensures.ask fun isAtParen => ?_
  refine Ensures.ask fun isAtBracket => ?_
  refine Ensures.ite _ ?_ ?_
  · exact (restores_args hr).seq (hcondition node)
  · exact (restores_expect .leftParen none).seq (hcondition node)

theorem restores_showRule (hr : rules.Restore) : Restores (showRule rules) := by
  intro p layers
  have htransform (node : Opening) : Ensures (Nested p (.node node :: layers)) (do
      if ← expect .colon then
        rules.expression false 0
      let _ ← node.finish .showRule) fun _ => Nested p layers := by
    refine (restores_expect .colon none).run.bind fun isFound => ?_
    refine Ensures.ite _ ?_ ?_
    · refine (hr.expression false 0).seq ?_
      exact Ensures.finishLast (by decide)
    · exact Ensures.finishLast (by decide)
  refine Ensures.start.bind fun node => ?_
  refine restores_bump.seq ?_
  refine Ensures.ask fun isAtColon => ?_
  refine Ensures.ite _ ?_ ?_
  · exact htransform node
  · exact (hr.expression false 0).seq (htransform node)

theorem restores_contextual (hr : rules.Restore) (atomic : Bool) :
    Restores (contextual rules atomic) := by
  intro p layers
  refine Ensures.start.bind fun node => ?_
  refine restores_bump.seq ?_
  refine (hr.expression atomic 0).seq ?_
  exact Ensures.finishLast (by decide)

theorem restores_conditional (hr : rules.Restore) : Restores (conditional rules) := by
  intro p layers
  refine Ensures.start.bind fun node => ?_
  refine restores_bump.seq ?_
  refine (hr.expression false 0).seq ?_
  refine (restores_block hr).seq ?_
  refine (restores_eat .kwElse).run.bind fun hasElse => ?_
  refine Ensures.ite _ ?_ ?_
  · refine Ensures.ask fun isChained => ?_
    refine Ensures.ite _ ?_ ?_
    · refine hr.conditional.seq ?_
      exact Ensures.finishLast (by decide)
    · refine (restores_block hr).seq ?_
      exact Ensures.finishLast (by decide)
  · exact Ensures.finishLast (by decide)

theorem restores_whileLoop (hr : rules.Restore) : Restores (whileLoop rules) := by
  intro p layers
  refine Ensures.start.bind fun node => ?_
  refine restores_bump.seq ?_
  refine (hr.expression false 0).seq ?_
  refine (restores_block hr).seq ?_
  exact Ensures.finishLast (by decide)

theorem restores_forLoop (hr : rules.Restore) : Restores (forLoop rules) := by
  intro p layers
  have hbody (node : Opening) : Ensures (Nested p (.node node :: layers)) (do
      block rules
      let _ ← node.finish .forLoop) fun _ => Nested p layers := by
    refine (restores_block hr).seq ?_
    exact Ensures.finishLast (by decide)
  refine Ensures.start.bind fun node => ?_
  refine restores_bump.seq ?_
  refine (restores_pattern hr).seq ?_
  refine (restores_expect .kwIn none).run.bind fun isFound => ?_
  refine Ensures.ite _ ?_ ?_
  · exact (hr.expression false 0).seq (hbody node)
  · exact hbody node

theorem restores_imported : Restores imported := by
  intro p layers
  refine Ensures.ask fun isAtParen => ?_
  refine Ensures.ite _ ?_ ?_
  · refine Ensures.ask fun opening => ?_
    refine (Ensures.enterBreakRule .ignored).seq ?_
    refine restores_bump.seq ?_
    refine restores_importItems.seq ?_
    refine (restores_expectClosing opening .rightParen).seq ?_
    exact Ensures.leaveBreakRule
  · refine (restores_eat .star).run.bind fun isEverything => ?_
    refine Ensures.ite _ ?_ ?_
    · exact Ensures.done
    · exact restores_importItems.run

theorem restores_moduleImport (hr : rules.Restore) : Restores (moduleImport rules) := by
  intro p layers
  have hcontents (node : Opening) : Ensures (Nested p (.node node :: layers)) (do
      if ← eat .colon then
        imported
      let _ ← node.finish .moduleImport) fun _ => Nested p layers := by
    refine (restores_eat .colon).run.bind fun hasContents => ?_
    refine Ensures.ite _ ?_ ?_
    · refine restores_imported.seq ?_
      exact Ensures.finishLast (by decide)
    · exact Ensures.finishLast (by decide)
  refine Ensures.start.bind fun node => ?_
  refine restores_bump.seq ?_
  refine (hr.expression false 0).seq ?_
  refine (restores_eat .kwAs).run.bind fun isRenamed => ?_
  refine Ensures.ite _ ?_ ?_
  · exact (restores_expect .ident none).seq (hcontents node)
  · exact hcontents node

theorem restores_moduleInclude (hr : rules.Restore) : Restores (moduleInclude rules) := by
  intro p layers
  refine Ensures.start.bind fun node => ?_
  refine restores_bump.seq ?_
  refine (hr.expression false 0).seq ?_
  exact Ensures.finishLast (by decide)

theorem restores_funcReturn (hr : rules.Restore) : Restores (funcReturn rules) := by
  intro p layers
  refine Ensures.start.bind fun node => ?_
  refine restores_bump.seq ?_
  refine Ensures.ask fun hasValue => ?_
  refine Ensures.ite _ ?_ ?_
  · refine (hr.expression false 0).seq ?_
    exact Ensures.finishLast (by decide)
  · exact Ensures.finishLast (by decide)

theorem restores_loneKeyword {kind : Kind} (hkind : kind ≠ .tombstone) :
    Restores (loneKeyword kind) := by
  intro p layers
  refine Ensures.start.bind fun node => ?_
  refine restores_bump.seq ?_
  exact Ensures.finishLast hkind

/-! ## Expressions -/

/-- The body of a function, whose node is started around its parameters. -/
private theorem closure_ensures (hr : rules.Restore) (closure : Opening) :
    Ensures (Nested p (.node closure :: layers)) (do
      bump
      rules.expression false 0
      let _ ← closure.finish .closure) fun _ => Nested p layers := by
  refine restores_bump.seq ?_
  refine (hr.expression false 0).seq ?_
  exact Ensures.finishLast (by decide)

theorem restores_loneParamClosure (hr : rules.Restore) : Restores (loneParamClosure rules) := by
  intro p layers
  refine Ensures.start.bind fun params => ?_
  refine restores_bump.seq ?_
  refine Ensures.finishAndWrap (by decide) fun closure => ?_
  exact closure_ensures hr closure

theorem restores_parenthesized (hr : rules.Restore) (atomic : Bool) :
    Restores (parenthesized rules atomic) := by
  intro p layers q a r hq hrun
  obtain ⟨mark, q₁, hmark, hrest⟩ := bind_eq_ok hrun
  cases hmark
  obtain ⟨list, q₂, hlist, hrest⟩ := bind_eq_ok hrest
  have hfinished : Finished q [] list q₂ := collection_ensures hr (by simp) q list q₂ (.refl q) hlist
  -- Behind the list, the parser may go back to where it was in front of it, inside `layers`.
  have hreread : Ensures (Finished q [] list) (do
      modify (·.rewind q.mark)
      let closure ← (← collection rules (some .params)).wrap
      bump
      rules.expression false 0
      let _ ← closure.finish .closure) fun _ => Nested p layers := by
    have hback : Ensures (Finished q [] list) (modify (·.rewind q.mark) : Parse PUnit)
        fun _ => Nested p layers := (Ensures.rewind hq).pre fun _ h => h.nested
    refine hback.seq ?_
    refine (collection_ensures hr (by simp)).bind fun params => ?_
    refine Ensures.wrap.bind fun closure => ?_
    exact closure_ensures hr closure
  have hinside (s : Parser) (h : Finished q [] list s) : Finished p layers list s := h.inside hq
  have hrules : Ensures (Finished q [] list) (do
      unless atomic do
        if ← isAt .arrow then
          modify (·.rewind q.mark)
          let closure ← (← collection rules (some .params)).wrap
          bump
          rules.expression false 0
          let _ ← closure.finish .closure
        else if ← isAt .eq then
          unless (← list.kind) = .parenthesized do
            list.rename .destructuring) fun _ => Nested p layers := by
    refine Ensures.ite _ ?_ ?_
    · exact Ensures.pure fun s h => (hinside s h).nested
    · refine Ensures.ask fun isFunction => ?_
      refine Ensures.ite _ ?_ ?_
      · exact hreread
      · refine Ensures.ask fun isPattern => ?_
        refine Ensures.ite _ ?_ ?_
        · exact destructure_ensures.pre hinside
        · exact Ensures.pure fun s h => (hinside s h).nested
  exact hrules q₂ a r hfinished hrest

theorem restores_primary (hr : rules.Restore) (atomic : Bool) :
    Restores (primary rules atomic) := by
  intro p layers
  have hname : Restores (do
      if !atomic && (← nth 1) = .arrow then loneParamClosure rules else bump : Parse Unit) := by
    intro p layers
    refine Ensures.ask fun second => ?_
    refine Ensures.ite _ ?_ ?_
    · exact (restores_loneParamClosure hr).run
    · exact restores_bump.run
  refine Ensures.ask fun kind => ?_
  split
  · exact hname.run
  · exact hname.run
  · exact ((restores_codeBlock hr).returning ()).run
  · exact ((restores_contentBlock hr).returning ()).run
  · exact (restores_parenthesized hr atomic).run
  · exact ((restores_equation hr).returning ()).run
  · exact (restores_letBinding hr).run
  · exact (restores_setRule hr).run
  · exact (restores_showRule hr).run
  · exact (restores_contextual hr atomic).run
  · exact (restores_conditional hr).run
  · exact (restores_whileLoop hr).run
  · exact (restores_forLoop hr).run
  · exact (restores_moduleImport hr).run
  · exact (restores_moduleInclude hr).run
  · exact (restores_loneKeyword (by decide)).run
  · exact (restores_loneKeyword (by decide)).run
  · exact (restores_funcReturn hr).run
  · refine Ensures.ite _ ?_ ?_
    · exact restores_bump.run
    · exact restores_reportMissingExpression.run

/-- What goes on with an expression is put into its node, which gives way to one around it. -/
theorem continuation_ensures (hr : rules.Restore) (atomic : Bool) (precedence : Nat)
    (node : Opening) :
    Ensures (Nested p (.node node :: layers)) (continuation rules atomic precedence node)
      (Sum.elim (fun node => Nested p (.node node :: layers))
        fun node => Nested p (.node node :: layers)) := by
  have hwrap {kind : Kind} (hkind : kind ≠ .tombstone) :
      Ensures (Nested p (.node node :: layers)) (do
        return .inl (← (← node.finish kind).wrap) : Parse (Opening ⊕ Opening))
        (Sum.elim (fun node => Nested p (.node node :: layers))
          fun node => Nested p (.node node :: layers)) := by
    refine Ensures.finishAndWrap hkind fun outer => ?_
    exact Ensures.pure fun _ h => h
  refine Ensures.get fun q => ?_
  refine Ensures.ite _ ?_ ?_
  · exact (restores_args hr).seq (hwrap (by decide))
  · refine Ensures.ite _ ?_ ?_
    · exact Ensures.pure fun _ h => h
    · refine (restores_eat .dot).run.bind fun isAccess => ?_
      refine Ensures.ite _ ?_ ?_
      · exact (restores_expect .ident none).seq (hwrap (by decide))
      · split
        · exact Ensures.pure fun _ h => h
        · refine Ensures.ite _ ?_ ?_
          · exact Ensures.pure fun _ h => h
          · refine (restores_eat .kwNot).seq ?_
            refine restores_bump.seq ?_
            refine (hr.expression _ _).seq ?_
            exact hwrap (by decide)

theorem operand_ensures (hr : rules.Restore) (atomic : Bool) (node : Opening) :
    Ensures (Nested p (.node node :: layers)) (operand rules atomic node)
      fun node => Nested p (.node node :: layers) := by
  refine Ensures.get fun q => ?_
  split
  · refine restores_bump.seq ?_
    refine (hr.expression _ _).seq ?_
    refine (Ensures.finish (by decide)).bind fun closed => ?_
    exact Ensures.wrap
  · exact (restores_primary hr atomic).seq (Ensures.pure fun _ h => h)

theorem restores_expression (hr : rules.Restore) (atomic : Bool) (precedence : Nat) :
    Restores (expression rules atomic precedence) := by
  intro p layers
  refine Ensures.start.bind fun node => ?_
  refine (operand_ensures hr atomic node).bind fun inner => ?_
  refine (Ensures.loop (continuation_ensures hr atomic precedence) inner).bind fun outermost => ?_
  exact Ensures.dissolve

/-! ## Markup -/

theorem restores_blanks : Restores blanks := by
  refine Restores.loop (fun _ => ?_) ()
  intro p layers
  refine Ensures.ask fun isBlank => ?_
  refine Ensures.ite _ ?_ ?_
  · exact (restores_bump.returning _).run
  · exact Ensures.done

theorem restores_delimited (hr : rules.Restore) (delimiter : Kind) {kind : Kind}
    (hkind : kind ≠ .tombstone) : Restores (delimited rules delimiter kind) := by
  intro p layers
  refine Ensures.start.bind fun node => ?_
  refine Ensures.ask fun opening => ?_
  refine restores_bump.seq ?_
  refine (hr.markup false .unbounded [delimiter, .parbreak, .rightBracket]).seq ?_
  refine (restores_expectClosing opening delimiter).seq ?_
  exact Ensures.finishLast hkind

theorem restores_heading (hr : rules.Restore) : Restores (heading rules) := by
  intro p layers
  refine Ensures.start.bind fun node => ?_
  refine restores_bump.seq ?_
  refine restores_blanks.seq ?_
  refine (hr.markup false .line [.label, .rightBracket]).seq ?_
  exact Ensures.finishLast (by decide)

theorem restores_listItem (hr : rules.Restore) {kind : Kind} (hkind : kind ≠ .tombstone) :
    Restores (listItem rules kind) := by
  intro p layers
  refine Ensures.start.bind fun node => ?_
  refine Ensures.ask fun extent => ?_
  refine restores_bump.seq ?_
  refine restores_blanks.seq ?_
  refine (hr.markup false extent [.rightBracket]).seq ?_
  exact Ensures.finishLast hkind

theorem restores_termItem (hr : rules.Restore) : Restores (termItem rules) := by
  intro p layers
  refine Ensures.start.bind fun node => ?_
  refine Ensures.ask fun extent => ?_
  refine restores_bump.seq ?_
  refine restores_blanks.seq ?_
  refine (hr.markup false .line [.colon, .rightBracket]).seq ?_
  refine (restores_expect .colon none).seq ?_
  refine restores_blanks.seq ?_
  refine (hr.markup false extent [.rightBracket]).seq ?_
  exact Ensures.finishLast (by decide)

theorem restores_reference (hr : rules.Restore) : Restores (reference rules) := by
  intro p layers
  refine Ensures.start.bind fun node => ?_
  refine restores_bump.seq ?_
  refine Ensures.ask fun hasSupplement => ?_
  refine Ensures.ite _ ?_ ?_
  · refine (restores_contentBlock hr).seq ?_
    exact Ensures.finishLast (by decide)
  · exact Ensures.finishLast (by decide)

theorem restores_markupElement (hr : rules.Restore) (atLineStart : Bool) :
    Restores (markupElement rules atLineStart) := by
  intro p layers
  refine Ensures.ask fun kind => ?_
  split
  · exact (restores_bump.returning atLineStart).run
  · exact (restores_bump.returning atLineStart).run
  · exact (restores_bump.returning atLineStart).run
  · exact ((restores_embeddedCode hr).returning false).run
  · exact ((restores_delimited hr .star (by decide)).returning false).run
  · exact ((restores_delimited hr .underscore (by decide)).returning false).run
  · exact ((restores_reference hr).returning false).run
  · exact ((restores_equation hr).returning false).run
  · split
    · exact ((restores_heading hr).returning false).run
    · exact ((restores_listItem hr (by decide)).returning false).run
    · exact ((restores_listItem hr (by decide)).returning false).run
    · exact ((restores_termItem hr).returning false).run
    · refine Ensures.ite _ ?_ ?_
      · exact (restores_bumpText.returning false).run
      · exact (restores_bump.returning false).run

theorem restores_nextMarkup (hr : rules.Restore) (extent : Extent) (stops : List Kind)
    (state : MarkupState) : Restores (nextMarkup rules extent stops state) := by
  intro p layers
  refine Ensures.ask fun isAtEof => ?_
  refine Ensures.ite _ ?_ ?_
  · exact Ensures.done
  · refine (restores_advance state.progress).run.bind fun progress => ?_
    refine Ensures.get fun q => ?_
    split
    · exact Ensures.done
    · refine Ensures.ite _ ?_ ?_
      · refine Ensures.ite _ ?_ ?_
        · exact Ensures.done
        · exact (restores_bump.returning _).run
      · refine (restores_markupElement hr state.atLineStart).run.bind fun atLineStart => ?_
        exact Ensures.done

theorem restores_markup (hr : rules.Restore) (atLineStart : Bool) (extent : Extent)
    (stops : List Kind) : Restores (markup rules atLineStart extent stops) := by
  intro p layers
  refine Ensures.start.bind fun node => ?_
  refine (Restores.loop (restores_nextMarkup hr extent stops) { atLineStart }).seq ?_
  exact Ensures.finishOff (by decide)

/-! ## The recursive rules -/

/-- Rules that may be nested to any depth leave what they enter. -/
theorem rules_restore (depth : Nat) : (Grammar.rules depth).Restore := by
  induction depth with
  | zero =>
    exact ⟨fun _ _ _ _ => .throw _, fun _ _ _ _ _ => .throw _, fun _ _ => .throw _⟩
  | succ depth ih =>
    exact ⟨restores_expression ih, restores_markup ih, restores_conditional ih⟩

end Grammar

end TypstFormat
