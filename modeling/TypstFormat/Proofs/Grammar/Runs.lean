import TypstFormat.Proofs.Grammar.Markup

/-!
# A block behind a hash

What the rules do around the code of a block, if the code ends in front of the closing brace and
nothing comes behind the block. The parser that each of them comes to is known then, so these are
equations.

## Key results

- `codeBlock_eq`, `expression_eq_codeBlock`, `embeddedCode_eq`: the block, the expression that it
  is, and the code behind the hash
- `markup_eq_embedded`: markup that is nothing else
-/

namespace TypstFormat

open Parse TypstFormat.Parser Text

namespace Parser

variable {p : Parser}

theorem bump_eq (h : p.isAtEnd = false) : p.bump = { p with
    events := p.events.push (.token p.stream.kind p.range.stop), stream := p.stream.bump } := by
  unfold Parser.bump Parser.bumpAs
  rw [h]
  rfl

@[simp] theorem breakRules_bump : p.bump.breakRules = p.breakRules := by
  unfold Parser.bump Parser.bumpAs
  split <;> rfl

end Parser

namespace Grammar

variable {rules : Rules} {p q : Parser} {closed : Closed}

theorem start_eq (p : Parser) : start p = .ok (⟨p.events.size, none⟩, p.started) := rfl

theorem leaveBreakRule_eq {rule : BreakRule × Nat} {breakRules : List (BreakRule × Nat)}
    (h : p.breakRules = rule :: breakRules) : leaveBreakRule p = .ok ((), { p with breakRules }) :=
  Returns.eq_ok (.get (by rw [h]; exact .of_set ⟨rfl, rfl⟩))

theorem leaveMode_eq {mode : Mode} {modes : List Mode} (h : p.modes = mode :: modes)
    (hmode : mode ≠ p.stream.mode) :
    leaveMode p = .ok ((), { p with modes, stream := p.stream.relex mode }) :=
  Returns.eq_ok (.get (by rw [h]; exact .of_set ⟨rfl, by rw [if_neg hmode]⟩))

/-- A node is finished whose start stands at an index. -/
theorem finish_eq {node : Opening} (h : p.events[node.index]? = some .tombstone) (kind : Kind) :
    node.finish kind p = .ok (⟨node.index⟩, { p with
      events := (p.events.setIfInBounds node.index (.start kind none)).push .finish }) :=
  Returns.eq_ok (.startAt h (.modified (.modified (.pure ⟨rfl, rfl⟩))))

theorem expectClosing_eq {kind : Kind} (h : p.isAt kind = true) (opening : Range) :
    expectClosing opening kind p = .ok (true, p.bump) := by
  refine Returns.eq_ok (.bind (eat_present_returns h) ?_)
  rintro _ _ ⟨rfl, rfl⟩
  exact .pure ⟨rfl, rfl⟩

/-- A block whose code ends in front of the closing brace. -/
theorem codeBlock_eq {rule : BreakRule × Nat} {breakRules : List (BreakRule × Nat)}
    (hcode : code rules closingDelimiters (p.started.enterBreakRule .ignored).bump =
      .ok (closed, q)) (hat : q.isAt .rightBrace = true)
    (hrules : q.breakRules = rule :: breakRules)
    (hstart : q.bump.events[p.events.size]? = some .tombstone) :
    codeBlock rules p = .ok (⟨p.events.size⟩, { q.bump with
      breakRules
      events := (q.bump.events.setIfInBounds p.events.size (.start .codeBlock none)).push
        .finish }) := by
  refine Returns.eq_ok (.run (start_eq p) (.ask (.modified (.modified (.run hcode ?_)))))
  have hleave := leaveBreakRule_eq (p := q.bump) (by rw [breakRules_bump, hrules])
  exact .run (expectClosing_eq hat _) (.run hleave ⟨_, _, finish_eq hstart _, rfl, rfl⟩)

/-- A loop that is done in the first round. -/
theorem loop_eq_of_done {σ α : Type} {step : σ → Parse (σ ⊕ α)} {s : σ} {a : α}
    (h : step s p = .ok (.inr a, q)) : loop step s p = .ok (a, q) :=
  Returns.eq_ok (.get (.run h (.pure ⟨rfl, rfl⟩)))

/-- Embedded code is a block, if nothing comes behind it. -/
theorem expression_eq_codeBlock (hat : p.current = .leftBrace)
    (hblock : codeBlock rules p.started = .ok (closed, q)) (heof : q.current = .eof)
    (hsize : p.events.size + 1 < q.events.size) : expression rules true 0 p = .ok ((), q) := by
  have hprimary : primary rules true p.started = .ok ((), q) := by
    refine Returns.eq_ok (.ask ?_)
    rw [show p.started.current = .leftBrace from hat]
    exact .run hblock (.pure ⟨rfl, rfl⟩)
  have hoperand : operand rules true ⟨p.events.size, none⟩ p.started =
      .ok (⟨p.events.size, none⟩, q) :=
    Returns.eq_ok (.get (.run hprimary (.pure ⟨rfl, rfl⟩)))
  have habsent (kind : Kind) (hkind : kind ≠ .eof) : q.isDirectlyAt kind = false := by
    simp [Parser.isDirectlyAt, Parser.isAt, heof, hkind.symm]
  have hcontinuation : continuation rules true 0 ⟨p.events.size, none⟩ q =
      .ok (.inr ⟨p.events.size, none⟩, q) := by
    refine Returns.eq_ok (.get ?_)
    rw [habsent .leftParen (by decide), habsent .leftBracket (by decide), habsent .dot (by decide)]
    exact .pure ⟨rfl, rfl⟩
  -- Its start stays among the events, since more was written behind it.
  have hdrop : Opening.dropStart ⟨p.events.size, none⟩ q = .ok ((), q) := by
    refine Returns.eq_ok (.get ?_)
    rw [if_neg (by show ¬p.events.size + 1 = q.events.size; omega)]
    exact .pure ⟨rfl, rfl⟩
  refine Returns.eq_ok (.run (start_eq p) (.run hoperand (.run (loop_eq_of_done hcontinuation) ?_)))
  exact .run hdrop (.pure ⟨rfl, rfl⟩)

/-- The code behind a hash is one expression that is no statement, if nothing comes behind it. -/
theorem embeddedCode_eq {p₁ : Parser} (hp₁ : (p.bump.enterMode .code).enterBreakRule .ends = p₁)
    (htrivia : p₁.stream.afterTrivia = false) (hstarts : p₁.isAtAny embeddedStarts = true)
    (hstatement : p₁.isAtAny statementStarts = false)
    (hexpression : rules.expression true 0 p₁ = .ok ((), q)) (heof : q.current = .eof)
    {rule : BreakRule × Nat} {breakRules : List (BreakRule × Nat)} {mode : Mode} {modes : List Mode}
    (hrules : q.breakRules = rule :: breakRules) (hmodes : q.modes = mode :: modes)
    (hmode : mode ≠ q.stream.mode) : embeddedCode rules p =
      .ok ((), { q with breakRules, modes, stream := q.stream.relex mode }) := by
  have hend : p₁.isAtEnd = false := by
    refine Bool.eq_false_iff.2 fun hend => ?_
    unfold Parser.isAtAny at hstarts
    unfold Parser.isAtEnd at hend
    simp only [Bool.or_eq_true, decide_eq_true_eq] at hend
    rcases hend with hend | hend <;> rw [hend] at hstarts <;> cases hstarts
  have hsemicolon : q.isDirectlyAt .semicolon = false := by
    simp [Parser.isDirectlyAt, Parser.isAt, heof]
  refine Returns.eq_ok (.modified (.modified (.modified (.get ?_))))
  rw [hp₁, htrivia, hend, hstarts, hstatement]
  refine .run hexpression (.ask ?_)
  rw [hsemicolon]
  exact .pure_bind (.run (leaveBreakRule_eq hrules) ⟨_, _, leaveMode_eq hmodes hmode, rfl, rfl⟩)

/-- Behind a hash, one round of markup reads the embedded code. -/
private theorem nextMarkup_eq_embedded (hat : p.current = .hash)
    (hcode : embeddedCode rules p = .ok ((), q)) :
    nextMarkup rules .unbounded [] { atLineStart := true } p =
      .ok (.inl { atLineStart := false, progress := { last := some p.position } }, q) := by
  refine Returns.eq_ok (.ask ?_)
  rw [show p.isAt .eof = false by simp [Parser.isAt, hat]]
  refine advance_returns (by simp) (.get ?_)
  have hnesting : nestingBehind? p [] 0 = some 0 := by
    simp [nestingBehind?, Parser.isAt, Parser.isAtAny, hat]
  have hend : isAtLineEnd p = false := by simp [isAtLineEnd, Parser.isAt, hat]
  have helement : markupElement rules true p = .ok (false, q) := by
    refine Returns.eq_ok (.ask ?_)
    rw [hat]
    exact .run hcode (.pure ⟨rfl, rfl⟩)
  simp only [hnesting, hend]
  exact .run helement (.pure ⟨rfl, rfl⟩)

/-- Markup that is nothing but a hash and the code behind it. -/
theorem markup_eq_embedded (hat : p.started.current = .hash)
    (hcode : embeddedCode rules p.started = .ok ((), q)) (heof : q.current = .eof)
    (hstart : q.events[p.events.size]? = some .tombstone) :
    markup rules true .unbounded [] p = .ok (⟨p.events.size⟩, { q with
      events := (q.events.setIfInBounds p.events.size (.start .markup none)).push .finish }) := by
  have hlast (state : MarkupState) :
      nextMarkup rules .unbounded [] state q = .ok (.inr (), q) := by
    refine Returns.eq_ok (.ask ?_)
    rw [show q.isAt .eof = true by simp [Parser.isAt, heof]]
    exact .pure ⟨rfl, rfl⟩
  have hfirst := nextMarkup_eq_embedded hat hcode
  have hloop : loop (nextMarkup rules .unbounded []) { atLineStart := true } p.started =
      .ok ((), q) :=
    Returns.eq_ok (.get (.run hfirst (.run (hlast _) (.pure ⟨rfl, rfl⟩))))
  exact Returns.eq_ok (.run (start_eq p) (.run hloop ⟨_, _, finish_eq hstart _, rfl, rfl⟩))

end Grammar

end TypstFormat
