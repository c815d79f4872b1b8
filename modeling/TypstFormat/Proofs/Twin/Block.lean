import TypstFormat.Grammar.Block
import TypstFormat.Proofs.Grammar.Block
import TypstFormat.Proofs.Twin.Rules

/-!
# Blocks and embedded code side by side

Code in markup, equations, blocks of content and of code, and statements. Between the delimiters of
an equation or of content, something waits to be closed, so that the end of the left source is a
complaint to come. A statement may end on the right at the brace of the block around the comparison,
which the left source lacks.

## Key results

- `embeddedCode_flows`: code in markup and math
- `equation_passes`, `contentBlock_passes`, `codeBlock_passes`: blocks
- `code_twin`: statements up to the end of the code
-/

namespace TypstFormat

open Parse TypstFormat.Parser

namespace Sides

variable {S : Sides} [hS : S.Lawful] {rules rules' : Rules} {closing : Bool} {fact : Prop}
variable {held : List Nat} {stage : Stage} {n ahead : Nat} {scope : Scope}

open Grammar

theorem expressionStarts_are_tokens : ∀ kind ∈ expressionStarts, kind.closesCode = false := by
  decide

theorem embeddedStarts_are_tokens : ∀ kind ∈ embeddedStarts, kind.closesCode = false := by
  decide

theorem statementStarts_are_tokens : ∀ kind ∈ statementStarts, kind.closesCode = false := by
  decide

/-! ## Code in markup and math -/

/-- Where the code has ended, something sets off what comes next. -/
theorem isAtEnd_or_afterTrivia {p : Parser} (hp : p.stream.Steady) (hend : p.isAtEnd = true)
    (rule : BreakRule) :
    ((p.enterBreakRule rule).stream.afterTrivia || (p.enterBreakRule rule).isAtEnd) = true := by
  by_cases hkind : p.stream.kind = .eof
  · unfold Parser.isAtEnd
    rw [current_enterBreakRule, hkind]
    simp
  · have hbreak : p.stream.afterLineBreak = true := by
      have hcurrent := current_of_isAtEnd hend hkind
      by_contra hnone
      have hplain : p.current = p.stream.kind := by
        unfold Parser.current
        split
        · rfl
        · exact if_neg fun h => hnone h.1
      exact hp.kind_ne_breakEnd (hplain.symm.trans hcurrent)
    rw [hp.afterLineBreak] at hbreak
    have htrivia : p.stream.afterTrivia = true := by
      rw [hp.afterTrivia]
      cases htrivia : p.stream.look.trivia with
      | nil =>
        rw [htrivia] at hbreak
        cases hbreak
      | cons => rfl
    exact Bool.or_eq_true_iff.2 (.inl htrivia)

theorem embeddedCode_flows (hr : S.RulesTwin rules rules') :
    S.Flows (embeddedCode rules) (embeddedCode rules') := by
  intro fact held n scope hmode hbarred
  have hscope : fact → S.Follows true scope := fun hfact => ⟨fun _ => rfl, hbarred hfact⟩
  refine .bind (.bumpOther hscope hmode rfl) fun _ _ => ?_
  refine .bind (.enterMode rfl fun _ _ => rfl) fun _ _ => ?_
  refine .orBroken (C := S.At .met n 0 (scope.enter .code)) ?_ ?_
  · refine .enterBreakRuleBehind (unbarred_code rfl) rfl fun entered => .get fun p p' => ?_
    apply Twin.congr_right
    · rintro ⟨_, h, hplace⟩
      have hfollows : S.Follows true ((scope.enter .code).rule .ends entered) := .code rfl
      have hsame := h.same_of_on hS hfollows.unbarred rfl
      rw [hsame.afterTrivia_eq (hplace rfl), hsame.isAtEnd_eq,
        h.isAtAny_eq hS hfollows.unbarred embeddedStarts_are_tokens,
        h.isAtAny_eq hS hfollows.unbarred statementStarts_are_tokens]
    refine .pre (P := S.At .on entered 0 ((scope.enter .code).rule .ends entered)) ?_ ?_
    · extract_lets next isStatement next₂
      have hnext {fact : Prop} (hle : fact → S.strict → n ≤ entered) :
          S.Twin true fact held (S.At .past entered 0 ((scope.enter .code).rule .ends entered))
            (next ()) (next ()) (fun _ => held) fun _ _ => S.At .past n 0 scope :=
        .bind (.leaveBreakRule rfl rfl hle) fun _ _ =>
          (Twin.leaveMode rfl fun _ _ => rfl).pre fun _ _ _ h => h.toNear
      have hnext₂ {fact : Prop} (hle : fact → S.strict → n ≤ entered) (ended : Bool) :
          S.Twin true fact held (S.At .past entered 0 ((scope.enter .code).rule .ends entered))
            (next₂ ended) (next₂ ended) (fun _ => held) fun _ _ => S.At .past n 0 scope := by
        unfold next₂
        split
        · refine .ask (fun _ q q' h => ?_) fun atEnd => .pre ?_ fun _ _ _ h => h.1
          · have hfollows : S.Follows true ((scope.enter .code).rule .ends entered) := .code rfl
            rw [h.isAtEnd_eq hS hfollows.unbarred rfl (by simp) rfl fun _ => Nat.le_refl _,
              h.isAt_eq hS hfollows.unbarred rfl]
          · split
            · exact hnext hle
            · exact .bindFact (.reportMissingSeparator (follows_code rfl)) fun _ _ =>
                hnext fun h => hle h.1
        · exact hnext hle
      split
      · exact .bindFact (.reportMissingExpression (follows_code rfl)) fun _ _ =>
          hnext fun h => h.1.1.2
      · refine .bind ((hr.expression true 0).run rfl rfl) fun _ _ => ?_
        refine .ask (fun _ q q' h => ?_) fun mayEnd => .pre ?_ fun _ _ _ h => h.1
        · have hfollows : S.Follows true ((scope.enter .code).rule .ends entered) := .code rfl
          rw [h.isDirectlyAt_eq hS hfollows.unbarred rfl rfl]
        · split
          · exact .eat (follows_code rfl) rfl (hnext₂ (fun h => h.1.2) true)
              (hnext₂ (fun h => h.1.2) false)
          · exact hnext₂ (fun h => h.1.2) false
    · rintro ⟨_, h, _⟩ _ _ ⟨rfl, rfl⟩
      exact h
  · intro _ p p' hp h
    by_cases hstrict : S.strict
    · cases hend : p.isAtEnd with
      | false => exact .inl (h.seen hend)
      | true =>
        refine .inr fun _ q hrun => ?_
        obtain ⟨_, p₁, henter, hrest⟩ := bind_eq_ok hrun
        obtain ⟨p₂, p₃, hget, hrest⟩ := bind_eq_ok hrest
        cases henter
        cases hget
        have hmissing := isAtEnd_or_afterTrivia hp.steady hend .ends
        dsimp only at hrest
        rw [if_pos (Bool.or_eq_true_iff.2 (.inl hmissing))] at hrest
        exact .of_report (p := p.enterBreakRule .ends) hS (hS.clean_of_strict hstrict) hp.steady
          hp.source_eq (.bind keeps_leaveBreakRule fun _ => keeps_leaveMode) rfl hrest
    · exact .inl (h.of_not_strict hstrict _ _ _)

theorem math_flows (hr : S.RulesTwin rules rules') (stops : List Kind) :
    S.Flows (math rules stops) (math rules' stops) := by
  intro fact held n scope hmode hbarred
  have hscope {fact' : Prop} (h : fact' → fact) : fact' → S.Follows true scope :=
    fun hfact => ⟨fun _ => rfl, hbarred (h hfact)⟩
  refine .bindNode .start fun node => ?_
  refine .bind (.loopSteady (Q := fun _ _ => S.At .past n 0 scope) (fun progress progress' => ?_)
    _ _) fun _ _ => ?_
  · have hsame : fact ∧ node.Fresh held → ∀ p p', S.At .past n 0 scope p p' → S.Same p p' :=
      fun hfact _ _ h => h.same_of_mode hS (hbarred hfact.1) hmode
    refine .askSame (fun _ _ h => h.isAt_eq .eof) hsame fun ended => ?_
    refine .askSame (fun _ _ h => h.isAtAny_eq stops) hsame fun stopped => ?_
    split
    · exact .pure (List.Subset.refl _) fun _ _ _ h => h
    refine .bind .advance fun _ _ => .askSame (fun _ _ h => h.isAt_eq .hash) hsame fun hash => ?_
    extract_lets next next'
    split
    · refine .bind ((embeddedCode_flows hr).run hmode fun hfact => hbarred hfact.1) fun _ _ => ?_
      exact .pure (List.Subset.refl _) fun _ _ _ h => h
    · refine .bind (.bumpOther (hscope And.left) hmode rfl) fun _ _ => ?_
      exact .pure (List.Subset.refl _) fun _ _ _ h => h
  · exact .finishOff

/-! ## Equations and blocks of content -/

/-- What is between delimiters is read, and the closing one is looked for. -/
theorem closes_between {x : Parse α} {rest : Parse β} {opening : Text.Range}
    {held' : β → List Nat} (kind : Kind) (hkind : kind ∈ [Kind.dollar, .rightBracket])
    (hx : Keeps held x fun _ => held) (hrest : Keeps held rest held') :
    S.Closes (do
      let _ ← x
      let _ ← expectClosing opening kind
      rest) :=
  .bind_right hS hx fun _ => .bind_left (keeps_expectClosing opening kind)
    (closes_expectClosing opening hkind) fun _ => hrest

theorem contentBlock_twin (hr : S.RulesTwin rules rules') (hscope : fact → S.Follows closing scope)
    (hon : stage.covers .on = true) :
    S.Twin closing fact held (S.At stage n ahead scope) (contentBlock rules)
      (contentBlock rules') (fun _ => held) fun _ _ => S.At .past n 0 scope := by
  refine .bindNode .start fun node => ?_
  refine .bindFact (.range fun h => hscope h.1) fun opening opening' => ?_
  refine .bind (.bump (fun h => hscope h.1.1) hon) fun _ _ => ?_
  have hkeep : Keeps node.places (leaveMode >>= fun _ => node.finish .contentBlock)
      fun _ => node.places := .bind keeps_leaveMode fun _ => keeps_finish (by simp) _
  have hmarkup : Keeps node.places (rules.markup true .unbounded [.rightBracket])
      fun _ => node.places := hr.keep.markup _ _ _
  refine .bindClosing (.enterMode rfl fun _ _ => rfl) (fun _ _ => ?_) fun _ =>
    closes_between .rightBracket (by simp) hmarkup hkeep
  refine .bindClosing ((hr.markup true .unbounded [.rightBracket] _ _ _ _ rfl fun _ _ =>
    Extent.fixed_unbounded).pre
    fun _ _ _ h _ => h) (fun _ _ => ?_) fun _ =>
    .bind_left (keeps_expectClosing opening _) (closes_expectClosing opening (by simp))
      fun _ => hkeep
  refine .learn (fun _ _ _ h => h.1) (.pre (P := S.At .past n 0 (scope.enter .markup)) ?_
    fun _ _ _ h => h.2)
  refine .bind (.expectLast (fun h hbarred => absurd hbarred h.2) rfl (by decide)
    fun h => h.1.2) fun _ _ => ?_
  refine .bind (.leaveMode rfl fun h => (hscope h.1.1.1).closing) fun _ _ => ?_
  exact .finishOff

theorem equation_twin (hr : S.RulesTwin rules rules') (hscope : fact → S.Follows closing scope)
    (hon : stage.covers .on = true) :
    S.Twin closing fact held (S.At stage n ahead scope) (equation rules)
      (equation rules') (fun _ => held) fun _ _ => S.At .past n 0 scope := by
  refine .bindNode .start fun node => ?_
  refine .bindFact (.range fun h => hscope h.1) fun opening opening' => ?_
  refine .bind (.bump (fun h => hscope h.1.1) hon) fun _ _ => ?_
  have hunbarred {fact' : Prop} : fact' → S.barred → Mode.math ≠ .markup := fun _ _ => by simp
  have hkeep : Keeps node.places (do
      leaveBreakRule
      leaveMode
      node.finish .equation) fun _ => node.places :=
    .bind keeps_leaveBreakRule fun _ => .bind keeps_leaveMode fun _ => keeps_finish (by simp) _
  have hrule : Keeps node.places (Parse.enterBreakRule .ignored) fun _ => node.places :=
    keeps_enterBreakRule .ignored
  have hmath : Keeps node.places (math rules [.dollar]) fun _ => node.places :=
    (math_flows hr _).keeps
  refine .bindClosing (.enterMode rfl fun _ _ => rfl) (fun _ _ => ?_) fun _ =>
    .bind_right hS hrule fun _ => closes_between .dollar (by simp) hmath hkeep
  refine .enterBreakRuleOther hunbarred (by simp [Scope.enter]) fun entered => ?_
  refine .bindClosing ((math_flows hr [.dollar]).run (by simp [Scope.enter, Scope.rule]) hunbarred)
    (fun _ _ => ?_) fun _ => .bind_left (keeps_expectClosing opening _)
      (closes_expectClosing opening (by simp)) fun _ => hkeep
  refine .bind (.expectLast hunbarred rfl (by decide) fun h => h.2) fun _ _ => ?_
  refine .bind (.leaveLastRule rfl fun _ _ => Nat.le_refl n) fun _ _ => ?_
  refine .bind (.leaveMode rfl fun h => (hscope h.1.1).closing) fun _ _ => ?_
  exact .finishOff

/-! ## Statements -/

/-- The kinds at which statements stop. Those of a whole source go on to its end, even where the
right ones are in a block. -/
inductive Stops (S : Sides) : List Kind → List Kind → Prop
  | same {stops : List Kind} : (S.strict → .rightBrace ∈ stops) → Stops S stops stops
  | whole : S.strict → Stops S [] closingDelimiters

/-- Whether statements stop here. -/
def atStop (stops : List Kind) (p : Parser) : Bool :=
  p.isAtEnd || p.isAtAny stops

theorem isAt_eof_or_atStop (stops : List Kind) (p : Parser) :
    (p.isAt .eof || atStop stops p) = atStop stops p := by
  unfold atStop Parser.isAtEnd Parser.isAt
  cases decide (p.current = .eof) <;> simp

/-- The right statements may only stop in front of a closing delimiter that is wrong on the left. -/
theorem At.atStop_eq {stops stops' : List Kind} (hstops : S.Stops stops stops') {p p' : Parser}
    (h : S.At stage n ahead scope p p') (hunbarred : S.barred → scope.mode ≠ .markup) :
    atStop stops' p' = atStop stops p ∨
      (S.strict ∧ atStop stops p = false ∧ p.current ∈ closingDelimiters) := by
  unfold atStop
  rcases h.view hS hunbarred with hsame | hgap
  · rw [hsame.isAtEnd_eq, hsame.isAtAny_eq]
    cases hstops with
    | same => exact .inl rfl
    | whole hstrict =>
      cases hend : p.isAtEnd with
      | true => exact .inl rfl
      | false =>
        by_cases hclosing : p.current ∈ closingDelimiters
        · exact .inr ⟨hstrict, rfl, hclosing⟩
        · refine .inl ?_
          have hnone : p.isAtAny closingDelimiters = false := by
            simpa [Parser.isAtAny] using hclosing
          rw [hnone]
          rfl
  · -- The code ends on the left, and a brace stands on the right.
    refine .inl ?_
    rw [hgap.isAtEnd]
    have hbrace : .rightBrace ∈ stops' := by
      cases hstops with
      | same hmem => exact hmem hgap.strict
      | whole => exact List.mem_cons_self
    rcases hgap.right with ⟨hkind', _⟩ | heof
    · rcases Parser.current_eq p' with hcurrent | hcurrent
      · have hany : p'.isAtAny stops' = true := by
          unfold Parser.isAtAny
          rw [hcurrent, hkind']
          simpa using hbrace
        rw [hany, Bool.or_true]
        rfl
      · unfold Parser.isAtEnd
        rw [hcurrent]
        rfl
    · rw [isAtEnd_of_eof heof]
      rfl

theorem isAt_eq_false_of_closing {p : Parser} {kind : Kind} (h : p.current ∈ closingDelimiters)
    (hkind : closingDelimiters.contains kind = false) : p.isAt kind = false := by
  refine decide_eq_false fun hcurrent => ?_
  rw [hcurrent, ← List.contains_iff_mem, hkind] at h
  cases h

theorem skipToStatement_twin (hscope : fact → S.Follows closing scope) {stage' : Stage}
    {m ahead' : Nat} :
    S.Twin closing fact held (S.At stage n ahead scope) skipToStatement skipToStatement
      (fun _ => held) fun found found' q q' => found' = found ∧
        S.At stage' m ahead' scope q q' := by
  refine .bindFact (R := S.At stage' m ahead' scope) (.reportUnexpected hscope) fun _ _ => ?_
  refine .bindEq (.recover (fun h => hscope h.1) fun h => h.2) fun r => ?_
  cases r <;> exact .pure (List.Subset.refl _) fun _ _ _ h => ⟨rfl, h⟩

theorem statement_twin (hr : S.RulesTwin rules rules') (hmode : scope.mode = .code)
    {stops stops' : List Kind} (hstops : S.Stops stops stops') :
    S.Twin closing fact held (S.At stage n ahead scope) (statement rules stops)
      (statement rules' stops') (fun _ => held) fun found found' q q' => found' = found ∧
        (found = true → S.At .past n 0 scope q q') ∧
        (found = false → S.At stage n ahead scope q q') := by
  have hscope {fact : Prop} : fact → S.Follows closing scope := follows_code hmode
  refine .eat hscope rfl ?_ (.isAtAny hscope expressionStarts_are_tokens ?_ ?_)
  · exact .pure (List.Subset.refl _) fun _ _ _ h => ⟨rfl, fun _ => h.weaken rfl
      (fun _ => Nat.le_refl n) (Nat.zero_le _), by simp⟩
  · refine .enterBreakRule (unbarred_code hmode) (Stage.seen_covers_on stage) fun entered => ?_
    refine .bind ((hr.expression false 0).run hmode rfl) fun _ _ => ?_
    have hlast {fact : Prop} (hle : fact → S.strict → n ≤ entered) :
        S.Twin closing fact held
          (S.At .past entered 0 (scope.rule .endsUnlessContinued entered))
          (leaveBreakRule >>= fun _ => pure true) (leaveBreakRule >>= fun _ => pure true)
          (fun _ => held) fun found found' q q' => found' = found ∧
            (found = true → S.At .past n 0 scope q q') ∧
            (found = false → S.At stage n ahead scope q q') :=
      .bind (.leaveBreakRule rfl hmode hle) fun _ _ =>
        .pure (List.Subset.refl _) fun _ _ _ h => ⟨rfl, fun _ => h, by simp⟩
    have hinner {fact : Prop} :
        fact → S.Follows closing (scope.rule .endsUnlessContinued entered) := follows_code hmode
    refine .orBroken (C := fun p p' => S.At .past entered 0
      (scope.rule .endsUnlessContinued entered) p p' ∧ atStop stops' p' = atStop stops p) ?_ ?_
    · extract_lets next
      refine .askBool (fun _ _ _ h => h.2) ((hlast fun h => h.2).pre fun _ _ _ h => h.1.1) ?_
      refine .pre (P := S.At .past entered 0 (scope.rule .endsUnlessContinued entered)) ?_
        fun _ _ _ h => h.1.1
      refine .eat hinner rfl (hlast fun h => h.2) ?_
      exact .bindFact (.reportMissingSeparator hinner) fun _ _ => hlast fun h => h.1.2
    · intro hfact p p' hp h
      refine (h.atStop_eq hstops (unbarred_code hmode hfact)).imp (fun heq => ⟨h, heq⟩) ?_
      rintro ⟨hstrict, hstop, hclosing⟩ found q hrun
      -- The left side finds no separator in front of the delimiter.
      obtain ⟨_, p₁, hask, hrest⟩ := bind_eq_ok hrun
      cases hask
      rw [if_neg (by simpa [atStop] using hstop)] at hrest
      obtain ⟨_, p₂, heat, hrest⟩ := bind_eq_ok hrest
      have hsemicolon : p.isAt .semicolon = false := isAt_eq_false_of_closing hclosing rfl
      rw [eat_of_absent hsemicolon] at heat
      cases heat
      rw [if_neg Bool.false_ne_true] at hrest
      exact .of_report hS (hS.clean_of_strict hstrict) hp.steady hp.source_eq
        (.bind keeps_leaveBreakRule fun _ => .pure true) rfl hrest
  · exact .pure (List.Subset.refl _) fun _ _ _ h => ⟨rfl, by simp, fun _ => h⟩

/-- At a closing delimiter there is no statement. -/
theorem statement_of_closing (rules : Rules) (stops : List Kind) {p : Parser}
    (h : p.current ∈ closingDelimiters) : statement rules stops p = .ok (false, p) := by
  have hstarts : p.isAtAny expressionStarts = false := by
    have hnone : ∀ kind ∈ closingDelimiters, expressionStarts.contains kind = false := by decide
    exact hnone p.current h
  have hsemicolon : p.isAt .semicolon = false := isAt_eq_false_of_closing h rfl
  refine Returns.eq_ok (.run (eat_of_absent hsemicolon) ?_)
  rw [if_neg Bool.false_ne_true]
  refine .ask ?_
  rw [hstarts]
  exact .pure ⟨rfl, rfl⟩

theorem code_twin (hr : S.RulesTwin rules rules') (hmode : scope.mode = .code)
    {stops stops' : List Kind} (hstops : S.Stops stops stops')
    (hcovers : Stage.past.covers stage = true) :
    S.Twin closing fact held (S.At stage n 0 scope) (code rules stops) (code rules' stops')
      (fun _ => held) fun _ _ => S.At stage n 0 scope := by
  have hscope {fact : Prop} : fact → S.Follows closing scope := follows_code hmode
  refine .bindNode .start fun node => ?_
  refine .bind (.loopSteady (Q := fun _ _ => S.At stage n 0 scope) (fun _ _ => ?_) _ _)
    fun _ _ => ?_
  · refine .orBroken (C := fun p p' => S.At stage n 0 scope p p' ∧
      atStop stops' p' = atStop stops p) ?_ ?_
    · refine .askOr ?_ (.pure (List.Subset.refl _) fun _ _ _ h => h.1.1) ?_
      · intro _ p p' h
        exact (isAt_eof_or_atStop stops' p').trans
          (h.2.trans (isAt_eof_or_atStop stops p).symm)
      refine .pre (P := S.At stage n 0 scope) ?_ fun _ _ _ h => h.1.1
      refine .bind .advance fun _ _ => .bindEq (statement_twin hr hmode hstops) fun found => ?_
      cases found with
      | true =>
        exact .pure (List.Subset.refl _) fun _ _ _ h => (h.1 rfl).weaken hcovers
          (fun _ => Nat.le_refl n) (Nat.le_refl 0)
      | false =>
        refine .pre (P := S.At stage n 0 scope) ?_ fun _ _ _ h => h.2 rfl
        refine .bindEq (R := fun _ => S.At stage n 0 scope) (skipToStatement_twin hscope)
          fun found => ?_
        cases found <;> exact .pure (List.Subset.refl _) fun _ _ _ h => h
    · intro hfact p p' hp h
      refine (h.atStop_eq hstops (unbarred_code hmode hfact)).imp (fun heq => ⟨h, heq⟩) ?_
      rintro ⟨hstrict, hstop, hclosing⟩ next q hrun
      -- The left side goes on, and finds that no statement starts with the delimiter.
      obtain ⟨_, p₁, heof, hrest⟩ := bind_eq_ok hrun
      obtain ⟨_, p₂, hask, hrest⟩ := bind_eq_ok hrest
      cases heof
      cases hask
      have hgoes : ¬(p.isAt .eof || (p.isAtEnd || p.isAtAny stops)) = true :=
        Bool.eq_false_iff.1 ((isAt_eof_or_atStop stops p).trans hstop)
      dsimp only at hrest
      rw [if_neg hgoes] at hrest
      obtain ⟨_, p₃, hadvance, hrest⟩ := bind_eq_ok hrest
      rw [eq_of_advance hadvance] at hrest
      obtain ⟨_, p₄, hstatement, hrest⟩ := bind_eq_ok hrest
      rw [statement_of_closing rules stops hclosing] at hstatement
      cases hstatement
      rw [if_neg Bool.false_ne_true] at hrest
      obtain ⟨found, p₅, hskip, hrest⟩ := bind_eq_ok hrest
      obtain ⟨_, p₆, hreport, hskip⟩ := bind_eq_ok hskip
      cases hreport
      obtain ⟨recovery, p₇, hrecover, hskip⟩ := bind_eq_ok hskip
      have hkeeps : Keeps (node.places ++ held) (recover .errorNode statementResumes)
          fun _ => node.places ++ held := keeps_recover S _ _
      have hbroken : S.Broken closing (node.places ++ held) p₇ :=
        (broken_report hp.steady hp.source_eq (hS.clean_of_strict hstrict) _).keep hS hkeeps hrecover
      obtain rfl : p₅ = p₇ := by cases recovery <;> cases hskip <;> rfl
      exact hbroken.keep hS (.ite _ (.pure _) (.pure _)) hrest
  · exact .finishOff

/-- The brace that closes a block is consumed. Where the code ends on the left, it is missing there. -/
theorem expectBrace_twin (hmode : scope.mode = .code) {opening opening' : Text.Range}
    (hranges : fact → S.Ranges opening opening') :
    S.Twin closing fact held (S.At stage n ahead scope) (expectClosing opening .rightBrace)
      (expectClosing opening' .rightBrace) (fun _ => held) fun _ _ => S.At .past n 0 scope := by
  have hscope {fact : Prop} : fact → S.Follows closing scope := follows_code hmode
  have heats : S.Twin closing fact held (fun p p' => S.At stage n ahead scope p p' ∧ S.Same p p')
      (Parse.eat .rightBrace) (Parse.eat .rightBrace) (fun _ => held)
      fun found found' q q' => found' = found ∧ (found = true → S.At .past n 0 scope q q') ∧
        (found = false → S.At stage n ahead scope q q') := by
    refine .askBool (fun _ _ _ h => h.2.isAt_eq _) ?_ ?_
    · refine .pre (P := S.At stage.seen n 0 scope) ?_ fun _ p _ h => ?_
      · refine .bind (.bump hscope (Stage.seen_covers_on stage)) fun _ _ => ?_
        exact .pure (List.Subset.refl _) fun _ _ _ h => ⟨rfl, fun _ => h, by simp⟩
      · refine (h.1.1.seen ?_).weaken (Stage.covers_self _) (fun _ => Nat.le_refl n) (Nat.zero_le _)
        rw [isAtEnd_eq_false, isAt_iff.1 h.2]
        simp
    · exact .pure (List.Subset.refl _) fun _ _ _ h => ⟨rfl, by simp, fun _ => h.1.1⟩
  refine .orBroken (C := fun p p' => S.At stage n ahead scope p p' ∧ S.Same p p')
    (.bindEq heats fun found => ?_) ?_
  · cases found with
    | true => exact .pure (List.Subset.refl _) fun _ _ _ h => h.1 rfl
    | false =>
      refine .pre (P := S.At stage n ahead scope) ?_ fun _ _ _ h => h.2 rfl
      exact .bindFact (.report hranges fun _ _ => rfl) fun _ _ =>
        .pure (List.Subset.refl _) fun _ _ _ h => h
  · intro hfact p p' hp h
    refine (h.view hS (unbarred_code hmode hfact)).imp (fun hsame => ⟨h, hsame⟩) ?_
    intro hgap found q hrun
    have habsent : p.isAt .rightBrace = false := by
      refine decide_eq_false fun hcurrent => ?_
      have hend := hgap.isAtEnd
      unfold Parser.isAtEnd at hend
      rw [hcurrent] at hend
      cases hend
    obtain ⟨_, p₁, heat, hrest⟩ := bind_eq_ok hrun
    rw [eat_of_absent habsent] at heat
    cases heat
    rw [if_neg Bool.false_ne_true] at hrest
    exact .of_report hS (hS.clean_of_strict hgap.strict) hp.steady hp.source_eq (.pure false) rfl hrest

theorem codeBlock_twin (hr : S.RulesTwin rules rules') (hmode : scope.mode = .code)
    (hon : stage.covers .on = true) :
    S.Twin closing fact held (S.At stage n ahead scope) (codeBlock rules) (codeBlock rules')
      (fun _ => held) fun _ _ => S.At .past n 0 scope := by
  have hscope {fact : Prop} : fact → S.Follows closing scope := follows_code hmode
  refine .bindNode .start fun node => .bindFact (.range hscope) fun opening opening' => ?_
  refine .enterBreakRule (unbarred_code hmode) hon fun entered => ?_
  refine .bind (.bump (follows_code hmode) rfl) fun _ _ => ?_
  have hstops : S.Stops closingDelimiters closingDelimiters := .same fun _ => by decide
  have hinner : (scope.rule .ignored entered).mode = .code := hmode
  refine .bind (code_twin hr hinner hstops rfl) fun _ _ => ?_
  refine .bind (expectBrace_twin hinner fun h => h.1.2) fun _ _ => ?_
  refine .bind (.leaveBreakRule rfl hmode fun h => h.2) fun _ _ => ?_
  exact .finishOff

end Sides

end TypstFormat
