import TypstFormat.Grammar.Expression
import TypstFormat.Proofs.Grammar.Keyword

/-!
# What expressions read

A primary expression, and the calls, field accesses and operators behind it. What stands between
parentheses may be read twice: the first reading is forgotten when an arrow follows, and since a
parenthesis was consumed before the mode could change, nothing of it is left.

Operators are grouped by an invariant of the loop over what goes on with an operand: if the operand
has an operator itself, then the one that comes next binds less tightly than its right operand may.
An expression is only left in front of an operator that it must not take.

## Key results

- `Reads.rewind`: going back to a mark gives back the parser as it was
- `primary_returns`, `continuation_returns`: one operand, and one step behind it
- `expression_returns`: expressions
-/

namespace TypstFormat

open Draft Parse TypstFormat.Parser

namespace Parser

variable {p p' : Parser} {drafts : List Draft}

/-- Going back to a mark forgets what was read since, if that began with the current token. -/
theorem Reads.rewind (h : Reads p drafts p') (hp : p.Ok) (hbegins : p.Begins drafts) :
    p'.rewind p.mark = p := by
  -- The look at the mark was consumed since, so that its trivia and diagnostics are settled.
  obtain ⟨ls, hleaves⟩ : ∃ ls, leavesAll drafts = p.look :: ls := by
    unfold Begins at hbegins
    cases hleaves : leavesAll drafts with
    | nil =>
      rw [hleaves] at hbegins
      cases hbegins
    | cons l ls =>
      rw [hleaves] at hbegins
      exact ⟨ls, by rw [Option.some.inj hbegins]⟩
  have hrecorded : p.stream.recorded <:+ p'.stream.recorded := by
    refine ⟨p'.stream.look.trivia.reverse ++ (ls.flatMap (·.trivia)).reverse, ?_⟩
    rw [h.ok.steady.recorded, h.settled_eq, hp.steady.recorded, hleaves]
    simp [look]
  have hfound : p.stream.scanner.findings <:+ p'.stream.scanner.findings := by
    refine ⟨p'.stream.look.findings ++ ls.reverse.flatMap (·.findings), ?_⟩
    rw [h.ok.steady.findings, h.found_eq, hp.steady.findings, hleaves]
    simp [look]
  have hstream : p'.stream.rewind p.stream.mark = p.stream :=
    Stream.rewind_mark h.source_eq hrecorded hfound
  have hevents : p'.events.take p.events.size = p.events := by
    have htake : p'.events.take p.events.size = (p'.events.toList.take p.events.size).toArray := by
      rw [← List.take_toArray]
    rw [htake, h.events_eq, ← Array.length_toList, List.take_left]
  have hfindings : p'.findings.drop (p'.findings.length - p.findings.length) = p.findings :=
    (List.suffix_iff_eq_drop.1 h.findings).symm
  unfold Parser.rewind mark
  simp only [hstream, hevents, hfindings]

end Parser

namespace Grammar

variable {rules : Rules} {n : Nat} {p p' : Parser}

/-- A node is finished and another one started around it. -/
theorem rewrap_returns {f : Opening → Parse β} {Q : β → Parser → Prop} {inner : Option Draft}
    {drafts : List Draft} {node : Opening} (kind : Kind) (h : Inside p inner drafts node p')
    (hkind : kind.isCommon = true) (hsome : leavesAll (inner.toList ++ drafts) ≠ [])
    (hshape : p'.findings = [] → Shape kind (inner.toList ++ drafts))
    (hf : ∀ node' p'', Inside p (some (around kind inner drafts)) [] node' p'' →
      Rewrites p' p'' → Returns (f node') p'' Q) :
    Returns (node.finish kind >>= fun closed => closed.wrap >>= f) p' Q := by
  refine .bind (finish_returns kind h hkind hsome hshape) ?_
  rintro closed p₁ ⟨h₁, hindex, hre₁⟩
  refine .bind (wrap_returns h₁ rfl hindex) ?_
  rintro node' p₂ ⟨h₂, hre₂⟩
  exact hf node' p₂ h₂ (hre₁.trans hre₂)

/-- One item was read that begins with the current token and has no operator of its own. -/
def ReadsPrimary (p p' : Parser) : Prop :=
  ∃ drafts, Reads p drafts p' ∧ p.Begins drafts ∧
    (p'.findings = [] → ∃ kind, kinds drafts = [kind] ∧ kind.isItem = true ∧ kind ≠ .binary)

theorem readsPrimary_of_node {kind : Kind} (h : ReadsNode kind p p') (hkind : kind.isNode = true)
    (hne : kind ≠ .binary) : ReadsPrimary p p' := by
  obtain ⟨children, h, hbegins⟩ := h
  refine ⟨_, h, hbegins.node kind false, fun _ => ⟨kind, rfl, ?_, hne⟩⟩
  simp [Kind.isItem, hkind]

/-- A token that is an item is read as one. -/
theorem bump_item (hp : p.Ok) (hcurrent : p.current.isOrdinary = true)
    (hitem : p.current.isItem = true) : Returns bump p fun _ p' => ReadsPrimary p p' := by
  have hconsumes := Consumes.of_current hcurrent
  have hne : p.current ≠ .binary := by
    intro h
    rw [h] at hcurrent
    cases hcurrent
  refine (bump_returns hp hconsumes).mono fun _ p₁ h₁ =>
    ⟨_, h₁, rfl, fun _ => ⟨p.current, ?_, hitem, hne⟩⟩
  exact hp.kinds_look_of_isAt (isAtEnd_eq_false.1 hconsumes.isAtEnd).1 (isAt_iff.2 rfl)

/-! ## Operands -/

theorem loneParamClosure_returns (hr : rules.Adequate n) (hp : p.Ok) (hcurrent : p.Consumes)
    (harrow : p.stream.nth 1 = .arrow) (hleft : p.left ≤ n) :
    Returns (loneParamClosure rules) p fun _ p' => ReadsPrimary p p' := by
  refine start_returns hp fun params hnode => ?_
  refine .bind (bump_returns_kind hnode.ok hcurrent.started) ?_
  rintro _ p₁ ⟨hbump, hkind⟩
  have h₁ := hnode.read hbump
  have hleft₁ := Nat.lt_of_lt_of_le (h₁.left_lt hp (begins_token p false)) hleft
  refine rewrap_returns .params h₁ rfl (begins_token p false).ne_nil (fun _ => trivial)
    fun closure p₂ h₂ hre => ?_
  have hkind : p₂.stream.kind = .arrow := by
    rw [hre.stream_eq, hkind]
    exact harrow
  refine .bind (bump_returns_some h₂.ok (by simp [hkind])) ?_
  rintro _ p₃ ⟨ds₃, h₃⟩
  have hleft₃ : p₃.left < n := by
    refine Nat.lt_of_le_of_lt h₃.left_le ?_
    rw [hre.left_eq]
    exact hleft₁
  refine .bind (hr.expression h₃.ok hleft₃ _ _) ?_
  rintro _ p₄ ⟨ds₄, h₄, _⟩
  have hbegins : p.Begins ([.around .params none [.token p.look false]] ++ (ds₃ ++ ds₄)) := rfl
  refine .bind (finish_returns .closure ((h₂.read h₃).read h₄) rfl hbegins.ne_nil
    fun _ => trivial) ?_
  rintro _ p₅ ⟨h₅, _⟩
  exact .pure ⟨_, h₅, rfl, fun _ => ⟨.closure, rfl, rfl, by decide⟩⟩

/-- Where an arrow followed, a list is read again as parameters. The arrow follows again, so that
the list is not cut short. -/
theorem paramsClosure_returns (hr : rules.Adequate n) (hp : p.Ok)
    (hat : p.isAt .leftParen = true) (hleft : p.left ≤ n) {list : Closed} {p₁ : Parser}
    (hrun : collection rules none p = .ok (list, p₁)) (harrow : p₁.current = .arrow) :
    Returns (do
        let closure ← (← collection rules (some .params)).wrap
        bump
        rules.expression false 0
        let _ ← closure.finish .closure) p fun _ p' => ReadsPrimary p p' := by
  obtain ⟨params, p₂, hrun₂, own, children, hlist, hindex⟩ :=
    collection_returns hr hp hat hleft params_mem_listKinds
  refine .run hrun₂ ?_
  have harrow : p₂.current = .arrow := (current_collection hrun hrun₂).trans harrow
  have h₂ := hlist.reads_of_current hp (by simp [harrow])
  have hbegins := hlist.begins.node own false
  have hleft₂ := Nat.lt_of_lt_of_le (h₂.left_lt hp hbegins) hleft
  refine .bind (wrap_returns h₂ rfl hindex) ?_
  rintro closure p₃ ⟨h₃, hre⟩
  have hcurrent : p₃.Consumes := .of_current (by rw [hre.current_eq, harrow]; rfl)
  refine .bind (bump_returns h₃.ok hcurrent) ?_
  intro _ p₄ h₄
  have hleft₄ : p₄.left < n := by
    refine Nat.lt_of_le_of_lt h₄.left_le ?_
    rw [hre.left_eq]
    exact hleft₂
  refine .bind (hr.expression h₄.ok hleft₄ _ _) ?_
  rintro _ p₅ ⟨ds₅, h₅, _⟩
  have hbegins := hbegins.append ([.token p₃.look false] ++ ds₅)
  refine .bind (finish_returns .closure ((h₃.read h₄).read h₅) rfl hbegins.ne_nil
    fun _ => trivial) ?_
  rintro _ p₆ ⟨h₆, _⟩
  exact .pure ⟨_, h₆, hbegins.node _ _, fun _ => ⟨.closure, rfl, rfl, by decide⟩⟩

theorem ne_binary_of_mem_listKinds {kind : Kind} (h : kind ∈ listKinds) : kind ≠ .binary := by
  revert kind
  decide

theorem parenthesized_returns (hr : rules.Adequate n) (hp : p.Ok)
    (hat : p.isAt .leftParen = true) (hleft : p.left ≤ n) (atomic : Bool) :
    Returns (parenthesized rules atomic) p fun _ p' => ReadsPrimary p p' := by
  refine .ask ?_
  have hnone : ∀ kind ∈ (none : Option Kind), kind ∈ listKinds := by simp
  obtain ⟨list, p₁, hrun, own, children, hlist, hindex⟩ := collection_returns hr hp hat hleft hnone
  refine .run hrun ?_
  have h₁ := hlist.reads hp
  have hbegins := hlist.begins
  have hitem : ReadsPrimary p p₁ :=
    readsPrimary_of_node ⟨_, h₁, hbegins⟩ hlist.isNode (ne_binary_of_mem_listKinds hlist.mem)
  split
  · exact .pure hitem
  · refine .ask ?_
    split
    · -- An arrow follows: the list is forgotten and read again.
      rename_i harrow
      refine .modified ?_
      rw [h₁.rewind hp (hbegins.node own false)]
      exact paramsClosure_returns hr hp hat hleft hrun (isAt_iff.1 harrow)
    · refine .ask ?_
      split
      · -- An equals sign follows: the list is a pattern that values are assigned to.
        rename_i heq
        refine (destructure_returns hp hlist hindex).mono ?_
        rintro _ p₂ ⟨hcurrent, name, hname, _, _, hends⟩
        have h₂ := hends.resolve_right (by simp [hcurrent, isAt_iff.1 heq])
        exact readsPrimary_of_node ⟨_, h₂, hbegins⟩ (isNode_of_mem_listKinds hname)
          (ne_binary_of_mem_listKinds hname)
      · exact .pure hitem

/-- The tokens that a primary expression starts with, besides the literals. -/
private theorem mem_embeddedStarts {kind : Kind} (h : kind ∈ embeddedStarts) :
    literals.contains kind = true ∨ kind ∈ [Kind.ident, .leftBrace, .leftBracket, .leftParen,
      .dollar, .kwLet, .kwSet, .kwShow, .kwContext, .kwIf, .kwWhile, .kwFor, .kwImport, .kwInclude,
      .kwBreak, .kwContinue, .kwReturn] := by
  revert kind
  decide

/-- A primary expression is an item, unless one is missing. -/
theorem primary_returns (hr : rules.Adequate n) (hp : p.Ok) (hleft : p.left ≤ n) (atomic : Bool) :
    Returns (primary rules atomic) p fun _ p' =>
      ReadsPrimary p p' ∧ p.isAtAny expressionStarts = true ∨
      (∃ ds, Reads p ds p') ∧ p'.findings ≠ [] ∧ p.current ∉ embeddedStarts ∧
        p.current ≠ .underscore := by
  have hat {kind : Kind} (hcurrent : p.current = kind) : p.isAt kind = true :=
    isAt_iff.2 hcurrent
  have hconsumes {kind : Kind} (hcurrent : p.current = kind) (hkind : kind.isOrdinary = true) :
      p.Consumes :=
    .of_isAt hkind (hat hcurrent)
  have hitem {kind : Kind} {x : Parse Unit} (hcurrent : p.current = kind)
      (hstarts : expressionStarts.contains kind = true)
      (h : Returns x p fun _ p' => ReadsPrimary p p') :
      Returns x p fun _ p' => ReadsPrimary p p' ∧ p.isAtAny expressionStarts = true ∨
        (∃ ds, Reads p ds p') ∧ p'.findings ≠ [] ∧ p.current ∉ embeddedStarts ∧
          p.current ≠ .underscore :=
    h.mono fun _ _ h => .inl ⟨h, by rwa [Parser.isAtAny, hcurrent]⟩
  have hnode {start kind : Kind} {x : Parse Unit} (hcurrent : p.current = start)
      (hstarts : expressionStarts.contains start = true)
      (hkind : (kind.isNode && kind ≠ .binary) = true)
      (h : Returns x p fun _ p' => ReadsNode kind p p') :
      Returns x p fun _ p' => ReadsPrimary p p' ∧ p.isAtAny expressionStarts = true ∨
        (∃ ds, Reads p ds p') ∧ p'.findings ≠ [] ∧ p.current ∉ embeddedStarts ∧
          p.current ≠ .underscore := by
    obtain ⟨hkind, hne⟩ := Bool.and_eq_true_iff.1 hkind
    exact hitem hcurrent hstarts
      (h.mono fun _ _ h => readsPrimary_of_node h hkind (of_decide_eq_true hne))
  have hname (hcurrent : p.current.isOrdinary = true) (hitem : p.current.isItem = true) :
      Returns (nth 1 >>= fun next => if (!atomic && next = .arrow) = true then
        loneParamClosure rules else bump) p fun _ p' => ReadsPrimary p p' := by
    refine .ask ?_
    split
    · rename_i harrow
      have harrow := of_decide_eq_true (Bool.and_eq_true_iff.1 harrow).2
      exact loneParamClosure_returns hr hp (.of_current hcurrent) harrow hleft
    · exact bump_item hp hcurrent hitem
  refine .ask ?_
  split
  case h_1 h => exact hitem h rfl (hname (by rw [h]; rfl) (by rw [h]; rfl))
  case h_2 h => exact hitem h rfl (hname (by rw [h]; rfl) (by rw [h]; rfl))
  case h_3 h =>
    exact hnode h rfl rfl (.bind (codeBlock_returns hr hp (hat h) hleft) fun _ _ h => .pure h)
  case h_4 h =>
    exact hnode h rfl rfl
      (.bind (contentBlock_returns hr hp (hat h) hleft) fun _ _ h => .pure h.node)
  case h_5 h => exact hitem h rfl (parenthesized_returns hr hp (isAt_iff.2 h) hleft atomic)
  case h_6 h =>
    exact hnode h rfl rfl (.bind (equation_returns hr hp (hat h) hleft) fun _ _ h => .pure h.node)
  case h_7 h => exact hnode h rfl rfl (letBinding_returns hr hp (hconsumes h rfl) hleft)
  case h_8 h => exact hnode h rfl rfl (setRule_returns hr hp (hat h) hleft)
  case h_9 h => exact hnode h rfl rfl (showRule_returns hr hp (hconsumes h rfl) hleft)
  case h_10 h => exact hnode h rfl rfl (contextual_returns hr hp (hconsumes h rfl) hleft atomic)
  case h_11 h => exact hnode h rfl rfl (conditional_returns hr hp (hconsumes h rfl) hleft)
  case h_12 h => exact hnode h rfl rfl (whileLoop_returns hr hp (hconsumes h rfl) hleft)
  case h_13 h => exact hnode h rfl rfl (forLoop_returns hr hp (hconsumes h rfl) hleft)
  case h_14 h => exact hnode h rfl rfl (moduleImport_returns hr hp (hconsumes h rfl) hleft)
  case h_15 h => exact hnode h rfl rfl (moduleInclude_returns hr hp (hconsumes h rfl) hleft)
  case h_16 h =>
    exact hnode h rfl rfl (loneKeyword_returns hp (hconsumes h rfl) rfl fun _ => trivial)
  case h_17 h =>
    exact hnode h rfl rfl (loneKeyword_returns hp (hconsumes h rfl) rfl fun _ => trivial)
  case h_18 h => exact hnode h rfl rfl (funcReturn_returns hr hp (hconsumes h rfl) hleft)
  case h_19 =>
    rename_i hident hunderscore hbrace hbracket hparen hdollar hlet hset hshow hcontext hif hwhile
      hfor himport hinclude hbreak hcontinue hreturn
    split
    · rename_i hliteral
      have hisItem : p.current.isItem = true := by
        rw [Kind.isItem, hliteral, Bool.or_true]
      have hall : ∀ kind ∈ literals,
          kind.isOrdinary = true ∧ expressionStarts.contains kind = true := by decide
      obtain ⟨hordinary, hstarts⟩ := hall _ (List.contains_iff_mem.1 hliteral)
      exact hitem rfl hstarts (bump_item hp hordinary hisItem)
    · -- None of the cases before, and so none of the tokens that an expression starts with.
      rename_i hliteral
      refine (reportMissingExpression_returns hp).mono ?_
      rintro _ _ ⟨h, hne⟩
      refine .inr ⟨⟨_, h⟩, hne, ?_, fun h => hunderscore h⟩
      intro hmem
      rcases mem_embeddedStarts hmem with h | h
      · exact hliteral h
      · simp only [List.mem_cons, List.not_mem_nil, or_false] at h
        rcases h with h | h | h | h | h | h | h | h | h | h | h | h | h | h | h | h | h <;>
          contradiction

/-! ## What goes on with an operand -/

/-- If the operand has an operator, then the one that comes next binds less tightly than its right
operand may. -/
def Settled (drafts : List Draft) (p : Parser) : Prop :=
  ∀ draft ∈ present drafts, ∀ own ∈ draft.precedence?, ∀ next ∈ nextPrecedence? p,
    next < rightPrecedence own

/-- An operand was read into a node. -/
def ReadsOperand (atomic : Bool) (precedence : Nat) (p : Parser) (node : Opening) (p' : Parser) :
    Prop :=
  ∃ inner drafts, Inside p inner drafts node p' ∧
    (p.isAtAny (startsOf atomic) = true → p.Begins (inner.toList ++ drafts)) ∧
    (p'.findings = [] → IsOperand precedence (inner.toList ++ drafts) ∧
      Settled (inner.toList ++ drafts) p' ∧ p.isAtAny expressionStarts = true)

theorem precedence?_eq_none {draft : Draft} (h : draft.kind ≠ .binary) :
    draft.precedence? = none := by
  unfold Draft.precedence?
  split
  · exact absurd rfl h
  · rfl

/-- One item without an operator of its own is an operand, whatever comes next. -/
theorem isOperand_of_kinds {drafts : List Draft} {kind : Kind} (hkinds : kinds drafts = [kind])
    (hitem : kind.isItem = true) (hne : kind ≠ .binary) (precedence : Nat) (p : Parser) :
    IsOperand precedence drafts ∧ Settled drafts p := by
  obtain ⟨draft, hdraft, rfl⟩ : ∃ draft, present drafts = [draft] ∧ draft.kind = kind :=
    List.map_eq_singleton_iff.1 hkinds
  have hnone := precedence?_eq_none hne
  refine ⟨⟨draft, hdraft, hitem, ?_⟩, ?_⟩
  · rw [hnone]
    rintro own ⟨⟩
  · intro draft' hdraft' own hown
    rw [hdraft, List.mem_singleton] at hdraft'
    rw [hdraft', hnone] at hown
    cases hown

/-- A node of another kind than that of operators is an operand, whatever comes next. -/
theorem isOperand_around (kind : Kind) (inner : Option Draft) (drafts : List Draft)
    (hkind : kind.isNode = true) (hne : kind ≠ .binary) (precedence : Nat) (p : Parser) :
    IsOperand precedence [.around kind inner drafts] ∧ Settled [.around kind inner drafts] p :=
  isOperand_of_kinds rfl (by simp [Kind.isItem, hkind]) hne precedence p

/-- Two operands with an operator between them are an operand again, if that operator may stand here
and the next one comes too late for its right operand. -/
theorem isOperand_of_isBinary {inner : Option Draft} {drafts : List Draft}
    {precedence own : Nat} (hprecedence : operatorPrecedence? (kinds (inner.toList ++ drafts)) = some own)
    (hle : precedence ≤ own) (hnext : ∀ next ∈ nextPrecedence? p, next < rightPrecedence own) :
    IsOperand precedence [.around .binary inner drafts] ∧
      Settled [.around .binary inner drafts] p := by
  have hown : (around .binary inner drafts).precedence? = some own := hprecedence
  refine ⟨⟨_, rfl, rfl, ?_⟩, ?_⟩
  · rw [hown]
    rintro _ ⟨⟩
    exact hle
  · intro draft hdraft own' hown'
    obtain rfl : draft = around .binary inner drafts := List.mem_singleton.1 hdraft
    rw [hown] at hown'
    cases hown'
    exact hnext

theorem nextPrecedence?_of_rewrites (h : Rewrites p p') : nextPrecedence? p' = nextPrecedence? p := by
  unfold nextPrecedence? Parser.isAt
  rw [h.current_eq, h.stream_eq]

theorem isOrdinary_of_nextPrecedence {precedence : Nat}
    (h : nextPrecedence? p = some precedence) : p.current.isOrdinary = true := by
  unfold nextPrecedence? at h
  split at h
  · rename_i hnot
    rw [isAt_iff.1 (Bool.and_eq_true_iff.1 hnot).1]
    rfl
  · generalize p.current = kind at h
    unfold binaryPrecedence? at h
    split at h <;> first | rfl | cases h

/-- A negation is an operator only in front of the one that it negates. -/
theorem nth_of_nextPrecedence {precedence : Nat} (h : nextPrecedence? p = some precedence)
    (hnot : p.isAt .kwNot = true) : p.stream.nth 1 = .kwIn := by
  unfold nextPrecedence? at h
  split at h
  · rename_i hin
    exact of_decide_eq_true (Bool.and_eq_true_iff.1 hin).2
  · rw [isAt_iff.1 hnot] at h
    cases h

/-- An operator is one token, or two of them if it is negated, unless a line break ends the code
in between. -/
theorem operator_returns {f : Unit → Parse β} {Q : β → Parser → Prop} (hp : p.Ok)
    {precedence : Nat} (hnext : nextPrecedence? p = some precedence)
    (h : ∀ p' ds, Reads p ds p' → p.Begins ds →
      (wordsPrecedence? (kinds ds) = some precedence ∨ p'.isAtEnd = true) →
      Returns (f ()) p' Q) :
    Returns (eat .kwNot >>= fun _ => bump >>= f) p Q := by
  have hcurrent := Consumes.of_current (isOrdinary_of_nextPrecedence hnext)
  have hbegins := begins_token p false
  cases hnot : p.isAt .kwNot with
  | true =>
    have hin := nth_of_nextPrecedence hnext hnot
    have hprecedence : notInPrecedence = precedence := by
      unfold nextPrecedence? at hnext
      rw [if_pos (by rw [hnot, hin]; rfl)] at hnext
      exact Option.some.inj hnext
    refine .bind (eat_present_returns hnot) ?_
    rintro _ _ ⟨rfl, rfl⟩
    have h₁ := reads_bump hp hcurrent
    have hkinds₁ := hp.kinds_look_of_isAt (by simp) hnot
    have hkind : p.bump.stream.kind = .kwIn := (kind_bump hcurrent.isAtEnd).trans hin
    cases hend : p.bump.isAtEnd with
    | true =>
      refine .modified ?_
      rw [bump_of_isAtEnd hend]
      exact h _ _ h₁ hbegins (.inr hend)
    | false =>
      refine .bind (bump_returns h₁.ok ⟨hend, by simp [hkind]⟩) fun _ p₂ h₂ => ?_
      have hkinds₂ := h₁.ok.kinds_look.trans (by rw [hkind])
      refine h p₂ _ (h₁.trans h₂) (hbegins.append _) (.inl ?_)
      rw [kinds_append, hkinds₁, hkinds₂, ← hprecedence]
      rfl
  | false =>
    have hbinary : binaryPrecedence? p.current = some precedence := by
      unfold nextPrecedence? at hnext
      rwa [if_neg (by simp [hnot])] at hnext
    refine .bind (eat_absent_returns hnot) ?_
    rintro _ _ ⟨rfl, rfl⟩
    refine .bind (bump_returns hp hcurrent) fun _ p₂ h₂ => h p₂ _ h₂ hbegins (.inl ?_)
    rw [hp.kinds_look, kind_eq_current (isAtEnd_eq_false.1 hcurrent.isAtEnd).1,
      wordsPrecedence?_singleton]
    exact hbinary

/-- A step reads arguments, a field or an operator with its right operand, or it is the last one,
and then no operator comes next that must be taken. -/
theorem continuation_returns (hr : rules.Adequate n) (hleft : p.left ≤ n)
    (atomic : Bool) (precedence : Nat) {node : Opening} {p₁ : Parser}
    (h : ReadsOperand atomic precedence p node p₁) :
    Returns (continuation rules atomic precedence node) p₁
      (Returns.Round (ReadsOperand atomic precedence p) (fun node p' =>
        ReadsOperand atomic precedence p node p' ∧
          (atomic = false → ∀ next ∈ nextPrecedence? p', next < precedence)) p₁) := by
  have hoperand := h
  obtain ⟨inner, ds, h, hbegins, hitem⟩ := h
  have hleft₁ := Nat.le_trans h.left_le hleft
  -- However the operand goes on, a node is put around all that was read.
  have hround {kind : Kind} {more : List Draft} {p₂ : Parser} (hread : Reads p₁ more p₂)
      (hmore : p₁.Begins more) (hkind : kind.isCommon = true)
      (hshape : p₂.findings = [] → Shape kind (inner.toList ++ (ds ++ more)) ∧
        IsOperand precedence [.around kind inner (ds ++ more)] ∧
        Settled [.around kind inner (ds ++ more)] p₂) :
      Returns (node.finish kind >>= fun closed => closed.wrap >>= fun next => pure (.inl next)) p₂
        (Returns.Round (ReadsOperand atomic precedence p) (fun node p' =>
          ReadsOperand atomic precedence p node p' ∧
            (atomic = false → ∀ next ∈ nextPrecedence? p', next < precedence)) p₁) := by
    have hsome : leavesAll (inner.toList ++ (ds ++ more)) ≠ [] := by
      simp [hmore.ne_nil]
    refine rewrap_returns kind (h.read hread) hkind hsome (fun hclean => (hshape hclean).1)
      fun node' p₃ h₃ hre => .pure ⟨⟨_, _, h₃, fun hstarts => ?_, fun hclean => ?_⟩, ?_⟩
    · refine .node ?_ _ _
      rw [← List.append_assoc]
      exact (hbegins hstarts).append _
    · rw [hre.findings_eq] at hclean
      obtain ⟨_, hoperand, hsettled⟩ := hshape hclean
      refine ⟨hoperand, fun draft hdraft own hown next hnext => ?_, (hitem (hread.clean hclean)).2.2⟩
      rw [nextPrecedence?_of_rewrites hre] at hnext
      exact hsettled draft hdraft own hown next hnext
    · rw [hre.left_eq]
      exact hread.left_lt h.ok hmore
  have hlast : atomic = true ∨ (∀ next ∈ nextPrecedence? p₁, next < precedence) →
      ReadsOperand atomic precedence p node p₁ ∧
        (atomic = false → ∀ next ∈ nextPrecedence? p₁, next < precedence) := by
    intro hend
    refine ⟨hoperand, fun hatomic => hend.resolve_left ?_⟩
    rw [hatomic]
    exact Bool.false_ne_true
  refine .get ?_
  split
  · rename_i hattached
    have hattached := Bool.or_eq_true_iff.1 hattached
    have hend : p₁.isAtEnd = false := hattached.elim
      (fun hat => isAtEnd_of_isAt rfl (isAt_of_isDirectlyAt hat))
      fun hat => isAtEnd_of_isAt rfl (isAt_of_isDirectlyAt hat)
    have hstart := hattached.imp_left isAt_of_isDirectlyAt
    refine .bind (args_returns hr h.ok hend (.inr hstart) hleft₁) ?_
    rintro _ p₂ ⟨children, h₂, hargs⟩
    have hargs := hargs hstart
    refine hround h₂ (hargs.node .args false) rfl fun hclean =>
      ⟨?_, isOperand_around .funcCall _ _ rfl (by decide) precedence p₂⟩
    obtain ⟨kind, hkinds, hisItem⟩ := (hitem (h₂.clean hclean)).1.kinds_eq
    refine ⟨_, kind, children, (List.append_assoc _ _ _).symm, hkinds, hisItem, ?_⟩
    exact hattached.elim (fun hat => attached_of_isDirectlyAt h.ok hat hargs)
      fun hat => attached_of_isDirectlyAt h.ok hat hargs
  · split
    · rename_i hatomic
      exact .pure (hlast (.inl (Bool.and_eq_true_iff.1 hatomic).1))
    · refine .bind (eat_returns h.ok rfl) ?_
      rintro found p₂ ⟨ds₂, h₂, _, htrue, hfalse⟩
      split
      · rename_i hfound
        refine .bind (expect_returns h₂.ok rfl _) ?_
        rintro _ p₃ ⟨_, h₃, _⟩
        exact hround (h₂.trans h₃) ((htrue hfound).2.append _) rfl fun _ =>
          ⟨trivial, isOperand_around .fieldAccess _ _ rfl (by decide) precedence p₃⟩
      · rename_i hfound
        obtain ⟨rfl, _⟩ := hfalse (Bool.eq_false_iff.2 hfound)
        split
        · rename_i hnone
          refine .pure (hlast (.inr ?_))
          rw [hnone]
          rintro next ⟨⟩
        · rename_i next hnext
          split
          · rename_i hlt
            refine .pure (hlast (.inr ?_))
            rw [hnext]
            rintro _ ⟨⟩
            exact hlt
          · rename_i hlt
            refine operator_returns h.ok hnext fun p₄ ds₄ h₄ hoperator hwords => ?_
            have hleft₄ := Nat.lt_of_lt_of_le (h₄.left_lt h.ok hoperator) hleft₁
            refine .bind (hr.expression h₄.ok hleft₄ _ _) ?_
            rintro _ p₅ ⟨ds₅, h₅, _, hright, hbehind⟩
            refine hround (h₄.trans h₅) (hoperator.append _) rfl fun hclean => ?_
            obtain ⟨⟨right, hpresent₅, hright, hgroups⟩, hstarts⟩ := hright hclean
            have hclean₁ := h₄.clean (h₅.clean hclean)
            obtain ⟨⟨left, hpresent, hleft, _⟩, hsettled, _⟩ := hitem hclean₁
            -- An expression starts behind the operator, so that the code does not end there.
            have hwords := hwords.resolve_right fun hend => by
              rw [isAtEnd_of_isAt (isLexical_of_mem_starts (mem_of_isAtAny hstarts))
                (isAt_iff.2 rfl)] at hend
              cases hend
            have hbefore : ∀ own ∈ left.precedence?, next < rightPrecedence own := fun own hown =>
              hsettled left (by rw [hpresent]; exact List.mem_singleton_self _) own hown next hnext
            have hbinary :=
              isBinary_of_parts hpresent hpresent₅ hleft hright hwords hbefore hgroups
            rw [List.append_assoc] at hbinary
            exact ⟨hbinary.1,
              isOperand_of_isBinary hbinary.2 (Nat.le_of_not_lt hlt) (hbehind rfl)⟩

/-- The first operand of an expression is read into the node that is started for it. -/
theorem operand_returns (hr : rules.Adequate n) (hp : p.Ok) (hleft : p.left ≤ n) (atomic : Bool)
    (least : Nat) {node : Opening} (hnode : Inside p none [] node p.started) :
    Returns (operand rules atomic node) p.started fun node' p' =>
      ReadsOperand atomic least p node' p' := by
  refine .get ?_
  split
  · rename_i precedence hprecedence
    obtain ⟨hunary, hcurrent, hstarts⟩ : unaryPrecedence? p.current = some precedence ∧
        p.current.isOrdinary = true ∧ p.isAtAny expressionStarts = true := by
      cases atomic with
      | true => cases hprecedence
      | false =>
        have h : unaryPrecedence? p.current = some precedence := hprecedence
        refine ⟨h, ?_⟩
        unfold Parser.isAtAny
        generalize p.current = kind at h
        unfold unaryPrecedence? at h
        split at h <;> first | exact ⟨rfl, rfl⟩ | cases h
    have hconsumes : p.Consumes := .of_current hcurrent
    refine .bind (bump_returns hnode.ok hconsumes.started) fun _ p₁ h₁ => ?_
    have hinside := hnode.read h₁
    have hbegins := begins_token p false
    have hleft₁ := Nat.lt_of_lt_of_le (hinside.left_lt hp hbegins) hleft
    refine .bind (hr.expression h₁.ok hleft₁ _ _) ?_
    rintro _ p₂ ⟨ds₂, h₂, _, hoperand, _⟩
    have hshape : p₂.findings = [] → Shape .unary (.token p.look false :: ds₂) := by
      intro hclean
      obtain ⟨⟨operand, hpresent, hitem, hgroups⟩, _⟩ := hoperand hclean
      refine isUnary_of_parts hpresent hitem ?_ hgroups
      rwa [← hp.kind_eq, kind_eq_current (isAtEnd_eq_false.1 hconsumes.isAtEnd).1]
    have hbegins := hbegins.append ds₂
    refine .bind (finish_returns .unary (hinside.read h₂) rfl hbegins.ne_nil hshape) ?_
    rintro closed p₃ ⟨h₃, hindex, _⟩
    refine (wrap_returns h₃ rfl hindex).mono ?_
    rintro node' p₄ ⟨h₄, _⟩
    refine ⟨_, _, h₄, fun _ => hbegins.node _ _, fun _ => ?_⟩
    obtain ⟨hoperand, hsettled⟩ := isOperand_around .unary none _ rfl (by decide) least p₄
    exact ⟨hoperand, hsettled, hstarts⟩
  · rename_i hunary
    refine .bind (primary_returns hr hnode.ok hleft atomic) fun _ p₁ h₁ => ?_
    rcases h₁ with ⟨⟨ds, h₁, hbegins, hitem⟩, hstarts⟩ | ⟨⟨ds, h₁⟩, hne, hmem, hunderscore⟩
    · refine .pure ⟨none, ds, hnode.read h₁, fun _ => hbegins, fun hclean => ?_⟩
      obtain ⟨kind, hkinds, hisItem, hbinary⟩ := hitem hclean
      obtain ⟨hoperand, hsettled⟩ := isOperand_of_kinds hkinds hisItem hbinary least p₁
      exact ⟨hoperand, hsettled, hstarts⟩
    · refine .pure ⟨none, ds, hnode.read h₁, fun hstarts => ?_, fun hclean => absurd hclean hne⟩
      -- An expression that starts here starts with one of the operators, which were asked for.
      have hcurrent := mem_of_isAtAny hstarts
      cases atomic with
      | true => exact absurd hcurrent hmem
      | false =>
        have hunary : unaryPrecedence? p.current = none := hunary
        rcases List.mem_append.1 hcurrent with hcurrent | hcurrent
        · exact absurd hcurrent hmem
        · simp only [List.mem_cons, List.not_mem_nil, or_false] at hcurrent
          rcases hcurrent with hk | hk | hk | hk
          · rw [hk] at hunary
            cases hunary
          · rw [hk] at hunary
            cases hunary
          · rw [hk] at hunary
            cases hunary
          · exact absurd hk hunderscore

theorem expression_returns (hr : rules.Adequate n) (hp : p.Ok) (hleft : p.left ≤ n) (atomic : Bool)
    (precedence : Nat) :
    Returns (expression rules atomic precedence) p fun _ p' =>
      ReadsExpression atomic precedence p p' := by
  refine start_returns hp fun node hnode => ?_
  refine .bind (operand_returns hr hp hleft atomic precedence hnode) fun node₁ p₁ h₁ => ?_
  refine .bind (.loop (ReadsOperand atomic precedence p) h₁ fun node p₂ h₂ =>
    continuation_returns hr hleft atomic precedence h₂) ?_
  rintro node₂ p₂ ⟨⟨inner, ds, h₂, hbegins, hitem⟩, hlast⟩
  refine (dissolve_returns h₂).mono ?_
  rintro _ p₃ ⟨hre, ds₃, h₃, hpresent, hleaves⟩
  refine ⟨ds₃, h₃, fun hstarts => ?_, fun hclean => ?_, ?_⟩
  · unfold Begins
    rw [hleaves]
    exact hbegins hstarts
  · rw [hre.findings_eq] at hclean
    obtain ⟨⟨draft, hdraft, hoperand⟩, _, hstarts⟩ := hitem hclean
    exact ⟨⟨draft, hpresent.trans hdraft, hoperand⟩, hstarts⟩
  · rw [nextPrecedence?_of_rewrites hre]
    exact hlast

end Grammar

end TypstFormat
