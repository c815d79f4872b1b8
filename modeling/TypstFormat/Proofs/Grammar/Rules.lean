import TypstFormat.Grammar.Expression
import TypstFormat.Proofs.Grammar.Node

/-!
# What the recursive rules promise

The rules of the grammar are proved to return one by one, each from the promise that the recursive
rules return on what is left of the source once a token was consumed. `Rules.Adequate` is that
promise.

## Key results

- `Rules.Adequate`: the recursive rules return wherever less than so much of the source is left
-/

namespace TypstFormat

open Draft Parse TypstFormat.Parser

namespace Parser

/-- The tokens that an expression starts with. -/
def startsOf (atomic : Bool) : List Kind :=
  if atomic then Grammar.embeddedStarts else Grammar.expressionStarts

/-- A node was read that begins with the current token. -/
def ReadsNode (kind : Kind) (p p' : Parser) : Prop :=
  ∃ children, Reads p [.node kind false children] p' ∧ p.Begins children

/-- One item was read that begins with the current token. -/
def ReadsItem (p p' : Parser) : Prop :=
  ∃ drafts, Reads p drafts p' ∧ p.Begins drafts ∧
    (p'.findings = [] → ∃ kind, kinds drafts = [kind] ∧ kind.isItem = true)

/-- A node was read that begins with the current token, and that is neat, also in markup. -/
def ReadsNeat (kind : Kind) (p p' : Parser) : Prop :=
  ∃ children, Reads p [.node kind false children] p' ∧ p.Begins children ∧
    NeatAll [.node kind false children]

theorem ReadsNeat.node {kind : Kind} {p p' : Parser} (h : ReadsNeat kind p p') :
    ReadsNode kind p p' := by
  obtain ⟨children, h, hbegins, -⟩ := h
  exact ⟨children, h, hbegins⟩

theorem ReadsNode.item {kind : Kind} {p p' : Parser} (h : ReadsNode kind p p')
    (hkind : kind.isNode = true) : ReadsItem p p' := by
  obtain ⟨children, h, hbegins⟩ := h
  refine ⟨_, h, hbegins.node kind false, fun _ => ⟨kind, rfl, ?_⟩⟩
  simp [Kind.isItem, hkind]

/-- A node that begins with the current token is finished. -/
theorem finishNode_returns {p p' : Parser} {node : Opening} {drafts : List Draft} (kind : Kind)
    (h : Inside p none drafts node p') (hbegins : p.Begins drafts) (hkind : kind.isCommon = true)
    (hshape : p'.findings = [] → Shape kind drafts) :
    Returns (node.finish kind) p' fun _ p'' => ReadsNode kind p p'' := by
  refine (finish_returns kind h hkind hbegins.ne_nil hshape).mono ?_
  rintro _ p'' ⟨hread, _⟩
  exact ⟨drafts, hread, hbegins⟩

/-- A neat node that begins with the current token is finished. -/
theorem finishNeat_returns {p p' : Parser} {node : Opening} {drafts : List Draft} (kind : Kind)
    (h : Inside p none drafts node p') (hbegins : p.Begins drafts) (hkind : kind.isCommon = true)
    (hshape : p'.findings = [] → Shape kind drafts) (harranged : Arranged kind drafts)
    (hneat : NeatAll drafts) :
    Returns (node.finish kind) p' fun _ p'' => ReadsNeat kind p p'' := by
  refine (finish_returns kind h hkind hbegins.ne_nil hshape).mono ?_
  rintro _ p'' ⟨hread, _⟩
  exact ⟨drafts, hread, hbegins, neatAll_node harranged hneat⟩

/-- A node of what was read between delimiters is read, perhaps across lines. -/
theorem finishSpans_returns {p p' : Parser} {node : Opening} {drafts : List Draft} (kind : Kind)
    (h : Encloses p drafts node p') (hkind : kind.isCommon = true)
    (hshape : p'.findings = [] → Shape kind drafts) :
    Returns (node.finish kind) p' fun _ p'' =>
      Spans p [.node kind false drafts] p'' ∧ Rewrites p' p'' := by
  have hnode := (Kind.isCommon_iff.1 hkind).1
  refine (finishWithin_returns kind h.toWithin hnode
    (lined_of_isCommon hkind h.lined (fun hne => absurd rfl hne) _)).mono ?_
  rintro closed p'' ⟨htakes, -, hre⟩
  refine ⟨⟨htakes, fun hclean => ?_, fun hmode => (h.bare hmode).enclosed hkind _⟩, hre⟩
  rw [hre.findings_eq] at hclean
  have htidy := h.tidy hclean
  exact tidy_node _ hnode (htidy.formed (hshape hclean)) htidy.sound htidy.ends htidy.keeps

/-- A node of what was read between delimiters is read, if it stands in the line. -/
theorem finishEnclosed_returns {p p' : Parser} {node : Opening} {drafts : List Draft} (kind : Kind)
    (h : Encloses p drafts node p') (hkind : (kind.isCommon && !kind.isOpen) = true)
    (hfront : p.Bound → (front drafts p'.codeLook).Joins)
    (hshape : p'.findings = [] → Shape kind drafts) :
    Returns (node.finish kind) p' fun _ p'' => Reads p [.node kind false drafts] p'' := by
  obtain ⟨hcommon, hclosed⟩ := Bool.and_eq_true_iff.1 hkind
  refine (finishSpans_returns kind h hcommon hshape).mono ?_
  rintro closed p'' ⟨hspans, hre⟩
  refine ⟨hspans, fun hbound => ?_⟩
  rw [hre.codeLook_eq]
  refine linedAll_node (fun _ => hfront hbound)
    (lined_of_isCommon hcommon h.lined (fun _ hopen => ?_) _)
  rw [hopen] at hclosed
  cases hclosed

/-- The drafts are one item, whose operator binds at least as tightly as told, if it has one. -/
def IsOperand (precedence : Nat) (drafts : List Draft) : Prop :=
  ∃ draft, present drafts = [draft] ∧ draft.kind.isItem = true ∧
    ∀ own ∈ draft.precedence?, precedence ≤ own

theorem IsOperand.kinds_eq {precedence : Nat} {drafts : List Draft}
    (h : IsOperand precedence drafts) : ∃ kind, kinds drafts = [kind] ∧ kind.isItem = true := by
  obtain ⟨draft, hdrafts, hitem, -⟩ := h
  exact ⟨draft.kind, by rw [← map_kind_present, hdrafts]; rfl, hitem⟩

/-- An expression was read: one item that starts here, unless there are diagnostics. No operator
that belongs to it comes next. -/
def ReadsExpression (atomic : Bool) (precedence : Nat) (p p' : Parser) : Prop :=
  ∃ drafts, Reads p drafts p' ∧ (p.isAtAny (startsOf atomic) = true → p.Begins drafts) ∧
    (p'.findings = [] →
      IsOperand precedence drafts ∧ p.isAtAny Grammar.expressionStarts = true) ∧
    (atomic = false → ∀ next ∈ Grammar.nextPrecedence? p', next < precedence)

/-- The lines that begin in markup lie within its extent. -/
def WithinExtent (source : List Char) (extent : Extent) (children : List Draft) : Prop :=
  ∀ l : Look, .token l false ∈ children → l.token.kind.isSpace = true →
    l.token.containsNewline = true →
    extent.endsBefore (Text.column source l.token.range.stop) = false

/-- Markup was read, which may start at the start of a line. There may be nothing in it, so that it
need not stand in the line. -/
def ReadsMarkup (atLineStart : Bool) (extent : Extent) (p p' : Parser) : Prop :=
  ∃ children, Spans p [.node .markup false children] p' ∧ NeatAll [.node .markup false children] ∧
    Kind.LineStarts atLineStart (siblings children) ∧ WithinExtent p.source extent children

/-- The parser stands behind the place where a loop was last looked at. -/
def Behind (progress : Progress) (p : Parser) : Prop :=
  ∀ last ∈ progress.last, last < p.position

theorem behind_start (p : Parser) : Behind {} p := by
  simp [Behind]

theorem Reads.behind {p p' : Parser} {drafts : List Draft} (h : Reads p drafts p') (hp : p.Ok)
    (hbegins : p.Begins drafts) : Behind { last := some p.position } p' := by
  rintro last ⟨⟩
  exact h.position_lt_position hp hbegins

/-- Elements are read one after another in a node. -/
def Listing (p : Parser) (node : Opening) (progress : Progress) (p' : Parser) : Prop :=
  (∃ drafts, Inside p none drafts node p') ∧ Behind progress p'

theorem Inside.listing {p : Parser} {node : Opening} (h : Inside p none [] node p.started) :
    Listing p node {} p.started :=
  ⟨⟨[], h⟩, behind_start _⟩

/-- An element that begins with the current token is added. -/
theorem Inside.round {p p₁ p₂ : Parser} {node : Opening} {drafts more : List Draft}
    (h : Inside p none drafts node p₁) (hread : Reads p₁ more p₂) (hbegins : p₁.Begins more) :
    Listing p node { last := some p₁.position } p₂ ∧ p₂.left < p₁.left :=
  ⟨⟨⟨_, h.read hread⟩, hread.behind h.ok hbegins⟩, hread.left_lt h.ok hbegins⟩

end Parser

/-- The recursive rules return wherever less than `n` characters are left. -/
structure Rules.Adequate (rules : Rules) (n : Nat) : Prop where
  expression {p : Parser} (hp : p.Ok) (hleft : p.left < n) (atomic : Bool) (precedence : Nat) :
    Returns (rules.expression atomic precedence) p fun _ p' =>
      ReadsExpression atomic precedence p p'
  markup {p : Parser} (hp : p.Ok) (hmode : p.stream.mode = .markup) (hleft : p.left < n)
    (atLineStart : Bool) (extent : Extent) (stops : List Kind) :
    Returns (rules.markup atLineStart extent stops) p fun _ p' =>
      ReadsMarkup atLineStart extent p p'
  conditional {p : Parser} (hp : p.Ok) (hat : p.current = .kwIf) (hleft : p.left < n) :
    Returns rules.conditional p fun _ p' => ReadsNode .conditional p p'

namespace Grammar

variable {p p' : Parser}

/-- Only tokens that stand in the source are listed among those that expressions start with. -/
theorem isLexical_of_mem_starts {kind : Kind} (h : kind ∈ expressionStarts) :
    kind.isLexical = true := by
  revert kind
  decide

theorem mem_of_isAtAny {kinds : List Kind} (h : p.isAtAny kinds = true) : p.current ∈ kinds := by
  simpa [Parser.isAtAny] using h

end Grammar

end TypstFormat
