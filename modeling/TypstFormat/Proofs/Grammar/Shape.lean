import Mathlib.Data.List.Chain
import TypstFormat.Grammar.Rules
import TypstFormat.Proofs.Tree.Draft

/-!
# The shapes of nodes

What stands in a node of a source that is read without complaint. A list of arguments is an optional
list of items between parentheses, separated by commas, with content blocks attached to it, and a
call has its arguments attached to what is called. No item is empty or all white space, so that two
commas never come next to each other, and none ends with a comment. Blocks, equations, emphasized
markup and collections stand between two delimiters, and parentheses are closed where they are
opened. Operators stand between operands, or in front of one, that are not grouped against their
precedence. Statements are set apart by semicolons or by line breaks. Nothing is skipped, so there are
no nodes around what has been skipped.

One kind of node is an exception. The empty dictionary is seen from its first token on, across line
breaks, but its tokens are consumed one by one, and a line break stops that (`IsCutShort`).

## Key results

- `Draft.IsArgs`, `Draft.IsCall`: the shapes of lists of arguments and of calls
- `Draft.IsBinary`, `Draft.IsUnary`: the shapes of operators with their operands
- `Draft.IsCode`: the shape of code
- `ParensClosed`, `Kind.delimiters?`: parentheses and other delimiters
- `Draft.SolidNodes`: none of several nodes is empty or all white space, or ends with a comment
- `Draft.Tidy`: all nodes of drafts have their shapes, and all parentheses are closed
-/

namespace TypstFormat

/-- The kinds of what can stand between two commas. -/
def Kind.isItem (kind : Kind) : Bool :=
  kind.isNode || kind = .ident || kind = .underscore || Grammar.literals.contains kind

/-- Items with a comma behind each, and perhaps another one without a comma. -/
def ItemKinds (kinds : List Kind) : Prop :=
  ∃ (items : List Kind) (last : Option Kind),
    kinds = items.flatMap (fun item => [item, .comma]) ++ last.toList ∧
    ∀ item ∈ items ++ last.toList, item.isItem = true

/-- The tokens that a node of this kind stands between. -/
def Kind.delimiters? : Kind → Option (Kind × Kind)
  | .codeBlock => some (.leftBrace, .rightBrace)
  | .contentBlock => some (.leftBracket, .rightBracket)
  | .equation => some (.dollar, .dollar)
  | .strong => some (.star, .star)
  | .emph => some (.underscore, .underscore)
  | .parenthesized | .array | .dict | .destructuring => some (.leftParen, .rightParen)
  | _ => none

/-- Kinds between two other ones. -/
def Between (first last : Kind) (kinds : List Kind) : Prop :=
  ∃ inner, kinds = first :: (inner ++ [last])

/-- Behind every opening parenthesis comes a closing one. -/
def ParensClosed : List Kind → Prop
  | [] => True
  | kind :: kinds => (kind = .leftParen → .rightParen ∈ kinds) ∧ ParensClosed kinds

/-- An empty dictionary whose last tokens could not be consumed. -/
def IsCutShort (kind : Kind) (kinds : List Kind) : Prop :=
  kind = .dict ∧ (kinds = [.leftParen] ∨ kinds = [.leftParen, .colon])

/-- What stands between the tokens that count: white space, and the commas between items. -/
def Kind.isGlue (kind : Kind) : Bool :=
  kind.isSpace || kind = .comma

/-- The precedence of an operator of one or two words. -/
def wordsPrecedence? : List Kind → Option Nat
  | [.kwNot, .kwIn] => some Grammar.notInPrecedence
  | [operator] => Grammar.binaryPrecedence? operator
  | _ => none

/-- The precedence of the operator between two operands, trivia aside. -/
def operatorPrecedence? (children : List Kind) : Option Nat :=
  wordsPrecedence? (children.filter (!·.isTrivia)).tail.dropLast

/-- The precedence of the operator in front of an operand, trivia aside. -/
def prefixPrecedence? (children : List Kind) : Option Nat :=
  (children.filter (!·.isTrivia)).head?.bind Grammar.unaryPrecedence?

/-- Behind white space that is a token of markup, the mode is not left at once: what comes next is read
in markup as well. `white` tells whether white space may stand in front. -/
def Look.Keeps : (white : Bool) → List Look → Prop
  | _, [] => True
  | white, l :: ls => (white = true → l.mode = .markup) ∧ Keeps l.token.kind.isSpace ls

namespace Draft

/-- Drafts do not end with a token of trivia. -/
def EndsPlainly (drafts : List Draft) : Prop :=
  ∀ l ∈ (leavesAll drafts).getLast?, l.token.kind.isTrivia = false

/-- Drafts start with a token, and no trivia stands in front of it. -/
def Attached (drafts : List Draft) : Prop :=
  ∃ l, (leavesAll drafts).head? = some l ∧ l.trivia = []

/-- Each of the nodes starts with a token that counts, and does not end with trivia. -/
def SolidNodes (drafts : List Draft) : Prop :=
  ∀ draft ∈ drafts, draft.isNode = true →
    (∃ l, draft.leaves.head? = some l ∧ l.token.kind.isGlue = false) ∧ EndsPlainly [draft]

/-- A list of items between parentheses, which may be missing, and content blocks, each of which is
attached to what stands in front of it. -/
structure IsArgs (children : List Draft) : Prop where
  parts : ∃ list blocks, children = list ++ blocks ∧
    (list = [] ∨ ∃ items, ItemKinds items ∧
      kinds list = .leftParen :: (items ++ [.rightParen])) ∧
    ∀ block ∈ blocks, block.isNode = true ∧ block.kind = .contentBlock ∧ Attached [block]
  solid : SolidNodes children

/-- Something is called, with arguments attached to it. -/
def IsCall (children : List Draft) : Prop :=
  ∃ callee kind args, children = callee ++ [.node .args false args] ∧ kinds callee = [kind] ∧
    kind.isItem = true ∧ Attached args

/-- What is left of drafts in a tree. -/
def present (drafts : List Draft) : List Draft :=
  drafts.filter (!·.isVoid)

/-- The precedence of the operator of a draft that has two operands. -/
def precedence? : Draft → Option Nat
  | node .binary _ children => operatorPrecedence? (kinds children)
  | _ => none

/-- An operator between two operands. What follows an operator of the left operand binds less tightly
than its right operand may, and the right operand binds as tightly as it has to. -/
structure IsBinary (children : List Draft) : Prop where
  parts : ∃ left operator right precedence, present children = left :: (operator ++ [right]) ∧
    operatorPrecedence? (kinds children) = some precedence ∧
    (∀ own ∈ left.precedence?, precedence < Grammar.rightPrecedence own) ∧
    ∀ own ∈ right.precedence?, Grammar.rightPrecedence precedence ≤ own
  plain : ∀ kind ∈ kinds children, kind.isTrivia = false

/-- An operator in front of an operand that binds at least as tightly. -/
structure IsUnary (children : List Draft) : Prop where
  parts : ∃ operator operand precedence, present children = [operator, operand] ∧
    prefixPrecedence? (kinds children) = some precedence ∧
    ∀ own ∈ operand.precedence?, precedence ≤ own
  plain : ∀ kind ∈ kinds children, kind.isTrivia = false

/-- Of two statements, one is a semicolon, or a line ends in front of the second one. -/
def Apart (draft next : Draft) : Prop :=
  draft.kind = .semicolon ∨ next.kind = .semicolon ∨ ∃ l, next.leaves.head? = some l ∧ ¬l.Joins

/-- A draft starts with a token that is no trivia. -/
def BeginsPlainly (draft : Draft) : Prop :=
  ∃ l, draft.leaves.head? = some l ∧ l.token.kind.isTrivia = false

/-- Statements that are set apart from each other. None of them is empty. -/
structure IsCode (children : List Draft) : Prop where
  apart : (present children).IsChain Apart
  begin : ∀ draft ∈ present children, draft.BeginsPlainly

/-- What holds of the children of a node in a source without diagnostics. -/
def Shape : Kind → List Draft → Prop
  | .args, children => IsArgs children
  | .funcCall, children => IsCall children
  | .binary, children => IsBinary children
  | .unary, children => IsUnary children
  | .code, children => IsCode children
  | .errorNode, _ => False
  | kind, children =>
    match kind.delimiters? with
    | some (first, last) => Between first last (kinds children) ∨ IsCutShort kind (kinds children)
    | none => True

/-- A node has its shape, and what it opens it closes. -/
structure Formed (kind : Kind) (children : List Draft) : Prop where
  shape : Shape kind children
  parens : ParensClosed (kinds children) ∨ IsCutShort kind (kinds children)

mutual

/-- All nodes are formed. -/
def Sound : Draft → Prop
  | token .. => True
  | void => True
  | node kind _ children => Formed kind children ∧ SoundAll children

/-- All nodes of several drafts are formed. -/
def SoundAll : List Draft → Prop
  | [] => True
  | draft :: drafts => Sound draft ∧ SoundAll drafts

end

@[simp] theorem soundAll_append (drafts more : List Draft) :
    SoundAll (drafts ++ more) ↔ SoundAll drafts ∧ SoundAll more := by
  induction drafts with
  | nil => simp [SoundAll]
  | cons draft drafts ih => simp [SoundAll, ih, and_assoc]

end Draft

/-! ## Parentheses -/

namespace ParensClosed

variable {kinds more : List Kind}

theorem append (h : ParensClosed kinds) (hmore : ParensClosed more) :
    ParensClosed (kinds ++ more) := by
  induction kinds with
  | nil => exact hmore
  | cons kind kinds ih =>
    exact ⟨fun hparen => List.mem_append_left _ (h.1 hparen), ih h.2⟩

/-- A closing parenthesis closes everything in front of it. -/
theorem of_last (kinds : List Kind) : ParensClosed (kinds ++ [.rightParen]) := by
  induction kinds with
  | nil => exact ⟨by simp, trivial⟩
  | cons kind kinds ih => exact ⟨fun _ => by simp, ih⟩

theorem singleton {kind : Kind} (h : kind ≠ .leftParen) : ParensClosed [kind] :=
  ⟨fun hparen => absurd hparen h, trivial⟩

end ParensClosed

theorem Kind.isTrivia_of_isItem {kind : Kind} (h : kind.isItem = true) :
    kind.isTrivia = false ∧ kind.isTerminator = false ∧ kind ≠ .comma := by
  revert h
  cases kind <;> decide

theorem Kind.isTrivia_of_isSpace {kind : Kind} (h : kind.isSpace = true) : kind.isTrivia = true := by
  cases kind <;> first | rfl | cases h

theorem Kind.ne_leftParen_of_isNode {kind : Kind} (h : kind.isNode = true) :
    kind ≠ .leftParen := by
  rintro rfl
  cases h

/-! ## Modes -/

namespace Look.Keeps

variable {white white' : Bool} {ls more : List Look}

theorem mono (h : Keeps white' ls) (hwhite : white = true → white' = true) : Keeps white ls := by
  cases ls with
  | nil => trivial
  | cons => exact ⟨fun htrue => h.1 (hwhite htrue), h.2⟩

theorem append (h : Keeps white ls) (hmore : Keeps white' more)
    (hnil : ls = [] → white = true → white' = true)
    (hlast : ∀ l ∈ ls.getLast?, l.token.kind.isSpace = true → white' = true) :
    Keeps white (ls ++ more) := by
  induction ls generalizing white with
  | nil => exact hmore.mono (hnil rfl)
  | cons l ls ih =>
    refine ⟨h.1, ih h.2 ?_ fun last hlast' => hlast last ?_⟩
    · rintro rfl
      exact hlast l rfl
    · rw [List.getLast?_cons, Option.mem_def.1 hlast']
      rfl

end Look.Keeps

namespace Draft

/-! ## Ends -/

theorem endsPlainly_nil : EndsPlainly [] := by
  simp [EndsPlainly, leavesAll]

theorem EndsPlainly.append {drafts more : List Draft} (h : EndsPlainly drafts)
    (hmore : EndsPlainly more) : EndsPlainly (drafts ++ more) := by
  intro l hl
  rw [leavesAll_append, List.getLast?_append] at hl
  cases hlast : (leavesAll more).getLast? with
  | none =>
    rw [hlast] at hl
    exact h l hl
  | some last =>
    rw [hlast] at hl
    exact hmore l (hlast.trans hl)

/-- What drafts end with is what they end with inside of a node. -/
theorem endsPlainly_node {kind : Kind} {wraps : Bool} {children : List Draft} :
    EndsPlainly [.node kind wraps children] ↔ EndsPlainly children := by
  unfold EndsPlainly
  rw [leavesAll_singleton]
  rfl

theorem attached_node {kind : Kind} {wraps : Bool} {children : List Draft} :
    Attached [.node kind wraps children] ↔ Attached children := by
  unfold Attached
  rw [leavesAll_singleton]
  rfl

theorem endsPlainly_congr {drafts more : List Draft} (h : leavesAll more = leavesAll drafts)
    (hends : EndsPlainly drafts) : EndsPlainly more := by
  unfold EndsPlainly
  rw [h]
  exact hends

/-! ## Tidy drafts -/

/-- What is read without complaint in a mode: nodes that are formed, and parentheses that are
closed. Only in markup, comments and white space are read as tokens that something can end with, and
markup goes on behind white space. -/
structure Tidy (mode : Mode) (drafts : List Draft) : Prop where
  sound : SoundAll drafts
  parens : ParensClosed (kinds drafts)
  ends : mode ≠ .markup → EndsPlainly drafts
  keeps : Look.Keeps (mode = .markup) (leavesAll drafts)

variable {mode : Mode}

theorem tidy_nil : Tidy mode [] :=
  ⟨trivial, trivial, fun _ => endsPlainly_nil, trivial⟩

/-- What is read in a mode does not end with white space, unless the mode is that of markup. -/
theorem eq_markup_of_getLast? {drafts : List Draft} (hends : mode ≠ .markup → EndsPlainly drafts) :
    ∀ l ∈ (leavesAll drafts).getLast?, l.token.kind.isSpace = true → mode = .markup := by
  intro l hl hspace
  by_contra hmode
  have hplain := hends hmode l hl
  rw [Kind.isTrivia_of_isSpace hspace] at hplain
  cases hplain

theorem Tidy.append {drafts more : List Draft} (h : Tidy mode drafts) (hmore : Tidy mode more) :
    Tidy mode (drafts ++ more) := by
  refine ⟨(soundAll_append _ _).2 ⟨h.sound, hmore.sound⟩, ?_,
    fun hmode => (h.ends hmode).append (hmore.ends hmode), ?_⟩
  · rw [kinds_append]
    exact h.parens.append hmore.parens
  · rw [leavesAll_append]
    refine h.keeps.append hmore.keeps (fun _ => id) fun l hl hspace => ?_
    exact decide_eq_true (eq_markup_of_getLast? h.ends l hl hspace)

theorem tidy_token {look : Look} {asText : Bool} (hmode : look.mode = mode)
    (h : look.token.kind ≠ .leftParen)
    (hends : mode ≠ .markup → look.token.kind.isTrivia = false) :
    Tidy mode [.token look asText] := by
  refine ⟨⟨trivial, trivial⟩, .singleton ?_, ?_, fun hmarkup => ?_, trivial⟩
  · cases asText with
    | true => simp [kind]
    | false => exact h
  · rintro hmode l ⟨⟩
    exact hends hmode
  · exact hmode.trans (of_decide_eq_true hmarkup)

theorem tidy_node {kind : Kind} {children : List Draft} (wraps : Bool)
    (hkind : kind.isNode = true) (hformed : Formed kind children) (hsound : SoundAll children)
    (hends : mode ≠ .markup → EndsPlainly children)
    (hkeeps : Look.Keeps (mode = .markup) (leavesAll children)) :
    Tidy mode [.node kind wraps children] := by
  refine ⟨⟨⟨hformed, hsound⟩, trivial⟩, .singleton (Kind.ne_leftParen_of_isNode hkind),
    fun hmode => endsPlainly_node.2 (hends hmode), ?_⟩
  rw [leavesAll_singleton]
  exact hkeeps

/-- A node of a kind without delimiters is formed by what is tidy. -/
theorem Tidy.formed {kind : Kind} {children : List Draft} (h : Tidy mode children)
    (hshape : Shape kind children) : Formed kind children :=
  ⟨hshape, .inl h.parens⟩

/-- What stands between its delimiters has its shape. -/
theorem shape_of_between {kind first last : Kind} {children : List Draft}
    (hkind : kind.delimiters? = some (first, last)) (h : Between first last (kinds children)) :
    Shape kind children := by
  unfold Shape
  split
  · cases hkind
  · cases hkind
  · cases hkind
  · cases hkind
  · cases hkind
  · cases hkind
  · rw [hkind]
    exact .inl h

theorem Shape.between {kind first last : Kind} {children : List Draft} (h : Shape kind children)
    (hkind : kind.delimiters? = some (first, last)) :
    Between first last (kinds children) ∨ IsCutShort kind (kinds children) := by
  unfold Shape at h
  split at h
  · cases hkind
  · cases hkind
  · cases hkind
  · cases hkind
  · cases hkind
  · cases hkind
  · rw [hkind] at h
    exact h

theorem between_of_kinds {first last : Kind} {opening inner closing : List Draft}
    (hopening : kinds opening = [first]) (hclosing : kinds closing = [last]) :
    Between first last (kinds (opening ++ (inner ++ closing))) :=
  ⟨kinds inner, by simp [hopening, hclosing]⟩

theorem formed_of_isCutShort {kind : Kind} {children : List Draft}
    (h : IsCutShort kind (kinds children)) : Formed kind children := by
  refine ⟨?_, .inr h⟩
  obtain rfl : kind = .dict := h.1
  exact .inr h

/-! ## Operators -/

theorem map_kind_present (drafts : List Draft) : (present drafts).map kind = kinds drafts := rfl

@[simp] theorem present_append (drafts more : List Draft) :
    present (drafts ++ more) = present drafts ++ present more := List.filter_append ..

theorem kinds_of_present {drafts more : List Draft} (h : present drafts = present more) :
    kinds drafts = kinds more := by
  rw [← map_kind_present, h, map_kind_present]

theorem exists_present_of_kinds {drafts : List Draft} {kind : Kind} (h : kinds drafts = [kind]) :
    ∃ draft, present drafts = [draft] ∧ draft.kind = kind := by
  rw [← map_kind_present] at h
  obtain ⟨draft, rest, hdrafts, hkind, hrest⟩ := List.map_eq_cons_iff.1 h
  exact ⟨draft, by rw [hdrafts, List.map_eq_nil_iff.1 hrest], hkind⟩

/-- What is not left in a tree has no tokens. -/
theorem leavesAll_present (drafts : List Draft) : leavesAll (present drafts) = leavesAll drafts := by
  induction drafts with
  | nil => rfl
  | cons draft drafts ih =>
    cases draft with
    | void => exact ih
    | token look asText => exact congrArg (look :: ·) ih
    | node kind wraps children => exact congrArg (leavesAll children ++ ·) ih

theorem wordsPrecedence?_singleton (operator : Kind) :
    wordsPrecedence? [operator] = Grammar.binaryPrecedence? operator := by
  cases operator <;> rfl

/-- No word of an operator is trivia. -/
theorem isTrivia_of_wordsPrecedence {words : List Kind} {precedence : Nat}
    (h : wordsPrecedence? words = some precedence) : ∀ kind ∈ words, kind.isTrivia = false := by
  unfold wordsPrecedence? at h
  split at h
  · decide
  · rename_i operator _
    refine List.forall_mem_singleton.2 ?_
    unfold Grammar.binaryPrecedence? at h
    split at h <;> first | rfl | cases h
  · cases h

theorem isTrivia_of_unaryPrecedence {kind : Kind} {precedence : Nat}
    (h : Grammar.unaryPrecedence? kind = some precedence) : kind.isTrivia = false := by
  unfold Grammar.unaryPrecedence? at h
  split at h <;> first | rfl | cases h

/-- Two operands with an operator between them that is grouped by its precedence. -/
theorem isBinary_of_parts {first operator second : List Draft} {left right : Draft}
    {precedence : Nat} (hfirst : present first = [left]) (hsecond : present second = [right])
    (hleft : left.kind.isItem = true) (hright : right.kind.isItem = true)
    (hoperator : wordsPrecedence? (kinds operator) = some precedence)
    (hbefore : ∀ own ∈ left.precedence?, precedence < Grammar.rightPrecedence own)
    (hbehind : ∀ own ∈ right.precedence?, Grammar.rightPrecedence precedence ≤ own) :
    IsBinary (first ++ (operator ++ second)) ∧
      operatorPrecedence? (kinds (first ++ (operator ++ second))) = some precedence := by
  have hpresent : present (first ++ (operator ++ second)) = left :: (present operator ++ [right]) := by
    rw [present_append, present_append, hfirst, hsecond]
    rfl
  have hkinds : kinds (first ++ (operator ++ second)) =
      left.kind :: (kinds operator ++ [right.kind]) := by
    rw [← map_kind_present, hpresent, List.map_cons, List.map_append, map_kind_present]
    rfl
  have hplain : ∀ kind ∈ kinds (first ++ (operator ++ second)), kind.isTrivia = false := by
    rw [hkinds]
    refine List.forall_mem_cons.2 ⟨(Kind.isTrivia_of_isItem hleft).1, List.forall_mem_append.2
      ⟨isTrivia_of_wordsPrecedence hoperator, List.forall_mem_singleton.2 ?_⟩⟩
    exact (Kind.isTrivia_of_isItem hright).1
  have hprecedence :
      operatorPrecedence? (kinds (first ++ (operator ++ second))) = some precedence := by
    rw [operatorPrecedence?, List.filter_eq_self.2 fun kind hkind => by simp [hplain kind hkind],
      hkinds, List.tail_cons, List.dropLast_concat]
    exact hoperator
  exact ⟨⟨⟨left, present operator, right, precedence, hpresent, hprecedence, hbefore, hbehind⟩,
    hplain⟩, hprecedence⟩

/-- An operator in front of an operand that is grouped by its precedence. -/
theorem isUnary_of_parts {look : Look} {drafts : List Draft} {operand : Draft} {precedence : Nat}
    (hdrafts : present drafts = [operand]) (hitem : operand.kind.isItem = true)
    (hoperator : Grammar.unaryPrecedence? look.token.kind = some precedence)
    (hbehind : ∀ own ∈ operand.precedence?, precedence ≤ own) :
    IsUnary (.token look false :: drafts) := by
  have hpresent : present (.token look false :: drafts) = [.token look false, operand] := by
    rw [← hdrafts]
    rfl
  have hkinds : kinds (.token look false :: drafts) = [look.token.kind, operand.kind] := by
    rw [← map_kind_present, hpresent]
    rfl
  have hplain : ∀ kind ∈ kinds (.token look false :: drafts), kind.isTrivia = false := by
    rw [hkinds]
    exact List.forall_mem_cons.2 ⟨isTrivia_of_unaryPrecedence hoperator,
      List.forall_mem_singleton.2 (Kind.isTrivia_of_isItem hitem).1⟩
  refine ⟨⟨_, operand, precedence, hpresent, ?_, hbehind⟩, hplain⟩
  rw [prefixPrecedence?, List.filter_eq_self.2 fun kind hkind => by simp [hplain kind hkind], hkinds]
  exact hoperator

/-! ## Solid nodes -/

theorem solidNodes_nil : SolidNodes [] := by
  simp [SolidNodes]

theorem SolidNodes.append {drafts more : List Draft} (h₁ : SolidNodes drafts)
    (h₂ : SolidNodes more) : SolidNodes (drafts ++ more) := by
  intro draft hdraft
  rcases List.mem_append.1 hdraft with hdraft | hdraft
  · exact h₁ draft hdraft
  · exact h₂ draft hdraft

/-- A node is left in the tree. -/
theorem mem_filter_of_isNode {draft : Draft} {drafts : List Draft} (hdraft : draft ∈ drafts)
    (hnode : draft.isNode = true) : draft ∈ drafts.filter (!·.isVoid) := by
  refine List.mem_filter.2 ⟨hdraft, ?_⟩
  cases draft with
  | node => rfl
  | token => cases hnode
  | void => cases hnode

/-- The kind of a node is among the kinds of the drafts it belongs to. -/
theorem kind_mem_kinds {draft : Draft} {drafts : List Draft} (hdraft : draft ∈ drafts)
    (hnode : draft.isNode = true) : draft.kind ∈ kinds drafts :=
  List.mem_map_of_mem (mem_filter_of_isNode hdraft hnode)

theorem isNode_kind_of_properAll {draft : Draft} {drafts : List Draft} (h : ProperAll drafts)
    (hdraft : draft ∈ drafts) (hnode : draft.isNode = true) : draft.kind.isNode = true := by
  induction drafts with
  | nil => cases hdraft
  | cons first drafts ih =>
    rcases List.mem_cons.1 hdraft with rfl | hdraft
    · cases draft with
      | node => exact h.1.1
      | token => cases hnode
      | void => cases hnode
    · exact ih h.2 hdraft

/-- Where no kind is that of a node, there is no node. -/
theorem solidNodes_of_kinds {drafts : List Draft} (h : ProperAll drafts)
    (hkinds : ∀ kind ∈ kinds drafts, kind.isNode = false) : SolidNodes drafts := by
  intro draft hdraft hnode
  have hfalse := hkinds _ (kind_mem_kinds hdraft hnode)
  rw [isNode_kind_of_properAll h hdraft hnode] at hfalse
  cases hfalse

theorem leavesAll_of_kinds_nil {drafts : List Draft} (h : kinds drafts = []) :
    leavesAll drafts = [] := by
  induction drafts with
  | nil => rfl
  | cons draft drafts ih =>
    cases draft with
    | void => exact ih (by simpa using h)
    | token => simp at h
    | node => simp at h

/-- All drafts but one are void, so the leaves are those of the node. -/
theorem leavesAll_of_kinds_singleton {drafts : List Draft} {kind : Kind}
    (hkinds : kinds drafts = [kind]) {draft : Draft} (hdraft : draft ∈ drafts)
    (hnode : draft.isNode = true) : leavesAll drafts = leavesAll [draft] := by
  induction drafts with
  | nil => cases hdraft
  | cons first drafts ih =>
    rcases List.mem_cons.1 hdraft with rfl | hmem
    · -- Behind the node all drafts are void.
      have hrest : kinds drafts = [] := by
        cases draft with
        | node => exact (List.cons.inj (kinds_node .. ▸ hkinds)).2
        | token => cases hnode
        | void => cases hnode
      rw [leavesAll, leavesAll_of_kinds_nil hrest, leavesAll_singleton, List.append_nil]
    · have hkind := kind_mem_kinds hmem hnode
      cases first with
      | void => exact ih (by simpa using hkinds) hmem
      | token =>
        have hrest : kinds drafts = [] := (List.cons.inj (kinds_token .. ▸ hkinds)).2
        rw [hrest] at hkind
        cases hkind
      | node =>
        have hrest : kinds drafts = [] := (List.cons.inj (kinds_node .. ▸ hkinds)).2
        rw [hrest] at hkind
        cases hkind

/-- One node is solid if a token that counts was read first, and what was read does not end with
trivia. -/
theorem solidNodes_of_leaf {drafts : List Draft} {kind : Kind} (hkinds : kinds drafts = [kind])
    {l : Look} (hleaf : (leavesAll drafts).head? = some l) (hsolid : l.token.kind.isGlue = false)
    (hends : EndsPlainly drafts) : SolidNodes drafts := by
  intro draft hdraft hnode
  have hleaves := leavesAll_of_kinds_singleton hkinds hdraft hnode
  refine ⟨⟨l, ?_, hsolid⟩, endsPlainly_congr hleaves.symm hends⟩
  rw [hleaves, leavesAll_singleton] at hleaf
  exact hleaf

/-- Drafts that end with a token end with its look. -/
theorem getLast?_leavesAll {drafts : List Draft} (hproper : ProperAll drafts) {kind : Kind}
    (hlast : (kinds drafts).getLast? = some kind) (hkind : kind.isNode = false)
    (htext : kind ≠ .text) :
    ∃ l, (leavesAll drafts).getLast? = some l ∧ l.token.kind = kind := by
  induction drafts with
  | nil => cases hlast
  | cons draft drafts ih =>
    by_cases hnil : kinds drafts = []
    · have hrest := leavesAll_of_kinds_nil hnil
      cases draft with
      | void => simp [hnil] at hlast
      | token look asText =>
        have hlook : (Draft.token look asText).kind = kind := by simpa [hnil] using hlast
        refine ⟨look, by simp [leavesAll, leaves, hrest], ?_⟩
        cases asText with
        | true => exact absurd hlook.symm htext
        | false => exact hlook
      | node own wraps children =>
        have hown : own = kind := by simpa [hnil] using hlast
        have hnode := hproper.1.1
        rw [hown, hkind] at hnode
        cases hnode
    · -- The last draft that is not void is one of the rest.
      have hlast' : (kinds drafts).getLast? = some kind := by
        cases draft with
        | void => exact hlast
        | token => rwa [kinds_token, List.getLast?_cons_of_ne_nil hnil] at hlast
        | node => rwa [kinds_node, List.getLast?_cons_of_ne_nil hnil] at hlast
      obtain ⟨l, hl, hlook⟩ := ih hproper.2 hlast'
      refine ⟨l, ?_, hlook⟩
      rw [leavesAll, List.getLast?_append, hl]
      rfl

/-- What ends with a token ends plainly if the token is no trivia. -/
theorem endsPlainly_of_kinds {drafts : List Draft} (hproper : ProperAll drafts) {kind : Kind}
    (hlast : (kinds drafts).getLast? = some kind) (hkind : kind.isNode = false)
    (htext : kind ≠ .text) (htrivia : kind.isTrivia = false) : EndsPlainly drafts := by
  obtain ⟨last, hleaf, hlook⟩ := getLast?_leavesAll hproper hlast hkind htext
  intro l hl
  rw [hleaf] at hl
  cases hl
  rw [hlook]
  exact htrivia

end Draft

end TypstFormat
