import TypstFormat.Proofs.Twin.Keeps

/-!
# Two sources side by side

A source and a changed one are compared by parsing both. `Sides` says how they differ: which offsets
correspond, and which pieces of trivia. That the scanner sees the same on both sides is the law
`Sides.Lawful.sight`; it allows for the few places at which it does not:

* the comparison may be `clean`, which means that it only matters as long as nothing is complained
  about on the left. If it is also `strict`, then the right source may go on where the left one ends
  (`Sight.gap`, `Sight.spent`, `Sight.ending`), and have other trivia in front of its first token
  (`Sides.first`);
* some events may be `absent`, and then the comparison only matters as long as the left side writes
  none of them. Tokens that come with such events may end elsewhere on the right (`Sight.foreign`).
  Markup is `barred` if the events are absent by which its nodes start, and columns only matter
  where there are markers of items.

Two parsers are `Beside` each other if they are at corresponding places, and have written the same
but for the offsets. The right one may have begun earlier, so that there is more at the bottom of its
events and stacks.
-/

namespace TypstFormat

open TypstFormat.Parser

/-- What the grammar is doing: the mode, the modes to come back to, and the rules for line breaks. -/
structure Scope where
  mode : Mode
  modes : List Mode
  breakRules : List (BreakRule × Nat)

def Parser.scope (p : Parser) : Scope :=
  ⟨p.stream.mode, p.modes, p.breakRules⟩

/-- The scope of a source that is read in one mode as a whole. -/
def Scope.whole (mode : Mode) : Scope :=
  ⟨mode, [], []⟩

/-- The scope in a mode that is entered. -/
def Scope.enter (scope : Scope) (mode : Mode) : Scope :=
  ⟨mode, scope.mode :: scope.modes, scope.breakRules⟩

/-- The scope under a rule for line breaks that comes into force. -/
def Scope.rule (scope : Scope) (rule : BreakRule) (entered : Nat) : Scope :=
  { scope with breakRules := (rule, entered) :: scope.breakRules }

/-- Two sources, and what corresponds in them. -/
structure Sides where
  left : List Char
  right : List Char
  /-- A complaint on the left ends the comparison. -/
  clean : Prop
  /-- A complaint on the left ends the comparison, and the right source may go on where the left one
  ends. -/
  strict : Prop
  /-- Events that end the comparison if they are written on the left. -/
  absent : Event → Prop
  /-- Corresponding offsets. -/
  place : Nat → Nat → Prop
  /-- Pieces of trivia on the left that may be in the tree. What is only looked at need not have
  corresponding pieces. -/
  stays : Trivia → Prop
  /-- Offsets with different trivia behind them, in front of the first tokens. -/
  first : Nat → Nat → Prop
  /-- The trivia in front of the first tokens, the latest first. -/
  old : List Trivia → List Trivia → Prop
  /-- Offsets of the left source behind which there are no more tokens of code or math. -/
  spent : Nat → Prop
  /-- What the right parser has written before the comparison begins. -/
  front : List Event
  /-- The modes that the right parser comes back to after the comparison. -/
  modes : List Mode
  /-- The rules for line breaks that hold on the right before the comparison begins. -/
  breakRules : List (BreakRule × Nat)

namespace Sides

variable (S : Sides)

/-- Markup on the left ends the comparison. -/
def barred : Prop :=
  ∀ link, S.absent (.start .markup link)

/-- The markers of items. Their columns decide which lines belong to the items. -/
def itemMarkers : List Kind :=
  [.listMarker, .enumMarker, .termMarker]

/-- Items on the left end the comparison. -/
def unlisted : Prop :=
  ∀ kind ∈ itemMarkers, ∀ stop, S.absent (.token kind stop)

/-- Offsets behind corresponding tokens, or in front of the first ones. -/
def behind (a a' : Nat) : Prop :=
  S.place a a' ∨ S.first a a'

/-- Diagnostics that say the same about corresponding ranges. -/
structure Finding (d d' : Diagnostic) : Prop where
  code : d'.code = d.code
  message : d'.message = d.message
  start : S.place d.range.start d'.range.start
  stop : S.place d.range.stop d'.range.stop

/-- Pieces of trivia of the same kind between corresponding offsets. -/
structure Piece (t t' : Trivia) : Prop where
  kind : t'.kind = t.kind
  start : S.place t.range.start t'.range.start
  stop : S.place t.range.stop t'.range.stop

/-- Events that say the same about corresponding offsets. -/
inductive Matches : Event → Event → Prop where
  | start (kind : Kind) (link : Option Int) : Matches (.start kind link) (.start kind link)
  | finish : Matches .finish .finish
  | token (kind : Kind) {stop stop' : Nat} : S.place stop stop' →
    Matches (.token kind stop) (.token kind stop')

/-- How many events the right parser has written before the comparison begins. -/
def shift : Nat :=
  S.front.length

/-- The right parser has written what the left one has, behind what it had written before. -/
structure Written (events events' : Array Event) : Prop where
  size_eq : events'.size = S.shift + events.size
  front : ∀ k < S.shift, events'[k]? = S.front[k]?
  own : ∀ k event, events[k]? = some event →
    ∃ event', events'[S.shift + k]? = some event' ∧ S.Matches event event'

/-- The trivia in front of the last tokens consumed, the latest first. -/
def Settled (trivia trivia' : List Trivia) : Prop :=
  (∀ piece ∈ trivia, S.stays piece) → ∃ own own' old old', trivia = own ++ old ∧
    trivia' = own' ++ old' ∧ List.Forall₂ S.Piece own own' ∧ S.old old old'

/-! ## What is seen -/

/-- Two looks show a token of the same kind at corresponding places. -/
structure Alike (a a' : Nat) (l l' : Look) : Prop where
  kind : l'.token.kind = l.token.kind
  containsNewline : l'.token.containsNewline = l.token.containsNewline
  start : S.place l.token.range.start l'.token.range.start
  afterTrivia : S.place a a' → l'.trivia.isEmpty = l.trivia.isEmpty
  afterLineBreak : S.place a a' →
    l'.trivia.any (·.containsNewline) = l.trivia.any (·.containsNewline)

/-- What is seen behind corresponding offsets. -/
inductive Sight (mode : Mode) (a a' : Nat) (l l' : Look) : Prop where
  /-- The same, up to the end of the token. -/
  | agree : S.Alike a a' l l' →
    S.place l.token.range.stop l'.token.range.stop →
    (S.place a a' → (∀ piece ∈ l.trivia, S.stays piece) →
      List.Forall₂ S.Piece l.trivia l'.trivia) →
    List.Forall₂ S.Finding l.findings l'.findings →
    (S.strict → l.token.kind ≠ .eof) → Sight mode a a' l l'
  /-- The same token, which is not closed on the left. -/
  | ending : S.strict → S.Alike a a' l l' →
    l.token.kind ∈ [Kind.str, .raw, .escape, .eof] →
    l.findings ≠ [] ∨ (mode ≠ .code ∧ S.spent l.token.range.stop) → Sight mode a a' l l'
  /-- The same token, which may end elsewhere on the right. -/
  | foreign : S.clean → S.Alike a a' l l' → l.token.kind ∈ [Kind.text, .lineComment] →
    (∀ kind, kind = l.token.kind ∨ kind = .text → S.absent (.token kind l.token.range.stop)) →
    Sight mode a a' l l'
  /-- The code ends on the left, and the block of code on the right. -/
  | gap : S.strict → mode = .code → l.token.kind = .eof → l'.token.kind = .rightBrace →
    l'.trivia.any (·.containsNewline) = true → List.Forall₂ S.Finding l.findings l'.findings →
    Sight mode a a' l l'
  /-- The code ends on both sides, in a comment that is not closed on the left. -/
  | lost : S.strict → mode = .code → l.token.kind = .eof → l'.token.kind = .eof →
    l.findings ≠ [] → Sight mode a a' l l'
  /-- Markup or math ends on the left before it is closed. -/
  | spent : S.strict → mode ≠ .code → S.spent a → Sight mode a a' l l'

/-- What makes two sources comparable. -/
class Lawful : Prop where
  place_lt : ∀ {a a' b b'}, S.place a a' → S.place b b' → (a < b ↔ a' < b')
  clean_of_strict : S.strict → S.clean
  column : ¬S.barred → ¬S.unlisted → ∀ {a a'}, S.place a a' →
    Text.column S.right a' = Text.column S.left a
  strict_of_first : ∀ {a a'}, S.first a a' → S.strict
  first_zero : ∀ {a a'}, S.first a a' → a = 0
  old_first : ∀ {a a'}, S.first a a' →
    S.old (look S.left .code a).trivia.reverse (look S.right .code a').trivia.reverse
  spent_step : ∀ {a}, S.strict → S.spent a → ∀ mode, (look S.left mode a).token.kind ≠ .eof →
    S.spent (look S.left mode a).token.range.stop
  spent_closing : ∀ {a}, S.strict → S.spent a → ∀ mode,
    (look S.left mode a).token.kind ∉ [Kind.dollar, .rightBracket]
  sight : ∀ {a a'} {mode : Mode}, (S.barred → mode ≠ .markup) → S.behind a a' →
    (S.first a a' → mode = .code) → a ≤ S.left.length → a' ≤ S.right.length →
    S.Sight mode a a' (look S.left mode a) (look S.right mode a')
  breakRules : ∀ rule ∈ S.breakRules.head?, rule.1 = .ignored

/-- Two parsers at corresponding places. -/
structure Beside (p p' : Parser) : Prop where
  steady : p.stream.Steady
  steady' : p'.stream.Steady
  source_eq : p.source = S.left
  source_eq' : p'.source = S.right
  mode_eq : p'.stream.mode = p.stream.mode
  consumed : S.behind p.stream.consumed p'.stream.consumed
  settled : S.place p.stream.consumed p'.stream.consumed →
    S.Settled p.stream.settled p'.stream.settled
  settled_first : S.first p.stream.consumed p'.stream.consumed →
    p.stream.settled = [] ∧ p'.stream.settled = [] ∧ p.stream.mode = .code
  found : List.Forall₂ S.Finding p.stream.found p'.stream.found
  findings : List.Forall₂ S.Finding p.findings p'.findings
  events : S.Written p.events p'.events
  modes_eq : p'.modes = p.modes ++ S.modes
  breakRules : ∃ own, p'.breakRules = own ++ S.breakRules ∧
    List.Forall₂ (fun rule rule' => rule'.1 = rule.1 ∧ S.place rule.2 rule'.2) p.breakRules own
  entered_first : S.first p.stream.consumed p'.stream.consumed →
    ∀ rule ∈ p.breakRules, rule.2 = p.position

/-- How far the left parser of a strict comparison is known to have come. -/
inductive Stage where
  /-- To an offset. -/
  | come
  /-- To an offset, and it sees a token that can be consumed. -/
  | on
  /-- Past an offset. -/
  | past
  /-- Past an offset, and it sees a token that can be consumed. -/
  | met
  deriving DecidableEq

/-- What is known of a parser at a stage, with respect to an offset. -/
def Stage.Holds (n : Nat) (p : Parser) : Stage → Prop
  | come => n ≤ p.position
  | on => n ≤ p.position ∧ p.isAtEnd = false
  | past => n < p.stream.consumed
  | met => n < p.stream.consumed ∧ p.isAtEnd = false

/-- Whether a parser at one stage is at another one as well. -/
def Stage.covers : Stage → Stage → Bool
  | _, come | on, on | past, past | met, _ => true
  | _, _ => false

/-- The stage once the parser is known to see a token that can be consumed. -/
def Stage.seen : Stage → Stage
  | come | on => on
  | past | met => met

/-- Two parsers at corresponding places in a scope. In a strict comparison, the left one has come to
a stage, and the source does not end within the next `ahead` tokens. -/
structure Near (stage : Stage) (n ahead : Nat) (scope : Scope) (p p' : Parser) : Prop
    extends S.Beside p p' where
  scope_eq : p.scope = scope
  stage : S.strict → stage.Holds n p
  ahead : S.strict → ∀ i < ahead, p.stream.nth i ≠ .eof

/-- Two parsers at corresponding places from where the comparison goes on. Where markup or math
still has to be closed, there is something left on the left. -/
structure At (stage : Stage) (n ahead : Nat) (scope : Scope) (p p' : Parser) : Prop
    extends S.Near stage n ahead scope p p' where
  clear : S.strict → scope.mode ≠ .code → ¬S.spent p.stream.consumed

/-- Why a comparison comes to its end on the left. -/
inductive Cause (closing : Bool) (held : List Nat) (q : Parser) : Prop where
  /-- There was a complaint. -/
  | finding : S.clean → q.findings ≠ [] ∨ q.stream.found ≠ [] → Cause closing held q
  /-- There will be a complaint, because something cannot be closed any more. -/
  | spent : S.strict → closing = true → S.spent q.stream.consumed → Cause closing held q
  /-- An event was written that is absent, at a place that is not changed any more. -/
  | event {k : Nat} {event : Event} : k ∉ held → q.events[k]? = some event → S.absent event →
    Cause closing held q

/-- The comparison has come to its end on the left. -/
structure Broken (closing : Bool) (held : List Nat) (q : Parser) : Prop where
  steady : q.stream.Steady
  source_eq : q.source = S.left
  cause : S.Cause closing held q

end Sides

end TypstFormat
