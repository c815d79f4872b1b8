import TypstFormat.Proofs.Tree.Draft
import TypstFormat.Text.LineColumn

/-!
# Line breaks between drafts

Code that is embedded in markup or math ends with the line, unless a line break stands between
delimiters. `Breaks` tells where a line may end in front of drafts, and `Draft.LinedAll` says that
lines end nowhere else. In front of a draft stands the trivia of its first look, or of the look
behind it if it has none, so that the look behind all of the drafts has to be told.

`Draft.Lined` also says that the body of a list item takes no line that is not set in further than
the marker of the item.

## Key results

- `Draft.linedAll_append`: drafts one after another
- `Draft.LinedAll.mono`: only whether a line ends in front of the look behind the drafts counts
- `Draft.LinedAll.joins`: in front of drafts with a token, no line ends
-/

namespace TypstFormat

/-- The kinds of nodes of code that do not stand between delimiters. -/
def Kind.isOpen : Kind → Bool
  | .unary | .binary | .fieldAccess | .funcCall | .closure | .named | .keyed | .spread
  | .letBinding | .setRule | .showRule | .conditional | .whileLoop | .forLoop | .moduleInclude
  | .funcReturn | .contextual => true
  | _ => false

/-- Where a line may end in front of drafts. -/
inductive Breaks where
  /-- In front of any of them. -/
  | anywhere
  /-- In front of any of them, but not inside of embedded code. -/
  | outside
  /-- In front of none of them. -/
  | nowhere
  deriving DecidableEq

/-- Where a line may end in front of what stands in a node. -/
def Breaks.inside (breaks : Breaks) (kind : Kind) : Breaks :=
  if kind = .markup then .nowhere
  else if kind = .math then .outside
  else if breaks ≠ .anywhere ∧ kind.isOpen = true then .nowhere
  else .anywhere

namespace Draft

/-- A marker, perhaps blanks behind it, and a body whose lines are set in further than the marker. -/
def Indented (source : List Char) (children : List Draft) : Prop :=
  ∃ marker blanks body, children = .token marker false :: (blanks ++ [.node .markup false body]) ∧
    (∀ draft ∈ blanks, draft.isNode = false) ∧
    ∀ l : Look, token l false ∈ body → l.token.kind.isSpace = true →
      l.token.containsNewline = true →
      Text.column source marker.token.range.start < Text.column source l.token.range.stop

variable (source : List Char)

mutual

/-- Lines end in a draft only where they may. -/
def Lined (breaks : Breaks) (next : Look) : Draft → Prop
  | token .. => True
  | void => True
  | node kind _ children =>
    LinedAll (breaks.inside kind) next children ∧
      (kind = .listItem ∨ kind = .enumItem → Indented source children)

/-- Lines end in several drafts, and in front of them, only where they may. -/
def LinedAll (breaks : Breaks) (next : Look) : List Draft → Prop
  | [] => True
  | draft :: drafts =>
    (breaks = .nowhere → draft.isVoid = false → (front (draft :: drafts) next).Joins) ∧
      Lined breaks (front drafts next) draft ∧ LinedAll breaks next drafts

end

variable {source} {breaks : Breaks} {next next' : Look} {drafts more : List Draft}

theorem front_mono (drafts : List Draft) (h : next.Joins → next'.Joins) :
    (front drafts next).Joins → (front drafts next').Joins := by
  unfold front
  cases leavesAll drafts with
  | nil => exact h
  | cons => exact id

mutual

theorem Lined.mono : (draft : Draft) → {breaks : Breaks} → {next next' : Look} →
    (next.Joins → next'.Joins) → Lined source breaks next draft → Lined source breaks next' draft
  | token .., _, _, _, _, _ => by simp only [Lined]
  | void, _, _, _, _, _ => by simp only [Lined]
  | node _ _ children, _, _, _, h, hlined => by
    simp only [Lined] at hlined ⊢
    exact ⟨LinedAll.mono children h hlined.1, hlined.2⟩

/-- Of the look behind drafts it counts only whether a line ends in front of it. -/
theorem LinedAll.mono : (drafts : List Draft) → {breaks : Breaks} → {next next' : Look} →
    (next.Joins → next'.Joins) → LinedAll source breaks next drafts →
      LinedAll source breaks next' drafts
  | [], _, _, _, _, _ => by simp only [LinedAll]
  | draft :: drafts, _, _, _, h, hlined => by
    simp only [LinedAll] at hlined ⊢
    exact ⟨fun hnowhere hvoid => front_mono _ h (hlined.1 hnowhere hvoid),
      Lined.mono draft (front_mono drafts h) hlined.2.1, LinedAll.mono drafts h hlined.2.2⟩

end

@[simp] theorem linedAll_nil : LinedAll source breaks next [] := by
  simp only [LinedAll]

theorem linedAll_cons {draft : Draft} : LinedAll source breaks next (draft :: drafts) ↔
    (breaks = .nowhere → draft.isVoid = false → (front (draft :: drafts) next).Joins) ∧
      Lined source breaks (front drafts next) draft ∧ LinedAll source breaks next drafts := by
  simp only [LinedAll]

theorem lined_node {kind : Kind} {wraps : Bool} {children : List Draft} :
    Lined source breaks next (.node kind wraps children) ↔
      LinedAll source (breaks.inside kind) next children ∧
        (kind = .listItem ∨ kind = .enumItem → Indented source children) := by
  simp only [Lined]

theorem linedAll_append : LinedAll source breaks next (drafts ++ more) ↔
    LinedAll source breaks (front more next) drafts ∧ LinedAll source breaks next more := by
  induction drafts with
  | nil => simp
  | cons draft drafts ih =>
    rw [List.cons_append, linedAll_cons, linedAll_cons, ih, front_append, ← List.cons_append,
      front_append]
    simp only [and_assoc]

/-- In front of a token, no line may end. -/
theorem linedAll_token {l : Look} {asText : Bool} (h : breaks = .nowhere → l.Joins) :
    LinedAll source breaks next [.token l asText] :=
  ⟨fun hnowhere _ => h hnowhere, trivial, trivial⟩

theorem linedAll_void : LinedAll source breaks next [.void] :=
  ⟨fun _ hvoid => (nomatch hvoid), trivial, trivial⟩

/-- The start of a node that was given up changes nothing. -/
theorem LinedAll.insert_void (h : LinedAll source breaks next (drafts ++ more)) :
    LinedAll source breaks next (drafts ++ ([.void] ++ more)) := by
  obtain ⟨hdrafts, hmore⟩ := linedAll_append.1 h
  exact linedAll_append.2 ⟨hdrafts, linedAll_append.2 ⟨linedAll_void, hmore⟩⟩

/-- In front of a node, no line may end. -/
theorem linedAll_node {kind : Kind} {wraps : Bool} {children : List Draft}
    (hfront : breaks = .nowhere → (front children next).Joins)
    (h : Lined source breaks next (.node kind wraps children)) :
    LinedAll source breaks next [.node kind wraps children] :=
  ⟨fun hnowhere _ => (front_node kind wraps children next).symm ▸ hfront hnowhere, h, trivial⟩

/-- In front of drafts with a token, no line ends. -/
theorem LinedAll.joins (h : LinedAll source .nowhere next drafts) (hsome : leavesAll drafts ≠ []) :
    (front drafts next).Joins := by
  induction drafts with
  | nil => exact absurd rfl hsome
  | cons draft drafts ih =>
    cases hvoid : draft.isVoid with
    | false => exact h.1 rfl hvoid
    | true =>
      cases draft with
      | void => exact ih h.2.2 hsome
      | token => cases hvoid
      | node => cases hvoid

/-- Where no line ends in front of drafts, none ends inside of the embedded code. -/
theorem LinedAll.outside (h : LinedAll source .nowhere next drafts) :
    LinedAll source .outside next drafts := by
  induction drafts with
  | nil => trivial
  | cons draft drafts ih =>
    refine ⟨fun hnowhere => (nomatch hnowhere), ?_, ih h.2.2⟩
    cases draft with
    | token => trivial
    | void => trivial
    | node kind =>
      have hinside : Breaks.inside .outside kind = Breaks.inside .nowhere kind := by
        simp [Breaks.inside]
      rw [lined_node, hinside]
      exact lined_node.1 h.2.1

end Draft

end TypstFormat
