import TypstFormat.Proofs.Grammar.Arguments
import TypstFormat.Proofs.Grammar.Delimiters
import TypstFormat.Proofs.Layout.Alone

/-!
# Lists without comments

What a list of arguments without comments is written as depends on its arguments and content blocks
alone, and on whether it has parentheses: white space and the comma behind the last argument are
decided anew. The arguments stand on one line if that is shorter than the limit, and on lines of
their own otherwise.

The layout looks at one child at a time, with its siblings. `Inside` follows the children behind the
opening parenthesis: it remembers whether an argument came last and whether white space did, and
tells the arguments from the content blocks.

## Key results

- `Inside.of_isArgs`: lists of arguments are followed by `Inside`
- `Inside.oneLine_gives`, `Inside.broken_gives`: what both layouts make of such a list
- `format_lists_by_arguments`: what lists of arguments are written as
-/

namespace TypstFormat

/-! ## The parts of a list -/

namespace Tree

/-- Whether a list of arguments has parentheses. -/
def hasParens (children : List Tree) : Bool :=
  children.head?.any (·.kind = .leftParen)

/-- The arguments between the parentheses of a list. -/
def argumentsOf (children : List Tree) : List Tree :=
  (children.takeWhile (·.kind ≠ .rightParen)).filter fun child =>
    child.kind ∉ [.leftParen, .space, .comma]

/-- What stands behind the parentheses of a list. -/
def blocksOf (children : List Tree) : List Tree :=
  (children.dropWhile (·.kind ≠ .rightParen)).tail

/-- What follows the opening parenthesis of a list without comments: arguments and content blocks,
with white space and commas. `free` tells whether an argument came last, and `spaced` whether white
space did. -/
inductive Inside : (free spaced : Bool) → List Tree → (arguments blocks : List Tree) → Prop where
  | space {free : Bool} {child : Tree} {children arguments blocks : List Tree} :
    child.kind = .space → Inside free true children arguments blocks →
    Inside free false (child :: children) arguments blocks
  | item {spaced : Bool} {child : Tree} {children arguments blocks : List Tree} :
    child.kind.isItem = true → Inside true false children arguments blocks →
    Inside false spaced (child :: children) (child :: arguments) blocks
  | comma {spaced : Bool} {child : Tree} {children arguments blocks : List Tree} :
    child.kind = .comma → Inside false false children arguments blocks →
    Inside true spaced (child :: children) arguments blocks
  | close {free spaced : Bool} {child : Tree} {blocks : List Tree} :
    child.kind = .rightParen → (∀ block ∈ blocks, block.kind = .contentBlock) →
    Inside free spaced (child :: blocks) [] blocks

end Tree

namespace Layout

/-- A list on one line. -/
def onLine (arguments : List (List Char)) (blocks : List Char) : List Char :=
  '(' :: ([',', ' '].intercalate arguments ++ ')' :: blocks)

/-- A list with every argument on a line of its own. -/
def onLines (indent : List Char) (arguments : List (List Char)) (blocks : List Char) : List Char :=
  match arguments with
  | [] => '(' :: '\n' :: (indent ++ ')' :: blocks)
  | arguments =>
    '(' :: '\n' :: (indent ++ (',' :: '\n' :: indent).intercalate arguments
      ++ ',' :: '\n' :: ')' :: blocks)

/-- What a list is written as, given what its children are written as. -/
def listText (options : Options) (children : List Tree) (fragment : Tree → List Char) :
    List Char :=
  if Tree.hasParens children then
    let arguments := (Tree.argumentsOf children).map fragment
    let blocks := (Tree.blocksOf children).flatMap fragment
    let line := onLine arguments blocks
    if effectiveLength line < options.maxLineLength then line
    else onLines (List.replicate options.indentWidth ' ') arguments blocks
  else
    children.flatMap fragment

end Layout

namespace Tree

theorem isItem_cases {kind : Kind} (h : kind.isItem = true) :
    kind ≠ .space ∧ kind ≠ .comma ∧ kind ≠ .leftParen ∧ kind ≠ .rightParen ∧
      kind.isTerminator = false ∧ kind.isComment = false := by
  revert h
  cases kind <;> decide

namespace Inside

variable {free spaced : Bool} {children arguments blocks : List Tree}

/-- The children between two parentheses are followed from the first one on. -/
theorem of_argsRest {inner : List Tree} {paren : Tree} (hparen : paren.kind = .rightParen)
    (hblocks : ∀ block ∈ blocks, block.kind = .contentBlock)
    (hinner : ∀ child ∈ inner, child.kind.isItem = true ∨ child.kind = .comma ∨ child.kind = .space)
    (hkinds : ArgsRest free ((inner.map kind).filter (!·.isTrivia) ++ [.rightParen]))
    (hapart : (inner.map kind).IsChain Kind.Apart)
    (hspaced : spaced = true → (inner.map kind).head? ≠ some .space) :
    Inside free spaced (inner ++ paren :: blocks)
      (inner.filter fun child => child.kind ∉ [.leftParen, .space, .comma]) blocks := by
  induction inner generalizing free spaced with
  | nil => exact .close hparen hblocks
  | cons child inner ih =>
    obtain ⟨hchild, hinner⟩ := List.forall_mem_cons.1 hinner
    obtain ⟨hnext, hapart⟩ := List.isChain_cons.1 hapart
    rcases hchild with hitem | hcomma | hspace
    · have htrivia := (Kind.isTrivia_of_isItem hitem).1
      have hcases := isItem_cases hitem
      rw [List.map_cons, List.filter_cons_of_pos (by simp [htrivia]), List.cons_append] at hkinds
      rw [List.filter_cons_of_pos (by simp [hcases])]
      generalize hkind : child.kind = kind at hkinds hcases
      cases hkinds with
      | opening => exact absurd rfl hcases.2.2.1
      | item _ hrest => exact .item hitem (ih hinner hrest hapart (by simp))
      | comma => exact absurd rfl hcases.2.1
      | close => exact absurd rfl hcases.2.2.2.1
    · rw [List.map_cons, hcomma, List.filter_cons_of_pos rfl, List.cons_append] at hkinds
      rw [List.filter_cons_of_neg (by simp [hcomma])]
      cases hkinds with
      | item hitem => cases hitem
      | comma hrest => exact .comma hcomma (ih hinner hrest hapart (by simp))
    · rw [List.map_cons, hspace, List.filter_cons_of_neg (by simp [Kind.isTrivia])] at hkinds
      rw [List.filter_cons_of_neg (by simp [hspace])]
      cases spaced with
      | true => exact absurd (congrArg some hspace) (hspaced rfl)
      | false =>
        refine .space hspace (ih hinner hkinds hapart fun _ hhead => ?_)
        exact hnext .space hhead ⟨hspace, rfl⟩

/-- A list of arguments without comments either has no parentheses, or is followed from the opening
one on. -/
theorem of_isArgs (h : IsArgs children) (hsound : ArgsSound children)
    (hcomment : ∀ child ∈ children, child.kind.isComment = false) :
    (hasParens children = false ∧ ∀ block ∈ children, ∃ inner, block = .node .contentBlock inner) ∨
    ∃ paren rest, children = paren :: rest ∧ paren.kind = .leftParen ∧
      Inside false false rest (argumentsOf children) (blocksOf children) := by
  obtain ⟨⟨list, blocks, rfl, hlist, hblocks⟩, hapart⟩ := h
  have hblockKinds : ∀ block ∈ blocks, block.kind = .contentBlock := by
    intro block hblock
    obtain ⟨inner, rfl⟩ := hblocks block hblock
    rfl
  rcases hlist with rfl | ⟨innerKinds, hkinds, hitems⟩
  · refine .inl ⟨?_, hblocks⟩
    cases blocks with
    | nil => rfl
    | cons block blocks => simp [hasParens, hblockKinds block List.mem_cons_self]
  · right
    obtain ⟨paren, list, rfl, hparen, hlist⟩ := List.map_eq_cons_iff.1 hkinds
    obtain ⟨inner, closing, rfl, rfl, hclosing⟩ := List.map_eq_append_iff.1 hlist
    obtain ⟨close, rest, rfl, hclose, hrest⟩ := List.map_eq_cons_iff.1 hclosing
    obtain rfl := List.map_eq_nil_iff.1 hrest
    -- Trivia between the parentheses is white space, and all else is an argument or a comma.
    have hinner : ∀ child ∈ inner,
        child.kind.isItem = true ∨ child.kind = .comma ∨ child.kind = .space := by
      intro child hchild
      have hmem : child ∈ paren :: (inner ++ [close]) ++ blocks := by simp [hchild]
      cases htrivia : child.kind.isTrivia with
      | false =>
        have hkind : child.kind ∈ (inner.map kind).filter (!·.isTrivia) :=
          List.mem_filter.2 ⟨List.mem_map_of_mem hchild, by simp [htrivia]⟩
        rcases hitems.mem_cases hkind with hitem | hcomma
        · exact .inl hitem
        · exact .inr (.inl hcomma)
      | true =>
        have hparbreak := hsound.ne_parbreak child hmem
        have hcomment := hcomment child hmem
        revert htrivia hparbreak hcomment
        cases child.kind <;> decide
    have hne : ∀ child ∈ paren :: inner, child.kind ≠ .rightParen := by
      rintro child hchild hkind
      rcases List.mem_cons.1 hchild with rfl | hchild
      · rw [hparen] at hkind
        cases hkind
      · have hcases := hinner child hchild
        rw [hkind] at hcases
        revert hcases
        decide
    have hsplit : paren :: (inner ++ [close]) ++ blocks = (paren :: inner) ++ close :: blocks := by
      simp
    have harguments : argumentsOf (paren :: (inner ++ [close]) ++ blocks) =
        inner.filter fun child => child.kind ∉ [.leftParen, .space, .comma] := by
      rw [argumentsOf, hsplit, List.takeWhile_append_of_pos (by simpa using hne),
        List.takeWhile_cons_of_neg (by simp [hclose]), List.append_nil,
        List.filter_cons_of_neg (by simp [hparen])]
    have hblocksOf : blocksOf (paren :: (inner ++ [close]) ++ blocks) = blocks := by
      rw [blocksOf, hsplit, List.dropWhile_append_of_pos (by simpa using hne),
        List.dropWhile_cons_of_neg (by simp [hclose]), List.tail_cons]
    refine ⟨paren, inner ++ close :: blocks, hsplit, hparen, ?_⟩
    rw [harguments, hblocksOf]
    have hkinds : ArgsRest false ((inner.map kind).filter (!·.isTrivia) ++ [.rightParen]) :=
      argsRest_of_itemKinds hitems (by simp)
    refine .of_argsRest hclose hblockKinds hinner hkinds ?_ (by simp)
    rw [hsplit, List.cons_append, List.map_cons, List.map_append] at hapart
    exact (List.isChain_append.1 (List.isChain_cons.1 hapart).2).1

/-! ## What the siblings tell -/

/-- Right behind a comma it can be seen whether the list ends. -/
theorem isTrailingComma_eq (h : Inside false false children arguments blocks) :
    Siblings.isTrailingComma (children.map kind) = arguments.isEmpty := by
  have hitem {kind : Kind} (hitem : kind.isItem = true) (rest : List Kind) :
      Siblings.isTrailingComma (kind :: rest) = false := by
    have hcases := isItem_cases hitem
    unfold Siblings.isTrailingComma
    split
    · rename_i heq
      exact absurd (List.cons.inj heq).1 hcases.1
    · rename_i heq
      rw [← (List.cons.inj heq).1]
      exact hcases.2.2.2.2.1
    · rfl
  cases h with
  | space hspace h =>
    rw [List.map_cons, hspace]
    cases h with
    | item hkind _ => exact (isItem_cases hkind).2.2.2.2.1
    | close hkind _ =>
      rw [List.map_cons, hkind]
      rfl
  | item hkind _ => exact hitem hkind _
  | close hkind _ =>
    rw [List.map_cons, hkind]
    rfl

/-- Where the list ends behind a comma, the comma is its last one. -/
theorem isLastComma?_eq (h : Inside free spaced children arguments blocks) :
    ∃ isLast, Siblings.isLastComma? (children.map kind) = some isLast ∧
      (free = false → arguments = [] → isLast = true) := by
  induction h with
  | space hspace _ ih =>
    rw [List.map_cons, hspace]
    exact ih
  | item hkind _ ih =>
    obtain ⟨isLast, hlast, -⟩ := ih
    have hcases := isItem_cases hkind
    refine ⟨isLast, ?_, by simp⟩
    rw [List.map_cons, Siblings.isLastComma?, if_neg hcases.2.1, hcases.2.2.2.2.1, if_neg (by simp)]
    exact hlast
  | comma hkind _ _ =>
    rw [List.map_cons, hkind]
    exact ⟨false, rfl, by simp⟩
  | close hkind _ =>
    rw [List.map_cons, hkind]
    exact ⟨true, rfl, by simp⟩

/-- Behind the last argument nothing but white space and the closing parenthesis comes, unless the
argument has a comma behind it. -/
theorem arguments_eq_nil (h : Inside true spaced children arguments blocks)
    (hends : endsArguments (children.map kind) = true) : arguments = [] := by
  generalize hfree : true = free at h
  induction h with
  | space hspace _ ih =>
    rw [List.map_cons, hspace] at hends
    exact ih hends hfree
  | item => cases hfree
  | comma hkind _ _ =>
    rw [List.map_cons, hkind] at hends
    cases hends
  | close => rfl

end Inside

end Tree

/-! ## What the layouts make of a list -/

namespace Render

/-- Under the options, the action has this result, however the text so far ends. -/
def Gives (options : Options) (x : Render α) (a : α) : Prop :=
  ∀ context : Context, context.options = options →
    ∃ after, x.run context = .ok (a, after) ∧ after.options = options

namespace Gives

variable {options : Options} {x : Render α} {f : α → Render β} {a : α} {b : β}

theorem pure (b : β) : Gives options (Pure.pure b) b :=
  fun context hoptions => ⟨context, rfl, hoptions⟩

theorem bind (hx : Gives options x a) (hf : Gives options (f a) b) :
    Gives options (x >>= f) b := by
  intro context hoptions
  obtain ⟨after, hrun, hoptions⟩ := hx context hoptions
  obtain ⟨after', hrun', hoptions'⟩ := hf after hoptions
  exact ⟨after', (run_bind_of_ok hrun).trans hrun', hoptions'⟩

theorem reset : Gives options reset () :=
  fun context hoptions => ⟨context.reset, rfl, hoptions⟩

theorem indent (h : options.indentWidth ≤ maxTextLength) :
    Gives options indent (List.replicate options.indentWidth ' ') := by
  intro context hoptions
  refine ⟨context, ?_, hoptions⟩
  show (if context.options.indentWidth ≤ maxTextLength then _ else _ : Render _).run _ = _
  rw [hoptions, if_pos h]
  rfl

end Gives

end Render

namespace Layout

open Render TypstFormat.Tree

variable {options : Options} {free spaced : Bool} {children arguments blocks : List Tree}

/-! ### Single children -/

theorem spacesComment_eq_false {previous : Option Kind} {following : List Kind}
    (hprevious : ∀ kind ∈ previous, kind.isComment = false)
    (hfollowing : ∀ kind ∈ following, kind.isComment = false) :
    spacesComment previous following = false := by
  unfold spacesComment
  split
  · rw [hprevious _ rfl, hfollowing _ List.mem_cons_self, Bool.or_false, Bool.and_false]
  · rfl

theorem lineEnd_eq {following : List Kind} (h : ∀ kind ∈ following, kind.isComment = false)
    (indent : List Char) : lineEnd following indent = '\n' :: indent := by
  unfold lineEnd
  split
  · rw [h _ (List.mem_cons_of_mem _ List.mem_cons_self), if_neg (by simp)]
  · rw [h _ List.mem_cons_self, if_neg (by simp)]
  · rfl

theorem spaceBesideComment_eq_nil {previous : Option Kind} {following : List Kind}
    (hprevious : ∀ kind ∈ previous, kind.isComment = false)
    (hfollowing : ∀ kind ∈ following, kind.isComment = false) (space indent : List Char) :
    spaceBesideComment previous following space indent = [] := by
  have hp : previous.any Kind.isComment = false := by
    cases previous with
    | none => rfl
    | some kind => exact hprevious kind rfl
  have hf : following.head?.any Kind.isComment = false := by
    cases following with
    | nil => rfl
    | cons kind following => exact hfollowing kind List.mem_cons_self
  rw [spaceBesideComment, hp, hf, Bool.or_false, if_neg (by simp)]

/-- All that is left to do on one line for other children than white space and commas. -/
theorem oneLine_gives {previous : Option Kind} {child : Tree} {fragment : List Char}
    {fragments : List (List Char)} {rest : List Char} (hspace : child.kind ≠ .space)
    (hcomma : child.kind ≠ .comma)
    (h : Gives options (oneLine (some child.kind) children fragments) rest) :
    Gives options (oneLine previous (child :: children) (fragment :: fragments))
      (fragment ++ rest) := by
  unfold oneLine
  extract_lets following next
  split
  · exact absurd ‹_› hspace
  · exact absurd ‹_› hcomma
  · exact .bind .reset (.bind (.pure _) (.bind h (.pure _)))

/-- All that is left to do on several lines for arguments, blocks and the closing parenthesis. -/
theorem brokenPart_gives {start : Nat} {previous : Option Kind} {child : Tree}
    {following : List Kind} {fragment : List Char}
    (hkind : child.kind ∉ [.leftParen, .space, .comma]) (hcomment : child.kind.isComment = false)
    (hfollowing : ∀ kind ∈ following, kind.isComment = false) :
    Gives options (brokenPart start previous child following fragment)
      (fragment ++ if endsArguments following then [',', '\n'] else []) := by
  unfold brokenPart
  split
  · simp_all
  · simp_all
  · simp_all
  · refine .bind .reset ?_
    rw [hcomment, if_neg (by simp)]
    show Gives options (if endsArguments following = true then _ else _) _
    split
    · rw [lineEnd_eq hfollowing]
      exact .pure _
    · rw [List.append_nil]
      exact .pure _

theorem oneLine_blocks_gives {fragment : Tree → List Char}
    (h : ∀ block ∈ blocks, block.kind = .contentBlock) (previous : Option Kind) :
    Gives options (oneLine previous blocks (blocks.map fragment)) (blocks.flatMap fragment) := by
  induction blocks generalizing previous with
  | nil => exact .pure []
  | cons block blocks ih =>
    obtain ⟨hblock, h⟩ := List.forall_mem_cons.1 h
    exact oneLine_gives (by simp [hblock]) (by simp [hblock]) (ih h _)

/-- No parenthesis closes the content blocks behind a list. -/
theorem endsArguments_blocks (h : ∀ block ∈ blocks, block.kind = .contentBlock) :
    endsArguments (blocks.map kind) = false := by
  cases blocks with
  | nil => rfl
  | cons block blocks =>
    rw [List.map_cons, h block List.mem_cons_self]
    rfl

theorem broken_blocks_gives {fragment : Tree → List Char}
    (h : ∀ block ∈ blocks, block.kind = .contentBlock) (start : Nat) (previous : Option Kind) :
    Gives options (broken start previous blocks (blocks.map fragment))
      (blocks.flatMap fragment) := by
  induction blocks generalizing start previous with
  | nil => exact .pure []
  | cons block blocks ih =>
    obtain ⟨hblock, h⟩ := List.forall_mem_cons.1 h
    have hcomments : ∀ k ∈ blocks.map kind, k.isComment = false := by
      intro k hk
      obtain ⟨next, hnext, rfl⟩ := List.mem_map.1 hk
      rw [h next hnext]
      rfl
    have hpart : Gives options
        (brokenPart start previous block (blocks.map kind) (fragment block)) (fragment block) := by
      simpa [endsArguments_blocks h] using
        brokenPart_gives (by simp [hblock]) (by rw [hblock]; rfl) hcomments
    exact .bind hpart (.bind (ih h _ _) (.pure _))

/-! ### All children -/

/-- Commas and parentheses are written as themselves. -/
def WritesSigns (fragment : Tree → List Char) (children : List Tree) : Prop :=
  ∀ child ∈ children, ∀ c, child.kind.char? = some c → child.ownText = [c] ∧ fragment child = [c]

/-- A separator comes behind the first of several texts, unless it is the only one. -/
theorem intercalate_cons (separator first : List Char) (rest : List (List Char)) :
    separator.intercalate (first :: rest) =
      first ++ ((if rest.isEmpty then [] else separator) ++ separator.intercalate rest) := by
  cases rest <;> simp

/-- What follows the opening parenthesis on one line. If an argument came last, and another one
follows, a comma comes first. -/
def restOfLine (free : Bool) (arguments : List (List Char)) (blocks : List Char) : List Char :=
  (if free && !arguments.isEmpty then [',', ' '] else [])
    ++ ([',', ' '].intercalate arguments ++ ')' :: blocks)

theorem restOfLine_cons (first : List Char) (rest : List (List Char)) (blocks : List Char) :
    restOfLine false (first :: rest) blocks = first ++ restOfLine true rest blocks := by
  unfold restOfLine
  rw [intercalate_cons]
  cases rest <;> simp

/-- On one line, commas are written between the arguments only. -/
theorem oneLine_inside_gives (h : Inside free spaced children arguments blocks)
    {fragment : Tree → List Char} (hsigns : WritesSigns fragment children)
    (hcomment : ∀ child ∈ children, child.kind.isComment = false) (previous : Option Kind)
    (hprevious : ∀ k ∈ previous, k.isComment = false) :
    Gives options (oneLine previous children (children.map fragment))
      (restOfLine free (arguments.map fragment) (blocks.flatMap fragment)) := by
  induction h generalizing previous with
  | @space free child children arguments blocks hspace h ih =>
    obtain ⟨hchild, hcomment⟩ := List.forall_mem_cons.1 hcomment
    obtain ⟨-, hsigns⟩ := List.forall_mem_cons.1 hsigns
    have hrest := ih hsigns hcomment (some child.kind) (by simpa using hchild)
    have hkinds : ∀ k ∈ children.map kind, k.isComment = false := by simpa using hcomment
    rw [List.map_cons, oneLine]
    simp only [hspace, spacesComment_eq_false hprevious hkinds]
    rw [hspace] at hrest
    exact .bind (.pure _) (.bind hrest (.pure _))
  | @item spaced child children arguments blocks hitem h ih =>
    obtain ⟨hchild, hcomment⟩ := List.forall_mem_cons.1 hcomment
    obtain ⟨-, hsigns⟩ := List.forall_mem_cons.1 hsigns
    have hcases := isItem_cases hitem
    have hrest := ih hsigns hcomment (some child.kind) (by simpa using hchild)
    rw [List.map_cons, List.map_cons, restOfLine_cons]
    exact oneLine_gives hcases.1 hcases.2.1 hrest
  | @comma spaced child children arguments blocks hcomma h ih =>
    obtain ⟨hchild, hcomment⟩ := List.forall_mem_cons.1 hcomment
    obtain ⟨hsign, hsigns⟩ := List.forall_mem_cons.1 hsigns
    have hrest := ih hsigns hcomment (some child.kind) (by simpa using hchild)
    have htext : child.ownText = [','] := (hsign ',' (by rw [hcomma]; rfl)).1
    rw [List.map_cons, oneLine]
    simp only [hcomma, h.isTrailingComma_eq, htext]
    rw [hcomma] at hrest
    -- The comma is left out if it is the last one.
    cases arguments with
    | nil => exact .bind (.pure _) (.bind hrest (.pure _))
    | cons first arguments =>
      refine .bind .reset (.bind (.pure _) (.bind hrest ?_))
      exact .pure _
  | @close free spaced child blocks hclose hblocks =>
    obtain ⟨hsign, -⟩ := List.forall_mem_cons.1 hsigns
    have htext : fragment child = [')'] := (hsign ')' (by rw [hclose]; rfl)).2
    have hall : Gives options
        (oneLine previous (child :: blocks) (fragment child :: blocks.map fragment))
        (fragment child ++ blocks.flatMap fragment) :=
      oneLine_gives (by simp [hclose]) (by simp [hclose]) (oneLine_blocks_gives hblocks _)
    rw [htext] at hall
    simpa [restOfLine, htext] using hall

/-- What follows the line feed behind the opening parenthesis, or behind a comma, on several
lines. -/
def restOfLines (indent : List Char) (arguments : List (List Char)) (blocks : List Char) :
    List Char :=
  match arguments with
  | [] => ')' :: blocks
  | arguments => (',' :: '\n' :: indent).intercalate arguments ++ ',' :: '\n' :: ')' :: blocks

theorem onLines_eq (indent : List Char) (arguments : List (List Char)) (blocks : List Char) :
    onLines indent arguments blocks =
      '(' :: '\n' :: (indent ++ restOfLines indent arguments blocks) := by
  cases arguments <;> simp [onLines, restOfLines]

/-- What follows an argument on several lines: a comma, and another argument on the next line. -/
def restBehind (indent : List Char) (arguments : List (List Char)) (blocks : List Char) :
    List Char :=
  ',' :: '\n' :: ((if arguments.isEmpty then [] else indent) ++ restOfLines indent arguments blocks)

theorem restOfLines_cons (indent first : List Char) (rest : List (List Char))
    (blocks : List Char) :
    restOfLines indent (first :: rest) blocks = first ++ restBehind indent rest blocks := by
  unfold restBehind
  cases rest <;> simp [restOfLines]

/-- On several lines, a comma is written behind every argument. If the last argument has none behind
it, the comma comes with the argument. -/
theorem broken_inside_gives (hwidth : options.indentWidth ≤ maxTextLength)
    (h : Inside free spaced children arguments blocks)
    {fragment : Tree → List Char} (hsigns : WritesSigns fragment children)
    (hcomment : ∀ child ∈ children, child.kind.isComment = false) (start : Nat)
    (previous : Option Kind) (hprevious : ∀ k ∈ previous, k.isComment = false) :
    Gives options (broken start previous children (children.map fragment))
      (if free && !endsArguments (children.map kind) then
        restBehind (List.replicate options.indentWidth ' ') (arguments.map fragment)
          (blocks.flatMap fragment)
      else
        restOfLines (List.replicate options.indentWidth ' ') (arguments.map fragment)
          (blocks.flatMap fragment)) := by
  induction h generalizing start previous with
  | @space free child children arguments blocks hspace h ih =>
    obtain ⟨hchild, hcomment⟩ := List.forall_mem_cons.1 hcomment
    obtain ⟨-, hsigns⟩ := List.forall_mem_cons.1 hsigns
    have hrest := ih hsigns hcomment (start + child.length) (some child.kind)
      (by simpa using hchild)
    have hkinds : ∀ k ∈ children.map kind, k.isComment = false := by simpa using hcomment
    have hpart : Gives options
        (brokenPart start previous child (children.map kind) (fragment child)) [] := by
      unfold brokenPart
      simp only [hspace]
      refine .bind (.indent hwidth) ?_
      rw [spaceBesideComment_eq_nil hprevious hkinds]
      exact .pure _
    have hends : endsArguments ((child :: children).map kind) =
        endsArguments (children.map kind) := by
      rw [List.map_cons, hspace]
      rfl
    rw [hends]
    exact .bind hpart (.bind hrest (.pure _))
  | @item spaced child children arguments blocks hitem h ih =>
    obtain ⟨hchild, hcomment⟩ := List.forall_mem_cons.1 hcomment
    obtain ⟨-, hsigns⟩ := List.forall_mem_cons.1 hsigns
    have hcases := isItem_cases hitem
    have hkinds : ∀ k ∈ children.map kind, k.isComment = false := by simpa using hcomment
    have hrest := ih hsigns hcomment (start + child.length) (some child.kind)
      (by simpa using hchild)
    have hpart : Gives options
        (brokenPart start previous child (children.map kind) (fragment child)) _ :=
      brokenPart_gives (by simp [hcases]) hcases.2.2.2.2.2 hkinds
    show Gives options (broken start previous (child :: children) (fragment child :: _))
      (restOfLines _ (fragment child :: arguments.map fragment) _)
    rw [restOfLines_cons]
    refine .bind hpart (.bind hrest ?_)
    -- The last argument brings its own comma if it has none behind it.
    cases hends : endsArguments (children.map kind) with
    | true =>
      rw [h.arguments_eq_nil hends]
      simpa [restBehind] using Gives.pure _
    | false =>
      simpa using Gives.pure _
  | @comma spaced child children arguments blocks hcomma h ih =>
    obtain ⟨hchild, hcomment⟩ := List.forall_mem_cons.1 hcomment
    obtain ⟨hsign, hsigns⟩ := List.forall_mem_cons.1 hsigns
    have hkinds : ∀ k ∈ children.map kind, k.isComment = false := by simpa using hcomment
    have hrest := ih hsigns hcomment (start + child.length) (some child.kind)
      (by simpa using hchild)
    have htext : child.ownText = [','] := (hsign ',' (by rw [hcomma]; rfl)).1
    have hpart : Gives options
        (brokenPart start previous child (children.map kind) (fragment child))
        (',' :: '\n' ::
          if arguments.isEmpty then [] else List.replicate options.indentWidth ' ') := by
      obtain ⟨isLast, hlast, hempty⟩ := h.isLastComma?_eq
      unfold brokenPart endsList
      simp only [hcomma, htext, hlast, h.isTrailingComma_eq, lineEnd_eq hkinds]
      cases arguments with
      | nil =>
        rw [hempty rfl rfl]
        exact .bind (.pure _) (.bind (.pure _) (.bind .reset (.pure _)))
      | cons =>
        rw [List.isEmpty_cons, Bool.and_false]
        exact .bind (.pure _) (.bind (.indent hwidth) (.bind .reset (.pure _)))
    have hends : endsArguments ((child :: children).map kind) = false := by
      rw [List.map_cons, hcomma]
      rfl
    rw [hends]
    refine .bind hpart (.bind hrest ?_)
    simpa [restBehind] using Gives.pure _
  | @close free spaced child blocks hclose hblocks =>
    obtain ⟨hchild, hcomment⟩ := List.forall_mem_cons.1 hcomment
    obtain ⟨hsign, -⟩ := List.forall_mem_cons.1 hsigns
    have htext : fragment child = [')'] := (hsign ')' (by rw [hclose]; rfl)).2
    have hkinds : ∀ k ∈ blocks.map kind, k.isComment = false := by simpa using hcomment
    have hends : endsArguments (blocks.map kind) = false := endsArguments_blocks hblocks
    have hpart : Gives options
        (brokenPart start previous child (blocks.map kind) (fragment child)) [')'] := by
      simpa [hends, htext] using
        brokenPart_gives (by simp [hclose]) hchild hkinds
    have hclosed : endsArguments ((child :: blocks).map kind) = true := by
      rw [List.map_cons, hclose]
      rfl
    rw [hclosed, Bool.not_true, Bool.and_false, if_neg (by simp)]
    exact .bind hpart (.bind (broken_blocks_gives hblocks _ _) (.pure _))

/-! ### The choice between the layouts -/

/-- Without line comments, the length of the line decides. -/
theorem arguments_run {fragments : List (List Char)} {line : List Char}
    (hline : Gives options (oneLine none children fragments) line)
    (hcomment : ∀ child ∈ children, child.kind.isComment = false) (start : Nat)
    {context : Context} (hoptions : context.options = options) :
    ∃ after, after.options = options ∧ (Layout.arguments start children fragments).run context =
      if effectiveLength line < options.maxLineLength then .ok (line, after)
      else (broken start none children fragments).run after := by
  have hlines : (children.any fun child => child.kind = .lineComment) = false := by
    rw [List.any_eq_false]
    intro child hchild hkind
    have hcomment := hcomment child hchild
    rw [of_decide_eq_true hkind] at hcomment
    cases hcomment
  obtain ⟨behind, hrun, hbehind⟩ := hline context hoptions
  unfold Layout.arguments
  rw [run_bind_of_ok hrun]
  show ∃ after, _ ∧ (if _ || decide (behind.options.maxLineLength ≤ effectiveLength line) then _
    else _ : Render _).run behind = _
  rw [hlines, Bool.false_or, hbehind]
  by_cases hlength : effectiveLength line < options.maxLineLength
  · rw [if_neg (by simpa using hlength)]
    exact ⟨behind.note (.keeping start (effectiveLength line)), hbehind, (if_pos hlength).symm⟩
  · rw [if_pos (by simpa using hlength)]
    exact ⟨(behind.note (.breaking start (effectiveLength line) false)).reset, hbehind,
      (if_neg hlength).symm⟩

/-- A list that is broken needs its indentation right behind the opening parenthesis. -/
theorem broken_run_wide {paren : Tree} (hparen : paren.kind = .leftParen) {fragment : List Char}
    {fragments : List (List Char)} (start : Nat) {context : Context}
    (hwide : maxTextLength < context.options.indentWidth) :
    (broken start none (paren :: children) (fragment :: fragments)).run context =
      .error .wideIndent := by
  have hindent : indent.run context = .error .wideIndent := by
    show (if context.options.indentWidth ≤ maxTextLength then _ else _ : Render _).run _ = _
    rw [if_neg (Nat.not_le.2 hwide)]
    rfl
  unfold broken brokenPart
  simp only [hparen]
  exact run_bind_of_error (run_bind_of_error hindent)

/-- What a list without comments is written as, from what its children are written as. -/
theorem arguments_gives_listText (hargs : Tree.IsArgs children) (hsound : ArgsSound children)
    (hcomment : ∀ child ∈ children, child.kind.isComment = false) {fragment : Tree → List Char}
    (hsigns : WritesSigns fragment children) (start : Nat) {context : Context}
    (hoptions : context.options = options) :
    (∃ after, (Layout.arguments start children (children.map fragment)).run context =
      .ok (listText options children fragment, after)) ∨
    (maxTextLength < options.indentWidth ∧
      (Layout.arguments start children (children.map fragment)).run context =
        .error .wideIndent) := by
  rcases Inside.of_isArgs hargs hsound hcomment with
    ⟨hparens, hblocks⟩ | ⟨paren, rest, rfl, hparen, hinside⟩
  · -- Both layouts write the blocks one behind the other.
    left
    have hkinds : ∀ block ∈ children, block.kind = .contentBlock := by
      intro block hblock
      obtain ⟨inner, rfl⟩ := hblocks block hblock
      rfl
    have hline : Gives options (oneLine none children (children.map fragment))
        (children.flatMap fragment) := oneLine_blocks_gives hkinds none
    have hlines : Gives options (broken start none children (children.map fragment))
        (children.flatMap fragment) := broken_blocks_gives hkinds start none
    have htext : listText options children fragment = children.flatMap fragment := by
      rw [listText, hparens, if_neg (by simp)]
    obtain ⟨after, hafter, hrun⟩ := arguments_run hline hcomment start hoptions
    rw [hrun, htext]
    split
    · exact ⟨after, rfl⟩
    · obtain ⟨after', hrun', _⟩ := hlines after hafter
      exact ⟨after', hrun'⟩
  · obtain ⟨hopen, hsigns⟩ := List.forall_mem_cons.1 hsigns
    obtain ⟨hown, htext⟩ := hopen '(' (by rw [hparen]; rfl)
    obtain ⟨hchild, hcomments⟩ := List.forall_mem_cons.1 hcomment
    have hprevious : ∀ k ∈ some paren.kind, k.isComment = false := by simpa using hchild
    generalize harguments : argumentsOf (paren :: rest) = arguments at hinside
    generalize hblocks : blocksOf (paren :: rest) = blocks at hinside
    -- On one line, nothing but the parenthesis is in front of the rest.
    have hline : Gives options (oneLine none (paren :: rest) ((paren :: rest).map fragment))
        (onLine (arguments.map fragment) (blocks.flatMap fragment)) := by
      have hall : onLine (arguments.map fragment) (blocks.flatMap fragment) =
          fragment paren ++
            restOfLine false (arguments.map fragment) (blocks.flatMap fragment) := by
        rw [htext]
        rfl
      rw [hall]
      exact oneLine_gives (by simp [hparen]) (by simp [hparen])
        (oneLine_inside_gives hinside hsigns hcomments _ hprevious)
    obtain ⟨after, hafter, hrun⟩ := arguments_run hline hcomment start hoptions
    have hparens : hasParens (paren :: rest) = true := by simp [hasParens, hparen]
    rw [hrun, listText, if_pos hparens, harguments, hblocks]
    dsimp only
    split
    · exact .inl ⟨after, rfl⟩
    · by_cases hwidth : options.indentWidth ≤ maxTextLength
      · left
        have hpart : Gives options
            (brokenPart start none paren (rest.map kind) (fragment paren))
            ('(' :: '\n' :: List.replicate options.indentWidth ' ') := by
          unfold brokenPart
          simp only [hparen, hown, lineEnd_eq (by simpa using hcomments : ∀ k ∈ rest.map kind, _)]
          exact .bind (.indent hwidth) (.pure _)
        have hrest := broken_inside_gives hwidth hinside hsigns hcomments (start + paren.length) _
          hprevious
        have hlines : Gives options
            (broken start none (paren :: rest) ((paren :: rest).map fragment))
            (onLines (List.replicate options.indentWidth ' ') (arguments.map fragment)
              (blocks.flatMap fragment)) := by
          rw [onLines_eq]
          exact .bind hpart (.bind hrest (.pure _))
        obtain ⟨after', hrun', _⟩ := hlines after hafter
        exact ⟨after', hrun'⟩
      · right
        rw [Nat.not_le] at hwidth
        exact ⟨hwidth, broken_run_wide hparen start (by rwa [hafter])⟩

end Layout

/-! ## Trees -/

namespace Tree

mutual

/-- What is below a node of a tree is below the tree. -/
theorem nodesAll_subset_nodes {node : Kind × List Tree} : (t : Tree) → node ∈ t.nodes →
    nodesAll node.2 ⊆ t.nodes
  | .token .., h => by cases h
  | .node kind children, h => by
    rcases List.mem_cons.1 h with rfl | h
    · exact List.subset_cons_self _ _
    · exact List.Subset.trans (nodesAll_subset_nodesAll children h) (List.subset_cons_self _ _)

theorem nodesAll_subset_nodesAll {node : Kind × List Tree} : (ts : List Tree) →
    node ∈ nodesAll ts → nodesAll node.2 ⊆ nodesAll ts
  | [], h => by cases h
  | t :: ts, h => by
    rcases List.mem_append.1 h with h | h
    · exact List.subset_append_of_subset_left _ (nodesAll_subset_nodes t h)
    · exact List.subset_append_of_subset_right _ (nodesAll_subset_nodesAll ts h)

end

theorem mem_nodesAll_of_mem {kind : Kind} {inner ts : List Tree} (h : .node kind inner ∈ ts) :
    (kind, inner) ∈ nodesAll ts := by
  induction ts with
  | nil => cases h
  | cons t ts ih =>
    rcases List.mem_cons.1 h with rfl | h
    · exact List.mem_append_left _ List.mem_cons_self
    · exact List.mem_append_right _ (ih h)

mutual

/-- All nodes of a sound tree are sound. -/
theorem Sound.of_mem_nodes {node : Kind × List Tree} : (t : Tree) → t.Sound → node ∈ t.nodes →
    (Tree.node node.1 node.2).Sound
  | .token .., _, h => by cases h
  | .node _ children, hsound, h => by
    rcases List.mem_cons.1 h with rfl | h
    · exact hsound
    · exact SoundAll.of_mem_nodesAll children hsound.2.2 h

theorem SoundAll.of_mem_nodesAll {node : Kind × List Tree} : (ts : List Tree) → SoundAll ts →
    node ∈ nodesAll ts → (Tree.node node.1 node.2).Sound
  | [], _, h => by cases h
  | t :: ts, ⟨ht, hts⟩, h => by
    rcases List.mem_append.1 h with h | h
    · exact Sound.of_mem_nodes t ht h
    · exact SoundAll.of_mem_nodesAll ts hts h

end

end Tree

/-- A content block starts with its bracket. -/
theorem Parsed.BuiltOf.head?_contentBlock {parsed : Parsed} {drafts : List Draft}
    (h : parsed.BuiltOf drafts) (hclean : parsed.diagnostics = []) {inner : List Tree}
    (hnode : (Kind.contentBlock, inner) ∈ parsed.tree.nodes) :
    (inner.map Tree.kind).head? = some .leftBracket := by
  obtain ⟨trees, htree, hgrown, _⟩ := h.tree_eq
  rw [htree] at hnode
  rcases List.mem_cons.1 hnode with hroot | hnode
  · obtain ⟨hkind, -⟩ := Prod.mk.inj hroot
    cases hmode : parsed.mode <;> rw [hmode] at hkind <;> cases hkind
  · rcases hgrown.delimitedAll (h.sound hclean).2 _ hnode with hdelimited | ⟨hkind, -⟩
    · exact (hdelimited.delimiters _ rfl).ends.1
    · cases hkind

namespace Layout

open TypstFormat.Tree

/-- Lists of arguments do not begin with white space. -/
theorem opens_of_isArgs {children : List Tree} (hargs : Tree.IsArgs children)
    (hsound : Tree.SoundAll children) (hne : children ≠ [])
    (hblocks : ∀ inner, .node .contentBlock inner ∈ children →
      (inner.map kind).head? = some .leftBracket) : Opens children := by
  cases children with
  | nil => exact absurd rfl hne
  | cons first rest =>
    obtain ⟨⟨list, blocks, heq, hlist, hall⟩, -⟩ := hargs
    rcases hlist with rfl | ⟨inner, hkinds, -⟩
    · -- Without parentheses, a content block comes first, and its bracket is a token.
      rw [List.nil_append] at heq
      obtain ⟨inner, rfl⟩ := hall first (heq ▸ List.mem_cons_self)
      have hhead := hblocks inner List.mem_cons_self
      obtain ⟨-, -, hinner⟩ := hsound.1
      cases inner with
      | nil => cases hhead
      | cons bracket inner =>
        obtain ⟨text, rfl⟩ := hinner.1.eq_token (Option.some.inj hhead) rfl
        exact .node (.token rfl)
    · cases list with
      | nil => cases hkinds
      | cons paren list =>
        obtain ⟨rfl, -⟩ := List.cons.inj heq
        rw [hsound.1.eq_char (List.cons.inj hkinds).1 rfl]
        exact .token rfl

/-- What a tree is written as by itself, if it can be written. -/
def fragmentOf (options : Options) (t : Tree) : List Char :=
  match alone options t with
  | .ok text => text
  | .error _ => []

theorem map_fragmentOf {options : Options} {ts : List Tree} {fragments : List (List Char)}
    (h : List.Forall₂ (fun t fragment => alone options t = .ok fragment) ts fragments) :
    ts.map (fragmentOf options) = fragments := by
  induction h with
  | nil => rfl
  | cons hfirst _ ih => rw [List.map_cons, ih, fragmentOf, hfirst]

theorem alone_eq_fragmentOf {options : Options} {ts : List Tree} {fragments : List (List Char)}
    (h : List.Forall₂ (fun t fragment => alone options t = .ok fragment) ts fragments) :
    ∀ t ∈ ts, alone options t = .ok (fragmentOf options t) := by
  induction h with
  | nil => simp
  | cons hfirst _ ih => exact List.forall_mem_cons.2 ⟨by rw [fragmentOf, hfirst], ih⟩

/-- Signs are written as they are. -/
theorem writesSigns_fragmentOf {children : List Tree} (hsound : ∀ child ∈ children, child.Sound)
    (options : Options) : WritesSigns (fragmentOf options) children := by
  intro child hchild c hchar
  rw [(hsound child hchild).eq_char rfl hchar]
  generalize child.kind = kind at hchar
  refine ⟨rfl, ?_⟩
  rcases Kind.eq_of_char? hchar with rfl | rfl | rfl <;> rfl

end Layout

open Layout Render

/-- Without diagnostics, a list of arguments without comments is made of its arguments and content
blocks, on one line if that is shorter than the limit, and with an argument on each line otherwise.
Each of them is written as it is by itself. The one exception are indentations so wide that no text
can hold them. -/
theorem format_lists_by_arguments (source : List Char) (mode : Mode) :
    ∃ parsed, parse source mode = .ok parsed ∧ (parsed.diagnostics = [] →
      ∀ children : List Tree, (Kind.args, children) ∈ parsed.tree.nodes →
        (∀ child ∈ children, child.kind.isComment = false) →
        ∀ (options : Options) (start : Nat) (context : Context), context.options = options →
          (∃ fragment : Tree → List Char,
            (∀ child ∈ children, alone options child = .ok (fragment child)) ∧
            ∃ after, (tree source start (.node .args children)).run context =
              .ok (listText options children fragment, after)) ∨
          (maxTextLength < options.indentWidth ∧
            (tree source start (.node .args children)).run context = .error .wideIndent)) := by
  obtain ⟨parsed, drafts, hparse, _, _, hbuilt⟩ := parse_eq_ok source mode
  refine ⟨parsed, hparse, fun hclean children hnode hcomment options start context hoptions => ?_⟩
  have hargs : Tree.IsArgs children := (hbuilt.shaped hclean _ hnode).args rfl
  obtain ⟨-, hargsSound, hsound⟩ := Tree.Sound.of_mem_nodes _ (hbuilt.sound_tree hclean) hnode
  have hopens (hne : children ≠ []) : Opens children := by
    refine opens_of_isArgs hargs hsound hne fun inner hinner => ?_
    refine hbuilt.head?_contentBlock hclean ?_
    exact Tree.nodesAll_subset_nodes _ hnode (Tree.mem_nodesAll_of_mem hinner)
  unfold tree
  rw [StateT.run_bind]
  rcases trees_writes source start children hsound context with
    ⟨fragments, behind, hrun, hbehind, -⟩ | ⟨hwide, hrun⟩
  · have halone := trees_alone hsound (fun hne => .inr (hopens hne)) hrun
    rw [hoptions] at halone hbehind
    rw [hrun, ← map_fragmentOf halone]
    rcases arguments_gives_listText hargs (hargsSound rfl) hcomment
      (writesSigns_fragmentOf hsound.mem options) start hbehind with hlist | hwide
    · exact .inl ⟨fragmentOf options, alone_eq_fragmentOf halone, hlist⟩
    · exact .inr hwide
  · rw [hrun]
    exact .inr ⟨by rwa [← hoptions], rfl⟩

/-- A list without comments can need an indentation that is too wide. -/
theorem format_wide_list :
    ((parse ['#', 'f', '(', 'a', ')']).toOption.map fun parsed =>
        (parsed.diagnostics.isEmpty, parsed.tree.nodes.map fun node =>
          (node.1, node.2.map Tree.kind))) =
      some (true, [(.markup, [.hash, .funcCall]), (.funcCall, [.ident, .args]),
        (.args, [.leftParen, .ident, .rightParen])]) ∧
    format ['#', 'f', '(', 'a', ')']
        { indentWidth := 9223372036854775808, maxLineLength := 1 } .markup =
      .error (.layout .wideIndent) := by
  refine ⟨by decide +kernel, eq_error ?_⟩
  decide +kernel

end TypstFormat
