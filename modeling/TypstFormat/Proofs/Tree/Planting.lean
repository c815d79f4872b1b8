import TypstFormat.Proofs.Tree.Replay
import TypstFormat.Tree.Assembly

/-!
# Building the trees of drafts

The tree of a draft is the draft with the trivia put in between, and `Grown` says so: nodes keep
their kinds and what is in them, tokens get the texts they were cut from, and all that is new are
tokens of trivia. While a draft is built, the trivia ahead is the gap in front of the next token,
followed by the gaps behind it; `Assembly.Stands` tells whether the first of them is in the tree
already.

## Key results

- `Assembly.run_stepsAll`: the steps of drafts plant trees that the drafts have grown into
- `buildTree_eventsAll`: the events of a draft of the whole source make a tree whose tokens are the
  pieces of the source
-/

namespace TypstFormat

open Draft

/-- Trees start and end with what drafts start and end with. -/
structure SameEnds (drafts : List Draft) (trees : List Tree) : Prop where
  head?_eq : (trees.map Tree.kind).head? = (kinds drafts).head?
  getLast?_eq : (trees.map Tree.kind).getLast? = (kinds drafts).getLast?

/-- Trees that are drafts with tokens of trivia in between. In a node, trivia comes neither first
nor last. -/
inductive Grown (source : List Char) : List Draft → List Tree → Prop where
  | nil : Grown source [] []
  | trivia {drafts : List Draft} {trees : List Tree} {mode : Mode} {token : Token} :
    mode ≠ .markup → token.IsCut source mode → token.kind.isTrivia = true →
    Grown source drafts trees →
    Grown source drafts (.token token.kind (token.range.slice source) :: trees)
  | token {drafts : List Draft} {trees : List Tree} {look : Look} {asText : Bool} :
    look.token.IsCut source look.mode → Grown source drafts trees →
    Grown source (.token look asText :: drafts)
      (.token (Draft.token look asText).kind (look.token.range.slice source) :: trees)
  | void {drafts : List Draft} {trees : List Tree} :
    Grown source drafts trees → Grown source (.void :: drafts) trees
  | node {drafts inner : List Draft} {trees children : List Tree} {kind : Kind} {wraps : Bool} :
    SameEnds inner children → Grown source inner children → Grown source drafts trees →
    Grown source (.node kind wraps inner :: drafts) (.node kind children :: trees)

namespace Grown

variable {source : List Char}

theorem append {drafts more : List Draft} {trees rest : List Tree} (h₁ : Grown source drafts trees)
    (h₂ : Grown source more rest) : Grown source (drafts ++ more) (trees ++ rest) := by
  induction h₁ with
  | nil => exact h₂
  | trivia hmode hcut htrivia _ ih => exact .trivia hmode hcut htrivia ih
  | token hcut _ ih => exact .token hcut ih
  | void _ ih => exact .void ih
  | node hends hinner _ _ ih => exact .node hends hinner ih

variable {drafts : List Draft} {trees : List Tree}

/-- Nothing is lost between drafts and their trees. -/
theorem kinds_sublist (h : Grown source drafts trees) :
    (kinds drafts).Sublist (trees.map Tree.kind) := by
  induction h with
  | nil => exact .slnil
  | trivia _ _ _ _ ih => exact ih.cons _
  | token _ _ ih => exact ih.cons_cons _
  | void _ ih => exact ih
  | node _ _ _ _ ih => exact ih.cons_cons _

/-- Where trivia does not count, the kinds of the trees are those of the drafts. -/
theorem filter_kinds_eq (h : Grown source drafts trees) {counts : Kind → Bool}
    (htrivia : ∀ {mode : Mode} {token : Token}, mode ≠ .markup → token.IsCut source mode →
      token.kind.isTrivia = true → counts token.kind = false) :
    (trees.map Tree.kind).filter counts = (kinds drafts).filter counts := by
  induction h with
  | nil => rfl
  | trivia hmode hcut hkind _ ih =>
    rw [List.map_cons, List.filter_cons_of_neg (by simp [Tree.kind, htrivia hmode hcut hkind])]
    exact ih
  | token _ _ ih => simp only [List.map_cons, kinds_token, List.filter_cons, ih, Tree.kind]
  | void _ ih => exact ih
  | node _ _ _ _ ih => simp only [List.map_cons, kinds_node, List.filter_cons, ih, Tree.kind]

end Grown

/-- The characters from one offset up to another one. -/
def between (source : List Char) (start stop : Nat) : List Char :=
  (source.drop start).take (stop - start)

theorem between_self (source : List Char) (offset : Nat) : between source offset offset = [] := by
  simp [between]

theorem between_append {source : List Char} {start middle stop : Nat} (h₁ : start ≤ middle)
    (h₂ : middle ≤ stop) :
    between source start middle ++ between source middle stop = between source start stop := by
  have hcount : stop - start = (middle - start) + (stop - middle) := by omega
  have hdrop : source.drop middle = (source.drop start).drop (middle - start) := by
    rw [List.drop_drop]
    congr 1
    omega
  unfold between
  rw [hcount, List.take_add, hdrop]

theorem between_range (source : List Char) (range : Text.Range) :
    between source range.start range.stop = range.slice source := rfl

theorem between_zero_length (source : List Char) : between source 0 source.length = source := by
  simp [between]

namespace TreeBuilder

/-- Adds trees to the innermost open node, the first one first. -/
def pushAll (builder : TreeBuilder) (trees : List Tree) : TreeBuilder :=
  trees.foldl push builder

@[simp] theorem pushAll_cons (builder : TreeBuilder) (tree : Tree) (trees : List Tree) :
    builder.pushAll (tree :: trees) = (builder.push tree).pushAll trees := rfl

theorem pushAll_append (builder : TreeBuilder) (trees more : List Tree) :
    builder.pushAll (trees ++ more) = (builder.pushAll trees).pushAll more := List.foldl_append

theorem pushAll_of_stack (node : OpenNode) (stack : List OpenNode) (roots trees : List Tree) :
    pushAll ⟨node :: stack, roots⟩ trees =
      ⟨{ node with children := trees.reverse ++ node.children } :: stack, roots⟩ := by
  induction trees generalizing node with
  | nil => rfl
  | cons tree trees ih =>
    rw [pushAll_cons]
    show pushAll ⟨node.push tree :: stack, roots⟩ trees = _
    rw [ih]
    simp [OpenNode.push]

theorem pushAll_of_roots (roots trees : List Tree) :
    pushAll ⟨[], roots⟩ trees = ⟨[], trees.reverse ++ roots⟩ := by
  induction trees generalizing roots with
  | nil => rfl
  | cons tree trees ih =>
    rw [pushAll_cons]
    show pushAll ⟨[], tree :: roots⟩ trees = _
    simp [ih]

end TreeBuilder

/-! ## What lies ahead -/

/-- Looks that are taken one behind the other, and the one behind them at the end of the source. -/
structure Ahead (source : List Char) (start : Nat) (ls : List Look) (last : Look) : Prop where
  le : start ≤ source.length
  path : ∃ stop, Look.Path source start ls stop ∧ last = look source last.mode stop
  eof : last.token.kind = .eof

namespace Ahead

variable {source : List Char} {start : Nat} {l last : Look} {ls : List Look}

/-- The look that comes next. -/
def next (ls : List Look) (last : Look) : Look :=
  ls.headD last

theorem next_append (drafts : List Draft) (ls : List Look) (last : Look) :
    next (leavesAll drafts ++ ls) last = front drafts (next ls last) := by
  unfold next front
  cases leavesAll drafts <;> rfl

/-- The trivia of all looks. -/
def gaps (ls : List Look) (last : Look) : List Trivia :=
  ls.flatMap (·.trivia) ++ last.trivia

/-- The trivia of all looks but the one that comes next. -/
def gapsBehind : List Look → Look → List Trivia
  | [], _ => []
  | _ :: ls, last => gaps ls last

theorem gaps_eq (ls : List Look) (last : Look) :
    gaps ls last = (next ls last).trivia ++ gapsBehind ls last := by
  cases ls with
  | nil => simp [gaps, next, gapsBehind]
  | cons l ls => simp [gaps, next, gapsBehind]

theorem covers (h : Ahead source start ls last) : (next ls last).Covers source start := by
  obtain ⟨hle, ⟨stop, hpath, hlast⟩, _⟩ := h
  cases ls with
  | nil =>
    obtain rfl : start = stop := hpath
    show last.Covers source start
    rw [hlast]
    exact covers_look hle last.mode
  | cons l ls => exact hpath.covers hle

theorem tail (h : Ahead source start (l :: ls) last) :
    l.token.kind ≠ .eof ∧ Ahead source l.token.range.stop ls last := by
  have hcovers := h.covers
  obtain ⟨_, ⟨stop, hpath, hlast⟩, heof⟩ := h
  exact ⟨hpath.2.1, hcovers.stop_le, ⟨stop, hpath.2.2, hlast⟩, heof⟩

/-- All trivia ahead stands behind the start. -/
theorem start_le (h : Ahead source start ls last) :
    ∀ piece ∈ gaps ls last, start ≤ piece.range.start := by
  obtain ⟨hle, ⟨stop, hpath, hlast⟩, _⟩ := h
  obtain ⟨hstop, hend⟩ := hpath.le hle
  have hcovers := covers_look hend last.mode
  rw [← hlast] at hcovers
  intro piece hpiece
  rcases List.mem_append.1 hpiece with hpiece | hpiece
  · exact hpath.start_le hle piece hpiece
  · exact Nat.le_trans hstop (hcovers.tile.range_le piece hpiece).1

/-- No trivia behind the next token touches that token's start. -/
theorem ne_start (h : Ahead source start ls last) :
    ∀ piece ∈ gapsBehind ls last, piece.range.start ≠ (next ls last).token.range.start := by
  cases ls with
  | nil => simp [gapsBehind]
  | cons l ls =>
    intro piece hpiece
    have h₁ := h.tail.2.start_le piece hpiece
    have h₂ : l.token.range.start < l.token.range.stop := h.covers.start_lt_stop h.tail.1
    show piece.range.start ≠ l.token.range.start
    omega

end Ahead

/-! ## Trivia -/

/-- The token that a piece of trivia becomes. -/
def Trivia.toTree (source : List Char) (piece : Trivia) : Tree :=
  .token piece.kind (piece.range.slice source)

theorem Trivia.Tile.flatMap_slice {source : List Char} {start stop : Nat} {pieces : List Trivia}
    (h : Trivia.Tile start pieces stop) :
    (pieces.flatMap fun piece => piece.range.slice source) = between source start stop := by
  induction pieces generalizing start with
  | nil =>
    obtain rfl : start = stop := h
    exact (between_self source start).symm
  | cons piece rest ih =>
    obtain ⟨hstart, hlt, hrest⟩ := h
    subst hstart
    rw [List.flatMap_cons, ih hrest, ← between_range]
    exact between_append (Nat.le_of_lt hlt) hrest.le

/-- All of the trivia in front of the next token, if it is still to come. -/
inductive IsGap (source : List Char) (next : Look) : (toCome : Bool) → List Tree → Prop where
  | none : IsGap source next false []
  | all {offset : Nat} : next.Covers source offset →
    IsGap source next true (next.trivia.map (Trivia.toTree source))

/-- Trees that are drafts with gaps in front. It is told which look comes behind them, and, before
and after, whether the trivia in front of the next token is still to come. -/
inductive Spaced (source : List Char) : Look → Bool → List Draft → List Tree → Bool → Prop where
  | nil {next : Look} {toCome : Bool} : Spaced source next toCome [] [] toCome
  | token {next look : Look} {drafts : List Draft} {gap trees : List Tree}
    {asText before after : Bool} :
    IsGap source look before gap → look.token.IsCut source look.mode →
    Spaced source next true drafts trees after →
    Spaced source next before (.token look asText :: drafts)
      (gap ++ .token (Draft.token look asText).kind (look.token.range.slice source) :: trees) after
  | void {next : Look} {drafts : List Draft} {trees : List Tree} {before after : Bool} :
    Spaced source next before drafts trees after →
    Spaced source next before (.void :: drafts) trees after
  | node {next : Look} {drafts inner : List Draft} {gap trees children : List Tree} {kind : Kind}
    {wraps before within after : Bool} :
    IsGap source (front inner (front drafts next)) before gap → SameEnds inner children →
    Spaced source (front drafts next) false inner children within →
    Spaced source next within drafts trees after →
    Spaced source next before (.node kind wraps inner :: drafts)
      (gap ++ .node kind children :: trees) after

theorem Spaced.append {source : List Char} {next : Look} {drafts more : List Draft}
    {trees rest : List Tree} {before between after : Bool}
    (h₁ : Spaced source (front more next) before drafts trees between)
    (h₂ : Spaced source next between more rest after) :
    Spaced source next before (drafts ++ more) (trees ++ rest) after := by
  generalize hfront : front more next = middle at h₁
  induction h₁ with
  | nil => exact h₂
  | token hgap hcut _ ih =>
    rw [List.append_assoc]
    exact .token hgap hcut (ih h₂ hfront)
  | void _ ih => exact .void (ih h₂ hfront)
  | node hgap hends hinner _ _ ih =>
    rw [List.append_assoc]
    rw [← hfront, ← front_append _ more] at hinner
    rw [← hfront, ← front_append _ more] at hgap
    exact .node hgap hends hinner (ih h₂ hfront)

/-- The tokens of trees are pieces of a source, side by side from one offset up to another one. -/
structure Spells (source : List Char) (start : Nat) (trees : List Tree) (pieces : List Trivia)
    (stop : Nat) : Prop where
  tokens_eq : Tree.tokensAll trees =
    pieces.map fun piece => (piece.kind, piece.range.slice source)
  tile : Trivia.Tile start pieces stop

namespace Spells

variable {source : List Char} {start middle stop : Nat} {trees more : List Tree}
  {pieces rest : List Trivia}

theorem nil (source : List Char) (start : Nat) : Spells source start [] [] start :=
  ⟨rfl, rfl⟩

theorem append (h₁ : Spells source start trees pieces middle)
    (h₂ : Spells source middle more rest stop) :
    Spells source start (trees ++ more) (pieces ++ rest) stop := by
  refine ⟨?_, h₁.tile.append h₂.tile⟩
  rw [Tree.tokensAll_append, h₁.tokens_eq, h₂.tokens_eq, List.map_append]

/-- Pieces that have become tokens. -/
theorem of_tile (h : Trivia.Tile start pieces stop) :
    Spells source start (pieces.map (Trivia.toTree source)) pieces stop := by
  refine ⟨?_, h⟩
  clear h
  induction pieces with
  | nil => rfl
  | cons piece rest ih =>
    rw [List.map_cons, List.map_cons, ← ih]
    rfl

theorem node (h : Spells source start trees pieces stop) (kind : Kind) :
    Spells source start [.node kind trees] pieces stop := by
  refine ⟨?_, h.tile⟩
  rw [← h.tokens_eq]
  exact List.append_nil _

theorem textAll (h : Spells source start trees pieces stop) :
    Tree.textAll trees = between source start stop := by
  rw [Tree.textAll_eq_flatMap_tokensAll, h.tokens_eq, List.flatMap_map, ← h.tile.flatMap_slice]

end Spells

theorem Look.Covers.grown {source : List Char} {offset : Nat} {l : Look}
    (h : l.Covers source offset) : Grown source [] (l.trivia.map (Trivia.toTree source)) := by
  -- All pieces are from the mode of the look, which is not that of markup if there are any.
  have hall := h.isTrivia
  have hmode : l.trivia ≠ [] → l.mode ≠ .markup := fun hne hmarkup => hne (h.markup hmarkup)
  generalize l.trivia = pieces at hall hmode ⊢
  induction pieces with
  | nil => exact .nil
  | cons piece rest ih =>
    obtain ⟨htrivia, token, hcut, rfl⟩ := hall piece (List.mem_cons_self ..)
    have hcode : l.mode ≠ .markup := hmode (List.cons_ne_nil _ _)
    refine .trivia hcode hcut htrivia (ih (fun p hp => hall p (List.mem_cons_of_mem _ hp)) ?_)
    exact fun _ => hcode

namespace Assembly

theorem addToken_builder {source : List Char} {a : Assembly} {range : Text.Range}
    (hsource : a.source = source) (hposition : a.position = range.start) (kind : Kind) :
    (a.addToken kind range.stop).builder =
      a.builder.push (.token kind (range.slice source)) := by
  rw [← between_range, ← hposition, ← hsource]
  rfl

theorem addPieces_append (a : Assembly) (pieces : List Trivia) {rest : List Trivia} {stop : Nat}
    (htile : Trivia.Tile a.position pieces stop)
    (hrest : ∀ piece ∈ rest, piece.range.start ≠ stop) :
    a.addPieces (pieces ++ rest) =
      { a with
        position := stop
        pending := rest
        builder := a.builder.pushAll (pieces.map (Trivia.toTree a.source)) } := by
  induction pieces generalizing a with
  | nil =>
    obtain rfl : a.position = stop := htile
    -- The next piece, if there is one, does not start here.
    cases rest with
    | nil => rfl
    | cons piece rest => exact if_neg (hrest piece (List.mem_cons_self ..))
  | cons piece pieces ih =>
    obtain ⟨hstart, hlt, htile⟩ := htile
    rw [List.cons_append, addPieces, if_pos hstart,
      ih (a.addToken piece.kind piece.range.stop) htile,
      addToken_builder rfl hstart.symm piece.kind]
    rfl

/-- The assembly stands in front of looks, with the trivia in front of the next token still to come
or in the tree already. -/
inductive Stands (source : List Char) (ls : List Look) (last : Look) (a : Assembly) :
    (toCome : Bool) → Prop where
  | ready : a.source = source → Ahead source a.position ls last →
    a.pending = Ahead.gaps ls last → Stands source ls last a true
  | flushed {start : Nat} : a.source = source → Ahead source start ls last →
    a.position = (Ahead.next ls last).token.range.start → a.pending = Ahead.gapsBehind ls last →
    Stands source ls last a false

/-- One assembly became another one by adding trees that drafts have grown into. Their tokens are
those of the drafts and the trivia that is not pending any more. -/
structure Added (source : List Char) (drafts : List Draft) (trees : List Tree) (a a' : Assembly) :
    Prop where
  source_eq : a'.source = a.source
  builder_eq : a'.builder = a.builder.pushAll trees
  grown : Grown source drafts trees
  pieces : ∃ pieces trivia, Spells source a.position trees pieces a'.position ∧
    a.pending = trivia ++ a'.pending ∧ pieces.Perm (piecesAll drafts ++ trivia)

namespace Added

variable {source : List Char} {drafts more : List Draft} {trees rest : List Tree}
  {a a' a'' : Assembly}

theorem refl (source : List Char) (a : Assembly) : Added source [] [] a a :=
  ⟨rfl, rfl, .nil, [], [], .nil source a.position, rfl, .refl _⟩

theorem trans (h₁ : Added source drafts trees a a') (h₂ : Added source more rest a' a'') :
    Added source (drafts ++ more) (trees ++ rest) a a'' := by
  obtain ⟨pieces, trivia, hspells, hpending, hperm⟩ := h₁.pieces
  obtain ⟨pieces', trivia', hspells', hpending', hperm'⟩ := h₂.pieces
  refine ⟨h₂.source_eq.trans h₁.source_eq, ?_, h₁.grown.append h₂.grown, pieces ++ pieces',
    trivia ++ trivia', hspells.append hspells', ?_, ?_⟩
  · rw [h₂.builder_eq, h₁.builder_eq, TreeBuilder.pushAll_append]
  · rw [hpending, hpending', List.append_assoc]
  · -- The trivia of the first part goes behind the tokens of the second one.
    rw [piecesAll_append, List.append_assoc]
    refine (hperm.append hperm').trans ?_
    rw [List.append_assoc]
    exact (List.perm_append_comm_assoc _ _ _).append_left _

theorem stack_ne_nil (h : Added source drafts trees a a') (hstack : a.builder.stack ≠ []) :
    a'.builder.stack ≠ [] := by
  have hbuilder := h.builder_eq
  cases hb : a.builder with
  | mk stack roots =>
    rw [hb] at hstack hbuilder
    cases stack with
    | nil => exact absurd rfl hstack
    | cons node stack =>
      rw [hbuilder, TreeBuilder.pushAll_of_stack]
      exact List.cons_ne_nil _ _

end Added

/-! ## Steps -/

/-- How the trees that were added end: nothing comes behind what the drafts end with, and trivia
comes in front of what they start with only where it was not in the tree yet. -/
structure Ends (drafts : List Draft) (trees : List Tree) (a a' : Assembly) : Prop where
  nothing : kinds drafts = [] → trees = [] ∧ a' = a
  first : a.addTrivia = a → (trees.map Tree.kind).head? = (kinds drafts).head?
  last : (trees.map Tree.kind).getLast? = (kinds drafts).getLast?

theorem Ends.append {drafts more : List Draft} {trees rest : List Tree} {a a' a'' : Assembly}
    (h₁ : Ends drafts trees a a') (h₂ : Ends more rest a' a'') :
    Ends (drafts ++ more) (trees ++ rest) a a'' := by
  refine ⟨fun hnil => ?_, fun htrivia => ?_, ?_⟩
  · rw [kinds_append, List.append_eq_nil_iff] at hnil
    obtain ⟨rfl, rfl⟩ := h₁.nothing hnil.1
    obtain ⟨rfl, rfl⟩ := h₂.nothing hnil.2
    exact ⟨rfl, rfl⟩
  · rw [kinds_append, List.map_append, List.head?_append, List.head?_append, h₁.first htrivia]
    cases hkinds : kinds drafts with
    | nil =>
      obtain ⟨rfl, rfl⟩ := h₁.nothing hkinds
      exact h₂.first htrivia
    | cons => rfl
  · rw [kinds_append, List.map_append, List.getLast?_append, List.getLast?_append, h₁.last, h₂.last]

/-- Where the next token comes next, there is no trivia to be added. -/
theorem addTrivia_eq_self {source : List Char} {start : Nat} {ls : List Look} {last : Look}
    {a : Assembly} (hahead : Ahead source start ls last)
    (hposition : a.position = (Ahead.next ls last).token.range.start)
    (hpending : a.pending = Ahead.gapsBehind ls last) : a.addTrivia = a := by
  have heq := addPieces_append a [] hposition hahead.ne_start
  rw [List.nil_append, ← hpending] at heq
  change a.addTrivia = _ at heq
  rw [heq, ← hposition]
  rfl

/-- The trivia in front of the next token is added, if it is not in the tree yet. -/
theorem Stands.flush {source : List Char} {ls : List Look} {last : Look} {a : Assembly}
    {toCome : Bool} (h : a.Stands source ls last toCome) :
    ∃ start gap, Ahead source start ls last ∧ Added source [] gap a a.addTrivia ∧
      IsGap source (Ahead.next ls last) toCome gap ∧
      (a.addTrivia = a → gap = []) ∧ a.addTrivia.source = source ∧
      a.addTrivia.position = (Ahead.next ls last).token.range.start ∧
      a.addTrivia.pending = Ahead.gapsBehind ls last := by
  cases h with
  | ready hsource hahead hpending =>
    -- The trivia of the next look is added, and no more: the rest starts behind its token.
    have htile := hahead.covers.tile
    have heq := addPieces_append a _ htile hahead.ne_start
    rw [← Ahead.gaps_eq, ← hpending] at heq
    change a.addTrivia = _ at heq
    subst hsource
    let gap := (Ahead.next ls last).trivia.map (Trivia.toTree a.source)
    refine ⟨a.position, gap, hahead, ?_, .all hahead.covers, fun hsame => ?_,
      by rw [heq], by rw [heq], by rw [heq]⟩
    · rw [heq]
      exact ⟨rfl, rfl, hahead.covers.grown, _, _, .of_tile htile,
        hpending.trans (Ahead.gaps_eq _ _), .refl _⟩
    · -- If that changes nothing, the next token comes next.
      rw [heq] at hsame
      have hposition := congrArg Assembly.position hsame
      rw [List.map_eq_nil_iff]
      exact htile.eq_nil hposition.symm
  | flushed hsource hahead hposition hpending =>
    have hself := addTrivia_eq_self hahead hposition hpending
    rw [hself]
    exact ⟨_, [], hahead, .refl source a, .none, fun _ => rfl, hsource, hposition, hpending⟩

/-- The token that comes next is added. -/
theorem Stands.token {source : List Char} {l last : Look} {ls : List Look} {a : Assembly}
    {toCome : Bool} (h : a.Stands source (l :: ls) last toCome) (asText : Bool) :
    ∃ a' trees, a.step (.token (Draft.token l asText).kind l.token.range.stop) = .ok a' ∧
      Added source [.token l asText] trees a a' ∧
      Spaced source (Ahead.next ls last) toCome [.token l asText] trees true ∧
      Ends [.token l asText] trees a a' ∧ a'.Stands source ls last true := by
  obtain ⟨start, gap, hahead, hadded, hisGap, hgap, hsource, hposition, hpending⟩ := h.flush
  have hcovers : l.Covers source start := hahead.covers
  have hcut := hcovers.isCut hahead.tail.1
  have hposition : a.addTrivia.position = l.token.range.start := hposition
  have htoken : Added source [.token l asText]
      [.token (Draft.token l asText).kind (l.token.range.slice source)] a.addTrivia
      (a.addTrivia.addToken (Draft.token l asText).kind l.token.range.stop) := by
    have hlt := hcovers.start_lt_stop hahead.tail.1
    have htile : Trivia.Tile a.addTrivia.position (Draft.token l asText).pieces
        l.token.range.stop := ⟨hposition.symm, hposition ▸ hlt, rfl⟩
    exact ⟨rfl, addToken_builder hsource hposition _, .token hcut .nil,
      (Draft.token l asText).pieces, [], .of_tile htile, rfl, .refl _⟩
  refine ⟨_, _, rfl, hadded.trans htoken, .token hisGap hcut .nil, ⟨by simp, fun htrivia => ?_, ?_⟩,
    .ready hsource hahead.tail.2 hpending⟩
  · rw [hgap htrivia]
    simp [Tree.kind]
  · simp [Tree.kind]

/-- A node is entered behind the trivia in front of the next token. -/
theorem Stands.enter {source : List Char} {ls : List Look} {last : Look} {a : Assembly}
    {toCome : Bool} (h : a.Stands source ls last toCome) (hstack : a.builder.stack ≠ [])
    (kind : Kind) :
    ∃ a₀ gap, Added source [] gap a a₀ ∧ IsGap source (Ahead.next ls last) toCome gap ∧
      (a.addTrivia = a → gap = []) ∧
      a.step (.enter kind) = .ok { a₀ with builder := a₀.builder.enter kind } ∧
      Stands source ls last { a₀ with builder := a₀.builder.enter kind } false ∧
      addTrivia { a₀ with builder := a₀.builder.enter kind } =
        { a₀ with builder := a₀.builder.enter kind } := by
  obtain ⟨start, gap, hahead, hadded, hisGap, hgap, hsource, hposition, hpending⟩ := h.flush
  refine ⟨a.addTrivia, gap, hadded, hisGap, hgap, ?_, .flushed hsource hahead hposition hpending,
    addTrivia_eq_self hahead hposition hpending⟩
  have hempty : a.builder.stack.isEmpty = false := by
    rw [List.isEmpty_eq_false_iff]
    exact hstack
  simp only [step, hempty, Bool.false_eq_true, if_false]

/-- What was added to a node that has just been entered are its children, when it is left. -/
theorem Added.leave {source : List Char} {drafts : List Draft} {trees : List Tree}
    {a a' : Assembly} {kind : Kind} (wraps : Bool) (hstack : a.builder.stack ≠ [])
    (hends : SameEnds drafts trees)
    (h : Added source drafts trees { a with builder := a.builder.enter kind } a') :
    ∃ builder, a'.leave = .ok { a' with builder } ∧
      Added source [.node kind wraps drafts] [.node kind trees] a { a' with builder } := by
  obtain ⟨hsource, hbuilder, hgrown, pieces, trivia, hspells, hpending, hperm⟩ := h
  obtain ⟨source', position, pending, ⟨stack, roots⟩⟩ := a
  cases stack with
  | nil => exact absurd rfl hstack
  | cons outer stack =>
    -- The new node is still open, with all that was added in it.
    have hbuilder :
        a'.builder = ⟨{ kind, children := trees.reverse } :: outer :: stack, roots⟩ := by
      rw [hbuilder]
      show TreeBuilder.pushAll ⟨{ kind } :: outer :: stack, roots⟩ trees = _
      rw [TreeBuilder.pushAll_of_stack]
      simp
    have hopen : (OpenNode.toTree { kind, children := trees.reverse }) = .node kind trees := by
      simp [OpenNode.toTree]
    refine ⟨TreeBuilder.push ⟨outer :: stack, roots⟩ (.node kind trees), ?_, hsource, rfl,
      .node hends hgrown .nil, pieces, trivia, hspells.node kind, hpending, ?_⟩
    · unfold Assembly.leave
      rw [hbuilder]
      simp only [TreeBuilder.leave, hopen]
      rfl
    · have hpieces : piecesAll [.node kind wraps drafts] = piecesAll drafts := List.append_nil _
      rw [hpieces]
      exact hperm

theorem run_append {a a' : Assembly} {steps more : List Step} (h : a.run steps = .ok a') :
    a.run (steps ++ more) = a'.run more := by
  unfold run at h ⊢
  rw [List.foldlM_append, h]
  rfl

theorem run_cons {a a' : Assembly} {step : Step} (h : a.step step = .ok a') (steps : List Step) :
    a.run (step :: steps) = a'.run steps := by
  unfold run
  rw [List.foldlM_cons, h]
  rfl

mutual

/-- The steps of a draft below an open node add its tree. -/
theorem run_steps {source : List Char} {last : Look} : (draft : Draft) → ∀ {a : Assembly}
    {ls : List Look} {toCome : Bool}, a.Stands source (leaves draft ++ ls) last toCome →
    a.builder.stack ≠ [] →
    ∃ a' trees after, a.run (steps draft) = .ok a' ∧ Added source [draft] trees a a' ∧
      Spaced source (Ahead.next ls last) toCome [draft] trees after ∧
      Ends [draft] trees a a' ∧ a'.Stands source ls last after
  | .token l asText, a, ls, toCome, h, _ => by
    obtain ⟨a', trees, hstep, hadded, hspaced, hends, hstands⟩ := h.token asText
    exact ⟨a', trees, true, run_cons hstep [], hadded, hspaced, hends, hstands⟩
  | .void, a, ls, toCome, h, _ =>
    ⟨a, [], toCome, rfl, ⟨rfl, rfl, .void .nil, [], [], .nil _ _, rfl, .refl _⟩, .void .nil,
      ⟨fun _ => ⟨rfl, rfl⟩, fun _ => rfl, rfl⟩, h⟩
  | .node kind wraps children, a, ls, toCome, h, hstack => by
    obtain ⟨a₀, gap, hadded₀, hisGap, hgap, henter, hstands, hself⟩ := h.enter hstack kind
    have hstack₀ := hadded₀.stack_ne_nil hstack
    obtain ⟨a₁, trees, after, hrun, hadded, hspaced, hends, hstands₁⟩ :=
      run_stepsAll children hstands (List.cons_ne_nil _ _)
    have hsame : SameEnds children trees := ⟨hends.first hself, hends.last⟩
    obtain ⟨builder, hleave, hnode⟩ := hadded.leave wraps hstack₀ hsame
    refine ⟨{ a₁ with builder }, _, after, ?_, hadded₀.trans hnode,
      .node (Ahead.next_append children ls last ▸ hisGap) hsame hspaced .nil,
      ⟨by simp, fun htrivia => ?_, ?_⟩, ?_⟩
    · rw [steps, run_cons henter, run_append hrun]
      exact run_cons (show a₁.step .leave = _ from hleave) []
    · rw [hgap htrivia]
      simp [Tree.kind]
    · simp [Tree.kind]
    · -- Only the builder has changed.
      cases hstands₁ with
      | ready hsource hahead hpending => exact .ready hsource hahead hpending
      | flushed hsource hahead hposition hpending =>
        exact .flushed hsource hahead hposition hpending

/-- The steps of drafts below an open node add their trees. -/
theorem run_stepsAll {source : List Char} {last : Look} : (drafts : List Draft) →
    ∀ {a : Assembly} {ls : List Look} {toCome : Bool},
    a.Stands source (leavesAll drafts ++ ls) last toCome → a.builder.stack ≠ [] →
    ∃ a' trees after, a.run (stepsAll drafts) = .ok a' ∧ Added source drafts trees a a' ∧
      Spaced source (Ahead.next ls last) toCome drafts trees after ∧
      Ends drafts trees a a' ∧ a'.Stands source ls last after
  | [], a, ls, toCome, h, _ =>
    ⟨a, [], toCome, rfl, .refl source a, .nil, ⟨fun _ => ⟨rfl, rfl⟩, fun _ => rfl, rfl⟩, h⟩
  | draft :: drafts, a, ls, toCome, h, hstack => by
    have h : a.Stands source (leaves draft ++ (leavesAll drafts ++ ls)) last toCome := by
      rw [← List.append_assoc]
      exact h
    obtain ⟨a₁, trees, _, hrun₁, hadded₁, hspaced₁, hends₁, hstands₁⟩ := run_steps draft h hstack
    obtain ⟨a₂, rest, after, hrun₂, hadded₂, hspaced₂, hends₂, hstands₂⟩ :=
      run_stepsAll drafts hstands₁ (hadded₁.stack_ne_nil hstack)
    rw [Ahead.next_append] at hspaced₁
    refine ⟨a₂, trees ++ rest, after, ?_, hadded₁.trans hadded₂, hspaced₁.append hspaced₂,
      hends₁.append hends₂, hstands₂⟩
    rw [stepsAll, run_append hrun₁, hrun₂]

end

end Assembly

/-! ## The whole source -/

/-- When the outermost node is left, it takes the trivia at the end of the source. -/
private theorem leave_outermost {source : List Char} {drafts : List Draft} {trees : List Tree}
    {last : Look} {kind : Kind} {a a' : Assembly} {toCome : Bool}
    (hbuilder : a.builder = ⟨[{ kind }], []⟩) (hposition : a.position = 0)
    (h : a.Added source drafts trees a') (hstands : a'.Stands source [] last toCome) :
    ∃ gap pieces b, a'.leave = .ok b ∧ b.builder = ⟨[], [.node kind (trees ++ gap)]⟩ ∧
      IsGap source last toCome gap ∧ Grown source drafts (trees ++ gap) ∧
      Spells source 0 (trees ++ gap) pieces source.length ∧
      pieces.Perm (piecesAll drafts ++ a.pending) := by
  -- The next token is the end token, so the trivia in front of it ends the source.
  obtain ⟨_, gap, hahead, hgap, hisGap, _, hsource, hend, hnone⟩ := hstands.flush
  obtain ⟨_, hadded, hgrown, pieces, trivia, hspells, hpending, hperm⟩ := h.trans hgap
  have hpending : a.pending = trivia := by
    rw [hpending, hnone]
    exact List.append_nil _
  have hend : a'.addTrivia.position = source.length :=
    hend.trans (hahead.covers.range_of_eof hahead.eof).1
  have hstack : ∃ node, a'.builder.stack = [node] := by
    rw [h.builder_eq, hbuilder, TreeBuilder.pushAll_of_stack]
    exact ⟨_, rfl⟩
  rw [hbuilder, TreeBuilder.pushAll_of_stack] at hadded
  refine ⟨gap, pieces,
    { a'.addTrivia with builder := ⟨[], [.node kind (trees ++ gap)]⟩ }, ?_, rfl,
    hisGap, by simpa using hgrown, ?_, ?_⟩
  · obtain ⟨node, hstack⟩ := hstack
    unfold Assembly.leave
    rw [hstack]
    simp only [hend, hsource, if_true, hadded, TreeBuilder.leave]
    simp [TreeBuilder.push, OpenNode.toTree, Except.map, Except.mapError]
  · rw [hposition, hend] at hspells
    exact hspells
  · rw [hpending]
    simpa using hperm

/-- The events of a draft of the whole source make its tree. The tokens of the tree are pieces of
the source that lie side by side: the tokens of the draft and all of the trivia. -/
theorem buildTree_eventsAll {source : List Char} {kind : Kind} {wraps : Bool}
    {children : List Draft} {last : Look} {stop : Nat}
    (hlinked : LinkedAll [.node kind wraps children])
    (hpath : Look.Path source 0 (leavesAll children) stop)
    (hlast : last = look source last.mode stop)
    (heof : last.token.kind = .eof) :
    ∃ trees gap toCome pieces events,
      buildTree source ((leavesAll children).flatMap (·.trivia) ++ last.trivia)
        (eventsAll [.node kind wraps children]).toArray = .ok (.node kind (trees ++ gap), events) ∧
      Spaced source last true children trees toCome ∧ IsGap source last toCome gap ∧
      Grown source children (trees ++ gap) ∧
      Spells source 0 (trees ++ gap) pieces source.length ∧
      pieces.Perm (piecesAll children ++
        ((leavesAll children).flatMap (·.trivia) ++ last.trivia)) := by
  let a : Assembly :=
    { source, pending := Ahead.gaps (leavesAll children) last, builder := ⟨[{ kind }], []⟩ }
  have hstands : a.Stands source (leavesAll children ++ []) last true := by
    rw [List.append_nil]
    exact .ready rfl ⟨Nat.zero_le _, ⟨stop, hpath, hlast⟩, heof⟩ rfl
  obtain ⟨a', trees, toCome, hrun, hadded, hspaced, _, hstands'⟩ :=
    Assembly.run_stepsAll children hstands (List.cons_ne_nil _ _)
  obtain ⟨gap, pieces, b, hleave, hbuilder, hgap, hgrown, hspells, hperm⟩ :=
    leave_outermost rfl rfl hadded hstands'
  obtain ⟨events, hreplay⟩ := replay_eventsAll hlinked
  refine ⟨trees, gap, toCome, pieces, events, ?_, hspaced, hgap, hgrown, hspells, hperm⟩
  -- The outermost node is entered first and left last.
  have hsteps : stepsAll [.node kind wraps children] =
      .enter kind :: (stepsAll children ++ [.leave]) := by
    simp [stepsAll, steps]
  have hall : ({ source, pending := Ahead.gaps (leavesAll children) last } : Assembly).run
      (stepsAll [.node kind wraps children]) = .ok b := by
    rw [hsteps, Assembly.run_cons (show Assembly.step _ (.enter kind) = .ok a from rfl),
      Assembly.run_append hrun]
    exact Assembly.run_cons (show a'.step .leave = _ from hleave) []
  have hpending : (leavesAll children).flatMap (·.trivia) ++ last.trivia =
      Ahead.gaps (leavesAll children) last := rfl
  unfold buildTree
  rw [hreplay, hpending]
  simp only [hall, bind, Except.bind, Except.mapError, hbuilder]
  rfl

end TypstFormat
