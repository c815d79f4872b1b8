import TypstFormat.Proofs.Tree.LineStart
import TypstFormat.Proofs.Tree.Lines
import TypstFormat.Proofs.Tree.Planting

/-!
# Trees between gaps

Among trees that are drafts with gaps in front (`Spaced`), every tree either stands in a gap or is
that of a draft (`Spaced.split`). Where no line ends in front of drafts, no line ends in the gaps
either, so that white space in which a line ends is a token of the grammar.

## Key results

- `Spaced.split`, `Spaced.split_of_plain`: where a tree among other ones comes from
- `Spaced.endsLine_eq_false`, `Spaced.lineStarts`: what the gaps leave as it was
- `Spaced.head?_leaf`, `Spaced.trails`: the trivia in front of a token comes right before the token,
  or ends what stands in front of it
-/

namespace TypstFormat

open Draft

theorem Kind.isSpace_iff {kind : Kind} :
    kind.isSpace = true ↔ kind = .space ∨ kind = .parbreak := by
  cases kind <;> simp [Kind.isSpace]

theorem Kind.isSpace_eq_false {kind : Kind} (h : kind.isTrivia = false) : kind.isSpace = false := by
  cases kind <;> first | rfl | cases h

namespace Tree

/-- The tree is white space in which a line ends. -/
def endsLine : Tree → Bool
  | .token kind text => kind.isSpace && text.any Text.isLineBreak
  | .node .. => false

/-- The kind of a tree, and whether it is white space in which a line ends. -/
def sibling (tree : Tree) : Kind × Bool :=
  (tree.kind, tree.endsLine)

end Tree

/-- White space tells whether a line ends in it, and nothing else ends a line. -/
theorem Token.IsCut.endsLine {source : List Char} {mode : Mode} {token : Token}
    (h : token.IsCut source mode) :
    (Tree.token token.kind (token.range.slice source)).endsLine =
      (token.kind.isSpace && token.containsNewline) := by
  cases hspace : token.kind.isSpace with
  | true => simp only [Tree.endsLine, hspace, Bool.true_and, h.containsNewline_eq hspace]
  | false => simp only [Tree.endsLine, hspace, Bool.false_and]

/-- A token of the grammar looks the same among its siblings in a tree. -/
theorem Token.IsCut.sibling_eq {source : List Char} {look : Look}
    (h : look.token.IsCut source look.mode) (asText : Bool) :
    (Tree.token (Draft.token look asText).kind (look.token.range.slice source)).sibling =
      (Draft.token look asText).sibling := by
  cases asText with
  | true => rfl
  | false => exact congrArg (Prod.mk look.token.kind) h.endsLine

/-- If a line ends in front of a token, it does so in a space. -/
theorem Look.Covers.exists_space {source : List Char} {offset : Nat} {l : Look}
    (h : l.Covers source offset) (hbreak : ¬l.Joins) :
    ∃ piece ∈ l.trivia, piece.kind = .space ∧
      (piece.range.slice source).any Text.isLineBreak = true := by
  obtain ⟨piece, hpiece, hbreak⟩ : ∃ piece ∈ l.trivia, piece.containsNewline = true := by
    simpa [Look.Joins] using hbreak
  obtain ⟨-, token, hcut, rfl⟩ := h.isTrivia piece hpiece
  have hmode : l.mode ≠ .markup := fun hmarkup => by
    rw [h.markup hmarkup] at hpiece
    cases hpiece
  have hspace : token.kind.isSpace = true := hcut.isSpace_of_containsNewline hbreak
  refine ⟨_, hpiece, ?_, ?_⟩
  · exact (Kind.isSpace_iff.1 hspace).resolve_right (hcut.ne_parbreak hmode)
  · exact (hcut.containsNewline_eq hspace).symm.trans hbreak

/-! ## Gaps -/

namespace IsGap

variable {source : List Char} {next : Look} {toCome : Bool} {gap : List Tree}

theorem isTrivia (h : IsGap source next toCome gap) : ∀ tree ∈ gap, tree.kind.isTrivia = true := by
  cases h with
  | none => simp
  | all hcovers =>
    intro tree htree
    obtain ⟨piece, hpiece, rfl⟩ := List.mem_map.1 htree
    exact (hcovers.isTrivia piece hpiece).1

/-- There are no paragraph breaks in gaps. -/
theorem kind_mem (h : IsGap source next toCome gap) :
    ∀ tree ∈ gap, tree.kind ∈ [Kind.space, .lineComment, .blockComment] := by
  cases h with
  | none => simp
  | all hcovers =>
    intro tree htree
    obtain ⟨piece, hpiece, rfl⟩ := List.mem_map.1 htree
    obtain ⟨htrivia, token, hcut, rfl⟩ := hcovers.isTrivia piece hpiece
    have hmode : next.mode ≠ .markup := fun hmarkup => by
      rw [hcovers.markup hmarkup] at hpiece
      cases hpiece
    have hne := hcut.ne_parbreak hmode
    change token.kind.isTrivia = true at htrivia
    change token.kind ∈ _
    generalize token.kind = kind at htrivia hne
    revert htrivia hne
    cases kind <;> decide

/-- Where no trivia stands in front of a token, there is no gap. -/
theorem eq_nil_of_trivia (h : IsGap source next toCome gap) (htrivia : next.trivia = []) :
    gap = [] := by
  cases h with
  | none => rfl
  | all => rw [htrivia, List.map_nil]

/-- There are no nodes in gaps. -/
theorem isNode_eq_false (h : IsGap source next toCome gap) : ∀ tree ∈ gap, tree.isNode = false := by
  cases h with
  | none => simp
  | all =>
    intro tree htree
    obtain ⟨piece, -, rfl⟩ := List.mem_map.1 htree
    rfl

/-- Where trivia does not count, nothing in a gap does. -/
theorem filter_kinds_eq_nil (h : IsGap source next toCome gap) {counts : Kind → Bool}
    (htrivia : ∀ kind : Kind, kind.isTrivia = true → counts kind = false) :
    (gap.map Tree.kind).filter counts = [] := by
  rw [List.filter_eq_nil_iff]
  intro kind hkind
  obtain ⟨tree, htree, rfl⟩ := List.mem_map.1 hkind
  simp [htrivia _ (h.isTrivia tree htree)]

/-- If no line ends in front of a token, none ends in the gap. -/
theorem endsLine_eq_false (h : IsGap source next toCome gap) (hjoins : next.Joins) :
    ∀ tree ∈ gap, tree.endsLine = false := by
  cases h with
  | none => simp
  | all hcovers =>
    intro tree htree
    obtain ⟨piece, hpiece, rfl⟩ := List.mem_map.1 htree
    obtain ⟨-, token, hcut, rfl⟩ := hcovers.isTrivia piece hpiece
    have hbreak : token.containsNewline = false := hjoins _ hpiece
    rw [show Trivia.toTree source token.toTrivia =
      .token token.kind (token.range.slice source) from rfl, hcut.endsLine, hbreak, Bool.and_false]

/-- If no line ends in front of a token, then the gap does not count among its siblings. -/
theorem siblings (h : IsGap source next toCome gap) (hjoins : next.Joins) :
    ∀ sibling ∈ gap.map Tree.sibling, sibling.1.isTrivia = true ∧ sibling.2 = false := by
  intro sibling hsibling
  obtain ⟨tree, htree, rfl⟩ := List.mem_map.1 hsibling
  exact ⟨h.isTrivia tree htree, h.endsLine_eq_false hjoins tree htree⟩

end IsGap

/-! ## Where trees come from -/

namespace Spaced

variable {source : List Char} {next : Look} {drafts more : List Draft} {trees : List Tree}
  {before after : Bool}

theorem of_append (h : Spaced source next before (drafts ++ more) trees after) :
    ∃ first behind between, trees = first ++ behind ∧
      Spaced source (front more next) before drafts first between ∧
      Spaced source next between more behind after := by
  induction drafts generalizing before trees with
  | nil => exact ⟨[], trees, before, rfl, .nil, h⟩
  | cons draft drafts ih =>
    cases h with
    | token hgap hcut h =>
      obtain ⟨first, behind, between, rfl, hfirst, hbehind⟩ := ih h
      exact ⟨_, behind, between, (List.append_assoc _ (_ :: first) _).symm,
        .token hgap hcut hfirst, hbehind⟩
    | void h =>
      obtain ⟨first, behind, between, rfl, hfirst, hbehind⟩ := ih h
      exact ⟨first, behind, between, rfl, .void hfirst, hbehind⟩
    | node hgap hends hinner h =>
      simp only [List.append_eq, front_append] at hgap hinner
      obtain ⟨first, behind, between, rfl, hfirst, hbehind⟩ := ih h
      exact ⟨_, behind, between, (List.append_assoc _ (_ :: first) _).symm,
        .node hgap hends hinner hfirst, hbehind⟩

/-- Where trivia does not count, the kinds of the trees are those of the drafts. -/
theorem filter_kinds_eq (h : Spaced source next before drafts trees after) {counts : Kind → Bool}
    (htrivia : ∀ kind : Kind, kind.isTrivia = true → counts kind = false) :
    (trees.map Tree.kind).filter counts = (kinds drafts).filter counts := by
  induction h with
  | nil => rfl
  | token hgap _ _ ih =>
    rw [List.map_append, List.filter_append, hgap.filter_kinds_eq_nil htrivia, List.nil_append,
      List.map_cons, kinds_token, List.filter_cons, List.filter_cons, ih]
    rfl
  | void _ ih => exact ih
  | node hgap _ _ _ _ ih =>
    rw [List.map_append, List.filter_append, hgap.filter_kinds_eq_nil htrivia, List.nil_append,
      List.map_cons, kinds_node, List.filter_cons, List.filter_cons, ih]
    rfl

/-- The place of a tree among others that stand behind a gap and one more tree. -/
private theorem eq_or_split {left right gap trees : List Tree} {tree own : Tree}
    (h : left ++ tree :: right = gap ++ own :: trees) :
    tree ∈ gap ∨ (left = gap ∧ tree = own ∧ right = trees) ∨
      ∃ left', left = gap ++ own :: left' ∧ trees = left' ++ tree :: right := by
  rcases List.append_eq_append_iff.1 h with ⟨between, rfl, hrest⟩ | ⟨between, rfl, hrest⟩
  · cases between with
    | nil =>
      obtain ⟨rfl, rfl⟩ := List.cons.inj hrest
      exact .inr (.inl ⟨(List.append_nil _).symm, rfl, rfl⟩)
    | cons first between =>
      obtain ⟨rfl, -⟩ := List.cons.inj hrest
      exact .inl (List.mem_append_right _ List.mem_cons_self)
  · cases between with
    | nil =>
      obtain ⟨rfl, rfl⟩ := List.cons.inj hrest
      exact .inr (.inl ⟨List.append_nil _, rfl, rfl⟩)
    | cons first between =>
      obtain ⟨rfl, rfl⟩ := List.cons.inj hrest
      exact .inr (.inr ⟨between, rfl, rfl⟩)

/-- A tree stands in the gap in front of a draft, or it is the tree of the draft. -/
theorem split {left right : List Tree} {tree : Tree}
    (h : Spaced source next before drafts (left ++ tree :: right) after) :
    ∃ first draft rest front gap between, drafts = first ++ draft :: rest ∧
      draft.isVoid = false ∧
      Spaced source (Draft.front (draft :: rest) next) before first front between ∧
      IsGap source (Draft.front (draft :: rest) next) between gap ∧
      (tree ∈ gap ∨ left = front ++ gap ∧ ∃ within,
        Spaced source (Draft.front rest next) false [draft] [tree] within ∧
        Spaced source next within rest right after) := by
  generalize htrees : left ++ tree :: right = trees at h
  induction h generalizing left with
  | nil => simp at htrees
  | @token next look drafts gap trees asText before after hgap hcut hrest ih =>
    rcases eq_or_split htrees with hmem | ⟨rfl, rfl, rfl⟩ | ⟨left', rfl, rfl⟩
    · exact ⟨[], _, drafts, [], gap, before, rfl, rfl, .nil, hgap, .inl hmem⟩
    · exact ⟨[], _, drafts, [], left, before, rfl, rfl, .nil, hgap, .inr ⟨rfl, true,
        .token .none hcut .nil, hrest⟩⟩
    · obtain ⟨first, draft, rest, front, gap', between, rfl, hvoid, hfirst, hgap', h⟩ := ih rfl
      refine ⟨.token look asText :: first, draft, rest, _, gap', between, rfl, hvoid,
        .token hgap hcut hfirst, hgap', h.imp_right ?_⟩
      rintro ⟨rfl, hbehind⟩
      exact ⟨by simp, hbehind⟩
  | void _ ih =>
    obtain ⟨first, draft, rest, front, gap, between, rfl, hvoid, hfirst, h⟩ := ih htrees
    exact ⟨.void :: first, draft, rest, front, gap, between, rfl, hvoid, .void hfirst, h⟩
  | @node next drafts inner gap trees children kind wraps before within after hgap hends hinner hrest
      _ ih =>
    rcases eq_or_split htrees with hmem | ⟨rfl, rfl, rfl⟩ | ⟨left', rfl, rfl⟩
    · refine ⟨[], _, drafts, [], gap, before, rfl, rfl, .nil, ?_, .inl hmem⟩
      rw [front_cons, front_node]
      exact hgap
    · refine ⟨[], _, drafts, [], left, before, rfl, rfl, .nil, ?_, .inr ⟨rfl, within,
        .node .none hends hinner .nil, hrest⟩⟩
      rw [front_cons, front_node]
      exact hgap
    · obtain ⟨first, draft, rest, front, gap', between, rfl, hvoid, hfirst, hgap', h⟩ := ih rfl
      rw [front_append] at hgap hinner
      refine ⟨.node kind wraps inner :: first, draft, rest, _, gap', between, rfl, hvoid,
        .node hgap hends hinner hfirst, hgap', h.imp_right ?_⟩
      rintro ⟨rfl, hbehind⟩
      exact ⟨by simp, hbehind⟩

/-- What is no trivia, or a node, is the tree of a draft. -/
theorem split_of_plain {left right : List Tree} {tree : Tree}
    (h : Spaced source next before drafts (left ++ tree :: right) after)
    (htree : tree.kind.isTrivia = false ∨ tree.isNode = true) :
    ∃ first draft rest front gap between within, drafts = first ++ draft :: rest ∧
      left = front ++ gap ∧ draft.isVoid = false ∧
      Spaced source (Draft.front (draft :: rest) next) before first front between ∧
      IsGap source (Draft.front (draft :: rest) next) between gap ∧
      Spaced source (Draft.front rest next) false [draft] [tree] within ∧
      Spaced source next within rest right after := by
  obtain ⟨first, draft, rest, front, gap, between, hdrafts, hvoid, hfirst, hgap, h⟩ := h.split
  rcases h with hmem | ⟨hleft, within, htree, hrest⟩
  · rcases htree with htrivia | hnode
    · rw [hgap.isTrivia tree hmem] at htrivia
      cases htrivia
    · rw [hgap.isNode_eq_false tree hmem] at hnode
      cases hnode
  · exact ⟨first, draft, rest, front, gap, between, within, hdrafts, hleft, hvoid, hfirst, hgap,
      htree, hrest⟩

/-- The tree of a draft of a node. -/
theorem of_node {draft : Draft} {kind : Kind} {children : List Tree}
    (h : Spaced source next false [draft] [.node kind children] after) :
    ∃ wraps inner, draft = .node kind wraps inner ∧ SameEnds inner children ∧
      Spaced source next false inner children after := by
  generalize htrees : [Tree.node kind children] = trees at h
  cases h with
  | token hgap =>
    cases hgap
    cases htrees
  | void h =>
    cases h
    cases htrees
  | node hgap hends hinner hrest =>
    cases hgap
    cases hrest
    cases htrees
    exact ⟨_, _, rfl, hends, hinner⟩

/-- The tree of a draft of a token. -/
theorem of_token {draft : Draft} {kind : Kind} {text : List Char}
    (h : Spaced source next false [draft] [.token kind text] after) :
    ∃ look asText, draft = .token look asText ∧ look.token.IsCut source look.mode ∧
      kind = (Draft.token look asText).kind ∧ text = look.token.range.slice source := by
  generalize htrees : [Tree.token kind text] = trees at h
  cases h with
  | token hgap hcut hrest =>
    cases hgap
    cases hrest
    cases htrees
    exact ⟨_, _, rfl, hcut, rfl, rfl⟩
  | void h =>
    cases h
    cases htrees
  | node hgap =>
    cases hgap
    cases htrees

/-- A tree has the kind of its draft. -/
theorem kind_eq {draft : Draft} {tree : Tree}
    (h : Spaced source next false [draft] [tree] after) : tree.kind = draft.kind := by
  cases tree with
  | token kind text =>
    obtain ⟨look, asText, rfl, -, hkind, -⟩ := h.of_token
    exact hkind
  | node kind children =>
    obtain ⟨wraps, inner, rfl, -⟩ := h.of_node
    rfl

/-- If the trivia in front of drafts is there already, then the first draft comes first. -/
theorem head?_kind_eq (h : Spaced source next before drafts trees after) (hbefore : before = false) :
    (trees.map Tree.kind).head? = (kinds drafts).head? := by
  induction h with
  | nil => rfl
  | token hgap =>
    subst hbefore
    cases hgap
    rfl
  | void _ ih => exact ih hbefore
  | node hgap =>
    subst hbefore
    cases hgap
    rfl

/-- Starts of nodes that were given up leave nothing behind. -/
theorem of_kinds_eq_nil (h : Spaced source next before drafts trees after)
    (hkinds : kinds drafts = []) : trees = [] ∧ after = before := by
  induction h with
  | nil => exact ⟨rfl, rfl⟩
  | token => cases hkinds
  | void _ ih => exact ih hkinds
  | node => cases hkinds

/-! ## Lines -/

/-- Where no line ends in front of drafts and none of them is trivia, no line ends between them. -/
theorem endsLine_eq_false (h : Spaced source next before drafts trees after)
    (hlined : LinedAll source .nowhere next drafts)
    (hsolid : ∀ kind ∈ kinds drafts, kind.isTrivia = false) :
    ∀ tree ∈ trees, tree.endsLine = false := by
  induction h with
  | nil => simp
  | @token next look drafts gap trees asText _ _ hgap _ _ ih =>
    obtain ⟨hjoins, -, hrest⟩ := linedAll_cons.1 hlined
    rw [kinds_token, List.forall_mem_cons] at hsolid
    refine List.forall_mem_append.2 ⟨hgap.endsLine_eq_false (hjoins rfl rfl),
      List.forall_mem_cons.2 ⟨?_, ih hrest hsolid.2⟩⟩
    have hspace : (Draft.token look asText).kind.isSpace = false :=
      Kind.isSpace_eq_false hsolid.1
    simp only [Tree.endsLine, hspace, Bool.false_and]
  | void _ ih => exact ih (linedAll_cons.1 hlined).2.2 hsolid
  | node hgap _ _ _ _ ih =>
    obtain ⟨hjoins, -, hrest⟩ := linedAll_cons.1 hlined
    have hjoins := hjoins rfl rfl
    rw [front_cons, front_node] at hjoins
    rw [kinds_node, List.forall_mem_cons] at hsolid
    exact List.forall_mem_append.2 ⟨hgap.endsLine_eq_false hjoins,
      List.forall_mem_cons.2 ⟨rfl, ih hrest hsolid.2⟩⟩

/-- Where no line ends in front of drafts, block markup still stands at the starts of lines. -/
theorem lineStarts {atStart : Bool} (h : Spaced source next before drafts trees after)
    (hlined : LinedAll source .nowhere next drafts)
    (hlines : Kind.LineStarts atStart (siblings drafts)) :
    Kind.LineStarts atStart (trees.map Tree.sibling) := by
  induction h generalizing atStart with
  | nil => trivial
  | @token next look drafts gap trees asText _ _ hgap hcut _ ih =>
    obtain ⟨hjoins, -, hrest⟩ := linedAll_cons.1 hlined
    rw [siblings_token] at hlines
    rw [List.map_append, List.map_cons, hcut.sibling_eq]
    exact .insert (hgap.siblings (hjoins rfl rfl)) ⟨hlines.1, ih hrest hlines.2⟩
  | void _ ih => exact ih (linedAll_cons.1 hlined).2.2 hlines
  | node hgap _ _ _ _ ih =>
    obtain ⟨hjoins, -, hrest⟩ := linedAll_cons.1 hlined
    have hjoins := hjoins rfl rfl
    rw [front_cons, front_node] at hjoins
    rw [siblings_node] at hlines
    rw [List.map_append, List.map_cons]
    exact .insert (hgap.siblings hjoins) ⟨hlines.1, ih hrest hlines.2⟩

/-! ## Ends -/

/-- If the trivia in front of drafts is there already, then their first token comes first. -/
theorem head?_leaf (h : Spaced source next before drafts trees after) (hbefore : before = false) :
    (leavesAll drafts = [] → after = false ∧ Tree.tokensAll trees = []) ∧
      ∀ l ∈ (leavesAll drafts).head?, ∃ asText : Bool, (Tree.tokensAll trees).head? =
        some ((Draft.token l asText).kind, l.token.range.slice source) := by
  induction h with
  | nil => exact ⟨fun _ => ⟨hbefore, rfl⟩, by simp [leavesAll]⟩
  | @token _ look drafts gap trees asText _ _ hgap =>
    subst hbefore
    cases hgap
    refine ⟨by simp [leavesAll, leaves], fun l hl => ?_⟩
    obtain rfl : look = l := Option.some.inj hl
    exact ⟨asText, rfl⟩
  | void _ ih => exact ih hbefore
  | @node _ drafts inner gap trees children kind wraps _ within after hgap _ _ _ ihinner ih =>
    subst hbefore
    cases hgap
    obtain ⟨hnone, hsome⟩ := ihinner rfl
    have hleaves : leavesAll (.node kind wraps inner :: drafts) =
        leavesAll inner ++ leavesAll drafts := rfl
    rw [hleaves, List.nil_append, Tree.tokensAll, Tree.tokens]
    cases hfirst : leavesAll inner with
    | nil =>
      -- Without tokens in the node, the next one comes first.
      obtain ⟨hwithin, htokens⟩ := hnone hfirst
      rw [htokens]
      exact ih hwithin
    | cons first rest =>
      refine ⟨by simp, fun l hl => ?_⟩
      obtain rfl : first = l := Option.some.inj hl
      obtain ⟨asText, htokens⟩ := hsome first (by rw [hfirst]; rfl)
      exact ⟨asText, by rw [List.head?_append, htokens]; rfl⟩

/-- If the trivia behind drafts is there already, then the trees end with it. -/
theorem trails (h : Spaced source next before drafts trees after) (hafter : after = false)
    (hsome : before = true ∨ leavesAll drafts ≠ []) :
    ∃ rest, Tree.tokensAll trees =
      rest ++ Tree.tokensAll (next.trivia.map (Trivia.toTree source)) := by
  induction h with
  | nil =>
    rcases hsome with hbefore | hnone
    · rw [hafter] at hbefore
      cases hbefore
    · exact absurd rfl hnone
  | token _ _ _ ih =>
    obtain ⟨rest, htokens⟩ := ih hafter (.inl rfl)
    rw [Tree.tokensAll_append, Tree.tokensAll, htokens, ← List.append_assoc, ← List.append_assoc]
    exact ⟨_, rfl⟩
  | void _ ih => exact ih hafter hsome
  | @node next drafts inner gap trees children kind wraps before within after hgap _ hinner hrest
      ihinner ih =>
    rw [Tree.tokensAll_append, Tree.tokensAll, Tree.tokens]
    by_cases hbehind : within = true ∨ leavesAll drafts ≠ []
    · obtain ⟨rest, htokens⟩ := ih hafter hbehind
      rw [htokens, ← List.append_assoc, ← List.append_assoc]
      exact ⟨_, rfl⟩
    · -- Behind the node come no tokens, and the trivia stands in the node, or in front of it if
      -- there are no tokens in it.
      rw [not_or, Bool.not_eq_true, not_not] at hbehind
      obtain ⟨hwithin, hnone⟩ := hbehind
      have hfront : front drafts next = next := by
        unfold front
        rw [hnone]
        rfl
      rw [((hrest.head?_leaf hwithin).1 hnone).2, List.append_nil]
      cases hleaves : leavesAll inner with
      | cons =>
        obtain ⟨rest, htokens⟩ := ihinner hwithin (.inr (by simp [hleaves]))
        rw [htokens, hfront, ← List.append_assoc]
        exact ⟨_, rfl⟩
      | nil =>
        have hall : leavesAll (.node kind wraps inner :: drafts) = [] := by
          rw [leavesAll, leaves, hleaves, hnone, List.nil_append]
        obtain rfl : before = true := hsome.resolve_right (fun hne => hne hall)
        have hfront : front inner (front drafts next) = next := by
          rw [hfront]
          unfold front
          rw [hleaves]
          rfl
        rw [((hinner.head?_leaf rfl).1 hleaves).2, List.append_nil]
        rw [hfront] at hgap
        cases hgap
        exact ⟨[], rfl⟩

end Spaced

end TypstFormat
