import TypstFormat.Proofs.Grammar.Origin

/-!
# Block markup in trees

Headings and items stand at the start of a line in a tree, as they do in the drafts that the tree was
built of: no line ends in the gaps of markup, so that what is in front of them is told by the tokens
of the grammar alone (`Spaced.lineStarts`). Their markers come first in them, and stand nowhere else.

## Key results

- `Tree.startsLine_of_foldl`: where block markup may stand, a line starts
- `Parsed.NodeOf.marked`: markers come first in their nodes
- `parse_block_markup`: where headings, items and their markers stand
-/

namespace TypstFormat

open Draft

namespace Kind

theorem isTrivia_iff {kind : Kind} : kind.isTrivia = true ↔
    kind = .space ∨ kind = .parbreak ∨ kind = .lineComment ∨ kind = .blockComment := by
  cases kind <;> simp [isTrivia]

theorem isSome_marker?_of_mem : ∀ kind ∈ [Kind.heading, .listItem, .enumItem, .termItem],
    kind.marker?.isSome = true ∧ kind.isTrivia = false := by
  decide

theorem isMarker_of_mem : ∀ kind ∈ [Kind.headingMarker, .listMarker, .enumMarker, .termMarker],
    kind.isMarker = true ∧ kind.isTrivia = false := by
  decide

end Kind

namespace Tree

/-- White space in which no line ends, or a comment. -/
def isBlank : Tree → Bool
  | .token .space text => !text.any Text.isLineBreak
  | .token .lineComment _ | .token .blockComment _ => true
  | _ => false

/-- Behind these siblings a line starts: there is nothing but blanks and comments, back to white
space in which a line ends or to the first of them, if that is at the start of a line. -/
def StartsLine (atStart : Bool) (siblings : List Tree) : Prop :=
  ∃ front blanks, siblings = front ++ blanks ∧ (∀ blank ∈ blanks, blank.isBlank = true) ∧
    (front = [] ∧ atStart = true ∨ ∃ last ∈ front.getLast?, last.endsLine = true)

/-- Headings and items stand at the start of a line. -/
def BlocksStartLines (atStart : Bool) (children : List Tree) : Prop :=
  ∀ before tree behind, children = before ++ tree :: behind →
    tree.kind ∈ [.heading, .listItem, .enumItem, .termItem] → StartsLine atStart before

/-- All trivia is a blank, a comment, or white space in which a line ends. -/
def PlainTrivia (trees : List Tree) : Prop :=
  ∀ tree ∈ trees, tree.kind.isTrivia = true → tree.endsLine = true ∨ tree.isBlank = true

/-- Where block markup may stand, a line starts. -/
theorem startsLine_of_foldl {atStart : Bool} {trees : List Tree} (hplain : PlainTrivia trees)
    (h : (trees.map sibling).foldl Kind.staysAtStart atStart = true) : StartsLine atStart trees := by
  induction trees using List.reverseRecOn with
  | nil => exact ⟨[], [], rfl, by simp, .inl ⟨rfl, h⟩⟩
  | append_singleton trees tree ih =>
    have hplain := List.forall_mem_append.1 hplain
    rw [List.map_append, List.foldl_append] at h
    rcases Bool.or_eq_true_iff.1 h with hends | h
    · exact ⟨trees ++ [tree], [], (List.append_nil _).symm, by simp,
        .inr ⟨tree, by simp, hends⟩⟩
    · obtain ⟨h, htrivia⟩ := Bool.and_eq_true_iff.1 h
      rcases List.forall_mem_singleton.1 hplain.2 htrivia with hends | hblank
      · exact ⟨trees ++ [tree], [], (List.append_nil _).symm, by simp,
          .inr ⟨tree, by simp, hends⟩⟩
      · obtain ⟨front, blanks, rfl, hblanks, hfront⟩ := ih hplain.1 h
        refine ⟨front, blanks ++ [tree], List.append_assoc .., ?_, hfront⟩
        exact List.forall_mem_append.2 ⟨hblanks, List.forall_mem_singleton.2 hblank⟩

theorem blocksStartLines_of_lineStarts {atStart : Bool} {children : List Tree}
    (hplain : PlainTrivia children) (h : Kind.LineStarts atStart (children.map sibling)) :
    BlocksStartLines atStart children := by
  rintro before tree behind rfl hkind
  rw [List.map_append, Kind.lineStarts_append] at h
  have hmarker := (Kind.isSome_marker?_of_mem _ hkind).1
  exact startsLine_of_foldl (List.forall_mem_append.1 hplain).1 (h.2.1 hmarker)

end Tree

/-- A piece of trivia is a blank, a comment, or white space in which a line ends. -/
theorem Token.IsCut.plainTrivia {source : List Char} {mode : Mode} {token : Token}
    (h : token.IsCut source mode) (htrivia : token.kind.isTrivia = true) :
    (Tree.token token.kind (token.range.slice source)).endsLine = true ∨
      (Tree.token token.kind (token.range.slice source)).isBlank = true := by
  have hends := h.endsLine
  rcases Kind.isTrivia_iff.1 htrivia with hkind | hkind | hkind | hkind
  · rw [hkind]
    cases hbreak : (token.range.slice source).any Text.isLineBreak with
    | true => exact .inl hbreak
    | false => exact .inr (by rw [Tree.isBlank, hbreak]; rfl)
  · rw [h.containsNewline_of_parbreak hkind, hkind] at hends
    exact .inl (hkind ▸ hends)
  · exact .inr (by rw [hkind]; rfl)
  · exact .inr (by rw [hkind]; rfl)

/-- Trivia in gaps, and trivia that is a token of markup, was cut out of the source. -/
theorem Spaced.plainTrivia {source : List Char} {next : Look} {drafts : List Draft}
    {trees : List Tree} {before after : Bool} (h : Spaced source next before drafts trees after)
    (hproper : ProperAll drafts) : Tree.PlainTrivia trees := by
  intro tree hmem htrivia
  obtain ⟨left, right, rfl⟩ := List.append_of_mem hmem
  obtain ⟨first, draft, rest, front, gap, between, rfl, -, -, hgap, h⟩ := h.split
  rcases h with hmem | ⟨-, within, htree, -⟩
  · cases hgap with
    | none => cases hmem
    | all hcovers =>
      obtain ⟨piece, hpiece, rfl⟩ := List.mem_map.1 hmem
      obtain ⟨-, token, hcut, rfl⟩ := hcovers.isTrivia piece hpiece
      exact hcut.plainTrivia htrivia
  · cases tree with
    | token kind text =>
      obtain ⟨look, asText, rfl, hcut, rfl, rfl⟩ := htree.of_token
      cases asText with
      | true => cases htrivia
      | false => exact hcut.plainTrivia htrivia
    | node kind children =>
      obtain ⟨wraps, inner, rfl, -, -⟩ := htree.of_node
      have hnode := (proper_of_mem hproper (List.mem_append_right _ List.mem_cons_self)).1
      have hnone : kind.isTrivia = false := Kind.isTrivia_of_isNode hnode
      exact absurd htrivia (Bool.eq_false_iff.1 hnone)

/-! ## Markers -/

namespace Kind

/-- The kinds of the markers of a heading and of items. -/
theorem isMarker_of_marker? {kind marker : Kind} (h : kind.marker? = some marker) :
    marker.isMarker = true := by
  cases kind <;> cases h <;> rfl

/-- The root has no marker. -/
theorem ne_rootKind {kind : Kind} (h : kind.marker?.isSome = true) (mode : Mode) :
    kind ≠ mode.rootKind := by
  rintro rfl
  cases mode <;> cases h

/-- What has the same markers, and starts with its marker, is marked as well. -/
theorem Marked.of_filter {marker : Option Kind} {own kinds : List Kind} (h : Marked marker own)
    (hmarker : ∀ kind ∈ marker, kind.isMarker = true)
    (hfilter : kinds.filter isMarker = own.filter isMarker)
    (hhead : marker.isSome = true → kinds.head? = own.head?) : Marked marker kinds := by
  obtain ⟨rest, rfl, hrest⟩ := h
  have hnone : rest.filter isMarker = [] :=
    List.filter_eq_nil_iff.2 fun kind hkind => by simp [hrest kind hkind]
  rw [List.filter_append, hnone, List.append_nil] at hfilter
  cases marker with
  | none =>
    have hkinds := List.filter_eq_nil_iff.1 hfilter
    exact ⟨kinds, rfl, fun kind hkind => Bool.eq_false_iff.2 (hkinds kind hkind)⟩
  | some marker =>
    cases kinds with
    | nil => cases hhead rfl
    | cons first kinds =>
      obtain rfl : first = marker := Option.some.inj (hhead rfl)
      rw [List.filter_cons_of_pos (hmarker first rfl), Option.toList,
        List.filter_cons_of_pos (hmarker first rfl)] at hfilter
      have hkinds := List.filter_eq_nil_iff.1 (List.cons.inj hfilter).2
      exact ⟨kinds, rfl, fun kind hkind => Bool.eq_false_iff.2 (hkinds kind hkind)⟩

/-- A marker among marked kinds comes first, and is the one of the node. -/
theorem Marked.eq_of_mem {marker : Option Kind} {before behind : List Kind} {kind : Kind}
    (h : Marked marker (before ++ kind :: behind)) (hkind : kind.isMarker = true) :
    before = [] ∧ marker = some kind := by
  obtain ⟨rest, hkinds, hrest⟩ := h
  have hmem (hmem : kind ∈ rest) : False := by
    rw [hrest kind hmem] at hkind
    cases hkind
  cases marker with
  | none =>
    have hkinds : before ++ kind :: behind = rest := hkinds
    exact (hmem (hkinds ▸ List.mem_append_right _ List.mem_cons_self)).elim
  | some marker =>
    have hkinds : before ++ kind :: behind = marker :: rest := hkinds
    cases before with
    | nil =>
      obtain ⟨rfl, -⟩ := List.cons.inj hkinds
      exact ⟨rfl, rfl⟩
    | cons first before =>
      obtain ⟨-, rfl⟩ := List.cons.inj hkinds
      exact (hmem (List.mem_append_right _ List.mem_cons_self)).elim

end Kind

/-! ## The nodes of a tree -/

namespace Parsed.NodeOf

variable {parsed : Parsed} {breaks : Breaks} {offset : Nat} {kind : Kind} {inner : List Draft}
  {children : List Tree}

theorem plainTrivia (h : parsed.NodeOf breaks offset kind inner children) :
    Tree.PlainTrivia children := by
  obtain ⟨_, _, _, _, _, hspaced, _⟩ := h.spaced
  exact hspaced.plainTrivia h.proper

/-- Block markup stands at the starts of lines in markup if it does so in the drafts. -/
theorem blocksStartLines (h : parsed.NodeOf breaks offset .markup inner children) {atStart : Bool}
    (hlines : Kind.LineStarts atStart (siblings inner)) : Tree.BlocksStartLines atStart children := by
  obtain ⟨_, _, _, _, _, hspaced, hlined, _⟩ := h.spaced
  have hinside : breaks.inside .markup = .nowhere := if_pos rfl
  have hlined := (lined_node.1 hlined).1
  rw [hinside] at hlined
  exact Tree.blocksStartLines_of_lineStarts h.plainTrivia (hspaced.lineStarts hlined hlines)

/-- Markers come first in the nodes that they are the markers of. -/
theorem marked (h : parsed.NodeOf breaks offset kind inner children) :
    Kind.Marked kind.marker? (children.map Tree.kind) := by
  obtain ⟨_, before, _, _, _, hspaced, _, _, _, hroot⟩ := h.spaced
  refine h.neat.1.marked.of_filter (fun _ => Kind.isMarker_of_marker?) ?_
    fun hmarker => hspaced.head?_kind_eq (Bool.eq_false_iff.2 fun hbefore => ?_)
  · exact hspaced.filter_kinds_eq fun _ => Kind.isMarker_of_isTrivia
  · -- Only the root has trivia in front, and it has no marker.
    exact Kind.ne_rootKind hmarker parsed.mode (hroot hbefore)

end Parsed.NodeOf

/-- Block markup stays at the starts of lines if nothing but trivia comes behind it. -/
theorem Parsed.IsEnd.blocksStartLines {parsed : Parsed} {kind : Kind} {gap trees : List Tree}
    {atStart : Bool} (h : parsed.IsEnd kind gap) (htrees : Tree.BlocksStartLines atStart trees) :
    Tree.BlocksStartLines atStart (trees ++ gap) := by
  intro before tree behind heq hkind
  have htrivia := (Kind.isSome_marker?_of_mem _ hkind).2
  obtain ⟨rest, htree, -⟩ := h.split heq (.inl htrivia)
  exact htrees before tree rest htree hkind

/-- In all markup, headings and items stand at the start of a line: behind blanks and comments comes
white space in which a line ends, or the start of the markup, if the markup is the root or stands
between brackets. Their markers come first in them, and nowhere else. -/
theorem parse_block_markup (source : List Char) (mode : Mode) :
    ∃ parsed, parse source mode = .ok parsed ∧
      (∀ children, parsed.tree = .node .markup children → Tree.BlocksStartLines true children) ∧
      ∀ node ∈ parsed.tree.nodes,
        (∀ children, .node .markup children ∈ node.2 →
          Tree.BlocksStartLines (node.1 = .contentBlock) children) ∧
        ∀ before kind text behind, node.2 = before ++ .token kind text :: behind →
          kind ∈ [.headingMarker, .listMarker, .enumMarker, .termMarker] →
          before = [] ∧ node.1.marker? = some kind := by
  obtain ⟨parsed, drafts, hparse, _, _, hbuilt⟩ := parse_eq_ok source mode
  refine ⟨parsed, hparse, fun children htree => ?_, fun node hnode => ?_⟩
  · obtain ⟨trees, gap, hroot, hgap, hnode⟩ := hbuilt.exists_root
    rw [htree] at hroot
    obtain ⟨hkind, rfl⟩ := Tree.node.inj hroot
    rw [← hkind] at hgap hnode
    exact hgap.blocksStartLines (hnode.blocksStartLines (hnode.neat.1.lines rfl))
  · obtain ⟨trees, gap, breaks, offset, inner, hchildren, hgap, hnode⟩ := hbuilt.exists_nodeOf hnode
    rw [hchildren]
    refine ⟨fun children hmem => ?_, fun before kind text behind htrees hkind => ?_⟩
    · rcases List.mem_append.1 hmem with hmem | hmem
      · obtain ⟨left, right, htrees⟩ := List.append_of_mem hmem
        obtain ⟨wraps, body, hbody, hmarkup⟩ := hnode.child htrees
        refine hmarkup.blocksStartLines ?_
        by_cases hcontent : node.1 = .contentBlock
        · rw [decide_eq_true hcontent]
          exact hmarkup.neat.1.lines rfl
        · rw [decide_eq_false hcontent]
          exact hnode.neat.1.bodies hcontent wraps body hbody
      · cases hgap.isNode _ hmem
    · obtain ⟨hmarker, htrivia⟩ := Kind.isMarker_of_mem kind hkind
      obtain ⟨rest, rfl, -⟩ := hgap.split htrees (.inl htrivia)
      have hmarked := hnode.marked
      rw [List.map_append, List.map_cons] at hmarked
      obtain ⟨hbefore, hown⟩ := hmarked.eq_of_mem hmarker
      exact ⟨List.map_eq_nil_iff.1 hbefore, hown⟩

end TypstFormat
