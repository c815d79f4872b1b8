import TypstFormat.Proofs.Grammar.Delimiters

/-!
# Where nodes come from

Every node of the tree of a source was the draft of a node (`Parsed.NodeOf`), so that what is known of
drafts is known of it: how it is arranged, where lines end in it, and where it stands in the source. A
node in another one was a draft in the draft of the other one, and all nodes are reached that way from
the root. Behind what is in the root, the trivia at the end of the source may follow.

## Key results

- `Parsed.NodeOf.child`: a node in another one
- `Parsed.BuiltOf.exists_nodeOf`: all nodes of a tree
-/

namespace TypstFormat

open Draft

/-- The children of a node, which stands at an offset of the source, were the drafts in the draft of
the node, in which lines end only where they may. Only in the root, trivia stands in front of them. -/
structure Parsed.NodeOf (parsed : Parsed) (breaks : Breaks) (offset : Nat) (kind : Kind)
    (inner : List Draft) (children : List Tree) : Prop where
  spaced : ∃ next before after start stop,
    Spaced parsed.source next before inner children after ∧
    Lined parsed.source breaks next (.node kind false inner) ∧
    Runs parsed.source start inner next stop ∧ (front inner next).entry before start = offset ∧
    (before = true → kind = parsed.mode.rootKind)
  proper : ProperAll inner
  neat : Neat (.node kind false inner)
  sound : parsed.diagnostics = [] → Sound (.node kind false inner)

namespace Draft

theorem proper_of_mem {drafts : List Draft} (h : ProperAll drafts) {draft : Draft}
    (hmem : draft ∈ drafts) : Proper draft := by
  obtain ⟨before, behind, rfl⟩ := List.append_of_mem hmem
  exact ((properAll_append _ _).1 h).2.1

theorem neat_of_mem {drafts : List Draft} (h : NeatAll drafts) {draft : Draft}
    (hmem : draft ∈ drafts) : Neat draft := by
  obtain ⟨before, behind, rfl⟩ := List.append_of_mem hmem
  exact ((neatAll_append _ _).1 h).2.1

theorem sound_of_mem {drafts : List Draft} (h : SoundAll drafts) {draft : Draft}
    (hmem : draft ∈ drafts) : Sound draft := by
  obtain ⟨before, behind, rfl⟩ := List.append_of_mem hmem
  exact ((soundAll_append _ _).1 h).2.1

end Draft

namespace Parsed.NodeOf

variable {parsed : Parsed} {breaks : Breaks} {offset : Nat} {kind : Kind} {inner : List Draft}
  {children : List Tree}

/-- A tree in a node was a draft if it is no trivia, or if a line ends in it where no line may end in
front of a draft. It stands behind the trees in front of it. -/
theorem exists_draft (h : parsed.NodeOf breaks offset kind inner children) {left right : List Tree}
    {tree : Tree} (hchildren : children = left ++ tree :: right)
    (htree : (tree.kind.isTrivia = false ∨ tree.isNode = true) ∨
      breaks.inside kind = .nowhere ∧ tree.endsLine = true) :
    ∃ draft ∈ inner, ∃ next within start stop,
      Spaced parsed.source next false [draft] [tree] within ∧
      Lined parsed.source (breaks.inside kind) next draft ∧
      Runs parsed.source start [draft] next stop ∧
      offset + Tree.lengthAll left = (front [draft] next).token.range.start := by
  obtain ⟨next, before, after, start, stop, hspaced, hlined, hruns, rfl, -⟩ := h.spaced
  subst hchildren
  obtain ⟨first, draft, rest, behind, gap, between, rfl, hvoid, hfirst, hgap, htree'⟩ := hspaced.split
  obtain ⟨hjoins, hlined, -⟩ := linedAll_cons.1 (linedAll_append.1 (lined_node.1 hlined).1).2
  have hmem : tree ∉ gap := by
    intro hmem
    rcases htree with (htrivia | hnode) | ⟨hnowhere, hends⟩
    · rw [hgap.isTrivia tree hmem] at htrivia
      cases htrivia
    · rw [hgap.isNode_eq_false tree hmem] at hnode
      cases hnode
    · rw [hgap.endsLine_eq_false (hjoins hnowhere hvoid) tree hmem] at hends
      cases hends
  obtain ⟨rfl, within, htree', -⟩ := htree'.resolve_left hmem
  obtain ⟨middle, hruns₁, hruns₂⟩ := hruns.of_append
  have hruns₂ : Runs parsed.source middle ([draft] ++ rest) next stop := hruns₂
  obtain ⟨last, hruns₃, -⟩ := hruns₂.of_append
  refine ⟨draft, by simp, _, within, middle, last, htree', hlined, hruns₃, ?_⟩
  rw [front_append, Tree.lengthAll_append, ← Nat.add_assoc, hfirst.lengthAll_eq hruns₁,
    hgap.lengthAll_eq hruns₂.covers, ← front_append, List.singleton_append]

/-- A node in another one was a draft in the draft of the other one. -/
theorem child (h : parsed.NodeOf breaks offset kind inner children) {left right : List Tree}
    {own : Kind} {grandchildren : List Tree}
    (hchildren : children = left ++ .node own grandchildren :: right) :
    ∃ wraps drafts, .node own wraps drafts ∈ inner ∧
      parsed.NodeOf (breaks.inside kind) (offset + Tree.lengthAll left) own drafts grandchildren := by
  obtain ⟨draft, hmem, next, within, start, stop, htree, hlined, hruns, hoffset⟩ :=
    h.exists_draft hchildren (.inl (.inr rfl))
  obtain ⟨wraps, drafts, rfl, hends, hdrafts⟩ := htree.of_node
  have hruns : Runs parsed.source start drafts next stop :=
    ⟨hruns.le, by simpa [leavesAll, leaves] using hruns.path, hruns.covers_next⟩
  rw [front_node] at hoffset
  have hneat := neat_of_mem h.neat.2 hmem
  have hsound := fun hclean => sound_of_mem (h.sound hclean).2 hmem
  exact ⟨wraps, drafts, hmem, ⟨next, false, within, start, stop, hdrafts,
    lined_node.2 (lined_node.1 hlined), hruns, hoffset.symm, nofun⟩, (proper_of_mem h.proper hmem).2.2,
    ⟨hneat.1, hneat.2⟩, fun hclean => ⟨(hsound hclean).1, (hsound hclean).2⟩⟩

/-- All nodes that stand in a node. -/
def Holds (parsed : Parsed) (trees : List Tree) : Prop :=
  ∀ kind children, .node kind children ∈ trees →
    ∃ breaks offset inner, parsed.NodeOf breaks offset kind inner children

theorem holds (h : parsed.NodeOf breaks offset kind inner children) : Holds parsed children := by
  intro own grandchildren hmem
  obtain ⟨left, right, hchildren⟩ := List.append_of_mem hmem
  obtain ⟨_, drafts, -, hown⟩ := h.child hchildren
  exact ⟨_, _, drafts, hown⟩

mutual

theorem of_mem_nodes {node : Kind × List Tree} : (tree : Tree) → Holds parsed [tree] →
    node ∈ tree.nodes → ∃ breaks offset inner, parsed.NodeOf breaks offset node.1 inner node.2
  | .token .., _, hnode => nomatch hnode
  | .node kind children, h, hnode => by
    obtain ⟨breaks, offset, inner, hown⟩ := h kind children List.mem_cons_self
    rcases List.mem_cons.1 hnode with rfl | hnode
    · exact ⟨breaks, offset, inner, hown⟩
    · exact of_mem_nodesAll children hown.holds hnode

/-- What is known of the nodes among trees is known of all nodes below them. -/
theorem of_mem_nodesAll {node : Kind × List Tree} : (trees : List Tree) → Holds parsed trees →
    node ∈ Tree.nodesAll trees →
    ∃ breaks offset inner, parsed.NodeOf breaks offset node.1 inner node.2
  | [], _, hnode => nomatch hnode
  | tree :: trees, h, hnode => by
    rcases List.mem_append.1 hnode with hnode | hnode
    · exact of_mem_nodes tree (fun kind children hmem =>
        h kind children (List.mem_singleton.1 hmem ▸ List.mem_cons_self)) hnode
    · exact of_mem_nodesAll trees (fun kind children hmem =>
        h kind children (List.mem_cons_of_mem _ hmem)) hnode

end

end Parsed.NodeOf

/-- What stands behind the drafts of a node: nothing, or the trivia at the end of the source. -/
structure Parsed.IsEnd (parsed : Parsed) (kind : Kind) (gap : List Tree) : Prop where
  isTrivia : ∀ tree ∈ gap, tree.kind.isTrivia = true
  isNode : ∀ tree ∈ gap, tree.isNode = false
  root : gap ≠ [] → kind = parsed.mode.rootKind

/-- What is no trivia stands in front of the trivia at the end of the source. -/
theorem Parsed.IsEnd.split {parsed : Parsed} {kind : Kind} {gap trees before behind : List Tree}
    {tree : Tree} (h : parsed.IsEnd kind gap) (htrees : trees ++ gap = before ++ tree :: behind)
    (htree : tree.kind.isTrivia = false ∨ tree.isNode = true) :
    ∃ rest, trees = before ++ tree :: rest ∧ behind = rest ++ gap := by
  have hmem : tree ∉ gap := by
    intro hmem
    rcases htree with htrivia | hnode
    · rw [h.isTrivia tree hmem] at htrivia
      cases htrivia
    · rw [h.isNode tree hmem] at hnode
      cases hnode
  rcases List.append_eq_append_iff.1 htrees with ⟨between, rfl, hgap⟩ | ⟨between, rfl, hrest⟩
  · exact absurd (hgap ▸ List.mem_append_right _ List.mem_cons_self) hmem
  · cases between with
    | nil => exact absurd ((show tree :: behind = gap from hrest) ▸ List.mem_cons_self) hmem
    | cons first between =>
      obtain ⟨rfl, rfl⟩ := List.cons.inj hrest
      exact ⟨between, rfl, rfl⟩

namespace Parsed.BuiltOf

variable {parsed : Parsed} {drafts : List Draft}

/-- The root of the tree was a draft of a node as well. -/
theorem exists_root (h : parsed.BuiltOf drafts) :
    ∃ trees gap, parsed.tree = .node parsed.mode.rootKind (trees ++ gap) ∧
      parsed.IsEnd parsed.mode.rootKind gap ∧
      parsed.NodeOf .anywhere 0 parsed.mode.rootKind drafts trees := by
  obtain ⟨trees, gap, last, toCome, stop, htree, hspaced, hgap, hlined, hruns⟩ := h.spaced
  exact ⟨trees, gap, htree, ⟨hgap.isTrivia, hgap.isNode_eq_false, fun _ => rfl⟩,
    ⟨last, true, toCome, 0, stop, hspaced, hlined, hruns, rfl, fun _ => rfl⟩, h.proper, h.neat,
    h.sound⟩

/-- Every node of the tree was a draft of a node. -/
theorem exists_nodeOf (h : parsed.BuiltOf drafts) {node : Kind × List Tree}
    (hnode : node ∈ parsed.tree.nodes) :
    ∃ trees gap breaks offset inner, node.2 = trees ++ gap ∧ parsed.IsEnd node.1 gap ∧
      parsed.NodeOf breaks offset node.1 inner trees := by
  obtain ⟨trees, gap, htree, hgap, hroot⟩ := h.exists_root
  rw [htree] at hnode
  rcases List.mem_cons.1 hnode with rfl | hnode
  · exact ⟨trees, gap, .anywhere, 0, drafts, rfl, hgap, hroot⟩
  · have hholds : NodeOf.Holds parsed (trees ++ gap) := by
      intro kind children hmem
      rcases List.mem_append.1 hmem with hmem | hmem
      · exact hroot.holds kind children hmem
      · cases hgap.isNode _ hmem
    obtain ⟨breaks, offset, inner, hown⟩ := NodeOf.of_mem_nodesAll _ hholds hnode
    exact ⟨node.2, [], breaks, offset, inner, (List.append_nil _).symm,
      ⟨by simp, by simp, fun hne => absurd rfl hne⟩, hown⟩

end Parsed.BuiltOf

end TypstFormat
