import TypstFormat.Proofs.Grammar.Document

/-!
# Delimiters are closed

Without diagnostics, every node of a tree that is written between two delimiters starts with the one
and ends with the other, and every opening parenthesis has a closing one behind it in its node. The
grammar sees to that for drafts (`Draft.Formed`), and a draft grows into a tree that starts and ends
with the same tokens, with nothing but trivia in between.

The empty dictionary is an exception. Its colon and its closing parenthesis are seen from the
opening one across line breaks, but where a line break ends the code they cannot be consumed, and
nothing is reported.

## Key results

- `Grown.exists_draft`: every node of a tree has grown out of a node of its drafts
- `parse_delimiters_closed`: without diagnostics delimiters are closed, but for empty dictionaries
- `parse_dict_cut_short`: an empty dictionary that is not
-/

namespace TypstFormat

namespace Tree

mutual

/-- The nodes of a tree, each with its kind and its children. -/
def nodes : Tree → List (Kind × List Tree)
  | token .. => []
  | node kind children => (kind, children) :: nodesAll children

/-- The nodes of several trees. -/
def nodesAll : List Tree → List (Kind × List Tree)
  | [] => []
  | tree :: trees => nodes tree ++ nodesAll trees

end

/-- What is opened in a node is closed in it: the node stands between its delimiters, if it has
some, and behind every opening parenthesis among its children comes a closing one. -/
structure Delimited (kind : Kind) (children : List Tree) : Prop where
  delimiters : ∀ ends ∈ kind.delimiters?, Between ends.1 ends.2 (children.map Tree.kind)
  parens : ParensClosed (children.map Tree.kind)

/-- The node is the beginning of an empty dictionary, perhaps with trivia in it. -/
def CutShort (kind : Kind) (children : List Tree) : Prop :=
  IsCutShort kind ((children.map Tree.kind).filter (!·.isTrivia))

end Tree

namespace Draft

mutual

/-- The nodes of a draft, each with its kind and its children. -/
def nodes : Draft → List (Kind × List Draft)
  | token .. => []
  | void => []
  | node kind _ children => (kind, children) :: nodesAll children

/-- The nodes of several drafts. -/
def nodesAll : List Draft → List (Kind × List Draft)
  | [] => []
  | draft :: drafts => nodes draft ++ nodesAll drafts

end

mutual

theorem formed_of_mem_nodes {node : Kind × List Draft} : (draft : Draft) → draft.Sound →
    node ∈ draft.nodes → Formed node.1 node.2
  | .token .., _, h => nomatch h
  | .void, _, h => nomatch h
  | .node _ _ children, hsound, h => by
    rcases List.mem_cons.1 h with rfl | h
    · exact hsound.1
    · exact formed_of_mem_nodesAll children hsound.2 h

/-- All nodes of sound drafts are formed. -/
theorem formed_of_mem_nodesAll {node : Kind × List Draft} : (drafts : List Draft) →
    SoundAll drafts → node ∈ nodesAll drafts → Formed node.1 node.2
  | [], _, h => nomatch h
  | draft :: drafts, hsound, h => by
    rcases List.mem_append.1 h with h | h
    · exact formed_of_mem_nodes draft hsound.1 h
    · exact formed_of_mem_nodesAll drafts hsound.2 h

end

end Draft

/-- Two kinds stand at the ends if they come first and last and are not one and the same. -/
theorem Between.of_ends {first last : Kind} {kinds : List Kind} (hfirst : kinds.head? = some first)
    (hlast : kinds.getLast? = some last) (hlength : 2 ≤ kinds.length) :
    Between first last kinds := by
  obtain ⟨rest, rfl⟩ : ∃ rest, kinds = first :: rest := by
    cases kinds with
    | nil => cases hfirst
    | cons kind rest => exact ⟨rest, by rw [Option.some.inj hfirst]⟩
  have hrest : rest ≠ [] := by
    rintro rfl
    simp at hlength
  rw [List.getLast?_cons_of_ne_nil hrest] at hlast
  exact ⟨rest.dropLast, by rw [List.dropLast_append_getLast? _ hlast]⟩

theorem Between.ends {first last : Kind} {kinds : List Kind} (h : Between first last kinds) :
    kinds.head? = some first ∧ kinds.getLast? = some last ∧ 2 ≤ kinds.length := by
  obtain ⟨inner, rfl⟩ := h
  refine ⟨rfl, ?_, ?_⟩
  · rw [← List.cons_append, List.getLast?_concat]
  · simp

namespace Grown

variable {source : List Char} {drafts : List Draft} {trees : List Tree}

/-- Delimiters stay where they are: trivia comes neither first nor last. -/
theorem between (h : Grown source drafts trees) (hends : SameEnds drafts trees) {first last : Kind}
    (hbetween : Between first last (Draft.kinds drafts)) :
    Between first last (trees.map Tree.kind) := by
  obtain ⟨hfirst, hlast, hlength⟩ := hbetween.ends
  refine .of_ends ?_ ?_ (Nat.le_trans hlength h.kinds_sublist.length_le)
  · rw [hends.head?_eq, hfirst]
  · rw [hends.getLast?_eq, hlast]

/-- Trivia neither opens a parenthesis nor hides the closing one. -/
theorem parensClosed (h : Grown source drafts trees)
    (hparens : ParensClosed (Draft.kinds drafts)) : ParensClosed (trees.map Tree.kind) := by
  induction h with
  | nil => trivial
  | @trivia _ _ _ token _ _ htrivia _ ih =>
    refine ⟨fun hkind => ?_, ih hparens⟩
    have hkind : token.kind = .leftParen := hkind
    rw [hkind] at htrivia
    cases htrivia
  | token _ hrest ih =>
    rw [Draft.kinds_token] at hparens
    exact ⟨fun hkind => hrest.kinds_sublist.subset (hparens.1 hkind), ih hparens.2⟩
  | void _ ih => exact ih hparens
  | node _ _ hrest _ ih =>
    rw [Draft.kinds_node] at hparens
    exact ⟨fun hkind => hrest.kinds_sublist.subset (hparens.1 hkind), ih hparens.2⟩

theorem cutShort {kind : Kind} (h : Grown source drafts trees)
    (hcut : IsCutShort kind (Draft.kinds drafts)) : Tree.CutShort kind trees := by
  obtain ⟨hkind, hkinds⟩ := hcut
  have hfilter : (trees.map Tree.kind).filter (!·.isTrivia) =
      (Draft.kinds drafts).filter (!·.isTrivia) :=
    h.filter_kinds_eq fun _ _ htrivia => by simp [htrivia]
  refine ⟨hkind, ?_⟩
  rw [hfilter]
  rcases hkinds with hkinds | hkinds
  · exact .inl (by rw [hkinds]; rfl)
  · exact .inr (by rw [hkinds]; rfl)

/-- The children of a node that is formed close what they open. -/
theorem delimited {kind : Kind} (h : Grown source drafts trees) (hends : SameEnds drafts trees)
    (hformed : Draft.Formed kind drafts) :
    Tree.Delimited kind trees ∨ Tree.CutShort kind trees := by
  by_cases hcut : IsCutShort kind (Draft.kinds drafts)
  · exact .inr (h.cutShort hcut)
  · refine .inl ⟨fun ends hkind => ?_, h.parensClosed (hformed.parens.resolve_right hcut)⟩
    exact h.between hends ((hformed.shape.between hkind).resolve_right hcut)

/-- Every node has grown out of one. -/
theorem exists_draft (h : Grown source drafts trees) : ∀ node ∈ Tree.nodesAll trees,
    ∃ inner, (node.1, inner) ∈ Draft.nodesAll drafts ∧ SameEnds inner node.2 ∧
      Grown source inner node.2 := by
  induction h with
  | nil => simp [Tree.nodesAll]
  | trivia _ _ _ _ ih => exact ih
  | token _ _ ih => exact ih
  | void _ ih => exact ih
  | node hends hinner _ ihinner ih =>
    intro node hnode
    rcases List.mem_append.1 hnode with hnode | hnode
    · rcases List.mem_cons.1 hnode with rfl | hnode
      · exact ⟨_, List.mem_append_left _ List.mem_cons_self, hends, hinner⟩
      · obtain ⟨inner, hmem, hgrown⟩ := ihinner node hnode
        exact ⟨inner, List.mem_append_left _ (List.mem_cons_of_mem _ hmem), hgrown⟩
    · obtain ⟨inner, hmem, hgrown⟩ := ih node hnode
      exact ⟨inner, List.mem_append_right _ hmem, hgrown⟩

/-- All nodes that sound drafts have grown into close what they open. -/
theorem delimitedAll (h : Grown source drafts trees) (hsound : Draft.SoundAll drafts) :
    ∀ node ∈ Tree.nodesAll trees, Tree.Delimited node.1 node.2 ∨ Tree.CutShort node.1 node.2 := by
  intro node hnode
  obtain ⟨inner, hmem, hends, hgrown⟩ := h.exists_draft node hnode
  exact hgrown.delimited hends (Draft.formed_of_mem_nodesAll drafts hsound hmem)

end Grown

/-- In the tree of a source without diagnostics, all that is opened is closed: blocks, equations,
emphasized markup and lists end with the delimiter that belongs to the one they start with, and
every opening parenthesis has a closing one among the siblings behind it. The one exception are
empty dictionaries that were cut short. -/
theorem parse_delimiters_closed (source : List Char) (mode : Mode) :
    ∃ parsed, parse source mode = .ok parsed ∧ (parsed.diagnostics = [] →
      ∀ node ∈ parsed.tree.nodes,
        Tree.Delimited node.1 node.2 ∨ Tree.CutShort node.1 node.2) := by
  obtain ⟨parsed, drafts, hparse, _, _, hbuilt⟩ := parse_eq_ok source mode
  refine ⟨parsed, hparse, fun hclean => ?_⟩
  obtain ⟨trees, htree, hgrown, _⟩ := hbuilt.tree_eq
  obtain ⟨hformed, hsound⟩ := hbuilt.sound hclean
  rw [htree]
  intro node hnode
  rcases List.mem_cons.1 hnode with rfl | hnode
  · -- In the root trivia may come first and last, but the root has no delimiters.
    have hroot : parsed.mode.rootKind.delimiters? = none ∧ parsed.mode.rootKind ≠ .dict := by
      cases parsed.mode <;> decide
    refine .inl ⟨fun ends hends => ?_, hgrown.parensClosed (hformed.parens.resolve_right ?_)⟩
    · rw [hroot.1] at hends
      cases hends
    · exact fun hcut => hroot.2 hcut.1
  · exact hgrown.delimitedAll hsound node hnode

/-- Behind a line break, the colon of an empty dictionary is not consumed. Nothing is reported, and
the dictionary is its opening parenthesis alone. -/
theorem parse_dict_cut_short :
    ∃ parsed, parse ['#', '(', '\n', ':', ')'] = .ok parsed ∧ parsed.diagnostics = [] ∧
      ∃ node ∈ parsed.tree.nodes, ¬Tree.Delimited node.1 node.2 := by
  have hrun : (parse ['#', '(', '\n', ':', ')']).toOption.map (fun parsed =>
        (parsed.diagnostics.isEmpty, parsed.tree.nodes.map fun node =>
          (node.1, node.2.map Tree.kind))) =
      some (true, [(.markup, [.hash, .dict, .space, .text, .text]), (.dict, [.leftParen])]) := by
    decide +kernel
  cases hparse : parse ['#', '(', '\n', ':', ')'] with
  | error error =>
    rw [hparse] at hrun
    cases hrun
  | ok parsed =>
    rw [hparse] at hrun
    obtain ⟨hclean, hnodes⟩ := Prod.mk.inj (Option.some.inj hrun)
    have hdict : (Kind.dict, [Kind.leftParen]) ∈ parsed.tree.nodes.map fun node =>
        (node.1, node.2.map Tree.kind) := by
      rw [hnodes]
      simp
    obtain ⟨node, hnode, heq⟩ := List.mem_map.1 hdict
    obtain ⟨hkind, hkinds⟩ := Prod.mk.inj heq
    refine ⟨parsed, rfl, List.isEmpty_iff.1 hclean, node, hnode, fun hdelimited => ?_⟩
    -- One parenthesis cannot be both ends.
    have hbetween := hdelimited.delimiters (.leftParen, .rightParen) (by rw [hkind]; rfl)
    rw [hkinds] at hbetween
    have hlength := hbetween.ends.2.2
    simp at hlength

end TypstFormat
