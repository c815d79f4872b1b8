import TypstFormat.Proofs.Grammar.Delimiters

/-!
# Where trivia stands

Trivia is put between what the grammar has read. It comes into a node only behind the first token of
the node, and in front of the last one, so that no node starts or ends with it. In markup, trivia is
what the grammar itself reads: there it may come first or last, but only in a node of markup, as all
other nodes start with a marker and end with a delimiter or with markup (`Draft.Neat`).

## Key results

- `parse_trivia_inside`: a node that is no markup neither starts nor ends with trivia
-/

namespace TypstFormat

namespace Draft

mutual

theorem arranged_of_mem_nodes : (draft : Draft) → Neat draft → {node : Kind × List Draft} →
    node ∈ draft.nodes → Arranged node.1 node.2 ∧ NeatAll node.2
  | .token .., _, _, hnode => nomatch hnode
  | .void, _, _, hnode => nomatch hnode
  | .node _ _ children, hneat, _, hnode => by
    rcases List.mem_cons.1 hnode with rfl | hnode
    · exact hneat
    · exact arranged_of_mem_nodesAll children hneat.2 hnode

/-- In neat drafts all nodes are arranged. -/
theorem arranged_of_mem_nodesAll : (drafts : List Draft) → NeatAll drafts →
    {node : Kind × List Draft} → node ∈ nodesAll drafts → Arranged node.1 node.2 ∧ NeatAll node.2
  | [], _, _, hnode => nomatch hnode
  | draft :: drafts, hneat, _, hnode => by
    rcases List.mem_append.1 hnode with hnode | hnode
    · exact arranged_of_mem_nodes draft hneat.1 hnode
    · exact arranged_of_mem_nodesAll drafts hneat.2 hnode

end

end Draft

/-- What starts and ends with the same kinds is trimmed as well. -/
theorem SameEnds.trimmed {drafts : List Draft} {trees : List Tree} (h : SameEnds drafts trees)
    (htrimmed : Kind.Trimmed (Draft.kinds drafts)) : Kind.Trimmed (trees.map Tree.kind) := by
  refine ⟨?_, ?_⟩
  · rw [h.head?_eq]
    exact htrimmed.head
  · rw [h.getLast?_eq]
    exact htrimmed.last

/-- Below the root of a tree, no node but one of markup starts or ends with a comment or with white
space. -/
theorem parse_trivia_inside (source : List Char) (mode : Mode) :
    ∃ parsed, parse source mode = .ok parsed ∧
      ∀ node ∈ Tree.nodesAll parsed.tree.children, node.1 ≠ .markup →
        ∀ child, node.2.head? = some child ∨ node.2.getLast? = some child →
          child.kind ∉ [.space, .parbreak, .lineComment, .blockComment] := by
  obtain ⟨parsed, drafts, hparse, _, _, hbuilt⟩ := parse_eq_ok source mode
  refine ⟨parsed, hparse, fun node hnode hkind child hchild => ?_⟩
  obtain ⟨trees, htree, hgrown, _⟩ := hbuilt.tree_eq
  rw [htree] at hnode
  obtain ⟨inner, hmem, hends, _⟩ := hgrown.exists_draft node hnode
  have harranged := (Draft.arranged_of_mem_nodesAll drafts hbuilt.neat.2 hmem).1
  have htrimmed := hends.trimmed (harranged.trimmed hkind)
  have htrivia : child.kind.isTrivia = false := by
    rcases hchild with hchild | hchild
    · exact htrimmed.head _ (by rw [List.head?_map, hchild]; rfl)
    · exact htrimmed.last _ (by rw [List.getLast?_map, hchild]; rfl)
  have hall : ∀ kind ∈ [Kind.space, .parbreak, .lineComment, .blockComment], kind.isTrivia = true := by
    decide
  intro hmem
  rw [hall _ hmem] at htrivia
  cases htrivia

end TypstFormat
