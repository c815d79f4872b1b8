import TypstFormat.Tree.Basic

/-!
# The texts of a tree

A tree is told by its shape, which is the tree with empty texts, and by its tokens
(`Tree.eq_of_tokens`). Other texts in the same tree make a tree of the same shape.

## Key results

- `Tree.tokens_mapTexts`: the tokens of a tree with other texts
- `Tree.eq_of_tokens`: trees of the same shape with the same tokens
-/

namespace TypstFormat

namespace Tree

mutual

/-- The tree with another text in every token. -/
def mapTexts (f : List Char → List Char) : Tree → Tree
  | .token kind text => .token kind (f text)
  | .node kind children => .node kind (mapTextsAll f children)

/-- Several trees with another text in every token. -/
def mapTextsAll (f : List Char → List Char) : List Tree → List Tree
  | [] => []
  | tree :: trees => mapTexts f tree :: mapTextsAll f trees

end

/-- What is left of a tree without its texts. -/
def shape (tree : Tree) : Tree :=
  tree.mapTexts fun _ => []

/-- What is left of trees without their texts. -/
def shapeAll (trees : List Tree) : List Tree :=
  mapTextsAll (fun _ => []) trees

variable (f g : List Char → List Char)

mutual

theorem tokens_mapTexts : (tree : Tree) →
    (tree.mapTexts f).tokens = tree.tokens.map fun token => (token.1, f token.2)
  | .token _ _ => rfl
  | .node _ children => by
    rw [mapTexts, tokens, tokens, tokensAll_mapTextsAll children]

theorem tokensAll_mapTextsAll : (trees : List Tree) →
    tokensAll (mapTextsAll f trees) = (tokensAll trees).map fun token => (token.1, f token.2)
  | [] => rfl
  | tree :: trees => by
    rw [mapTextsAll, tokensAll, tokensAll, tokens_mapTexts tree, tokensAll_mapTextsAll trees,
      List.map_append]

end

mutual

theorem mapTexts_mapTexts : (tree : Tree) →
    (tree.mapTexts f).mapTexts g = tree.mapTexts (g ∘ f)
  | .token _ _ => rfl
  | .node _ children => by
    rw [mapTexts, mapTexts, mapTexts, mapTextsAll_mapTextsAll children]

theorem mapTextsAll_mapTextsAll : (trees : List Tree) →
    mapTextsAll g (mapTextsAll f trees) = mapTextsAll (g ∘ f) trees
  | [] => rfl
  | tree :: trees => by
    rw [mapTextsAll, mapTextsAll, mapTextsAll, mapTexts_mapTexts tree,
      mapTextsAll_mapTextsAll trees]

end

/-- Other texts make a tree of the same shape. -/
theorem shape_mapTexts (tree : Tree) : (tree.mapTexts f).shape = tree.shape :=
  mapTexts_mapTexts f _ tree

/-- Trees of the same shape have as many tokens. -/
theorem length_tokens_of_shape {tree tree' : Tree} (h : tree'.shape = tree.shape) :
    tree'.tokens.length = tree.tokens.length := by
  have htokens := congrArg (fun tree => tree.tokens.length) h
  simpa only [shape, tokens_mapTexts, List.length_map] using htokens

mutual

/-- A tree is told by its shape and its tokens. -/
theorem eq_of_tokens : (tree tree' : Tree) → tree'.shape = tree.shape →
    tree'.tokens = tree.tokens → tree' = tree
  | .token _ _, .token _ _, _, htokens => by
    obtain ⟨rfl, rfl⟩ := Prod.mk.inj (List.singleton_inj.1 htokens)
    rfl
  | .token _ _, .node _ _, hshape, _ => nomatch hshape
  | .node _ _, .token _ _, hshape, _ => nomatch hshape
  | .node kind children, .node kind' children', hshape, htokens => by
    obtain ⟨rfl, hchildren⟩ := Tree.node.inj hshape
    rw [eq_of_tokensAll children children' hchildren htokens]

theorem eq_of_tokensAll : (trees trees' : List Tree) → shapeAll trees' = shapeAll trees →
    tokensAll trees' = tokensAll trees → trees' = trees
  | [], [], _, _ => rfl
  | [], _ :: _, hshape, _ => nomatch hshape
  | _ :: _, [], hshape, _ => nomatch hshape
  | tree :: trees, tree' :: trees', hshape, htokens => by
    obtain ⟨hfirst, hrest⟩ := List.cons.inj hshape
    obtain ⟨htokens, hmore⟩ := List.append_inj htokens (length_tokens_of_shape hfirst)
    rw [eq_of_tokens tree tree' hfirst htokens, eq_of_tokensAll trees trees' hrest hmore]

end

end Tree

end TypstFormat
