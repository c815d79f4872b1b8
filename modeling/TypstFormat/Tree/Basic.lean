import TypstFormat.Kind
import TypstFormat.Text.Quoted

/-!
# Syntax trees

A `Tree` is made of kinds and texts and knows no positions. White space and comments are tokens
like all others, so the texts of the tokens put together are the source the tree was made from.

`text` and `length` look at a tree as that text (`length_text`), `tokens` as the list of its tokens
(`text_eq_flatMap_tokens`), and `outline` shows its shape.
-/

namespace TypstFormat

inductive Tree where
  | token (kind : Kind) (text : List Char)
  | node (kind : Kind) (children : List Tree)
  deriving Repr

namespace Tree

def kind : Tree → Kind
  | .token kind _ => kind
  | .node kind _ => kind

def isNode : Tree → Bool
  | .token .. => false
  | .node .. => true

def children : Tree → List Tree
  | .token .. => []
  | .node _ children => children

/-- The text of a token; a node has none of its own. -/
def ownText : Tree → List Char
  | .token _ text => text
  | .node .. => []

mutual

/-- The texts of all tokens of a tree, put together. -/
def text : Tree → List Char
  | .token _ text => text
  | .node _ children => textAll children

/-- The texts of all tokens of several trees, put together. -/
def textAll : List Tree → List Char
  | [] => []
  | tree :: trees => text tree ++ textAll trees

end

mutual

/-- How many characters the text of a tree has. -/
def length : Tree → Nat
  | .token _ text => text.length
  | .node _ children => lengthAll children

/-- How many characters the texts of several trees have. -/
def lengthAll : List Tree → Nat
  | [] => 0
  | tree :: trees => length tree + lengthAll trees

end

mutual

/-- The tokens of a tree with their texts, in the order of the source. -/
def tokens : Tree → List (Kind × List Char)
  | .token kind text => [(kind, text)]
  | .node _ children => tokensAll children

/-- The tokens of several trees. -/
def tokensAll : List Tree → List (Kind × List Char)
  | [] => []
  | tree :: trees => tokens tree ++ tokensAll trees

end

mutual

/-- One line for each node and each token, set in by two spaces for each level. -/
def outlineLines (level : Nat) : Tree → List String
  | .token kind text =>
    [String.ofList (List.replicate (2 * level) ' ') ++ kind.name ++ " "
      ++ String.ofList (Text.quoted text)]
  | .node kind children =>
    (String.ofList (List.replicate (2 * level) ' ') ++ kind.name)
      :: outlineAll (level + 1) children

/-- The lines of several trees. -/
def outlineAll (level : Nat) : List Tree → List String
  | [] => []
  | tree :: trees => outlineLines level tree ++ outlineAll level trees

end

/-- The shape of a tree, one line for each node and each token. -/
def outline (tree : Tree) (level : Nat := 0) : String :=
  "\n".intercalate (outlineLines level tree)

mutual

theorem length_text : (tree : Tree) → tree.text.length = tree.length
  | .token _ _ => rfl
  | .node _ children => by simpa [text, length] using length_textAll children

theorem length_textAll : (trees : List Tree) → (textAll trees).length = lengthAll trees
  | [] => rfl
  | tree :: trees => by simp [textAll, lengthAll, length_text tree, length_textAll trees]

end

mutual

theorem text_eq_flatMap_tokens : (tree : Tree) → tree.text = tree.tokens.flatMap (·.2)
  | .token _ _ => by simp [text, tokens]
  | .node _ children => by simpa [text, tokens] using textAll_eq_flatMap_tokensAll children

theorem textAll_eq_flatMap_tokensAll :
    (trees : List Tree) → textAll trees = (tokensAll trees).flatMap (·.2)
  | [] => rfl
  | tree :: trees => by
    simp [textAll, tokensAll, text_eq_flatMap_tokens tree, textAll_eq_flatMap_tokensAll trees]

end

@[simp] theorem tokensAll_append (trees more : List Tree) :
    tokensAll (trees ++ more) = tokensAll trees ++ tokensAll more := by
  induction trees with
  | nil => rfl
  | cons tree trees ih => simp [tokensAll, ih]

@[simp] theorem textAll_append (trees more : List Tree) :
    textAll (trees ++ more) = textAll trees ++ textAll more := by
  induction trees with
  | nil => rfl
  | cons tree trees ih => simp [textAll, ih]

end Tree

end TypstFormat
