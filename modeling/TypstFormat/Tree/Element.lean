import TypstFormat.Text.Range
import TypstFormat.Tree.Basic

/-!
# Elements

An `Element` is a tree together with the place where it stands in a larger one: the path up to the
root, with the index it has among the children of each parent and the offset where it starts. From
an element one can go to its parent, its children and its siblings, and search what lies below it.

`children` lists the elements right below an element, each starting where the one before it ends.
-/

namespace TypstFormat

open Text (Range)

inductive Element where
  | root (tree : Tree)
  | child (parent : Element) (index start : Nat) (tree : Tree)
  deriving Repr

namespace Element

def tree : Element → Tree
  | root tree => tree
  | child _ _ _ tree => tree

def kind (e : Element) : Kind :=
  e.tree.kind

/-- The offset at which an element starts. -/
def start : Element → Nat
  | root _ => 0
  | child _ _ start _ => start

/-- The offset behind an element. -/
def stop (e : Element) : Nat :=
  e.start + e.tree.length

def range (e : Element) : Range :=
  Range.ofLength e.start e.tree.length

/-- The index of an element among the children of its parent; the root has the index zero. -/
def index : Element → Nat
  | root _ => 0
  | child _ index _ _ => index

def parent? : Element → Option Element
  | root _ => none
  | child parent _ _ _ => some parent

/-- The elements of neighbouring trees below `parent`, the first of them at `index` and `start`. -/
def place (parent : Element) (index start : Nat) : List Tree → List Element
  | [] => []
  | tree :: trees =>
    child parent index start tree :: place parent (index + 1) (start + tree.length) trees

/-- The elements right below an element. -/
def children (e : Element) : List Element :=
  place e 0 e.start e.tree.children

def childNodes (e : Element) : List Element :=
  e.children.filter (·.tree.isNode)

def childTokens (e : Element) : List Element :=
  e.children.filter fun child => !child.tree.isNode

/-- The element behind an element, below the same parent. -/
def next? : Element → Option Element
  | root _ => none
  | child parent index _ _ => parent.children[index + 1]?

/-- The element in front of an element, below the same parent. -/
def previous? : Element → Option Element
  | root _ => none
  | child parent index _ _ => if index = 0 then none else parent.children[index - 1]?

/-- The elements behind an element below the same parent, the nearest first. -/
def following : Element → List Element
  | root _ => []
  | child parent index _ _ => parent.children.drop (index + 1)

/-- What an element reads in a source: its own text if it is a token, and the characters it covers
if it is a node. -/
def textIn (source : List Char) (e : Element) : List Char :=
  match e.tree with
  | .token _ text => text
  | .node .. => e.range.slice source

mutual

/-- The tokens of a tree that stands at `e`. -/
def tokensBelow (e : Element) : Tree → List Element
  | .token .. => [e]
  | .node _ children => tokensAmong e 0 e.start children

/-- The tokens of neighbouring trees below `parent`. -/
def tokensAmong (parent : Element) (index start : Nat) : List Tree → List Element
  | [] => []
  | tree :: trees =>
    tokensBelow (child parent index start tree) tree
      ++ tokensAmong parent (index + 1) (start + tree.length) trees

end

/-- All tokens below an element, in the order of the source. A token has none below it. -/
def tokens (e : Element) : List Element :=
  tokensAmong e 0 e.start e.tree.children

mutual

/-- The first node of a kind below a tree that stands at `e`. -/
def findBelow (kind : Kind) (e : Element) : Tree → Option Element
  | .token .. => none
  | .node _ children => findAmong kind e 0 e.start children

/-- The first node of a kind among neighbouring trees below `parent`, and below them. -/
def findAmong (kind : Kind) (parent : Element) (index start : Nat) : List Tree → Option Element
  | [] => none
  | tree :: trees =>
    let e := child parent index start tree
    if tree.isNode ∧ tree.kind = kind then some e
    else
      (findBelow kind e tree).or
        (findAmong kind parent (index + 1) (start + tree.length) trees)

end

/-- The first node of a kind below an element: each node comes before those below it, and those
before the nodes behind it. -/
def findFirst (e : Element) (kind : Kind) : Option Element :=
  findBelow kind e e.tree

/-- How an element is shown. -/
def describe (e : Element) : String :=
  match e.tree with
  | .token kind text => s!"SyntaxToken({kind.name}, {String.ofList (Text.quoted text)})"
  | .node kind _ => s!"SyntaxNode({kind.name}, {e.start}..{e.stop})"

@[simp] theorem length_place (parent : Element) (index start : Nat) (trees : List Tree) :
    (place parent index start trees).length = trees.length := by
  induction trees generalizing index start with
  | nil => rfl
  | cons tree trees ih => simp [place, ih]

end Element

end TypstFormat
