import TypstFormat.Tree.Element
import Mathlib.Data.List.Basic
import Mathlib.Data.List.Nodup

/-!
# Walking through a tree

An element knows its place in the tree that it stands in, and the ways from one element to another
agree with each other and with the text of the tree. An element covers the characters of its own
tree; the elements right below one lie side by side in it, and so do the tokens below it; each
element is the child of its parent that its index says; and a step to the next sibling undoes one to
the previous sibling.

`descendants` lists everything below an element, each element in front of what is below it. What is
collected or searched below an element is found in this list.

## Key results

- `Below.exists_text_eq`: the characters in front of an element are those before its offset
- `Below.of_next?`, `Below.of_previous?`: steps to the siblings undo each other
- `mem_descendants`, `nodup_descendants`: everything below an element is listed once
- `tokens_eq_filter`, `findFirst_eq_find?`: what is collected and searched below an element
- `navigable`: all of this for every element of a tree
-/

namespace TypstFormat

open Text (Range)

@[simp] theorem Tree.lengthAll_append (trees more : List Tree) :
    lengthAll (trees ++ more) = lengthAll trees + lengthAll more := by
  rw [← length_textAll, textAll_append, List.length_append, length_textAll, length_textAll]

theorem Tree.text_eq_textAll {tree : Tree} (h : tree.isNode = true) :
    tree.text = textAll tree.children := by
  cases tree with
  | token => cases h
  | node => rfl

theorem Tree.length_eq_lengthAll {tree : Tree} (h : tree.isNode = true) :
    tree.length = lengthAll tree.children := by
  cases tree with
  | token => cases h
  | node => rfl

theorem Tree.children_of_not_isNode {tree : Tree} (h : tree.isNode = false) :
    tree.children = [] := by
  cases tree with
  | token => rfl
  | node => cases h

namespace Element

/-- The element at the root of a tree, and the children of all others. -/
inductive Below (root : Element) : Element → Prop where
  | self : Below root root
  | child {e e' : Element} : Below root e → e' ∈ e.children → Below root e'

/-- The elements lie side by side from one offset up to another one. -/
def Tiled : Nat → List Element → Nat → Prop
  | start, [], stop => start = stop
  | start, e :: rest, stop => e.start = start ∧ Tiled e.stop rest stop

mutual

/-- What is below a tree that stands at `e`. -/
def descendantsBelow (e : Element) : Tree → List Element
  | .token .. => []
  | .node _ children => descendantsAmong e 0 e.start children

/-- Neighbouring trees below `parent`, each with what is below it. -/
def descendantsAmong (parent : Element) (index start : Nat) : List Tree → List Element
  | [] => []
  | tree :: trees =>
    let e := child parent index start tree
    e :: descendantsBelow e tree
      ++ descendantsAmong parent (index + 1) (start + tree.length) trees

end

/-- Everything below an element, each element in front of what is below it. -/
def descendants (e : Element) : List Element :=
  descendantsBelow e e.tree

/-- Whether an element is a node of a kind. -/
def isNodeOf (kind : Kind) (e : Element) : Bool :=
  e.tree.isNode && e.kind = kind

/-! ## Children -/

/-- An element below another one stands behind the trees in front of its own. -/
theorem mem_place {parent e : Element} {index start : Nat} {trees : List Tree}
    (h : e ∈ place parent index start trees) :
    ∃ before tree behind, trees = before ++ tree :: behind ∧
      e = child parent (index + before.length) (start + Tree.lengthAll before) tree := by
  induction trees generalizing index start with
  | nil => cases h
  | cons tree trees ih =>
    rcases List.mem_cons.1 h with rfl | h
    · exact ⟨[], tree, trees, rfl, rfl⟩
    · obtain ⟨before, tree', behind, rfl, rfl⟩ := ih h
      refine ⟨tree :: before, tree', behind, rfl, ?_⟩
      rw [List.length_cons, Tree.lengthAll, ← Nat.add_assoc start, Nat.add_comm before.length,
        ← Nat.add_assoc index]

theorem mem_children {e child : Element} (h : child ∈ e.children) :
    ∃ before behind, e.tree.children = before ++ child.tree :: behind ∧
      child.start = e.start + Tree.lengthAll before := by
  obtain ⟨before, tree, behind, hchildren, rfl⟩ := mem_place h
  exact ⟨before, behind, hchildren, rfl⟩

theorem getElem?_place {parent e : Element} {index start i : Nat} {trees : List Tree}
    (h : (place parent index start trees)[i]? = some e) :
    e.parent? = some parent ∧ e.index = index + i := by
  induction trees generalizing index start i with
  | nil => cases h
  | cons tree trees ih =>
    cases i with
    | zero =>
      obtain rfl := Option.some.inj h
      exact ⟨rfl, rfl⟩
    | succ i =>
      obtain ⟨hparent, hindex⟩ := ih h
      exact ⟨hparent, by omega⟩

theorem getElem?_children {e child : Element} {i : Nat} (h : e.children[i]? = some child) :
    child.parent? = some e ∧ child.index = i := by
  obtain ⟨hparent, hindex⟩ := getElem?_place h
  exact ⟨hparent, hindex.trans (Nat.zero_add i)⟩

/-- A child is where its index says. -/
theorem getElem?_index {e child : Element} (h : child ∈ e.children) :
    child.parent? = some e ∧ e.children[child.index]? = some child := by
  obtain ⟨i, hi⟩ := List.mem_iff_getElem?.1 h
  obtain ⟨hparent, rfl⟩ := getElem?_children hi
  exact ⟨hparent, hi⟩

theorem isNode_of_mem_children {e child : Element} (h : child ∈ e.children) :
    e.tree.isNode = true := by
  cases htree : e.tree.isNode with
  | true => rfl
  | false =>
    rw [children, Tree.children_of_not_isNode htree] at h
    cases h

/-- The children lie side by side in their parent. -/
theorem tiled_place (parent : Element) (index start : Nat) (trees : List Tree) :
    Tiled start (place parent index start trees) (start + Tree.lengthAll trees) := by
  induction trees generalizing index start with
  | nil => rfl
  | cons tree trees ih =>
    refine ⟨rfl, ?_⟩
    rw [Tree.lengthAll, ← Nat.add_assoc]
    exact ih (index + 1) (start + tree.length)

theorem tiled_children {e : Element} (h : e.tree.isNode = true) :
    Tiled e.start e.children e.stop := by
  rw [stop, Tree.length_eq_lengthAll h]
  exact tiled_place e 0 e.start e.tree.children

theorem sizeOf_tree_lt {e child : Element} (h : child ∈ e.children) :
    sizeOf child.tree < sizeOf e.tree := by
  obtain ⟨before, behind, hchildren, _⟩ := mem_children h
  have hmem : child.tree ∈ e.tree.children := by
    rw [hchildren]
    exact List.mem_append_right _ List.mem_cons_self
  cases htree : e.tree with
  | token =>
    rw [htree] at hmem
    cases hmem
  | node kind children =>
    rw [htree] at hmem
    have hlt : sizeOf child.tree < sizeOf children := List.sizeOf_lt_of_mem hmem
    rw [Tree.node.sizeOf_spec]
    omega

/-- What holds of an element if it holds of its children holds of every element. -/
theorem children_induction {motive : Element → Prop}
    (step : ∀ e, (∀ child ∈ e.children, motive child) → motive e) (e : Element) : motive e :=
  step e fun child _ => children_induction step child
termination_by sizeOf e.tree
decreasing_by exact sizeOf_tree_lt ‹_›

/-! ## Below an element -/

namespace Below

variable {root e f : Element}

theorem trans (h : Below root e) (hf : Below e f) : Below root f := by
  induction hf with
  | self => exact h
  | child _ hmem ih => exact .child ih hmem

/-- A way down that is not at its end yet goes on through a child. -/
theorem eq_or_exists_child (h : Below e f) : f = e ∨ ∃ child ∈ e.children, Below child f := by
  induction h with
  | self => exact .inl rfl
  | @child g f _ hmem ih =>
    right
    rcases ih with rfl | ⟨child, hchild, hbelow⟩
    · exact ⟨f, hmem, .self⟩
    · exact ⟨child, hchild, .child hbelow hmem⟩

/-- Every element but the root is the child of its parent that its index says. -/
theorem eq_or_parent (h : Below root e) :
    e = root ∨ ∃ parent, e.parent? = some parent ∧ Below root parent ∧
      parent.children[e.index]? = some e := by
  cases h with
  | self => exact .inl rfl
  | @child parent e hparent hmem =>
    obtain ⟨hparent?, hindex⟩ := getElem?_index hmem
    exact .inr ⟨parent, hparent?, hparent, hindex⟩

/-- The characters in front of an element are those before its offset. -/
theorem exists_text_eq (h : Below root e) :
    ∃ before behind, root.tree.text = before ++ (e.tree.text ++ behind) ∧
      e.start = root.start + before.length := by
  induction h with
  | self => exact ⟨[], [], (List.append_nil _).symm, rfl⟩
  | @child parent e _ hmem ih =>
    obtain ⟨before, behind, htext, hstart⟩ := ih
    obtain ⟨trees, more, hchildren, hchild⟩ := mem_children hmem
    -- The text of the parent is that of its children, those in front of the element first.
    rw [Tree.text_eq_textAll (isNode_of_mem_children hmem), hchildren, Tree.textAll_append,
      Tree.textAll] at htext
    refine ⟨before ++ Tree.textAll trees, Tree.textAll more ++ behind, ?_, ?_⟩
    · rw [htext]
      simp only [List.append_assoc]
    · rw [hchild, hstart, List.length_append, Tree.length_textAll, Nat.add_assoc]

end Below

/-- An element of a tree covers the characters of its own tree. -/
theorem slice_range {tree : Tree} {e : Element} (h : Below (.root tree) e) :
    e.range.slice tree.text = e.tree.text := by
  obtain ⟨before, behind, htext, hstart⟩ := h.exists_text_eq
  have hstart : e.start = before.length := hstart.trans (Nat.zero_add _)
  have htext : tree.text = before ++ (e.tree.text ++ behind) := htext
  have hlength : e.range.length = e.tree.text.length := by
    rw [Tree.length_text]
    exact Nat.add_sub_cancel_left _ _
  rw [Range.slice, hlength, htext]
  show ((before ++ (e.tree.text ++ behind)).drop e.start).take _ = _
  rw [hstart, List.drop_left, List.take_left]

theorem textIn_eq {tree : Tree} {e : Element} (h : Below (.root tree) e) :
    e.textIn tree.text = e.tree.text := by
  have hslice := slice_range h
  unfold textIn
  split
  · rename_i htree
    rw [htree]
    rfl
  · exact hslice

/-! ## Siblings -/

section

variable {tree : Tree} {e f : Element}

theorem next?_of_parent? {parent : Element} (h : e.parent? = some parent) :
    e.next? = parent.children[e.index + 1]? := by
  cases e with
  | root => cases h
  | child =>
    obtain rfl := Option.some.inj h
    rfl

theorem previous?_of_parent? {parent : Element} (h : e.parent? = some parent) :
    e.previous? = if e.index = 0 then none else parent.children[e.index - 1]? := by
  cases e with
  | root => cases h
  | child =>
    obtain rfl := Option.some.inj h
    rfl

/-- The steps to the siblings lead along the children of the parent. -/
theorem Below.steps_of_parent? {parent : Element} (h : Below (.root tree) e)
    (hparent : e.parent? = some parent) :
    e.next? = parent.children[e.index + 1]? ∧
    (e.next? = none ↔ e.index + 1 = parent.children.length) ∧
    (∀ i, e.index = i + 1 → e.previous? = parent.children[i]?) ∧
    (e.previous? = none ↔ e.index = 0) := by
  have hlt : e.index < parent.children.length := by
    rcases h.eq_or_parent with rfl | ⟨_, hparent', _, hindex⟩
    · cases hparent
    · obtain rfl := Option.some.inj (hparent.symm.trans hparent')
      exact (List.getElem?_eq_some_iff.1 hindex).1
  have hnext := next?_of_parent? hparent
  have hprevious := previous?_of_parent? hparent
  refine ⟨hnext, ?_, ?_, ?_⟩
  · rw [hnext, List.getElem?_eq_none_iff]
    omega
  · intro i hi
    rw [hprevious, hi, if_neg (Nat.succ_ne_zero i), Nat.add_sub_cancel]
  · rw [hprevious]
    split
    · exact iff_of_true rfl ‹_›
    · rw [List.getElem?_eq_none_iff]
      omega

/-- The step back leads to where the step forward started. -/
theorem Below.of_next? (h : Below (.root tree) e) (hnext : e.next? = some f) :
    Below (.root tree) f ∧ f.previous? = some e := by
  rcases h.eq_or_parent with rfl | ⟨parent, hparent, hbelow, hindex⟩
  · cases hnext
  · rw [next?_of_parent? hparent] at hnext
    obtain ⟨hparent', hindex'⟩ := getElem?_children hnext
    refine ⟨.child hbelow (List.mem_of_getElem? hnext), ?_⟩
    rw [previous?_of_parent? hparent', hindex', if_neg (Nat.succ_ne_zero _)]
    exact hindex

/-- The step forward leads to where the step back started. -/
theorem Below.of_previous? (h : Below (.root tree) e) (hprevious : e.previous? = some f) :
    Below (.root tree) f ∧ f.next? = some e := by
  rcases h.eq_or_parent with rfl | ⟨parent, hparent, hbelow, hindex⟩
  · cases hprevious
  · rw [previous?_of_parent? hparent] at hprevious
    split at hprevious
    · cases hprevious
    · rename_i hne
      obtain ⟨hparent', hindex'⟩ := getElem?_children hprevious
      refine ⟨.child hbelow (List.mem_of_getElem? hprevious), ?_⟩
      rw [next?_of_parent? hparent', hindex', Nat.sub_add_cancel (Nat.pos_of_ne_zero hne)]
      exact hindex

end

/-! ## Everything below an element -/

theorem descendantsAmong_eq (parent : Element) (index start : Nat) (trees : List Tree) :
    descendantsAmong parent index start trees =
      (place parent index start trees).flatMap fun child => child :: child.descendants := by
  induction trees generalizing index start with
  | nil => rfl
  | cons tree trees ih =>
    rw [descendantsAmong, place, List.flatMap_cons, ih]
    rfl

/-- Each child comes in front of what is below it. -/
theorem descendants_eq (e : Element) :
    e.descendants = e.children.flatMap fun child => child :: child.descendants := by
  rw [descendants, children]
  cases e.tree with
  | token => rfl
  | node kind children => exact descendantsAmong_eq e 0 e.start children

/-- Below an element are its children and what is below them. -/
theorem mem_descendants_iff_exists_child {e f : Element} :
    f ∈ e.descendants ↔ ∃ child ∈ e.children, f = child ∨ f ∈ child.descendants := by
  rw [descendants_eq, List.mem_flatMap]
  simp only [List.mem_cons]

/-- How many elements are above an element. -/
def depth : Element → Nat
  | root _ => 0
  | child parent _ _ _ => parent.depth + 1

theorem depth_of_parent? {e parent : Element} (h : e.parent? = some parent) :
    e.depth = parent.depth + 1 := by
  cases e with
  | root => cases h
  | child =>
    obtain rfl := Option.some.inj h
    rfl

theorem depth_of_mem_children {e child : Element} (h : child ∈ e.children) :
    child.depth = e.depth + 1 :=
  depth_of_parent? (getElem?_index h).1

theorem Below.depth_le {e f : Element} (h : Below e f) : e.depth ≤ f.depth := by
  induction h with
  | self => exact Nat.le_refl _
  | child _ hmem ih =>
    rw [depth_of_mem_children hmem]
    omega

/-- Above an element there is one element of each depth. -/
theorem Below.eq_of_depth_eq {e e' f : Element} (h : Below e f) (h' : Below e' f)
    (hdepth : e.depth = e'.depth) : e = e' := by
  induction h with
  | self =>
    cases h' with
    | self => rfl
    | child h' hmem =>
      -- What is below another element is deeper than it.
      have := h'.depth_le
      have := depth_of_mem_children hmem
      omega
  | @child g f h hmem ih =>
    cases h' with
    | self =>
      have := h.depth_le
      have := depth_of_mem_children hmem
      omega
    | @child g' _ h' hmem' =>
      -- Both ways up from `f` start with its parent.
      obtain rfl : g = g' :=
        Option.some.inj ((getElem?_index hmem).1.symm.trans (getElem?_index hmem').1)
      exact ih h'

/-- Below an element there is what is listed, and the element itself. -/
theorem mem_descendants {e f : Element} : f ∈ e.descendants ↔ Below e f ∧ f ≠ e := by
  induction e using children_induction generalizing f with
  | step e ih =>
    rw [mem_descendants_iff_exists_child]
    constructor
    · rintro ⟨child, hchild, hf⟩
      have hbelow : Below child f := by
        rcases hf with rfl | hf
        · exact .self
        · exact ((ih child hchild).1 hf).1
      refine ⟨(Below.child .self hchild).trans hbelow, ?_⟩
      -- A child is deeper than its parent, and all below it are at least as deep.
      intro heq
      subst heq
      have := hbelow.depth_le
      have := depth_of_mem_children hchild
      omega
    · rintro ⟨hbelow, hne⟩
      rcases hbelow.eq_or_exists_child with rfl | ⟨child, hchild, hbelow⟩
      · exact absurd rfl hne
      · exact ⟨child, hchild, or_iff_not_imp_left.2 fun hne => (ih child hchild).2 ⟨hbelow, hne⟩⟩

theorem pairwise_index_place (parent : Element) (index start : Nat) (trees : List Tree) :
    (place parent index start trees).Pairwise fun e f => e.index ≠ f.index := by
  induction trees generalizing index start with
  | nil => exact .nil
  | cons tree trees ih =>
    refine .cons (fun e he => ?_) (ih (index + 1) (start + tree.length))
    obtain ⟨before, _, _, _, rfl⟩ := mem_place he
    show index ≠ index + 1 + before.length
    omega

/-- No element is listed twice. -/
theorem nodup_descendants (e : Element) : e.descendants.Nodup := by
  induction e using children_induction with
  | step e ih =>
    rw [descendants_eq, List.nodup_flatMap]
    constructor
    · intro child hchild
      exact List.nodup_cons.2 ⟨fun hmem => (mem_descendants.1 hmem).2 rfl, ih child hchild⟩
    · -- What is below two children at once makes them the same.
      have below {child f : Element} (hf : f ∈ child :: child.descendants) : Below child f := by
        rcases List.mem_cons.1 hf with rfl | hf
        · exact .self
        · exact (mem_descendants.1 hf).1
      refine (pairwise_index_place e 0 e.start e.tree.children).imp_of_mem ?_
      intro child child' hchild hchild' hindex f hf hf'
      have hdepth := (depth_of_mem_children hchild).trans (depth_of_mem_children hchild').symm
      exact hindex (congrArg index ((below hf).eq_of_depth_eq (below hf') hdepth))

/-! ## Collecting and searching -/

mutual

theorem tokensBelow_eq_filter : (tree : Tree) → (e : Element) → e.tree = tree →
    tokensBelow e tree = (e :: descendantsBelow e tree).filter fun f => !f.tree.isNode
  | .token .., e, h => by
    rw [List.filter_cons_of_pos (by simp [h, Tree.isNode])]
    rfl
  | .node _ children, e, h => by
    rw [List.filter_cons_of_neg (by simp [h, Tree.isNode])]
    exact tokensAmong_eq_filter children e 0 e.start

theorem tokensAmong_eq_filter : (trees : List Tree) → (parent : Element) → (index start : Nat) →
    tokensAmong parent index start trees =
      (descendantsAmong parent index start trees).filter fun f => !f.tree.isNode
  | [], _, _, _ => rfl
  | tree :: trees, parent, index, start => by
    have hbelow := tokensBelow_eq_filter tree (child parent index start tree) rfl
    have hbehind := tokensAmong_eq_filter trees parent (index + 1) (start + tree.length)
    rw [tokensAmong, descendantsAmong, List.filter_append, hbelow, hbehind]

end

/-- The tokens below an element are those among its descendants. -/
theorem tokens_eq_filter (e : Element) :
    e.tokens = e.descendants.filter fun f => !f.tree.isNode := by
  rw [tokens, descendants]
  cases e.tree with
  | token => rfl
  | node kind children => exact tokensAmong_eq_filter children e 0 e.start

theorem Tiled.append {start middle stop : Nat} {elements more : List Element}
    (h : Tiled start elements middle) (hmore : Tiled middle more stop) :
    Tiled start (elements ++ more) stop := by
  induction elements generalizing start with
  | nil =>
    obtain rfl : start = middle := h
    exact hmore
  | cons e rest ih => exact ⟨h.1, ih h.2⟩

mutual

theorem tiled_tokensBelow : (tree : Tree) → (e : Element) → e.tree = tree →
    Tiled e.start (tokensBelow e tree) (e.start + tree.length)
  | .token .., e, h => ⟨rfl, by rw [stop, h]; rfl⟩
  | .node _ children, e, _ => tiled_tokensAmong children e 0 e.start

theorem tiled_tokensAmong : (trees : List Tree) → (parent : Element) → (index start : Nat) →
    Tiled start (tokensAmong parent index start trees) (start + Tree.lengthAll trees)
  | [], _, _, _ => rfl
  | tree :: trees, parent, index, start => by
    have hbelow := tiled_tokensBelow tree (child parent index start tree) rfl
    have hbehind := tiled_tokensAmong trees parent (index + 1) (start + tree.length)
    rw [tokensAmong, Tree.lengthAll, ← Nat.add_assoc]
    exact hbelow.append hbehind

end

/-- The tokens below a node lie side by side in it. -/
theorem tiled_tokens {e : Element} (h : e.tree.isNode = true) : Tiled e.start e.tokens e.stop := by
  rw [stop, Tree.length_eq_lengthAll h]
  exact tiled_tokensAmong e.tree.children e 0 e.start

section

variable (kind : Kind)

mutual

theorem findBelow_eq_find? : (tree : Tree) → (e : Element) →
    findBelow kind e tree = (descendantsBelow e tree).find? (isNodeOf kind)
  | .token .., _ => rfl
  | .node _ children, e => findAmong_eq_find? children e 0 e.start

theorem findAmong_eq_find? : (trees : List Tree) → (parent : Element) → (index start : Nat) →
    findAmong kind parent index start trees =
      (descendantsAmong parent index start trees).find? (isNodeOf kind)
  | [], _, _, _ => rfl
  | tree :: trees, parent, index, start => by
    have hbelow := findBelow_eq_find? tree (child parent index start tree)
    have hbehind := findAmong_eq_find? trees parent (index + 1) (start + tree.length)
    have hfound : (tree.isNode = true ∧ tree.kind = kind) ↔
        isNodeOf kind (child parent index start tree) = true := by
      rw [isNodeOf, Bool.and_eq_true, decide_eq_true_iff]
      rfl
    rw [findAmong, descendantsAmong, List.find?_append, ← hbehind, List.find?_cons, hbelow]
    simp only [hfound]
    cases isNodeOf kind (child parent index start tree) <;> rfl

end

/-- A search finds the first node of its kind among the descendants of an element. -/
theorem findFirst_eq_find? (e : Element) :
    e.findFirst kind = e.descendants.find? (isNodeOf kind) :=
  findBelow_eq_find? kind e.tree e

end

/-! ## All elements of a tree -/

/-- An element stands where its tree does in a source, and the ways from it to others agree. -/
structure Navigable (source : List Char) (root e : Element) : Prop where
  slice : e.range.slice source = e.tree.text
  textIn : e.textIn source = e.tree.text
  length : e.stop - e.start = e.tree.text.length
  children : e.tree.isNode = true → Tiled e.start e.children e.stop
  parent : e = root ∨ ∃ parent, e.parent? = some parent ∧ Below root parent ∧
    parent.children[e.index]? = some e
  next : ∀ f, e.next? = some f → Below root f ∧ f.previous? = some e
  previous : ∀ f, e.previous? = some f → Below root f ∧ f.next? = some e
  /-- The steps lead along the children of the parent, and end behind the last and the first. -/
  steps : ∀ parent, e.parent? = some parent →
    e.next? = parent.children[e.index + 1]? ∧
    (e.next? = none ↔ e.index + 1 = parent.children.length) ∧
    (∀ i, e.index = i + 1 → e.previous? = parent.children[i]?) ∧
    (e.previous? = none ↔ e.index = 0)
  alone : e.parent? = none → e.next? = none ∧ e.previous? = none
  /-- Each child is listed in front of what is below it. -/
  descendants : e.descendants = e.children.flatMap fun child => child :: child.descendants
  nodup : e.descendants.Nodup
  below : ∀ f, f ∈ e.descendants ↔ Below e f ∧ f ≠ e
  tokens : e.tokens = e.descendants.filter fun f => !f.tree.isNode
  tiled : e.tree.isNode = true → Tiled e.start e.tokens e.stop
  findFirst : ∀ kind, e.findFirst kind = e.descendants.find? (isNodeOf kind)

/-- Every element of a tree stands where its own tree does, and the ways from it to its parent, its
children, its siblings and to all below it agree. -/
theorem navigable (tree : Tree) (e : Element) (h : Below (.root tree) e) :
    Navigable tree.text (.root tree) e where
  slice := slice_range h
  textIn := textIn_eq h
  length := by
    rw [Tree.length_text]
    exact Nat.add_sub_cancel_left _ _
  children := tiled_children
  parent := h.eq_or_parent
  next _ hnext := h.of_next? hnext
  previous _ hprevious := h.of_previous? hprevious
  steps _ hparent := h.steps_of_parent? hparent
  alone hparent := by
    cases e with
    | root => exact ⟨rfl, rfl⟩
    | child => cases hparent
  descendants := descendants_eq e
  nodup := nodup_descendants e
  below _ := mem_descendants
  tokens := tokens_eq_filter e
  tiled := tiled_tokens
  findFirst kind := findFirst_eq_find? kind e

/-- The second star around a text in bold stands two children down. -/
theorem navigable_inner_token :
    let strong : Tree := .node .strong [.token .star ['*'], .token .star ['*']]
    let tree : Tree := .node .markup [.token .text ['a'], strong]
    let star : Element := .child (.child (.root tree) 1 1 strong) 1 2 (.token .star ['*'])
    Below (.root tree) star ∧ Navigable ['a', '*', '*'] (.root tree) star := by
  intro strong tree star
  have hstrong : Below (.root tree) (.child (.root tree) 1 1 strong) :=
    .child .self (List.mem_of_getElem? (i := 1) rfl)
  have hstar : Below (.root tree) star := .child hstrong (List.mem_of_getElem? (i := 1) rfl)
  exact ⟨hstar, navigable tree star hstar⟩

end Element

end TypstFormat
