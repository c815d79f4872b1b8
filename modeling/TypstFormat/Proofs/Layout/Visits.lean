import TypstFormat.Proofs.Layout.Alone

/-!
# Each element is written as it is by itself

A document is written with one context, which goes from each element to the next. `visits` writes it
in the same way and tells of each element that is visited: with which context this begins, and into
which fragment the element is written. Whatever the tree is, and also if no source is read as it, no
visit begins behind a space or a line feed, and each fragment is the one that the element has by
itself.

## Key results

- `map_visits`: but for what is told, `visits` is `tree`
- `elements_visits`: every element is visited once
- `visits_fresh`: what is remembered of the text so far does not pass from one element to another
- `document_fragments_alone`: so the layout of a document is put together of the layouts of its
  elements
-/

namespace TypstFormat

namespace Element

mutual

/-- The elements of a tree that stands at `e`, each behind those below it. -/
def inside (e : Element) : Tree → List Element
  | .token .. => [e]
  | .node _ children => insideAll e 0 e.start children ++ [e]

/-- The elements of neighbouring trees below `parent`. -/
def insideAll (parent : Element) (index start : Nat) : List Tree → List Element
  | [] => []
  | tree :: trees =>
    inside (child parent index start tree) tree
      ++ insideAll parent (index + 1) (start + tree.length) trees

end

end Element

namespace Layout

open Render

/-- What happened when an element was written. -/
structure Visit where
  element : Element
  /-- The context with which the visit began. -/
  entry : Context
  /-- What the element was written as. -/
  fragment : List Char

/-- Writes a node whose children are written already. -/
def node (source : List Char) (start : Nat) (kind : Kind) (children : List Tree)
    (fragments : List (List Char)) : Render (List Char) :=
  match kind with
  | .args => arguments start children fragments
  | .parbreak => parbreak ((Text.Range.ofLength start (Tree.lengthAll children)).slice source)
  | _ => joined fragments

mutual

/-- Writes a tree that stands at `e`, and tells of the visits on the way, the first one first. -/
def visits (source : List Char) (e : Element) : Tree → Render (List Char × List Visit)
  | .token kind text => do
    let entry ← get
    let fragment ← tree source e.start (.token kind text)
    return (fragment, [⟨e, entry, fragment⟩])
  | .node kind children => do
    let entry ← get
    let (fragments, below) ← visitsAll source e 0 e.start children
    let fragment ← node source e.start kind children fragments
    return (fragment, below ++ [⟨e, entry, fragment⟩])

/-- Writes neighbouring trees below `parent`, each into a fragment, and tells of the visits. -/
def visitsAll (source : List Char) (parent : Element) (index start : Nat) :
    List Tree → Render (List (List Char) × List Visit)
  | [] => return ([], [])
  | child :: children => do
    let (fragment, first) ← visits source (.child parent index start child) child
    reset
    let (fragments, rest) ←
      visitsAll source parent (index + 1) (start + child.length) children
    return (fragment :: fragments, first ++ rest)

end

theorem tree_node (source : List Char) (start : Nat) (kind : Kind) (children : List Tree) :
    tree source start (.node kind children) =
      trees source start children >>= node source start kind children := by
  rw [tree]
  rfl

mutual

/-- But for the visits that are told of, this is how the tree is written. -/
theorem map_visits (source : List Char) (e : Element) :
    (t : Tree) → Prod.fst <$> visits source e t = tree source e.start t
  | .token kind text => by
    simp only [visits, map_bind, map_pure, bind_pure]
    rfl
  | .node kind children => by
    rw [tree_node, ← map_visitsAll source e 0 e.start children]
    simp only [visits, map_bind, map_pure, bind_map_left, bind_pure]
    rfl

theorem map_visitsAll (source : List Char) (parent : Element) (index start : Nat) :
    (ts : List Tree) → Prod.fst <$> visitsAll source parent index start ts = trees source start ts
  | [] => by
    rw [visitsAll, trees, map_pure]
  | child :: children => by
    have hfirst := map_visits source (.child parent index start child) child
    rw [trees, ← map_visitsAll source parent (index + 1) (start + child.length) children,
      show tree source start child = _ from hfirst.symm]
    simp only [visitsAll, map_bind, map_pure, bind_map_left]

end

/-! ## What a visit begins with -/

/-- The context of a document of which nothing is written yet, but for notices. -/
structure Fresh (options : Options) (context : Context) : Prop where
  options_eq : context.options = options
  afterSpace_eq : context.afterSpace = false
  newlines_eq : context.newlines = 0

/-- What an element is written as with a context of its own. -/
def fragment? (source : List Char) (options : Options) (e : Element) :
    Except LayoutError (List Char) :=
  ((tree source e.start e.tree).run { options }).map Prod.fst

theorem node_agree (source : List Char) (start : Nat) (kind : Kind) (children : List Tree)
    (fragments : List (List Char)) :
    Agree (node source start kind children fragments) (node source start kind children fragments) := by
  unfold node
  split
  · exact arguments_agree (resembles_self children) start start fragments
  · exact emitNewlines_agree _
  · exact joined_agree fragments

mutual

/-- The notices so far do not matter, and neither does a space in front. -/
theorem tree_agree_self (source : List Char) (start : Nat) :
    (t : Tree) → Agree (tree source start t) (tree source start t)
  | .token kind text => by
    unfold tree
    split
    · exact space_agree text
    · exact emitNewlines_agree _
    · exact .pure text
  | .node kind children => by
    rw [tree_node]
    exact .bind (trees_agree_self source start children) fun fragments =>
      node_agree source start kind children fragments

theorem trees_agree_self (source : List Char) (start : Nat) :
    (ts : List Tree) → Agree (trees source start ts) (trees source start ts)
  | [] => .pure []
  | child :: children =>
    .bind (tree_agree_self source start child) fun _ =>
      .bind reset_agree fun _ =>
        .bind (trees_agree_self source (start + child.length) children) fun _ => .pure _

end

/-- With a fresh context an element is written as it is by itself. -/
theorem Fresh.fragment?_eq {source : List Char} {options : Options} {e : Element}
    {context after : Context} (h : Fresh options context) {fragment : List Char}
    (hrun : (tree source e.start e.tree).run context = .ok (fragment, after)) :
    fragment? source options e = .ok fragment := by
  obtain ⟨-, _, halone, -⟩ := (tree_agree_self source e.start e.tree).run_eq_ok
    hrun { options } h.options_eq h.newlines_eq
  rw [fragment?, halone]
  rfl

/-- The visit begins with a fresh context, and ends with what the element is by itself. -/
structure Visit.Alone (source : List Char) (options : Options) (visit : Visit) : Prop where
  entry : Fresh options visit.entry
  fragment_eq : fragment? source options visit.element = .ok visit.fragment

theorem run_of_visits {source : List Char} {e : Element} {t : Tree} {context after : Context}
    {text : List Char} {log : List Visit}
    (hrun : (visits source e t).run context = .ok ((text, log), after)) :
    (tree source e.start t).run context = .ok (text, after) := by
  rw [← map_visits, StateT.run_map, hrun]
  rfl

/-- The options stay as they are. -/
theorem options_of_visits {source : List Char} {e : Element} {t : Tree} {context after : Context}
    {text : List Char} {log : List Visit}
    (hrun : (visits source e t).run context = .ok ((text, log), after)) :
    after.options = context.options :=
  ((tree_agree_self source e.start t).run_eq_ok (run_of_visits hrun) context rfl rfl).1

mutual

/-- The visits of a tree are those of its elements. -/
theorem elements_visits {source : List Char} {e : Element} {context after : Context}
    {text : List Char} {log : List Visit} :
    (t : Tree) → (visits source e t).run context = .ok ((text, log), after) →
      log.map Visit.element = e.inside t
  | .token kind _, hrun => by
    obtain ⟨_, _, hentry, hrun⟩ := run_of_bind hrun
    obtain ⟨_, _, _, hrun⟩ := run_of_bind hrun
    obtain ⟨hlog, -⟩ := Prod.mk.inj (Except.ok.inj hrun)
    obtain ⟨-, rfl⟩ := Prod.mk.inj hlog
    rfl
  | .node kind children, hrun => by
    obtain ⟨_, _, hentry, hrun⟩ := run_of_bind hrun
    obtain ⟨⟨fragments, below⟩, _, hbelow, hrun⟩ := run_of_bind hrun
    obtain ⟨_, _, _, hrun⟩ := run_of_bind hrun
    obtain ⟨hlog, -⟩ := Prod.mk.inj (Except.ok.inj hrun)
    obtain ⟨-, rfl⟩ := Prod.mk.inj hlog
    rw [List.map_append, elements_visitsAll children hbelow]
    rfl

theorem elements_visitsAll {source : List Char} {parent : Element} {index start : Nat}
    {context after : Context} {fragments : List (List Char)} {log : List Visit} :
    (ts : List Tree) →
      (visitsAll source parent index start ts).run context = .ok ((fragments, log), after) →
      log.map Visit.element = parent.insideAll index start ts
  | [], hrun => by
    obtain ⟨hlog, -⟩ := Prod.mk.inj (Except.ok.inj hrun)
    obtain ⟨-, rfl⟩ := Prod.mk.inj hlog
    rfl
  | child :: children, hrun => by
    obtain ⟨⟨_, first⟩, _, hfirst, hrun⟩ := run_of_bind hrun
    obtain ⟨_, _, _, hrun⟩ := run_of_bind hrun
    obtain ⟨⟨_, rest⟩, _, hrest, hrun⟩ := run_of_bind hrun
    obtain ⟨hlog, -⟩ := Prod.mk.inj (Except.ok.inj hrun)
    obtain ⟨-, rfl⟩ := Prod.mk.inj hlog
    rw [List.map_append, elements_visits child hfirst, elements_visitsAll children hrest]
    rfl

end

mutual

/-- If the visit of an element begins with a fresh context, then so do those of all elements below
it. -/
theorem visits_alone {source : List Char} {options : Options} {e : Element}
    {context after : Context} {text : List Char} {log : List Visit} :
    (t : Tree) → e.tree = t → Fresh options context →
      (visits source e t).run context = .ok ((text, log), after) →
      ∀ visit ∈ log, visit.Alone source options
  | .token kind own, htree, hfresh, hrun => by
    have hself := hfresh.fragment?_eq (htree ▸ run_of_visits hrun)
    obtain ⟨_, _, hentry, hrun⟩ := run_of_bind hrun
    obtain ⟨rfl, rfl⟩ := Prod.mk.inj (Except.ok.inj hentry)
    obtain ⟨_, _, _, hrun⟩ := run_of_bind hrun
    obtain ⟨hlog, -⟩ := Prod.mk.inj (Except.ok.inj hrun)
    obtain ⟨rfl, rfl⟩ := Prod.mk.inj hlog
    exact List.forall_mem_singleton.2 ⟨hfresh, hself⟩
  | .node kind children, htree, hfresh, hrun => by
    have hself := hfresh.fragment?_eq (htree ▸ run_of_visits hrun)
    obtain ⟨_, _, hentry, hrun⟩ := run_of_bind hrun
    obtain ⟨rfl, rfl⟩ := Prod.mk.inj (Except.ok.inj hentry)
    obtain ⟨⟨fragments, below⟩, _, hbelow, hrun⟩ := run_of_bind hrun
    obtain ⟨_, _, _, hrun⟩ := run_of_bind hrun
    obtain ⟨hlog, -⟩ := Prod.mk.inj (Except.ok.inj hrun)
    obtain ⟨rfl, rfl⟩ := Prod.mk.inj hlog
    -- The first child is visited with the context of its parent.
    have hbelow := visitsAll_alone children hfresh hbelow
    exact List.forall_mem_append.2 ⟨hbelow, List.forall_mem_singleton.2 ⟨hfresh, hself⟩⟩

theorem visitsAll_alone {source : List Char} {options : Options} {parent : Element}
    {index start : Nat} {context after : Context} {fragments : List (List Char)}
    {log : List Visit} :
    (ts : List Tree) → Fresh options context →
      (visitsAll source parent index start ts).run context = .ok ((fragments, log), after) →
      ∀ visit ∈ log, visit.Alone source options
  | [], _, hrun => by
    obtain ⟨hlog, -⟩ := Prod.mk.inj (Except.ok.inj hrun)
    obtain ⟨-, rfl⟩ := Prod.mk.inj hlog
    exact List.forall_mem_nil _
  | child :: children, hfresh, hrun => by
    obtain ⟨⟨_, first⟩, behind, hfirst, hrun⟩ := run_of_bind hrun
    obtain ⟨_, _, hreset, hrun⟩ := run_of_bind hrun
    obtain ⟨-, rfl⟩ := Prod.mk.inj (Except.ok.inj hreset)
    obtain ⟨⟨_, rest⟩, _, hrest, hrun⟩ := run_of_bind hrun
    obtain ⟨hlog, -⟩ := Prod.mk.inj (Except.ok.inj hrun)
    obtain ⟨-, rfl⟩ := Prod.mk.inj hlog
    -- Between two children the context is reset.
    have hreset : Fresh options behind.reset :=
      ⟨(options_of_visits hfirst).trans hfresh.options_eq, rfl, rfl⟩
    exact List.forall_mem_append.2
      ⟨visits_alone child rfl hfresh hfirst, visitsAll_alone children hreset hrest⟩

end

/-- Whenever a tree has a layout, be it read from a source or put together by hand, each of its
elements is visited once, none of these visits begins behind a space or a line feed, and each one ends
with what its element is written as by itself. -/
theorem document_fragments_alone (source : List Char) (root : Tree) (options : Options)
    {text : List Char} {notices : List Notice}
    (h : document source root options = .ok (text, notices)) :
    Prod.fst <$> visits source (.root root) root = tree source 0 root ∧
      ∃ log after, (visits source (.root root) root).run { options } = .ok ((text, log), after) ∧
        after.notices = notices ∧
        log.map Visit.element = (Element.root root).inside root ∧
        ∀ visit ∈ log,
          visit.entry.options = options ∧ visit.entry.afterSpace = false ∧
            visit.entry.newlines = 0 ∧
            fragment? source options visit.element = .ok visit.fragment := by
  have hmap := map_visits source (.root root) root
  refine ⟨hmap, ?_⟩
  have hdocument : document source root options =
      ((Prod.fst <$> visits source (.root root) root).run { options }).map
        fun result => (result.1, result.2.notices) := by
    rw [hmap]
    rfl
  rw [hdocument, StateT.run_map] at h
  cases hrun : (visits source (.root root) root).run { options } with
  | error error =>
    rw [hrun] at h
    cases h
  | ok result =>
    obtain ⟨⟨written, log⟩, after⟩ := result
    rw [hrun] at h
    obtain ⟨rfl, rfl⟩ := Prod.mk.inj (Except.ok.inj h)
    refine ⟨log, after, rfl, rfl, elements_visits root hrun, fun visit hvisit => ?_⟩
    have halone := visits_alone root rfl ⟨rfl, rfl, rfl⟩ hrun visit hvisit
    exact ⟨halone.entry.options_eq, halone.entry.afterSpace_eq, halone.entry.newlines_eq,
      halone.fragment_eq⟩

/-- A tree that no source is read as: line breaks in front of a list of arguments, inside it, and
behind it. -/
def handBuilt : Tree :=
  .node .markup
    [.token .parbreak "\n\n".toList,
      .node .args
        [.token .leftParen "(".toList, .token .space "\n\n\n".toList, .token .ident "a".toList,
          .node .parbreak [], .token .rightParen ")".toList],
      .token .space "\r\n\n\n  ".toList]

theorem document_fragments_alone_hand_built :
    document [] handBuilt {} =
        .ok ("\n\n(a)\n\n  ".toList, [.suppressedNewline, .keeping 2 3, .suppressedNewline]) ∧
      Prod.fst <$> visits [] (.root handBuilt) handBuilt = tree [] 0 handBuilt ∧
      ∃ log after,
        (visits [] (.root handBuilt) handBuilt).run {} = .ok (("\n\n(a)\n\n  ".toList, log), after) ∧
        after.notices = [.suppressedNewline, .keeping 2 3, .suppressedNewline] ∧
        log.map Visit.element = (Element.root handBuilt).inside handBuilt ∧
        ∀ visit ∈ log,
          visit.entry.options = {} ∧ visit.entry.afterSpace = false ∧ visit.entry.newlines = 0 ∧
            fragment? [] {} visit.element = .ok visit.fragment := by
  have h : document [] handBuilt {} =
      .ok ("\n\n(a)\n\n  ".toList, [.suppressedNewline, .keeping 2 3, .suppressedNewline]) := by
    rfl
  exact ⟨h, document_fragments_alone [] handBuilt {} h⟩

end Layout

end TypstFormat
