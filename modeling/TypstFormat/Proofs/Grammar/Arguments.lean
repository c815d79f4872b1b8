import TypstFormat.Proofs.Grammar.Delimiters
import TypstFormat.Proofs.Token.Tokenize
import TypstFormat.Proofs.Tree.Gaps
import TypstFormat.Tree.Element
import TypstFormat.Layout.Siblings

/-!
# Lists of arguments in a tree

Without diagnostics, the children of a list of arguments are items between parentheses, with commas
between them and perhaps one behind the last item, and content blocks. The parentheses may be
missing. Trivia stands between the parentheses only, and no two pieces of white space meet there.
The arguments of a call come right behind what is called. So it is known of each comma whether it is
the last one.

Trivia stands in gaps in front of drafts (`Spaced`), and a draft that is attached has none there.
This leaves the gaps of the items, the commas and the closing parenthesis.

## Key results

- `IsGap.isChain`: no two pieces of white space meet in a gap
- `Spaced.isArgs`, `Spaced.isCall`: lists of arguments and calls keep their shapes
- `parse_args_shape`: what lists of arguments and calls look like in a tree without diagnostics
-/

namespace TypstFormat

open Draft

/-- No two pieces of white space meet. -/
def Kind.Apart (kind next : Kind) : Prop :=
  ¬(kind = .space ∧ next = .space)

namespace Tree

/-- The children of a list of arguments. -/
structure IsArgs (children : List Tree) : Prop where
  parts : ∃ list blocks : List Tree, children = list ++ blocks ∧
    (list = [] ∨ ∃ inner, list.map kind = .leftParen :: (inner ++ [.rightParen]) ∧
      ItemKinds (inner.filter (!·.isTrivia))) ∧
    ∀ block ∈ blocks, ∃ inner, block = .node .contentBlock inner
  apart : (children.map kind).IsChain Kind.Apart

/-- The children of a call. -/
def IsCall (children : List Tree) : Prop :=
  ∃ callee args, children = [callee, .node .args args] ∧ callee.kind.isItem = true

/-- Lists of arguments and calls have their shapes. -/
structure Shaped (kind : Kind) (children : List Tree) : Prop where
  args : kind = .args → IsArgs children
  call : kind = .funcCall → IsCall children

theorem nodesAll_append (trees more : List Tree) :
    nodesAll (trees ++ more) = nodesAll trees ++ nodesAll more := by
  induction trees with
  | nil => rfl
  | cons tree trees ih => simp [nodesAll, ih]

end Tree

/-- Between two parentheses there are items and commas. -/
theorem ItemKinds.mem_cases {kinds : List Kind} (h : ItemKinds kinds) {kind : Kind}
    (hkind : kind ∈ kinds) : kind.isItem = true ∨ kind = .comma := by
  obtain ⟨items, last, rfl, hitems⟩ := h
  rcases List.mem_append.1 hkind with hkind | hkind
  · obtain ⟨item, hitem, hkind⟩ := List.mem_flatMap.1 hkind
    rcases List.mem_pair.1 hkind with rfl | rfl
    · exact .inl (hitems _ (List.mem_append_left _ hitem))
    · exact .inr rfl
  · exact .inl (hitems _ (List.mem_append_right _ hkind))

/-- Between two parentheses there is neither trivia nor anything that closes a list. -/
theorem ItemKinds.plain {kinds : List Kind} (h : ItemKinds kinds) :
    ∀ kind ∈ kinds, kind.isTrivia = false ∧ kind.isTerminator = false := by
  intro kind hkind
  rcases h.mem_cases hkind with hitem | rfl
  · exact (Kind.isTrivia_of_isItem hitem).imp_right And.left
  · exact ⟨rfl, rfl⟩

/-! ## Gaps -/

namespace IsGap

variable {source : List Char} {next : Look} {toCome : Bool} {gap : List Tree}

theorem nodesAll_eq_nil (h : IsGap source next toCome gap) : Tree.nodesAll gap = [] := by
  cases h with
  | none => rfl
  | all =>
    induction next.trivia with
    | nil => rfl
    | cons piece pieces ih => exact ih

/-- White space takes all white space behind it, so the next piece is something else. -/
theorem isChain (h : IsGap source next toCome gap) : (gap.map Tree.kind).IsChain Kind.Apart := by
  cases h with
  | none => exact .nil
  | @all offset hcovers =>
    have hall := hcovers.isTrivia
    have htile := hcovers.tile
    generalize next.trivia = pieces at hall htile
    clear hcovers
    induction pieces generalizing offset with
    | nil => exact .nil
    | cons piece pieces ih =>
      obtain ⟨-, -, hrest⟩ := htile
      obtain ⟨⟨-, token, hcut, rfl⟩, hpieces⟩ := List.forall_mem_cons.1 hall
      refine List.isChain_cons.2 ⟨?_, ih hpieces hrest⟩
      cases pieces with
      | nil => simp
      | cons piece' pieces =>
        obtain ⟨⟨-, token', hcut', rfl⟩, -⟩ := List.forall_mem_cons.1 hpieces
        rintro kind ⟨⟩ ⟨hspace, hspace'⟩
        have hspace : token.kind = .space := hspace
        have hspace' : token'.kind = .space := hspace'
        exact (hcut.meets hcut' hrest.1).2 ⟨by rw [hspace]; rfl, by rw [hspace']; rfl⟩

/-- In front of what is attached there is no gap. -/
theorem eq_nil {drafts : List Draft} (h : IsGap source (front drafts next) toCome gap)
    (hattached : Attached drafts) : gap = [] := by
  obtain ⟨l, hhead, htrivia⟩ := hattached
  exact h.eq_nil_of_trivia (by rw [front_of_head? hhead, htrivia])

end IsGap

/-! ## Spaced trees -/

namespace Spaced

variable {source : List Char} {next : Look} {drafts more : List Draft} {trees : List Tree}
  {before after : Bool}

/-- Nothing comes behind what the drafts end with. -/
theorem getLast?_eq (h : Spaced source next before drafts trees after) :
    (trees.map Tree.kind).getLast? = (kinds drafts).getLast? := by
  induction h with
  | nil => rfl
  | token _ _ _ ih =>
    rw [List.map_append, List.map_cons, List.getLast?_append, kinds_token, List.getLast?_cons,
      List.getLast?_cons, ih]
    rfl
  | void _ ih => exact ih
  | node _ _ _ _ _ ih =>
    rw [List.map_append, List.map_cons, List.getLast?_append, kinds_node, List.getLast?_cons,
      List.getLast?_cons, ih]
    rfl

/-- White space stands in gaps only, and no two gaps meet. -/
theorem isChain (h : Spaced source next before drafts trees after)
    (hkinds : ∀ kind ∈ kinds drafts, kind ≠ .space) :
    (trees.map Tree.kind).IsChain Kind.Apart := by
  -- Whatever no white space is, white space may stand in front of it and behind it.
  have hplace {gap trees : List Tree} {next : Look} {toCome : Bool} {tree : Tree}
      (hgap : IsGap source next toCome gap) (hkind : tree.kind ≠ .space)
      (h : (trees.map Tree.kind).IsChain Kind.Apart) :
      ((gap ++ tree :: trees).map Tree.kind).IsChain Kind.Apart := by
    rw [List.map_append, List.map_cons, List.isChain_append, List.isChain_cons]
    refine ⟨hgap.isChain, ⟨fun _ _ hspaces => hkind hspaces.1, h⟩, ?_⟩
    rintro _ - _ ⟨⟩ hspaces
    exact hkind hspaces.2
  induction h with
  | nil => exact .nil
  | token hgap _ _ ih =>
    rw [kinds_token, List.forall_mem_cons] at hkinds
    exact hplace hgap hkinds.1 (ih hkinds.2)
  | void _ ih => exact ih hkinds
  | node hgap _ _ _ _ ih =>
    rw [kinds_node, List.forall_mem_cons] at hkinds
    exact hplace hgap hkinds.1 (ih hkinds.2)

/-- One draft, and what stands in front of it. -/
theorem singleton (h : Spaced source next before drafts trees after) {kind : Kind}
    (hkinds : kinds drafts = [kind])
    (hhead : (trees.map Tree.kind).head? = some kind) (hkind : kind.isTrivia = false) :
    ∃ tree, trees = [tree] ∧ tree.kind = kind := by
  cases trees with
  | nil => cases hhead
  | cons tree trees =>
    obtain rfl : tree.kind = kind := Option.some.inj hhead
    have hfilter : ((tree :: trees).map Tree.kind).filter (!·.isTrivia) =
        (kinds drafts).filter (!·.isTrivia) := h.filter_kinds_eq fun _ htrivia => by simp [htrivia]
    rw [hkinds, List.map_cons, List.filter_cons_of_pos (by simp [hkind]),
      List.filter_cons_of_pos (by simp [hkind])] at hfilter
    refine ⟨tree, ?_, rfl⟩
    cases trees with
    | nil => rfl
    | cons next trees =>
      -- All else would be trivia, and trivia does not come last.
      have hlast := h.getLast?_eq
      rw [hkinds, List.map_cons, List.getLast?_cons_of_ne_nil (by simp)] at hlast
      have hmem := List.mem_of_getLast? hlast
      have htrivia := List.filter_eq_nil_iff.1 (List.cons.inj hfilter).2 _ hmem
      simp [hkind] at htrivia

/-- Blocks that are attached stand side by side. -/
theorem blocks (h : Spaced source next before drafts trees after) (hblocks : ∀ block ∈ drafts,
      block.isNode = true ∧ block.kind = .contentBlock ∧ Attached [block]) :
    ∀ tree ∈ trees, ∃ inner, tree = .node .contentBlock inner := by
  induction h with
  | nil => simp
  | token => cases (hblocks _ List.mem_cons_self).1
  | void => cases (hblocks _ List.mem_cons_self).1
  | node hgap _ _ _ _ ih =>
    obtain ⟨⟨-, hkind, hattached⟩, hblocks⟩ := List.forall_mem_cons.1 hblocks
    have hattached : Attached _ := attached_node.1 hattached
    rw [hgap.eq_nil hattached, List.nil_append]
    exact List.forall_mem_cons.2 ⟨⟨_, by rw [← hkind]; rfl⟩, ih hblocks⟩

/-- What comes first stands first in its own part. -/
theorem head?_front {front behind : List Tree} (h : Spaced source next before drafts front after)
    (hends : SameEnds (drafts ++ more) (front ++ behind)) {kind : Kind}
    (hkind : (kinds drafts).head? = some kind) : (front.map Tree.kind).head? = some kind := by
  have hhead := hends.head?_eq
  rw [kinds_append, List.head?_append, hkind] at hhead
  cases front with
  | nil =>
    have hlast := h.getLast?_eq
    rw [List.map_nil, List.getLast?_nil, eq_comm, List.getLast?_eq_none_iff] at hlast
    rw [hlast] at hkind
    cases hkind
  | cons tree front => exact hhead

/-- A list of arguments keeps its shape. -/
theorem isArgs (h : Spaced source next before drafts trees after) (hends : SameEnds drafts trees)
    (hargs : Draft.IsArgs drafts) : Tree.IsArgs trees := by
  obtain ⟨⟨list, blocks, rfl, hlist, hblocks⟩, -⟩ := hargs
  have hblockKinds : ∀ kind ∈ kinds blocks, kind = .contentBlock := by
    intro kind hkind
    obtain ⟨block, hblock, rfl⟩ := List.mem_map.1 hkind
    exact (hblocks block (List.mem_of_mem_filter hblock)).2.1
  obtain ⟨front, behind, between, rfl, hfront, hbehind⟩ := h.of_append
  rcases hlist with rfl | ⟨items, hitems, hkinds⟩
  · have hspaces : ∀ kind ∈ kinds ([] ++ blocks), kind ≠ .space := by
      rintro kind hkind rfl
      cases hblockKinds _ hkind
    cases hfront
    exact ⟨⟨[], behind, rfl, .inl rfl, hbehind.blocks hblocks⟩, h.isChain hspaces⟩
  · have htrivia : ∀ kind ∈ kinds list, kind.isTrivia = false := by
      intro kind hkind
      rw [hkinds] at hkind
      rcases List.mem_cons.1 hkind with rfl | hkind
      · rfl
      · rcases List.mem_append.1 hkind with hkind | hkind
        · exact (hitems.plain kind hkind).1
        · rw [List.mem_singleton.1 hkind]
          rfl
    refine ⟨⟨front, behind, rfl, .inr ?_, hbehind.blocks hblocks⟩, h.isChain ?_⟩
    · -- The list starts and ends with the parentheses, and in between only trivia is new.
      have hhead := hfront.head?_front hends (by rw [hkinds]; rfl)
      have hlast : (front.map Tree.kind).getLast? = some .rightParen := by
        rw [hfront.getLast?_eq, hkinds, ← List.cons_append, List.getLast?_concat]
      have hfilter : (front.map Tree.kind).filter (!·.isTrivia) =
          .leftParen :: (items ++ [.rightParen]) := by
        rw [hfront.filter_kinds_eq fun _ htrivia => by simp [htrivia], ← hkinds]
        exact List.filter_eq_self.2 fun kind hkind => by simp [htrivia kind hkind]
      have hlength : 2 ≤ (front.map Tree.kind).length := by
        refine Nat.le_trans ?_ (List.length_filter_le (!·.isTrivia) _)
        rw [hfilter]
        simp
      obtain ⟨inner, hinner⟩ := Between.of_ends hhead hlast hlength
      refine ⟨inner, hinner, ?_⟩
      rw [hinner, List.filter_cons_of_pos rfl, List.filter_append] at hfilter
      have heq : inner.filter (!·.isTrivia) = items :=
        List.append_cancel_right (List.cons.inj hfilter).2
      rw [heq]
      exact hitems
    · rintro kind hkind rfl
      rw [kinds_append] at hkind
      rcases List.mem_append.1 hkind with hkind | hkind
      · cases htrivia _ hkind
      · cases hblockKinds _ hkind

/-- A call keeps its shape: nothing comes between what is called and the arguments. -/
theorem isCall (h : Spaced source next before drafts trees after) (hends : SameEnds drafts trees)
    (hcall : Draft.IsCall drafts) : Tree.IsCall trees := by
  obtain ⟨callee, kind, args, rfl, hkinds, hitem, hattached⟩ := hcall
  obtain ⟨front, behind, between, rfl, hfront, hbehind⟩ := h.of_append
  have hhead := hfront.head?_front hends (by rw [hkinds]; rfl)
  obtain ⟨tree, rfl, rfl⟩ := hfront.singleton hkinds hhead (Kind.isTrivia_of_isItem hitem).1
  cases hbehind with
  | node hgap _ _ hnil =>
    cases hnil
    rw [hgap.eq_nil hattached]
    exact ⟨tree, _, rfl, hitem⟩

/-- Every node has grown out of one, in front of which all trivia stands. -/
theorem exists_draft (h : Spaced source next before drafts trees after) : ∀ node ∈ Tree.nodesAll trees,
    ∃ inner next within, (node.1, inner) ∈ Draft.nodesAll drafts ∧ SameEnds inner node.2 ∧
      Spaced source next false inner node.2 within := by
  induction h with
  | nil => simp [Tree.nodesAll]
  | token hgap _ _ ih =>
    rw [Tree.nodesAll_append, hgap.nodesAll_eq_nil]
    exact ih
  | void _ ih => exact ih
  | node hgap hends hinner _ ihinner ih =>
    rw [Tree.nodesAll_append, hgap.nodesAll_eq_nil, List.nil_append]
    intro node hnode
    rcases List.mem_append.1 hnode with hnode | hnode
    · rcases List.mem_cons.1 hnode with rfl | hnode
      · exact ⟨_, _, _, List.mem_append_left _ List.mem_cons_self, hends, hinner⟩
      · obtain ⟨inner, next, within, hmem, hspaced⟩ := ihinner node hnode
        exact ⟨inner, next, within, List.mem_append_left _ (List.mem_cons_of_mem _ hmem), hspaced⟩
    · obtain ⟨inner, next, within, hmem, hspaced⟩ := ih node hnode
      exact ⟨inner, next, within, List.mem_append_right _ hmem, hspaced⟩

/-- All lists of arguments and all calls keep their shapes. -/
theorem shapedAll (h : Spaced source next before drafts trees after) (hsound : SoundAll drafts) :
    ∀ node ∈ Tree.nodesAll trees, Tree.Shaped node.1 node.2 := by
  rintro ⟨kind, children⟩ hnode
  obtain ⟨inner, _, _, hmem, hends, hinner⟩ := h.exists_draft _ hnode
  have hformed := Draft.formed_of_mem_nodesAll drafts hsound hmem
  constructor
  · rintro rfl
    exact hinner.isArgs hends hformed.shape
  · rintro rfl
    exact hinner.isCall hends hformed.shape

end Spaced

/-! ## The last comma -/

namespace Element

theorem map_kind_place (parent : Element) (index start : Nat) (trees : List Tree) :
    (place parent index start trees).map kind = trees.map Tree.kind := by
  induction trees generalizing index start with
  | nil => rfl
  | cons first trees ih =>
    rw [place, List.map_cons, List.map_cons, ih]
    rfl

/-- A child stands among the children, and those behind it are its siblings. -/
theorem split_of_mem_children {e child : Element} (h : child ∈ e.children) :
    ∃ before behind, e.tree.children = before ++ child.tree :: behind ∧
      child.followingKinds = behind.map Tree.kind := by
  obtain ⟨before, tree, behind, hchildren, rfl⟩ := mem_place h
  refine ⟨before, behind, hchildren, ?_⟩
  have hdrop : e.tree.children.drop (before.length + 1) = behind := by
    rw [hchildren, ← List.drop_drop, List.drop_left]
    rfl
  have hsiblings : (e.children.map kind).drop (before.length + 1) = behind.map Tree.kind := by
    rw [children, map_kind_place, ← List.map_drop, hdrop]
  rw [← hsiblings, ← List.map_drop, Nat.zero_add]
  rfl

end Element

/-- In front of the parenthesis that closes a list, only a comma can come. -/
theorem Siblings.isLastComma?_closed {inner blocks : List Kind}
    (hinner : ∀ kind ∈ inner, kind.isTerminator = false) (hblocks : .comma ∉ blocks) :
    isLastComma? (inner ++ .rightParen :: blocks) =
      some (!(inner ++ .rightParen :: blocks).contains .comma) := by
  induction inner with
  | nil =>
    simpa [isLastComma?, Kind.isTerminator] using hblocks
  | cons kind inner ih =>
    obtain ⟨hkind, hinner⟩ := List.forall_mem_cons.1 hinner
    rw [List.cons_append, isLastComma?]
    by_cases hcomma : kind = .comma
    · simp [hcomma]
    · rw [if_neg hcomma, hkind, if_neg (by simp), ih hinner, List.contains_cons]
      simp [Ne.symm hcomma]

/-- What follows a comma tells whether it is the last one, as a parenthesis closes the list. -/
theorem Tree.IsArgs.isLastComma?_eq {before behind : List Tree} {comma : Tree}
    (h : IsArgs (before ++ comma :: behind)) (hcomma : comma.kind = .comma) :
    Siblings.isLastComma? (behind.map kind) = some (!(behind.map kind).contains .comma) := by
  obtain ⟨⟨list, blocks, heq, hlist, hblocks⟩, -⟩ := h
  have hblocks : ∀ block ∈ blocks, block.kind = .contentBlock := by
    intro block hblock
    obtain ⟨inner, rfl⟩ := hblocks block hblock
    rfl
  have hmem : comma ∉ blocks := by
    intro hmem
    rw [hblocks comma hmem] at hcomma
    cases hcomma
  -- The comma stands in the list, so the parenthesis of the list follows it.
  obtain ⟨rest, rfl, rfl⟩ : ∃ rest, list = before ++ comma :: rest ∧ behind = rest ++ blocks := by
    rcases List.append_eq_append_iff.1 heq with ⟨rest, rfl, hrest⟩ | ⟨rest, rfl, rfl⟩
    · cases rest with
      | nil =>
        refine absurd ?_ hmem
        rw [List.nil_append] at hrest
        rw [← hrest]
        exact List.mem_cons_self
      | cons _ rest =>
        obtain ⟨rfl, rfl⟩ := List.cons.inj hrest
        exact ⟨rest, rfl, rfl⟩
    · exact absurd (List.mem_append_right _ List.mem_cons_self) hmem
  obtain ⟨inner, hkinds, hitems⟩ := hlist.resolve_left (by simp)
  rw [List.map_append, List.map_cons, hcomma] at hkinds
  obtain ⟨front, behind, hrest, hinner⟩ : ∃ front behind,
      rest.map kind = behind ++ [.rightParen] ∧ inner = front ++ .comma :: behind := by
    cases before with
    | nil => cases hkinds
    | cons first before =>
      rcases List.eq_nil_or_concat' (rest.map kind) with hnil | ⟨behind, last, hrest⟩
      · rw [hnil] at hkinds
        have hlast := (List.append_inj' (List.cons.inj hkinds).2 rfl).2
        cases hlast
      · rw [hrest, ← List.cons_append, ← List.append_assoc] at hkinds
        obtain ⟨hinner, hlast⟩ := List.append_inj' (List.cons.inj hkinds).2 rfl
        rw [List.singleton_inj] at hlast
        exact ⟨_, behind, by rw [hrest, hlast], hinner.symm⟩
  have hterminator : ∀ kind ∈ behind, kind.isTerminator = false := by
    intro kind hkind
    cases htrivia : kind.isTrivia with
    | true =>
      revert htrivia
      cases kind <;> decide
    | false =>
      refine (hitems.plain kind (List.mem_filter.2 ⟨?_, by simp [htrivia]⟩)).2
      rw [hinner]
      exact List.mem_append_right _ (List.mem_cons_of_mem _ hkind)
  have hcommas : Kind.comma ∉ blocks.map kind := by
    intro hmem
    obtain ⟨block, hblock, hkind⟩ := List.mem_map.1 hmem
    rw [hblocks block hblock] at hkind
    cases hkind
  rw [List.map_append, hrest, List.append_assoc]
  exact Siblings.isLastComma?_closed hterminator hcommas

/-- It is known of every comma below a list of arguments whether it is the last one. -/
theorem Element.isLastComma?_eq {e comma : Element} (h : Tree.IsArgs e.tree.children)
    (hmem : comma ∈ e.children) (hcomma : comma.kind = .comma) :
    comma.isLastComma? = .ok (!comma.followingKinds.contains .comma) := by
  obtain ⟨before, behind, hchildren, hfollowing⟩ := split_of_mem_children hmem
  rw [hchildren] at h
  rw [isLastComma?, if_pos hcomma, hfollowing, h.isLastComma?_eq hcomma]

/-- Without diagnostics, all lists of arguments and all calls of a tree keep their shapes. -/
theorem Parsed.BuiltOf.shaped {parsed : Parsed} {drafts : List Draft} (h : parsed.BuiltOf drafts)
    (hclean : parsed.diagnostics = []) :
    ∀ node ∈ parsed.tree.nodes, Tree.Shaped node.1 node.2 := by
  intro node hnode
  obtain ⟨trees, gap, _, _, _, htree, hspaced, hgap, -⟩ := h.spaced
  rw [htree, Tree.nodes, Tree.nodesAll_append, hgap.nodesAll_eq_nil, List.append_nil] at hnode
  rcases List.mem_cons.1 hnode with rfl | hnode
  · -- The root is neither a list of arguments nor a call.
    constructor <;> intro hkind <;> cases hmode : parsed.mode <;> rw [hmode] at hkind <;>
      cases hkind
  · exact hspaced.shapedAll (h.sound hclean).2 node hnode

/-- Without diagnostics, all lists of arguments and all calls have their shapes, and a comma of such
a list is known to be the last one or not, which it is if no other comma follows. -/
theorem parse_args_shape (source : List Char) (mode : Mode) :
    ∃ parsed, parse source mode = .ok parsed ∧ (parsed.diagnostics = [] →
      ∀ node ∈ parsed.tree.nodes,
        (node.1 = .args → Tree.IsArgs node.2 ∧
          ∀ e : Element, e.tree = .node node.1 node.2 → ∀ comma ∈ e.children,
            comma.kind = .comma →
              comma.isLastComma? = .ok (!comma.followingKinds.contains .comma)) ∧
        (node.1 = .funcCall → Tree.IsCall node.2)) := by
  obtain ⟨parsed, drafts, hparse, _, _, hbuilt⟩ := parse_eq_ok source mode
  refine ⟨parsed, hparse, fun hclean node hnode => ?_⟩
  have hshaped := hbuilt.shaped hclean node hnode
  refine ⟨fun hargs => ⟨hshaped.args hargs, fun e he comma hmem hcomma => ?_⟩, hshaped.call⟩
  refine Element.isLastComma?_eq ?_ hmem hcomma
  rw [he]
  exact hshaped.args hargs

end TypstFormat
