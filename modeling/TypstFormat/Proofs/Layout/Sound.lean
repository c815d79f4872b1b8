import TypstFormat.Proofs.Grammar.Shape
import TypstFormat.Proofs.Layout.Mark
import TypstFormat.Proofs.Tree.Planting

/-!
# Sound trees

What the layout relies on: white space is made of blanks, commas and parentheses are single
characters, and the children of a list of arguments are those of its draft with white space and
comments in between. The trees of a
source without diagnostics are sound.

`ArgsRest` follows the kinds of a list of arguments from left to right. It remembers whether an
argument came last, for that is when a comma may come next. As the layout goes through the children
in the same order, its proofs are inductions that carry `ArgsRest` along.

## Key results

- `Grown.soundAll`: what sound drafts grow into is sound
- `ArgsRest.rightParen_mem`: the list is closed, whatever came so far
-/

namespace TypstFormat

/-! ## The kinds of lists of arguments -/

/-- What follows in a list of arguments. `free` tells whether an argument came last. -/
inductive ArgsRest : (free : Bool) → List Kind → Prop where
  | opening {rest : List Kind} : ArgsRest false rest → ArgsRest false (.leftParen :: rest)
  | item {kind : Kind} {rest : List Kind} :
    kind.isItem = true → ArgsRest true rest → ArgsRest false (kind :: rest)
  | comma {rest : List Kind} : ArgsRest false rest → ArgsRest true (.comma :: rest)
  | close {free : Bool} {blocks : List Kind} :
    (∀ block ∈ blocks, block = .contentBlock) → ArgsRest free (.rightParen :: blocks)

/-- Kinds without white space and comments. -/
def withoutFillers (kinds : List Kind) : List Kind :=
  kinds.filter (!·.isFiller)

theorem argsRest_of_itemKinds {items blocks : List Kind} (h : ItemKinds items)
    (hblocks : ∀ block ∈ blocks, block = .contentBlock) :
    ArgsRest false (items ++ .rightParen :: blocks) := by
  obtain ⟨list, last, rfl, hitems⟩ := h
  induction list with
  | nil =>
    -- Behind the last comma comes another item, or the parenthesis.
    cases last with
    | none => exact .close hblocks
    | some last => exact .item (hitems last (by simp)) (.close hblocks)
  | cons item list ih =>
    apply ArgsRest.item (hitems item (by simp))
    apply ArgsRest.comma
    apply ih
    intro kind hkind
    exact hitems kind (List.mem_cons_of_mem _ hkind)

namespace ArgsRest

variable {free : Bool} {kinds : List Kind}

theorem rightParen_mem (h : ArgsRest free kinds) : .rightParen ∈ kinds := by
  induction h with
  | opening _ ih => exact List.mem_cons_of_mem _ ih
  | item _ _ ih => exact List.mem_cons_of_mem _ ih
  | comma _ ih => exact List.mem_cons_of_mem _ ih
  | close _ => exact List.mem_cons_self

theorem mem_cases (h : ArgsRest free kinds) {kind : Kind} (hkind : kind ∈ kinds) :
    kind.isItem = true ∨ kind ∈ [Kind.leftParen, .comma, .rightParen] := by
  induction h with
  | opening _ ih =>
    rcases List.mem_cons.1 hkind with rfl | hkind
    · exact .inr (by decide)
    · exact ih hkind
  | item hitem _ ih =>
    rcases List.mem_cons.1 hkind with rfl | hkind
    · exact .inl hitem
    · exact ih hkind
  | comma _ ih =>
    rcases List.mem_cons.1 hkind with rfl | hkind
    · exact .inr (by decide)
    · exact ih hkind
  | close hblocks =>
    rcases List.mem_cons.1 hkind with rfl | hkind
    · exact .inr (by decide)
    · rw [hblocks kind hkind]
      exact .inl rfl

/-- Only one kind of token closes a list of arguments. -/
theorem eq_rightParen (h : ArgsRest free kinds) {kind : Kind} (hkind : kind ∈ kinds)
    (hterminator : kind.isTerminator = true) : kind = .rightParen := by
  have hcases := h.mem_cases hkind
  revert hcases hterminator
  cases kind <;> decide

theorem isFiller_eq_false (h : ArgsRest free kinds) {kind : Kind} (hkind : kind ∈ kinds) :
    kind.isFiller = false := by
  have hcases := h.mem_cases hkind
  revert hcases
  cases kind <;> decide

end ArgsRest

/-! ## Trees -/

namespace Tree

/-- Something is left of a tree when white space and commas are taken away. -/
def Solid (tree : Tree) : Prop :=
  ∃ token ∈ tree.tokens, token.1.isGlue = false

/-- The children of a list of arguments. -/
structure ArgsSound (children : List Tree) : Prop where
  kinds : (∀ block ∈ withoutFillers (children.map kind), block = .contentBlock) ∨
    ArgsRest false (withoutFillers (children.map kind))
  solid : ∀ child ∈ children, child.isNode = true → child.Solid

theorem withoutFillers_filler {child : Tree} (h : child.kind.isFiller = true)
    (children : List Tree) :
    withoutFillers ((child :: children).map kind) = withoutFillers (children.map kind) := by
  simp [withoutFillers, h]

theorem withoutFillers_plain {child : Tree} (h : ¬child.kind.isFiller = true)
    (children : List Tree) :
    withoutFillers ((child :: children).map kind) =
      child.kind :: withoutFillers (children.map kind) := by
  simp [withoutFillers, h]

/-- A parenthesis closes the list behind each comma, and nothing else does. -/
def Closes : List Tree → Prop
  | [] => True
  | child :: children =>
    (child.kind = .comma → .rightParen ∈ children.map kind) ∧
      (child.kind.isTerminator = true → child.kind = .rightParen) ∧ Closes children

private theorem closes_filler {child : Tree} {children : List Tree}
    (hfiller : child.kind.isFiller = true) (h : Closes children) : Closes (child :: children) := by
  refine ⟨fun hcomma => ?_, fun hterminator => ?_, h⟩
  · rw [hcomma] at hfiller
    cases hfiller
  · revert hfiller hterminator
    cases child.kind <;> decide

private theorem closes_of_blocks {children : List Tree}
    (h : ∀ block ∈ withoutFillers (children.map kind), block = .contentBlock) :
    Closes children := by
  induction children with
  | nil => trivial
  | cons child children ih =>
    by_cases hfiller : child.kind.isFiller = true
    · rw [withoutFillers_filler hfiller] at h
      exact closes_filler hfiller (ih h)
    · rw [withoutFillers_plain hfiller] at h
      obtain ⟨hkind, h⟩ := List.forall_mem_cons.1 h
      rw [Closes, hkind]
      exact ⟨by simp, by simp [Kind.isTerminator], ih h⟩

private theorem closes_of_argsRest {children : List Tree} {free : Bool}
    (h : ArgsRest free (withoutFillers (children.map kind))) : Closes children := by
  induction children generalizing free with
  | nil => trivial
  | cons child children ih =>
    by_cases hfiller : child.kind.isFiller = true
    · rw [withoutFillers_filler hfiller] at h
      exact closes_filler hfiller (ih h)
    · rw [withoutFillers_plain hfiller] at h
      refine ⟨fun hcomma => ?_, h.eq_rightParen List.mem_cons_self, ?_⟩
      · rw [hcomma] at h
        cases h with
        | item hitem _ => cases hitem
        | comma h => exact List.mem_of_mem_filter h.rightParen_mem
      · -- Whatever the child is, the rest of the list follows, or only blocks do.
        generalize child.kind = first at h
        cases h with
        | opening h => exact ih h
        | item _ h => exact ih h
        | comma h => exact ih h
        | close hblocks => exact closes_of_blocks hblocks

theorem ArgsSound.closes {children : List Tree} (h : ArgsSound children) : Closes children := by
  rcases h.kinds with hblocks | hrest
  · exact closes_of_blocks hblocks
  · exact closes_of_argsRest hrest

/-- Paragraphs end outside of lists of arguments. -/
theorem ArgsSound.ne_parbreak {children : List Tree} (h : ArgsSound children) :
    ∀ child ∈ children, child.kind ≠ .parbreak := by
  intro child hchild hkind
  have hmem : Kind.parbreak ∈ withoutFillers (children.map kind) :=
    List.mem_filter.2 ⟨hkind ▸ List.mem_map_of_mem hchild, rfl⟩
  rcases h.kinds with hblocks | hrest
  · cases hblocks _ hmem
  · have hcases := hrest.mem_cases hmem
    revert hcases
    decide

mutual

/-- White space is made of blanks, commas and parentheses have their characters, and lists of
arguments have their shape. -/
def Sound : Tree → Prop
  | token kind text =>
    (kind.isSpace = true → Blank text) ∧ (∀ c, kind.char? = some c → text = [c])
  | node kind children =>
    kind.isNode = true ∧ (kind = .args → ArgsSound children) ∧ SoundAll children

/-- All of several trees are sound. -/
def SoundAll : List Tree → Prop
  | [] => True
  | tree :: trees => Sound tree ∧ SoundAll trees

end

theorem SoundAll.mem {trees : List Tree} (h : SoundAll trees) : ∀ tree ∈ trees, tree.Sound := by
  induction trees with
  | nil => simp
  | cons tree trees ih =>
    intro tree' htree
    rcases List.mem_cons.1 htree with rfl | htree
    · exact h.1
    · exact ih h.2 tree' htree

end Tree

/-! ## What drafts grow into -/

theorem Token.IsCut.sound {source : List Char} {mode : Mode} {token : Token}
    (h : token.IsCut source mode) : (Tree.token token.kind (token.range.slice source)).Sound :=
  ⟨fun hspace c hc => Mode.isSpace_of_isBlank (h.isBlank hspace c hc),
    fun _ hchar => (h.slice_char hchar).2⟩

namespace Grown

variable {source : List Char} {drafts : List Draft} {trees : List Tree}

/-- Nothing but white space and comments comes in between. -/
theorem withoutFillers_eq (h : Grown source drafts trees) :
    withoutFillers (trees.map Tree.kind) = withoutFillers (Draft.kinds drafts) := by
  refine h.filter_kinds_eq fun {_ token} hmode hcut htrivia => ?_
  -- Among trivia only the end of a paragraph is no filler, and that is found in markup.
  have hne := hcut.ne_parbreak hmode
  revert htrivia hne
  cases token.kind <;> decide

/-- A token that counts is still there. -/
theorem exists_token (h : Grown source drafts trees) {l : Look} (hleaf : l ∈ Draft.leavesAll drafts)
    (hsolid : l.token.kind.isGlue = false) :
    ∃ token ∈ Tree.tokensAll trees, token.1.isGlue = false := by
  induction h with
  | nil => cases hleaf
  | trivia _ _ _ _ ih =>
    obtain ⟨token, htoken, hglue⟩ := ih hleaf
    exact ⟨token, List.mem_cons_of_mem _ htoken, hglue⟩
  | @token _ _ look asText _ _ ih =>
    rcases List.mem_cons.1 hleaf with rfl | hleaf
    · -- A token that is taken for text counts in any case.
      refine ⟨_, List.mem_cons_self, ?_⟩
      cases asText with
      | true => rfl
      | false => exact hsolid
    · obtain ⟨token, htoken, hglue⟩ := ih hleaf
      exact ⟨token, List.mem_cons_of_mem _ htoken, hglue⟩
  | void _ ih => exact ih hleaf
  | node _ _ _ ihinner ih =>
    rcases List.mem_append.1 hleaf with hleaf | hleaf
    · obtain ⟨token, htoken, hglue⟩ := ihinner hleaf
      exact ⟨token, List.mem_append_left _ htoken, hglue⟩
    · obtain ⟨token, htoken, hglue⟩ := ih hleaf
      exact ⟨token, List.mem_append_right _ htoken, hglue⟩

theorem solid (h : Grown source drafts trees) (hsolid : Draft.SolidNodes drafts) :
    ∀ tree ∈ trees, tree.isNode = true → tree.Solid := by
  induction h with
  | nil => simp
  | trivia _ _ _ _ ih =>
    intro tree htree hnode
    rcases List.mem_cons.1 htree with rfl | htree
    · cases hnode
    · exact ih hsolid tree htree hnode
  | token _ _ ih =>
    intro tree htree hnode
    rcases List.mem_cons.1 htree with rfl | htree
    · cases hnode
    · exact ih (fun draft hdraft => hsolid draft (List.mem_cons_of_mem _ hdraft)) tree htree hnode
  | void _ ih =>
    exact ih fun draft hdraft => hsolid draft (List.mem_cons_of_mem _ hdraft)
  | node _ hinner _ _ ih =>
    intro tree htree hnode
    rcases List.mem_cons.1 htree with rfl | htree
    · obtain ⟨⟨l, hleaf, hglue⟩, _⟩ := hsolid _ List.mem_cons_self rfl
      exact hinner.exists_token (List.mem_of_mem_head? hleaf) hglue
    · exact ih (fun draft hdraft => hsolid draft (List.mem_cons_of_mem _ hdraft)) tree htree hnode

/-- A list of arguments keeps its shape. -/
theorem argsSound (h : Grown source drafts trees) (hshape : Draft.Shape .args drafts) :
    Tree.ArgsSound trees := by
  obtain ⟨⟨list, blocks, rfl, hlist, hblocks⟩, hsolid⟩ := hshape
  refine ⟨?_, h.solid hsolid⟩
  have hblocks : ∀ kind ∈ Draft.kinds blocks, kind = .contentBlock := by
    intro kind hkind
    obtain ⟨block, hblock, rfl⟩ := List.mem_map.1 hkind
    exact (hblocks block (List.mem_of_mem_filter hblock)).2.1
  rw [h.withoutFillers_eq, Draft.kinds_append]
  rcases hlist with rfl | ⟨items, hitems, hkinds⟩
  · left
    intro block hblock
    exact hblocks block (List.mem_of_mem_filter hblock)
  · right
    -- None of the kinds of the draft is a filler, so all of them are left.
    have hargs := argsRest_of_itemKinds hitems hblocks
    have hall : ∀ kind ∈ items ++ .rightParen :: Draft.kinds blocks,
        (!kind.isFiller) = true := by
      intro kind hkind
      rw [hargs.isFiller_eq_false hkind]
      rfl
    have hlist : Kind.leftParen :: (items ++ [.rightParen]) ++ Draft.kinds blocks =
        .leftParen :: (items ++ .rightParen :: Draft.kinds blocks) := by simp
    unfold withoutFillers
    rw [hkinds, hlist, List.filter_cons_of_pos rfl, List.filter_eq_self.2 hall]
    exact .opening hargs

/-- What sound drafts grow into is sound. -/
theorem soundAll (h : Grown source drafts trees) (hproper : Draft.ProperAll drafts)
    (hsound : Draft.SoundAll drafts) : Tree.SoundAll trees := by
  induction h with
  | nil => trivial
  | trivia _ hcut _ _ ih => exact ⟨hcut.sound, ih hproper hsound⟩
  | @token _ _ _ asText hcut _ ih =>
    refine ⟨?_, ih hproper.2 hsound.2⟩
    cases asText with
    | true =>
      constructor
      · intro hkind
        cases hkind
      · intro _ hchar
        cases hchar
    | false => exact hcut.sound
  | void _ ih => exact ih hproper.2 hsound.2
  | node _ hinner _ ihinner ih =>
    obtain ⟨⟨hnode, _, hinnerProper⟩, hproper⟩ := hproper
    obtain ⟨⟨hformed, hinnerSound⟩, hsound⟩ := hsound
    refine ⟨⟨hnode, ?_, ihinner hinnerProper hinnerSound⟩, ih hproper hsound⟩
    rintro rfl
    exact hinner.argsSound hformed.shape

end Grown

end TypstFormat
