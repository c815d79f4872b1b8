import TypstFormat.Proofs.Grammar.Origin
import TypstFormat.Proofs.Tree.Bare
import TypstFormat.Proofs.Twin.Aligned
import TypstFormat.Proofs.Twin.Enclosed

/-!
# The trees of a text and of its block

Drafts of the same shape, with the same trivia in front of all but the first tokens, make the same
trees but for the trivia outside of markup. Where the trivia in front of a token is put in the tree
is told by the nodes that start there, which are the same on both sides as well. Markup in code
stands between brackets, stars or underscores, so that the first token of all is not in it and the
trivia in front of that one does not come into it.

## Key results

- `Sides.Shaped.trees_eq`: behind the first token, the trees are the same
- `Sides.Shaped.bareAll_eq`: the trees are the same but for trivia outside of markup
-/

namespace TypstFormat

open Draft

namespace Draft

/-- No node comes last among drafts. -/
def NoNodeLast (drafts : List Draft) : Prop :=
  ∀ draft ∈ (present drafts).getLast?, draft.isNode = false

theorem NoNodeLast.of_cons {draft : Draft} {drafts : List Draft}
    (h : NoNodeLast (draft :: drafts)) : NoNodeLast drafts := by
  intro last hlast
  refine h last ?_
  have hcons : present [draft] ++ present drafts = present (draft :: drafts) :=
    (present_append [draft] drafts).symm
  rw [← hcons, List.getLast?_append, Option.mem_def.1 hlast]
  rfl

/-- Behind a node that is not the last one stands a token. -/
theorem NoNodeLast.leaves_ne_nil {kind : Kind} {wraps : Bool} {children drafts : List Draft}
    (h : NoNodeLast (.node kind wraps children :: drafts)) : leavesAll drafts ≠ [] := by
  have hrest := h.of_cons
  rw [← leavesAll_present]
  unfold NoNodeLast at h hrest
  rw [show present (.node kind wraps children :: drafts) =
    .node kind wraps children :: present drafts from rfl] at h
  generalize hpresent : present drafts = rest at h hrest
  rcases List.eq_nil_or_concat rest with rfl | ⟨first, last, rfl⟩
  · cases h _ rfl
  · have hnode := hrest last (by simp)
    have hmem : last ∈ present drafts := by simp [hpresent]
    rw [List.concat_eq_append, leavesAll_append, leavesAll_singleton]
    cases last with
    | token => exact List.append_ne_nil_of_right_ne_nil _ (List.cons_ne_nil _ _)
    | void => cases (List.mem_filter.1 hmem).2
    | node => cases hnode

end Draft

namespace Sides

variable {text : List Char}

/-! ## Gaps -/

/-- A range of the text holds the same as the corresponding one of the block. -/
theorem slice_enclosed {range range' : Text.Range}
    (hstart : (Sides.enclosed text).place range.start range'.start)
    (hstop : (Sides.enclosed text).place range.stop range'.stop) :
    range'.slice (Sides.enclosed text).right = range.slice (Sides.enclosed text).left := by
  show (List.drop range'.start (TypstFormat.enclosed text)).take (range'.stop - range'.start) =
    (text.drop range.start).take (range.stop - range.start)
  obtain ⟨hle, hstart⟩ := hstart
  obtain ⟨hle', hstop⟩ := hstop
  have hlength : range'.stop - range'.start = range.stop - range.start := by omega
  rw [hlength, hstart]
  show (List.drop range.start (text ++ ['\n', '}'])).take _ = _
  rw [List.drop_append_of_le_length hle, List.take_append_of_le_length]
  rw [List.length_drop]
  omega

/-- The same trivia stands in front of two tokens. -/
def SameGap (S : Sides) (l l' : Look) : Prop :=
  l'.trivia.map (Trivia.toTree S.right) = l.trivia.map (Trivia.toTree S.left)

theorem Leaf.sameGap {l l' : Look} (h : (Sides.enclosed text).Leaf false l l') :
    (Sides.enclosed text).SameGap l l' := by
  have hpieces := h.trivia rfl
  unfold SameGap
  generalize l.trivia = pieces at hpieces
  generalize l'.trivia = pieces' at hpieces
  induction hpieces with
  | nil => rfl
  | cons hpiece _ ih =>
    rw [List.map_cons, List.map_cons, ih]
    refine congrArg (· :: _) ?_
    unfold Trivia.toTree
    rw [hpiece.kind, slice_enclosed hpiece.start hpiece.stop]

theorem SameGap.eq {S : Sides} {l l' : Look} (h : S.SameGap l l') {toCome : Bool}
    {gap gap' : List Tree} (hgap : IsGap S.left l toCome gap)
    (hgap' : IsGap S.right l' toCome gap') : gap' = gap := by
  cases hgap with
  | none =>
    cases hgap'
    rfl
  | all =>
    cases hgap' with
    | all => exact h

/-! ## Trees of drafts of the same shape -/

namespace Shaped

variable {S : Sides} {first last : Bool} {drafts drafts' : List Draft}

theorem last_eq_false {R : Bool → Look → Look → Prop} (h : Shaped R first drafts drafts' last)
    (hfirst : first = false) : last = false := by
  induction h with
  | nil => exact hfirst
  | token _ _ _ ih => exact ih rfl
  | void _ ih => exact ih hfirst
  | void' _ ih => exact ih hfirst
  | node _ _ _ ihchildren ih => exact ih (ihchildren hfirst)

/-- Behind the first token, what drafts start with corresponds to each other, if there is any. -/
theorem front (h : Shaped S.Leaf first drafts drafts' last) (hfirst : first = false) :
    (leavesAll drafts = [] ∧ leavesAll drafts' = []) ∨
      leavesAll drafts ≠ [] ∧ ∀ next next', S.Leaf false (Draft.front drafts next)
        (Draft.front drafts' next') := by
  induction h with
  | nil => exact .inl ⟨rfl, rfl⟩
  | token _ hleaf =>
    subst hfirst
    exact .inr ⟨List.cons_ne_nil _ _, fun _ _ => hleaf⟩
  | void _ ih => exact ih hfirst
  | void' _ ih => exact ih hfirst
  | node kind hchildren _ ihchildren ih =>
    rcases ihchildren hfirst with ⟨hnil, hnil'⟩ | ⟨hne, hfront⟩
    · rcases ih (hchildren.last_eq_false hfirst) with ⟨hrest, hrest'⟩ | ⟨hne, hfront⟩
      · left
        rw [leavesAll, leavesAll, Draft.leaves, Draft.leaves, hnil, hnil', hrest, hrest']
        exact ⟨rfl, rfl⟩
      · right
        refine ⟨fun hall => hne (List.append_eq_nil_iff.1 hall).2, fun next next' => ?_⟩
        rw [front_cons, front_node, front_cons, front_node]
        unfold Draft.front at hfront ⊢
        rw [hnil, hnil']
        exact hfront next next'
    · right
      refine ⟨fun hall => hne (List.append_eq_nil_iff.1 hall).1, fun next next' => ?_⟩
      rw [front_cons, front_node, front_cons, front_node]
      exact hfront _ _

theorem sameGap_front (h : Shaped (Sides.enclosed text).Leaf first drafts drafts' last)
    (hfirst : first = false) {next next' : Look}
    (hnext : (Sides.enclosed text).SameGap next next' ∨ leavesAll drafts ≠ []) :
    (Sides.enclosed text).SameGap (Draft.front drafts next) (Draft.front drafts' next') := by
  rcases h.front hfirst with ⟨hnil, hnil'⟩ | ⟨_, hfront⟩
  · unfold Draft.front
    rw [hnil, hnil']
    exact hnext.resolve_right fun hne => hne hnil
  · exact (hfront next next').sameGap

/-- Behind the first token, the same trees are made of drafts of the same shape, if the same trivia
comes behind them, or a token comes last. -/
theorem trees_eq (h : Shaped (Sides.enclosed text).Leaf first drafts drafts' last)
    (hfirst : first = false) {next next' : Look} {trees trees' : List Tree}
    {before after after' : Bool}
    (hleft : Spaced (Sides.enclosed text).left next before drafts trees after)
    (hright : Spaced (Sides.enclosed text).right next' before drafts' trees' after')
    (hnext : (Sides.enclosed text).SameGap next next' ∨ NoNodeLast drafts) :
    trees' = trees ∧ after' = after := by
  induction h generalizing next next' trees trees' before after after' with
  | nil =>
    cases hleft
    cases hright
    exact ⟨rfl, rfl⟩
  | token hkind hleaf _ ih =>
    subst hfirst
    cases hleft with
    | token hgap _ hleft =>
      cases hright with
      | token hgap' _ hright =>
        obtain ⟨rfl, rfl⟩ := ih rfl hleft hright (hnext.imp_right (·.of_cons))
        rw [hleaf.sameGap.eq hgap hgap', hkind, slice_enclosed hleaf.start hleaf.stop]
        exact ⟨rfl, rfl⟩
  | void _ ih =>
    cases hleft with
    | void hleft => exact ih hfirst hleft hright (hnext.imp_right (·.of_cons))
  | void' _ ih =>
    cases hright with
    | void hright => exact ih hfirst hleft hright hnext
  | node kind hchildren hrest ihchildren ih =>
    have hmiddle := hchildren.last_eq_false hfirst
    cases hleft with
    | node hgap _ hinner hleft =>
      cases hright with
      | node hgap' _ hinner' hright =>
        -- What comes behind the node is one of the tokens, or comes behind all of them.
        have hbehind := hrest.sameGap_front hmiddle (hnext.imp_right (·.leaves_ne_nil))
        have hahead := hchildren.sameGap_front hfirst (.inl hbehind)
        obtain ⟨rfl, rfl⟩ := ihchildren hfirst hinner hinner' (.inl hbehind)
        obtain ⟨rfl, rfl⟩ := ih hmiddle hleft hright (hnext.imp_right (·.of_cons))
        rw [hahead.eq hgap hgap']
        exact ⟨rfl, rfl⟩

/-- What stands between two tokens is the same on both sides, with other trivia in front of the
first one. -/
theorem bareAll_eq_of_between (h : Shaped (Sides.enclosed text).Leaf first drafts drafts' last)
    {opening closing : Draft} {inner : List Draft}
    (hpresent : present drafts = opening :: (inner ++ [closing]))
    (hopening : opening.isNode = false) (hclosing : closing.isNode = false)
    {next next' : Look} {trees trees' : List Tree}
    {before before' after after' : Bool}
    (hleft : Spaced (Sides.enclosed text).left next before drafts trees after)
    (hright : Spaced (Sides.enclosed text).right next' before' drafts' trees' after') :
    Tree.bareAll trees' = Tree.bareAll trees := by
  induction h generalizing trees trees' before before' with
  | nil => cases hpresent
  | token hkind hleaf hrest _ =>
    -- This is the opening delimiter. The same trees stand behind it, since a token comes last.
    obtain ⟨-, hrest'⟩ := List.cons.inj hpresent
    have hlast : NoNodeLast _ := fun draft hdraft => by
      rw [show present _ = _ from hrest', List.getLast?_concat] at hdraft
      cases hdraft
      exact hclosing
    cases hleft with
    | token hgap _ hleft =>
      cases hright with
      | token hgap' _ hright =>
        obtain ⟨rfl, -⟩ := hrest.trees_eq rfl hleft hright (.inr hlast)
        rw [Tree.bareAll_append, Tree.bareAll_append, hgap.bareAll_eq_nil, hgap'.bareAll_eq_nil,
          hkind, slice_enclosed hleaf.start hleaf.stop]
  | void _ ih =>
    cases hleft with
    | void hleft => exact ih hpresent hleft hright
  | void' _ ih =>
    cases hright with
    | void hright => exact ih hpresent hleft hright
  | node =>
    obtain ⟨rfl, -⟩ := List.cons.inj hpresent
    cases hopening

/-- Kinds between two other ones are those of drafts between two tokens. -/
private theorem exists_between {kind kind' : Kind} {drafts : List Draft}
    (h : Between kind kind' (kinds drafts)) (hproper : ProperAll drafts)
    (hkind : kind.isNode = false) (hkind' : kind'.isNode = false) :
    ∃ opening inner closing, present drafts = opening :: (inner ++ [closing]) ∧
      opening.isNode = false ∧ closing.isNode = false := by
  obtain ⟨inner, hkinds⟩ := h
  rw [← map_kind_present, List.map_eq_cons_iff] at hkinds
  obtain ⟨opening, rest, hpresent, hopening, hrest⟩ := hkinds
  obtain ⟨front, back, rfl, -, hback⟩ := List.map_eq_append_iff.1 hrest
  obtain ⟨closing, rfl, hclosing⟩ := List.map_eq_singleton_iff.1 hback
  have hmem (draft : Draft) (hdraft : draft ∈ present drafts) (hnode : draft.kind.isNode = false) :
      draft.isNode = false := by
    have hproper := proper_of_mem hproper (List.mem_filter.1 hdraft).1
    cases draft with
    | token => rfl
    | void => rfl
    | node own wraps children => exact absurd hproper.1 (by simpa [Draft.kind] using hnode)
  refine ⟨opening, front, closing, hpresent, hmem _ ?_ (hopening ▸ hkind),
    hmem _ ?_ (hclosing ▸ hkind')⟩
  · simp [hpresent]
  · simp [hpresent]

/-- Nodes that hold markup, though they stand in code, stand between two tokens. -/
private theorem delimiters_of_holdsMarkup {kind : Kind} (hholds : kind.holdsMarkup = true)
    (hplain : kind.isOfMarkup = false) : ∃ opening closing,
      kind.delimiters? = some (opening, closing) ∧ opening.isNode = false ∧
      closing.isNode = false ∧ kind ≠ .dict ∧
      ∀ children, Shape kind children = (Between opening closing (kinds children) ∨
        IsCutShort kind (kinds children)) := by
  have hkind : kind = .contentBlock ∨ kind = .strong ∨ kind = .emph := by
    revert hholds hplain
    cases kind <;> decide
  rcases hkind with rfl | rfl | rfl <;> exact ⟨_, _, rfl, rfl, rfl, by decide, fun _ => rfl⟩

/-- Drafts of code of the same shape make the same trees, but for trivia outside of markup. -/
theorem bareAll_eq (h : Shaped (Sides.enclosed text).Leaf first drafts drafts' last)
    {next next' : Look} {trees trees' : List Tree} {before before' after after' : Bool}
    (hleft : Spaced (Sides.enclosed text).left next before drafts trees after)
    (hright : Spaced (Sides.enclosed text).right next' before' drafts' trees' after')
    (hproper : ProperAll drafts) (hneat : NeatAll drafts) (hsound : SoundAll drafts)
    (hplain : ∀ kind ∈ kinds drafts, kind.isOfMarkup = false) :
    Tree.bareAll trees' = Tree.bareAll trees := by
  induction h generalizing next next' trees trees' before before' after after' with
  | nil =>
    cases hleft
    cases hright
    rfl
  | token hkind hleaf _ ih =>
    cases hleft with
    | token hgap _ hleft =>
      cases hright with
      | token hgap' _ hright =>
        rw [kinds_token, List.forall_mem_cons] at hplain
        rw [Tree.bareAll_append, Tree.bareAll_append, hgap.bareAll_eq_nil, hgap'.bareAll_eq_nil,
          Tree.bareAll, Tree.bareAll, ih hleft hright hproper.2 hneat.2 hsound.2 hplain.2, hkind,
          slice_enclosed hleaf.start hleaf.stop]
  | void _ ih =>
    cases hleft with
    | void hleft => exact ih hleft hright hproper.2 hneat.2 hsound.2 hplain
  | void' _ ih =>
    cases hright with
    | void hright => exact ih hleft hright hproper hneat hsound hplain
  | node kind hchildren _ ihchildren ih =>
    rw [kinds_node, List.forall_mem_cons] at hplain
    have hmarkup : kind ≠ .markup := (Kind.isOfMarkup_eq_false.1 hplain.1).2.2.1
    cases hleft with
    | @node _ _ _ _ _ trees _ _ _ _ _ hgap _ hinner hleft =>
      cases hright with
      | @node _ _ _ _ _ trees' _ _ _ _ _ hgap' _ hinner' hright =>
        have hbare : Tree.bareAll trees' = Tree.bareAll trees := by
          -- Markup is compared with its trivia, which is only known behind the first token. Nodes
          -- that hold markup have a delimiter in front of it.
          cases hholds : kind.holdsMarkup with
          | false =>
            exact ihchildren hinner hinner' hproper.1.2.2 hneat.1.2 hsound.1.2
              (hneat.1.1.plain hholds)
          | true =>
            obtain ⟨opening, closing, -, hopening, hclosing, hdict, hshape⟩ :=
              delimiters_of_holdsMarkup hholds hplain.1
            have hbetween := hsound.1.1.shape
            rw [hshape] at hbetween
            obtain ⟨first, inner, last, hpresent, hfirst, hlast⟩ :=
              exists_between (hbetween.resolve_right fun hcut => hdict hcut.1) hproper.1.2.2 hopening
                hclosing
            exact hchildren.bareAll_eq_of_between hpresent hfirst hlast hinner hinner'
        rw [Tree.bareAll_append, Tree.bareAll_append, hgap.bareAll_eq_nil, hgap'.bareAll_eq_nil,
          Tree.bareAll, Tree.bareAll, ih hleft hright hproper.2 hneat.2 hsound.2 hplain.2,
          Tree.bare_node hmarkup, Tree.bare_node hmarkup, hbare]

end Shaped

end Sides

end TypstFormat
