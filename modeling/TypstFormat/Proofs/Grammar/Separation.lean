import TypstFormat.Proofs.Grammar.Origin

/-!
# Statements in trees

Without diagnostics, a line ends in front of the second of two statements if none of them is a
semicolon (`Draft.Apart`). In a tree, the white space in which it ends has come into the gap between
the two statements, or it was there when the last node of the first statement was entered, and then
it ends the first statement. Each statement begins with a token that counts, so that there is a last
token of this kind in the first statement.

## Key results

- `Spaced.isApart`: white space in which a line ends, between two statements
- `parse_statements_apart`: statements are separated by line breaks or by semicolons
-/

namespace TypstFormat

open Draft

/-- Between the last token of a tree that is no trivia and the first one of another tree, there is a
space in which a line ends. -/
def Tree.IsApart (first : Tree) (gap : List Tree) (second : Tree) : Prop :=
  ∃ front last trail lead next rest, first.tokens = front ++ last :: trail ∧
    second.tokens = lead ++ next :: rest ∧ last.1.isTrivia = false ∧ next.1.isTrivia = false ∧
    (∀ token ∈ trail ++ lead, token.1.isTrivia = true) ∧
    ∃ text, (.space, text) ∈ trail ++ (tokensAll gap ++ lead) ∧ text.any Text.isLineBreak = true

/-- The last member of a list that a test does not find. -/
theorem exists_last_of_mem {α : Type} (test : α → Bool) {xs : List α} {x : α} (hmem : x ∈ xs)
    (hx : test x = false) :
    ∃ front last trail, xs = front ++ last :: trail ∧ test last = false ∧
      ∀ y ∈ trail, test y = true := by
  induction xs using List.reverseRecOn with
  | nil => cases hmem
  | append_singleton xs y ih =>
    cases hy : test y with
    | false => exact ⟨xs, y, [], rfl, hy, by simp⟩
    | true =>
      rcases List.mem_append.1 hmem with hmem | hmem
      · obtain ⟨front, last, trail, rfl, hlast, htrail⟩ := ih hmem
        refine ⟨front, last, trail ++ [y], by simp, hlast, ?_⟩
        exact List.forall_mem_append.2 ⟨htrail, List.forall_mem_singleton.2 hy⟩
      · rw [List.mem_singleton.1 hmem, hy] at hx
        cases hx

namespace Look.Covers

variable {source : List Char} {offset : Nat} {l : Look}

/-- The tokens that the trivia in front of a token becomes. -/
theorem tokensAll_trivia (h : l.Covers source offset) :
    Tree.tokensAll (l.trivia.map (Trivia.toTree source)) =
      l.trivia.map fun piece => (piece.kind, piece.range.slice source) :=
  (Spells.of_tile h.tile).tokens_eq

theorem isTrivia_tokensAll (h : l.Covers source offset) :
    ∀ token ∈ Tree.tokensAll (l.trivia.map (Trivia.toTree source)), token.1.isTrivia = true := by
  rw [h.tokensAll_trivia]
  intro token htoken
  obtain ⟨piece, hpiece, rfl⟩ := List.mem_map.1 htoken
  exact (h.isTrivia piece hpiece).1

end Look.Covers

namespace Spaced

variable {source : List Char} {next l : Look} {draft draft' : Draft} {tree tree' : Tree}
  {gap : List Tree} {within after : Bool} {offset : Nat}

/-- A statement begins with a token that is no trivia. -/
theorem exists_token (h : Spaced source next false [draft] [tree] after)
    (hbegins : draft.BeginsPlainly) :
    ∃ token rest, tree.tokens = token :: rest ∧ token.1.isTrivia = false := by
  obtain ⟨l, hl, htrivia⟩ := hbegins
  rw [← leavesAll_singleton] at hl
  obtain ⟨asText, hhead⟩ := (h.head?_leaf rfl).2 l hl
  rw [Tree.tokensAll, Tree.tokensAll, List.append_nil] at hhead
  obtain ⟨rest, htokens⟩ := List.head?_eq_some_iff.1 hhead
  refine ⟨_, rest, htokens, ?_⟩
  cases asText with
  | true => rfl
  | false => exact htrivia

/-- Two statements are apart if a line ends in front of the second one: its white space stands in the
gap, or the first statement ends with it. -/
theorem isApart (h : Spaced source l false [draft] [tree] within) (hbegins : draft.BeginsPlainly)
    (h' : Spaced source next false [draft'] [tree'] after) (hbegins' : draft'.BeginsPlainly)
    (hgap : IsGap source l within gap) (hcovers : l.Covers source offset) (hbreak : ¬l.Joins) :
    Tree.IsApart tree gap tree' := by
  obtain ⟨piece, hpiece, hkind, htext⟩ := hcovers.exists_space hbreak
  have hspace : (Kind.space, piece.range.slice source) ∈
      Tree.tokensAll (l.trivia.map (Trivia.toTree source)) := by
    rw [hcovers.tokensAll_trivia]
    exact List.mem_map.2 ⟨piece, hpiece, by rw [hkind]⟩
  obtain ⟨token, rest, htokens, htoken⟩ := h.exists_token hbegins
  obtain ⟨token', rest', htokens', htoken'⟩ := h'.exists_token hbegins'
  cases within with
  | true =>
    cases hgap with
    | all =>
      have hmem : token ∈ tree.tokens := htokens ▸ List.mem_cons_self
      obtain ⟨front, last, trail, hfront, hlast, htrail⟩ :=
        exists_last_of_mem (·.1.isTrivia) hmem htoken
      refine ⟨front, last, trail, [], token', rest', hfront, htokens', hlast, htoken', ?_, _, ?_,
        htext⟩
      · simpa using htrail
      · exact List.mem_append_right _ (List.mem_append_left _ hspace)
  | false =>
    -- The first statement has a token in front of the trivia that it ends with.
    have hleaves : leavesAll [draft] ≠ [] := by
      obtain ⟨l, hl, -⟩ := hbegins
      rw [leavesAll_singleton]
      rintro hnone
      rw [hnone] at hl
      cases hl
    obtain ⟨own, hown⟩ := h.trails rfl (.inr hleaves)
    rw [Tree.tokensAll, Tree.tokensAll, List.append_nil] at hown
    have hmem : token ∈ own := by
      have hmem : token ∈ tree.tokens := htokens ▸ List.mem_cons_self
      rw [hown] at hmem
      refine (List.mem_append.1 hmem).resolve_right fun hmem => ?_
      rw [hcovers.isTrivia_tokensAll token hmem] at htoken
      cases htoken
    obtain ⟨front, last, trail, rfl, hlast, htrail⟩ :=
      exists_last_of_mem (·.1.isTrivia) hmem htoken
    refine ⟨front, last, trail ++ Tree.tokensAll (l.trivia.map (Trivia.toTree source)), [], token',
      rest', by rw [hown, List.append_assoc, List.cons_append], htokens', hlast, htoken', ?_, _, ?_,
      htext⟩
    · rw [List.append_nil]
      exact List.forall_mem_append.2 ⟨htrail, hcovers.isTrivia_tokensAll⟩
    · exact List.mem_append_left _ (List.mem_append_right _ hspace)

end Spaced

namespace Draft

theorem present_append_cons {draft : Draft} (hvoid : draft.isVoid = false) (first rest : List Draft) :
    present (first ++ draft :: rest) = present first ++ draft :: present rest := by
  simp [present, hvoid]

/-- Neighbours among the statements, with nothing but given-up nodes in between. -/
theorem IsCode.isApart {first between rest : List Draft} {draft next : Draft}
    (h : IsCode (first ++ draft :: (between ++ next :: rest))) (hdraft : draft.isVoid = false)
    (hnext : next.isVoid = false) (hbetween : kinds between = []) :
    Apart draft next ∧ draft.BeginsPlainly ∧ next.BeginsPlainly := by
  have hnone : present between = [] := List.map_eq_nil_iff.1 hbetween
  obtain ⟨happart, hbegin⟩ := h
  rw [present_append_cons hdraft, present_append_cons hnext, hnone, List.nil_append] at happart hbegin
  exact ⟨(List.isChain_cons_cons.1 (List.isChain_append.1 happart).2.1).1, hbegin _ (by simp),
    hbegin _ (by simp)⟩

end Draft

/-- Trees of trivia are in the gaps where no draft is trivia. -/
theorem Spaced.kinds_eq_nil {source : List Char} {next : Look} {drafts : List Draft}
    {trees : List Tree} {before after : Bool} (h : Spaced source next before drafts trees after)
    (hsolid : ∀ kind ∈ kinds drafts, kind.isTrivia = false)
    (htrivia : ∀ tree ∈ trees, tree.kind.isTrivia = true) : kinds drafts = [] := by
  have hfilter : (trees.map Tree.kind).filter (!·.isTrivia) = (kinds drafts).filter (!·.isTrivia) :=
    h.filter_kinds_eq fun _ hkind => by simp [hkind]
  have hnone : (trees.map Tree.kind).filter (!·.isTrivia) = [] := by
    rw [List.filter_eq_nil_iff, List.forall_mem_map]
    exact fun tree htree => by simp [htrivia tree htree]
  rw [hnone, eq_comm, List.filter_eq_nil_iff] at hfilter
  refine List.eq_nil_iff_forall_not_mem.2 fun kind hkind => hfilter kind hkind ?_
  simp [hsolid kind hkind]

/-- In code without diagnostics, neighbours that are no semicolons are apart. -/
theorem Parsed.NodeOf.isApart {parsed : Parsed} {breaks : Breaks} {offset : Nat}
    {inner : List Draft} {children before gap behind : List Tree} {first second : Tree}
    (h : parsed.NodeOf breaks offset .code inner children) (hclean : parsed.diagnostics = [])
    (hchildren : children = before ++ first :: (gap ++ second :: behind))
    (hgap : ∀ tree ∈ gap, tree.kind.isTrivia = true)
    (hfirst : first.kind.isTrivia = false ∧ first.kind ≠ .semicolon)
    (hsecond : second.kind.isTrivia = false ∧ second.kind ≠ .semicolon) :
    Tree.IsApart first gap second := by
  subst hchildren
  obtain ⟨next, _, _, start, stop, hspaced, -, hruns, -⟩ := h.spaced
  have hcode : IsCode inner := (h.sound hclean).1.shape
  have hsolid := h.neat.1.solid (.inr rfl)
  -- The drafts of the two trees, with given-up nodes in between.
  obtain ⟨ds, draft, rest, _, _, _, within, rfl, -, hvoid, -, -, htree, hrest⟩ :=
    hspaced.split_of_plain (.inl hfirst.1)
  obtain ⟨between, draft', ds', front, gap', within', _, rfl, rfl, hvoid', hbetween, hgap', htree',
    -⟩ := hrest.split_of_plain (.inl hsecond.1)
  have hnone : kinds between = [] := by
    refine hbetween.kinds_eq_nil (fun kind hkind => hsolid kind ?_) fun tree htree =>
      hgap tree (List.mem_append_left _ htree)
    show kind ∈ kinds (ds ++ ([draft] ++ (between ++ draft' :: ds')))
    rw [kinds_append, kinds_append, kinds_append]
    exact List.mem_append_right _ (List.mem_append_right _ (List.mem_append_left _ hkind))
  obtain ⟨rfl, rfl⟩ := hbetween.of_kinds_eq_nil hnone
  obtain ⟨happart, hbegins, hbegins'⟩ := hcode.isApart hvoid hvoid' hnone
  obtain ⟨l, hl, hbreak⟩ := (happart.resolve_left (htree.kind_eq ▸ hfirst.2)).resolve_left
    (htree'.kind_eq ▸ hsecond.2)
  -- Both the gap and what stands in front of it end in front of the look `l`.
  have hfront : Draft.front (draft' :: ds') next = l := by
    refine front_of_head? ?_ next
    rw [leavesAll, List.head?_append, hl]
    rfl
  have hleaves : leavesAll between = [] := by
    rw [← leavesAll_present, show present between = [] from List.map_eq_nil_iff.1 hnone]
    rfl
  have hlook : Draft.front (between ++ draft' :: ds') next = l := by
    rw [front_append, hfront, Draft.front, hleaves]
    rfl
  rw [hlook] at htree
  rw [hfront] at hgap'
  obtain ⟨middle, -, hruns⟩ := (show Runs _ _ (ds ++ ([draft] ++ (between ++ draft' :: ds'))) _ _
    from hruns).of_append
  obtain ⟨last, -, hruns⟩ := hruns.of_append
  have hcovers : l.Covers parsed.source last := hlook ▸ hruns.covers
  exact htree.isApart hbegins htree' hbegins' hgap' hcovers hbreak

/-- Without diagnostics, the statements of code are separated: of two neighbours among its children,
trivia aside, one is a semicolon, or there is a space in which a line ends between the last token of
the first one and the first token of the second one. -/
theorem parse_statements_apart (source : List Char) (mode : Mode) :
    ∃ parsed, parse source mode = .ok parsed ∧ (parsed.diagnostics = [] →
      ∀ children, (.code, children) ∈ parsed.tree.nodes →
        ∀ before first gap second behind,
          children = before ++ first :: (gap ++ second :: behind) →
          (∀ tree ∈ gap, tree.kind.isTrivia = true) →
          first.kind.isTrivia = false ∧ first.kind ≠ .semicolon →
          second.kind.isTrivia = false ∧ second.kind ≠ .semicolon →
          Tree.IsApart first gap second) := by
  obtain ⟨parsed, drafts, hparse, _, _, hbuilt⟩ := parse_eq_ok source mode
  refine ⟨parsed, hparse, fun hclean children hnode before first gap second behind hchildren hgap
    hfirst hsecond => ?_⟩
  obtain ⟨trees, closing, breaks, offset, inner, htrees, hclosing, hown⟩ := hbuilt.exists_nodeOf hnode
  have htrees : trees ++ closing = before ++ first :: (gap ++ second :: behind) :=
    htrees.symm.trans hchildren
  obtain ⟨rest, rfl, hrest⟩ := hclosing.split htrees (.inl hfirst.1)
  obtain ⟨rest', rfl, -⟩ := hclosing.split hrest.symm (.inl hsecond.1)
  exact hown.isApart hclean rfl hgap hfirst hsecond

end TypstFormat
