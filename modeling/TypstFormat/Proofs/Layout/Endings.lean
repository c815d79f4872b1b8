import TypstFormat.Proofs.Grammar.Arguments
import TypstFormat.Proofs.Layout.Sound

/-!
# What comes behind line comments

A line comment reaches up to a line break, and all characters of a source belong to tokens. So the
token behind a line comment is white space that starts with a line break.

No child of a list of arguments that is a node ends with a line comment. If the trivia in front of
the next token is still to come when the node ends, then the node ends with one of its own tokens,
and that is no comment. If the trivia is in the node already, then the next token stands directly
behind the node, and it is a comma or a parenthesis and not white space.

## Key results

- `Parsed.BuiltOf.isChain_tokens`: line comments are followed by line breaks
- `Parsed.BuiltOf.nodesEnd`: no argument ends with a line comment
-/

namespace TypstFormat

open Draft

namespace Tree

/-- White space that starts with a line break. -/
def BreaksLine (token : Kind × List Char) : Prop :=
  token.1.isSpace = true ∧ token.2.head?.any Text.isLineBreak = true

/-- A line comment may only be followed by a line break. -/
def Follows (token next : Kind × List Char) : Prop :=
  token.1 = .lineComment → BreaksLine next

/-- No node ends with a line comment. -/
def NodesEnd (trees : List Tree) : Prop :=
  ∀ tree ∈ trees, tree.isNode = true → ∀ token ∈ tree.tokens.getLast?, token.1 ≠ .lineComment

end Tree

open TypstFormat.Tree (Follows NodesEnd tokensAll)

/-! ## Tokens -/

theorem Trivia.IsCut.follows {source : List Char} {piece next : Trivia} (h : piece.IsCut source)
    (hnext : next.IsCut source) (hstart : next.range.start = piece.range.stop) :
    Follows (piece.kind, piece.range.slice source) (next.kind, next.range.slice source) := by
  obtain ⟨_, token, hcut, hrange, hkind⟩ := h
  obtain ⟨_, token', hcut', hrange', hkind'⟩ := hnext
  intro hcomment
  rcases hkind with hkind | ⟨htext, -⟩
  · obtain ⟨hspace, hbreak⟩ := hcut.breaks_behind (hkind.symm.trans hcomment) hcut' (by
      rw [← hrange, ← hrange', hstart])
    rcases hkind' with hkind' | ⟨-, hspace'⟩
    · exact ⟨by rwa [hkind'], by rwa [hrange']⟩
    · rw [hspace] at hspace'
      cases hspace'
  · cases htext.symm.trans hcomment

/-- Line comments are followed by line breaks. -/
theorem Parsed.BuiltOf.isChain_tokens {parsed : Parsed} {drafts : List Draft}
    (h : parsed.BuiltOf drafts) : parsed.tree.tokens.IsChain Follows := by
  obtain ⟨pieces, hspells, hcut⟩ := h.cut
  have htokens := hspells.tokens_eq
  rw [tokensAll, tokensAll, List.append_nil] at htokens
  rw [htokens]
  refine (List.isChain_map _).2 (hspells.tile.isChain_of fun piece hpiece next hnext hstart => ?_)
  exact (hcut piece hpiece).follows (hcut next hnext) hstart

/-! ## The ends of nodes -/

/-- The kinds of a list of arguments from one child on. -/
def ArgsPart (kinds : List Kind) : Prop :=
  (∀ kind ∈ kinds, kind = .contentBlock) ∨ ∃ free, ArgsRest free kinds

namespace ArgsPart

variable {kind : Kind} {rest : List Kind}

theorem tail (h : ArgsPart (kind :: rest)) : ArgsPart rest := by
  rcases h with h | ⟨free, h⟩
  · exact .inl (List.forall_mem_cons.1 h).2
  · cases h with
    | opening h => exact .inr ⟨_, h⟩
    | item _ h => exact .inr ⟨_, h⟩
    | comma h => exact .inr ⟨_, h⟩
    | close h => exact .inl h

/-- Behind an argument comes a comma or the closing parenthesis. -/
theorem cases (h : ArgsPart (kind :: rest)) (hnode : kind.isNode = true) :
    kind = .contentBlock ∨ ∃ next, rest.head? = some next ∧ next.isNode = false ∧
      next.isSpace = false := by
  rcases h with h | ⟨free, h⟩
  · exact .inl (h kind List.mem_cons_self)
  · cases h with
    | opening => cases hnode
    | item _ h =>
      cases h with
      | comma => exact .inr ⟨_, rfl, rfl, rfl⟩
      | close => exact .inr ⟨_, rfl, rfl, rfl⟩
    | comma => cases hnode
    | close => cases hnode

end ArgsPart

theorem argsPart_of_isArgs {children : List Draft} (h : IsArgs children) :
    ArgsPart (kinds children) := by
  obtain ⟨list, blocks, rfl, hlist, hblocks⟩ := h.parts
  have hblocks : ∀ kind ∈ kinds blocks, kind = .contentBlock := by
    intro kind hkind
    obtain ⟨block, hblock, rfl⟩ := List.mem_map.1 hkind
    exact (hblocks block (List.mem_of_mem_filter hblock)).2.1
  rcases hlist with rfl | ⟨items, hitems, hkinds⟩
  · exact .inl hblocks
  · rw [kinds_append, hkinds]
    exact .inr ⟨false, .opening (by simpa using argsRest_of_itemKinds hitems hblocks)⟩

theorem IsGap.nodesEnd_append {source : List Char} {next : Look} {toCome : Bool}
    {gap trees : List Tree} (h : IsGap source next toCome gap) (htrees : NodesEnd trees) :
    NodesEnd (gap ++ trees) := by
  intro tree htree hnode
  rcases List.mem_append.1 htree with htree | htree
  · rw [h.isNode_eq_false tree htree] at hnode
    cases hnode
  · exact htrees tree htree hnode

namespace Spaced

variable {source : List Char} {next : Look} {drafts : List Draft} {trees : List Tree}
  {before after : Bool}

/-- If trivia is still to come behind drafts, then it was not there when their last token was. -/
theorem getLast?_tokens (h : Spaced source next before drafts trees after) (hafter : after = true) :
    (leavesAll drafts = [] → before = true ∧ tokensAll trees = []) ∧
      ∀ l ∈ (leavesAll drafts).getLast?, ∃ asText : Bool, (tokensAll trees).getLast? =
        some ((Draft.token l asText).kind, l.token.range.slice source) := by
  induction h with
  | nil => exact ⟨fun _ => ⟨hafter, rfl⟩, by simp [leavesAll]⟩
  | @token _ look drafts gap trees asText before after _ _ _ ih =>
    refine ⟨by simp [leavesAll, leaves], fun l hl => ?_⟩
    obtain ⟨hnone, hsome⟩ := ih hafter
    rw [leavesAll, List.getLast?_append] at hl
    rw [Tree.tokensAll_append, List.getLast?_append, tokensAll, List.getLast?_append]
    cases hlast : (leavesAll drafts).getLast? with
    | none =>
      rw [hlast] at hl
      obtain rfl : look = l := Option.some.inj hl
      rw [(hnone (List.getLast?_eq_none_iff.1 hlast)).2]
      exact ⟨asText, rfl⟩
    | some last =>
      rw [hlast] at hl
      obtain rfl : last = l := Option.some.inj hl
      obtain ⟨asText', htokens⟩ := hsome last hlast
      rw [htokens]
      exact ⟨asText', rfl⟩
  | void _ ih => exact ih hafter
  | @node _ drafts inner gap trees children kind wraps before within after _ _ _ _ ihinner ih =>
    obtain ⟨hnone, hsome⟩ := ih hafter
    refine ⟨fun hleaves => ?_, fun l hl => ?_⟩
    · -- Without tokens in the node its trivia would not be still to come.
      obtain ⟨hinner, hbehind⟩ := List.append_eq_nil_iff.1 hleaves
      cases ((ihinner (hnone hbehind).1).1 hinner).1
    · rw [leavesAll, leaves, List.getLast?_append] at hl
      rw [Tree.tokensAll_append, List.getLast?_append, tokensAll, List.getLast?_append]
      cases hlast : (leavesAll drafts).getLast? with
      | none =>
        rw [hlast] at hl
        obtain ⟨hwithin, htrees⟩ := hnone (List.getLast?_eq_none_iff.1 hlast)
        obtain ⟨asText, htokens⟩ := (ihinner hwithin).2 l hl
        rw [htrees, Tree.tokens, htokens]
        exact ⟨asText, rfl⟩
      | some last =>
        rw [hlast] at hl
        obtain rfl : last = l := Option.some.inj hl
        obtain ⟨asText, htokens⟩ := hsome last hlast
        rw [htokens]
        exact ⟨asText, rfl⟩

/-- If no trivia is still to come in front of a token, then the token comes first. -/
theorem head?_tokens (h : Spaced source next before drafts trees after) (hbefore : before = false)
    (hproper : ProperAll drafts) {kind : Kind} (hkind : (kinds drafts).head? = some kind)
    (htoken : kind.isNode = false) : ∃ text, (tokensAll trees).head? = some (kind, text) := by
  induction h with
  | nil => cases hkind
  | token hgap =>
    obtain rfl := hbefore
    cases hgap
    rw [kinds_token] at hkind
    exact ⟨_, congrArg (fun k => some (k, _)) (Option.some.inj hkind)⟩
  | void _ ih => exact ih hbefore hproper.2 hkind
  | node =>
    rw [kinds_node] at hkind
    rw [← Option.some.inj hkind, hproper.1.1] at htoken
    cases htoken

/-- Behind a token, trivia is still to come. -/
theorem toCome_of_getLast? (h : Spaced source next before drafts trees after)
    (hproper : ProperAll drafts) :
    (kinds drafts = [] → after = before) ∧
      ∀ kind ∈ (kinds drafts).getLast?, kind.isNode = false → after = true := by
  induction h with
  | nil => simp
  | @token _ look drafts _ _ asText _ _ _ _ _ ih =>
    obtain ⟨hnone, hsome⟩ := ih hproper.2
    rw [kinds_token]
    refine ⟨by simp, fun kind hkind htoken => ?_⟩
    cases hlast : (kinds drafts).getLast? with
    | none => exact hnone (List.getLast?_eq_none_iff.1 hlast)
    | some last =>
      rw [List.getLast?_cons, hlast] at hkind
      obtain rfl : last = kind := Option.some.inj hkind
      exact hsome last hlast htoken
  | void _ ih => exact ih hproper.2
  | @node _ drafts _ _ _ _ own _ _ _ _ _ _ _ _ _ ih =>
    obtain ⟨-, hsome⟩ := ih hproper.2
    rw [kinds_node]
    refine ⟨by simp, fun kind hkind htoken => ?_⟩
    cases hlast : (kinds drafts).getLast? with
    | none =>
      rw [List.getLast?_cons, hlast] at hkind
      obtain rfl : own = kind := Option.some.inj hkind
      rw [hproper.1.1] at htoken
      cases htoken
    | some last =>
      rw [List.getLast?_cons, hlast] at hkind
      obtain rfl : last = kind := Option.some.inj hkind
      exact hsome last hlast htoken

/-- What is solid and still has trivia to come does not end with a line comment. -/
theorem ends_of_solid {kind : Kind} {wraps : Bool} {inner : List Draft} {children : List Tree}
    (h : Spaced source next before inner children true)
    (hsolid : (∃ l, (leavesAll inner).head? = some l ∧ l.token.kind.isGlue = false) ∧
      EndsPlainly [.node kind wraps inner]) :
    ∀ token ∈ (tokensAll children).getLast?, token.1 ≠ .lineComment := by
  obtain ⟨⟨l, hl, -⟩, hends⟩ := hsolid
  have hends := endsPlainly_node.1 hends
  intro token htoken hcomment
  cases hlast : (leavesAll inner).getLast? with
  | none =>
    rw [List.getLast?_eq_none_iff.1 hlast] at hl
    cases hl
  | some last =>
    obtain ⟨asText, htokens⟩ := (h.getLast?_tokens rfl).2 last hlast
    rw [htokens] at htoken
    obtain rfl := Option.some.inj htoken
    have hplain := hends last hlast
    cases asText with
    | true => cases hcomment
    | false =>
      have hcomment : last.token.kind = .lineComment := hcomment
      rw [hcomment] at hplain
      cases hplain

/-- No argument ends with a line comment, and no content block does. -/
theorem nodesEnd (h : Spaced source next before drafts trees after) (hproper : ProperAll drafts)
    (hsound : SoundAll drafts) (hsolid : SolidNodes drafts) (hkinds : ArgsPart (kinds drafts))
    (hchain : (tokensAll trees).IsChain Follows) : NodesEnd trees := by
  induction h with
  | nil => simp [NodesEnd]
  | @token _ look drafts gap trees asText _ _ hgap _ _ ih =>
    rw [Tree.tokensAll_append, tokensAll, List.isChain_append, List.isChain_append] at hchain
    refine hgap.nodesEnd_append ?_
    have hrest := ih hproper.2 hsound.2 (fun draft hdraft => hsolid draft (.tail _ hdraft))
      hkinds.tail hchain.2.1.2.1
    exact List.forall_mem_cons.2 ⟨by simp [Tree.isNode], hrest⟩
  | void _ ih =>
    exact ih hproper.2 hsound.2 (fun draft hdraft => hsolid draft (.tail _ hdraft)) hkinds hchain
  | @node _ drafts inner gap trees children kind wraps before within after hgap hends hinner hrest _
      ih =>
    rw [Tree.tokensAll_append, tokensAll, List.isChain_append, List.isChain_append] at hchain
    refine hgap.nodesEnd_append ?_
    have hbehind := ih hproper.2 hsound.2 (fun draft hdraft => hsolid draft (.tail _ hdraft))
      hkinds.tail hchain.2.1.2.1
    refine List.forall_mem_cons.2 ⟨fun _ token htoken hcomment => ?_, hbehind⟩
    cases within with
    | true =>
      exact hinner.ends_of_solid (hsolid _ List.mem_cons_self rfl) token htoken hcomment
    | false =>
      rcases hkinds.cases hproper.1.1 with rfl | ⟨next, hnext, hplain⟩
      · -- A content block ends with its bracket, and behind that trivia is still to come.
        have hbracket := ((hsound.1.1.shape.between rfl).resolve_right (by rintro ⟨⟨⟩⟩)).ends.2.1
        cases (hinner.toCome_of_getLast? hproper.1.2.2).2 _ hbracket rfl
      · -- The next token is no white space, so it cannot stand behind a line comment.
        obtain ⟨text, hhead⟩ := hrest.head?_tokens rfl hproper.2 hnext hplain.1
        have hspace := (hchain.2.1.2.2 token htoken _ hhead hcomment).1
        rw [hplain.2] at hspace
        cases hspace

/-- In no list of arguments, a child that is a node ends with a line comment. -/
theorem nodesEndAll (h : Spaced source next before drafts trees after) (hproper : ProperAll drafts)
    (hsound : SoundAll drafts) (hchain : (tokensAll trees).IsChain Follows) :
    ∀ children, (Kind.args, children) ∈ Tree.nodesAll trees → NodesEnd children := by
  induction h with
  | nil => simp [Tree.nodesAll]
  | token hgap _ _ ih =>
    rw [Tree.tokensAll_append, tokensAll, List.isChain_append, List.isChain_append] at hchain
    rw [Tree.nodesAll_append, hgap.nodesAll_eq_nil]
    exact ih hproper.2 hsound.2 hchain.2.1.2.1
  | void _ ih => exact ih hproper.2 hsound.2 hchain
  | node hgap _ hinner _ ihinner ih =>
    rw [Tree.tokensAll_append, tokensAll, List.isChain_append, List.isChain_append] at hchain
    obtain ⟨⟨hformed, hsoundInner⟩, hsound⟩ := hsound
    rw [Tree.nodesAll_append, hgap.nodesAll_eq_nil, List.nil_append]
    intro children hnode
    rcases List.mem_append.1 hnode with hnode | hnode
    · rcases List.mem_cons.1 hnode with hnode | hnode
      · obtain ⟨rfl, rfl⟩ := Prod.mk.inj hnode
        exact hinner.nodesEnd hproper.1.2.2 hsoundInner hformed.shape.solid
          (argsPart_of_isArgs hformed.shape) hchain.2.1.1
      · exact ihinner hproper.1.2.2 hsoundInner hchain.2.1.1 children hnode
    · exact ih hproper.2 hsound hchain.2.1.2.1 children hnode

end Spaced

/-- Without diagnostics, no argument and no content block behind arguments ends with a line
comment. -/
theorem Parsed.BuiltOf.nodesEnd {parsed : Parsed} {drafts : List Draft} (h : parsed.BuiltOf drafts)
    (hclean : parsed.diagnostics = []) {children : List Tree}
    (hnode : (Kind.args, children) ∈ parsed.tree.nodes) : NodesEnd children := by
  obtain ⟨trees, gap, _, _, _, htree, hspaced, hgap, -⟩ := h.spaced
  have hchain := h.isChain_tokens
  rw [htree, Tree.tokens, Tree.tokensAll_append, List.isChain_append] at hchain
  rw [htree, Tree.nodes, Tree.nodesAll_append, hgap.nodesAll_eq_nil, List.append_nil] at hnode
  rcases List.mem_cons.1 hnode with hroot | hnode
  · obtain ⟨hkind, -⟩ := Prod.mk.inj hroot
    cases hmode : parsed.mode <;> rw [hmode] at hkind <;> cases hkind
  · exact hspaced.nodesEndAll h.proper (h.sound hclean).2 hchain.1 children hnode

end TypstFormat
