import TypstFormat.Proofs.Layout.Gaps

/-!
# White space that is written

A source without diagnostics is written as tokens and gaps that do not meet. Outside of lists of
arguments, a space becomes one space, or its line breaks, of which at most two are kept, with the
indentation behind them; and one line is left empty where a paragraph ends. So between two tokens
there are never three line feeds in a row, and more than one space only where a line is indented.

## Key results

- `Parsed.BuiltOf.listOpen`: no argument begins with white space
- `alone_sets`: the pieces that a tree is written as
- `NormalGap.neat`: what is true of every gap
- `format_white_space`: what is written for white space
-/

namespace TypstFormat

open Draft (leaves leavesAll formed_of_mem_nodesAll SolidNodes)

/-! ## The beginnings of arguments -/

/-- If the tree is a node, then it begins with a token that is no white space. -/
def Tree.BeginsPlainly (tree : Tree) : Prop :=
  tree.isNode = true → ∃ token ∈ tree.tokens.head?, token.1.isSpace = false

namespace Spaced

variable {source : List Char} {next : Look} {drafts : List Draft} {trees : List Tree}
  {before after : Bool}

/-- Solid nodes begin with tokens that count. -/
theorem begins (h : Spaced source next before drafts trees after) (hsolid : SolidNodes drafts) :
    ∀ tree ∈ trees, tree.BeginsPlainly := by
  -- There are no nodes in gaps, so only the draft itself is to be looked at.
  have hplace {next : Look} {toCome : Bool} {gap trees : List Tree} {tree : Tree}
      (hgap : IsGap source next toCome gap) (htree : tree.BeginsPlainly)
      (htrees : ∀ other ∈ trees, other.BeginsPlainly) :
      ∀ other ∈ gap ++ tree :: trees, other.BeginsPlainly := by
    intro other hother
    rcases List.mem_append.1 hother with hother | hother
    · intro hnode
      rw [hgap.isNode_eq_false other hother] at hnode
      cases hnode
    · exact List.forall_mem_cons.2 ⟨htree, htrees⟩ other hother
  induction h with
  | nil => simp
  | token hgap _ _ ih =>
    exact hplace hgap (fun hnode => nomatch hnode) (ih fun draft hdraft =>
      hsolid draft (.tail _ hdraft))
  | void _ ih => exact ih fun draft hdraft => hsolid draft (.tail _ hdraft)
  | node hgap _ hinner _ _ ih =>
    refine hplace hgap (fun _ => ?_) (ih fun draft hdraft => hsolid draft (.tail _ hdraft))
    obtain ⟨⟨l, hl, hglue⟩, -⟩ := hsolid _ List.mem_cons_self rfl
    obtain ⟨asText, hhead⟩ := (hinner.head?_leaf rfl).2 l hl
    refine ⟨_, hhead, ?_⟩
    cases asText with
    | true => rfl
    | false => exact (Bool.or_eq_false_iff.1 hglue).1

end Spaced

open Layout

/-- A list of arguments ends with its closing parenthesis or with a content block. -/
theorem Tree.IsArgs.endsFirmly {children : List Tree} (h : Tree.IsArgs children) :
    EndsFirmly children := by
  obtain ⟨⟨list, blocks, rfl, hlist, hblocks⟩, -⟩ := h
  intro last hlast
  cases hend : blocks.getLast? with
  | some block =>
    rw [List.getLast?_append, hend] at hlast
    obtain rfl := Option.some.inj hlast
    obtain ⟨inner, rfl⟩ := hblocks _ (List.mem_of_getLast? hend)
    simp [Tree.kind]
  | none =>
    rw [List.getLast?_append, hend, Option.none_or] at hlast
    rcases hlist with rfl | ⟨inner, hkinds, -⟩
    · cases hlast
    · have hkind := congrArg List.getLast? hkinds
      rw [List.getLast?_map, Option.mem_def.1 hlast, ← List.cons_append,
        List.getLast?_concat] at hkind
      rw [Option.some.inj hkind]
      decide

namespace Layout

/-- What is known of the children of a list of arguments. -/
structure ListOpen (children : List Tree) : Prop where
  opens : children ≠ [] → Opens children
  begins : ∀ child ∈ children, child.BeginsPlainly
  ends : EndsFirmly children

end Layout

/-- Without diagnostics, neither a list of arguments nor an argument begins with white space. -/
theorem Parsed.BuiltOf.listOpen {parsed : Parsed} {drafts : List Draft} (h : parsed.BuiltOf drafts)
    (hclean : parsed.diagnostics = []) {children : List Tree}
    (hnode : (Kind.args, children) ∈ parsed.tree.nodes) : ListOpen children := by
  refine ⟨(h.argsOpen hclean hnode).opens, ?_, ((h.shaped hclean _ hnode).args rfl).endsFirmly⟩
  obtain ⟨trees, gap, _, _, _, htree, hspaced, hgap, -⟩ := h.spaced
  rw [htree, Tree.nodes, Tree.nodesAll_append, hgap.nodesAll_eq_nil, List.append_nil] at hnode
  rcases List.mem_cons.1 hnode with hroot | hnode
  · obtain ⟨hkind, -⟩ := Prod.mk.inj hroot
    cases hmode : parsed.mode <;> rw [hmode] at hkind <;> cases hkind
  · obtain ⟨inner, _, _, hmem, -, hinner⟩ := hspaced.exists_draft _ hnode
    exact hinner.begins (formed_of_mem_nodesAll drafts (h.sound hclean).2 hmem).shape.solid

/-! ## Trees -/

namespace Layout

open Render TypstFormat.Tree

/-- White space was read from the source. -/
def ReadFrom (source : List Char) (token : Kind × List Char) : Prop :=
  token.1.isSpace = true → ∃ mode, ∃ cut : Token, cut.IsCut source mode ∧
    (cut.kind, cut.range.slice source) = token

/-- What a space is written as is a gap. -/
theorem NormalSpace.normalGap {own written : List Char}
    (h : NormalSpace (0 < Lexeme.lineBreaks own) own written) (hblank : Blank own) :
    NormalGap written := by
  by_cases hpos : 0 < Lexeme.lineBreaks own
  · obtain ⟨indentation, hsuffix, hplain, rfl⟩ := h.newlines (decide_eq_true hpos)
    refine .newlines (by omega) (Nat.min_le_right _ _) fun c hc => ⟨?_, hplain c hc⟩
    exact hblank c (hsuffix.subset hc)
  · rw [h.space (decide_eq_false hpos)]
    exact .space

/-- The pieces that white space is written as. -/
theorem Sets.gap {source own text : List Char} {kind : Kind} (hspace : kind.isSpace = true)
    (hwritten : Written source (.token kind own) [.gap text]) (hnormal : NormalGap text) :
    Sets source (.token kind own) text [.gap text] := by
  refine ⟨?_, hwritten, .singleton hspace.symm, ?_⟩
  · simp [Piece.textAll, Piece.text]
  · intro gap hgap
    obtain rfl : gap = text := by simpa using hgap
    exact hnormal

theorem isSpace_eq_false {kind : Kind} (hspace : kind ≠ .space) (hparbreak : kind ≠ .parbreak) :
    kind.isSpace = false := by
  unfold Kind.isSpace
  split <;> first | rfl | contradiction

/-- A child of a list of arguments, from what was written for it. -/
theorem member_of_sets {source : List Char} {children : List Tree} (hopen : ListOpen children)
    (hsound : ∀ child ∈ children, child.Sound) (hargs : ArgsSound children) {child : Tree}
    {fragment : List Char} (hchild : child ∈ children)
    (hsets : ∃ pieces, Sets source child fragment pieces) : Member source child fragment := by
  refine ⟨hsound child hchild, fun hspace => ?_, hsets⟩
  have hparbreak := hargs.ne_parbreak child hchild
  have hbegins := hopen.begins child hchild
  cases child with
  | token kind own => exact ⟨_, rfl, isSpace_eq_false hspace hparbreak⟩
  | node => exact hbegins rfl

theorem arguments_sets_of_open {source : List Char} {children : List Tree}
    {fragments : List (List Char)} (hopen : ListOpen children)
    (hmembers : List.Forall₂ (Member source) children fragments)
    (hchain : (tokensAll children).IsChain Tree.Apart) (start : Nat) :
    Yields (arguments start children fragments) fun text =>
      ∃ pieces, SetsAll source true children text pieces := by
  cases children with
  | nil =>
    cases hmembers
    intro context text after hrun
    rw [arguments_nil_yields start context text after hrun]
    exact ⟨[], rfl, .nil, .nil, by simp⟩
  | cons first rest =>
    obtain ⟨token, behind, htokens, hspace⟩ := (hopen.opens (List.cons_ne_nil _ _)).head?_tokens
    exact arguments_sets hmembers hchain hopen.ends ⟨token, by rw [htokens]; rfl, hspace⟩ start

mutual

/-- The pieces that a tree is written as. -/
theorem alone_sets {source : List Char} (options : Options) : (t : Tree) → t.Sound →
    (∀ children, (Kind.args, children) ∈ t.nodes → ListOpen children) →
    (∀ token ∈ t.tokens, ReadFrom source token) → t.tokens.IsChain Tree.Apart →
    {text : List Char} → alone options t = .ok text → ∃ pieces, Sets source t text pieces
  | .token kind own, hsound, _, hread, _, text, h => by
    obtain ⟨after, hrun⟩ := run_of_alone h
    have hread := hread _ List.mem_cons_self
    unfold tree at hrun
    split at hrun
    · obtain ⟨mode, cut, hcut, heq⟩ := hread rfl
      obtain ⟨hkind, rfl⟩ := Prod.mk.inj heq
      have hnormal := space_normal rfl hrun
      refine ⟨_, .gap rfl (.space hcut hkind ?_) (hnormal.normalGap (hsound.1 rfl))⟩
      rw [(hcut.lineBreaks_eq (by rw [hkind]; rfl)).1, hcut.text_eq]
      exact hnormal
    · obtain ⟨mode, cut, hcut, heq⟩ := hread rfl
      obtain ⟨hkind, rfl⟩ := Prod.mk.inj heq
      have hbreaks := hcut.two_le_lineBreaks hkind
      rw [hcut.text_eq] at hbreaks
      obtain rfl := parbreak_eq rfl hbreaks hrun
      exact ⟨_, .gap rfl .parbreak .emptyLine⟩
    · rename_i hspace hparbreak
      obtain ⟨rfl, -⟩ := Prod.mk.inj (Except.ok.inj hrun)
      exact ⟨_, .token (isSpace_eq_false (by simpa using hspace) (by simpa using hparbreak)) own⟩
  | .node kind children, ⟨hnode, hargs, hchildren⟩, hopen, hread, hchain, text, h => by
    obtain ⟨after, hrun⟩ := run_of_alone h
    unfold tree at hrun
    obtain ⟨fragments, behind, hfragments, hrun⟩ := run_of_bind hrun
    have halone := trees_alone hchildren (fun _ => .inl rfl) hfragments
    have hsets := all_sets options children hchildren
      (fun inner hinner => hopen inner (.tail _ hinner)) hread hchain halone
    split at hrun
    · have hlist := hopen children (.head _)
      have hmembers : List.Forall₂ (Member source) children fragments := by
        refine List.forall₂_iff_get.2 ⟨hsets.length_eq, fun i hi hi' => ?_⟩
        exact member_of_sets hlist hchildren.mem (hargs rfl) (List.getElem_mem hi)
          (hsets.get hi hi')
      obtain ⟨pieces, htext, hwritten, hpaced, hgaps⟩ :=
        arguments_sets_of_open hlist hmembers hchain 0 _ _ _ hrun
      exact ⟨pieces, htext, .node hwritten, hpaced, hgaps⟩
    · cases hnode
    · rename_i hkind _
      rw [joined_yields _ _ _ _ hrun]
      obtain ⟨pieces, htext, hwritten, hpaced, hgaps⟩ := SetsAll.flatten hsets hchain
      refine ⟨pieces, htext, .node ?_, hpaced, hgaps⟩
      rw [decide_eq_false hkind]
      exact hwritten

theorem all_sets {source : List Char} (options : Options) : (ts : List Tree) →
    Tree.SoundAll ts →
    (∀ children, (Kind.args, children) ∈ Tree.nodesAll ts → ListOpen children) →
    (∀ token ∈ tokensAll ts, ReadFrom source token) → (tokensAll ts).IsChain Tree.Apart →
    {fragments : List (List Char)} →
    List.Forall₂ (fun t fragment => alone options t = .ok fragment) ts fragments →
    List.Forall₂ (fun t fragment => ∃ pieces, Sets source t fragment pieces) ts fragments
  | [], _, _, _, _, _, .nil => .nil
  | t :: ts, ⟨ht, hts⟩, hopen, hread, hchain, _, .cons hfirst hrest => by
    obtain ⟨hown, hbehind, -⟩ := List.isChain_append.1 hchain
    refine .cons (alone_sets options t ht (fun inner hinner => ?_) (fun token htoken => ?_) hown
      hfirst) (all_sets options ts hts (fun inner hinner => ?_) (fun token htoken => ?_) hbehind
      hrest)
    · exact hopen inner (List.mem_append_left _ hinner)
    · exact hread token (List.mem_append_left _ htoken)
    · exact hopen inner (List.mem_append_right _ hinner)
    · exact hread token (List.mem_append_right _ htoken)

end

/-! ## Gaps between tokens -/

/-- White space without three line feeds in a row, and without two spaces in a row but where a line
is indented. -/
structure Neat (gap : List Char) : Prop where
  blank : Blank gap
  newlines : ¬['\n', '\n', '\n'] <:+: gap
  spaces : ∀ before behind, gap = before ++ ' ' :: ' ' :: behind → '\n' ∈ before

theorem NormalGap.neat {gap : List Char} (h : NormalGap gap) : Neat gap := by
  cases h with
  | space =>
    refine ⟨.cons rfl .nil, by decide, fun before behind heq => ?_⟩
    have hlength := congrArg List.length heq
    simp only [List.length_append, List.length_cons, List.length_nil] at hlength
    omega
  | @newlines n indentation hpos hfew hplain =>
    refine ⟨fun c hc => ?_, fun hinfix => ?_, fun before behind heq => ?_⟩
    · rcases List.mem_append.1 hc with hc | hc
      · rw [List.eq_of_mem_replicate hc]
        rfl
      · exact (hplain c hc).1
    · -- All line feeds come first, and there are no more than two.
      have hnone : indentation.count '\n' = 0 := by
        rw [List.count_eq_zero]
        intro hmem
        exact absurd (hplain _ hmem).2 (by decide)
      have hcount : ['\n', '\n', '\n'].count '\n' ≤
          (List.replicate n '\n' ++ indentation).count '\n' := hinfix.sublist.count_le _
      rw [List.count_append, List.count_replicate_self, hnone] at hcount
      have hthree : ['\n', '\n', '\n'].count '\n' = 3 := by decide
      omega
    · obtain ⟨n, rfl⟩ := Nat.exists_eq_add_of_le hpos
      rw [Nat.add_comm, List.replicate_succ, List.cons_append] at heq
      cases before with
      | nil => cases (List.cons.inj heq).1
      | cons c before =>
        rw [(List.cons.inj heq).1]
        exact List.mem_cons_self

theorem Neat.nil : Neat [] :=
  ⟨.nil, by decide, fun before behind heq => by simp at heq⟩

/-- What stands between two tokens, one behind the other, is neat. -/
def NeatBetween (pieces : List Piece) : Prop :=
  ∀ front gaps behind token next,
    pieces = front ++ .token token :: (gaps ++ .token next :: behind) →
    (∀ piece ∈ gaps, piece.isGap = true) → Neat (Piece.textAll gaps)

/-- Where no two gaps meet, there is at most one between two tokens. -/
theorem Sets.neatBetween {source text : List Char} {t : Tree} {pieces : List Piece}
    (h : Sets source t text pieces) : NeatBetween pieces := by
  rintro front gaps behind token next rfl hgaps
  have hchain := (List.isChain_append.1 h.paced.isChain).2.1
  rw [List.isChain_cons, List.isChain_append] at hchain
  cases gaps with
  | nil => exact .nil
  | cons first rest =>
    cases rest with
    | nil =>
      cases first with
      | token => cases hgaps _ List.mem_cons_self
      | gap gap =>
        have hnormal := h.gaps gap (by simp)
        simpa [Piece.textAll, Piece.text] using hnormal.neat
    | cons second rest =>
      have hmeet := (List.isChain_cons.1 hchain.2.1).1 second rfl
      exact absurd ⟨hgaps _ List.mem_cons_self, hgaps _ (by simp)⟩ hmeet

end Layout

/-! ## Sources -/

open Layout

/-- All white space of a tree was read from its source. -/
theorem Parsed.BuiltOf.readFrom {parsed : Parsed} {drafts : List Draft}
    (h : parsed.BuiltOf drafts) : ∀ token ∈ parsed.tree.tokens, ReadFrom parsed.source token := by
  obtain ⟨pieces, hspells, hcut⟩ := h.cut
  have htokens := hspells.tokens_eq
  rw [Tree.tokensAll, Tree.tokensAll, List.append_nil] at htokens
  rw [htokens]
  intro token htoken hspace
  obtain ⟨piece, hpiece, rfl⟩ := List.mem_map.1 htoken
  obtain ⟨mode, cut, hcut, hrange, hkind | ⟨htext, -⟩⟩ := hcut piece hpiece
  · exact ⟨mode, cut, hcut, by rw [hkind, hrange]⟩
  · have hspace : piece.kind.isSpace = true := hspace
    rw [htext] at hspace
    cases hspace

/-- In the break between two paragraphs, two lines end. -/
theorem Parsed.BuiltOf.two_le_lineBreaks {parsed : Parsed} {drafts : List Draft}
    (h : parsed.BuiltOf drafts) : ∀ token ∈ parsed.tree.tokens, token.1 = .parbreak →
      2 ≤ Lexeme.lineBreaks token.2 := by
  intro token htoken hkind
  obtain ⟨mode, cut, hcut, rfl⟩ := h.readFrom token htoken (by rw [hkind]; rfl)
  rw [← hcut.text_eq]
  exact hcut.two_le_lineBreaks hkind

/-- A source without diagnostics is formatted as its tree is written by itself. The one exception
are indentations so wide that no text can hold them. -/
theorem format_eq_alone {source : List Char} {mode : Mode} {parsed : Parsed} {drafts : List Draft}
    (hparse : parse source mode = .ok parsed) (h : parsed.BuiltOf drafts)
    (hclean : parsed.diagnostics = []) (options : Options) :
    (∃ formatted, format source options mode = .ok formatted ∧
      alone options parsed.tree = .ok formatted.text) ∨
    (Render.maxTextLength < options.indentWidth ∧
      format source options mode = .error (.layout .wideIndent)) := by
  have hsound := h.sound_tree hclean
  rw [format_eq_run hparse h hclean]
  rcases tree_writes parsed.source 0 parsed.tree hsound { options } with
    ⟨text, context, hrun, -⟩ | ⟨hwide, hrun⟩
  · rw [hrun]
    exact .inl ⟨_, rfl, alone_of_tree hsound rfl hrun⟩
  · rw [hrun]
    exact .inr ⟨hwide, rfl⟩

/-- A source without diagnostics is written as tokens and gaps. Outside of lists of arguments, a
space that contains no newline is written as one space, and any other one as its line breaks, of
which at most two are kept, with an end of it that holds no line break. A break between two
paragraphs is written as two line feeds. Between two tokens there are no three line feeds in a row,
and no two spaces in a row but where a line is indented. The one exception are indentations so wide
that no text can hold them. -/
theorem format_white_space (source : List Char) (options : Options) (mode : Mode) :
    ∃ parsed, parse source mode = .ok parsed ∧ (parsed.diagnostics = [] →
      (∃ formatted pieces, format source options mode = .ok formatted ∧
        formatted.text = Piece.textAll pieces ∧ Written source parsed.tree pieces ∧
        NeatBetween pieces) ∨
      (Render.maxTextLength < options.indentWidth ∧
        format source options mode = .error (.layout .wideIndent))) := by
  obtain ⟨parsed, drafts, hparse, hsource, hmode, hbuilt⟩ := parse_eq_ok source mode
  refine ⟨parsed, hparse, fun hclean => ?_⟩
  rcases format_eq_alone hparse hbuilt hclean options with ⟨formatted, hformat, halone⟩ | hwide
  · left
    obtain ⟨pieces, hsets⟩ := alone_sets options parsed.tree (hbuilt.sound_tree hclean)
      (fun children hnode => hbuilt.listOpen hclean hnode) hbuilt.readFrom (hbuilt.apart hclean)
      halone
    rw [hsource] at hsets
    exact ⟨formatted, pieces, hformat, hsets.text_eq, hsets.written, hsets.neatBetween⟩
  · exact .inr hwide

/-- With a space behind a list that is broken, an indentation can be too wide. -/
theorem format_wide_before_space :
    ((parse ['f', '(', '/', '/', '\n', ')', '\n'] .code).toOption.map fun parsed =>
        (parsed.diagnostics.isEmpty, parsed.tree.children.map Tree.kind)) =
      some (true, [.funcCall, .space]) ∧
    format ['f', '(', '/', '/', '\n', ')', '\n'] { indentWidth := 9223372036854775808 } .code =
      .error (.layout .wideIndent) := by
  refine ⟨by decide +kernel, eq_error ?_⟩
  decide +kernel

end TypstFormat
