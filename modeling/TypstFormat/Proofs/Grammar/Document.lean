import TypstFormat.Grammar.Document
import TypstFormat.Proofs.Grammar.Apart
import TypstFormat.Proofs.Grammar.Markup
import TypstFormat.Proofs.Tree.Position

/-!
# Every source has a tree

The recursive rules are adequate for as much of the source as they may be nested deeply, by
induction on the depth. Each language, read from the start of a source, stops only at its end. The
draft that was read is then built into a tree, whose text is the source.

## Key results

- `Grammar.rules_adequate`: the rules return wherever less is left than they may be nested
- `Grammar.document_returns`: a source is read up to its end
- `parse_readBy`: what a source that was parsed was read by
- `parse_eq_ok`: a source has a tree that is built of sound drafts
- `parse_total_lossless`: the tree has the kind of its language and the text of the source
-/

namespace TypstFormat

open Draft Parse TypstFormat.Parser

namespace Grammar

variable {p : Parser}

/-- The rules are adequate as deeply as they may be nested: each call has consumed a character. -/
theorem rules_adequate (depth : Nat) : (rules depth).Adequate depth := by
  induction depth with
  | zero =>
    -- Less than nothing is never left.
    exact ⟨fun _ hleft => absurd hleft (Nat.not_lt_zero _),
      fun _ _ hleft => absurd hleft (Nat.not_lt_zero _),
      fun _ _ hleft => absurd hleft (Nat.not_lt_zero _)⟩
  | succ depth ih =>
    refine ⟨fun hp hleft atomic precedence => ?_, fun hp hmode hleft atLineStart extent stops => ?_,
      fun hp hat hleft => ?_⟩
    · exact expression_returns ih hp (Nat.le_of_lt_succ hleft) atomic precedence
    · exact (markup_returns ih hp hmode (Nat.le_of_lt_succ hleft) atLineStart extent stops).mono
        fun _ _ h => h.1
    · exact conditional_returns ih hp (.of_isAt rfl (isAt_iff.2 hat)) (Nat.le_of_lt_succ hleft)

/-- A source that is written in one language is read up to its end. -/
theorem document_returns (source : List Char) (mode : Mode) :
    Returns (document (rulesFor source) mode) (Parser.ofSource source mode) fun _ p' =>
      ∃ children, Spans (Parser.ofSource source mode) [.node mode.rootKind false children] p' ∧
        Neat (.node mode.rootKind false children) ∧ p'.stream.kind = .eof := by
  have hok := ok_ofSource source mode
  have hr := rules_adequate (source.length + 2)
  obtain ⟨hconsumed, hsource, hmode, _⟩ := Stream.ofSource_fields source mode
  have hleft : (Parser.ofSource source mode).left < source.length + 2 := by
    unfold left Parser.source
    show (Stream.ofSource source mode).source.length - _ < _
    rw [hsource]
    omega
  -- No rule for line breaks is in force outside of all nodes, so the end is that of the source.
  have hkind {p' : Parser} (hok' : p'.Ok) (hplain : p'.Plain) (heof : p'.isAt .eof = true) :
      p'.stream.kind = .eof := by
    rw [← hplain.current_eq hok']
    exact isAt_iff.1 heof
  have hplain : (Parser.ofSource source mode).Plain := .inr (by simp [Parser.ofSource])
  cases mode with
  | markup =>
    refine (markup_returns hr hok hmode (Nat.le_of_lt hleft) true .unbounded []).mono ?_
    rintro _ p' ⟨⟨children, h, hneat, -⟩, hstop⟩
    refine ⟨children, h, hneat.1, ?_⟩
    exact hkind h.ok (hplain.of_agrees h.toAgrees) (hstop.resolve_right (by simp))
  | code =>
    refine (code_returns hr hok hmode hplain hleft []).mono ?_
    rintro _ p' ⟨⟨children, h⟩, hstop⟩
    have hbare := h.bare (hmode.trans_ne (by decide))
    refine ⟨children, h.toSpans, hbare.neat.1, ?_⟩
    have hplain' := hplain.of_agrees h.toAgrees
    refine hkind h.ok hplain' ?_
    rw [← hplain'.isAtEnd_eq h.ok]
    exact hstop.resolve_right (by simp [Parser.isAtAny])
  | math =>
    refine (math_returns hr hok hmode hplain (Nat.le_of_lt hleft) []).mono ?_
    rintro _ p' ⟨⟨children, h⟩, hstop⟩
    have hbare := h.bare (hmode.trans_ne (by decide))
    refine ⟨children, h.toSpans, hbare.neat.1, ?_⟩
    exact hkind h.ok (hplain.of_agrees h.toAgrees) (hstop.resolve_right (by simp [Parser.isAtAny]))

end Grammar

/-! ## Sources and their trees -/

/-- The tree of a source was built of drafts, and what holds of them. -/
structure Parsed.BuiltOf (parsed : Parsed) (drafts : List Draft) : Prop where
  tree_eq : ∃ trees, parsed.tree = .node parsed.mode.rootKind trees ∧
    Grown parsed.source drafts trees ∧ Tree.textAll trees = parsed.source
  /-- All trivia stands in gaps, the last one at the end of the source, and lines end only where they
  may. -/
  spaced : ∃ trees gap last toCome stop, parsed.tree = .node parsed.mode.rootKind (trees ++ gap) ∧
    Spaced parsed.source last true drafts trees toCome ∧ IsGap parsed.source last toCome gap ∧
    Lined parsed.source .anywhere last (.node parsed.mode.rootKind false drafts) ∧
    Runs parsed.source 0 drafts last stop
  proper : ProperAll drafts
  neat : Neat (.node parsed.mode.rootKind false drafts)
  sound : parsed.diagnostics = [] → Sound (.node parsed.mode.rootKind false drafts)
  fits : ∀ d ∈ parsed.diagnostics, d.Fits parsed.source
  /-- The diagnostics of characters belong to the flawed ones of the pieces that the tree spells. -/
  flaws : ∃ pieces, Spells parsed.source 0 [parsed.tree] pieces parsed.source.length ∧
    ((parsed.diagnostics.filter (·.isLexical)).map (·.range)).Perm
      ((pieces.filter (·.isFlawed parsed.source)).map (·.range))
  /-- What the tree spells is cut out of the source. -/
  cut : ∃ pieces, Spells parsed.source 0 [parsed.tree] pieces parsed.source.length ∧
    ∀ piece ∈ pieces, piece.IsCut parsed.source
  apart : parsed.diagnostics = [] → parsed.tree.tokens.IsChain Tree.Apart

/-- The tree of what was read up to the end of a source. -/
theorem finish_of_spans {source : List Char} {mode : Mode} {kind : Kind} {children : List Draft}
    {p' : Parser} (h : Spans (Parser.ofSource source mode) [.node kind false children] p')
    (heof : p'.stream.kind = .eof) :
    ∃ trees gap toCome pieces events, p'.finish = .ok (.node kind (trees ++ gap), events) ∧
      Spaced source p'.look true children trees toCome ∧ IsGap source p'.look toCome gap ∧
      Lined source .anywhere p'.look (.node kind false children) ∧
      Runs source 0 children p'.look p'.stream.consumed ∧ Grown source children (trees ++ gap) ∧
      Spells source 0 (trees ++ gap) pieces source.length ∧
      (∀ piece ∈ piecesAll children ++ p'.stream.trivia, piece ∈ pieces) ∧
      (∀ piece ∈ pieces, piece.IsCut source) ∧
      (p'.findings = [] → pieces.IsChain Trivia.Apart) ∧
      ((p'.allDiagnostics.filter (·.isLexical)).map (·.range)).Perm
        ((pieces.filter (·.isFlawed source)).map (·.range)) := by
  obtain ⟨hconsumed, hsource, hmode, hsettled, hfound⟩ := Stream.ofSource_fields source mode
  have hsource : (Parser.ofSource source mode).source = source := hsource
  have hconsumed : (Parser.ofSource source mode).stream.consumed = 0 := hconsumed
  have hsettled : (Parser.ofSource source mode).stream.settled = [] := hsettled
  -- Nothing lies in front of the source, so what was read is all that was recorded.
  have hpath := h.path
  have hleaves : leavesAll [Draft.node kind false children] = leavesAll children :=
    leavesAll_singleton _
  rw [hsource, hconsumed, hleaves] at hpath
  have hsource' : p'.source = source := h.source_eq.trans hsource
  have htrivia : p'.stream.trivia =
      (leavesAll children).flatMap (·.trivia) ++ p'.look.trivia := by
    unfold Stream.trivia
    rw [h.ok.steady.recorded, h.settled_eq, hsettled, hleaves]
    simp [Parser.look]
  have hevents : p'.events = (eventsAll [Draft.node kind false children]).toArray := by
    have : p'.events.toList = eventsAll [Draft.node kind false children] := h.events_eq
    rw [← this]
  have hlast : p'.look = TypstFormat.look source p'.look.mode p'.stream.consumed := by
    rw [← hsource']
    rfl
  have heof : p'.look.token.kind = .eof := by
    rw [← h.ok.kind_eq]
    exact heof
  obtain ⟨trees, gap, toCome, pieces, events, hbuild, hspaced, hgap, hgrown, hspells, hperm⟩ :=
    buildTree_eventsAll (linkedAll_of_properAll _ h.proper) hpath hlast heof
  -- If no line ends in front of what code finds, then none ends in front of what another mode does.
  have hlined : Lined source .anywhere p'.look (.node kind false children) := by
    have hlined := h.lined.2.1
    rw [hsource] at hlined
    exact hlined.mono _ fun hjoins => joins_look h.ok.steady.consumed_le hjoins _
  have hcovers : p'.look.Covers source p'.stream.consumed := hsource' ▸ h.ok.steady.covers
  refine ⟨trees, gap, toCome, pieces, events, ?_, hspaced, hgap, hlined,
    ⟨Nat.zero_le _, hpath, hcovers⟩, hgrown, hspells, ?_,
    isCut_pieces h hperm, fun hclean => isChain_pieces h heof hclean hperm hspells.tile,
    ranges_diagnostics h heof hperm⟩
  · unfold Parser.finish
    rw [hsource', htrivia, hevents]
    exact hbuild
  · intro piece hpiece
    rw [htrivia] at hpiece
    exact hperm.mem_iff.2 hpiece

/-- Nothing is shown where neither the scanner nor the grammar has found anything. -/
theorem Parser.allDiagnostics_eq_nil {p : Parser} :
    p.allDiagnostics = [] ↔ p.stream.scanner.findings = [] ∧ p.findings = [] := by
  have hperm := Diagnostic.collect_perm [p.stream.scanner.diagnostics, p.diagnostics]
  change p.allDiagnostics.Perm _ at hperm
  rw [← List.perm_nil, hperm.congr_left, List.perm_nil]
  simp [Scanner.diagnostics, Parser.diagnostics]

private theorem fits_allDiagnostics {p : Parser} (hp : p.Ok) :
    ∀ d ∈ p.allDiagnostics, d.Fits p.source := by
  intro d hd
  obtain ⟨group, hgroup, hd⟩ := Diagnostic.mem_collect.1 hd
  simp only [List.mem_cons, List.not_mem_nil, or_false] at hgroup
  rcases hgroup with rfl | rfl
  · exact hp.steady.fits_findings d (List.mem_reverse.1 hd)
  · exact (hp.complains d (List.mem_reverse.1 hd)).toFits

/-- What was read of a source, and by what parser. -/
structure Parsed.ReadBy (parsed : Parsed) (children : List Draft) (p' : Parser) : Prop where
  run : ∃ closed, Grammar.document (Grammar.rulesFor parsed.source) parsed.mode
    (Parser.ofSource parsed.source parsed.mode) = .ok (closed, p')
  reads : Spans (Parser.ofSource parsed.source parsed.mode)
    [.node parsed.mode.rootKind false children] p'
  eof : p'.stream.kind = .eof
  finish : ∃ events, p'.finish = .ok (parsed.tree, events)
  grown : ∃ trees, parsed.tree = .node parsed.mode.rootKind trees ∧
    Grown parsed.source children trees
  /-- All tokens and all trivia are in the tree. -/
  pieces : ∃ pieces, Spells parsed.source 0 [parsed.tree] pieces parsed.source.length ∧
    ∀ piece ∈ piecesAll children ++ p'.stream.trivia, piece ∈ pieces
  diagnostics_eq : parsed.diagnostics = p'.allDiagnostics

/-- What is read of a source, and how it is finished, is what the source is parsed to. -/
theorem parse_of_run {source : List Char} {mode : Mode} {closed : Closed} {p' : Parser}
    {tree : Tree} {events : Array Event}
    (hrun : Grammar.document (Grammar.rulesFor source) mode (Parser.ofSource source mode) =
      .ok (closed, p')) (hfinish : p'.finish = .ok (tree, events)) :
    parse source mode = .ok { source, mode, tree, diagnostics := p'.allDiagnostics } := by
  have hrun : (Grammar.document (Grammar.rulesFor source) mode).run
      (Parser.ofSource source mode) = .ok (closed, p') := hrun
  unfold parse
  simp only [hrun, Except.mapError, bind, Except.bind, hfinish]
  rfl

/-- A source that was parsed was read by a parser up to its end. -/
theorem parse_readBy {source : List Char} {mode : Mode} {parsed : Parsed}
    (h : parse source mode = .ok parsed) :
    parsed.source = source ∧ parsed.mode = mode ∧ ∃ children p', parsed.ReadBy children p' := by
  obtain ⟨closed, p', hrun, children, hreads, _, heof⟩ := Grammar.document_returns source mode
  obtain ⟨trees, gap, _, pieces, events, hfinish, _, _, _, _, hgrown, hspells, hpieces, _⟩ :=
    finish_of_spans hreads heof
  rw [parse_of_run hrun hfinish] at h
  cases h
  exact ⟨rfl, rfl, children, p', ⟨closed, hrun⟩, hreads, heof, ⟨events, hfinish⟩,
    ⟨_, rfl, hgrown⟩, ⟨pieces, hspells.node mode.rootKind, hpieces⟩, rfl⟩

/-- Every source has a tree. -/
theorem parse_eq_ok (source : List Char) (mode : Mode) :
    ∃ parsed drafts, parse source mode = .ok parsed ∧ parsed.source = source ∧
      parsed.mode = mode ∧ parsed.BuiltOf drafts := by
  obtain ⟨closed, p', hrun, children, h, hneat, heof⟩ := Grammar.document_returns source mode
  obtain ⟨trees, gap, toCome, pieces, events, hfinish, hspaced, hgap, hlined, hruns, hgrown, hspells,
    _, hcut, hapart, hperm⟩ := finish_of_spans h heof
  have htext : Tree.textAll (trees ++ gap) = source := by
    rw [hspells.textAll, between_zero_length]
  refine ⟨{ source, mode, tree := .node mode.rootKind (trees ++ gap),
            diagnostics := p'.allDiagnostics },
    children, parse_of_run hrun hfinish, rfl, rfl, ⟨_, rfl, hgrown, htext⟩,
    ⟨trees, gap, p'.look, toCome, _, rfl, hspaced, hgap, hlined, hruns⟩, ?_, hneat, ?_, ?_,
    ⟨pieces, hspells.node mode.rootKind, hperm⟩, ⟨pieces, hspells.node mode.rootKind, hcut⟩, ?_⟩
  · exact h.proper.1.2.2
  · intro hclean
    exact (h.tidy (Parser.allDiagnostics_eq_nil.1 hclean).2).sound.1
  · have hsource' : p'.source = source :=
      h.source_eq.trans (Stream.ofSource_fields source mode).2.1
    intro d hd
    rw [← hsource']
    exact fits_allDiagnostics h.ok d hd
  · intro hclean
    show (Tree.tokensAll (trees ++ gap)).IsChain Tree.Apart
    rw [hspells.tokens_eq]
    exact (List.isChain_map _).2 (hapart (Parser.allDiagnostics_eq_nil.1 hclean).2)

/-- Parsing never fails: every source has a tree in every language, whose root has the kind of the
language and whose tokens, put together, are the source. -/
theorem parse_total_lossless (source : List Char) (mode : Mode) :
    ∃ parsed, parse source mode = .ok parsed ∧ parsed.tree.isNode = true ∧
      parsed.tree.kind = mode.rootKind ∧ parsed.tree.tokens.flatMap (·.2) = source := by
  obtain ⟨parsed, drafts, hparse, hsource, hmode, hbuilt⟩ := parse_eq_ok source mode
  obtain ⟨trees, htree, _, htext⟩ := hbuilt.tree_eq
  refine ⟨parsed, hparse, ?_, ?_, ?_⟩
  · rw [htree]
    rfl
  · rw [htree, hmode]
    rfl
  · rw [← Tree.text_eq_flatMap_tokens, htree, ← hsource]
    exact htext

end TypstFormat
