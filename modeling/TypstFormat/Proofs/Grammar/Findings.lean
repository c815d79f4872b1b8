import TypstFormat.Grammar.Document
import TypstFormat.Proofs.Grammar.Reads
import Mathlib.Data.List.Perm.Basic

/-!
# What the scanner has found

A source may be scanned in many ways before it is read: ahead of the grammar, in a mode that is
given up again, or up to a mark that the parser comes back to. What the scanner has found in the end
is what the looks have found that were consumed, and the one at the end of the source. Hence its
diagnostics belong to the flawed tokens and the flawed trivia, one to each
(`Parser.ranges_diagnostics`).

## Key results

- `Draft.ranges_piecesAll`: making a token plain text hides no flaw
- `Look.Path.ranges_findings`: looks have found what is wrong with their pieces
- `Parser.ranges_diagnostics`: the diagnostics of characters that are shown when a source was read
- `Parser.isCut_pieces`: the pieces of the tree are cut out of the source
-/

namespace TypstFormat

open Draft

/-- The piece is a token that stands in a source. It may count as text if it is not white space. -/
def Trivia.IsCut (source : List Char) (piece : Trivia) : Prop :=
  ∃ (mode : Mode) (token : Token), token.IsCut source mode ∧ piece.range = token.range ∧
    (piece.kind = token.kind ∨ piece.kind = .text ∧ token.kind.isSpace = false)

/-! ## Drafts -/

namespace Draft

variable {source : List Char}

mutual

theorem ranges_pieces : (draft : Draft) → draft.Proper →
    (draft.pieces.filter (·.isFlawed source)).map (·.range) =
      ((draft.leaves.map (·.token.toTrivia)).filter (·.isFlawed source)).map (·.range)
  | token look false, _ => rfl
  | token look true, h => by
    -- Neither the text nor what it was made from can be flawed.
    have htext : ({ look.token.toTrivia with kind := .text } : Trivia).isFlawed source = false :=
      Trivia.isFlawed_of_kind rfl
    have htoken : look.token.toTrivia.isFlawed source = false := Trivia.isFlawed_of_kind (h rfl).1
    simp [pieces, leaves, htext, htoken]
  | void, _ => rfl
  | node _ _ children, h => ranges_piecesAll children h.2.2

/-- What is wrong with the tokens of proper drafts was wrong with them when they were found. -/
theorem ranges_piecesAll : (drafts : List Draft) → ProperAll drafts →
    ((piecesAll drafts).filter (·.isFlawed source)).map (·.range) =
      (((leavesAll drafts).map (·.token.toTrivia)).filter (·.isFlawed source)).map (·.range)
  | [], _ => rfl
  | draft :: drafts, h => by
    have hdraft := ranges_pieces draft h.1
    have hdrafts := ranges_piecesAll drafts h.2
    simp only [piecesAll, leavesAll, List.filter_append, List.map_append, hdraft, hdrafts]

end

mutual

theorem isCut_pieces : (draft : Draft) → draft.Proper →
    (∀ l ∈ draft.leaves, l.token.IsCut source l.mode) → ∀ piece ∈ draft.pieces, piece.IsCut source
  | token look false, _, h => by
    have hcut := h look List.mem_cons_self
    intro piece hpiece
    obtain rfl := List.mem_singleton.1 hpiece
    exact ⟨look.mode, look.token, hcut, rfl, .inl rfl⟩
  | token look true, hproper, h => by
    have hcut := h look List.mem_cons_self
    intro piece hpiece
    obtain rfl := List.mem_singleton.1 hpiece
    exact ⟨look.mode, look.token, hcut, rfl, .inr ⟨rfl, (hproper rfl).2⟩⟩
  | void, _, _ => by simp [pieces]
  | node _ _ children, hproper, h => isCut_piecesAll children hproper.2.2 h

/-- The tokens of proper drafts are cut out of the source. -/
theorem isCut_piecesAll : (drafts : List Draft) → ProperAll drafts →
    (∀ l ∈ leavesAll drafts, l.token.IsCut source l.mode) →
    ∀ piece ∈ piecesAll drafts, piece.IsCut source
  | [], _, _ => by simp [piecesAll]
  | draft :: drafts, hproper, h => by
    obtain ⟨hdraft, hdrafts⟩ := List.forall_mem_append.1 h
    exact List.forall_mem_append.2 ⟨isCut_pieces draft hproper.1 hdraft,
      isCut_piecesAll drafts hproper.2 hdrafts⟩

end

end Draft

/-! ## Looks -/

namespace Look.Path

variable {source : List Char}

theorem exists_covers {start stop : Nat} {ls : List Look} (h : Path source start ls stop)
    (hle : start ≤ source.length) : ∀ l ∈ ls, ∃ offset, l.Covers source offset := by
  induction ls generalizing start with
  | nil => simp
  | cons l ls ih =>
    have hcovers := h.covers hle
    exact List.forall_mem_cons.2 ⟨⟨start, hcovers⟩, ih h.2.2 hcovers.stop_le⟩

/-- All tokens of the looks stand in the source. -/
theorem isCut {start stop : Nat} {ls : List Look} (h : Path source start ls stop)
    (hle : start ≤ source.length) : ∀ l ∈ ls, l.token.IsCut source l.mode := by
  induction ls generalizing start with
  | nil => simp
  | cons l ls ih =>
    have hcovers := h.covers hle
    exact List.forall_mem_cons.2 ⟨hcovers.isCut h.2.1, ih h.2.2 hcovers.stop_le⟩

end Look.Path

/-- Looks have found what is wrong with their pieces, each in its place. -/
theorem Look.ranges_findings {source : List Char} {ls : List Look}
    (h : ∀ l ∈ ls, ∃ offset, l.Covers source offset) :
    (ls.flatMap (·.findings.reverse)).map (·.range) =
      ((ls.flatMap (·.pieces)).filter (·.isFlawed source)).map (·.range) := by
  induction ls with
  | nil => rfl
  | cons l ls ih =>
    obtain ⟨⟨_, hcovers⟩, hrest⟩ := List.forall_mem_cons.1 h
    simp only [List.flatMap_cons, List.map_append, List.filter_append, hcovers.ranges_findings,
      ih hrest]

/-! ## Parsers -/

namespace Parser

variable {source : List Char} {mode : Mode} {draft : Draft} {p' : Parser}

/-- When a source was read from its start, the scanner has found what the looks have found. -/
theorem scanner_diagnostics (h : Spans (ofSource source mode) [draft] p') :
    p'.stream.scanner.diagnostics =
      (draft.leaves ++ [p'.look]).flatMap (·.findings.reverse) := by
  obtain ⟨_, _, _, _, hfound⟩ := Stream.ofSource_fields source mode
  have hfound : (ofSource source mode).stream.found = [] := hfound
  unfold Scanner.diagnostics
  rw [h.ok.steady.findings, h.found_eq, hfound, List.append_nil, leavesAll_singleton,
    List.reverse_append, List.reverse_flatMap, List.reverse_reverse, List.flatMap_append,
    List.flatMap_singleton]
  rfl

/-- The looks that were taken, up to the one at the end, cover the source. -/
private theorem exists_covers (h : Spans (ofSource source mode) [draft] p') :
    ∀ l ∈ draft.leaves ++ [p'.look], ∃ offset, l.Covers source offset := by
  obtain ⟨hconsumed, hsource, _⟩ := Stream.ofSource_fields source mode
  have hsource : (ofSource source mode).source = source := hsource
  have hconsumed : (ofSource source mode).stream.consumed = 0 := hconsumed
  have hpath := h.path
  rw [hsource, hconsumed, leavesAll_singleton] at hpath
  have hlast : p'.look.Covers p'.source p'.stream.consumed := h.ok.steady.covers
  rw [h.source_eq, hsource] at hlast
  intro l hl
  rcases List.mem_append.1 hl with hl | hl
  · exact hpath.exists_covers (Nat.zero_le _) l hl
  · obtain rfl := List.mem_singleton.1 hl
    exact ⟨_, hlast⟩

/-- Of the diagnostics that are shown, those of characters are those of the scanner. -/
theorem filter_allDiagnostics (h : Spans (ofSource source mode) [draft] p') :
    (p'.allDiagnostics.filter (·.isLexical)).Perm p'.stream.scanner.diagnostics := by
  have hscanner : p'.stream.scanner.diagnostics.filter (·.isLexical) =
      p'.stream.scanner.diagnostics := by
    rw [List.filter_eq_self, scanner_diagnostics h]
    intro d hd
    obtain ⟨l, hl, hd⟩ := List.mem_flatMap.1 hd
    obtain ⟨_, hcovers⟩ := exists_covers h l hl
    exact hcovers.isLexical_findings d (List.mem_reverse.1 hd)
  have hgrammar : p'.diagnostics.filter (·.isLexical) = [] := by
    rw [List.filter_eq_nil_iff]
    intro d hd
    rw [(h.ok.complains d (List.mem_reverse.1 hd)).isLexical]
    decide
  have hperm := (Diagnostic.collect_perm
    [p'.stream.scanner.diagnostics, p'.diagnostics]).filter (·.isLexical)
  have hflatten : [p'.stream.scanner.diagnostics, p'.diagnostics].flatten =
      p'.stream.scanner.diagnostics ++ p'.diagnostics := by simp
  rw [hflatten, List.filter_append, hscanner, hgrammar, List.append_nil] at hperm
  exact hperm

/-- The diagnostics of characters belong to the flawed tokens of the draft that was read and to the
flawed trivia, one to each. -/
theorem ranges_diagnostics {kind : Kind} {children : List Draft} {pieces : List Trivia}
    (h : Spans (ofSource source mode) [.node kind false children] p')
    (heof : p'.look.token.kind = .eof)
    (hpieces : pieces.Perm (piecesAll children ++
      ((leavesAll children).flatMap (·.trivia) ++ p'.look.trivia))) :
    ((p'.allDiagnostics.filter (·.isLexical)).map (·.range)).Perm
      ((pieces.filter (·.isFlawed source)).map (·.range)) := by
  have hdraft := @ranges_piecesAll source children h.proper.1.2.2
  have hlooks := Look.ranges_findings (exists_covers h)
  rw [← scanner_diagnostics h] at hlooks
  -- Among the pieces of all looks, the trivia can be brought behind the tokens.
  have hsplit : ((leavesAll children ++ [p'.look]).flatMap (·.pieces)).Perm
      ((leavesAll children).map (·.token.toTrivia) ++
        ((leavesAll children).flatMap (·.trivia) ++ p'.look.trivia) ++
          [p'.look.token.toTrivia]) := by
    have hleaves : ((leavesAll children).flatMap (·.pieces)).Perm
        ((leavesAll children).map (·.token.toTrivia) ++
          (leavesAll children).flatMap (·.trivia)) := by
      have := (List.flatMap_append_perm (leavesAll children) (·.trivia)
        fun l => [l.token.toTrivia]).symm
      rw [← List.map_eq_flatMap] at this
      exact this.trans List.perm_append_comm
    have hperm := hleaves.append_right p'.look.pieces
    rw [List.flatMap_append, List.flatMap_singleton]
    simpa only [Look.pieces, List.append_assoc] using hperm
  -- The end token is none of the pieces, but nothing is wrong with it.
  have hend : p'.look.token.toTrivia.isFlawed source = false := by
    refine Trivia.isFlawed_of_kind ?_
    show p'.look.token.kind.mayBeFlawed = false
    rw [heof]
    rfl
  refine ((filter_allDiagnostics h).map _).trans ?_
  rw [hlooks]
  refine ((hsplit.filter _).map _).trans ?_
  refine .trans (.of_eq ?_) ((hpieces.filter _).map _).symm
  simp [hdraft, hend]

/-- The tokens of the draft that was read and the trivia are cut out of the source. -/
theorem isCut_pieces {kind : Kind} {children : List Draft} {pieces : List Trivia}
    (h : Spans (ofSource source mode) [.node kind false children] p')
    (hpieces : pieces.Perm (piecesAll children ++
      ((leavesAll children).flatMap (·.trivia) ++ p'.look.trivia))) :
    ∀ piece ∈ pieces, piece.IsCut source := by
  obtain ⟨hconsumed, hsource, _⟩ := Stream.ofSource_fields source mode
  have hsource : (ofSource source mode).source = source := hsource
  have hconsumed : (ofSource source mode).stream.consumed = 0 := hconsumed
  have hpath := h.path
  rw [hsource, hconsumed, leavesAll_singleton] at hpath
  have htrivia : ∀ l ∈ leavesAll children ++ [p'.look], ∀ piece ∈ l.trivia,
      piece.IsCut source := by
    intro l hl piece hpiece
    obtain ⟨_, hcovers⟩ := exists_covers h l hl
    obtain ⟨-, token, hcut, rfl⟩ := hcovers.isTrivia piece hpiece
    exact ⟨l.mode, token, hcut, rfl, .inl rfl⟩
  intro piece hpiece
  rcases List.mem_append.1 (hpieces.mem_iff.1 hpiece) with hpiece | hpiece
  · exact isCut_piecesAll children h.proper.1.2.2 (hpath.isCut (Nat.zero_le _)) piece hpiece
  · rcases List.mem_append.1 hpiece with hpiece | hpiece
    · obtain ⟨l, hl, hpiece⟩ := List.mem_flatMap.1 hpiece
      exact htrivia l (List.mem_append_left _ hl) piece hpiece
    · exact htrivia p'.look (List.mem_append_right _ (List.mem_singleton_self _)) piece hpiece

end Parser

end TypstFormat
