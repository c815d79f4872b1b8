import TypstFormat.Proofs.Grammar.Findings
import TypstFormat.Proofs.Tree.Planting

/-!
# White space stands apart

White space is taken as far as it reaches in its mode, but white space of markup may end in front
of what would be white space in code. So two pieces of white space could meet where the mode
changes. It changes only behind a token that counts: behind white space that is read as a token,
markup goes on (`Look.Keeps`).

## Key results

- `Ahead.apart`: among the looks that are taken, no two pieces of white space meet
- `Parser.isChain_pieces`: nor do any in the tree of a source without diagnostics
-/

namespace TypstFormat

open Draft

/-- Not both of two pieces are white space. -/
def Trivia.Apart (piece next : Trivia) : Prop :=
  ¬(piece.kind.isSpace = true ∧ next.kind.isSpace = true)

/-- Not both of two tokens are white space. -/
def Tree.Apart (token next : Kind × List Char) : Prop :=
  ¬(token.1.isSpace = true ∧ next.1.isSpace = true)

namespace Look.Covers

variable {source : List Char} {offset : Nat} {l : Look} {piece next : Trivia}

/-- White space of a look is cut out in its mode, behind the offset. -/
theorem exists_isCut (h : l.Covers source offset) (hpiece : piece ∈ l.pieces)
    (hspace : piece.kind.isSpace = true) :
    offset ≤ piece.range.start ∧ piece.range.start < piece.range.stop ∧
      ∃ token : Token, token.IsCut source l.mode ∧ piece = token.toTrivia := by
  rcases List.mem_append.1 hpiece with hpiece | hpiece
  · obtain ⟨-, token, hcut, heq⟩ := h.isTrivia piece hpiece
    have hrange := h.tile.range_le piece hpiece
    exact ⟨hrange.1, hrange.2.1, token, hcut, heq⟩
  · obtain rfl := List.mem_singleton.1 hpiece
    have hcut := h.isCut fun heof => by
      have hspace : l.token.kind.isSpace = true := hspace
      rw [heof] at hspace
      cases hspace
    exact ⟨h.le_start, hcut.range_lt.1, l.token, hcut, rfl⟩

/-- Nothing in a look stands behind its token. -/
theorem stop_le_of_mem (h : l.Covers source offset) (hpiece : piece ∈ l.pieces) :
    piece.range.stop ≤ l.token.range.stop := by
  rcases List.mem_append.1 hpiece with hpiece | hpiece
  · have hrange := h.tile.range_le piece hpiece
    exact Nat.le_trans hrange.2.2 l.token.range.start_le_stop
  · obtain rfl := List.mem_singleton.1 hpiece
    exact Nat.le_refl _

end Look.Covers

/-- White space of one mode does not meet. -/
theorem Token.IsCut.ne_stop {source : List Char} {mode : Mode} {token next : Token}
    (h : token.IsCut source mode) (hnext : next.IsCut source mode)
    (hspace : token.kind.isSpace = true) (hspace' : next.kind.isSpace = true) :
    next.range.start ≠ token.range.stop :=
  fun hstart => (h.meets hnext hstart).2 ⟨hspace, hspace'⟩

namespace Ahead

variable {source : List Char} {start : Nat} {last : Look} {ls : List Look}

/-- White space ahead stands behind the start, and if it stands right there, the next look is its
own. -/
theorem le_of_mem (h : Ahead source start ls last) {l : Look} (hl : l ∈ ls ++ [last])
    {piece : Trivia} (hpiece : piece ∈ l.pieces) (hspace : piece.kind.isSpace = true) :
    start ≤ piece.range.start ∧ (piece.range.start = start → l = next ls last) := by
  induction ls generalizing start with
  | nil =>
    obtain rfl := List.mem_singleton.1 hl
    exact ⟨(h.covers.exists_isCut hpiece hspace).1, fun _ => rfl⟩
  | cons first ls ih =>
    obtain ⟨heof, htail⟩ := h.tail
    have hcovers : first.Covers source start := h.covers
    rcases List.mem_cons.1 hl with rfl | hl
    · exact ⟨(hcovers.exists_isCut hpiece hspace).1, fun _ => rfl⟩
    · obtain ⟨hle, -⟩ := ih htail hl
      have h₁ := hcovers.le_start
      have h₂ := hcovers.start_lt_stop heof
      exact ⟨by omega, fun hstart => by omega⟩

/-- Where markup goes on behind white space, no two pieces of white space meet. -/
theorem apart (h : Ahead source start ls last) {white : Bool}
    (hkeeps : Look.Keeps white (ls ++ [last])) {l l' : Look} (hl : l ∈ ls ++ [last])
    (hl' : l' ∈ ls ++ [last]) {piece piece' : Trivia} (hpiece : piece ∈ l.pieces)
    (hpiece' : piece' ∈ l'.pieces) (hspace : piece.kind.isSpace = true)
    (hspace' : piece'.kind.isSpace = true) : piece'.range.start ≠ piece.range.stop := by
  induction ls generalizing start white with
  | nil =>
    obtain rfl := List.mem_singleton.1 hl
    obtain rfl := List.mem_singleton.1 hl'
    obtain ⟨-, -, token, hcut, rfl⟩ := h.covers.exists_isCut hpiece hspace
    obtain ⟨-, -, token', hcut', rfl⟩ := h.covers.exists_isCut hpiece' hspace'
    exact hcut.ne_stop hcut' hspace hspace'
  | cons first ls ih =>
    obtain ⟨heof, htail⟩ := h.tail
    have hcovers : first.Covers source start := h.covers
    rcases List.mem_cons.1 hl with rfl | hrest <;> rcases List.mem_cons.1 hl' with rfl | hrest'
    · obtain ⟨-, -, token, hcut, rfl⟩ := hcovers.exists_isCut hpiece hspace
      obtain ⟨-, -, token', hcut', rfl⟩ := hcovers.exists_isCut hpiece' hspace'
      exact hcut.ne_stop hcut' hspace hspace'
    · obtain ⟨hle, hnext⟩ := htail.le_of_mem hrest' hpiece' hspace'
      intro hmeet
      rcases List.mem_append.1 hpiece with htrivia | htoken
      · -- Behind trivia comes the token of the look.
        have hrange := hcovers.tile.range_le piece htrivia
        have hlt := hcovers.start_lt_stop heof
        omega
      · -- The look behind the token is one of markup as well.
        obtain rfl := List.mem_singleton.1 htoken
        have hmarkup : l.mode = .markup := by
          by_contra hmode
          have hplain := hcovers.significant hmode
          have htrivia : l.token.kind.isTrivia = true := Kind.isTrivia_of_isSpace hspace
          rw [htrivia] at hplain
          cases hplain
        obtain rfl := hnext hmeet
        have hmarkup' : (next ls last).mode = .markup := by
          cases ls with
          | nil => exact hkeeps.2.1 hspace
          | cons => exact hkeeps.2.1 hspace
        have hcut := hcovers.isCut heof
        obtain ⟨-, -, token', hcut', rfl⟩ := htail.covers.exists_isCut hpiece' hspace'
        rw [hmarkup] at hcut
        rw [hmarkup'] at hcut'
        exact hcut.ne_stop hcut' hspace hspace' hmeet
    · -- What comes later does not come in front.
      obtain ⟨hle, -⟩ := htail.le_of_mem hrest hpiece hspace
      have hstop := hcovers.stop_le_of_mem hpiece'
      have h₁ := piece.range.start_le_stop
      have h₂ := (hcovers.exists_isCut hpiece' hspace').2.1
      omega
    · exact ih htail hkeeps.2 hrest hrest'

end Ahead

namespace Draft

mutual

theorem exists_leaf_of_isSpace {piece : Trivia} (hspace : piece.kind.isSpace = true) :
    (draft : Draft) → piece ∈ draft.pieces → ∃ l ∈ draft.leaves, piece = l.token.toTrivia
  | .token look true, h => by
    obtain rfl := List.mem_singleton.1 h
    cases hspace
  | .token look false, h => ⟨look, List.mem_singleton_self _, List.mem_singleton.1 h⟩
  | .void, h => nomatch h
  | .node _ _ children, h => exists_leaf_of_isSpace_all hspace children h

/-- White space of drafts is that of a look. -/
theorem exists_leaf_of_isSpace_all {piece : Trivia} (hspace : piece.kind.isSpace = true) :
    (drafts : List Draft) → piece ∈ piecesAll drafts →
      ∃ l ∈ leavesAll drafts, piece = l.token.toTrivia
  | [], h => nomatch h
  | draft :: drafts, h => by
    rcases List.mem_append.1 h with h | h
    · obtain ⟨l, hl, heq⟩ := exists_leaf_of_isSpace hspace draft h
      exact ⟨l, List.mem_append_left _ hl, heq⟩
    · obtain ⟨l, hl, heq⟩ := exists_leaf_of_isSpace_all hspace drafts h
      exact ⟨l, List.mem_append_right _ hl, heq⟩

end

end Draft

/-- Pieces that lie side by side are a chain if each goes with the one behind it. -/
theorem Trivia.Tile.isChain_of {start stop : Nat} {pieces : List Trivia}
    {R : Trivia → Trivia → Prop} (h : Trivia.Tile start pieces stop)
    (hR : ∀ piece ∈ pieces, ∀ next ∈ pieces, next.range.start = piece.range.stop → R piece next) :
    pieces.IsChain R := by
  induction pieces generalizing start with
  | nil => exact .nil
  | cons piece pieces ih =>
    obtain ⟨-, -, hrest⟩ := h
    refine List.isChain_cons.2 ⟨?_, ih hrest fun first hfirst next hnext =>
      hR first (List.mem_cons_of_mem _ hfirst) next (List.mem_cons_of_mem _ hnext)⟩
    cases pieces with
    | nil => simp
    | cons next pieces =>
      rintro _ ⟨⟩
      exact hR piece List.mem_cons_self next (by simp) hrest.1

/-- In a source that was read without complaint, no two pieces of white space meet. -/
theorem Parser.isChain_pieces {source : List Char} {mode : Mode} {kind : Kind}
    {children : List Draft} {p' : Parser} {pieces : List Trivia} {stop : Nat}
    (h : Spans (ofSource source mode) [.node kind false children] p')
    (heof : p'.look.token.kind = .eof) (hclean : p'.findings = [])
    (hpieces : pieces.Perm (piecesAll children ++
      ((leavesAll children).flatMap (·.trivia) ++ p'.look.trivia)))
    (htile : Trivia.Tile 0 pieces stop) :
    pieces.IsChain Trivia.Apart := by
  obtain ⟨hconsumed, hsource, hmode, _⟩ := Stream.ofSource_fields source mode
  have hsource : (ofSource source mode).source = source := hsource
  have hconsumed : (ofSource source mode).stream.consumed = 0 := hconsumed
  have hleaves : leavesAll [Draft.node kind false children] = leavesAll children :=
    leavesAll_singleton _
  have hmode : (ofSource source mode).stream.mode = mode := hmode
  have htidy := h.tidy hclean
  have hpath := h.path
  rw [hsource, hconsumed, hleaves] at hpath
  have hlast : p'.look = TypstFormat.look source p'.look.mode p'.stream.consumed := by
    rw [← hsource, ← h.source_eq]
    rfl
  have hahead : Ahead source 0 (leavesAll children) p'.look :=
    ⟨Nat.zero_le _, ⟨_, hpath, hlast⟩, heof⟩
  -- At the end of the source stands what is found there in the mode of the source.
  have hkeeps : Look.Keeps (mode = .markup) (leavesAll children ++ [p'.look]) := by
    have hkeeps := htidy.keeps
    have hends := eq_markup_of_getLast? htidy.ends
    rw [hleaves, hmode] at hkeeps
    rw [hleaves, hmode] at hends
    have hlast : Look.Keeps (mode = .markup) [p'.look] := by
      refine ⟨fun hwhite => ?_, trivial⟩
      have hlook : p'.look.mode = mode := h.mode_eq.trans hmode
      exact hlook.trans (of_decide_eq_true hwhite)
    exact hkeeps.append hlast (fun _ => id) fun l hl hspace => decide_eq_true (hends l hl hspace)
  have hmem : ∀ piece ∈ pieces, piece.kind.isSpace = true →
      ∃ l ∈ leavesAll children ++ [p'.look], piece ∈ l.pieces := by
    intro piece hpiece hspace
    rcases List.mem_append.1 (hpieces.mem_iff.1 hpiece) with hpiece | hpiece
    · obtain ⟨l, hl, rfl⟩ := exists_leaf_of_isSpace_all hspace children hpiece
      exact ⟨l, List.mem_append_left _ hl, List.mem_append_right _ (List.mem_singleton_self _)⟩
    · rcases List.mem_append.1 hpiece with hpiece | hpiece
      · obtain ⟨l, hl, hpiece⟩ := List.mem_flatMap.1 hpiece
        exact ⟨l, List.mem_append_left _ hl, List.mem_append_left _ hpiece⟩
      · exact ⟨p'.look, by simp, List.mem_append_left _ hpiece⟩
  refine htile.isChain_of fun piece hpiece next hnext hstart ⟨hspace, hspace'⟩ => ?_
  obtain ⟨l, hl, hpiece⟩ := hmem piece hpiece hspace
  obtain ⟨l', hl', hnext⟩ := hmem next hnext hspace'
  exact hahead.apart hkeeps hl hl' hpiece hnext hspace hspace' hstart

end TypstFormat
