import TypstFormat.Proofs.Token.Lookahead

/-!
# Moves of a stream

A parser moves through its stream by consuming tokens and by changing the mode, which scans the
current token again, and it may look ahead in between. Whatever it does, nothing of the source is
passed over and nothing is read twice: the tokens consumed and the trivia recorded lie side by side
up to the current token. A change of the mode gives up the trivia in front of the current token and
no other, and what it records instead fills the same gap.

## Key results

- `Reads.move`: what one move does to what has been read
- `tiled_run`: what has been read after any moves
-/

namespace TypstFormat

/-- What a stream is asked to do on the way through its source. -/
inductive Move where
  /-- Consume the current token. -/
  | bump
  /-- Change the mode, and scan the current token again. -/
  | relex (mode : Mode)
  /-- Look at the token that lies so many tokens behind the current one. -/
  | lookahead (n : Nat)
  deriving DecidableEq, Repr

namespace Stream

def move (s : Stream) : Move → Stream
  | .bump => s.bump
  | .relex mode => s.relex mode
  | .lookahead n => (s.peek n).2

/-- Makes all moves, the first one first. -/
def run (s : Stream) (moves : List Move) : Stream :=
  moves.foldl move s

/-- The token that a move consumes, if it consumes one. -/
def taken (s : Stream) : Move → List Token
  | .bump => if s.kind = .eof then [] else [s.current]
  | _ => []

/-- The tokens that moves consume, in the order of the source. -/
def takenBy (s : Stream) : List Move → List Token
  | [] => []
  | move :: moves => s.taken move ++ (s.move move).takenBy moves

/-- The trivia behind the last token consumed. -/
def gap (s : Stream) : List Trivia :=
  s.trivia.filter fun piece => s.consumed ≤ piece.range.start

/-- Looking ahead is no move at all. -/
theorem move_lookahead (s : Stream) (n : Nat) : s.move (.lookahead n) = s := by
  show (s.peek n).2 = s
  rw [peek_eq]

/-- A steady stream stays steady, whatever move is made. -/
theorem Steady.move {s : Stream} (h : s.Steady) (move : Move) : (s.move move).Steady := by
  cases move with
  | bump =>
    show s.bump.Steady
    by_cases hkind : s.kind = .eof
    · rw [bump_of_eof hkind]
      exact h
    · exact (h.bump hkind).steady
  | relex mode => exact (h.relex mode).steady
  | lookahead n =>
    rw [move_lookahead]
    exact h

end Stream

/-! ## Tokens and trivia side by side -/

/-- Tokens and trivia lie side by side from one offset up to another one, both in the order in which
they are listed. None of them is empty. -/
def Interleaved (start : Nat) (tokens : List Token) (trivia : List Trivia) (stop : Nat) : Prop :=
  ∃ pieces : List (Token ⊕ Trivia),
    pieces.filterMap Sum.getLeft? = tokens ∧ pieces.filterMap Sum.getRight? = trivia ∧
      Trivia.Tile start (pieces.map (Sum.elim Token.toTrivia id)) stop

namespace Interleaved

theorem nil (offset : Nat) : Interleaved offset [] [] offset :=
  ⟨[], rfl, rfl, rfl⟩

theorem of_token {token : Token} (h : token.range.start < token.range.stop) :
    Interleaved token.range.start [token] [] token.range.stop :=
  ⟨[.inl token], rfl, rfl, rfl, h, rfl⟩

theorem of_trivia {start stop : Nat} {trivia : List Trivia} (h : Trivia.Tile start trivia stop) :
    Interleaved start [] trivia stop := by
  refine ⟨trivia.map .inr, ?_, ?_, ?_⟩
  · simp [List.filterMap_map, Function.comp_def]
  · simp [List.filterMap_map, Function.comp_def]
  · simpa [List.map_map, Function.comp_def] using h

theorem append {start middle stop : Nat} {tokens more : List Token} {trivia rest : List Trivia}
    (h₁ : Interleaved start tokens trivia middle) (h₂ : Interleaved middle more rest stop) :
    Interleaved start (tokens ++ more) (trivia ++ rest) stop := by
  obtain ⟨pieces, rfl, rfl, htile⟩ := h₁
  obtain ⟨pieces', rfl, rfl, htile'⟩ := h₂
  refine ⟨pieces ++ pieces', List.filterMap_append, List.filterMap_append, ?_⟩
  rw [List.map_append]
  exact htile.append htile'

end Interleaved

namespace Stream

/-! ## What has been read -/

/-- The trivia of a steady stream is what it has settled, and what lies in front of the current
token. -/
theorem Steady.trivia_eq {s : Stream} (h : s.Steady) :
    s.trivia = s.settled.reverse ++ s.look.trivia := by
  unfold trivia
  rw [h.recorded, List.reverse_append, List.reverse_reverse]

theorem Steady.gap_eq {s : Stream} (h : s.Steady) : s.gap = s.look.trivia := by
  unfold gap
  rw [h.trivia_eq, List.filter_append]
  have hfront : s.settled.reverse.filter (fun piece => s.consumed ≤ piece.range.start) = [] := by
    rw [List.filter_eq_nil_iff]
    intro piece hpiece
    have := h.settled_lt piece (List.mem_reverse.1 hpiece)
    simpa using this
  have hbehind : s.look.trivia.filter (fun piece => s.consumed ≤ piece.range.start) =
      s.look.trivia := by
    rw [List.filter_eq_self]
    intro piece hpiece
    simpa using (h.covers.tile.range_le piece hpiece).1
  rw [hfront, hbehind, List.nil_append]

/-- A stream has consumed tokens of a source, and they lie side by side with the trivia in front of
the last one of them. -/
structure Reads (source : List Char) (s : Stream) (tokens : List Token) : Prop where
  steady : s.Steady
  source_eq : s.source = source
  consumed_eq : s.consumed = (tokens.getLast?.map (·.range.stop)).getD 0
  settled : Interleaved 0 tokens s.settled.reverse s.consumed

namespace Reads

variable {source : List Char} {s : Stream} {tokens : List Token}

theorem ofSource (source : List Char) (mode : Mode) : Reads source (ofSource source mode) [] := by
  obtain ⟨hconsumed, hsource, _, hsettled, _⟩ := ofSource_fields source mode
  refine ⟨steady_ofSource source mode, hsource, hconsumed, ?_⟩
  rw [hsettled, hconsumed]
  exact .nil 0

/-- The token that is consumed lies behind the gap in front of it. -/
theorem bump (h : Reads source s tokens) (hkind : s.kind ≠ .eof) :
    Reads source s.bump (tokens ++ [s.current]) := by
  obtain ⟨hsteady, hsource, _, hconsumed, hsettled, _⟩ := h.steady.bump hkind
  have hcurrent := h.steady.current
  have hgap : Interleaved s.consumed [] s.look.trivia s.look.token.range.start :=
    .of_trivia h.steady.covers.tile
  have htoken : Interleaved s.look.token.range.start [s.look.token] [] s.look.token.range.stop := by
    rw [h.steady.kind_eq] at hkind
    exact .of_token (h.steady.covers.start_lt_stop hkind)
  refine ⟨hsteady, hsource.trans h.source_eq, ?_, ?_⟩
  · rw [hconsumed, hcurrent]
    simp
  · have hall := (h.settled.append hgap).append htoken
    rw [hconsumed, hsettled, hcurrent]
    simpa using hall

/-- One move consumes what it takes, and settles the trivia in front of that. -/
theorem move (h : Reads source s tokens) (move : Move) :
    Reads source (s.move move) (tokens ++ s.taken move) := by
  cases move with
  | bump =>
    show Reads source s.bump (tokens ++ if s.kind = .eof then [] else [s.current])
    by_cases hkind : s.kind = .eof
    · rw [bump_of_eof hkind, if_pos hkind, List.append_nil]
      exact h
    · rw [if_neg hkind]
      exact h.bump hkind
  | relex mode =>
    -- The look behind the last token is taken anew, and nothing changes in front of it.
    obtain ⟨hsteady, hsource, _, hconsumed, hsettled, _⟩ := h.steady.relex mode
    show Reads source (s.relex mode) (tokens ++ [])
    rw [List.append_nil]
    refine ⟨hsteady, hsource.trans h.source_eq, hconsumed.trans h.consumed_eq, ?_⟩
    rw [hsettled, hconsumed]
    exact h.settled
  | lookahead n =>
    show Reads source (s.move (.lookahead n)) (tokens ++ [])
    rw [move_lookahead, List.append_nil]
    exact h

/-- Moves consume what they take, one after the other. -/
theorem run (h : Reads source s tokens) (moves : List Move) :
    Reads source (s.run moves) (tokens ++ s.takenBy moves) := by
  induction moves generalizing s tokens with
  | nil =>
    show Reads source s (tokens ++ [])
    rw [List.append_nil]
    exact h
  | cons move moves ih =>
    show Reads source ((s.move move).run moves)
      (tokens ++ (s.taken move ++ (s.move move).takenBy moves))
    rw [← List.append_assoc]
    exact ih (h.move move)

end Reads

/-! ## What a stream tells -/

/-- Where a stream stands, told by the tokens that were consumed and the trivia it has recorded. -/
structure Tiled (source : List Char) (s : Stream) (tokens : List Token) : Prop where
  /-- They cover the source up to the current token. -/
  interleaved : Interleaved 0 tokens s.trivia s.position
  consumed_eq : s.consumed = (tokens.getLast?.map (·.range.stop)).getD 0
  /-- The trivia behind the last token covers the source from that token up to the current one. -/
  gap : Trivia.Tile s.consumed s.gap s.position
  afterTrivia : s.afterTrivia = true ↔ s.gap ≠ []
  afterLineBreak : s.afterLineBreak = true ↔ ∃ piece ∈ s.gap, piece.containsNewline = true
  /-- A line ends in white space only; a comment may run over several lines. -/
  containsNewline : ∀ piece ∈ s.gap, piece.containsNewline = true ↔
    piece.kind.isSpace = true ∧ ∃ c ∈ piece.range.slice source, Text.isLineBreak c = true

theorem Reads.tiled {source : List Char} {s : Stream} {tokens : List Token}
    (h : Reads source s tokens) : Tiled source s tokens := by
  have hgap := h.steady.gap_eq
  have htile := h.steady.covers.tile
  rw [← h.steady.position_eq] at htile
  refine ⟨?_, h.consumed_eq, ?_, ?_, ?_, ?_⟩
  · rw [h.steady.trivia_eq]
    have hall := h.settled.append (.of_trivia htile)
    rwa [List.append_nil] at hall
  · rw [hgap]
    exact htile
  · rw [hgap, h.steady.afterTrivia]
    simp
  · rw [hgap, h.steady.afterLineBreak]
    simp
  · rw [hgap]
    intro piece hpiece
    obtain ⟨_, token, hcut, rfl⟩ := h.steady.covers.isTrivia piece hpiece
    rw [h.source_eq] at hcut
    show token.containsNewline = true ↔ token.kind.isSpace = true ∧
      ∃ c ∈ token.range.slice source, Text.isLineBreak c = true
    constructor
    · intro hbreak
      have hspace := hcut.isSpace_of_containsNewline hbreak
      rw [hcut.containsNewline_eq hspace, List.any_eq_true] at hbreak
      exact ⟨hspace, hbreak⟩
    · rintro ⟨hspace, hbreak⟩
      rw [hcut.containsNewline_eq hspace, List.any_eq_true]
      exact hbreak

/-- Whatever a stream is asked to do, the tokens that were consumed and the trivia that is recorded
cover the source up to the current token, side by side and in order. The last token ends where
`consumed` says, the trivia behind it reaches from there up to the current token, and the stream
tells whether there is any and whether a line ends in it. -/
theorem tiled_run (source : List Char) (mode : Mode) (moves : List Move) :
    Tiled source ((ofSource source mode).run moves) ((ofSource source mode).takenBy moves) :=
  ((Reads.ofSource source mode).run moves).tiled

/-- Behind the first token stands a comment that runs over two lines. The stream does not tell of a
line break there, since none is in white space. -/
theorem afterLineBreak_comment_over_lines :
    let s := (ofSource ['a', '/', '*', '\n', '*', '/', 'b'] .code).run [.bump]
    (∃ piece ∈ s.gap, ∃ c ∈ piece.range.slice s.source, Text.isLineBreak c = true) ∧
      s.afterLineBreak = false := by
  intro s
  have hgap : s.gap = [⟨.blockComment, .ofLength 1 5, false⟩] := rfl
  rw [hgap]
  exact ⟨⟨_, List.mem_cons_self, '\n', by decide, by decide⟩, rfl⟩

end Stream

end TypstFormat
