import TypstFormat.Proofs.Token.Look

/-!
# Streams between two tokens

A stream that was made from a source and then only consumed tokens or changed its mode is `Steady`:
what it shows is the look behind the last token consumed, and what it has recorded is that look on
top of what lies in front of it. The trivia and the diagnostics in front are `settled` and `found`;
a change of the mode leaves them alone, and consuming a token adds the look to them.

## Key results

- `steady_ofSource`, `Steady.bump`, `Steady.relex`: the operations of a stream keep it steady
- `Bumped`, `Relexed`: what they do to the trivia and the diagnostics in front of the look
- `rewind_mark`: a mark leads back, if nothing that was there at the mark was given up since
-/

namespace TypstFormat

open Text (Range)

namespace Stream

/-- What lies behind the last token consumed. -/
def look (s : Stream) : Look :=
  TypstFormat.look s.source s.mode s.consumed

/-- The trivia in front of the last token consumed, the latest first. -/
def settled (s : Stream) : List Trivia :=
  s.recorded.dropWhile fun piece => s.consumed ≤ piece.range.start

/-- The diagnostics found in front of the last token consumed, the latest first. -/
def found (s : Stream) : List Diagnostic :=
  s.scanner.findings.filter fun d => d.range.start < s.consumed

/-- The stream shows and has recorded what lies behind the last token consumed. -/
structure Steady (s : Stream) : Prop where
  consumed_le : s.consumed ≤ s.source.length
  current : s.current = s.look.token
  position : s.scanner.position = s.look.token.range.stop
  recorded : s.recorded = s.look.trivia.reverse ++ s.settled
  findings : s.scanner.findings = s.look.findings ++ s.found
  afterTrivia : s.afterTrivia = !s.look.trivia.isEmpty
  afterLineBreak : s.afterLineBreak = s.look.trivia.any (·.containsNewline)
  settled_lt : ∀ piece ∈ s.settled, piece.range.start < s.consumed
  found_fits : ∀ d ∈ s.found, d.Fits s.source

namespace Steady

variable {s : Stream}

theorem covers (h : s.Steady) : s.look.Covers s.source s.consumed :=
  covers_look h.consumed_le s.mode

theorem kind_eq (h : s.Steady) : s.kind = s.look.token.kind := by
  unfold kind
  rw [h.current]

theorem position_eq (h : s.Steady) : s.position = s.look.token.range.start := by
  unfold Stream.position
  rw [h.current]

theorem consumed_le_position (h : s.Steady) : s.consumed ≤ s.position := by
  rw [h.position_eq]
  exact h.covers.le_start

theorem position_le (h : s.Steady) : s.position ≤ s.source.length := by
  rw [h.position_eq]
  exact Nat.le_trans s.look.token.range.start_le_stop h.covers.stop_le

/-- In markup no token is skipped. -/
theorem afterLineBreak_of_markup (h : s.Steady) (hm : s.mode = .markup) :
    s.afterLineBreak = false := by
  rw [h.afterLineBreak, h.covers.markup hm]
  rfl

/-- Only code has parentheses. -/
theorem mode_eq_code (h : s.Steady) (hkind : s.kind = .leftParen) : s.mode = .code := by
  rw [h.kind_eq] at hkind
  exact ((h.covers.isCut (by simp [hkind])).slice_char (by rw [hkind]; rfl)).1

theorem fits_findings (h : s.Steady) : ∀ d ∈ s.scanner.findings, d.Fits s.source := by
  intro d hd
  rw [h.findings] at hd
  rcases List.mem_append.1 hd with hd | hd
  · exact (h.covers.findings d hd).1
  · exact h.found_fits d hd

end Steady

/-! ## Fetching a token -/

/-- A scanner that stands behind the last token consumed fetches what lies there. -/
theorem fetch_eq {s : Stream} (h : s.scanner.position = s.consumed) :
    s.fetch =
      { scanner :=
          { s.scanner with
            position := s.look.token.range.stop
            findings := s.look.findings ++ s.scanner.findings }
        current := s.look.token
        consumed := s.consumed
        recorded := s.look.trivia.reverse ++ s.recorded
        afterTrivia := !s.look.trivia.isEmpty
        afterLineBreak := s.look.trivia.any (·.containsNewline) } := by
  have hsig := Scanner.significant_eq s.scanner
  rw [h] at hsig
  simp only [fetch, hsig]
  rfl

private theorem dropWhile_append_of_all {p : α → Bool} {l r : List α} (hl : ∀ a ∈ l, p a = true)
    (hr : ∀ a ∈ r, p a = false) : (l ++ r).dropWhile p = r := by
  rw [List.dropWhile_append_of_pos hl]
  cases r with
  | nil => rfl
  | cons a r => rw [List.dropWhile_cons_of_neg (by rw [hr a (List.mem_cons_self ..)]; simp)]

private theorem filter_append_of_all {p : α → Bool} {l r : List α} (hl : ∀ a ∈ l, p a = false)
    (hr : ∀ a ∈ r, p a = true) : (l ++ r).filter p = r := by
  rw [List.filter_append, List.filter_eq_nil_iff.2 (by simpa using hl),
    List.filter_eq_self.2 hr, List.nil_append]

/-- Fetching a token makes a stream steady, if all that was recorded lies in front of it. -/
private theorem steady_fetch {s : Stream} (hle : s.consumed ≤ s.source.length)
    (hpos : s.scanner.position = s.consumed)
    (hrecorded : ∀ piece ∈ s.recorded, piece.range.start < s.consumed)
    (hfindings : ∀ d ∈ s.scanner.findings, d.range.start < s.consumed ∧ d.Fits s.source) :
    s.fetch.Steady ∧ s.fetch.consumed = s.consumed ∧ s.fetch.source = s.source ∧
      s.fetch.mode = s.mode ∧ s.fetch.settled = s.recorded ∧
      s.fetch.found = s.scanner.findings := by
  have heq := fetch_eq hpos
  have hcovers : s.look.Covers s.source s.consumed := covers_look hle s.mode
  have hlook : s.fetch.look = s.look := by
    rw [heq]
    rfl
  -- What is fetched lies behind the last token consumed, and what was recorded in front of it.
  have hsettled : s.fetch.settled = s.recorded := by
    unfold settled
    rw [heq]
    refine dropWhile_append_of_all ?_ ?_
    · intro piece hpiece
      have := (hcovers.tile.range_le piece (List.mem_reverse.1 hpiece)).1
      simpa using this
    · intro piece hpiece
      have := hrecorded piece hpiece
      simpa using this
  have hfound : s.fetch.found = s.scanner.findings := by
    unfold found
    rw [heq]
    refine filter_append_of_all ?_ ?_
    · intro d hd
      have := (hcovers.findings d hd).2.1
      simpa using this
    · intro d hd
      have := (hfindings d hd).1
      simpa using this
  have hconsumed : s.fetch.consumed = s.consumed := by rw [heq]
  have hsource : s.fetch.source = s.source := by rw [heq]; rfl
  have hmode : s.fetch.mode = s.mode := by rw [heq]; rfl
  refine ⟨⟨?_, ?_, ?_, ?_, ?_, ?_, ?_, ?_, ?_⟩, hconsumed, hsource, hmode, hsettled, hfound⟩
  · rw [hconsumed, hsource]
    exact hle
  · rw [hlook, heq]
  · rw [hlook, heq]
  · rw [hlook, hsettled, heq]
  · rw [hlook, hfound, heq]
  · rw [hlook, heq]
  · rw [hlook, heq]
  · rw [hsettled, hconsumed]
    exact hrecorded
  · rw [hfound, hsource]
    exact fun d hd => (hfindings d hd).2

/-! ## The operations -/

theorem steady_ofSource (source : List Char) (mode : Mode) : (ofSource source mode).Steady :=
  (steady_fetch (s := { scanner := { source, mode }, current := Token.eof 0 })
    (Nat.zero_le _) rfl (by simp) (by simp)).1

theorem ofSource_fields (source : List Char) (mode : Mode) :
    (ofSource source mode).consumed = 0 ∧ (ofSource source mode).source = source ∧
      (ofSource source mode).mode = mode ∧ (ofSource source mode).settled = [] ∧
      (ofSource source mode).found = [] := by
  exact (steady_fetch (s := { scanner := { source, mode }, current := Token.eof 0 })
    (Nat.zero_le _) rfl (by simp) (by simp)).2

/-- The end of the text stays current. -/
theorem bump_of_eof {s : Stream} (h : s.kind = .eof) : s.bump = s := by
  unfold bump
  exact if_pos h

private theorem bump_eq_fetch {s : Stream} (h : s.kind ≠ .eof) :
    s.bump = ({ s with consumed := s.current.range.stop } : Stream).fetch := by
  unfold bump
  exact if_neg h

/-- What consuming the current token does to a steady stream. -/
structure Bumped (s s' : Stream) : Prop where
  steady : s'.Steady
  source : s'.source = s.source
  mode : s'.mode = s.mode
  consumed : s'.consumed = s.look.token.range.stop
  settled : s'.settled = s.look.trivia.reverse ++ s.settled
  found : s'.found = s.look.findings ++ s.found

theorem Steady.bump {s : Stream} (h : s.Steady) (hk : s.kind ≠ .eof) : Bumped s s.bump := by
  have hk' : s.look.token.kind ≠ .eof := by
    rw [← h.kind_eq]
    exact hk
  have hlt := h.covers.start_lt_stop hk'
  have hle := h.covers.le_start
  have hbump := bump_eq_fetch hk
  have hstop : s.current.range.stop = s.look.token.range.stop := by rw [h.current]
  have hinside : s.current.range.stop ≤ s.source.length := by
    rw [hstop]
    exact h.covers.stop_le
  have hposition : s.scanner.position = s.current.range.stop := by
    rw [hstop]
    exact h.position
  -- The look that was consumed ends with its token, so all of it now lies in front.
  have hrecorded : ∀ piece ∈ s.recorded, piece.range.start < s.current.range.stop := by
    intro piece hpiece
    rw [hstop]
    rw [h.recorded] at hpiece
    rcases List.mem_append.1 hpiece with hpiece | hpiece
    · obtain ⟨_, h₂, h₃⟩ := h.covers.tile.range_le piece (List.mem_reverse.1 hpiece)
      omega
    · have := h.settled_lt piece hpiece
      omega
  have hfindings : ∀ d ∈ s.scanner.findings,
      d.range.start < s.current.range.stop ∧ d.Fits s.source := by
    intro d hd
    refine ⟨?_, h.fits_findings d hd⟩
    rw [hstop]
    rw [h.findings] at hd
    rcases List.mem_append.1 hd with hd | hd
    · exact (h.covers.findings d hd).2.2
    · have := (List.mem_filter.1 hd).2
      simp only [decide_eq_true_eq] at this
      omega
  have hfetch := steady_fetch (s := { s with consumed := s.current.range.stop })
    hinside hposition hrecorded hfindings
  obtain ⟨h₁, h₂, h₃, h₄, h₅, h₆⟩ := hfetch
  rw [← hbump] at h₁ h₂ h₃ h₄ h₅ h₆
  exact ⟨h₁, h₃, h₄, h₂.trans hstop, h₅.trans h.recorded, h₆.trans h.findings⟩

/-! ## Looking ahead -/

theorem lookahead_add_one (s : Stream) (n : Nat) :
    s.lookahead (n + 1) =
      ⟨(ahead n s.scanner).2, !(ahead n s.scanner).1.isEmpty,
        (ahead n s.scanner).1.any (·.containsNewline)⟩ := rfl

/-- What lies ahead is what is current when the token in front of it is consumed. -/
theorem lookahead_one {s : Stream} (h : s.kind ≠ .eof) :
    s.lookahead 1 = ⟨s.bump.current, s.bump.afterTrivia, s.bump.afterLineBreak⟩ := by
  rw [bump_eq_fetch h]
  rfl

/-- What lies further ahead is found again from the next token. -/
theorem lookahead_succ {s : Stream} (h : s.kind ≠ .eof) (hnext : s.bump.kind ≠ .eof) (n : Nat) :
    s.lookahead (n + 2) = s.bump.lookahead (n + 1) := by
  rw [bump_eq_fetch h] at hnext ⊢
  have hahead : ahead (n + 1) s.scanner = ahead n s.scanner.significant.2.2 := if_neg hnext
  rw [lookahead_add_one, hahead]
  rfl

/-- Nothing lies behind the end of the text. -/
theorem lookahead_of_eof {s : Stream} (h : s.kind ≠ .eof) (hend : s.bump.kind = .eof) (n : Nat) :
    s.lookahead (n + 1) = s.lookahead 1 := by
  rw [bump_eq_fetch h] at hend
  cases n with
  | zero => rfl
  | succ n =>
    have hahead : ahead (n + 1) s.scanner = ahead 0 s.scanner := if_pos hend
    rw [lookahead_add_one, hahead]
    rfl

/-- The next token is the one that is current when this one is consumed. -/
theorem nth_one {s : Stream} (h : s.kind ≠ .eof) : s.nth 1 = s.bump.kind :=
  congrArg (·.token.kind) (lookahead_one h)

/-- A token further ahead is found again from the next one. -/
theorem nth_succ {s : Stream} (h : s.kind ≠ .eof) (hnext : s.bump.kind ≠ .eof) (n : Nat) :
    s.nth (n + 2) = s.bump.nth (n + 1) :=
  congrArg (·.token.kind) (lookahead_succ h hnext n)

/-- What a change of the mode does to a steady stream. -/
structure Relexed (s : Stream) (mode : Mode) (s' : Stream) : Prop where
  steady : s'.Steady
  source : s'.source = s.source
  mode : s'.mode = mode
  consumed : s'.consumed = s.consumed
  settled : s'.settled = s.settled
  found : s'.found = s.found

theorem Steady.relex {s : Stream} (h : s.Steady) (mode : Mode) :
    Relexed s mode (s.relex mode) := by
  -- The jump gives up the look that was taken in the old mode, and nothing in front of it.
  have hfindings : ∀ d ∈ s.found, d.range.start < s.consumed ∧ d.Fits s.source := by
    intro d hd
    refine ⟨?_, h.found_fits d hd⟩
    simpa using (List.mem_filter.1 hd).2
  have hfetch := steady_fetch
    (s := { s with
      scanner := { s.scanner.jump s.consumed with mode }
      recorded := s.settled })
    h.consumed_le rfl h.settled_lt hfindings
  obtain ⟨h₁, h₂, h₃, h₄, h₅, h₆⟩ := hfetch
  exact ⟨h₁, h₃, h₄, h₂, h₅, h₆⟩

/-- The look is known from the source, the mode and how much was consumed. -/
theorem look_congr {s s' : Stream} (hsource : s'.source = s.source) (hmode : s'.mode = s.mode)
    (hconsumed : s'.consumed = s.consumed) : s'.look = s.look := by
  unfold look
  rw [hsource, hmode, hconsumed]

/-- What was recorded at a mark is what is left when all that came later is dropped. -/
private theorem drop_of_suffix {l r : List α} (h : l <:+ r) : r.drop (r.length - l.length) = l :=
  (List.suffix_iff_eq_drop.1 h).symm

/-- A mark of a scanner leads back, if all that was found at the mark is still there. -/
theorem scanner_rewind_mark {s s' : Scanner} (hsource : s'.source = s.source)
    (hfindings : s.findings <:+ s'.findings) : s'.rewind s.mark = s := by
  unfold Scanner.rewind Scanner.mark
  rw [drop_of_suffix hfindings, hsource]

/-- A mark leads back, if all that was recorded at the mark still is. -/
theorem rewind_mark {s s' : Stream} (hsource : s'.source = s.source)
    (hrecorded : s.recorded <:+ s'.recorded)
    (hfindings : s.scanner.findings <:+ s'.scanner.findings) : s'.rewind s.mark = s := by
  have hscanner : s'.scanner.rewind s.scanner.mark = s.scanner :=
    scanner_rewind_mark hsource hfindings
  unfold rewind mark
  rw [hscanner, drop_of_suffix hrecorded]

end Stream

end TypstFormat
