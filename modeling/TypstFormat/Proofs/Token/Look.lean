import TypstFormat.Proofs.Token.Lexeme
import TypstFormat.Token.Stream

/-!
# What lies ahead

What a scanner finds behind an offset depends on the source, the mode and the offset alone. A `Look`
is what it finds up to the next significant token: the trivia in front of that token, the token, and
the diagnostics of all of them. `look` computes it, and `Look.Covers` says that its pieces lie side
by side behind the offset.

## Key results

- `Scanner.significant_eq`: a scanner finds what `look` says, whatever it has found before
- `Token.IsCut.isBlank`, `Token.IsCut.slice_char`: the texts of white space, and of commas and
  parentheses
- `covers_look`: trivia and token cover the source from the offset up to the end of the token
- `Look.Path.le`: looks that are taken one behind the other lead through the source
-/

namespace TypstFormat

open Text (Range)

/-- What a scanner finds behind an offset, up to the next significant token. -/
structure Look where
  mode : Mode
  trivia : List Trivia
  token : Token
  /-- The diagnostics of the trivia and the token, the latest first. -/
  findings : List Diagnostic
  deriving Repr

/-- What is found in a source behind an offset. -/
def look (source : List Char) (mode : Mode) (offset : Nat) : Look :=
  let (trivia, token, s) := ({ source, mode, position := offset } : Scanner).significant
  { mode, trivia, token, findings := s.findings }

/-- The token is one that stands in a source, cut out of it in a mode. -/
def Token.IsCut (source : List Char) (mode : Mode) (token : Token) : Prop :=
  token.kind ≠ .eof ∧
    token = (({ source, mode, position := token.range.start } : Scanner).next).1

/-- The diagnostics of the token that stands at an offset of a source. -/
def flawsAt (source : List Char) (mode : Mode) (offset : Nat) : List Diagnostic :=
  (({ source, mode, position := offset } : Scanner).next).2.findings

namespace Trivia

/-- The pieces lie side by side from one offset up to another one, and none of them is empty. -/
def Tile : Nat → List Trivia → Nat → Prop
  | start, [], stop => start = stop
  | start, piece :: rest, stop =>
    piece.range.start = start ∧ start < piece.range.stop ∧ Tile piece.range.stop rest stop

theorem Tile.le {start stop : Nat} {pieces : List Trivia} (h : Tile start pieces stop) :
    start ≤ stop := by
  induction pieces generalizing start with
  | nil => exact Nat.le_of_eq h
  | cons piece rest ih =>
    obtain ⟨_, hlt, hrest⟩ := h
    exact Nat.le_trans (Nat.le_of_lt hlt) (ih hrest)

/-- There is nothing between an offset and itself. -/
theorem Tile.eq_nil {start stop : Nat} {pieces : List Trivia} (h : Tile start pieces stop)
    (hsame : start = stop) : pieces = [] := by
  cases pieces with
  | nil => rfl
  | cons piece rest =>
    obtain ⟨_, hlt, hrest⟩ := h
    have hle := hrest.le
    omega

theorem Tile.append {start middle stop : Nat} {pieces more : List Trivia}
    (h₁ : Tile start pieces middle) (h₂ : Tile middle more stop) :
    Tile start (pieces ++ more) stop := by
  induction pieces generalizing start with
  | nil =>
    obtain rfl : start = middle := h₁
    exact h₂
  | cons piece rest ih =>
    obtain ⟨hstart, hlt, hrest⟩ := h₁
    exact ⟨hstart, hlt, ih hrest⟩

/-- Pieces that go on behind others. -/
theorem Tile.of_append {start middle stop : Nat} {pieces more : List Trivia}
    (h : Tile start (pieces ++ more) stop) (hpieces : Tile start pieces middle) :
    Tile middle more stop := by
  induction pieces generalizing start with
  | nil =>
    obtain rfl : start = middle := hpieces
    exact h
  | cons piece rest ih => exact ih h.2.2 hpieces.2.2

theorem Tile.range_le {start stop : Nat} {pieces : List Trivia} (h : Tile start pieces stop) :
    ∀ piece ∈ pieces, start ≤ piece.range.start ∧ piece.range.start < piece.range.stop ∧
      piece.range.stop ≤ stop := by
  induction pieces generalizing start with
  | nil => simp
  | cons piece rest ih =>
    obtain ⟨hstart, hlt, hrest⟩ := h
    intro other hother
    rcases List.mem_cons.1 hother with rfl | hother
    · exact ⟨Nat.le_of_eq hstart.symm, by omega, hrest.le⟩
    · have := ih hrest other hother
      exact ⟨by omega, this.2⟩

end Trivia

/-- A diagnostic of the scanner or the grammar lies in the source and is an error. -/
structure Diagnostic.Fits (source : List Char) (d : Diagnostic) : Prop where
  stop_le : d.range.stop ≤ source.length
  severity : d.severity = .error

theorem Issue.fits_report {source : List Char} {range : Range} (h : range.stop ≤ source.length)
    (issue : Issue) (message : Option String) : (issue.report range message).Fits source :=
  ⟨h, rfl⟩

/-- The pieces of a look lie side by side behind an offset of a source. -/
structure Look.Covers (source : List Char) (offset : Nat) (l : Look) : Prop where
  tile : Trivia.Tile offset l.trivia l.token.range.start
  stop_le : l.token.range.stop ≤ source.length
  eq_eof : l.token.kind = .eof → l.token = Token.eof source.length
  isCut : l.token.kind ≠ .eof → l.token.IsCut source l.mode
  isTrivia : ∀ piece ∈ l.trivia, piece.kind.isTrivia = true ∧
    ∃ token : Token, token.IsCut source l.mode ∧ piece = token.toTrivia
  significant : l.mode ≠ .markup → l.token.kind.isTrivia = false
  markup : l.mode = .markup → l.trivia = []
  findings : ∀ d ∈ l.findings, d.Fits source ∧ offset ≤ d.range.start ∧
    d.range.start < l.token.range.stop
  findings_eq : l.findings.reverse =
    (l.trivia.map (·.range.start) ++ [l.token.range.start]).flatMap (flawsAt source l.mode)

/-! ## One token -/

namespace Scanner

/-- A scanner that has found nothing yet, at the same place. -/
def bare (s : Scanner) : Scanner :=
  { s with findings := [] }

/-- What the scanner has found before does not change what it finds next. -/
theorem next_eq (s : Scanner) :
    s.next = (s.bare.next.1,
      { s with
        position := s.bare.next.1.range.stop
        findings := s.bare.next.2.findings ++ s.findings }) := by
  have hrest : s.bare.rest = s.rest := rfl
  have hbefore : s.bare.before = s.before := rfl
  cases h : s.rest with
  | nil =>
    simp only [next, hrest, h]
    rfl
  | cons c rest =>
    simp only [next, hrest, hbefore, h]
    simp [bare, tokenAt]

theorem next_of_rest_nil {s : Scanner} (h : s.rest = []) :
    s.next = (Token.eof s.position, s) := by
  simp only [next, h]

theorem next_of_rest_cons {s : Scanner} {c : Char} {rest : List Char}
    (h : s.rest = c :: rest) :
    s.next = (tokenAt s.position (Lexeme.scan s.mode s.before c rest),
      { s with
        position := s.position + ((Lexeme.scan s.mode s.before c rest).tail + 1)
        findings :=
          findingsAt s.position (Lexeme.scan s.mode s.before c rest) ++ s.findings }) := by
  simp only [next, h]

theorem length_rest (s : Scanner) : s.rest.length = s.remaining := by
  simp [rest, remaining]

/-- Where characters are left, the token is not the end. -/
theorem kind_ne_eof_of_rest_cons {s : Scanner} {c : Char} {rest : List Char}
    (h : s.rest = c :: rest) : s.next.1.kind ≠ .eof := by
  rw [next_of_rest_cons h]
  intro hkind
  have hlexical := Lexeme.scan_isLexical s.mode s.before c rest
  have hkind : (Lexeme.scan s.mode s.before c rest).kind = .eof := hkind
  rw [hkind] at hlexical
  cases hlexical

theorem start_next (s : Scanner) : s.next.1.range.start = s.position := by
  cases hrest : s.rest with
  | nil =>
    rw [next_of_rest_nil hrest]
    rfl
  | cons c rest =>
    rw [next_of_rest_cons hrest]
    rfl

theorem isLexical_of_kind_ne_eof {s : Scanner} (h : s.next.1.kind ≠ .eof) :
    s.next.1.kind.isLexical = true := by
  cases hrest : s.rest with
  | nil => simp [next_of_rest_nil hrest, Token.eof] at h
  | cons c rest =>
    rw [next_of_rest_cons hrest]
    exact Lexeme.scan_isLexical _ _ _ _

/-- The end token is found at the end of the source, and nowhere else. -/
theorem next_of_kind_eq_eof {s : Scanner} (hle : s.position ≤ s.source.length)
    (h : s.next.1.kind = .eof) :
    s.position = s.source.length ∧ s.next = (Token.eof s.position, s) := by
  cases hrest : s.rest with
  | nil =>
    have := length_rest s
    rw [hrest] at this
    simp only [List.length_nil, remaining] at this
    exact ⟨by omega, next_of_rest_nil hrest⟩
  | cons c rest => exact absurd h (kind_ne_eof_of_rest_cons hrest)

/-- Any other token is not empty and ends inside the source. -/
theorem range_next {s : Scanner} (h : s.next.1.kind ≠ .eof) :
    s.next.1.range.start = s.position ∧ s.position < s.next.1.range.stop ∧
      s.next.1.range.stop ≤ s.source.length := by
  cases hrest : s.rest with
  | nil => simp [next_of_rest_nil hrest, Token.eof] at h
  | cons c rest =>
    -- The lexeme takes the character `c` and its tail, which the rest of the source holds.
    have hlen := length_rest s
    rw [hrest] at hlen
    have htail := Lexeme.scan_tail_le s.mode s.before c rest
    rw [next_of_rest_cons hrest]
    simp only [List.length_cons, remaining] at hlen
    refine ⟨rfl, ?_, ?_⟩
    · show s.position < s.position + _
      omega
    · show s.position + _ ≤ _
      omega

theorem findings_next {s : Scanner} (hs : s.findings = []) :
    ∀ d ∈ s.next.2.findings, d.Fits s.source ∧ d.range.start = s.position ∧
      s.position < s.next.1.range.stop := by
  intro d hd
  cases hrest : s.rest with
  | nil =>
    rw [next_of_rest_nil hrest, hs] at hd
    cases hd
  | cons c rest =>
    obtain ⟨hstart, hlt, hle⟩ := range_next (kind_ne_eof_of_rest_cons hrest)
    rw [next_of_rest_cons hrest] at hd hle
    simp only [hs, List.append_nil, findingsAt, Option.mem_toList, Option.map_eq_some_iff] at hd
    obtain ⟨flaw, _, rfl⟩ := hd
    exact ⟨Issue.fits_report hle _ _, rfl, hlt⟩

/-- A token has one diagnostic at most. -/
theorem reverse_findingsAt (offset : Nat) (lexeme : Lexeme) :
    (findingsAt offset lexeme).reverse = findingsAt offset lexeme := by
  unfold findingsAt
  cases lexeme.flaw <;> rfl

/-- What a scanner without diagnostics finds wrong with the next token. -/
theorem reverse_findings_next {s : Scanner} (hs : s.findings = []) :
    s.next.2.findings.reverse = flawsAt s.source s.mode s.position := by
  have hflaws : flawsAt s.source s.mode s.position = s.next.2.findings := by
    unfold flawsAt
    rw [← hs]
  rw [hflaws]
  cases hrest : s.rest with
  | nil =>
    rw [next_of_rest_nil hrest, hs]
    rfl
  | cons c rest =>
    rw [next_of_rest_cons hrest, hs]
    simp only [List.append_nil, reverse_findingsAt]

theorem remaining_next_lt {s : Scanner} (h : s.next.1.kind ≠ .eof) :
    s.next.2.remaining < s.remaining := by
  obtain ⟨hstart, hlt, hle⟩ := range_next h
  have hpos : s.next.2.position = s.next.1.range.stop := by
    rw [next_eq s]
  have hsource : s.next.2.source = s.source := by
    rw [next_eq s]
  unfold remaining
  rw [hpos, hsource]
  omega

/-! ## Trivia and the token behind it -/

/-- What the scanner has found before does not change which significant token it finds next. -/
private theorem significantUpTo_eq (fuel : Nat) (s : Scanner) (found : List Diagnostic) :
    significantUpTo fuel { s with findings := found } =
      ((significantUpTo fuel s.bare).1, (significantUpTo fuel s.bare).2.1,
        { s with
          position := (significantUpTo fuel s.bare).2.1.range.stop
          findings := (significantUpTo fuel s.bare).2.2.findings ++ found }) := by
  induction fuel generalizing s found with
  | zero =>
    simp only [significantUpTo]
    rw [next_eq { s with findings := found }]
    rfl
  | succ fuel ih =>
    have hnext := next_eq { s with findings := found }
    have hbare : ({ s with findings := found } : Scanner).bare = s.bare := rfl
    rw [hbare] at hnext
    have hmode : s.bare.mode = s.mode := rfl
    simp only [significantUpTo, hnext, hmode]
    split
    · -- The scanner behind the trivia differs from its bare one in what it has found.
      have hs' : s.bare.next.2 =
          { s.bare.next.2 with findings := s.bare.next.2.findings } := rfl
      have hbehind : s.bare.next.2.bare =
          ({ s with position := s.bare.next.1.range.stop } : Scanner).bare := by
        rw [next_eq s.bare]
        rfl
      have h₁ := ih { s with position := s.bare.next.1.range.stop }
        (s.bare.next.2.findings ++ found)
      have h₂ := ih s.bare.next.2 s.bare.next.2.findings
      -- Both runs now start from the same bare scanner.
      rw [← hbehind] at h₁
      rw [← hs'] at h₂
      simp only [h₁, h₂, List.append_assoc]
    · rfl

/-- A scanner finds what lies behind its offset, whatever it has found before. -/
theorem significant_eq (s : Scanner) :
    s.significant =
      ((look s.source s.mode s.position).trivia, (look s.source s.mode s.position).token,
        { s with
          position := (look s.source s.mode s.position).token.range.stop
          findings := (look s.source s.mode s.position).findings ++ s.findings }) :=
  significantUpTo_eq s.remaining s s.findings

/-- More fuel than there are characters left makes no difference. -/
private theorem significantUpTo_of_le {fuel fuel' : Nat} {s : Scanner} (h : s.remaining ≤ fuel)
    (h' : s.remaining ≤ fuel') : significantUpTo fuel s = significantUpTo fuel' s := by
  induction fuel generalizing fuel' s with
  | zero =>
    have hnil : s.rest = [] := by
      have := length_rest s
      exact List.eq_nil_of_length_eq_zero (by omega)
    cases fuel' with
    | zero => rfl
    | succ fuel' =>
      simp only [significantUpTo, next_of_rest_nil hnil]
      rw [if_neg fun hskip => by cases hskip.2]
  | succ fuel ih =>
    by_cases hskip : s.mode ≠ .markup ∧ s.next.1.kind.isTrivia = true
    · have hk : s.next.1.kind ≠ .eof := by
        intro hk
        rw [hk] at hskip
        cases hskip.2
      have hlt := remaining_next_lt hk
      cases fuel' with
      | zero => omega
      | succ fuel' =>
        simp only [significantUpTo, if_pos hskip]
        have hless : s.next.2.remaining ≤ fuel' := by omega
        rw [ih (by omega) hless]
    · cases fuel' with
      | zero => simp only [significantUpTo, if_neg hskip]
      | succ fuel' => simp only [significantUpTo, if_neg hskip]

theorem next_fst_eq_bare (s : Scanner) : s.next.1 = s.bare.next.1 := by
  rw [next_eq s]

theorem isCut_next {s : Scanner} (h : s.next.1.kind ≠ .eof) :
    s.next.1.IsCut s.source s.mode := by
  refine ⟨h, ?_⟩
  rw [(range_next h).1]
  exact next_fst_eq_bare s

/-- The look that a scanner without diagnostics takes when there is at most `fuel` trivia. -/
private def lookUpTo (fuel : Nat) (s : Scanner) : Look where
  mode := s.mode
  trivia := (significantUpTo fuel s).1
  token := (significantUpTo fuel s).2.1
  findings := (significantUpTo fuel s).2.2.findings

private theorem covers_of_next {s : Scanner} (hs : s.findings = [])
    (hle : s.position ≤ s.source.length)
    (hsig : s.mode ≠ .markup → s.next.1.kind.isTrivia = false) :
    Look.Covers s.source s.position ⟨s.mode, [], s.next.1, s.next.2.findings⟩ := by
  have hfindings : ∀ d ∈ s.next.2.findings, d.Fits s.source ∧ s.position ≤ d.range.start ∧
      d.range.start < s.next.1.range.stop := by
    intro d hd
    obtain ⟨hfits, hstart, hlt⟩ := findings_next hs d hd
    exact ⟨hfits, Nat.le_of_eq hstart.symm, by rw [hstart]; exact hlt⟩
  have hflaws : s.next.2.findings.reverse =
      [s.next.1.range.start].flatMap (flawsAt s.source s.mode) := by
    rw [start_next, List.flatMap_singleton]
    exact reverse_findings_next hs
  by_cases hk : s.next.1.kind = .eof
  · -- The end token is empty and stands behind the last character.
    obtain ⟨hend, hnext⟩ := next_of_kind_eq_eof hle hk
    refine ⟨?_, ?_, ?_, ?_, by simp, hsig, fun _ => rfl, hfindings, hflaws⟩
    · show s.position = s.next.1.range.start
      rw [hnext]
      rfl
    · show s.next.1.range.stop ≤ _
      rw [hnext]
      exact hle
    · intro _
      show s.next.1 = _
      rw [hnext, hend]
    · exact fun h => absurd hk h
  · obtain ⟨hstart, _, hstop⟩ := range_next hk
    exact ⟨hstart.symm, hstop, fun h => absurd h hk, fun _ => isCut_next hk,
      by simp, hsig, fun _ => rfl, hfindings, hflaws⟩

/-- The pieces that are found lie side by side. The fuel counts down the characters that are left,
of which each piece of trivia takes one. -/
private theorem covers_lookUpTo (fuel : Nat) (s : Scanner) (hs : s.findings = [])
    (hle : s.position ≤ s.source.length) (hfuel : s.remaining ≤ fuel) :
    Look.Covers s.source s.position (lookUpTo fuel s) := by
  induction fuel generalizing s with
  | zero =>
    -- Without fuel nothing is left, and the end token is no trivia.
    refine covers_of_next hs hle fun _ => ?_
    have hnil : s.rest = [] := by
      have := length_rest s
      exact List.eq_nil_of_length_eq_zero (by omega)
    rw [next_of_rest_nil hnil]
    rfl
  | succ fuel ih =>
    unfold lookUpTo
    rw [significantUpTo]
    by_cases hskip : s.mode ≠ .markup ∧ s.next.1.kind.isTrivia = true
    · -- One piece of trivia, and behind it the look that the induction speaks of.
      have hk : s.next.1.kind ≠ .eof := by
        intro h
        rw [h] at hskip
        cases hskip.2
      obtain ⟨hstart, hlt, hstop⟩ := range_next hk
      have hnext : s.next.2 = { s with position := s.next.1.range.stop,
                                       findings := s.next.2.findings } := by
        rw [next_eq s]
      -- The rest of the look, as a scanner without diagnostics takes it.
      let s' : Scanner := ({ s with position := s.next.1.range.stop } : Scanner).bare
      have hrem : s'.remaining ≤ fuel := by
        have := remaining_next_lt hk
        rw [hnext] at this
        have h' : s'.remaining < s.remaining := this
        omega
      have hcovers := ih s' rfl hstop hrem
      have hsig := significantUpTo_eq fuel { s with position := s.next.1.range.stop }
        s.next.2.findings
      rw [← hnext] at hsig
      simp only [if_pos hskip, hsig]
      refine ⟨⟨hstart, hlt, hcovers.tile⟩, hcovers.stop_le, hcovers.eq_eof, hcovers.isCut, ?_,
        hcovers.significant, fun h => absurd h hskip.1, ?_, ?_⟩
      · intro piece hpiece
        rcases List.mem_cons.1 hpiece with rfl | hpiece
        · exact ⟨hskip.2, s.next.1, isCut_next hk, rfl⟩
        · exact hcovers.isTrivia piece hpiece
      · -- A diagnostic is one of this piece or one of the pieces behind it.
        intro d hd
        have hbehind : s.next.1.range.stop ≤ (lookUpTo fuel s').token.range.stop :=
          Nat.le_trans hcovers.tile.le (lookUpTo fuel s').token.range.start_le_stop
        rcases List.mem_append.1 hd with hd | hd
        · obtain ⟨h₁, h₂, h₃⟩ := hcovers.findings d hd
          have h₂' : s.next.1.range.stop ≤ d.range.start := h₂
          exact ⟨h₁, by omega, h₃⟩
        · obtain ⟨h₁, h₂, h₃⟩ := findings_next hs d hd
          exact ⟨h₁, Nat.le_of_eq h₂.symm, by
            have hgoal : d.range.start < (lookUpTo fuel s').token.range.stop := by omega
            exact hgoal⟩
      · show ((lookUpTo fuel s').findings ++ s.next.2.findings).reverse =
          flawsAt s.source s.mode s.next.1.range.start ++ _
        rw [List.reverse_append, reverse_findings_next hs, start_next]
        exact congrArg _ hcovers.findings_eq
    · simp only [if_neg hskip]
      refine covers_of_next hs hle fun hm => ?_
      cases h : s.next.1.kind.isTrivia with
      | false => rfl
      | true => exact absurd ⟨hm, h⟩ hskip

end Scanner

/-! ## The text of a token -/

namespace Token.IsCut

variable {source : List Char} {mode : Mode} {token : Token}

/-- A token is the lexeme that stands at its place. -/
theorem scan_eq (h : token.IsCut source mode) :
    ∃ before c rest, source.drop token.range.start = c :: rest ∧
      token = Scanner.tokenAt token.range.start (Lexeme.scan mode before c rest) ∧
      flawsAt source mode token.range.start =
        Scanner.findingsAt token.range.start (Lexeme.scan mode before c rest) := by
  obtain ⟨hne, heq⟩ := h
  -- The scanner that finds the token stands at its start.
  let s : Scanner := { source, mode, position := token.range.start }
  have heq : token = s.next.1 := heq
  cases hrest : s.rest with
  | nil =>
    rw [heq, Scanner.next_of_rest_nil hrest] at hne
    exact absurd rfl hne
  | cons c rest =>
    have hnext := Scanner.next_of_rest_cons hrest
    refine ⟨s.before, c, rest, hrest, heq.trans (congrArg Prod.fst hnext), ?_⟩
    show s.next.2.findings = _
    rw [hnext]
    exact List.append_nil _

/-- The text of a token is the text of its lexeme. -/
private theorem scanned (h : token.IsCut source mode) :
    ∃ before c rest, token.kind = (Lexeme.scan mode before c rest).kind ∧
      token.range.slice source = c :: rest.take (Lexeme.scan mode before c rest).tail := by
  obtain ⟨before, c, rest, hdrop, heq, _⟩ := h.scan_eq
  refine ⟨before, c, rest, congrArg Token.kind heq, ?_⟩
  have hlength : token.range.length = (Lexeme.scan mode before c rest).tail + 1 := by
    rw [heq]
    simp [Scanner.tokenAt, Text.Range.length]
  rw [Text.Range.slice, hdrop, hlength, List.take_succ_cons]

/-- A token takes a character, and stands inside the source. -/
theorem range_lt (h : token.IsCut source mode) :
    token.range.start < token.range.stop ∧ token.range.stop ≤ source.length := by
  have hrange := Scanner.range_next
    (s := { source, mode, position := token.range.start }) (by rw [← h.2]; exact h.1)
  rw [← h.2] at hrange
  exact hrange.2

/-- The text of a token takes the place of the token. -/
theorem start_add_length (h : token.IsCut source mode) :
    token.range.start + (token.range.slice source).length = token.range.stop := by
  have hlt := h.range_lt
  rw [Text.Range.slice, Text.Range.length, List.length_take, List.length_drop]
  omega

/-- White space is made of blanks. -/
theorem isBlank (h : token.IsCut source mode) (hkind : token.kind.isSpace = true) :
    ∀ c ∈ token.range.slice source, mode.isBlank c = true := by
  obtain ⟨before, c, rest, hscan, hslice⟩ := h.scanned
  rw [hscan] at hkind
  rw [hslice]
  exact Lexeme.isBlank_of_scan_isSpace hkind

/-- Only markup has paragraphs. -/
theorem ne_parbreak (h : token.IsCut source mode) (hmode : mode ≠ .markup) :
    token.kind ≠ .parbreak := by
  intro hkind
  obtain ⟨before, c, rest, hscan, _⟩ := h.scanned
  rw [hkind] at hscan
  exact hmode (Lexeme.mode_of_scan_parbreak hscan.symm)

/-- Only markup has markers. -/
theorem isMarker_eq_false (h : token.IsCut source mode) (hmode : mode ≠ .markup) :
    token.kind.isMarker = false := by
  obtain ⟨before, c, rest, hscan, _⟩ := h.scanned
  rw [hscan, ← Bool.not_eq_true]
  exact fun hmarker => hmode (Lexeme.mode_of_scan_isMarker hmarker)

/-- Only code has keywords and braces. -/
theorem eq_code_of_isOfCode (h : token.IsCut source mode) (hkind : token.kind.isOfCode = true) :
    mode = .code := by
  obtain ⟨before, c, rest, hscan, _⟩ := h.scanned
  rw [hscan] at hkind
  exact Lexeme.mode_of_scan_isOfCode hkind

/-- White space tells whether a line ends in it. -/
theorem containsNewline_eq (h : token.IsCut source mode) (hkind : token.kind.isSpace = true) :
    token.containsNewline = (token.range.slice source).any Text.isLineBreak := by
  obtain ⟨before, c, rest, hdrop, heq, _⟩ := h.scan_eq
  have hlength : token.range.length = (Lexeme.scan mode before c rest).tail + 1 := by
    rw [heq]
    simp [Scanner.tokenAt, Text.Range.length]
  have hkind : (Lexeme.scan mode before c rest).kind.isSpace = true := by
    rw [heq] at hkind
    exact hkind
  obtain ⟨_, hwhite⟩ := Lexeme.whitespace_of_scan_isSpace hkind
  have hcontains : token.containsNewline = (Lexeme.whitespace mode c rest).containsNewline := by
    rw [heq, ← hwhite]
    rfl
  rw [Text.Range.slice, hdrop, hlength, List.take_succ_cons, hwhite, Lexeme.take_whitespace,
    hcontains, Bool.eq_iff_iff, List.any_eq_true]
  exact decide_eq_true_iff.trans Lexeme.lineBreaks_pos_iff

/-- Lines end in white space only. -/
theorem isSpace_of_containsNewline (h : token.IsCut source mode)
    (hbreak : token.containsNewline = true) : token.kind.isSpace = true := by
  obtain ⟨before, c, rest, _, heq, _⟩ := h.scan_eq
  have hcontains : (Lexeme.scan mode before c rest).containsNewline = true := by
    rw [← hbreak, heq]
    rfl
  rw [heq]
  exact Lexeme.isSpace_of_scan_containsNewline hcontains

/-- A line ends where a paragraph does. -/
theorem containsNewline_of_parbreak (h : token.IsCut source mode) (hkind : token.kind = .parbreak) :
    token.containsNewline = true := by
  obtain ⟨before, c, rest, _, heq, _⟩ := h.scan_eq
  have hscan : (Lexeme.scan mode before c rest).kind = .parbreak := by
    rw [heq] at hkind
    exact hkind
  obtain ⟨_, hwhite⟩ := Lexeme.whitespace_of_scan_isSpace (by rw [hscan]; rfl)
  have hcontains : token.containsNewline = (Lexeme.whitespace mode c rest).containsNewline := by
    rw [heq, ← hwhite]
    rfl
  rw [hwhite] at hscan
  rw [hcontains]
  simp only [Lexeme.whitespace] at hscan ⊢
  split at hscan
  · rename_i hbreaks
    exact decide_eq_true (by omega)
  · cases hscan

/-- Only code has commas and parentheses, and each of them is one character. -/
theorem slice_char (h : token.IsCut source mode) {c : Char} (hkind : token.kind.char? = some c) :
    mode = .code ∧ token.range.slice source = [c] := by
  obtain ⟨before, d, rest, hscan, hslice⟩ := h.scanned
  rw [hscan] at hkind
  obtain ⟨hmode, hchar, htail⟩ := Lexeme.char_of_scan hkind
  rw [hslice, htail, hchar, List.take_zero]
  exact ⟨hmode, rfl⟩

end Token.IsCut

/-! ## Looks -/

/-- Trivia and token cover the source from the offset up to the end of the token. -/
theorem covers_look {source : List Char} {offset : Nat} (h : offset ≤ source.length)
    (mode : Mode) : (look source mode offset).Covers source offset :=
  Scanner.covers_lookUpTo _ { source, mode, position := offset } rfl h (Nat.le_refl _)

/-- A token that takes part in the grammar is all that is seen. -/
theorem look_of_token {source : List Char} {mode : Mode} {offset : Nat}
    (h : mode ≠ .markup →
      (({ source, mode, position := offset } : Scanner).next).1.kind.isTrivia = false) :
    look source mode offset = {
      mode
      trivia := []
      token := (({ source, mode, position := offset } : Scanner).next).1
      findings := flawsAt source mode offset } := by
  have hskip : ¬(mode ≠ .markup ∧
      (({ source, mode, position := offset } : Scanner).next).1.kind.isTrivia = true) := by
    rintro ⟨hmode, htrivia⟩
    rw [h hmode] at htrivia
    cases htrivia
  unfold look Scanner.significant
  generalize ({ source, mode, position := offset } : Scanner).remaining = fuel
  cases fuel with
  | zero => rfl
  | succ fuel =>
    rw [Scanner.significantUpTo]
    simp only [if_neg hskip]
    rfl

/-- Behind a piece of trivia, as much is seen as from its end on. -/
theorem look_of_trivia {source : List Char} {mode : Mode} {offset : Nat} (hmode : mode ≠ .markup)
    {token : Token} (htoken : token = (({ source, mode, position := offset } : Scanner).next).1)
    (htrivia : token.kind.isTrivia = true) :
    look source mode offset = {
      mode
      trivia := token.toTrivia :: (look source mode token.range.stop).trivia
      token := (look source mode token.range.stop).token
      findings := (look source mode token.range.stop).findings ++ flawsAt source mode offset } := by
  subst htoken
  let s : Scanner := { source, mode, position := offset }
  have hskip : s.mode ≠ .markup ∧ s.next.1.kind.isTrivia = true := ⟨hmode, htrivia⟩
  have hk : s.next.1.kind ≠ .eof := by
    intro hk
    rw [hk] at hskip
    cases hskip.2
  have hlt := Scanner.remaining_next_lt hk
  obtain ⟨fuel, hfuel⟩ : ∃ fuel, s.remaining = fuel + 1 := ⟨s.remaining - 1, by omega⟩
  have hbehind : s.next.2 = { s with position := s.next.1.range.stop,
                                     findings := s.next.2.findings } := by
    rw [Scanner.next_eq s]
  have hsig : Scanner.significantUpTo fuel s.next.2 = s.next.2.significant :=
    Scanner.significantUpTo_of_le (by omega) (Nat.le_refl _)
  have hfirst : s.significant =
      (s.next.1.toTrivia :: s.next.2.significant.1, s.next.2.significant.2) := by
    unfold Scanner.significant
    rw [hfuel, Scanner.significantUpTo]
    simp only [if_pos hskip, hsig]
    rfl
  rw [Scanner.significant_eq s.next.2, hbehind] at hfirst
  show Look.mk mode s.significant.1 s.significant.2.1 s.significant.2.2.findings = _
  rw [hfirst]
  rfl

namespace Look.Covers

variable {source : List Char} {offset : Nat} {l : Look}

theorem isLexical (h : l.Covers source offset) (hk : l.token.kind ≠ .eof) :
    l.token.kind.isLexical = true := by
  obtain ⟨_, hcut⟩ := h.isCut hk
  rw [hcut]
  exact Scanner.isLexical_of_kind_ne_eof (by rw [← hcut]; exact hk)

theorem start_lt_stop (h : l.Covers source offset) (hk : l.token.kind ≠ .eof) :
    l.token.range.start < l.token.range.stop :=
  (h.isCut hk).range_lt.1

theorem le_start (h : l.Covers source offset) : offset ≤ l.token.range.start :=
  h.tile.le

theorem range_of_eof (h : l.Covers source offset) (hk : l.token.kind = .eof) :
    l.token.range.start = source.length ∧ l.token.range.stop = source.length := by
  rw [h.eq_eof hk]
  exact ⟨rfl, rfl⟩

end Look.Covers

namespace Look

/-- The looks were taken one behind the other: each behind the token of the one before it, and none
of them at the end of the source. -/
def Path (source : List Char) : Nat → List Look → Nat → Prop
  | start, [], stop => start = stop
  | start, l :: ls, stop =>
    l = look source l.mode start ∧ l.token.kind ≠ .eof ∧ Path source l.token.range.stop ls stop

namespace Path

variable {source : List Char}

theorem append {start middle stop : Nat} {ls more : List Look} (h₁ : Path source start ls middle)
    (h₂ : Path source middle more stop) : Path source start (ls ++ more) stop := by
  induction ls generalizing start with
  | nil =>
    obtain rfl : start = middle := h₁
    exact h₂
  | cons l ls ih =>
    obtain ⟨hlook, hkind, hrest⟩ := h₁
    exact ⟨hlook, hkind, ih hrest⟩

/-- The first look covers what lies behind the start of the path. -/
theorem covers {start stop : Nat} {l : Look} {ls : List Look}
    (h : Path source start (l :: ls) stop) (hle : start ≤ source.length) :
    l.Covers source start := by
  rw [h.1]
  exact covers_look hle l.mode

/-- A path inside a source does not lead backwards. -/
theorem le {start stop : Nat} {ls : List Look} (h : Path source start ls stop)
    (hle : start ≤ source.length) : start ≤ stop ∧ stop ≤ source.length := by
  induction ls generalizing start with
  | nil =>
    obtain rfl : start = stop := h
    exact ⟨Nat.le_refl _, hle⟩
  | cons l ls ih =>
    have hcovers := h.covers hle
    obtain ⟨h₁, h₂⟩ := ih h.2.2 hcovers.stop_le
    have h₃ := hcovers.le_start
    have h₄ := l.token.range.start_le_stop
    exact ⟨by omega, h₂⟩

/-- A path that takes a look leads on. -/
theorem lt {start stop : Nat} {ls : List Look} (h : Path source start ls stop) (hls : ls ≠ [])
    (hle : start ≤ source.length) : start < stop := by
  cases ls with
  | nil => exact absurd rfl hls
  | cons l ls =>
    have hcovers := h.covers hle
    have h₁ := h.2.2.le hcovers.stop_le
    have h₂ := hcovers.le_start
    have h₃ := hcovers.start_lt_stop h.2.1
    omega

/-- Trivia in front of looks on a path stands behind its start. -/
theorem start_le {start stop : Nat} {ls : List Look} (h : Path source start ls stop)
    (hle : start ≤ source.length) : ∀ piece ∈ ls.flatMap (·.trivia), start ≤ piece.range.start := by
  induction ls generalizing start with
  | nil => simp
  | cons l ls ih =>
    have hcovers := h.covers hle
    intro piece hpiece
    rw [List.flatMap_cons] at hpiece
    rcases List.mem_append.1 hpiece with hpiece | hpiece
    · exact (hcovers.tile.range_le piece hpiece).1
    · -- The piece stands behind a later look, and so behind this look's token.
      have h₁ := ih h.2.2 hcovers.stop_le piece hpiece
      have h₂ := hcovers.le_start
      have h₃ := l.token.range.start_le_stop
      omega

end Path

/-! ## Line breaks -/

/-- No line ends in the trivia in front of the token. -/
def Joins (l : Look) : Prop :=
  ∀ piece ∈ l.trivia, piece.containsNewline = false

end Look

/-- All trivia that math finds is trivia of code as well. -/
private theorem trivia_math_prefix (fuel : Nat) (s : Scanner) (hmode : s.mode = .math) :
    (Scanner.significantUpTo fuel s).1 <+:
      (Scanner.significantUpTo fuel { s with mode := .code }).1 := by
  induction fuel generalizing s with
  | zero => exact List.prefix_refl _
  | succ fuel ih =>
    unfold Scanner.significantUpTo
    cases hrest : s.rest with
    | nil =>
      rw [Scanner.next_of_rest_nil hrest]
      dsimp only
      rw [if_neg fun hskip => nomatch hskip.2]
      exact List.nil_prefix
    | cons c rest =>
      have hcode : ({ s with mode := .code } : Scanner).rest = c :: rest := hrest
      rw [Scanner.next_of_rest_cons hrest, Scanner.next_of_rest_cons hcode]
      dsimp only
      split
      · -- Where math finds trivia, code finds the same.
        rename_i hskip
        rw [hmode] at hskip
        have hscan := Lexeme.scan_code_of_isTrivia hskip.2
        have hbefore : ({ s with mode := .code } : Scanner).before = s.before := rfl
        rw [if_pos ⟨by simp, by rw [hbefore, hscan]; exact hskip.2⟩, hbefore, hscan, hmode]
        exact List.cons_prefix_cons.2 ⟨rfl, ih _ rfl⟩
      · exact List.nil_prefix

/-- Where code goes on in the same line, the other languages do as well. -/
theorem joins_look {source : List Char} {offset : Nat} (hle : offset ≤ source.length)
    (h : (look source .code offset).Joins) (mode : Mode) : (look source mode offset).Joins := by
  cases mode with
  | code => exact h
  | markup =>
    intro piece hpiece
    rw [(covers_look hle .markup).markup rfl] at hpiece
    cases hpiece
  | math =>
    have hearlier : (look source .math offset).trivia <+: (look source .code offset).trivia :=
      trivia_math_prefix _ _ rfl
    exact fun piece hpiece => h piece (hearlier.subset hpiece)

end TypstFormat
