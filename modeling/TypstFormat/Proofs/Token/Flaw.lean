import TypstFormat.Proofs.Token.Tokenize

/-!
# Flaws of tokens

Something may be wrong with the characters of a token, and then the scanner has a diagnostic for it:
the token is no token of the language at all, or it is a string, raw text or a comment whose end is
missing. Whether the end is missing does not depend on where the token stands. It shows when the
text of the token is read by itself (`Token.IsCut.findings_eq`), since a rule that looks for an end
finds the same where nothing stands behind what it has found (`Lexeme.Delimited.take`).

## Key results

- `Lexeme.Delimited.take`: strings, raw text and comments do not depend on what stands behind them
- `tokenize_delimited`: what the scanner has to say of the text of one token
- `Token.IsCut.findings_eq`: the diagnostics of a token, from its kind, its place and its text
-/

namespace TypstFormat

open Text (Range)

namespace Lexeme

/-! ## Spans without what stands behind them -/

private theorem eq_cons_of_take {n : Nat} {c : Char} {rest r : List Char}
    (h : rest.take n = c :: r) : rest = c :: (r ++ rest.drop n) := by
  rw [← List.cons_append, ← h, List.take_append_drop]

theorem stringSpan_take (rest : List Char) :
    stringSpan (rest.take (stringSpan rest).length) = stringSpan rest := by
  fun_induction stringSpan rest with
  | case1 => rfl
  | case2 rest => rfl
  | case3 c rest _ ih =>
    show stringSpan ('\\' :: c :: rest.take (stringSpan rest).length) = _
    rw [stringSpan, ih]
  | case4 => rfl
  | case5 c rest hquote hescape hend ih =>
    -- The character is no backslash, so it is read in the same way in front of any text.
    have hc : c ≠ '\\' := by
      rintro rfl
      cases rest with
      | nil => exact hend rfl rfl
      | cons d rest => exact hescape d rest rfl rfl
    show stringSpan (c :: rest.take (stringSpan rest).length) = _
    rw [stringSpan, ih]
    · exact hquote
    · exact fun _ _ h => absurd h hc
    · exact fun h => absurd h hc

theorem length_stringSpan (rest : List Char) (h : (stringSpan rest).closed = false) :
    (stringSpan rest).length = rest.length := by
  fun_induction stringSpan rest with
  | case1 => rfl
  | case2 => cases h
  | case3 c rest _ ih => exact congrArg (· + 2) (ih h)
  | case4 => rfl
  | case5 c rest _ _ _ ih => exact congrArg (· + 1) (ih h)

theorem commentSpan_take (depth : Nat) (rest : List Char) :
    commentSpan depth (rest.take (commentSpan depth rest).length) = commentSpan depth rest := by
  fun_induction commentSpan depth rest with
  | case1 => rfl
  | case2 rest => rfl
  | case3 depth rest ih => simp only [Span.grow, List.take_succ_cons, commentSpan, ih]
  | case4 depth rest ih => simp only [Span.grow, List.take_succ_cons, commentSpan, ih]
  | case5 depth c rest hclose hcloseInner hopen ih =>
    show commentSpan depth (c :: rest.take (commentSpan depth rest).length) = _
    rw [commentSpan, ih]
    · exact fun _ hc h => hopen _ hc (eq_cons_of_take h)
    · exact fun _ hdepth hc h => hclose _ hdepth hc (eq_cons_of_take h)
    · exact fun _ _ hdepth hc h => hcloseInner _ _ hdepth hc (eq_cons_of_take h)

theorem length_commentSpan (depth : Nat) (rest : List Char)
    (h : (commentSpan depth rest).closed = false) :
    (commentSpan depth rest).length = rest.length := by
  fun_induction commentSpan depth rest with
  | case1 => rfl
  | case2 => cases h
  | case3 depth rest ih => exact congrArg (· + 2) (ih h)
  | case4 depth rest ih => exact congrArg (· + 2) (ih h)
  | case5 depth c rest _ _ _ ih => exact congrArg (· + 1) (ih h)

theorem rawSpan_take (fence run : Nat) (rest : List Char) :
    rawSpan fence run (rest.take (rawSpan fence run rest).length) = rawSpan fence run rest := by
  fun_induction rawSpan fence run rest with
  | case1 => rfl
  | case2 run c rest run' hrun =>
    show rawSpan fence run [c] = _
    rw [rawSpan]
    exact if_pos hrun
  | case3 run c rest run' hrun ih =>
    show rawSpan fence run (c :: rest.take (rawSpan fence run' rest).length) = _
    rw [rawSpan]
    exact (if_neg hrun).trans (congrArg (Span.grow 1) ih)

theorem length_rawSpan (fence run : Nat) (rest : List Char)
    (h : (rawSpan fence run rest).closed = false) :
    (rawSpan fence run rest).length = rest.length := by
  fun_induction rawSpan fence run rest with
  | case1 => rfl
  | case2 => cases h
  | case3 run c rest _ _ ih => exact congrArg (· + 1) (ih h)


theorem string_take (rest : List Char) : string (rest.take (string rest).tail) = string rest := by
  unfold string
  simp only [stringSpan_take]

theorem raw_take (rest : List Char) : raw (rest.take (raw rest).tail) = raw rest := by
  have htake (k : Nat) :
      (rest.take ((rest.takeWhile (· = '\x60')).length + k)).takeWhile (· = '\x60') =
        rest.takeWhile (· = '\x60') := by
    rw [← List.take_takeWhile]
    exact List.take_of_length_le (Nat.le_add_right _ _)
  by_cases hfence : (rest.takeWhile (· = '\x60')).length = 1
  · have hraw : raw rest = { kind := .raw, tail := 1 } := by
      unfold raw
      exact if_pos hfence
    have htake := htake 0
    rw [hfence] at htake
    rw [hraw]
    unfold raw
    rw [htake]
    exact if_pos hfence
  · have htail : (raw rest).tail = (rest.takeWhile (· = '\x60')).length +
        (rawSpan ((rest.takeWhile (· = '\x60')).length + 1) 0
          (rest.drop (rest.takeWhile (· = '\x60')).length)).length := by
      unfold raw
      simp only [hfence, if_false]
    rw [htail]
    unfold raw
    simp only [htake, hfence, if_false, List.drop_take, Nat.add_sub_cancel_left, rawSpan_take]

theorem blockComment_take (rest : List Char) :
    blockComment (rest.take (blockComment rest).tail) = blockComment rest := by
  unfold blockComment
  simp only [List.drop_take, Nat.add_sub_cancel_left, commentSpan_take]

namespace Delimited

variable {c : Char} {rest : List Char} {lexeme : Lexeme}

theorem scan_code (h : Delimited c rest lexeme) (before : Option Char) :
    scan .code before c rest = lexeme := by
  cases h with
  | string hc =>
    subst hc
    rfl
  | raw hc =>
    subst hc
    rfl
  | comment hc hrest =>
    subst hc
    have hblank : Mode.isBlank .code '/' = false := by decide
    simp [scan, hblank, hrest]

/-- The rule finds the same where nothing stands behind what it has found. -/
theorem take (h : Delimited c rest lexeme) : Delimited c (rest.take lexeme.tail) lexeme := by
  cases h with
  | string hc =>
    have : Delimited c (rest.take (Lexeme.string rest).tail) _ := .string hc
    rwa [string_take] at this
  | raw hc =>
    have : Delimited c (rest.take (Lexeme.raw rest).tail) _ := .raw hc
    rwa [raw_take] at this
  | comment hc hrest =>
    have hhead : (rest.take (blockComment rest).tail).head? = some '*' := by
      have htail : (blockComment rest).tail ≠ 0 := Nat.ne_of_gt (Nat.add_pos_left Nat.one_pos _)
      rw [List.head?_take, if_neg htail]
      exact hrest
    have := Delimited.comment hc hhead
    rwa [blockComment_take] at this

private theorem closed_of_flaw {issue : Issue} {span : Span} (h : span.flaw issue ≠ none) :
    span.closed = false := by
  cases hclosed : span.closed with
  | false => rfl
  | true => exact absurd (if_pos hclosed) h

/-- If the end was not found, nothing stands behind. -/
theorem tail_eq (h : Delimited c rest lexeme) (hflaw : lexeme.flaw ≠ none) :
    lexeme.tail = rest.length := by
  cases h with
  | string => exact length_stringSpan rest (closed_of_flaw hflaw)
  | raw =>
    by_cases hfence : (rest.takeWhile (· = '\x60')).length = 1
    · unfold Lexeme.raw at hflaw
      simp [hfence] at hflaw
    · unfold Lexeme.raw at hflaw ⊢
      simp only [hfence, if_false] at hflaw ⊢
      rw [length_rawSpan _ _ _ (closed_of_flaw hflaw), List.length_drop]
      have := (List.takeWhile_sublist (· = '\x60') (l := rest)).length_le
      omega
  | comment _ hrest =>
    have hspan := length_commentSpan 0 (rest.drop 1) (closed_of_flaw hflaw)
    show 1 + (commentSpan 0 (rest.drop 1)).length = rest.length
    rw [hspan, List.length_drop]
    cases rest with
    | nil => cases hrest
    | cons d rest => simp; omega

end Delimited

end Lexeme

/-! ## Issues and their codes -/

/-- Whether the issue is that something has no end. -/
def Issue.isUnterminated : Issue → Bool
  | .unterminatedString | .unterminatedRaw | .unterminatedComment => true
  | _ => false

theorem Issue.ofCode?_code (issue : Issue) : ofCode? issue.code = some issue := by
  cases issue <;> decide

namespace Diagnostic

/-- Whether a diagnostic is about the characters of one token, as its code says. -/
def isLexical (d : Diagnostic) : Bool :=
  (Issue.ofCode? d.code).any Issue.isLexical

/-- Whether a diagnostic says that something has no end. -/
def isUnterminated (d : Diagnostic) : Bool :=
  (Issue.ofCode? d.code).any Issue.isUnterminated

end Diagnostic

theorem Issue.isLexical_report (issue : Issue) (range : Range) (message : Option String) :
    (issue.report range message).isLexical = issue.isLexical := by
  unfold Diagnostic.isLexical
  show (Issue.ofCode? issue.code).any _ = _
  rw [ofCode?_code]
  rfl

theorem Issue.isUnterminated_report (issue : Issue) (range : Range) (message : Option String) :
    (issue.report range message).isUnterminated = issue.isUnterminated := by
  unfold Diagnostic.isUnterminated
  show (Issue.ofCode? issue.code).any _ = _
  rw [ofCode?_code]
  rfl

/-! ## Flaws of lexemes -/

namespace Lexeme

/-- What is wrong with a lexeme whose end is looked for is that it has none. -/
theorem Delimited.isUnterminated {c : Char} {rest : List Char} {lexeme : Lexeme}
    (h : Delimited c rest lexeme) : ∀ flaw ∈ lexeme.flaw, flaw.issue.isUnterminated = true := by
  have hspan {issue : Issue} (hissue : issue.isUnterminated = true) (span : Span) :
      ∀ flaw ∈ span.flaw issue, flaw.issue.isUnterminated = true := by
    intro flaw hflaw
    unfold Span.flaw at hflaw
    split at hflaw
    · cases hflaw
    · cases hflaw
      exact hissue
  cases h with
  | string => exact hspan rfl _
  | raw =>
    unfold Lexeme.raw
    dsimp only
    split
    · simp
    · exact hspan rfl _
  | comment => exact hspan rfl _

/-- Only errors, and what has to have an end, have flaws. -/
theorem flaw_of_found {mode : Mode} {c : Char} {rest : List Char} {lexeme : Lexeme}
    (h : Found mode c rest lexeme) :
    (lexeme.kind.mayBeFlawed = false ∧ lexeme.flaw = none) ∨
      (lexeme.kind = .error ∧ ∃ flaw, lexeme.flaw = some flaw ∧ flaw.issue = .invalidCharacter) ∨
      Delimited c rest lexeme := by
  cases h with
  | whitespace =>
    left
    unfold whitespace
    dsimp only
    split <;> exact ⟨rfl, rfl⟩
  | lineComment => exact .inl ⟨rfl, rfl⟩
  | delimited h => exact .inr (.inr h)
  | sign _ hchar =>
    rcases Kind.eq_of_char? hchar with rfl | rfl | rfl <;> exact .inl ⟨rfl, rfl⟩
  | invalid => exact .inr (.inl ⟨rfl, _, rfl, rfl⟩)
  | plain h =>
    left
    simp only [isPlain, Bool.and_eq_true, Bool.not_eq_true', Option.isNone_iff_eq_none] at h
    exact ⟨h.1.1.2, h.1.2⟩

/-- A flaw of a lexeme is one of characters. -/
theorem isLexical_flaw {mode : Mode} {c : Char} {rest : List Char} {lexeme : Lexeme}
    (h : Found mode c rest lexeme) : ∀ flaw ∈ lexeme.flaw, flaw.issue.isLexical = true := by
  intro flaw hmem
  rcases flaw_of_found h with ⟨_, hflaw⟩ | ⟨_, _, hflaw, hissue⟩ | hdelimited
  · rw [hflaw] at hmem
    cases hmem
  · rw [hflaw] at hmem
    cases hmem
    rw [hissue]
    rfl
  · have hissue := hdelimited.isUnterminated flaw hmem
    revert hissue
    cases flaw.issue <;> decide

end Lexeme

/-! ## Reading one token by itself -/

/-- At the end of the source nothing more is found. -/
private theorem Scanner.tokensUpTo_of_rest_nil {s : Scanner} (h : s.rest = []) (fuel : Nat) :
    (tokensUpTo fuel s).2 = s := by
  have hnext := next_of_rest_nil h
  cases fuel with
  | zero =>
    rw [tokensUpTo, hnext]
  | succ fuel =>
    rw [tokensUpTo, hnext]
    rfl

/-- The text of a token whose end is looked for is such a token again, with the same flaw. -/
theorem tokenize_delimited {c : Char} {rest : List Char} {lexeme : Lexeme}
    (h : Lexeme.Delimited c rest lexeme) :
    (tokenize (c :: rest.take lexeme.tail) .code).2 = Scanner.findingsAt 0 lexeme := by
  let s : Scanner := { source := c :: rest.take lexeme.tail, mode := .code }
  have hrest : s.rest = c :: rest.take lexeme.tail := rfl
  have hscan : Lexeme.scan s.mode s.before c (rest.take lexeme.tail) = lexeme :=
    h.take.scan_code s.before
  have hnext := Scanner.next_of_rest_cons hrest
  rw [hscan] at hnext
  have hkind : s.next.1.kind ≠ .eof := Scanner.kind_ne_eof_of_rest_cons hrest
  -- The token takes all characters.
  have hend : s.next.2.rest = [] := by
    rw [hnext]
    simp [Scanner.rest, s]
  have hremaining : s.remaining = (rest.take lexeme.tail).length + 1 := by
    simp [Scanner.remaining, s]
  have htokens : s.tokens.2 = s.next.2 := by
    unfold Scanner.tokens
    rw [hremaining, Scanner.tokensUpTo]
    simp only [if_neg hkind]
    exact Scanner.tokensUpTo_of_rest_nil hend _
  show s.tokens.2.findings.reverse = _
  rw [htokens, hnext]
  show (Scanner.findingsAt 0 lexeme ++ []).reverse = _
  rw [List.append_nil, Scanner.reverse_findingsAt]

/-! ## Flaws of tokens -/

/-- Whether a text by itself, read as code, lacks an end. -/
def isUnterminated (text : List Char) : Bool :=
  (tokenize text .code).2.any Diagnostic.isUnterminated

/-- Whether something is wrong with a piece of a source. -/
def Trivia.isFlawed (source : List Char) (piece : Trivia) : Bool :=
  piece.kind = .error ||
    ([Kind.str, .raw, .blockComment].contains piece.kind && piece.range.stop = source.length
      && isUnterminated (piece.range.slice source))

theorem Trivia.isFlawed_of_kind {source : List Char} {piece : Trivia}
    (h : piece.kind.mayBeFlawed = false) : piece.isFlawed source = false := by
  unfold isFlawed
  revert h
  cases piece.kind <;> simp [Kind.mayBeFlawed]

/-- The text of a token whose end is looked for lacks its end if the token does. -/
private theorem isUnterminated_delimited {c : Char} {rest : List Char} {lexeme : Lexeme}
    (h : Lexeme.Delimited c rest lexeme) :
    isUnterminated (c :: rest.take lexeme.tail) = lexeme.flaw.isSome := by
  unfold isUnterminated
  rw [tokenize_delimited h]
  unfold Scanner.findingsAt
  cases hflaw : lexeme.flaw with
  | none => rfl
  | some flaw =>
    have hissue := h.isUnterminated flaw hflaw
    simp [Issue.isUnterminated_report, hissue]

namespace Token.IsCut

variable {source : List Char} {mode : Mode} {token : Token}

/-- A lexeme is flawed if, and only if, its token is. -/
private theorem isSome_flaw {before : Option Char} {c : Char} {rest : List Char}
    (hdrop : source.drop token.range.start = c :: rest)
    (heq : token = Scanner.tokenAt token.range.start (Lexeme.scan mode before c rest)) :
    (Lexeme.scan mode before c rest).flaw.isSome = token.toTrivia.isFlawed source := by
  have htail := Lexeme.scan_tail_le mode before c rest
  have hfound := Lexeme.found_scan mode before c rest
  generalize Lexeme.scan mode before c rest = lexeme at heq htail hfound ⊢
  have hkind : token.toTrivia.kind = lexeme.kind := congrArg Token.kind heq
  rcases Lexeme.flaw_of_found hfound with ⟨hplain, hflaw⟩ | ⟨herror, flaw, hflaw, _⟩ | h
  · rw [hflaw, Trivia.isFlawed_of_kind (hkind ▸ hplain)]
    rfl
  · simp [hflaw, Trivia.isFlawed, hkind, herror]
  · have hstop : token.range.stop = token.range.start + (lexeme.tail + 1) := by
      rw [heq]
      rfl
    have hslice : token.range.slice source = c :: rest.take lexeme.tail := by
      have hlength : token.range.length = lexeme.tail + 1 := by
        unfold Range.length
        omega
      rw [Range.slice, hdrop, hlength, List.take_succ_cons]
    -- The end is missing just where the text of the token lacks it, and then it is the last text.
    have hunterminated : isUnterminated (token.range.slice source) = lexeme.flaw.isSome := by
      rw [hslice]
      exact isUnterminated_delimited h
    have hend : lexeme.flaw.isSome = true → token.range.stop = source.length := by
      intro hflaw
      have hlast := h.tail_eq (Option.isSome_iff_ne_none.1 hflaw)
      have hlength := congrArg List.length hdrop
      rw [List.length_drop, List.length_cons] at hlength
      omega
    have hclass : [Kind.str, .raw, .blockComment].contains lexeme.kind = true ∧
        lexeme.kind ≠ .error := by
      rcases h.kind_cases with hk | hk | hk <;> rw [hk] <;> decide
    have hflawed : token.toTrivia.isFlawed source =
        (decide (token.range.stop = source.length) &&
          isUnterminated (token.range.slice source)) := by
      unfold Trivia.isFlawed
      rw [hkind, decide_eq_false hclass.2, hclass.1]
      rfl
    rw [hflawed, hunterminated]
    cases hflaw : lexeme.flaw.isSome with
    | false => simp
    | true => simp [hend hflaw]

/-- A token has a diagnostic of its own if something is wrong with it, and no other ones. -/
theorem ranges_flawsAt (h : token.IsCut source mode) :
    (flawsAt source mode token.range.start).map (·.range) =
      ([token.toTrivia].filter (·.isFlawed source)).map (·.range) := by
  obtain ⟨before, c, rest, hdrop, heq, hflaws⟩ := h.scan_eq
  have hflawed := isSome_flaw hdrop heq
  have hrange : token.range = Range.ofLength token.range.start
      ((Lexeme.scan mode before c rest).tail + 1) := by
    rw [heq]
    rfl
  rw [hflaws, List.filter_singleton, ← hflawed]
  unfold Scanner.findingsAt
  rw [← hrange]
  cases (Lexeme.scan mode before c rest).flaw <;> rfl

end Token.IsCut

/-- The scanner complains about characters only. -/
theorem isLexical_flawsAt (source : List Char) (mode : Mode) (offset : Nat) :
    ∀ d ∈ flawsAt source mode offset, d.isLexical = true := by
  let s : Scanner := { source, mode, position := offset }
  show ∀ d ∈ s.next.2.findings, _
  cases hrest : s.rest with
  | nil =>
    rw [Scanner.next_of_rest_nil hrest]
    exact List.forall_mem_nil _
  | cons c rest =>
    rw [Scanner.next_of_rest_cons hrest]
    intro d hd
    have hd : d ∈ Scanner.findingsAt offset (Lexeme.scan mode s.before c rest) := by
      simpa [s] using hd
    rw [Scanner.findingsAt, Option.mem_toList, Option.map_eq_some_iff] at hd
    obtain ⟨flaw, hflaw, rfl⟩ := hd
    rw [Issue.isLexical_report]
    exact Lexeme.isLexical_flaw (Lexeme.found_scan mode s.before c rest) flaw hflaw

namespace Look

/-- The trivia and the token of a look. -/
def pieces (l : Look) : List Trivia :=
  l.trivia ++ [l.token.toTrivia]

variable {source : List Char} {offset : Nat} {l : Look}

/-- A look finds what is wrong with its pieces, in their order. -/
theorem Covers.ranges_findings (h : l.Covers source offset) :
    l.findings.reverse.map (·.range) = (l.pieces.filter (·.isFlawed source)).map (·.range) := by
  have htrivia : (l.trivia.flatMap fun piece => flawsAt source l.mode piece.range.start).map
      (·.range) = (l.trivia.filter (·.isFlawed source)).map (·.range) := by
    have hall := h.isTrivia
    generalize l.trivia = pieces at hall
    induction pieces with
    | nil => rfl
    | cons piece rest ih =>
      obtain ⟨_, token, hcut, rfl⟩ := hall piece List.mem_cons_self
      have ih := ih fun p hp => hall p (List.mem_cons_of_mem _ hp)
      rw [List.flatMap_cons, List.map_append, ih, ← List.singleton_append, List.filter_append,
        List.map_append]
      exact congrArg (· ++ _) hcut.ranges_flawsAt
  have htoken : (flawsAt source l.mode l.token.range.start).map (·.range) =
      ([l.token.toTrivia].filter (·.isFlawed source)).map (·.range) := by
    by_cases hk : l.token.kind = .eof
    · -- Nothing is wrong at the end of the source.
      have hrest : ({ source, mode := l.mode, position := source.length } : Scanner).rest = [] :=
        List.drop_length
      rw [h.eq_eof hk]
      unfold flawsAt
      show (({ source, mode := l.mode, position := source.length } : Scanner).next).2.findings.map
        _ = _
      rw [Scanner.next_of_rest_nil hrest]
      rfl
    · exact (h.isCut hk).ranges_flawsAt
  rw [h.findings_eq, List.flatMap_append, List.map_append, List.flatMap_map, htrivia,
    List.flatMap_singleton, htoken, pieces, List.filter_append, List.map_append]

theorem Covers.isLexical_findings (h : l.Covers source offset) :
    ∀ d ∈ l.findings, d.isLexical = true := by
  intro d hd
  have hd := List.mem_reverse.2 hd
  rw [h.findings_eq] at hd
  obtain ⟨offset, _, hd⟩ := List.mem_flatMap.1 hd
  exact isLexical_flawsAt source l.mode offset d hd

end Look

end TypstFormat
