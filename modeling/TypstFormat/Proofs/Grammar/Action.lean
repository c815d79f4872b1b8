import TypstFormat.Grammar.Expect
import TypstFormat.Proofs.Grammar.Reads

/-!
# What the basic actions read

Tokens, modes, rules for line breaks, and diagnostics. An action that requires a token either reads
it or reports a diagnostic, so that without diagnostics the token is known to be there.

## Key results

- `reads_bump`: consuming the current token reads it
- `bump_returns`, `eat_returns`, `expect_returns`: tokens
- `leaveMode_returns`, `leaveBreakRule_returns`: what was read in another mode, or under another
  rule, was read
-/

namespace TypstFormat

open Draft Parse

/-- A token that stands in a source and opens no parenthesis. -/
def Kind.isOrdinary (kind : Kind) : Bool :=
  kind.isLexical && kind ≠ .leftParen

theorem Kind.isNode_of_isOrdinary {kind : Kind} (h : kind.isOrdinary = true) :
    kind.isNode = false := by
  cases kind <;> first | rfl | cases h

namespace Parser

variable {p p' : Parser}

/-! ## The current token -/

theorem Ok.kind_eq (h : p.Ok) : p.stream.kind = p.look.token.kind :=
  h.steady.kind_eq

/-- The current token is the end token, or stands in the source. -/
theorem Ok.isLexical (h : p.Ok) (hk : p.stream.kind ≠ .eof) : p.stream.kind.isLexical = true := by
  rw [h.kind_eq] at hk ⊢
  exact h.steady.covers.isLexical hk

theorem Ok.kind_ne_breakEnd (h : p.Ok) : p.stream.kind ≠ .breakEnd := by
  intro hk
  have := h.isLexical (by rw [hk]; simp)
  rw [hk] at this
  cases this

theorem current_eq (p : Parser) : p.current = p.stream.kind ∨ p.current = .breakEnd := by
  unfold current
  split
  · exact .inl rfl
  · split
    · split
      · exact .inr rfl
      · split
        · exact .inl rfl
        · exact .inr rfl
      · exact .inl rfl
    · exact .inl rfl

theorem kind_eq_current (h : p.current ≠ .breakEnd) : p.stream.kind = p.current :=
  (p.current_eq.resolve_right h).symm

theorem isAt_iff {kind : Kind} : p.isAt kind = true ↔ p.current = kind := by
  simp [isAt]

theorem isAtEnd_eq_false : p.isAtEnd = false ↔ p.current ≠ .breakEnd ∧ p.current ≠ .eof := by
  simp [isAtEnd]

/-- A line break does not end what is read. -/
def Plain (p : Parser) : Prop :=
  p.stream.mode = .markup ∨ ∀ rule ∈ p.breakRules.head?, rule.1 = .ignored

theorem Plain.current_eq (h : p.Plain) (hp : p.Ok) : p.current = p.stream.kind := by
  unfold current
  split
  · rfl
  · rename_i rule entered rules hrules
    rcases h with hmode | hrule
    · -- In markup, line breaks are tokens of their own.
      have := hp.steady.afterLineBreak_of_markup hmode
      rw [if_neg (by simp [this])]
    · obtain rfl : rule = .ignored := hrule (rule, entered) (by rw [hrules]; rfl)
      split <;> rfl

theorem Plain.isAtEnd_eq (h : p.Plain) (hp : p.Ok) : p.isAtEnd = p.isAt .eof := by
  have hne : p.current ≠ .breakEnd := by
    rw [h.current_eq hp]
    exact hp.kind_ne_breakEnd
  simp [isAtEnd, isAt, hne]

theorem Plain.of_agrees (h : p.Plain) (h' : Agrees p p') : p'.Plain := by
  unfold Plain
  rw [h'.mode_eq, h'.breakRules_eq]
  exact h

theorem plain_enterBreakRule (p : Parser) : (p.enterBreakRule .ignored).Plain :=
  .inr fun _ h => by
    cases h
    rfl

/-- The token that is current when a rule comes into force is not hidden by it. -/
theorem current_enterBreakRule (p : Parser) (rule : BreakRule) :
    (p.enterBreakRule rule).current = p.stream.kind := by
  unfold current enterBreakRule
  exact if_neg fun h => h.2 rfl

theorem Ok.range_stop_le (h : p.Ok) : p.range.stop ≤ p.source.length := by
  unfold range
  rw [h.steady.current]
  exact h.steady.covers.stop_le

theorem Ok.errorRange_stop_le (h : p.Ok) : p.errorRange.stop ≤ p.source.length := by
  unfold errorRange
  split
  · exact h.steady.consumed_le
  · exact h.range_stop_le

theorem Ok.position_le (h : p.Ok) : p.position ≤ p.source.length :=
  h.steady.position_le

theorem kind_ne_eof (h : p.isAtEnd = false) : p.stream.kind ≠ .eof := by
  obtain ⟨hbreak, heof⟩ := isAtEnd_eq_false.1 h
  rw [kind_eq_current hbreak]
  exact heof

/-- In front of a token, code ends because of a line break. -/
theorem current_of_isAtEnd (h : p.isAtEnd = true) (hkind : p.stream.kind ≠ .eof) :
    p.current = .breakEnd := by
  rcases Bool.or_eq_true_iff.1 h with h | h
  · exact of_decide_eq_true h
  · have heof : p.current = .eof := of_decide_eq_true h
    refine p.current_eq.resolve_left fun hcurrent => hkind ?_
    rw [← hcurrent, heof]

theorem isAtEnd_of_isAt {kind : Kind} (hkind : kind.isLexical = true) (h : p.isAt kind = true) :
    p.isAtEnd = false := by
  rw [isAtEnd_eq_false, isAt_iff.1 h]
  constructor <;> rintro rfl <;> cases hkind

/-- Under a rule by which line breaks end nothing, a token is still current. -/
theorem isAtEnd_enterBreakRule (hp : p.Ok) (h : p.isAtEnd = false) :
    (p.enterBreakRule .ignored).isAtEnd = false := by
  have hok : (p.enterBreakRule .ignored).Ok := ⟨hp.steady, hp.complains⟩
  rw [(plain_enterBreakRule p).isAtEnd_eq hok, Parser.isAt, current_enterBreakRule]
  have hend := isAtEnd_eq_false.1 h
  rw [← kind_eq_current hend.1] at hend
  exact decide_eq_false hend.2

/-- Only code has parentheses. -/
theorem Ok.kind_ne_leftParen (h : p.Ok) (hmode : p.stream.mode ≠ .code) :
    p.stream.kind ≠ .leftParen :=
  fun hk => hmode (h.steady.mode_eq_code hk)

/-- Only code has keywords and braces. -/
theorem Ok.mode_eq_code (h : p.Ok) {kind : Kind} (hkind : kind.isOfCode = true)
    (hat : p.isAt kind = true) : p.stream.mode = .code := by
  have hcurrent := isAt_iff.1 hat
  have hlook : p.look.token.kind = kind := by
    rw [← h.kind_eq, kind_eq_current (by rw [hcurrent]; rintro rfl; cases hkind), hcurrent]
  refine (h.steady.covers.isCut ?_).eq_code_of_isOfCode ?_
  · show p.look.token.kind ≠ .eof
    rw [hlook]
    rintro rfl
    cases hkind
  · show p.look.token.kind.isOfCode = true
    rw [hlook]
    exact hkind

/-! ## Consuming tokens -/

/-- The current token can be consumed, and opens no parenthesis. -/
structure Consumes (p : Parser) : Prop where
  isAtEnd : p.isAtEnd = false
  ne_leftParen : p.stream.kind ≠ .leftParen

theorem Consumes.of_current (h : p.current.isOrdinary = true) : p.Consumes := by
  obtain ⟨hlexical, hparen⟩ := Bool.and_eq_true_iff.1 h
  have hend : p.isAtEnd = false := isAtEnd_of_isAt hlexical (isAt_iff.2 rfl)
  refine ⟨hend, ?_⟩
  rw [kind_eq_current (isAtEnd_eq_false.1 hend).1]
  simpa using hparen

theorem Consumes.of_isAt {kind : Kind} (hkind : kind.isOrdinary = true) (h : p.isAt kind = true) :
    p.Consumes := by
  apply Consumes.of_current
  rw [isAt_iff.1 h]
  exact hkind

theorem Consumes.enterBreakRule (h : p.Consumes) (hp : p.Ok) :
    (p.enterBreakRule .ignored).Consumes :=
  ⟨isAtEnd_enterBreakRule hp h.isAtEnd, h.ne_leftParen⟩

/-- The kind of the current token, read by itself. -/
theorem Ok.kinds_look (hp : p.Ok) : kinds [.token p.look false] = [p.stream.kind] := by
  simp [Draft.kind, hp.kind_eq]

theorem Ok.kind_look_of_isAt (hp : p.Ok) {kind : Kind} (hkind : kind ≠ .breakEnd)
    (hat : p.isAt kind = true) : p.look.token.kind = kind := by
  have hcurrent := isAt_iff.1 hat
  rw [← hp.kind_eq, kind_eq_current (by rwa [hcurrent]), hcurrent]

theorem Ok.isOfMarkup_of_isAt (hp : p.Ok) {kind : Kind} (hat : p.isAt kind = true)
    (hkind : (kind.isOfMarkup || kind = .breakEnd) = false) :
    p.look.token.kind.isOfMarkup = false := by
  rw [Bool.or_eq_false_iff, decide_eq_false_iff_not] at hkind
  rw [hp.kind_look_of_isAt hkind.2 hat]
  exact hkind.1

theorem Ok.isSpace_of_isAt (hp : p.Ok) {kind : Kind} (hat : p.isAt kind = true)
    (hkind : (kind.isSpace || kind = .breakEnd) = false) : p.look.token.kind.isSpace = false := by
  rw [Bool.or_eq_false_iff, decide_eq_false_iff_not] at hkind
  rw [hp.kind_look_of_isAt hkind.2 hat]
  exact hkind.1

theorem Ok.kinds_look_of_isAt (hp : p.Ok) {kind : Kind} (hkind : kind ≠ .breakEnd)
    (hat : p.isAt kind = true) : kinds [.token p.look false] = [kind] := by
  rw [hp.kinds_look, hp.kind_eq, hp.kind_look_of_isAt hkind hat]

/-- Consuming the current token takes it. -/
theorem takes_bumpAs (hp : p.Ok) (h : p.isAtEnd = false) {asText : Bool}
    (hasText : asText = true →
      p.stream.kind.mayBeFlawed = false ∧ p.stream.kind.isSpace = false) :
    Takes p [.token p.look asText] (p.bumpAs (if asText then .text else p.stream.kind)) := by
  have hbump := hp.steady.bump (kind_ne_eof h)
  have hstream : (p.bumpAs (if asText then .text else p.stream.kind)).stream = p.stream.bump := by
    simp [bumpAs, h]
  have hlook : p.look.token.kind ≠ .eof := by
    rw [← hp.kind_eq]
    exact kind_ne_eof h
  have hleaves : leavesAll [.token p.look asText] = [p.look] := rfl
  refine ⟨⟨⟨?_, ?_⟩, ?_, ?_, ?_, ?_, ?_, ?_, ⟨?_, trivial⟩, ?_⟩, ⟨?_, ?_, ?_⟩, ?_⟩
  · rw [hstream]
    exact hbump.steady
  · intro d hd
    have hd : d ∈ p.findings := by simpa [bumpAs, h] using hd
    have := hp.complains d hd
    unfold source
    rw [hstream, hbump.source]
    exact this
  · unfold source
    rw [hstream]
    exact hbump.source
  · rw [hleaves, hstream, hbump.consumed]
    exact ⟨rfl, hlook, rfl⟩
  · rw [hstream, hbump.consumed]
    exact Nat.le_trans hp.steady.covers.le_start p.look.token.range.start_le_stop
  · rw [hleaves, hstream, hbump.settled]
    simp [look]
  · rw [hleaves, hstream, hbump.found]
    simp [look]
  · simp [bumpAs, h]
  · intro htext
    rw [← hp.kind_eq]
    exact hasText htext
  · exact linedAll_token fun hnowhere => nomatch hnowhere
  · rw [hstream]
    exact hbump.mode
  · simp [bumpAs, h]
  · simp [bumpAs, h]
  · have hcurrent : p.range.stop = p.look.token.range.stop := by
      unfold range look
      rw [hp.steady.current]
    simp [bumpAs, h, eventsAll, Draft.events, hcurrent, hp.kind_eq]

theorem takes_bump (hp : p.Ok) (h : p.isAtEnd = false) : Takes p [.token p.look false] p.bump :=
  takes_bumpAs hp h (by simp)

/-- Outside of markup, no token is what only markup holds. -/
theorem Ok.isOfMarkup_eq_false (hp : p.Ok) (hkind : p.stream.kind ≠ .eof)
    (hmode : p.stream.mode ≠ .markup) : p.look.token.kind.isOfMarkup = false := by
  have hlexical := hp.isLexical hkind
  rw [hp.kind_eq] at hkind hlexical
  refine Kind.isOfMarkup_eq_false.2 ⟨hp.steady.covers.significant hmode,
    (hp.steady.covers.isCut hkind).isMarker_eq_false hmode, ?_,
    Kind.marker?_of_isLexical hlexical⟩
  intro hmarkup
  rw [hmarkup] at hlexical
  cases hlexical

/-- A token that can be consumed stands where it may. -/
theorem placed_token (hp : p.Ok) (h : p.isAtEnd = false) (asText : Bool) (next : Look) :
    Placed p next [.token p.look asText] :=
  ⟨fun hmode => .token asText (hp.isOfMarkup_eq_false (kind_ne_eof h) hmode),
    fun hbound => linedAll_token fun _ => hbound.joins hp h⟩

/-- Consuming the current token reads it, unless it opens a parenthesis. -/
theorem reads_bumpAs (hp : p.Ok) (h : p.Consumes) {asText : Bool}
    (hasText : asText = true →
      p.stream.kind.mayBeFlawed = false ∧ p.stream.kind.isSpace = false) :
    Reads p [.token p.look asText] (p.bumpAs (if asText then .text else p.stream.kind)) :=
  (takes_bumpAs hp h.isAtEnd hasText).reads
    (fun _ => tidy_token rfl (hp.kind_eq ▸ h.ne_leftParen) hp.steady.covers.significant)
    (placed_token hp h.isAtEnd asText _)

theorem reads_bump (hp : p.Ok) (h : p.Consumes) : Reads p [.token p.look false] p.bump :=
  reads_bumpAs hp h (by simp)

theorem stream_bump (h : p.isAtEnd = false) : p.bump.stream = p.stream.bump := by
  simp [Parser.bump, bumpAs, h]

/-- Behind the current token stands what lay one token ahead. -/
theorem kind_bump (h : p.isAtEnd = false) : p.bump.stream.kind = p.stream.nth 1 := by
  rw [stream_bump h, Stream.nth_one (kind_ne_eof h)]

theorem nth_bump (h : p.isAtEnd = false) (hnext : p.bump.stream.kind ≠ .eof) (n : Nat) :
    p.bump.stream.nth (n + 1) = p.stream.nth (n + 2) := by
  rw [stream_bump h] at hnext ⊢
  exact (Stream.nth_succ (kind_ne_eof h) hnext n).symm

/-- At an end nothing is consumed. -/
theorem bump_of_isAtEnd (h : p.isAtEnd = true) : p.bump = p := by
  simp [Parser.bump, bumpAs, h]

theorem begins_token (p : Parser) (asText : Bool) : p.Begins [.token p.look asText] := rfl

/-! ## Diagnostics -/

theorem findings_report_ne_nil (p : Parser) (d : Diagnostic) : (p.report d).findings ≠ [] := by
  unfold report
  cases h : p.findings with
  | nil => simp
  | cons last rest => split <;> simp [h]

theorem reads_report (hp : p.Ok) {d : Diagnostic} (hd : d.Complains p.source) :
    Reads p [] (p.report d) := by
  unfold report
  split
  · -- One diagnostic at a place is enough.
    exact .refl hp
  · have hcomplains : ∀ d' ∈ d :: p.findings, d'.Complains p.source := by
      intro d' hd'
      rcases List.mem_cons.1 hd' with rfl | hd'
      · exact hd
      · exact hp.complains d' hd'
    have htakes : Takes p [] { p with findings := d :: p.findings } :=
      ⟨⟨⟨hp.steady, hcomplains⟩, rfl, rfl, Nat.le_refl _, rfl, rfl, List.suffix_cons _ _, trivial,
        linedAll_nil⟩, ⟨rfl, rfl, rfl⟩, by simp [eventsAll]⟩
    exact htakes.reads (fun _ => tidy_nil) .nil

/-! ## Modes and rules -/

/-- What changes with the mode. -/
structure Switched (p : Parser) (mode : Mode) (p' : Parser) : Prop where
  ok : p'.Ok
  source_eq : p'.source = p.source
  mode_eq : p'.stream.mode = mode
  consumed_eq : p'.stream.consumed = p.stream.consumed
  settled_eq : p'.stream.settled = p.stream.settled
  found_eq : p'.stream.found = p.stream.found

theorem switched (hp : p.Ok) (mode : Mode) (modes : List Mode) :
    Switched p mode { p with
      modes
      stream := if mode = p.stream.mode then p.stream else p.stream.relex mode } := by
  by_cases hmode : mode = p.stream.mode
  · rw [if_pos hmode]
    exact ⟨⟨hp.steady, hp.complains⟩, rfl, hmode.symm, rfl, rfl, rfl⟩
  · have hrelex := hp.steady.relex mode
    rw [if_neg hmode]
    refine ⟨⟨hrelex.steady, ?_⟩, hrelex.source, hrelex.mode, hrelex.consumed, hrelex.settled,
      hrelex.found⟩
    intro d hd
    have := hp.complains d hd
    unfold source at this ⊢
    rw [hrelex.source]
    exact this

theorem switched_enterMode (hp : p.Ok) (mode : Mode) : Switched p mode (p.enterMode mode) :=
  switched hp mode _

theorem Switched.enterBreakRule {mode : Mode} (h : Switched p mode p') (rule : BreakRule) :
    Switched p mode (p'.enterBreakRule rule) :=
  ⟨⟨h.ok.steady, h.ok.complains⟩, h.source_eq, h.mode_eq, h.consumed_eq, h.settled_eq, h.found_eq⟩

theorem Switched.left_eq {mode : Mode} (h : Switched p mode p') : p'.left = p.left := by
  unfold left
  rw [h.source_eq, h.consumed_eq]

theorem Switched.codeLook_eq {mode : Mode} (h : Switched p mode p') : p'.codeLook = p.codeLook :=
  codeLook_congr h.source_eq h.consumed_eq

/-- What was read after a change of the mode, and the token in front of the change, was taken when the
mode is changed back, and it is tidy. Of markup it has to be known how it ends. -/
theorem Spans.switchBack {mode : Mode} {drafts : List Draft} {p₀ : Parser}
    (hfront : Reads p₀ [.token p₀.look false] p) (hsolid : p₀.look.token.kind.isSpace = false)
    (h : Spans (p.enterMode mode) drafts p')
    (hends : mode ≠ .markup ∨ (p'.findings = [] → EndsPlainly drafts)) {p'' : Parser}
    (h' : Switched p' p.stream.mode p'')
    (hmodes : p''.modes = p.modes) (hrules : p''.breakRules = p'.breakRules)
    (hevents : p''.events = p'.events) (hfindings : p''.findings = p'.findings) :
    Takes p₀ ([.token p₀.look false] ++ drafts) p'' ∧
      (p''.findings = [] → Tidy p₀.stream.mode ([.token p₀.look false] ++ drafts)) := by
  -- The looks in between were taken in the other mode, at the places that they still have.
  have hs := switched_enterMode hfront.ok mode
  have htakes : Takes p drafts p'' := by
    refine ⟨⟨h'.ok, ?_, ?_, ?_, ?_, ?_, ?_, h.proper, ?_⟩, ⟨h'.mode_eq, hmodes, ?_⟩, ?_⟩
    · rw [h'.source_eq, h.source_eq, hs.source_eq]
    · have hpath := h.path
      rw [hs.source_eq, hs.consumed_eq] at hpath
      rw [h'.consumed_eq]
      exact hpath
    · rw [h'.consumed_eq, ← hs.consumed_eq]
      exact h.consumed_le
    · rw [h'.settled_eq, h.settled_eq, hs.settled_eq]
    · rw [h'.found_eq, h.found_eq, hs.found_eq]
    · rw [hfindings]
      exact h.findings
    · have hlined := h.lined
      rw [hs.source_eq] at hlined
      rwa [h'.codeLook_eq]
    · rw [hrules, h.breakRules_eq]
      rfl
    · rw [hevents, h.events_eq]
      rfl
  refine ⟨hfront.toTakes.trans htakes, fun hclean => ?_⟩
  have hfirst := hfront.tidy (htakes.clean hclean)
  rw [hfindings] at hclean
  have htidy := h.tidy hclean
  refine ⟨⟨trivial, htidy.sound⟩, ?_, fun hne => (hfirst.ends hne).append ?_, hfirst.keeps.1,
    htidy.keeps.mono ?_⟩
  · rw [kinds_append]
    exact hfirst.parens.append htidy.parens
  · rcases hends with hmode | hends
    · exact htidy.ends (by rwa [hs.mode_eq])
    · exact hends hclean
  · rw [hsolid]
    rintro ⟨⟩

end Parser

namespace Parse

open TypstFormat.Parser

variable {p p' : Parser} {drafts : List Draft}

/-! ## The actions -/

theorem bump_returns (hp : p.Ok) (h : p.Consumes) :
    Returns bump p fun _ p' => Reads p [.token p.look false] p' :=
  .of_modify (reads_bump hp h)

/-- The current token is read, and what lay ahead is current now, unless the code ends there. -/
theorem bump_returns_kind (hp : p.Ok) (h : p.Consumes) :
    Returns bump p fun _ p' =>
      Reads p [.token p.look false] p' ∧ p'.stream.kind = p.stream.nth 1 :=
  .of_modify ⟨reads_bump hp h, kind_bump h.isAtEnd⟩

/-- At an end nothing is consumed. -/
theorem bump_returns_some (hp : p.Ok) (hkind : p.stream.kind ≠ .leftParen) :
    Returns bump p fun _ p' => ∃ drafts, Reads p drafts p' := by
  cases h : p.isAtEnd with
  | false => exact (bump_returns hp ⟨h, hkind⟩).mono fun _ _ h => ⟨_, h⟩
  | true =>
    refine .of_modify ⟨[], ?_⟩
    rw [bump_of_isAtEnd h]
    exact .refl hp

theorem eat_present_returns {kind : Kind} (hat : p.isAt kind = true) :
    Returns (eat kind) p fun found p' => found = true ∧ p' = p.bump := by
  refine .ask ?_
  rw [hat]
  exact .modified (.pure ⟨rfl, rfl⟩)

theorem eat_absent_returns {kind : Kind} (hat : p.isAt kind = false) :
    Returns (eat kind) p fun found p' => found = false ∧ p' = p := by
  refine .ask ?_
  rw [hat]
  exact .pure ⟨rfl, rfl⟩

theorem eat_returns (hp : p.Ok) {kind : Kind} (hkind : kind.isOrdinary = true) :
    Returns (eat kind) p fun found p' => ∃ drafts, Reads p drafts p' ∧ found = p.isAt kind ∧
      (found = true → kinds drafts = [kind] ∧ p.Begins drafts) ∧
      (found = false → p' = p ∧ drafts = []) := by
  cases hat : p.isAt kind with
  | true =>
    have hbreak : kind ≠ .breakEnd := by
      rintro rfl
      cases hkind
    refine (eat_present_returns hat).mono ?_
    rintro _ _ ⟨rfl, rfl⟩
    have hread := reads_bump hp (Consumes.of_isAt hkind hat)
    have hkinds := hp.kinds_look_of_isAt hbreak hat
    exact ⟨_, hread, rfl, fun _ => ⟨hkinds, begins_token p false⟩, by simp⟩
  | false =>
    refine (eat_absent_returns hat).mono ?_
    rintro _ _ ⟨rfl, rfl⟩
    exact ⟨[], .refl hp, rfl, by simp, fun _ => ⟨rfl, rfl⟩⟩

theorem report_returns (hp : p.Ok) {d : Diagnostic} (hd : d.Complains p.source) :
    Returns (report d) p fun _ p' => Reads p [] p' ∧ p'.findings ≠ [] :=
  .of_modify ⟨reads_report hp hd, findings_report_ne_nil p d⟩

/-- The token that was required is read, or else there is a diagnostic. -/
def ReadsToken (kind : Kind) (p : Parser) (found : Bool) (p' : Parser) : Prop :=
  ∃ drafts, Reads p drafts p' ∧ found = p.isAt kind ∧
    (found = true → kinds drafts = [kind] ∧ p.Begins drafts) ∧
    (found = false → drafts = [] ∧ p'.findings ≠ [])

/-- Without diagnostics the token was found. -/
theorem eq_true_of_clean {found : Bool} (hfalse : found = false → drafts = [] ∧ p'.findings ≠ [])
    (hclean : p'.findings = []) : found = true := by
  cases found with
  | true => rfl
  | false => exact absurd hclean (hfalse rfl).2

private theorem require_returns (hp : p.Ok) {kind : Kind} (hkind : kind.isOrdinary = true)
    {complain : Parse Unit}
    (hcomplain : Returns complain p fun _ p' => Reads p [] p' ∧ p'.findings ≠ []) :
    Returns (do
        if ← eat kind then
          return true
        else
          complain
          return false) p (ReadsToken kind p) := by
  refine .bind (eat_returns hp hkind) ?_
  rintro found p' ⟨ds, h, hfound, htrue, hfalse⟩
  cases found with
  | true => exact .pure ⟨ds, h, hfound, htrue, by simp⟩
  | false =>
    obtain ⟨rfl, rfl⟩ := hfalse rfl
    refine .bind hcomplain ?_
    rintro _ p'' ⟨h', hne⟩
    exact .pure ⟨[], h', hfound, by simp, fun _ => ⟨rfl, hne⟩⟩

theorem expect_returns (hp : p.Ok) {kind : Kind} (hkind : kind.isOrdinary = true)
    (description : Option String) :
    Returns (expect kind description) p (ReadsToken kind p) :=
  require_returns hp hkind
    (.ask (report_returns hp (Issue.complains_report rfl hp.errorRange_stop_le _)))

theorem expectClosing_returns (hp : p.Ok) {kind : Kind} (hkind : kind.isOrdinary = true)
    {opening : Text.Range} (hopening : opening.stop ≤ p.source.length) :
    Returns (expectClosing opening kind) p (ReadsToken kind p) :=
  require_returns hp hkind (report_returns hp (Issue.complains_report rfl hopening _))

/-- Where the token is not current, it is complained about. -/
theorem expect_absent_returns (hp : p.Ok) {kind : Kind} (hat : p.isAt kind = false)
    (description : Option String) :
    Returns (expect kind description) p fun found p' =>
      found = false ∧ Reads p [] p' ∧ p'.findings ≠ [] := by
  refine .bind (eat_absent_returns hat) ?_
  rintro _ _ ⟨rfl, rfl⟩
  refine .ask (.bind (report_returns hp (Issue.complains_report rfl hp.errorRange_stop_le _)) ?_)
  exact fun _ _ h => .pure ⟨rfl, h⟩

/-- An opening parenthesis is taken. -/
theorem expectOpening_returns (hp : p.Ok) (hat : p.isAt .leftParen = true) :
    Returns (expect .leftParen) p fun _ p' => Takes p [.token p.look false] p' := by
  refine .bind (eat_present_returns hat) ?_
  rintro _ _ ⟨rfl, rfl⟩
  exact .pure (takes_bump hp (isAtEnd_of_isAt rfl hat))

theorem reportMissingExpression_returns (hp : p.Ok) :
    Returns reportMissingExpression p fun _ p' => Reads p [] p' ∧ p'.findings ≠ [] :=
  .ask (report_returns hp (Issue.complains_report rfl hp.position_le _))

theorem reportMissingSeparator_returns (hp : p.Ok) :
    Returns reportMissingSeparator p fun _ p' => Reads p [] p' ∧ p'.findings ≠ [] :=
  .ask (report_returns hp (Issue.complains_report rfl hp.position_le _))

theorem reportUnexpected_returns (hp : p.Ok) :
    Returns reportUnexpected p fun _ p' => Reads p [] p' ∧ p'.findings ≠ [] :=
  .get (report_returns hp (Issue.complains_report rfl hp.range_stop_le _))

/-- What was read in another mode was taken, when the mode is left. -/
theorem leaveMode_returns {mode : Mode} {p₀ : Parser}
    (hfront : Reads p₀ [.token p₀.look false] p) (hsolid : p₀.look.token.kind.isSpace = false)
    (h : Spans (p.enterMode mode) drafts p')
    (hends : mode ≠ .markup ∨ (p'.findings = [] → EndsPlainly drafts)) :
    Returns leaveMode p' fun _ p'' =>
      Takes p₀ ([.token p₀.look false] ++ drafts) p'' ∧
        (p''.findings = [] → Tidy p₀.stream.mode ([.token p₀.look false] ++ drafts)) ∧
        p''.findings = p'.findings ∧ p''.codeLook = p'.codeLook := by
  have hmodes : p'.modes = p.stream.mode :: p.modes := h.modes_eq
  refine .get ?_
  rw [hmodes]
  have hback := switched h.ok p.stream.mode p.modes
  obtain ⟨htakes, htidy⟩ := h.switchBack hfront hsolid hends hback rfl rfl rfl rfl
  exact .of_set ⟨htakes, htidy, rfl, hback.codeLook_eq⟩

/-- What was read under another rule was read, perhaps across lines, when the rule is left. -/
theorem leaveBreakRule_returns {rule : BreakRule} (h : Spans (p.enterBreakRule rule) drafts p') :
    Returns leaveBreakRule p' fun _ p'' =>
      Spans p drafts p'' ∧ p'' = { p' with breakRules := p.breakRules } := by
  have hrules : p'.breakRules = (rule, p.position) :: p.breakRules := h.breakRules_eq
  refine .get ?_
  rw [hrules]
  refine .of_set ⟨?_, rfl⟩
  exact ⟨⟨⟨⟨h.ok.steady, h.ok.complains⟩, h.source_eq, h.path, h.consumed_le, h.settled_eq,
    h.found_eq, h.findings, h.proper, h.lined⟩, ⟨h.mode_eq, h.modes_eq, rfl⟩, h.events_eq⟩, h.tidy,
    h.bare⟩

theorem advance_returns {progress : Progress} {f : Progress → Parse β} {Q : β → Parser → Prop}
    (h : ∀ last ∈ progress.last, last < p.position)
    (hf : Returns (f { last := some p.position }) p Q) :
    Returns (advance progress >>= f) p Q := by
  -- The parser has moved on since the last round, so the check does not fail.
  have hall : (progress.advance p).1 = true := by
    unfold Progress.advance
    cases hlast : progress.last with
    | none => rfl
    | some last => simpa using h last hlast
  have hadvance : Returns (advance progress) p fun progress' p' =>
      progress' = { last := some p.position } ∧ p' = p := by
    refine .get ?_
    show Returns (if (progress.advance p).1 = true then _ else _) p _
    rw [if_pos hall]
    exact .pure ⟨rfl, rfl⟩
  refine .bind hadvance ?_
  rintro _ _ ⟨rfl, rfl⟩
  exact hf

end Parse

end TypstFormat
