import TypstFormat.Grammar.Block
import TypstFormat.Proofs.Grammar.Rules

/-!
# What blocks read

Blocks of code and of content, equations, and the code behind a hash.

## Key results

- `embeddedCode_returns`, `equation_returns`, `contentBlock_returns`, `codeBlock_returns`
- `math_returns`, `code_returns`: the languages, which stop only where they are told to
-/

namespace TypstFormat.Grammar

open Draft Parse TypstFormat.Parser

variable {rules : Rules} {n : Nat} {p p' : Parser}

/-- Where the rules for line breaks let the code go on, it does not end with the line. -/
theorem not_bound_of_plain (hmode : p.stream.mode ≠ .markup) (hplain : p.Plain) : ¬p.Bound := by
  rintro (hmarkup | ⟨entered, rules, hrules, _⟩)
  · exact hmode hmarkup
  · have hrule := hplain.resolve_left hmode (.ends, entered) (by rw [hrules]; rfl)
    cases hrule

/-- What is bound in the code behind a hash: the first token of it follows directly. -/
theorem bound_enterBreakRule (hp : p.Ok) (h : p.stream.afterTrivia = false) :
    (p.enterBreakRule .ends).Bound := by
  refine .inr ⟨_, _, rfl, ?_⟩
  rw [hp.steady.afterTrivia, Bool.not_eq_false', List.isEmpty_iff] at h
  have htile := hp.steady.covers.tile
  rw [h] at htile
  show p.stream.position ≤ p.stream.consumed
  rw [hp.steady.position_eq]
  exact Nat.le_of_eq htile.symm

/-- The code behind a hash is read in its own mode and under its own rule, which are left again. It
ends with the line, but for what stands between delimiters. -/
theorem embeddedCode_returns (hr : rules.Adequate n) (hp : p.Ok) (hat : p.isAt .hash = true)
    (hleft : p.left ≤ n) :
    Returns (embeddedCode rules) p fun _ p' =>
      ∃ ds, Reads p ds p' ∧ p.Begins ds ∧ Bare ds ∧ LinedAll p.source .outside p'.codeLook ds := by
  have hsolid := hp.isSpace_of_isAt hat rfl
  have hcurrent := Consumes.of_isAt rfl hat
  refine .bind (bump_returns hp hcurrent) fun _ p₁ hbump => ?_
  have hbegins := begins_token p false
  have hleft₁ := Nat.lt_of_lt_of_le (hbump.left_lt hp hbegins) hleft
  have hswitch := (switched_enterMode hbump.ok .code).enterBreakRule .ends
  have hbound := bound_enterBreakRule (switched_enterMode hbump.ok .code).ok
  refine .modified (.modified (.get ?_))
  generalize hp₃ : (p₁.enterMode .code).enterBreakRule .ends = p₃ at hswitch hbound
  have hleft₃ : p₃.left < n := hswitch.left_eq ▸ hleft₁
  extract_lets next isStatement nextBehind
  -- Whatever is read in between, the rule and the mode are left at the end.
  have hnext : ∀ u p', (∃ ds, Reads p₃ ds p' ∧ LinedAll p₃.source .nowhere p'.codeLook ds) →
      Returns (next u) p' fun _ p' =>
        ∃ ds, Reads p ds p' ∧ p.Begins ds ∧ Bare ds ∧ LinedAll p.source .outside p'.codeLook ds := by
    rintro _ p₄ ⟨ds, h, hlined⟩
    have hbare := (Bare.token false (hp.isOfMarkup_of_isAt hat rfl)).append
      (h.bare (by simp [hswitch.mode_eq]))
    rw [hswitch.source_eq, hbump.source_eq] at hlined
    subst hp₃
    refine .bind (leaveBreakRule_returns h.toSpans) ?_
    rintro _ _ ⟨h₅, rfl⟩
    refine (leaveMode_returns hbump hsolid h₅ (.inl (by simp))).mono ?_
    rintro _ p₆ ⟨htakes, htidy, _, hlook₆⟩
    rw [← show p₆.codeLook = p₄.codeLook from hlook₆] at hlined
    refine ⟨_, htakes.reads htidy ⟨fun _ => hbare, fun hbound => ?_⟩, hbegins.append _, hbare, ?_⟩
    · exact linedAll_append.2 ⟨linedAll_token fun _ => hbound.joins hp hcurrent.isAtEnd, hlined⟩
    · exact linedAll_append.2 ⟨linedAll_token fun hnowhere => (nomatch hnowhere), hlined.outside⟩
  split
  · refine .bind (reportMissingExpression_returns hswitch.ok) ?_
    rintro _ p₄ ⟨h, _⟩
    exact hnext () _ ⟨_, h, linedAll_nil⟩
  · rename_i hstarts
    have hbound : p₃.Bound := by
      subst hp₃
      refine hbound (Bool.eq_false_iff.2 fun htrivia => hstarts ?_)
      have htrivia : ((p₁.enterMode .code).enterBreakRule .ends).stream.afterTrivia = true := htrivia
      simp [htrivia]
    refine .bind (hr.expression hswitch.ok hleft₃ true 0) ?_
    rintro _ p₄ ⟨ds, h, _⟩
    have hbehind : ∀ ended p', (∃ ds, Reads p₃ ds p') →
        Returns (nextBehind ended) p' fun _ p' =>
          ∃ ds, Reads p ds p' ∧ p.Begins ds ∧ Bare ds ∧
            LinedAll p.source .outside p'.codeLook ds := by
      rintro ended p₅ ⟨ds₅, h₅⟩
      unfold nextBehind
      split
      · refine .ask ?_
        split
        · exact hnext () _ ⟨_, h₅, h₅.joined hbound⟩
        · refine .bind (reportMissingSeparator_returns h₅.ok) ?_
          rintro _ p₆ ⟨h₆, _⟩
          exact hnext () _ ⟨_, h₅.trans h₆, (h₅.trans h₆).joined hbound⟩
      · exact hnext () _ ⟨_, h₅, h₅.joined hbound⟩
    refine .ask ?_
    split
    · refine .bind (eat_returns h.ok rfl) ?_
      rintro _ p₅ ⟨_, h₅, _⟩
      exact hbehind _ _ ⟨_, h.trans h₅⟩
    · exact .pure_bind (hbehind false _ ⟨_, h⟩)

/-! ## Math -/

/-- Elements of math are read one after another in a node. -/
def MathListing (p : Parser) (node : Opening) (progress : Progress) (p' : Parser) : Prop :=
  (∃ drafts, Inside p none drafts node p' ∧ LinedAll p.source .outside p'.codeLook drafts) ∧
    Behind progress p'

/-- An element of math that begins with the current token is added. -/
theorem round_math {p p₁ p₂ : Parser} {node : Opening} {drafts more : List Draft}
    (h : Inside p none drafts node p₁) (hlined : LinedAll p.source .outside p₁.codeLook drafts)
    (hread : Reads p₁ more p₂) (hbegins : p₁.Begins more)
    (hmore : LinedAll p₁.source .outside p₂.codeLook more) :
    MathListing p node { last := some p₁.position } p₂ ∧ p₂.left < p₁.left := by
  rw [h.source_eq] at hmore
  exact ⟨⟨⟨_, h.read hread, linedAll_append.2 ⟨hlined.mono _ (hread.joins_front h.ok), hmore⟩⟩,
    hread.behind h.ok hbegins⟩, hread.left_lt h.ok hbegins⟩

/-- A node of math is finished. -/
theorem finishMath_returns {node : Opening} {drafts : List Draft} (h : Inside p none drafts node p')
    (hmode : p.stream.mode ≠ .markup) (hplain : p.Plain)
    (hlined : LinedAll p.source .outside p'.codeLook drafts) :
    Returns (node.finish .math) p' fun _ p'' =>
      Reads p [.node .math false drafts] p'' ∧ Rewrites p' p'' := by
  have hbare := h.placed.bare hmode
  refine (finishAs_returns .math h.toWithin rfl (fun hclean => ?_)
    (lined_node.2 ⟨hlined, by rintro (⟨⟨⟩⟩ | ⟨⟨⟩⟩)⟩) ⟨fun _ => ?_, fun hbound => ?_⟩).mono
    fun _ _ h => ⟨h.1, h.2.2⟩
  · have htidy := h.tidy hclean
    exact tidy_node _ rfl (htidy.formed trivial) htidy.sound htidy.ends htidy.keeps
  · exact .node rfl (hbare.arranged (by simp) rfl) hbare.neat
  · exact absurd hbound (not_bound_of_plain hmode hplain)

/-- Math ends at one of the stops, or at the end of the source. -/
theorem math_returns (hr : rules.Adequate n) (hp : p.Ok) (hmode : p.stream.mode = .math)
    (hplain : p.Plain) (hleft : p.left ≤ n) (stops : List Kind) :
    Returns (math rules stops) p fun _ p' => (∃ children, Reads p [.node .math false children] p') ∧
      (p'.isAt .eof = true ∨ p'.isAtAny stops = true) := by
  refine start_returns hp fun node hnode => ?_
  have hstart : MathListing p node {} p.started :=
    ⟨⟨[], hnode, linedAll_nil⟩, behind_start _⟩
  refine .bind (R := fun _ p' => (∃ ds, Inside p none ds node p' ∧
    LinedAll p.source .outside p'.codeLook ds) ∧ (p'.isAt .eof = true ∨ p'.isAtAny stops = true))
    (.loop (MathListing p node) hstart ?_) ?_
  · rintro progress p₁ ⟨⟨ds, h, hlined⟩, hbehind⟩
    refine .ask (.ask ?_)
    split
    · rename_i hstop
      exact .pure ⟨⟨ds, h, hlined⟩, Bool.or_eq_true_iff.1 hstop⟩
    · rename_i hstop
      -- The end of the source is the one place at which no token can be consumed.
      have heof : p₁.isAt .eof = false :=
        Bool.eq_false_iff.2 fun h => hstop (Bool.or_eq_true_iff.2 (.inl h))
      have hend : p₁.isAtEnd = false := by
        rw [(hplain.of_agrees h.toAgrees).isAtEnd_eq h.ok, heof]
      have hcurrent : p₁.Consumes :=
        ⟨hend, h.ok.kind_ne_leftParen (by rw [h.mode_eq, hmode]; simp)⟩
      refine advance_returns hbehind (.ask ?_)
      split
      · rename_i hat
        have hleft₁ := Nat.le_trans h.left_le hleft
        refine .bind (embeddedCode_returns hr h.ok hat hleft₁) ?_
        rintro _ p₂ ⟨_, h₂, hbegins, -, hmore⟩
        exact .pure (round_math h hlined h₂ hbegins hmore)
      · refine .bind (bump_returns h.ok hcurrent) fun _ p₂ h₂ => ?_
        exact .pure (round_math h hlined h₂ (begins_token p₁ false)
          (linedAll_token fun hnowhere => nomatch hnowhere))
  · rintro _ p₁ ⟨⟨ds, h, hlined⟩, hstop⟩
    refine (finishMath_returns h (by simp [hmode]) hplain hlined).mono ?_
    rintro closed p₂ ⟨h₂, hre⟩
    refine ⟨⟨ds, h₂⟩, ?_⟩
    simpa [Parser.isAt, Parser.isAtAny, hre.current_eq] using hstop

/-- Math between dollar signs is read in its own mode. -/
theorem equation_returns (hr : rules.Adequate n) (hp : p.Ok) (hat : p.isAt .dollar = true)
    (hleft : p.left ≤ n) :
    Returns (equation rules) p fun _ p' => ReadsNeat .equation p p' := by
  have hcurrent := Consumes.of_isAt rfl hat
  refine start_returns hp fun node hnode => .ask ?_
  refine .bind (bump_returns hnode.ok hcurrent.started) fun _ p₁ hbump => ?_
  have hbegins := begins_token p false
  have h₁ := hnode.read hbump
  have hleft₁ := Nat.lt_of_lt_of_le (h₁.left_lt hp hbegins) hleft
  have hswitch := (switched_enterMode hbump.ok .math).enterBreakRule .ignored
  have hplain := plain_enterBreakRule (p₁.enterMode .math)
  refine .modified (.modified ?_)
  generalize hp₂ : (p₁.enterMode .math).enterBreakRule .ignored = p₂ at hswitch hplain
  have hleft₂ : p₂.left < n := hswitch.left_eq ▸ hleft₁
  refine .bind (math_returns hr hswitch.ok hswitch.mode_eq hplain (Nat.le_of_lt hleft₂) _) ?_
  rintro _ p₃ ⟨⟨children, h₃⟩, _⟩
  have hopening : p.started.range.stop ≤ p₃.source.length := by
    rw [h₃.source_eq, hswitch.source_eq, h₁.source_eq]
    exact hp.range_stop_le
  refine .bind (expectClosing_returns h₃.ok rfl hopening) ?_
  rintro _ p₄ ⟨ds₄, h₄, _, htrue, hfalse⟩
  have hmath := (h₃.trans h₄).bare (by simp [hswitch.mode_eq])
  have hbare := (Bare.token false (hp.isOfMarkup_of_isAt hat rfl)).append hmath
  subst hp₂
  refine .bind (leaveBreakRule_returns (h₃.trans h₄).toSpans) ?_
  rintro _ _ ⟨h₅, rfl⟩
  have hsolid := hp.isSpace_of_isAt hat rfl
  refine .bind (leaveMode_returns hbump hsolid h₅ (.inl (by simp))) ?_
  rintro _ p₆ ⟨htakes, htidy, hfindings₆, _⟩
  have henclosed := hnode.span ⟨htakes, htidy, fun _ => hbare⟩
  have hbegins := hbegins.append ([.node .math false children] ++ ds₄)
  refine (finishEnclosed_returns .equation henclosed rfl
    (hbegins.joins hp hcurrent.isAtEnd _) fun hclean => ?_).mono fun _ _ h =>
      ⟨_, h, hbegins, (hbare.enclosed rfl _).neat⟩
  rw [hfindings₆] at hclean
  have hclosing := (htrue (eq_true_of_clean hfalse hclean)).1
  have hbetween : Between .dollar .dollar
      (kinds ([.token p.look false] ++ ([.node .math false children] ++ ds₄))) :=
    between_of_kinds (hp.kinds_look_of_isAt (by simp) hat) hclosing
  exact shape_of_between rfl hbetween

/-! ## Content blocks -/

/-- Markup between two delimiters, the second of which may be missing. -/
theorem neatAll_delimited {kind : Kind} {opening : Look} {children closing : List Draft}
    {wraps : Bool} (hkind : kind.isCommon = true) (hholds : kind.holdsMarkup = true)
    (hopening : opening.token.kind.isOfMarkup = false)
    (hmarkup : NeatAll [.node .markup false children]) (hclosing : Bare closing)
    (hstarts : kind ≠ .contentBlock → Kind.LineStarts false (siblings children)) :
    NeatAll [.node kind wraps
      ([.token opening false] ++ ([.node .markup false children] ++ closing))] := by
  obtain ⟨-, hne, -, hmarker⟩ := Kind.isCommon_iff.1 hkind
  refine neatAll_node (arranged_of_kinds hne hmarker ?_ (by simp [hholds]) ?_) ?_
  · simp only [kinds_append, List.forall_mem_append]
    refine ⟨List.forall_mem_singleton.2 ?_, List.forall_mem_singleton.2 ⟨rfl, rfl⟩, fun own hown => ?_⟩
    · obtain ⟨htrivia, hmark, -⟩ := Kind.isOfMarkup_eq_false.1 hopening
      exact ⟨htrivia, hmark⟩
    · obtain ⟨htrivia, hmark, -⟩ := Kind.isOfMarkup_eq_false.1 (hclosing.plain own hown)
      exact ⟨htrivia, hmark⟩
  · -- The only markup is the one between the delimiters, as the closing one is none.
    intro hcontent wraps inner hmem
    rcases List.mem_append.1 hmem with hmem | hmem
    · cases List.mem_singleton.1 hmem
    · rcases List.mem_append.1 hmem with hmem | hmem
      · cases List.mem_singleton.1 hmem
        exact hstarts hcontent
      · have hown : Kind.markup ∈ kinds closing :=
          List.mem_map.2 ⟨_, List.mem_filter.2 ⟨hmem, rfl⟩, rfl⟩
        exact absurd rfl (Kind.isOfMarkup_eq_false.1 (hclosing.plain _ hown)).2.2.1
  · exact (neatAll_append _ _).2 ⟨neatAll_token _ _, (neatAll_append _ _).2 ⟨hmarkup, hclosing.neat⟩⟩

theorem contentBlock_returns (hr : rules.Adequate n) (hp : p.Ok)
    (hat : p.isAt .leftBracket = true) (hleft : p.left ≤ n) :
    Returns (contentBlock rules) p fun _ p' => ReadsNeat .contentBlock p p' := by
  have hcurrent := Consumes.of_isAt rfl hat
  refine start_returns hp fun node hnode => .ask ?_
  refine .bind (bump_returns hnode.ok hcurrent.started) fun _ p₁ hbump => ?_
  have hbegins := begins_token p false
  have h₁ := hnode.read hbump
  have hleft₁ := Nat.lt_of_lt_of_le (h₁.left_lt hp hbegins) hleft
  have hswitch := switched_enterMode hbump.ok .markup
  refine .modified ?_
  refine .bind (hr.markup hswitch.ok hswitch.mode_eq (hswitch.left_eq ▸ hleft₁) _ _ _) ?_
  rintro _ p₂ ⟨children, h₂, hneat, -, -⟩
  have hopening : p.started.range.stop ≤ p₂.source.length := by
    rw [h₂.source_eq, hswitch.source_eq, h₁.source_eq]
    exact hp.range_stop_le
  refine .bind (expectClosing_returns h₂.ok rfl hopening) ?_
  rintro _ p₃ ⟨ds₃, h₃, _, htrue, hfalse⟩
  have hneat : NeatAll [.node .contentBlock false
      ([.token p.look false] ++ ([.node .markup false children] ++ ds₃))] :=
    neatAll_delimited rfl rfl (hp.isOfMarkup_of_isAt hat rfl) hneat
      (.of_found h₃.proper htrue hfalse rfl rfl) fun hne => absurd rfl hne
  -- The bracket that closes the block is no trivia, whatever stands in front of it.
  have hends (hclean : p₃.findings = []) : EndsPlainly ([.node .markup false children] ++ ds₃) := by
    have hclosing := (htrue (eq_true_of_clean hfalse hclean)).1
    have hlast : (kinds ([.node .markup false children] ++ ds₃)).getLast? = some .rightBracket := by
      rw [kinds_append, hclosing, List.getLast?_concat]
    exact endsPlainly_of_kinds (h₂.trans h₃.toSpans).proper hlast rfl (by simp) rfl
  have hsolid := hp.isSpace_of_isAt hat rfl
  refine .bind (leaveMode_returns hbump hsolid (h₂.trans h₃.toSpans) (.inr hends)) ?_
  rintro _ p₄ ⟨htakes, htidy, hfindings, _⟩
  have hwithin := hnode.take htakes
  have hbegins : p.Begins ([.token p.look false] ++ ([.node .markup false children] ++ ds₃)) :=
    hbegins.append _
  have hlined {breaks : Breaks} : Lined p.source breaks p₄.codeLook (.node .contentBlock false
      ([.token p.look false] ++ ([.node .markup false children] ++ ds₃))) :=
    lined_of_isCommon rfl hwithin.lined (fun _ hopen => by cases hopen) _
  refine (finishAs_returns .contentBlock hwithin rfl (fun hclean => ?_) hlined
    ⟨fun _ => ⟨hneat, List.forall_mem_singleton.2 rfl⟩, fun hbound => ?_⟩).mono
      fun _ _ h => ⟨_, h.1, hbegins, hneat⟩
  · have htidy := htidy hclean
    rw [hfindings] at hclean
    have hclosing := (htrue (eq_true_of_clean hfalse hclean)).1
    have hbetween : Between .leftBracket .rightBracket
        (kinds ([.token p.look false] ++ ([.node .markup false children] ++ ds₃))) :=
      between_of_kinds (hp.kinds_look_of_isAt (by simp) hat) hclosing
    exact tidy_node _ rfl (htidy.formed (shape_of_between rfl hbetween)) htidy.sound htidy.ends
      htidy.keeps
  · exact linedAll_node (fun _ => hbegins.joins hp hcurrent.isAtEnd _ hbound) hlined

/-! ## Code -/

/-- Statements of code are set apart, and behind the last one comes a semicolon, or a line or the code
ends. -/
structure IsSequence (stops : List Kind) (drafts : List Draft) (p : Parser) : Prop where
  isCode : IsCode drafts
  ended : ∀ last ∈ (present drafts).getLast?, last.kind = .semicolon ∨ ¬p.look.Joins ∨
    p.isAtEnd = true ∨ p.isAtAny stops = true

theorem isSequence_nil {stops : List Kind} : IsSequence stops [] p :=
  ⟨⟨.nil, fun _ h => nomatch h⟩, fun _ h => nomatch h⟩

/-- The first of the drafts begins with the current token. -/
def StartsHere (p : Parser) (drafts : List Draft) : Prop :=
  ∃ first rest, present drafts = first :: rest ∧ first.leaves.head? = some p.look

/-- Where the code goes on, the next statement is set apart. -/
theorem IsSequence.append {stops : List Kind} {drafts more : List Draft}
    (h : IsSequence stops drafts p) (hend : p.isAtEnd = false) (hstop : p.isAtAny stops = false)
    (hmore : IsSequence stops more p') (hstarts : StartsHere p more) :
    IsSequence stops (drafts ++ more) p' := by
  obtain ⟨first, rest, hpresent, hfirst⟩ := hstarts
  refine ⟨⟨?_, ?_⟩, ?_⟩
  · rw [present_append, List.isChain_append]
    refine ⟨h.isCode.apart, hmore.isCode.apart, fun last hlast next hnext => ?_⟩
    rw [hpresent] at hnext
    obtain rfl : first = next := Option.some.inj hnext
    rcases h.ended last hlast with hkind | hjoins | hend' | hstop'
    · exact .inl hkind
    · exact .inr (.inr ⟨p.look, hfirst, hjoins⟩)
    · rw [hend] at hend'
      cases hend'
    · rw [hstop] at hstop'
      cases hstop'
  · rw [present_append]
    exact List.forall_mem_append.2 ⟨h.isCode.begin, hmore.isCode.begin⟩
  · rw [present_append, List.getLast?_append_of_ne_nil _ (by rw [hpresent]; simp)]
    exact hmore.ended

/-- A line break by which the code ends stands in front of the current token. -/
theorem not_joins_of_breakEnd (hp : p.Ok) (h : p.current = .breakEnd) : ¬p.look.Joins := by
  intro hjoins
  have hbreak : p.stream.afterLineBreak = false := by
    rw [hp.steady.afterLineBreak]
    exact List.any_eq_false.2 fun piece hpiece => by simp [hjoins piece hpiece]
  refine hp.kind_ne_breakEnd ?_
  unfold Parser.current at h
  split at h
  · exact h
  · rwa [if_neg (by simp [hbreak])] at h

/-- Where a rule ends the code, a line ends, or the code ends without the rule as well. -/
theorem ended_of_rule (hp : p.Ok) (hok : p'.Ok) (hplain : p'.Plain) (hstream : p'.stream = p.stream)
    {stops : List Kind} (h : (p.isAtEnd || p.isAtAny stops) = true) :
    ¬p'.look.Joins ∨ p'.isAtEnd = true ∨ p'.isAtAny stops = true := by
  by_cases hbreak : p.current = .breakEnd
  · have hlook : p'.look = p.look := congrArg Stream.look hstream
    rw [hlook]
    exact .inl (not_joins_of_breakEnd hp hbreak)
  · have hcurrent : p'.current = p.current := by
      rw [hplain.current_eq hok, hstream, kind_eq_current hbreak]
    unfold Parser.isAtEnd Parser.isAtAny at *
    rw [hcurrent]
    exact .inr (Bool.or_eq_true_iff.1 h)

/-- A statement was read that begins with the current token. -/
def ReadsStatement (stops : List Kind) (p : Parser) (drafts : List Draft) (p' : Parser) : Prop :=
  p.Begins drafts ∧ (p'.findings = [] → IsSequence stops drafts p' ∧ StartsHere p drafts)

/-- One draft among void ones begins with the token that all of them begin with. -/
theorem head?_of_present {drafts : List Draft} {draft : Draft}
    (hdrafts : present drafts = [draft]) (hbegins : p.Begins drafts) :
    draft.leaves.head? = some p.look := by
  unfold Begins at hbegins
  rwa [← leavesAll_present, hdrafts, leavesAll_singleton] at hbegins

/-- In code, the current token is no trivia. -/
theorem isTrivia_look (hp : p.Ok) (hmode : p.stream.mode ≠ .markup) :
    p.look.token.kind.isTrivia = false :=
  hp.steady.covers.significant hmode

/-- One statement, which is a semicolon, or behind which a line or the code ends. -/
theorem readsStatement_of_present {stops : List Kind} {drafts : List Draft} {draft : Draft}
    (hp : p.Ok) (hmode : p.stream.mode ≠ .markup) (hdrafts : present drafts = [draft])
    (hbegins : p.Begins drafts) (hended : draft.kind = .semicolon ∨ ¬p'.look.Joins ∨
      p'.isAtEnd = true ∨ p'.isAtAny stops = true) : ReadsStatement stops p drafts p' := by
  have hhead := head?_of_present hdrafts hbegins
  refine ⟨hbegins, fun _ => ⟨⟨⟨?_, ?_⟩, ?_⟩, draft, [], hdrafts, hhead⟩⟩
  · rw [hdrafts]
    exact .singleton draft
  · rw [hdrafts]
    exact List.forall_mem_singleton.2 ⟨p.look, hhead, isTrivia_look hp hmode⟩
  · rw [hdrafts]
    rintro last ⟨⟩
    exact hended

/-- A statement with a semicolon behind it. -/
theorem readsStatement_of_closed {stops : List Kind} {drafts closing : List Draft} {draft : Draft}
    {p₁ : Parser} (hp : p.Ok) (hmode : p.stream.mode ≠ .markup)
    (hdrafts : present drafts = [draft]) (hbegins : p.Begins drafts) (hp₁ : p₁.Ok)
    (hmode₁ : p₁.stream.mode = p.stream.mode)
    (hclosing : kinds closing = [.semicolon]) (hbegins₁ : p₁.Begins closing) :
    ReadsStatement stops p (drafts ++ closing) p' := by
  obtain ⟨semicolon, hsemicolon, hkind⟩ := exists_present_of_kinds hclosing
  have hpresent : present (drafts ++ closing) = [draft, semicolon] := by
    rw [present_append, hdrafts, hsemicolon, List.singleton_append]
  have hhead := head?_of_present hdrafts hbegins
  refine ⟨hbegins.append _, fun _ => ⟨⟨⟨?_, ?_⟩, ?_⟩, draft, [semicolon], hpresent, hhead⟩⟩
  · rw [hpresent]
    exact List.isChain_pair.2 (.inr (.inl hkind))
  · have hhead₁ := head?_of_present hsemicolon hbegins₁
    rw [hpresent]
    exact List.forall_mem_cons.2 ⟨⟨p.look, hhead, isTrivia_look hp hmode⟩,
      List.forall_mem_singleton.2 ⟨p₁.look, hhead₁, isTrivia_look hp₁ (hmode₁.trans_ne hmode)⟩⟩
  · rw [hpresent]
    rintro last ⟨⟩
    exact .inl hkind

/-- A statement begins with the current token; otherwise none starts here. -/
theorem statement_returns (hr : rules.Adequate n) (hp : p.Ok) (hbound : ¬p.Bound)
    (hplain : p.Plain) (hleft : p.left < n) (stops : List Kind) :
    Returns (statement rules stops) p fun found p' => ∃ ds, Reads p ds p' ∧
      (found = true → ReadsStatement stops p ds p') ∧
      (found = false →
        p' = p ∧ p.isAt .semicolon = false ∧ p.isAtAny expressionStarts = false) := by
  have hmode : p.stream.mode ≠ .markup := fun hmarkup => hbound (.inl hmarkup)
  refine .bind (eat_returns hp rfl) ?_
  rintro found p₁ ⟨ds₁, h₁, hfound, htrue, hfalse⟩
  split
  · rename_i hsemicolon
    obtain ⟨hkinds, hbegins⟩ := htrue hsemicolon
    obtain ⟨draft, hdrafts, hkind⟩ := exists_present_of_kinds hkinds
    exact .pure ⟨ds₁, h₁,
      fun _ => readsStatement_of_present hp hmode hdrafts hbegins (.inl hkind), by simp⟩
  · rename_i hsemicolon
    have hsemicolon : found = false := Bool.eq_false_iff.2 hsemicolon
    obtain ⟨rfl, rfl⟩ := hfalse hsemicolon
    refine .ask ?_
    split
    · -- The expression starts with the current token under the new rule as well.
      rename_i hstarts
      have hcurrent : p₁.stream.kind = p₁.current := by
        refine kind_eq_current fun h => ?_
        have := isLexical_of_mem_starts (mem_of_isAtAny hstarts)
        rw [h] at this
        cases this
      refine .modified ?_
      have hok : (p₁.enterBreakRule .endsUnlessContinued).Ok := ⟨hp.steady, hp.complains⟩
      have hstarts' : (p₁.enterBreakRule .endsUnlessContinued).isAtAny (startsOf false) = true := by
        unfold Parser.isAtAny at hstarts ⊢
        rw [current_enterBreakRule, hcurrent]
        exact hstarts
      refine .bind (hr.expression hok hleft false 0) ?_
      rintro _ p₂ ⟨ds₂, h₂, hbegins, hoperand, _⟩
      have hbegins : p₁.Begins ds₂ := hbegins hstarts'
      refine .ask ?_
      extract_lets next
      -- Whatever stands behind the expression, the rule is left at the end.
      have hnext : ∀ p₃ ds₃, Reads (p₁.enterBreakRule .endsUnlessContinued) ds₃ p₃ →
          (∀ p₄ : Parser, p₄ = { p₃ with breakRules := p₁.breakRules } → p₄.Ok → p₄.Plain →
            ReadsStatement stops p₁ ds₃ p₄) →
          Returns (next ()) p₃ fun found p' => ∃ ds, Reads p₁ ds p' ∧
            (found = true → ReadsStatement stops p₁ ds p') ∧ (found = false → p' = p₁ ∧
              p₁.isAt .semicolon = false ∧ p₁.isAtAny expressionStarts = false) := by
        intro p₃ ds₃ h₃ hstatement
        refine .bind (leaveBreakRule_returns h₃.toSpans) ?_
        rintro _ p₄ ⟨h₄, heq⟩
        have hread : Reads p₁ ds₃ p₄ := ⟨h₄, fun h => absurd h hbound⟩
        exact .pure ⟨ds₃, hread, fun _ => hstatement p₄ heq h₄.ok (hplain.of_agrees h₄.toAgrees),
          by simp⟩
      split
      · rename_i hends
        refine hnext p₂ ds₂ h₂ fun p₄ heq hok₄ hplain₄ => ⟨hbegins, fun hclean => ?_⟩
        subst heq
        obtain ⟨⟨draft, hdrafts, -⟩, -⟩ := hoperand hclean
        exact (readsStatement_of_present hp hmode hdrafts hbegins
          (.inr (ended_of_rule h₂.ok hok₄ hplain₄ rfl hends))).2 hclean
      · refine .bind (eat_returns h₂.ok rfl) ?_
        rintro _ p₃ ⟨ds₃, h₃, -, htrue, -⟩
        split
        · rename_i heaten
          obtain ⟨hsemicolon, hbegins₂⟩ := htrue heaten
          refine hnext p₃ _ (h₂.trans h₃) fun p₄ heq _ _ => ⟨hbegins.append _, fun hclean => ?_⟩
          subst heq
          obtain ⟨⟨draft, hdrafts, -⟩, -⟩ := hoperand (h₃.clean hclean)
          exact (readsStatement_of_closed hp hmode hdrafts hbegins h₂.ok h₂.mode_eq hsemicolon
            hbegins₂).2 hclean
        · refine .bind (reportMissingSeparator_returns h₃.ok) ?_
          rintro _ p₄ ⟨h₄, hne⟩
          refine hnext p₄ _ ((h₂.trans h₃).trans h₄) fun p₅ heq _ _ =>
            ⟨(hbegins.append _).append _, fun hclean => ?_⟩
          subst heq
          exact absurd hclean hne
    · rename_i hstarts
      exact .pure ⟨[], .refl hp, by simp, fun _ =>
        ⟨rfl, hfound ▸ hsemicolon, Bool.eq_false_iff.2 hstarts⟩⟩

/-- What is no statement is skipped, unless the code ends here. -/
theorem skipToStatement_returns (hp : p.Ok) :
    Returns skipToStatement p fun skipped p' => ∃ ds, Reads p ds p' ∧
      p'.findings ≠ [] ∧ (skipped = true → p.Begins ds) ∧
      (skipped = false → p.isAtEnd = true ∨ p.isAtAny statementResumes = true) := by
  refine .bind (reportUnexpected_returns hp) ?_
  rintro _ p₁ ⟨h₁, hne⟩
  refine .bind (recover_returns .errorNode h₁.ok hne rfl _) ?_
  rintro recovery p₂ ⟨ds, h₂, h⟩
  have hne : p₂.findings ≠ [] := fun hclean => hne (h₂.clean hclean)
  have hread := h₁.trans h₂
  cases recovery with
  | atEnd => exact .pure ⟨ds, hread, hne, by simp, fun _ => .inl (h₁.isAtEnd_eq hp ▸ h)⟩
  | alreadySafe => exact .pure ⟨ds, hread, hne, by simp, fun _ => .inr (h₁.isAtAny_eq hp _ ▸ h.2)⟩
  | skipped node => exact .pure ⟨ds, hread, hne, fun _ => h₁.begins h, by simp⟩

/-- Statements are read one after another in a node. -/
def CodeListing (stops : List Kind) (p : Parser) (node : Opening) (progress : Progress)
    (p' : Parser) : Prop :=
  (∃ drafts, Inside p none drafts node p' ∧ (p'.findings = [] → IsSequence stops drafts p')) ∧
    Behind progress p'

/-- Code ends at one of the stops, or where the code or the source ends. -/
theorem code_returns (hr : rules.Adequate n) (hp : p.Ok) (hmode : p.stream.mode = .code)
    (hplain : p.Plain) (hleft : p.left < n) (stops : List Kind) :
    Returns (code rules stops) p fun _ p' => (∃ children, Reads p [.node .code false children] p') ∧
      (p'.isAtEnd = true ∨ p'.isAtAny stops = true) := by
  have hbound : ¬p.Bound := not_bound_of_plain (by simp [hmode]) hplain
  refine start_returns hp fun node hnode => ?_
  have hstart : CodeListing stops p node {} p.started :=
    ⟨⟨[], hnode, fun _ => isSequence_nil⟩, behind_start _⟩
  refine .bind (R := fun _ p' => (∃ ds, Inside p none ds node p' ∧
    (p'.findings = [] → IsSequence stops ds p')) ∧ (p'.isAtEnd = true ∨ p'.isAtAny stops = true))
    (.loop (CodeListing stops p node) hstart ?_) ?_
  · rintro progress p₁ ⟨⟨ds, h, hsequence⟩, hbehind⟩
    refine .ask (.ask ?_)
    split
    · rename_i hstop
      refine .pure ⟨⟨ds, h, hsequence⟩, ?_⟩
      rcases Bool.or_eq_true_iff.1 hstop with heof | hstop
      · exact .inl (Bool.or_eq_true_iff.2 (.inr heof))
      · exact Bool.or_eq_true_iff.1 hstop
    · rename_i hstop
      obtain ⟨hend, hstops⟩ : p₁.isAtEnd = false ∧ p₁.isAtAny stops = false := by
        simp only [Bool.or_eq_true, not_or, Bool.not_eq_true] at hstop
        exact hstop.2
      have hleft₁ := Nat.lt_of_le_of_lt h.left_le hleft
      have hplain₁ := hplain.of_agrees h.toAgrees
      have hbound₁ : ¬p₁.Bound := not_bound_of_plain (by simp [h.mode_eq, hmode]) hplain₁
      refine advance_returns hbehind ?_
      refine .bind (statement_returns hr h.ok hbound₁ hplain₁ hleft₁ stops) ?_
      rintro found p₂ ⟨ds₂, h₂, htrue, hfalse⟩
      split
      · rename_i hfound
        obtain ⟨hbegins, hstatement⟩ := htrue hfound
        refine .pure ⟨⟨⟨_, h.read h₂, fun hclean => ?_⟩, h₂.behind h.ok hbegins⟩,
          h₂.left_lt h.ok hbegins⟩
        obtain ⟨hmore, hstarts⟩ := hstatement hclean
        exact (hsequence (h₂.clean hclean)).append hend hstops hmore hstarts
      · rename_i hfound
        obtain ⟨rfl, hsemicolon, hstarts⟩ := hfalse (Bool.eq_false_iff.2 hfound)
        refine .bind (skipToStatement_returns h.ok) ?_
        rintro skipped p₃ ⟨ds₃, h₃, hne, htrue, hfalse⟩
        split
        · rename_i hskipped
          have hbegins := htrue hskipped
          exact .pure ⟨⟨⟨_, h.read h₃, fun hclean => absurd hclean hne⟩, h₃.behind h.ok hbegins⟩,
            h₃.left_lt h.ok hbegins⟩
        · -- Neither a statement starts here nor does the code end, so tokens were skipped.
          rename_i hskipped
          rcases hfalse (Bool.eq_false_iff.2 hskipped) with hend' | hresumes
          · rw [hend] at hend'
            cases hend'
          · have := mem_of_isAtAny hresumes
            simp only [statementResumes, List.mem_append, List.mem_cons, List.not_mem_nil,
              or_false] at this
            rcases this with hmem | hmem | hmem
            · simp [Parser.isAtAny, hmem] at hstarts
            · simp [Parser.isAt, hmem] at hsemicolon
            · exact absurd hmem (isAtEnd_eq_false.1 hend).1
  · rintro _ p₁ ⟨⟨ds, h, hsequence⟩, hstop⟩
    have hbare := h.placed.bare (by simp [hmode])
    refine (finishAs_returns .code h.toWithin rfl (fun hclean => ?_)
      (lined_of_isCommon rfl h.lined (fun hne => absurd rfl hne) _)
      ⟨fun _ => hbare.enclosed rfl _, fun h => absurd h hbound⟩).mono ?_
    · have htidy := h.tidy hclean
      exact tidy_node _ rfl (htidy.formed (hsequence hclean).isCode) htidy.sound htidy.ends htidy.keeps
    · rintro closed p₂ ⟨h₂, _, hre⟩
      refine ⟨⟨ds, h₂⟩, ?_⟩
      simpa [Parser.isAtEnd, Parser.isAtAny, hre.current_eq] using hstop

theorem codeBlock_returns (hr : rules.Adequate n) (hp : p.Ok) (hat : p.isAt .leftBrace = true)
    (hleft : p.left ≤ n) :
    Returns (codeBlock rules) p fun _ p' => ReadsNode .codeBlock p p' := by
  have hcurrent := Consumes.of_isAt rfl hat
  have hmode := hp.mode_eq_code rfl hat
  refine start_returns hp fun node hnode => .ask (.modified ?_)
  have hok : (p.started.enterBreakRule .ignored).Ok := ⟨hp.steady, hp.complains⟩
  -- Under the new rule line breaks end nothing, so the brace is still current.
  refine .bind (bump_returns hok (hcurrent.started.enterBreakRule hnode.ok)) fun _ p₁ hbump => ?_
  have hbegins := begins_token p false
  have hleft₁ := Nat.lt_of_lt_of_le (hbump.left_lt hok hbegins) hleft
  have hplain₁ := (plain_enterBreakRule p.started).of_agrees hbump.toAgrees
  refine .bind (code_returns hr hbump.ok (hbump.mode_eq.trans hmode) hplain₁ hleft₁ _) ?_
  rintro _ p₂ ⟨⟨children, h₂⟩, _⟩
  have hopening : p.started.range.stop ≤ p₂.source.length := by
    rw [h₂.source_eq, hbump.source_eq]
    exact hp.range_stop_le
  refine .bind (expectClosing_returns h₂.ok rfl hopening) ?_
  rintro _ p₃ ⟨ds₃, h₃, _, htrue, hfalse⟩
  refine .bind (leaveBreakRule_returns (hbump.trans (h₂.trans h₃)).toSpans) ?_
  rintro _ _ ⟨h₄, rfl⟩
  have hbegins := hbegins.append ([.node .code false children] ++ ds₃)
  refine (finishEnclosed_returns .codeBlock (hnode.span h₄) rfl
    (hbegins.joins hp hcurrent.isAtEnd _) fun hclean => ?_).mono fun _ _ h => ⟨_, h, hbegins⟩
  have hclosing := (htrue (eq_true_of_clean hfalse hclean)).1
  have hbetween : Between .leftBrace .rightBrace
      (kinds ([.token p.look false] ++ ([.node .code false children] ++ ds₃))) :=
    between_of_kinds (hp.kinds_look_of_isAt (by simp) hat) hclosing
  exact shape_of_between rfl hbetween

end TypstFormat.Grammar
