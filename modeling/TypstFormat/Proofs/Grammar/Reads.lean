import TypstFormat.Proofs.Grammar.Returns
import TypstFormat.Proofs.Grammar.Shape
import TypstFormat.Proofs.Token.Flaw
import TypstFormat.Proofs.Token.Stream
import TypstFormat.Proofs.Tree.Trimmed

/-!
# What an action reads

`Reads p drafts p'` says that the parser came from `p` to `p'` by reading drafts: their events were
written, their looks were consumed one behind the other, and nothing else changed but for further
diagnostics. Without diagnostics, the drafts are tidy; `Takes` says the same of drafts that may be
untidy, such as an opening parenthesis by itself. While a node is open, the events of what was read
in it stand behind the start of the node; `Inside` says what was read since the node was started,
and `Within` what was taken.

Where the code ends with the line (`Bound`), what is read stands in one line. Only between delimiters
it may go on behind a line break, so that delimiters and what they enclose are not read but `Spans`
them, until the node around them is finished; `Encloses` says so of a node that is open.

## Key results

- `Reads.trans`: what is read one behind the other is read together
- `Moves.left_lt`: reading something that begins with the current token leaves less of the source
- `Bound.joins`: where the code ends with the line, a token that can be consumed stands in the line
-/

namespace TypstFormat

open Draft

/-- A complaint of the grammar lies in the source, and is not about the characters of a token. -/
structure Diagnostic.Complains (source : List Char) (d : Diagnostic) : Prop
    extends d.Fits source where
  isLexical : d.isLexical = false

theorem Issue.complains_report {source : List Char} {range : Text.Range} {issue : Issue}
    (hissue : issue.isLexical = false) (h : range.stop ≤ source.length)
    (message : Option String) : (issue.report range message).Complains source :=
  ⟨Issue.fits_report h issue message, (Issue.isLexical_report issue range message).trans hissue⟩

namespace Parser

/-- What lies behind the last token consumed. -/
def look (p : Parser) : Look :=
  p.stream.look

/-- What code finds behind the last token consumed. -/
def codeLook (p : Parser) : Look :=
  TypstFormat.look p.source .code p.stream.consumed

/-- The code ends with the line, and so does everything in markup, where a line break is a token. -/
def Bound (p : Parser) : Prop :=
  p.stream.mode = .markup ∨
    ∃ entered rules, p.breakRules = (.ends, entered) :: rules ∧ entered ≤ p.stream.consumed

/-- The stream is steady, and the diagnostics are complaints of the grammar. -/
structure Ok (p : Parser) : Prop where
  steady : p.stream.Steady
  complains : ∀ d ∈ p.findings, d.Complains p.source

/-- The looks of drafts were consumed, and they are what the stream has recorded. -/
structure Moves (p : Parser) (drafts : List Draft) (p' : Parser) : Prop where
  ok : p'.Ok
  source_eq : p'.source = p.source
  path : Look.Path p.source p.stream.consumed (leavesAll drafts) p'.stream.consumed
  consumed_le : p.stream.consumed ≤ p'.stream.consumed
  settled_eq : p'.stream.settled =
    ((leavesAll drafts).flatMap (·.trivia)).reverse ++ p.stream.settled
  found_eq : p'.stream.found =
    ((leavesAll drafts).reverse.flatMap (·.findings)) ++ p.stream.found
  findings : p.findings <:+ p'.findings
  proper : ProperAll drafts
  lined : LinedAll p.source .anywhere p'.codeLook drafts

/-- The mode, the modes to come back to and the rules for line breaks are the same. -/
structure Agrees (p p' : Parser) : Prop where
  mode_eq : p'.stream.mode = p.stream.mode
  modes_eq : p'.modes = p.modes
  breakRules_eq : p'.breakRules = p.breakRules

/-- Drafts were taken, tidy or not. -/
structure Takes (p : Parser) (drafts : List Draft) (p' : Parser) : Prop
    extends Moves p drafts p', Agrees p p' where
  events_eq : p'.events.toList = p.events.toList ++ eventsAll drafts

/-- Drafts stand where they may: only markup has tokens of trivia, markers and other markup, and code
does not go on behind a line break if it ends there. -/
structure Placed (p : Parser) (next : Look) (drafts : List Draft) : Prop where
  bare : p.stream.mode ≠ .markup → Bare drafts
  joined : p.Bound → LinedAll p.source .nowhere next drafts

/-- Drafts were read, perhaps across lines. -/
structure Spans (p : Parser) (drafts : List Draft) (p' : Parser) : Prop
    extends Takes p drafts p' where
  tidy : p'.findings = [] → Tidy p.stream.mode drafts
  bare : p.stream.mode ≠ .markup → Bare drafts

/-- Drafts were read. -/
structure Reads (p : Parser) (drafts : List Draft) (p' : Parser) : Prop
    extends Spans p drafts p' where
  joined : p.Bound → LinedAll p.source .nowhere p'.codeLook drafts

/-- A node was started, perhaps around a finished one, and drafts were taken in it. -/
structure Within (p : Parser) (inner : Option Draft) (drafts : List Draft) (node : Opening)
    (p' : Parser) : Prop extends Moves p (inner.toList ++ drafts) p', Agrees p p' where
  events_eq : p'.events.toList =
    p.events.toList ++ (wrapped inner ++ Event.tombstone :: eventsAll drafts)
  index_eq : node.index = p.events.size + (wrapped inner).length
  wraps_eq : node.wraps = inner.map fun d => p.events.size + d.head
  isNode : ∀ d ∈ inner, d.isNode = true

/-- A node was started, and drafts were read in it, perhaps across lines. -/
structure Encloses (p : Parser) (drafts : List Draft) (node : Opening) (p' : Parser) : Prop
    extends Within p none drafts node p' where
  tidy : p'.findings = [] → Tidy p.stream.mode drafts
  bare : p.stream.mode ≠ .markup → Bare drafts

/-- A node was started, perhaps around a finished one, and drafts were read in it. -/
structure Inside (p : Parser) (inner : Option Draft) (drafts : List Draft) (node : Opening)
    (p' : Parser) : Prop extends Within p inner drafts node p' where
  tidy : p'.findings = [] → Tidy p.stream.mode (inner.toList ++ drafts)
  placed : Placed p p'.codeLook (inner.toList ++ drafts)

/-- The first look of drafts is the one behind the last token consumed. -/
def Begins (p : Parser) (drafts : List Draft) : Prop :=
  (leavesAll drafts).head? = some p.look

theorem ok_ofSource (source : List Char) (mode : Mode) : (ofSource source mode).Ok :=
  ⟨Stream.steady_ofSource source mode, List.forall_mem_nil _⟩

namespace Agrees

variable {p p' p'' : Parser}

theorem refl (p : Parser) : Agrees p p :=
  ⟨rfl, rfl, rfl⟩

theorem trans (h₁ : Agrees p p') (h₂ : Agrees p' p'') : Agrees p p'' :=
  ⟨h₂.mode_eq.trans h₁.mode_eq, h₂.modes_eq.trans h₁.modes_eq,
    h₂.breakRules_eq.trans h₁.breakRules_eq⟩

end Agrees

/-! ## Line breaks -/

/-- What code finds depends on where it looks. -/
theorem codeLook_congr {p p' : Parser} (hsource : p'.source = p.source)
    (hconsumed : p'.stream.consumed = p.stream.consumed) : p'.codeLook = p.codeLook := by
  unfold codeLook
  rw [hsource, hconsumed]

theorem codeLook_eq {p : Parser} (hmode : p.stream.mode = .code) : p.codeLook = p.look := by
  unfold codeLook look Stream.look
  rw [hmode]
  rfl

theorem Bound.of_agrees {p p' : Parser} (h : p.Bound) (hagrees : Agrees p p')
    (hconsumed : p.stream.consumed ≤ p'.stream.consumed) : p'.Bound := by
  unfold Bound
  rw [hagrees.mode_eq, hagrees.breakRules_eq]
  rcases h with hmode | ⟨entered, rules, hrules, hle⟩
  · exact .inl hmode
  · exact .inr ⟨entered, rules, hrules, Nat.le_trans hle hconsumed⟩

theorem joins_of_afterLineBreak {p : Parser} (hp : p.Ok) (h : p.stream.afterLineBreak = false) :
    p.look.Joins := by
  rw [hp.steady.afterLineBreak] at h
  intro piece hpiece
  exact Bool.eq_false_iff.2 (List.any_eq_false.1 h piece hpiece)

/-- Where the code ends with the line, a token that can be consumed stands in the line. -/
theorem Bound.joins {p : Parser} (h : p.Bound) (hp : p.Ok) (hend : p.isAtEnd = false) :
    p.look.Joins := by
  rcases h with hmode | ⟨entered, rules, hrules, hle⟩
  · exact joins_of_afterLineBreak hp (hp.steady.afterLineBreak_of_markup hmode)
  · by_cases hentered : p.stream.position = entered
    · -- The token that was current when the rule came into force follows directly.
      have hconsumed := hp.steady.consumed_le_position
      have hposition := hp.steady.position_eq
      have htile := hp.steady.covers.tile
      have hnil : p.look.trivia = [] := htile.eq_nil (by omega)
      intro piece hpiece
      rw [hnil] at hpiece
      cases hpiece
    · refine joins_of_afterLineBreak hp (Bool.eq_false_iff.2 fun hbreak => ?_)
      have hcurrent : p.current = .breakEnd := by
        unfold current
        rw [hrules]
        exact if_pos ⟨hbreak, hentered⟩
      simp [isAtEnd, hcurrent] at hend

theorem Placed.nil {p : Parser} {next : Look} : Placed p next [] :=
  ⟨fun _ => .nil, fun _ => linedAll_nil⟩

/-! ## Moving on -/

namespace Moves

variable {p p' p'' : Parser} {drafts more : List Draft}

theorem refl (h : p.Ok) : Moves p [] p :=
  ⟨h, rfl, rfl, Nat.le_refl _, rfl, rfl, List.suffix_refl _, trivial, linedAll_nil⟩

/-- Without diagnostics at the end there were none before. -/
theorem clean (h : Moves p drafts p') (hclean : p'.findings = []) : p.findings = [] :=
  List.suffix_nil.1 (hclean ▸ h.findings)

/-- If nothing was consumed, code finds the same. -/
theorem codeLook_eq (h : Moves p drafts p') (hnil : leavesAll drafts = []) :
    p'.codeLook = p.codeLook := by
  have hpath := h.path
  rw [hnil] at hpath
  exact codeLook_congr h.source_eq hpath.symm

/-- If code goes on in the same line, then so does what was read. -/
theorem joins_front (h : Moves p drafts p') (hp : p.Ok) (hjoins : p.codeLook.Joins) :
    (front drafts p'.codeLook).Joins := by
  have hpath := h.path
  cases hleaves : leavesAll drafts with
  | nil =>
    rw [← h.codeLook_eq hleaves] at hjoins
    rwa [front, hleaves]
  | cons l ls =>
    rw [hleaves] at hpath
    rw [front, hleaves, List.headD_cons, hpath.1]
    exact joins_look hp.steady.consumed_le hjoins l.mode

theorem trans (h₁ : Moves p drafts p') (h₂ : Moves p' more p'') : Moves p (drafts ++ more) p'' := by
  refine ⟨h₂.ok, h₂.source_eq.trans h₁.source_eq, ?_, Nat.le_trans h₁.consumed_le h₂.consumed_le,
    ?_, ?_, h₁.findings.trans h₂.findings, ?_, ?_⟩
  · rw [leavesAll_append]
    exact h₁.path.append (h₁.source_eq ▸ h₂.path)
  · rw [h₂.settled_eq, h₁.settled_eq]
    simp
  · rw [h₂.found_eq, h₁.found_eq]
    simp
  · exact (properAll_append _ _).2 ⟨h₁.proper, h₂.proper⟩
  · have hlined := h₂.lined
    rw [h₁.source_eq] at hlined
    exact linedAll_append.2 ⟨h₁.lined.mono _ (h₂.joins_front h₁.ok), hlined⟩

theorem left_le (h : Moves p drafts p') : p'.left ≤ p.left := by
  have := h.consumed_le
  unfold left
  rw [h.source_eq]
  omega

/-- What begins with the current token consumes it. -/
theorem position_lt (h : Moves p drafts p') (hp : p.Ok) (hbegins : p.Begins drafts) :
    p.position < p'.stream.consumed := by
  have hpath := h.path
  unfold Begins at hbegins
  cases hleaves : leavesAll drafts with
  | nil =>
    rw [hleaves] at hbegins
    cases hbegins
  | cons l ls =>
    -- The look of the current token is the first one on the path, and its token is not empty.
    rw [hleaves] at hbegins hpath
    obtain rfl : l = p.look := Option.some.inj hbegins
    have hcovers := hpath.covers hp.steady.consumed_le
    have h₁ := hcovers.start_lt_stop hpath.2.1
    have h₂ := (hpath.2.2.le hcovers.stop_le).1
    have h₃ : p.position = p.look.token.range.start := hp.steady.position_eq
    omega

theorem left_lt (h : Moves p drafts p') (hp : p.Ok) (hbegins : p.Begins drafts) :
    p'.left < p.left := by
  have h₁ := h.position_lt hp hbegins
  have h₂ : p.stream.consumed ≤ p.position := hp.steady.consumed_le_position
  have h₃ : p'.stream.consumed ≤ p'.source.length := h.ok.steady.consumed_le
  rw [h.source_eq] at h₃
  unfold left
  rw [h.source_eq]
  omega

/-- Coming back to the same parser, nothing was read. -/
theorem leaves_eq_nil (h : Moves p drafts p') (hp : p.Ok)
    (hsame : p'.stream.consumed = p.stream.consumed) : leavesAll drafts = [] := by
  by_contra hne
  have := h.path.lt hne hp.steady.consumed_le
  omega

/-- The current token lies behind one that was consumed. -/
theorem position_lt_position (h : Moves p drafts p') (hp : p.Ok) (hbegins : p.Begins drafts) :
    p.position < p'.position :=
  Nat.lt_of_lt_of_le (h.position_lt hp hbegins) h.ok.steady.consumed_le_position

end Moves

/-- What is read behind nothing begins with the current token if the whole does. -/
theorem Begins.of_nil {p : Parser} {drafts more : List Draft} (hnil : leavesAll drafts = [])
    (h : p.Begins more) : p.Begins (drafts ++ more) := by
  unfold Begins
  rw [leavesAll_append, hnil]
  exact h

theorem Begins.append {p : Parser} {drafts : List Draft} (h : p.Begins drafts)
    (more : List Draft) : p.Begins (drafts ++ more) := by
  unfold Begins at h ⊢
  rw [leavesAll_append]
  cases hleaves : leavesAll drafts with
  | nil =>
    rw [hleaves] at h
    cases h
  | cons l ls =>
    rw [hleaves] at h
    exact h

theorem Begins.node {p : Parser} {drafts : List Draft} (h : p.Begins drafts) (kind : Kind)
    (wraps : Bool) : p.Begins [.node kind wraps drafts] := by
  unfold Begins at h ⊢
  rw [leavesAll_singleton]
  exact h

theorem Begins.ne_nil {p : Parser} {drafts : List Draft} (h : p.Begins drafts) :
    leavesAll drafts ≠ [] := by
  intro hnil
  unfold Begins at h
  rw [hnil] at h
  cases h

/-- Where the code ends with the line, what begins with the current token stands in the line. -/
theorem Begins.joins {p : Parser} {drafts : List Draft} (h : p.Begins drafts) (hp : p.Ok)
    (hend : p.isAtEnd = false) (next : Look) (hbound : p.Bound) : (front drafts next).Joins := by
  rw [front_of_head? h]
  exact hbound.joins hp hend

theorem Placed.append {p p' p'' : Parser} {drafts more : List Draft}
    (h₁ : Placed p p'.codeLook drafts) (hmoves : Moves p drafts p') (hagrees : Agrees p p')
    (h₂ : Placed p' p''.codeLook more) (hmoves₂ : Moves p' more p'') :
    Placed p p''.codeLook (drafts ++ more) := by
  refine ⟨fun hmode => (h₁.bare hmode).append (h₂.bare (hagrees.mode_eq ▸ hmode)),
    fun hbound => ?_⟩
  have hlined := h₂.joined (hbound.of_agrees hagrees hmoves.consumed_le)
  rw [hmoves.source_eq] at hlined
  exact linedAll_append.2 ⟨(h₁.joined hbound).mono _ (hmoves₂.joins_front hmoves.ok), hlined⟩

namespace Takes

variable {p p' p'' : Parser} {drafts more : List Draft}

theorem refl (h : p.Ok) : Takes p [] p :=
  { Moves.refl h, Agrees.refl p with events_eq := by simp [eventsAll] }

theorem trans (h₁ : Takes p drafts p') (h₂ : Takes p' more p'') :
    Takes p (drafts ++ more) p'' :=
  { h₁.toMoves.trans h₂.toMoves, h₁.toAgrees.trans h₂.toAgrees with
    events_eq := by rw [h₂.events_eq, h₁.events_eq, eventsAll_append, List.append_assoc] }

theorem reads (h : Takes p drafts p') (htidy : p'.findings = [] → Tidy p.stream.mode drafts)
    (hplaced : Placed p p'.codeLook drafts) : Reads p drafts p' :=
  ⟨⟨h, htidy, hplaced.bare⟩, hplaced.joined⟩

/-- What was complained about need not be tidy. -/
theorem complained (h : Takes p drafts p') (hplaced : Placed p p'.codeLook drafts)
    (hne : p'.findings ≠ []) : Reads p drafts p' :=
  h.reads (fun hclean => absurd hclean hne) hplaced

end Takes

theorem Reads.placed {p p' : Parser} {drafts : List Draft} (h : Reads p drafts p') :
    Placed p p'.codeLook drafts :=
  ⟨h.bare, h.joined⟩

theorem Spans.trans {p p' p'' : Parser} {drafts more : List Draft} (h₁ : Spans p drafts p')
    (h₂ : Spans p' more p'') : Spans p (drafts ++ more) p'' :=
  ⟨h₁.toTakes.trans h₂.toTakes,
    fun hclean => (h₁.tidy (h₂.clean hclean)).append (h₁.mode_eq ▸ h₂.tidy hclean),
    fun hmode => (h₁.bare hmode).append (h₂.bare (h₁.mode_eq ▸ hmode))⟩

namespace Reads

variable {p p' p'' : Parser} {drafts more : List Draft}

theorem refl (h : p.Ok) : Reads p [] p :=
  (Takes.refl h).reads (fun _ => tidy_nil) .nil

theorem trans (h₁ : Reads p drafts p') (h₂ : Reads p' more p'') :
    Reads p (drafts ++ more) p'' :=
  ⟨h₁.toSpans.trans h₂.toSpans,
    (h₁.placed.append h₁.toMoves h₁.toAgrees h₂.placed h₂.toMoves).joined⟩

end Reads

/-- What stands between two parentheses is tidy together with them. -/
theorem Takes.close {inner closing : List Draft} {p p₁ p₂ p₃ : Parser}
    (h₁ : Takes p [.token p.look false] p₁) (h₂ : Spans p₁ inner p₂) (h₃ : Spans p₂ closing p₃)
    (hopening : p.look.token.kind = .leftParen)
    (hclosing : p₃.findings = [] → kinds closing = [.rightParen]) :
    Spans p ([.token p.look false] ++ (inner ++ closing)) p₃ := by
  have h₂₃ := h₂.trans h₃
  refine ⟨h₁.trans h₂₃.toTakes, fun hclean => ?_, fun hmode => ?_⟩
  · have htidy := (h₁.mode_eq ▸ h₂₃.tidy hclean : Tidy p.stream.mode (inner ++ closing))
    refine ⟨⟨trivial, htidy.sound⟩, ?_, fun hmode => ?_, of_decide_eq_true, htidy.keeps.mono ?_⟩
    · rw [kinds_append, kinds_append, hclosing hclean, ← List.append_assoc]
      exact .of_last _
    · refine EndsPlainly.append ?_ (htidy.ends hmode)
      rintro l ⟨⟩
      exact hopening ▸ rfl
    · rw [hopening]
      rintro ⟨⟩
  · exact (Bare.token false (hopening ▸ rfl)).append (h₂₃.bare (h₁.mode_eq ▸ hmode))

/-! ## Reading nothing -/

namespace Reads

variable {p p' : Parser} {drafts : List Draft}

/-- The current token is the same if nothing was read. -/
theorem look_eq (h : Reads p [] p') : p'.look = p.look :=
  Stream.look_congr h.source_eq h.mode_eq h.path.symm

theorem current_eq (h : Reads p [] p') (hp : p.Ok) : p'.current = p.current := by
  -- All that the current kind depends on is the look and the rules for line breaks.
  have hlook : p'.stream.look = p.stream.look := h.look_eq
  have hkind : p'.stream.kind = p.stream.kind := by
    rw [h.ok.steady.kind_eq, hp.steady.kind_eq, hlook]
  have hposition : p'.stream.position = p.stream.position := by
    rw [h.ok.steady.position_eq, hp.steady.position_eq, hlook]
  have hbreak : p'.stream.afterLineBreak = p.stream.afterLineBreak := by
    rw [h.ok.steady.afterLineBreak, hp.steady.afterLineBreak, hlook]
  unfold current
  rw [h.breakRules_eq, hkind, hposition, hbreak]

theorem isAtEnd_eq (h : Reads p [] p') (hp : p.Ok) : p'.isAtEnd = p.isAtEnd := by
  unfold isAtEnd
  rw [h.current_eq hp]

theorem isAtAny_eq (h : Reads p [] p') (hp : p.Ok) (kinds : List Kind) :
    p'.isAtAny kinds = p.isAtAny kinds := by
  unfold isAtAny
  rw [h.current_eq hp]

theorem begins (h : Reads p [] p') (hbegins : p'.Begins drafts) : p.Begins drafts := by
  unfold Begins at *
  rw [← h.look_eq]
  exact hbegins

end Reads

/-- What is taken inside a node belongs to it. -/
theorem Within.take {p p' p'' : Parser} {inner : Option Draft} {drafts more : List Draft}
    {node : Opening} (h : Within p inner drafts node p') (h' : Takes p' more p'') :
    Within p inner (drafts ++ more) node p'' :=
  { h.toAgrees.trans h'.toAgrees with
    toMoves := by
      rw [← List.append_assoc]
      exact h.toMoves.trans h'.toMoves
    events_eq := by
      rw [h'.events_eq, h.events_eq, eventsAll_append]
      simp
    index_eq := h.index_eq
    wraps_eq := h.wraps_eq
    isNode := h.isNode }

/-- What is read inside a node belongs to it. -/
theorem Inside.read {p p' p'' : Parser} {inner : Option Draft} {drafts more : List Draft}
    {node : Opening} (h : Inside p inner drafts node p') (h' : Reads p' more p'') :
    Inside p inner (drafts ++ more) node p'' := by
  refine ⟨h.toWithin.take h'.toTakes, fun hclean => ?_, ?_⟩
  · rw [← List.append_assoc]
    exact (h.tidy (h'.clean hclean)).append (h.mode_eq ▸ h'.tidy hclean)
  · rw [← List.append_assoc]
    exact h.placed.append h.toMoves h.toAgrees h'.placed h'.toMoves

theorem Inside.encloses {p p' : Parser} {drafts : List Draft} {node : Opening}
    (h : Inside p none drafts node p') : Encloses p drafts node p' :=
  ⟨h.toWithin, h.tidy, h.placed.bare⟩

/-- What is read across lines is enclosed in a node. -/
theorem Inside.span {p p' p'' : Parser} {drafts more : List Draft} {node : Opening}
    (h : Inside p none drafts node p') (h' : Spans p' more p'') :
    Encloses p (drafts ++ more) node p'' :=
  ⟨h.toWithin.take h'.toTakes,
    fun hclean => (h.tidy (h'.clean hclean)).append (h.mode_eq ▸ h'.tidy hclean),
    fun hmode => (h.placed.bare hmode).append (h'.bare (h.mode_eq ▸ hmode))⟩

end Parser

end TypstFormat
