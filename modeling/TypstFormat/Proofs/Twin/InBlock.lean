import TypstFormat.Proofs.Grammar.Document
import TypstFormat.Proofs.Grammar.Runs
import TypstFormat.Proofs.Twin.Document
import TypstFormat.Proofs.Twin.Enclosed

/-!
# Reading a text in a block

The parser of the block stands behind the opening brace when the code of the text begins, and from
there on both sides are read as code. Without complaint, the left one comes to the end of the text
and the right one to the closing brace, so that the block, the code behind the hash and the markup
around it are finished.

## Key results

- `Enclosed.code_at`: the code of the block ends where the text does
- `Enclosed.document_enclosed`: the block is read as a whole, if its code is
- `Sides.read_enclosed`: what both parsers have come to
-/

namespace TypstFormat

open Parse TypstFormat.Parser Text Grammar

namespace Enclosed

variable {text : List Char}

/-! ## What stands around the text -/

/-- The hash in front of the block. -/
def hashLook : Look :=
  { mode := .markup, trivia := [], token := { kind := .hash, range := .ofLength 0 1 }
    findings := [] }

/-- The opening brace. -/
def braceLook : Look :=
  { mode := .code, trivia := [], token := { kind := .leftBrace, range := .ofLength 1 1 }
    findings := [] }

theorem look_hash (text : List Char) : look (enclosed text) .markup 0 = hashLook := by
  have htoken := tokenBehind_append [] .markup '#' ('{' :: '\n' :: (text ++ ['\n', '}']))
  have hflaws := flawsAt_append [] .markup '#' ('{' :: '\n' :: (text ++ ['\n', '}']))
  have hscan (before : Option Char) (rest : List Char) :
      Lexeme.scan .markup before '#' rest = { kind := .hash, tail := 0 } := by
    unfold Lexeme.scan
    rfl
  rw [hscan] at htoken hflaws
  rw [look_of_token fun hmode => absurd rfl hmode]
  exact congrArg₂ (Look.mk .markup []) htoken hflaws

theorem look_opening (text : List Char) : look (enclosed text) .code 1 = braceLook := by
  have htoken := tokenBehind_append ['#'] .code '{' ('\n' :: (text ++ ['\n', '}']))
  have hflaws := flawsAt_append ['#'] .code '{' ('\n' :: (text ++ ['\n', '}']))
  have hscan (before : Option Char) (rest : List Char) :
      Lexeme.scan .code before '{' rest = { kind := .leftBrace, tail := 0 } := by
    unfold Lexeme.scan
    rfl
  rw [hscan] at htoken hflaws
  have htoken : tokenBehind (enclosed text) .code 1 = braceLook.token := htoken
  rw [look_of_token fun _ => (by
    show (tokenBehind (enclosed text) .code 1).kind.isTrivia = false
    rw [htoken]
    rfl)]
  exact congrArg₂ (Look.mk .code []) htoken hflaws

/-- A stream in the block that has consumed everything up to an offset, with nothing recorded. -/
structure Streams (text : List Char) (mode : Mode) (offset : Nat) (s : Stream) : Prop where
  steady : s.Steady
  source : s.source = enclosed text
  mode : s.mode = mode
  consumed : s.consumed = offset
  settled : s.settled = []
  found : s.found = []

theorem Streams.look_eq {mode : Mode} {offset : Nat} {s : Stream} (h : Streams text mode offset s) :
    s.look = look (enclosed text) mode offset := by
  unfold Stream.look
  rw [h.source, h.mode, h.consumed]

theorem streams_hash (text : List Char) :
    Streams text .markup 0 (Stream.ofSource (enclosed text) .markup) := by
  obtain ⟨hconsumed, hsource, hmode, hsettled, hfound⟩ :=
    Stream.ofSource_fields (enclosed text) .markup
  exact ⟨Stream.steady_ofSource _ _, hsource, hmode, hconsumed, hsettled, hfound⟩

theorem Streams.current_eq {mode : Mode} {offset : Nat} {s : Stream} {l : Look}
    (h : Streams text mode offset s) (hlook : look (enclosed text) mode offset = l) :
    s.current = l.token := by
  rw [h.steady.current, h.look_eq, hlook]

theorem Streams.position_eq {mode : Mode} {offset : Nat} {s : Stream} {l : Look}
    (h : Streams text mode offset s) (hlook : look (enclosed text) mode offset = l) :
    s.position = l.token.range.start := by
  rw [h.steady.position_eq, h.look_eq, hlook]

/-- Consuming a token in front of which nothing stands, and in which nothing is wrong. -/
theorem Streams.bump {mode : Mode} {offset : Nat} {s : Stream} {token : Token}
    (h : Streams text mode offset s)
    (hlook : look (enclosed text) mode offset = ⟨mode, [], token, []⟩) (hkind : token.kind ≠ .eof) :
    Streams text mode token.range.stop s.bump := by
  have hlook := h.look_eq.trans hlook
  have hbump := h.steady.bump (by rw [h.steady.kind_eq, hlook]; exact hkind)
  refine ⟨hbump.steady, hbump.source.trans h.source, hbump.mode.trans h.mode, ?_, ?_, ?_⟩
  · rw [hbump.consumed, hlook]
  · rw [hbump.settled, hlook, h.settled]
    rfl
  · rw [hbump.found, hlook, h.found]
    rfl

theorem Streams.relex {mode : Mode} {offset : Nat} {s : Stream} (h : Streams text mode offset s)
    (mode' : Mode) : Streams text mode' offset (s.relex mode') := by
  have hrelex := h.steady.relex mode'
  exact ⟨hrelex.steady, hrelex.source.trans h.source, hrelex.mode, hrelex.consumed.trans h.consumed,
    hrelex.settled.trans h.settled, hrelex.found.trans h.found⟩

/-- The stream behind the hash, which goes on in code. -/
def hashStream (text : List Char) : Stream :=
  (Stream.ofSource (enclosed text) .markup).bump.relex .code

theorem streams_brace (text : List Char) : Streams text .code 1 (hashStream text) :=
  ((streams_hash text).bump (look_hash text) (by decide)).relex .code

theorem current_hash (text : List Char) :
    (Stream.ofSource (enclosed text) .markup).current = hashLook.token :=
  (streams_hash text).current_eq (look_hash text)

theorem current_hashStream (text : List Char) : (hashStream text).current = braceLook.token :=
  (streams_brace text).current_eq (look_opening text)

theorem position_hashStream (text : List Char) : (hashStream text).position = 1 :=
  (streams_brace text).position_eq (look_opening text)

/-- The parser of the block behind the opening brace. -/
def opened (text : List Char) : Parser where
  stream := (hashStream text).bump
  events := (Sides.enclosed text).front.toArray
  modes := (Sides.enclosed text).modes
  breakRules := (Sides.enclosed text).breakRules

theorem streams_opened (text : List Char) : Streams text .code 2 (opened text).stream :=
  (streams_brace text).bump (look_opening text) (by decide)

/-- A text of code, and the block that holds it behind the opening brace, are at corresponding
places. -/
theorem at_opened (text : List Char) :
    (Sides.enclosed text).At .come 0 0 (.whole .code) (ofSource text .code) (opened text) := by
  have hfields := Stream.ofSource_fields text .code
  have hsteady := Stream.steady_ofSource text .code
  change Stream.Steady (ofSource text .code).stream at hsteady
  change (ofSource text .code).stream.consumed = 0 ∧ (ofSource text .code).source = text ∧
    (ofSource text .code).stream.mode = .code ∧ (ofSource text .code).stream.settled = [] ∧
    (ofSource text .code).stream.found = [] at hfields
  obtain ⟨hconsumed, hsource, hmode, hsettled, hfound⟩ := hfields
  have h := streams_opened text
  have hnot : ¬(Sides.enclosed text).place (ofSource text .code).stream.consumed
      (opened text).stream.consumed := by
    rw [hconsumed, h.consumed]
    exact fun hplace => absurd hplace.2 (by decide)
  have hwritten : (Sides.enclosed text).Written (ofSource text .code).events
      (opened text).events :=
    ⟨rfl, fun k _ => List.getElem?_toArray, fun k event hevent => by simp [ofSource] at hevent⟩
  exact {
    steady := hsteady
    steady' := h.steady
    source_eq := hsource
    source_eq' := h.source
    mode_eq := h.mode.trans hmode.symm
    consumed := by
      rw [hconsumed, h.consumed]
      exact .inr ⟨rfl, rfl⟩
    settled := fun hplace => absurd hplace hnot
    settled_first := fun _ => ⟨hsettled, h.settled, hmode⟩
    found := by
      rw [hfound, h.found]
      exact .nil
    findings := .nil
    events := hwritten
    modes_eq := rfl
    breakRules := ⟨[], rfl, .nil⟩
    entered_first := fun _ _ hrule => absurd hrule List.not_mem_nil
    scope_eq := by
      unfold Parser.scope
      rw [hmode]
      rfl
    stage := fun _ => Nat.zero_le _
    ahead := fun _ _ hi => absurd hi (Nat.not_lt_zero _)
    clear := fun _ hne => absurd rfl hne }

/-- A text of code that is read without complaint is read to where the code of the block ends. -/
theorem code_at {depth depth' : Nat} {closed closed' : Closed} {q q' : Parser}
    (hrun : code (rules depth) [] (ofSource text .code) = .ok (closed, q))
    (hfindings : q.findings = []) (hfound : q.stream.found = [])
    (hrun' : code (rules depth') closingDelimiters (opened text) = .ok (closed', q')) :
    (Sides.enclosed text).At .come 0 0 (.whole .code) q q' := by
  have hlaw := Sides.enclosed_lawful text
  have hat := at_opened text
  have htwin : (Sides.enclosed text).Twin false True []
      ((Sides.enclosed text).At .come 0 0 (.whole .code)) (code (rules depth) [])
      (code (rules depth') closingDelimiters) (fun _ => [])
      fun _ _ => (Sides.enclosed text).At .come 0 0 (.whole .code) :=
    Sides.code_twin (Sides.rules_twin depth depth') rfl (.whole trivial) rfl
  have hstands : (Sides.enclosed text).Stands [] (ofSource text .code) :=
    ⟨hat.steady, hat.source_eq, by simp⟩
  rcases htwin.run trivial hstands hat hrun hrun' with ⟨hend, _⟩ | hbroken
  · exact hend
  · cases hbroken.cause with
    | finding _ hcause => exact absurd hfindings (hcause.resolve_right (absurd hfound))
    | spent _ hclosing => cases hclosing
    | event _ _ habsent => exact habsent.elim

/-! ## Behind the closing brace -/

/-- The parser of the block in front of the closing brace. -/
structure Closing (text : List Char) (q : Parser) : Prop where
  steady : q.stream.Steady
  source : q.source = enclosed text
  mode : q.stream.mode = .code
  token : q.look.token = brace text
  modes : q.modes = [.markup]
  breakRules : q.breakRules = [(.ignored, 1), (.ends, 1)]
  /-- The starts of the markup and of the block. -/
  starts : q.events[0]? = some .tombstone ∧ q.events[3]? = some .tombstone

/-- The parser behind the closing brace, when the block and the markup are finished. -/
def outer (q : Parser) : Parser :=
  { q.bump with
    stream := q.bump.stream.relex .markup
    modes := []
    breakRules := []
    events := ((((q.bump.events.setIfInBounds 3 (.start .codeBlock none)).push .finish).setIfInBounds
      0 (.start .markup none)).push .finish) }

namespace Closing

theorem kind_eq (h : Closing text q) : q.stream.kind = .rightBrace := by
  rw [h.steady.kind_eq]
  exact congrArg Token.kind h.token

theorem current (h : Closing text q) : q.current = .rightBrace := by
  unfold Parser.current
  rw [h.breakRules]
  simp only
  split <;> exact h.kind_eq

theorem bump_eq (h : Closing text q) : q.bump = { q with
    events := q.events.push (.token .rightBrace (text.length + 5)), stream := q.stream.bump } := by
  have hend : q.isAtEnd = false := by
    rw [isAtEnd_eq_false, h.current]
    decide
  have hrange : q.range.stop = text.length + 5 := by
    show q.stream.current.range.stop = _
    rw [h.steady.current]
    exact congrArg (·.range.stop) h.token
  rw [Parser.bump_eq hend, h.kind_eq, hrange]

theorem bumped (h : Closing text q) : Stream.Bumped q.stream q.stream.bump :=
  h.steady.bump (by
    rw [h.kind_eq]
    exact Kind.noConfusion)

theorem events_bump (h : Closing text q) :
    q.bump.events = q.events.push (.token .rightBrace (text.length + 5)) := by
  rw [h.bump_eq]

theorem length_eq (text : List Char) : (enclosed text).length = text.length + 5 := by
  simp [enclosed]

/-- Nothing is left behind the brace. -/
theorem look_bump (h : Closing text q) (mode : Mode) :
    TypstFormat.look (enclosed text) mode q.stream.bump.consumed =
      { mode, trivia := [], token := Token.eof (enclosed text).length, findings := [] } := by
  have hconsumed : q.stream.bump.consumed = (enclosed text).length := by
    rw [h.bumped.consumed, length_eq]
    exact congrArg (·.range.stop) h.token
  rw [hconsumed, look_length]

end Closing

/-- The parser behind the brace, under the rule for line breaks of the code behind a hash. -/
private def behind (q : Parser) : Parser :=
  { q.bump with
    breakRules := [(.ends, 1)]
    events := (q.bump.events.setIfInBounds 3 (.start .codeBlock none)).push .finish }

/-- The parser behind the hash, where the block starts. -/
private def hashed (text : List Char) : Parser where
  stream := hashStream text
  events := #[.tombstone, .token .hash 1]
  modes := [.markup]
  breakRules := [(.ends, 1)]

private theorem started_hashed :
    ((hashed text).started.started.enterBreakRule .ignored).bump = opened text := by
  have hkind : (hashStream text).kind = .leftBrace := congrArg Token.kind (current_hashStream text)
  have hcurrent : ((hashed text).started.started.enterBreakRule .ignored).current = .leftBrace := by
    rw [current_enterBreakRule]
    exact hkind
  rw [Parser.bump_eq (by rw [isAtEnd_eq_false, hcurrent]; decide)]
  show Parser.mk _ (((#[.tombstone, .token .hash 1].push .tombstone).push .tombstone).push
    (.token (hashStream text).kind (hashStream text).current.range.stop)) [] [.markup]
    ((.ignored, (hashStream text).position) :: [(.ends, 1)]) = _
  rw [hkind, current_hashStream, position_hashStream]
  rfl

private theorem bump_started :
    ((ofSource (enclosed text) .markup).started.bump.enterMode .code).enterBreakRule .ends =
      hashed text := by
  have hkind : (Stream.ofSource (enclosed text) .markup).kind = .hash :=
    congrArg Token.kind (current_hash text)
  have hcurrent : (ofSource (enclosed text) .markup).started.current = .hash := hkind
  have hmode := ((streams_hash text).bump (look_hash text) (by decide)).mode
  have hrelex : (Stream.ofSource (enclosed text) .markup).bump.relex .code = hashStream text := rfl
  rw [Parser.bump_eq (by rw [isAtEnd_eq_false, hcurrent]; decide)]
  simp [Parser.enterMode, Parser.enterBreakRule, Parser.started, Parser.ofSource, Parser.range,
    Parser.position, hkind, current_hash, hmode, hrelex, position_hashStream, hashed, hashLook]

private theorem behind_current (h : Closing text q) : (behind q).current = .eof := by
  have hlook : q.stream.bump.look =
      TypstFormat.look (enclosed text) .code q.stream.bump.consumed := by
    unfold Stream.look
    rw [h.bumped.source, h.bumped.mode, h.mode]
    exact congrArg (TypstFormat.look · _ _) h.source
  have hlook := hlook.trans (h.look_bump .code)
  have hkind : q.stream.bump.kind = .eof := by
    rw [h.bumped.steady.kind_eq, hlook]
    rfl
  have hbreak : q.stream.bump.afterLineBreak = false := by
    rw [h.bumped.steady.afterLineBreak, hlook]
    rfl
  unfold behind Parser.current
  rw [h.bump_eq]
  simp [hkind, hbreak]

private theorem hashed_current (text : List Char) : (hashed text).current = .leftBrace := by
  have hstream := streams_brace text
  have hkind : (hashStream text).kind = .leftBrace :=
    congrArg Token.kind (current_hashStream text)
  have hbreak : (hashStream text).afterLineBreak = false := by
    rw [hstream.steady.afterLineBreak, hstream.look_eq.trans (look_opening text)]
    rfl
  simp [Parser.current, hashed, hkind, hbreak]

/-- The block behind the hash is read up to its closing brace, if its code is. -/
private theorem codeBlock_hashed {closed : Closed}
    (hcode : code (rules ((enclosed text).length + 1)) closingDelimiters (opened text) =
      .ok (closed, q)) (h : Closing text q) :
    codeBlock (rules ((enclosed text).length + 1)) (hashed text).started =
      .ok (⟨3⟩, behind q) := by
  have hsize : 3 < q.events.size := (Array.getElem?_eq_some_iff.1 h.starts.2).1
  refine codeBlock_eq (p := (hashed text).started) (started_hashed ▸ hcode)
    (isAt_iff.2 h.current) h.breakRules ?_
  -- The start of the block was written in front of its code, which left it as it was.
  show q.bump.events[3]? = _
  rw [h.events_bump, Array.getElem?_push_lt hsize, ← Array.getElem?_eq_getElem hsize]
  exact h.starts.2

/-- The expression behind the hash is the block, since nothing comes behind it. -/
private theorem expression_hashed {closed : Closed}
    (hcode : code (rules ((enclosed text).length + 1)) closingDelimiters (opened text) =
      .ok (closed, q)) (h : Closing text q) :
    (rulesFor (enclosed text)).expression true 0 (hashed text) = .ok ((), behind q) := by
  have hsize : 3 < q.events.size := (Array.getElem?_eq_some_iff.1 h.starts.2).1
  refine expression_eq_codeBlock (hashed_current text) (codeBlock_hashed hcode h)
    (behind_current h) ?_
  show 3 < (Array.push _ _).size
  rw [Array.size_push, Array.size_setIfInBounds, h.events_bump, Array.size_push]
  omega

/-- The embedded block is read up to its closing brace, if its code is. -/
private theorem embeddedCode_enclosed {closed : Closed}
    (hcode : code (rules ((enclosed text).length + 1)) closingDelimiters (opened text) =
      .ok (closed, q)) (h : Closing text q) :
    embeddedCode (rulesFor (enclosed text)) (ofSource (enclosed text) .markup).started =
      .ok ((), { behind q with
        breakRules := [], modes := [], stream := q.bump.stream.relex .markup }) := by
  have hstream := streams_brace text
  have hmode : Mode.markup ≠ (behind q).stream.mode := by
    show Mode.markup ≠ q.bump.stream.mode
    rw [h.bump_eq]
    show Mode.markup ≠ q.stream.bump.mode
    rw [h.bumped.mode, h.mode]
    decide
  have hmodes : (behind q).modes = [.markup] := by
    show q.bump.modes = _
    rw [h.bump_eq]
    exact h.modes
  refine embeddedCode_eq (q := behind q) bump_started ?_ ?_ ?_ (expression_hashed hcode h)
    (behind_current h) rfl hmodes hmode
  · show (hashStream text).afterTrivia = false
    rw [hstream.steady.afterTrivia, hstream.look_eq.trans (look_opening text)]
    rfl
  · unfold Parser.isAtAny
    rw [hashed_current]
    decide
  · unfold Parser.isAtAny
    rw [hashed_current]
    decide

/-- The block is read as a whole, if its code is read up to the closing brace. -/
theorem document_enclosed {closed : Closed}
    (hcode : code (rules ((enclosed text).length + 1)) closingDelimiters (opened text) =
      .ok (closed, q)) (h : Closing text q) :
    document (rulesFor (enclosed text)) .markup (ofSource (enclosed text) .markup) =
      .ok (⟨0⟩, outer q) := by
  have hcurrent : (ofSource (enclosed text) .markup).started.current = .hash :=
    congrArg Token.kind (current_hash text)
  have hsize : 0 < q.events.size := (Array.getElem?_eq_some_iff.1 h.starts.1).1
  refine markup_eq_embedded hcurrent (embeddedCode_enclosed hcode h) ?_ ?_
  · -- The markup ends behind the block.
    have hrelex := h.bumped.steady.relex .markup
    show (q.bump.stream.relex .markup).kind = .eof
    rw [h.bump_eq, hrelex.steady.kind_eq]
    unfold Stream.look
    rw [hrelex.source, hrelex.mode, hrelex.consumed, h.bumped.source]
    show (TypstFormat.look q.source .markup _).token.kind = .eof
    rw [h.source, h.look_bump]
    rfl
  · show ((q.bump.events.setIfInBounds 3 _).push .finish)[0]? = _
    rw [h.bump_eq, Array.getElem?_push_lt (by simp), ← Array.getElem?_eq_getElem (by simp),
      Array.getElem?_setIfInBounds_ne (by decide), Array.getElem?_push_lt hsize,
      ← Array.getElem?_eq_getElem hsize]
    exact h.starts.1

end Enclosed

/-! ## Both sides -/

/-- What two parsers have come to that have read a text of code and the block that holds it. -/
structure Sides.Read (text : List Char) (children children' : List Draft) (q q' : Parser) :
    Prop where
  reads : Spans (ofSource text .code) [.node .code false children] q
  reads' : Spans (Enclosed.opened text) [.node .code false children'] q'
  near : (Sides.enclosed text).At .come 0 0 (.whole .code) q q'
  closing : Enclosed.Closing text q'
  document : document (rulesFor (TypstFormat.enclosed text)) .markup
    (ofSource (TypstFormat.enclosed text) .markup) = .ok (⟨0⟩, Enclosed.outer q')
  clean : q.findings = []
  found : q'.stream.scanner.findings = []
  findings : q'.findings = []

namespace Enclosed

variable {text : List Char}

/-- The end of a text is that of the block that holds it. -/
theorem ending_of_at {q q' : Parser} (h : (Sides.enclosed text).At .come 0 0 (.whole .code) q q')
    (heof : q.stream.kind = .eof) : Ending text q.look q'.look := by
  have hmode := h.mode_eq_scope
  have hlook := h.look_eq
  have hlook' := h.look_eq'
  rw [hmode] at hlook hlook'
  change q.look = look text .code q.stream.consumed at hlook
  change q'.look = look (enclosed text) .code q'.stream.consumed at hlook'
  have hspent : Spent text q.stream.consumed := by
    unfold Spent
    rw [← hlook, ← heof]
    exact h.steady.kind_eq.symm
  rw [hlook, hlook']
  rcases h.consumed with ⟨hle, hplace⟩ | ⟨hfirst, hfirst'⟩
  · rw [hplace]
    exact ending_of_spent hspent hle
  · rw [hfirst, hfirst']
    rw [hfirst] at hspent
    exact ending_first hspent

end Enclosed

open Enclosed in
/-- A text of code that is read without complaint is read in a block as well. -/
theorem Sides.read_enclosed {text : List Char} {parsed : Parsed} (h : parse text .code = .ok parsed)
    (hclean : parsed.diagnostics = []) : ∃ children children' q q',
      parsed.ReadBy children q ∧ Sides.Read text children children' q q' := by
  obtain ⟨hsource, hmode, children, q, hread⟩ := parse_readBy h
  obtain ⟨closed, hrun⟩ := hread.run
  rw [hsource, hmode] at hrun
  have hreads := hread.reads
  rw [hsource, hmode] at hreads
  obtain ⟨hfound, hfindings⟩ := Parser.allDiagnostics_eq_nil.1 (hread.diagnostics_eq ▸ hclean)
  rw [hreads.ok.steady.findings, List.append_eq_nil_iff] at hfound
  -- The code of the block is read, whatever comes of it.
  have hopened := streams_opened text
  have hok : (opened text).Ok := ⟨hopened.steady, List.forall_mem_nil _⟩
  have hplain : (opened text).Plain := .inr (by rintro _ ⟨⟩; rfl)
  have hleft : (opened text).left < (TypstFormat.enclosed text).length + 1 := by
    unfold Parser.left
    rw [show (opened text).source = _ from hopened.source]
    omega
  obtain ⟨closed', q', hrun', ⟨children', hreads'⟩, -⟩ :=
    code_returns (rules_adequate _) hok hopened.mode hplain hleft closingDelimiters
  have hat := code_at hrun hfindings hfound.2 hrun'
  have hnil := hat.findings
  rw [hfindings, List.forall₂_nil_left_iff] at hnil
  have hnil' := hat.found
  rw [hfound.2, List.forall₂_nil_left_iff] at hnil'
  have hending := ending_of_at hat hread.eof
  cases hending with
  | lost _ hne => exact absurd hfound.1 hne
  | brace htoken _ hforall =>
    have hforall : List.Forall₂ _ q.stream.look.findings q'.stream.look.findings := hforall
    rw [hfound.1, List.forall₂_nil_left_iff] at hforall
    have hstart {k : Nat} (hk : (Sides.enclosed text).front[k]? = some .tombstone) :
        q'.events[k]? = some .tombstone := by
      obtain ⟨hlt, _⟩ := List.getElem?_eq_some_iff.1 hk
      rw [hat.events.front k hlt, hk]
    have hclosing : Closing text q' := {
      steady := hreads'.ok.steady
      source := hreads'.source_eq.trans hopened.source
      mode := hreads'.mode_eq.trans hopened.mode
      token := htoken
      modes := hreads'.modes_eq
      breakRules := hreads'.breakRules_eq
      starts := ⟨hstart rfl, hstart rfl⟩ }
    refine ⟨children, children', q, q', hread, hreads, hreads'.toSpans, hat, hclosing,
      document_enclosed hrun' hclosing, hfindings, ?_, hnil⟩
    rw [hreads'.ok.steady.findings, hforall, hnil']
    rfl

end TypstFormat
