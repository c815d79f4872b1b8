import TypstFormat.Proofs.Token.Look
import Mathlib.Data.List.Chain

/-!
# Reading a whole source

`tokenize` cuts a source into tokens in one mode. The tokens lie side by side from its start to its
end (`Token.Cover`), and this alone says most of what is worth knowing: their texts are the source,
and two pieces of white space never meet, since the first one would have taken the second one too.

## Key results

- `Token.IsCut.breaks_behind`: a line comment is followed by a line break
- `Scanner.cover_tokensUpTo`: what the scanner finds covers the source behind it
- `tokenize_lossless`: the tokens of a source are the source, and its white space says what it holds
-/

namespace TypstFormat

namespace Token

/-- The tokens lie side by side from an offset of a source up to its end, all cut out of it in one
mode. -/
def Cover (source : List Char) (mode : Mode) : Nat → List Token → Prop
  | start, [] => start = source.length
  | start, token :: rest =>
    token.range.start = start ∧ token.IsCut source mode ∧
      Cover source mode token.range.stop rest

/-- A token may stand right in front of another one. -/
def Meets (token next : Token) : Prop :=
  next.range.start = token.range.stop ∧
    ¬(token.kind.isSpace = true ∧ next.kind.isSpace = true)

/-- What white space says of itself is true of its text. A carriage return and the line feed behind
it are one line break. -/
def Describes (mode : Mode) (text : List Char) (token : Token) : Prop :=
  (token.containsNewline = true ↔ ∃ c ∈ text, Text.isLineBreak c = true) ∧
    (token.kind = .parbreak ↔
      mode = .markup ∧ (text.zip text.tail).count ('\r', '\n') + 2 ≤ text.countP Text.isLineBreak)

theorem drop_length_takeWhile (p : Char → Bool) (text : List Char) :
    text.drop (text.takeWhile p).length = text.dropWhile p :=
  calc text.drop (text.takeWhile p).length
      = (text.takeWhile p ++ text.dropWhile p).drop (text.takeWhile p).length := by
        rw [List.takeWhile_append_dropWhile]
    _ = text.dropWhile p := List.drop_left

namespace IsCut

variable {source : List Char} {mode : Mode} {token next : Token}

theorem text_eq (h : token.IsCut source mode) : token.text source = token.range.slice source :=
  if_neg h.1

/-- The text of a token and the source behind the token are the source from the token on. -/
theorem text_append_drop (h : token.IsCut source mode) :
    token.text source ++ source.drop token.range.stop = source.drop token.range.start := by
  have hstop : token.range.stop = token.range.start + token.range.length := by
    have := token.range.start_le_stop
    unfold Text.Range.length
    omega
  rw [h.text_eq, Text.Range.slice, hstop, ← List.drop_drop, List.take_append_drop]

/-- White space is a blank, with all the blanks behind it. -/
theorem whitespace_eq (h : token.IsCut source mode) (hspace : token.kind.isSpace = true) :
    ∃ c rest, source.drop token.range.start = c :: rest ∧ mode.isBlank c = true ∧
      token = Scanner.tokenAt token.range.start (Lexeme.whitespace mode c rest) ∧
      token.text source = c :: rest.takeWhile mode.isBlank ∧
      source.drop token.range.stop = rest.dropWhile mode.isBlank := by
  obtain ⟨before, c, rest, hdrop, heq, _⟩ := h.scan_eq
  have hkind : (Lexeme.scan mode before c rest).kind.isSpace = true := by
    rw [heq] at hspace
    exact hspace
  obtain ⟨hblank, hscan⟩ := Lexeme.whitespace_of_scan_isSpace hkind
  rw [hscan] at heq
  have hstop : token.range.stop =
      token.range.start + ((rest.takeWhile mode.isBlank).length + 1) := by
    rw [heq]
    rfl
  -- The blanks that are taken and what is left make up the source behind the first blank.
  have hbehind : source.drop token.range.stop = rest.dropWhile mode.isBlank := by
    rw [hstop, ← List.drop_drop, hdrop, List.drop_succ_cons, drop_length_takeWhile]
  refine ⟨c, rest, hdrop, hblank, heq, ?_, hbehind⟩
  have happend : token.text source ++ rest.dropWhile mode.isBlank =
      (c :: rest.takeWhile mode.isBlank) ++ rest.dropWhile mode.isBlank := by
    rw [List.cons_append, List.takeWhile_append_dropWhile, ← hdrop, ← hbehind]
    exact h.text_append_drop
  exact List.append_cancel_right happend

/-- Behind white space there is no other white space. -/
theorem meets (h : token.IsCut source mode) (hnext : next.IsCut source mode)
    (hstart : next.range.start = token.range.stop) : token.Meets next := by
  refine ⟨hstart, fun ⟨hspace, hmore⟩ => ?_⟩
  obtain ⟨_, rest, _, _, _, _, hbehind⟩ := h.whitespace_eq hspace
  obtain ⟨d, rest', hdrop, hblank, _⟩ := hnext.whitespace_eq hmore
  -- The first character behind the blanks would have to be a blank.
  rw [hstart, hbehind] at hdrop
  have hnot := List.head?_dropWhile_not mode.isBlank rest
  rw [hdrop] at hnot
  simp [hblank] at hnot

/-- Behind a line comment comes white space that starts with a line break. -/
theorem breaks_behind {mode' : Mode} (h : token.IsCut source mode)
    (hkind : token.kind = .lineComment) (hnext : next.IsCut source mode')
    (hstart : next.range.start = token.range.stop) :
    next.kind.isSpace = true ∧
      (next.range.slice source).head?.any Text.isLineBreak = true := by
  obtain ⟨before, c, rest, hdrop, heq, _⟩ := h.scan_eq
  have hscan : (Lexeme.scan mode before c rest).kind = .lineComment := by
    rw [← hkind, heq]
    rfl
  obtain ⟨-, -, hcomment⟩ := Lexeme.lineComment_of_scan hscan
  rw [hcomment] at heq
  -- The comment takes all characters in front of a line break, so the next one is one.
  have hbehind : source.drop token.range.stop =
      (rest.drop 1).dropWhile fun c => !Text.isLineBreak c := by
    have hstop : token.range.stop = token.range.start +
        (1 + ((rest.drop 1).takeWhile fun c => !Text.isLineBreak c).length + 1) := by
      rw [heq]
      rfl
    rw [hstop, ← List.drop_drop, hdrop, List.drop_succ_cons, ← List.drop_drop,
      drop_length_takeWhile]
  obtain ⟨before', d, rest', hdrop', heq', _⟩ := hnext.scan_eq
  have hbreak : Text.isLineBreak d = true := by
    have hhead := List.head?_dropWhile_not (fun c => !Text.isLineBreak c) (rest.drop 1)
    rw [← hbehind, ← hstart, hdrop'] at hhead
    simpa using hhead
  have hspace : next.kind.isSpace = true := by
    have hscan' : Lexeme.scan mode' before' d rest' = Lexeme.whitespace mode' d rest' :=
      if_pos (Mode.isBlank_of_isLineBreak hbreak)
    rw [heq', hscan']
    unfold Lexeme.whitespace Scanner.tokenAt
    dsimp only
    split <;> rfl
  obtain ⟨e, more, hdrop'', -, -, htext, -⟩ := hnext.whitespace_eq hspace
  obtain ⟨rfl, -⟩ := List.cons.inj (hdrop'.symm.trans hdrop'')
  rw [← hnext.text_eq, htext]
  exact ⟨hspace, hbreak⟩

/-- What white space says of itself goes by the line breaks in it. -/
theorem lineBreaks_eq (h : token.IsCut source mode) (hspace : token.kind.isSpace = true) :
    token.containsNewline = decide (0 < Lexeme.lineBreaks (token.text source)) ∧
      token.kind =
        if mode = .markup ∧ 2 ≤ Lexeme.lineBreaks (token.text source) then .parbreak
        else .space := by
  obtain ⟨c, rest, _, _, heq, htext, _⟩ := h.whitespace_eq hspace
  rw [htext, heq]
  exact ⟨rfl, rfl⟩

/-- Two lines end where a paragraph does. -/
theorem two_le_lineBreaks (h : token.IsCut source mode) (hkind : token.kind = .parbreak) :
    2 ≤ Lexeme.lineBreaks (token.text source) := by
  have hbreaks := (h.lineBreaks_eq (by rw [hkind]; rfl)).2
  rw [hkind] at hbreaks
  by_contra hfew
  rw [if_neg fun h => hfew h.2] at hbreaks
  cases hbreaks

theorem describes (h : token.IsCut source mode) (hspace : token.kind.isSpace = true) :
    token.Describes mode (token.text source) := by
  obtain ⟨hnewline, hkind⟩ := h.lineBreaks_eq hspace
  have hcount := Lexeme.lineBreaks_add_count (token.text source)
  rw [Describes, hnewline, hkind, decide_eq_true_iff]
  refine ⟨Lexeme.lineBreaks_pos_iff, ?_⟩
  rw [← hcount, Nat.add_comm, Nat.add_le_add_iff_right]
  split
  · exact iff_of_true rfl ‹_›
  · exact iff_of_false (by decide) ‹_›

end IsCut

namespace Cover

variable {source : List Char} {mode : Mode} {start : Nat} {tokens : List Token}

theorem isCut (h : Cover source mode start tokens) : ∀ token ∈ tokens, token.IsCut source mode := by
  induction tokens generalizing start with
  | nil => simp
  | cons token rest ih =>
    obtain ⟨_, hcut, hrest⟩ := h
    exact List.forall_mem_cons.2 ⟨hcut, ih hrest⟩

/-- The first token, or the end of the source if there is none, stands at the offset. -/
theorem start_eq (h : Cover source mode start tokens) :
    (tokens ++ [Token.eof source.length]).head?.map (·.range.start) = some start := by
  cases tokens with
  | nil => exact congrArg some h.symm
  | cons token rest => exact congrArg some h.1

theorem flatMap_text (h : Cover source mode start tokens) :
    tokens.flatMap (Token.text source) = source.drop start := by
  induction tokens generalizing start with
  | nil =>
    have hend : start = source.length := h
    rw [hend, List.drop_length]
    rfl
  | cons token rest ih =>
    obtain ⟨hstart, hcut, hrest⟩ := h
    rw [List.flatMap_cons, ih hrest, hcut.text_append_drop, hstart]

theorem isChain (h : Cover source mode start tokens) :
    (tokens ++ [Token.eof source.length]).IsChain Meets := by
  induction tokens generalizing start with
  | nil => exact List.isChain_singleton _
  | cons token rest ih =>
    obtain ⟨_, hcut, hrest⟩ := h
    rw [List.cons_append, List.isChain_cons]
    refine ⟨?_, ih hrest⟩
    -- What stands behind the token is the end of the source or a token cut out of it.
    cases rest with
    | nil =>
      have hend : token.range.stop = source.length := hrest
      simp [Meets, Token.eof, hend, Kind.isSpace]
    | cons next rest =>
      obtain ⟨hstart, hnext, _⟩ := hrest
      simpa using hcut.meets hnext hstart

end Cover

end Token

/-- The tokens that a scanner finds cover the source behind it. The fuel counts down the characters
that are left, of which each token takes one, so the end token is always reached. -/
theorem Scanner.cover_tokensUpTo (fuel : Nat) (s : Scanner) (hle : s.position ≤ s.source.length)
    (hfuel : s.remaining ≤ fuel) :
    ∃ tokens, (tokensUpTo fuel s).1 = tokens ++ [Token.eof s.source.length] ∧
      Token.Cover s.source s.mode s.position tokens := by
  induction fuel generalizing s with
  | zero =>
    have hend : s.position = s.source.length := by
      unfold remaining at hfuel
      omega
    have hnil : s.rest = [] := by
      rw [rest, hend, List.drop_length]
    refine ⟨[], ?_, hend⟩
    rw [tokensUpTo, next_of_rest_nil hnil, hend]
    rfl
  | succ fuel ih =>
    rw [tokensUpTo]
    by_cases hkind : s.next.1.kind = .eof
    · obtain ⟨hend, hnext⟩ := next_of_kind_eq_eof hle hkind
      refine ⟨[], ?_, hend⟩
      simp only [if_pos hkind]
      rw [hnext, hend]
      rfl
    · -- One token, and behind it the tokens that the induction speaks of.
      obtain ⟨hstart, _, hstop⟩ := range_next hkind
      have hless := remaining_next_lt hkind
      have hbehind : s.next.2.source = s.source ∧ s.next.2.mode = s.mode ∧
          s.next.2.position = s.next.1.range.stop := by
        rw [next_eq s]
        exact ⟨rfl, rfl, rfl⟩
      obtain ⟨hsource, hmode, hposition⟩ := hbehind
      obtain ⟨tokens, htokens, hcover⟩ := ih s.next.2 (by rw [hsource, hposition]; exact hstop)
        (by omega)
      rw [hsource] at htokens
      rw [hsource, hmode, hposition] at hcover
      refine ⟨s.next.1 :: tokens, ?_, hstart, isCut_next hkind, hcover⟩
      simp only [if_neg hkind, htokens, List.cons_append]

/-- Reading a source in any mode comes to its end: the last token is the end token, which stands
behind the last character, and no other token is one. The other tokens are not empty and lie side by
side from the start of the source, so their texts are the source; no two pieces of white space meet;
and white space knows of the line breaks that it holds. -/
theorem tokenize_lossless (source : List Char) (mode : Mode) :
    ∃ tokens, (tokenize source mode).1 = tokens ++ [Token.eof source.length] ∧
      (∀ token ∈ tokens, token.kind ≠ .eof ∧ token.range.start < token.range.stop) ∧
      (tokens ++ [Token.eof source.length]).head?.map (·.range.start) = some 0 ∧
      (tokens ++ [Token.eof source.length]).IsChain Token.Meets ∧
      tokens.flatMap (Token.text source) = source ∧
      ∀ token ∈ tokens, token.kind.isSpace = true →
        token.Describes mode (token.text source) := by
  obtain ⟨tokens, htokens, hcover⟩ := Scanner.cover_tokensUpTo _
    ({ source, mode } : Scanner) (Nat.zero_le _) (Nat.le_refl _)
  have hcut := hcover.isCut
  exact ⟨tokens, htokens, fun token h => ⟨(hcut token h).1, (hcut token h).range_lt.1⟩,
    hcover.start_eq, hcover.isChain, hcover.flatMap_text,
    fun token h hspace => (hcut token h).describes hspace⟩

end TypstFormat
