import TypstFormat.Proofs.Token.Boundary
import TypstFormat.Proofs.Token.Flaw

/-!
# Texts that go on with another line

When another line is put behind a text, its lexemes stay as they are, but for the last ones: white
space at the end of the text goes on into the line break, and what lacks its end may find it behind
the text. `Lexeme.Continued` lists these cases.

## Key results

- `Lexeme.continued_scan`: what becomes of the first lexeme of a text
-/

namespace TypstFormat

open Text

/-- A text agrees with itself and more behind it, if that starts with a character that ends it. -/
theorem SameUpTo.append {ends : Char → Bool} (rest : List Char) {back : List Char}
    (h : back.head?.all ends = true) : SameUpTo ends rest (rest ++ back) := by
  induction rest with
  | nil => exact .stop rfl h
  | cons c rest ih =>
    cases hc : ends c with
    | false => exact .cons hc ih
    | true => exact .stop hc hc

namespace Lexeme

/-! ## What has to be closed -/

/-- A string that is closed stays as it is. -/
theorem stringSpan_append_of_closed (rest back : List Char)
    (h : (stringSpan rest).closed = true) : stringSpan (rest ++ back) = stringSpan rest := by
  fun_induction stringSpan rest with
  | case1 => cases h
  | case2 rest => rfl
  | case3 c rest _ ih =>
    rw [List.cons_append, List.cons_append, stringSpan, ih h]
  | case4 => cases h
  | case5 c rest hquote hescape hend ih =>
    -- The character is no backslash, so it is read in the same way in front of any text.
    have hc : c ≠ '\\' := by
      rintro rfl
      cases rest with
      | nil => exact hend rfl rfl
      | cons d rest => exact hescape d rest rfl rfl
    rw [List.cons_append, stringSpan, ih h]
    · exact hquote
    · exact fun _ _ heq => absurd heq hc
    · exact fun heq => absurd heq hc

/-- A comment that is closed stays as it is. -/
theorem commentSpan_append_of_closed (depth : Nat) (rest back : List Char)
    (h : (commentSpan depth rest).closed = true) :
    commentSpan depth (rest ++ back) = commentSpan depth rest := by
  fun_induction commentSpan depth rest with
  | case1 => cases h
  | case2 rest => rfl
  | case3 depth rest ih => simp only [List.cons_append, commentSpan, ih h]
  | case4 depth rest ih => simp only [List.cons_append, commentSpan, ih h]
  | case5 depth c rest hclose hcloseInner hopen ih =>
    have hne : rest ≠ [] := by
      rintro rfl
      cases h
    obtain ⟨d, rest, rfl⟩ := List.exists_cons_of_ne_nil hne
    have heq {e : Char} {more : List Char} (heq : (d :: rest) ++ back = e :: more) :
        ∃ more, d :: rest = e :: more := ⟨rest, by rw [(List.cons.inj heq).1]⟩
    rw [List.cons_append, commentSpan, ih h]
    · intro more hc hmore
      obtain ⟨more, hmore⟩ := heq hmore
      exact hopen more hc hmore
    · intro more hdepth hc hmore
      obtain ⟨more, hmore⟩ := heq hmore
      exact hclose more hdepth hc hmore
    · intro depth' more hdepth hc hmore
      obtain ⟨more, hmore⟩ := heq hmore
      exact hcloseInner depth' more hdepth hc hmore

/-- A comment that is not closed takes what is put behind it, if that closes or opens none. -/
theorem commentSpan_append_of_open (depth : Nat) (rest : List Char) {back : List Char}
    (hback : ∀ c ∈ back, c ≠ '*' ∧ c ≠ '/') (h : (commentSpan depth rest).closed = false) :
    (commentSpan depth (rest ++ back)).closed = false := by
  fun_induction commentSpan depth rest with
  | case1 depth =>
    induction back with
    | nil => cases depth <;> rfl
    | cons c back ih =>
      obtain ⟨⟨hstar, hslash⟩, hback⟩ := List.forall_mem_cons.1 hback
      rw [List.nil_append, commentSpan]
      · exact ih hback
      · exact fun _ hc _ => hslash hc
      · exact fun _ _ hc _ => hstar hc
      · exact fun _ _ _ hc _ => hstar hc
  | case2 => cases h
  | case3 depth rest ih => exact ih h
  | case4 depth rest ih => exact ih h
  | case5 depth c rest hclose hcloseInner hopen ih =>
    -- The first character opens or closes nothing together with what is put behind the text either.
    have heq {e : Char} (he : e = '*' ∨ e = '/') {more : List Char}
        (heq : rest ++ back = e :: more) : ∃ more, rest = e :: more := by
      cases rest with
      | nil =>
        have hmem : e ∈ back := (show back = e :: more from heq) ▸ List.mem_cons_self
        obtain ⟨hstar, hslash⟩ := hback e hmem
        exact he.elim (absurd · hstar) (absurd · hslash)
      | cons d rest => exact ⟨rest, by rw [(List.cons.inj heq).1]⟩
    rw [List.cons_append, commentSpan]
    · exact ih h
    · intro more hc hmore
      obtain ⟨more, hmore⟩ := heq (.inl rfl) hmore
      exact hopen more hc hmore
    · intro more hdepth hc hmore
      obtain ⟨more, hmore⟩ := heq (.inr rfl) hmore
      exact hclose more hdepth hc hmore
    · intro depth' more hdepth hc hmore
      obtain ⟨more, hmore⟩ := heq (.inr rfl) hmore
      exact hcloseInner depth' more hdepth hc hmore

/-- Raw text that is closed stays as it is. -/
theorem rawSpan_append_of_closed (fence run : Nat) (rest back : List Char)
    (h : (rawSpan fence run rest).closed = true) :
    rawSpan fence run (rest ++ back) = rawSpan fence run rest := by
  fun_induction rawSpan fence run rest with
  | case1 => cases h
  | case2 run c rest run' hrun =>
    rw [List.cons_append, rawSpan]
    exact if_pos hrun
  | case3 run c rest run' hrun ih =>
    rw [List.cons_append, rawSpan]
    exact (if_neg hrun).trans (congrArg (Span.grow 1) (ih h))

variable {mode : Mode} {c : Char} {rest back : List Char}

/-- What becomes of the first lexeme of a text when another line is put behind the text. -/
inductive Continued (mode : Mode) (c : Char) (rest back : List Char) (lexeme lexeme' : Lexeme) :
    Prop where
  /-- Nothing. -/
  | same : lexeme' = lexeme → Continued mode c rest back lexeme lexeme'
  /-- White space up to the end of the text goes on into the line break. -/
  | blank : (∀ d ∈ c :: rest, isSpace d = true) → Continued mode c rest back lexeme lexeme'
  /-- A comment that is not closed takes all of the new line. -/
  | comment : c = '/' → rest.head? = some '*' → (blockComment rest).flaw ≠ none →
    (blockComment rest).tail = rest.length →
    (blockComment (rest ++ back)).tail = (rest ++ back).length →
    Continued mode c rest back lexeme lexeme'
  /-- A string or raw text lacks its end. -/
  | unclosed : lexeme.kind ∈ [Kind.str, .raw] → lexeme'.kind = lexeme.kind →
    lexeme.containsNewline = false → lexeme'.containsNewline = false →
    lexeme.flaw ≠ none → lexeme.tail = rest.length → Continued mode c rest back lexeme lexeme'
  /-- A code point in braces lacks the closing brace. -/
  | escape : mode ≠ .code → lexeme.kind = .escape → lexeme'.kind = .escape →
    lexeme.containsNewline = false → lexeme'.containsNewline = false →
    lexeme.tail = rest.length → Continued mode c rest back lexeme lexeme'

private theorem flaw_ne_none {span : Span} (h : span.closed = false) (issue : Issue) :
    span.flaw issue ≠ none := by
  unfold Span.flaw
  rw [h]
  simp

/-- Strings and raw text find the same end, or none in the text itself. -/
private theorem Delimited.continued {lexeme lexeme' : Lexeme} (h : Delimited c rest lexeme)
    (h' : Delimited c (rest ++ back) lexeme') (hmem : lexeme.kind ∈ [Kind.str, .raw])
    (hkind : lexeme'.kind = lexeme.kind) (hsame : lexeme.flaw = none → lexeme' = lexeme) :
    Continued mode c rest back lexeme lexeme' := by
  cases hflaw : lexeme.flaw with
  | none => exact .same (hsame hflaw)
  | some flaw =>
    have hne : lexeme.flaw ≠ none := by
      rw [hflaw]
      simp
    exact .unclosed hmem hkind h.containsNewline_eq_false h'.containsNewline_eq_false hne
      (h.tail_eq hne)

private theorem closed_of_flaw_eq_none {span : Span} {issue : Issue}
    (h : span.flaw issue = none) : span.closed = true := by
  cases hclosed : span.closed with
  | true => rfl
  | false => exact absurd h (flaw_ne_none hclosed issue)

private theorem continued_string :
    Continued mode '\x22' rest back (string rest) (string (rest ++ back)) :=
  (Delimited.string rfl).continued (.string rfl) List.mem_cons_self rfl fun hflaw => by
    have hclosed : (stringSpan rest).closed = true := closed_of_flaw_eq_none hflaw
    unfold string
    rw [stringSpan_append_of_closed rest back hclosed]

private theorem continued_blockComment (h : rest.head? = some '*')
    (hback : ∀ c ∈ back, c ≠ '*' ∧ c ≠ '/') :
    Continued mode '/' rest back (blockComment rest) (blockComment (rest ++ back)) := by
  cases hflaw : (blockComment rest).flaw with
  | none =>
    obtain ⟨rest, rfl⟩ := List.head?_eq_some_iff.1 h
    have hclosed : (commentSpan 0 rest).closed = true := closed_of_flaw_eq_none hflaw
    refine .same ?_
    simp only [blockComment, List.cons_append, List.drop_succ_cons, List.drop_zero,
      commentSpan_append_of_closed 0 rest back hclosed]
  | some flaw =>
    have hne : (blockComment rest).flaw ≠ none := by
      rw [hflaw]
      simp
    have hhead : (rest ++ back).head? = some '*' := by
      rw [List.head?_append, h]
      rfl
    refine .comment rfl h hne ((Delimited.comment rfl h).tail_eq hne)
      ((Delimited.comment rfl hhead).tail_eq (flaw_ne_none ?_ _))
    obtain ⟨rest, rfl⟩ := List.head?_eq_some_iff.1 h
    refine commentSpan_append_of_open 0 rest hback ?_
    cases hclosed : (commentSpan 0 rest).closed with
    | false => rfl
    | true => exact absurd (if_pos hclosed) hne

theorem raw_eq {text : List Char} {n : Nat}
    (h : (text.takeWhile (· = '\x60')).length = n) (hn : n ≠ 1) :
    raw text = { kind := .raw, tail := n + (rawSpan (n + 1) 0 (text.drop n)).length
                 flaw := (rawSpan (n + 1) 0 (text.drop n)).flaw .unterminatedRaw } := by
  unfold raw
  simp only [h, hn, if_false]

private theorem continued_whitespace (hc : mode.isBlank c = true) :
    Continued mode c rest back (whitespace mode c rest) (whitespace mode c (rest ++ back)) := by
  by_cases hall : (rest.takeWhile mode.isBlank).length = rest.length
  · refine .blank (List.forall_mem_cons.2 ⟨Mode.isSpace_of_isBlank hc, fun d hd => ?_⟩)
    have heq := (List.takeWhile_sublist mode.isBlank).eq_of_length hall
    rw [← heq] at hd
    exact Mode.isSpace_of_isBlank (List.mem_takeWhile_imp hd)
  · refine .same ?_
    unfold whitespace
    rw [List.takeWhile_append, if_neg hall]

section

variable (hback : back.head?.any isLineBreak = true)

include hback

private theorem head?_all {ends : Char → Bool} (hends : ∀ c, isLineBreak c = true → ends c = true) :
    back.head?.all ends = true := by
  cases back with
  | nil => rfl
  | cons c back => exact hends c hback

private theorem sameUpTo_append (rest : List Char) : SameUpTo isLineBreak rest (rest ++ back) :=
  .append rest (head?_all hback fun _ => id)

private theorem continued_raw : Continued mode '\x60' rest back (raw rest) (raw (rest ++ back)) := by
  have hq : ∀ c, isLineBreak c = true → decide (c = '\x60') = false := by
    rintro c hc
    refine decide_eq_false ?_
    rintro rfl
    exact absurd hc (by decide)
  have hfence := congrArg List.length ((sameUpTo_append hback rest).takeWhile_eq hq)
  have hle := (List.takeWhile_sublist (· = '\x60') (l := rest)).length_le
  generalize hn : (rest.takeWhile (· = '\x60')).length = n at hfence hle
  by_cases hone : n = 1
  · refine .same ?_
    subst hone
    unfold raw
    simp only [hfence, hn, if_true]
  · have hraw := raw_eq hn hone
    have hraw' := raw_eq hfence hone
    refine (Delimited.raw rfl).continued (.raw rfl) ?_ ?_ fun hflaw => ?_
    · rw [hraw]
      simp
    · rw [hraw, hraw']
    · rw [hraw] at hflaw
      have hclosed : (rawSpan (n + 1) 0 (rest.drop n)).closed = true := closed_of_flaw_eq_none hflaw
      rw [hraw, hraw', List.drop_append_of_le_length hle, rawSpan_append_of_closed _ _ _ _ hclosed]

private theorem continued_backslash (hmode : mode ≠ .code) :
    Continued mode '\\' rest back (backslash mode rest) (backslash mode (rest ++ back)) := by
  by_cases hbrace : ['u', '{'].isPrefixOf rest = true
  · obtain ⟨digits, rfl⟩ := List.isPrefixOf_iff_prefix.1 hbrace
    have hbackslash (text : List Char) : backslash mode ('u' :: '{' :: text) =
        { kind := .escape
          tail := 2 + (text.takeWhile (· ≠ '}')).length +
            ((text.drop (text.takeWhile (· ≠ '}')).length).take 1).length
          hasEscape := true } := rfl
    simp only [List.cons_append, List.nil_append, hbackslash]
    by_cases hall : (digits.takeWhile (· ≠ '}')).length = digits.length
    · refine .escape hmode rfl rfl rfl rfl ?_
      simp only [hall, List.drop_length, List.take_nil, List.length_nil, List.length_cons]
      omega
    · have hle := (List.takeWhile_sublist (· ≠ '}') (l := digits)).length_le
      have htake : (digits ++ back).takeWhile (· ≠ '}') = digits.takeWhile (· ≠ '}') := by
        rw [List.takeWhile_append, if_neg hall]
      refine .same ?_
      rw [htake, List.drop_append_of_le_length hle, List.take_append_of_le_length]
      rw [List.length_drop]
      omega
  · have hsame := sameUpTo_append hback rest
    have hbrace' : ¬['u', '{'].isPrefixOf (rest ++ back) = true := by
      rw [hsame.isPrefixOf_eq ['u', '{'] (by decide)]
      exact hbrace
    exact .same (backslash_congr hsame (fun _ => Mode.isBlank_of_isLineBreak) hbrace hbrace')

/-- When another line is put behind a text, its first lexeme stays as it is, or it reaches up to the
end of the text. -/
theorem continued_scan (hplain : ∀ c ∈ back, c ≠ '*' ∧ c ≠ '/') {before before' : Option Char}
    (hbefore : before'.any isAlphanumeric = before.any isAlphanumeric) (c : Char) :
    Continued mode c rest back (scan mode before c rest) (scan mode before' c (rest ++ back)) := by
  have hline := sameUpTo_append hback rest
  have hspace : SameUpTo isSpace rest (rest ++ back) :=
    .append rest (head?_all hback fun _ => isSpace_of_isLineBreak)
  have hstart {d : Char} (hd : isLineBreak d = false) :
      c = '/' ∧ (rest ++ back).head? = some d ↔ c = '/' ∧ rest.head? = some d :=
    and_congr_right fun _ => hline.head?_eq_iff hd
  have hslash := hstart (d := '/') (by decide)
  have hstar := hstart (d := '*') (by decide)
  -- The line break takes the place of the end of the text in all tests of what comes next, so that
  -- both sides branch in the same way. Then only what has an end of its own can go on.
  unfold scan
  by_cases hblank : mode.isBlank c = true
  · rw [if_pos hblank, if_pos hblank]
    exact continued_whitespace hblank
  rw [if_neg hblank, if_neg hblank]
  by_cases hcomment : c = '/' ∧ rest.head? = some '/'
  · rw [if_pos hcomment, if_pos (hslash.2 hcomment)]
    obtain ⟨text, rfl⟩ := List.head?_eq_some_iff.1 hcomment.2
    have hq : ∀ c, isLineBreak c = true → (!isLineBreak c) = false := by
      intro c hc
      rw [hc]
      rfl
    refine .same ?_
    simp only [lineComment, List.cons_append, List.drop_succ_cons, List.drop_zero,
      (sameUpTo_append hback text).takeWhile_eq hq]
  rw [if_neg hcomment, if_neg (mt hslash.1 hcomment)]
  by_cases hopen : c = '/' ∧ rest.head? = some '*'
  · rw [if_pos hopen, if_pos (hstar.2 hopen)]
    obtain ⟨rfl, hrest⟩ := hopen
    exact continued_blockComment hrest hplain
  rw [if_neg hopen, if_neg (mt hstar.1 hopen)]
  cases mode with
  | markup =>
    by_cases hbackslash : c = '\\'
    · subst hbackslash
      exact continued_backslash hback (by decide)
    · by_cases hraw : c = '\x60'
      · subst hraw
        exact continued_raw hback
      · exact .same (markup_congr hline hbefore hbackslash hraw)
  | code =>
    by_cases hstring : c = '\x22'
    · subst hstring
      exact continued_string
    · by_cases hraw : c = '\x60'
      · subst hraw
        exact continued_raw hback
      · exact .same (code_congr hspace (Bool.eq_false_iff.2 hblank) hstring hraw)
  | math =>
    by_cases hbackslash : c = '\\'
    · subst hbackslash
      exact continued_backslash hback (by decide)
    · by_cases hstring : c = '\x22'
      · subst hstring
        exact continued_string
      · exact .same (math_congr hspace hstring hbackslash)

end

end Lexeme

end TypstFormat
