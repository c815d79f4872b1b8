import TypstFormat.Proofs.Token.Continued
import Mathlib.Data.List.Infix

/-!
# Text between quotes and fences

A text can be written so that it is read back as one token. Between double quotes, with a backslash
in front of each quote and each backslash, it is a string. Between two fences of as many backticks,
it is raw text, if no fence stands in it and no backtick at its ends. What comes behind does not
matter: both rules stop at the first end that they find, which is the one that was written.

## Key results

- `Lexeme.stringSpan_escaped`: a string ends at the quote behind the escaped text
- `Lexeme.rawSpan_fence`: raw text ends at the fence behind its body
- `tokenize_delimited_text`: quoted and fenced text is read as one token, without a diagnostic
-/

namespace TypstFormat

open Text (Range)

namespace Lexeme

/-- How a character is written in a string. -/
def escaped (c : Char) : List Char :=
  if c = '\x22' ∨ c = '\\' then ['\\', c] else [c]

/-- A text written as a string. -/
def quote (text : List Char) : List Char :=
  '\x22' :: (text.flatMap escaped ++ ['\x22'])

/-- A text between two fences of `run` backticks. -/
def fenced (run : Nat) (body : List Char) : List Char :=
  List.replicate run '\x60' ++ body ++ List.replicate run '\x60'

/-! ## Where a string ends -/

theorem stringSpan_escaped_cons (c : Char) (rest : List Char) :
    (stringSpan (escaped c ++ rest)).length = (escaped c).length + (stringSpan rest).length ∧
      (stringSpan (escaped c ++ rest)).closed = (stringSpan rest).closed := by
  unfold escaped
  by_cases hc : c = '\x22' ∨ c = '\\'
  · -- The backslash takes the character behind it along.
    rw [if_pos hc]
    exact ⟨Nat.add_comm _ _, rfl⟩
  · rw [if_neg hc]
    obtain ⟨hquote, hbackslash⟩ := not_or.1 hc
    rw [List.singleton_append, stringSpan]
    · exact ⟨Nat.add_comm _ _, rfl⟩
    · exact hquote
    · exact fun _ _ heq => absurd heq hbackslash
    · exact fun heq => absurd heq hbackslash

/-- A string ends at the quote behind the escaped text. -/
theorem stringSpan_escaped (text back : List Char) :
    (stringSpan (text.flatMap escaped ++ '\x22' :: back)).length =
        (text.flatMap escaped).length + 1 ∧
      (stringSpan (text.flatMap escaped ++ '\x22' :: back)).closed = true := by
  induction text with
  | nil => exact ⟨rfl, rfl⟩
  | cons c text ih =>
    obtain ⟨hlength, hclosed⟩ := stringSpan_escaped_cons c (text.flatMap escaped ++ '\x22' :: back)
    rw [List.flatMap_cons, List.append_assoc, hlength, hclosed, ih.1, List.length_append]
    exact ⟨(Nat.add_assoc _ _ _).symm, ih.2⟩

theorem string_quote (text back : List Char) :
    (string (text.flatMap escaped ++ '\x22' :: back)).tail + 1 = (quote text).length ∧
      (string (text.flatMap escaped ++ '\x22' :: back)).flaw = none := by
  obtain ⟨hlength, hclosed⟩ := stringSpan_escaped text back
  refine ⟨?_, if_pos hclosed⟩
  show (stringSpan _).length + 1 = _
  rw [hlength, quote, List.length_cons, List.length_append, List.length_singleton]

/-! ## Where raw text ends -/

/-- The backticks that a fence still lacks close the raw text. -/
theorem rawSpan_replicate {fence run n : Nat} (hrun : run < fence) (hn : run + n = fence)
    (back : List Char) :
    rawSpan fence run (List.replicate n '\x60' ++ back) = { length := n, closed := true } := by
  induction n generalizing run with
  | zero => omega
  | succ n ih =>
    rw [List.replicate_succ, List.cons_append, rawSpan, if_pos rfl]
    by_cases hlast : run + 1 = fence
    · obtain rfl : n = 0 := by omega
      exact if_pos hlast
    · rw [if_neg hlast, ih (by omega) (by omega)]
      rfl

/-- Raw text ends at the fence behind its body. Some backticks in front of the body may have been
counted already; together with them there must be no fence yet, and no backtick before the fence. -/
theorem rawSpan_fence {fence run : Nat} {body : List Char} (hrun : run < fence)
    (hclear : ¬List.replicate fence '\x60' <:+: List.replicate run '\x60' ++ body)
    (hlast : (List.replicate run '\x60' ++ body).getLast? ≠ some '\x60') (back : List Char) :
    rawSpan fence run (body ++ (List.replicate fence '\x60' ++ back)) =
      { length := body.length + fence, closed := true } := by
  induction body generalizing run with
  | nil =>
    have hzero : run = 0 := by
      by_contra hne
      rw [List.append_nil, List.getLast?_replicate, if_neg hne] at hlast
      exact hlast rfl
    subst hzero
    rw [List.nil_append, rawSpan_replicate hrun (Nat.zero_add _), List.length_nil, Nat.zero_add]
  | cons c body ih =>
    rw [List.cons_append, rawSpan]
    by_cases hc : c = '\x60'
    · -- The backtick is counted with those before it, and they do not make a fence yet.
      subst hc
      have hmove : List.replicate run '\x60' ++ '\x60' :: body =
          List.replicate (run + 1) '\x60' ++ body := by
        rw [List.replicate_succ', List.append_assoc, List.singleton_append]
      rw [hmove] at hclear hlast
      have hne : run + 1 ≠ fence := by
        rintro rfl
        exact hclear (List.prefix_append _ _).isInfix
      rw [if_pos rfl, if_neg hne, ih (by omega) hclear hlast]
      exact congrArg (Span.mk · true false) (Nat.add_right_comm _ _ _)
    · have hne : 0 ≠ fence := by omega
      have hclear : ¬List.replicate fence '\x60' <:+: List.replicate 0 '\x60' ++ body := fun h =>
        hclear (h.trans ((List.suffix_cons c body).trans (List.suffix_append _ _)).isInfix)
      have hlast : (List.replicate 0 '\x60' ++ body).getLast? ≠ some '\x60' := by
        cases body with
        | nil => simp
        | cons d body => simpa using hlast
      rw [if_neg hc, if_neg hne, ih (by omega) hclear hlast]
      exact congrArg (Span.mk · true false) (Nat.add_right_comm _ _ _)

/-- The raw text that starts with a fence ends with the next one. -/
theorem raw_fenced {n : Nat} {body : List Char} (hn : n ≠ 1) (hbody : body ≠ [])
    (hhead : body.head? ≠ some '\x60') (hlast : body.getLast? ≠ some '\x60')
    (hclear : ¬List.replicate (n + 1) '\x60' <:+: body) (back : List Char) :
    (raw (List.replicate n '\x60' ++ (body ++ (List.replicate (n + 1) '\x60' ++ back)))).tail + 1 =
        (fenced (n + 1) body).length ∧
      (raw (List.replicate n '\x60' ++ (body ++ (List.replicate (n + 1) '\x60' ++ back)))).flaw =
        none := by
  generalize hrest : body ++ (List.replicate (n + 1) '\x60' ++ back) = rest
  -- The body starts with another character, so the fence in front of it is `n + 1` long.
  have hfence : ((List.replicate n '\x60' ++ rest).takeWhile (· = '\x60')).length = n := by
    obtain ⟨c, body, rfl⟩ := List.exists_cons_of_ne_nil hbody
    have hc : c ≠ '\x60' := by simpa using hhead
    simp [← hrest, hc]
  have hdrop : (List.replicate n '\x60' ++ rest).drop n = rest :=
    List.drop_left' List.length_replicate
  have hspan : rawSpan (n + 1) 0 rest = { length := body.length + (n + 1), closed := true } := by
    rw [← hrest]
    exact rawSpan_fence n.succ_pos hclear hlast back
  rw [raw_eq hfence hn, hdrop, hspan]
  refine ⟨?_, rfl⟩
  simp only [fenced, List.length_append, List.length_replicate]
  omega

end Lexeme

/-! ## Reading a source -/

namespace Scanner

/-- What a scanner finds from its place on starts there or behind it. -/
theorem le_start_findings_tokensUpTo (fuel : Nat) (s : Scanner) :
    ∀ d ∈ (tokensUpTo fuel s).2.findings, d ∈ s.findings ∨ s.position ≤ d.range.start := by
  have hone (s : Scanner) : ∀ d ∈ s.next.2.findings, d ∈ s.findings ∨ s.position ≤ d.range.start := by
    intro d hd
    rw [next_eq] at hd
    refine (List.mem_append.1 hd).symm.imp_right fun hd => ?_
    exact Nat.le_of_eq (findings_next (s := s.bare) rfl d hd).2.1.symm
  induction fuel generalizing s with
  | zero => exact hone s
  | succ fuel ih =>
    rw [tokensUpTo]
    by_cases hkind : s.next.1.kind = .eof
    · simp only [if_pos hkind]
      exact hone s
    · simp only [if_neg hkind]
      intro d hd
      rcases ih s.next.2 d hd with hd | hle
      · exact hone s d hd
      · -- The next token stands behind this one.
        right
        have hposition : s.next.2.position = s.next.1.range.stop := by
          rw [next_eq]
        have hlt := (range_next hkind).2.1
        omega

end Scanner

/-- Read in a mode, a text with `back` behind it starts with one token of a kind for all of the text,
and all diagnostics are about what stands behind the text. -/
def ReadsAs (kind : Kind) (mode : Mode) (text back : List Char) : Prop :=
  ∃ token tokens, (tokenize (text ++ back) mode).1 = token :: tokens ∧ token.kind = kind ∧
    token.range = Range.ofLength 0 text.length ∧
    ∀ d ∈ (tokenize (text ++ back) mode).2, text.length ≤ d.range.start

/-- The first lexeme of a source is its first token. -/
theorem readsAs_of_scan {mode : Mode} {c : Char} {rest text back : List Char} {lexeme : Lexeme}
    (htext : text ++ back = c :: rest) (hscan : Lexeme.scan mode none c rest = lexeme)
    (hlength : lexeme.tail + 1 = text.length) (hflaw : lexeme.flaw = none) :
    ReadsAs lexeme.kind mode text back := by
  let s : Scanner := { source := text ++ back, mode }
  have hnext := Scanner.next_of_rest_cons (s := s) htext
  have hbefore : s.before = none := rfl
  rw [hbefore, hscan, hlength] at hnext
  have hkind : s.next.1.kind ≠ .eof := Scanner.kind_ne_eof_of_rest_cons (s := s) htext
  have hremaining : s.remaining = rest.length + 1 := by
    show (text ++ back).length - 0 = _
    rw [htext]
    rfl
  have htokens : s.tokens = (s.next.1 :: (Scanner.tokensUpTo rest.length s.next.2).1,
      (Scanner.tokensUpTo rest.length s.next.2).2) := by
    unfold Scanner.tokens
    rw [hremaining, Scanner.tokensUpTo]
    simp only [if_neg hkind]
  refine ⟨s.next.1, (Scanner.tokensUpTo rest.length s.next.2).1, congrArg Prod.fst htokens, ?_, ?_,
    fun d hd => ?_⟩
  · rw [hnext]
    rfl
  · rw [hnext, ← hlength]
    rfl
  · -- The scanner has found nothing wrong with the token, and goes on behind it.
    have hd : d ∈ s.tokens.2.findings := List.mem_reverse.1 hd
    rw [htokens] at hd
    have hfindings : s.next.2.findings = [] := by
      rw [hnext]
      simp [Scanner.findingsAt, hflaw, s]
    have hposition : s.next.2.position = text.length := by
      rw [hnext]
      exact Nat.zero_add _
    rcases Scanner.le_start_findings_tokensUpTo _ _ d hd with hd | hle
    · rw [hfindings] at hd
      cases hd
    · rwa [hposition] at hle

/-- A quoted text is read as one string where strings are read, and a text between fences as one
piece of raw text where raw text is. Two backticks are no fence, since they are empty raw text. -/
theorem tokenize_delimited_text :
    (∀ text back mode, mode ≠ .markup → ReadsAs .str mode (Lexeme.quote text) back) ∧
    ∀ run body back mode, mode ≠ .math → run = 1 ∨ 3 ≤ run → body ≠ [] →
      body.head? ≠ some '\x60' → body.getLast? ≠ some '\x60' →
      ¬List.replicate run '\x60' <:+: body → ReadsAs .raw mode (Lexeme.fenced run body) back := by
  constructor
  · intro text back mode hmode
    obtain ⟨hlength, hflaw⟩ := Lexeme.string_quote text back
    have htext : Lexeme.quote text ++ back =
        '\x22' :: (text.flatMap Lexeme.escaped ++ '\x22' :: back) := by
      simp [Lexeme.quote]
    refine readsAs_of_scan htext ?_ hlength hflaw
    cases mode with
    | markup => exact absurd rfl hmode
    | math => rfl
    | code => rfl
  · intro run body back mode hmode hrun hbody hhead hlast hclear
    obtain ⟨n, rfl⟩ : ∃ n, run = n + 1 := ⟨run - 1, by omega⟩
    obtain ⟨hlength, hflaw⟩ := Lexeme.raw_fenced (by omega) hbody hhead hlast hclear back
    have htext : Lexeme.fenced (n + 1) body ++ back = '\x60' ::
        (List.replicate n '\x60' ++ (body ++ (List.replicate (n + 1) '\x60' ++ back))) := by
      simp [Lexeme.fenced, List.replicate_succ]
    have hscan : ∀ rest, Lexeme.scan mode none '\x60' rest = Lexeme.raw rest := by
      cases mode with
      | markup => exact fun _ => rfl
      | math => exact absurd rfl hmode
      | code => exact fun _ => rfl
    have hkind : ∀ rest, (Lexeme.raw rest).kind = .raw := by
      intro rest
      unfold Lexeme.raw
      dsimp only
      split <;> rfl
    rw [← hkind]
    exact readsAs_of_scan htext (hscan _) hlength hflaw

/-- A quote and a backslash may stand in a string, shorter fences may stand in raw text, and more of
the same may come behind both. -/
theorem tokenize_delimited_text_nested :
    ReadsAs .str .math (Lexeme.quote ['a', '\x22', '\\']) ['\x22'] ∧
      ReadsAs .raw .code (Lexeme.fenced 3 ['a', '\x60', '\x60', 'b']) ['\x60'] :=
  ⟨tokenize_delimited_text.1 _ _ _ (by decide),
    tokenize_delimited_text.2 3 _ _ _ (by decide) (by decide) (by decide) (by decide) (by decide)
      (by decide)⟩

end TypstFormat
