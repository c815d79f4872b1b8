import TypstFormat.Token.Lexeme
import Mathlib.Data.List.TakeWhile

/-!
# What every lexeme has in common

The rules of the scanner are many, but the rest of the development needs little of them: no lexeme
reaches past the end of the text (`scan_tail_le`), its kind is the kind of a token that stands in a
text (`scan_isLexical`), white space takes all blanks that it can (`whitespace_of_scan_isSpace`), a
comma or a parenthesis stands by itself (`char_of_scan`), and a line comment reaches up to a line
break (`lineComment_of_scan`).

## Key results

- `scan_tail_le`: a lexeme is found inside the text that it is scanned from
- `scan_isLexical`: `scan` makes no end tokens and no nodes
- `lineBreaks_add_count`: which line breaks of a text end a line
- `whitespace_of_scan_isSpace`: white space is found by its own rule and by no other
- `isBlank_of_scan_isSpace`: a lexeme of white space holds nothing but blanks
- `char_of_scan`: a comma or a parenthesis takes no further character
- `lineComment_of_scan`: line comments are found by their own rule and by no other
-/

namespace TypstFormat

/-- The kinds of the tokens that are cut out of a text: not the end tokens, and no node. -/
def Kind.isLexical (kind : Kind) : Bool :=
  3 ≤ kind.number && kind.number < 1000

/-- The kinds of tokens that something may be wrong with. -/
def Kind.mayBeFlawed : Kind → Bool
  | .error | .str | .raw | .blockComment => true
  | _ => false

/-- White space, with or without the end of a paragraph. -/
def Kind.isSpace : Kind → Bool
  | .space | .parbreak => true
  | _ => false

/-- The markers that headings and items start with. -/
def Kind.isMarker : Kind → Bool
  | .headingMarker | .listMarker | .enumMarker | .termMarker => true
  | _ => false

/-- Keywords and opening braces, which only code has. -/
def Kind.isOfCode (kind : Kind) : Bool :=
  kind.isKeyword || kind = .leftBrace

/-- The one character of a comma or a parenthesis. Only code has such tokens. -/
def Kind.char? : Kind → Option Char
  | .comma => some ','
  | .leftParen => some '('
  | .rightParen => some ')'
  | _ => none

theorem Kind.eq_of_char? {kind : Kind} {c : Char} (h : kind.char? = some c) :
    kind = .comma ∨ kind = .leftParen ∨ kind = .rightParen := by
  unfold char? at h
  split at h <;> simp at h ⊢

namespace Lexeme

open Text

/-! ## Lexemes end inside the text -/

private theorem length_takeWhile_le {p : Char → Bool} (rest : List Char) :
    (rest.takeWhile p).length ≤ rest.length :=
  (List.takeWhile_sublist p).length_le

private theorem length_pos_of_head? {rest : List Char} {p : Char → Bool}
    (h : rest.head?.any p = true) : 0 < rest.length := by
  cases rest with
  | nil => cases h
  | cons c rest => exact Nat.succ_pos _

theorem commentSpan_le (depth : Nat) (rest : List Char) :
    (commentSpan depth rest).length ≤ rest.length := by
  fun_induction commentSpan depth rest <;> simp_all [Span.grow]

theorem stringSpan_le (rest : List Char) : (stringSpan rest).length ≤ rest.length := by
  fun_induction stringSpan rest with
  | case1 => simp
  | case2 rest => simp
  | case3 c rest ih => show (stringSpan rest).length + 2 ≤ _; simp only [List.length_cons]; omega
  | case4 => simp
  | case5 c rest _ _ _ ih =>
    show (stringSpan rest).length + 1 ≤ _
    simp only [List.length_cons]
    omega

theorem rawSpan_le (fence run : Nat) (rest : List Char) :
    (rawSpan fence run rest).length ≤ rest.length := by
  induction rest generalizing run with
  | nil => simp [rawSpan]
  | cons c rest ih =>
    -- The run of backticks is counted anew behind any other character.
    have := ih (if c = '\x60' then run + 1 else 0)
    rw [rawSpan]
    generalize (if c = '\x60' then run + 1 else 0) = run' at this ⊢
    split
    · simp
    · show (rawSpan fence run' rest).length + 1 ≤ rest.length + 1
      omega

theorem textSpan_le (rest : List Char) : textSpan rest ≤ rest.length := by
  fun_induction textSpan rest <;> simp_all

theorem linkSpan_le (depth : Nat) (rest : List Char) : linkSpan depth rest ≤ rest.length := by
  fun_induction linkSpan depth rest <;> simp_all

theorem mathSpan_le (rest : List Char) : mathSpan rest ≤ rest.length := by
  fun_induction mathSpan rest <;> simp_all

theorem trimmedLength_le (p : Char → Bool) (text : List Char) :
    trimmedLength p text ≤ text.length := by
  have h := (List.dropWhile_sublist p (l := text.reverse)).length_le
  simpa [trimmedLength] using h

private theorem whitespace_tail_le (mode : Mode) (c : Char) (rest : List Char) :
    (whitespace mode c rest).tail ≤ rest.length :=
  length_takeWhile_le rest

private theorem lineComment_tail_le {rest : List Char} (h : rest.head? = some '/') :
    (lineComment rest).tail ≤ rest.length := by
  cases rest with
  | nil => cases h
  | cons d rest =>
    have := length_takeWhile_le (p := fun c => !isLineBreak c) rest
    simp only [lineComment, List.drop_succ_cons, List.drop_zero, List.length_cons]
    omega

private theorem blockComment_tail_le {rest : List Char} (h : rest.head? = some '*') :
    (blockComment rest).tail ≤ rest.length := by
  cases rest with
  | nil => cases h
  | cons d rest =>
    have := commentSpan_le 0 rest
    simp only [blockComment, List.drop_succ_cons, List.drop_zero, List.length_cons]
    omega

private theorem backslash_tail_le (mode : Mode) (rest : List Char) :
    (backslash mode rest).tail ≤ rest.length := by
  unfold backslash
  split
  · simp
  · rename_i rest
    have h := length_takeWhile_le (p := (· ≠ '}')) rest
    simp only [List.length_cons, List.length_take, List.length_drop]
    omega
  · split <;> simp

private theorem raw_tail_le (rest : List Char) : (raw rest).tail ≤ rest.length := by
  have h := length_takeWhile_le (p := (· = '\x60')) rest
  simp only [raw]
  split
  · show 1 ≤ _
    omega
  · have := rawSpan_le ((rest.takeWhile (· = '\x60')).length + 1) 0
      (rest.drop (rest.takeWhile (· = '\x60')).length)
    simp only [List.length_drop] at this
    show (rest.takeWhile _).length + _ ≤ _
    omega

private theorem label?_tail_le {rest : List Char} {lexeme : Lexeme}
    (h : label? rest = some lexeme) : lexeme.tail ≤ rest.length := by
  simp only [label?] at h
  split at h
  · rename_i hclosed
    obtain ⟨_, hclosed⟩ := hclosed
    -- The closing angle bracket is the character behind the name, so one is left there.
    have : 0 < (rest.drop (rest.takeWhile isLabelChar).length).length := by
      cases hdrop : rest.drop (rest.takeWhile isLabelChar).length with
      | nil => rw [hdrop] at hclosed; cases hclosed
      | cons c r => exact Nat.succ_pos _
    simp only [Option.some.injEq] at h
    subst h
    rw [List.length_drop] at this
    show _ + 1 ≤ _
    omega
  · cases h

private theorem text_tail_le {n : Nat} {rest : List Char} (h : n ≤ rest.length) :
    (text n rest).tail ≤ rest.length := by
  have := textSpan_le (rest.drop n)
  rw [List.length_drop] at this
  show n + _ ≤ _
  omega

private theorem marker_tail_le {kind : Kind} {n : Nat} {rest : List Char} (h : n ≤ rest.length) :
    (marker kind n rest).tail ≤ rest.length := by
  unfold marker
  split
  · exact h
  · exact text_tail_le h

private theorem enumMarker_tail_le (rest : List Char) : (enumMarker rest).tail ≤ rest.length := by
  have h := length_takeWhile_le (p := isDigit) rest
  simp only [enumMarker]
  split
  · -- The dot behind the digits is part of the marker.
    rename_i rest' hdrop
    have : (rest.drop (rest.takeWhile isDigit).length).length = rest'.length + 1 := by
      rw [hdrop]; rfl
    rw [List.length_drop] at this
    split
    · show _ + 1 ≤ _
      omega
    · exact text_tail_le h
  · exact text_tail_le h

private theorem link_tail_le (rest : List Char) : (link rest).tail ≤ rest.length := by
  have h := trimmedLength_le isLinkPunctuation (rest.take (linkSpan 0 rest))
  have := linkSpan_le 0 rest
  rw [List.length_take] at h
  show trimmedLength _ _ ≤ _
  omega

private theorem refMarker_tail_le (rest : List Char) : (refMarker rest).tail ≤ rest.length :=
  Nat.le_trans (trimmedLength_le _ _) (length_takeWhile_le rest)

private theorem shorthand?_le {c : Char} {rest : List Char} {n : Nat}
    (h : shorthand? c rest = some n) : n ≤ rest.length := by
  have two {d e : Char} (hp : [d, e].isPrefixOf rest = true) : 2 ≤ rest.length := by
    obtain ⟨r, rfl⟩ := List.isPrefixOf_iff_prefix.1 hp
    simp
  simp only [shorthand?] at h
  split at h
  · rename_i hp; cases h; exact two hp.2
  · split at h
    · rename_i hp; cases h; exact two hp.2
    · split at h
      · rename_i hp
        cases h
        exact length_pos_of_head? hp.2
      · split at h
        · cases h; exact Nat.zero_le _
        · split at h
          · cases h; exact Nat.zero_le _
          · cases h

private theorem markupMarker_tail_le (before : Option Char) (c : Char) (rest : List Char) :
    (markupMarker before c rest).tail ≤ rest.length := by
  unfold markupMarker
  split
  · exact Nat.zero_le _
  · split
    · exact Nat.zero_le _
    · split
      · exact marker_tail_le (length_takeWhile_le rest)
      · split
        · exact marker_tail_le (Nat.zero_le _)
        · split
          · exact marker_tail_le (Nat.zero_le _)
          · split
            · exact marker_tail_le (Nat.zero_le _)
            · split
              · exact enumMarker_tail_le rest
              · exact text_tail_le (Nat.zero_le _)

theorem markup_tail_le (before : Option Char) (c : Char) (rest : List Char) :
    (markup before c rest).tail ≤ rest.length := by
  unfold markup
  split
  · exact backslash_tail_le .markup rest
  · split
    · exact raw_tail_le rest
    · split
      · exact link_tail_le rest
      · split
        · exact refMarker_tail_le rest
        · split
          · rename_i lexeme hlabel
            split at hlabel
            · exact label?_tail_le hlabel
            · cases hlabel
          · split
            · rename_i n hn
              exact shorthand?_le hn
            · split
              · exact Nat.zero_le _
              · exact markupMarker_tail_le before c rest

theorem math_tail_le (c : Char) (rest : List Char) : (math c rest).tail ≤ rest.length := by
  unfold math
  split
  · exact backslash_tail_le .math rest
  · split
    · exact stringSpan_le rest
    · split
      · exact Nat.zero_le _
      · split
        · exact Nat.zero_le _
        · exact mathSpan_le rest

theorem fractionSpan_le (rest : List Char) : fractionSpan rest ≤ rest.length := by
  unfold fractionSpan
  split
  · rename_i rest
    split
    · have := length_takeWhile_le (p := isDigit) rest
      simp only [List.length_cons]
      omega
    · exact Nat.zero_le _
  · exact Nat.zero_le _

theorem exponentSpan_le (rest : List Char) : exponentSpan rest ≤ rest.length := by
  unfold exponentSpan
  split
  · rename_i rest
    split
    · have := length_takeWhile_le (p := isDigit) rest
      simp only [List.length_cons]
      omega
    · exact Nat.zero_le _
  · exact Nat.zero_le _

theorem unitSpan_le (rest : List Char) : unitSpan rest ≤ rest.length := by
  unfold unitSpan
  split
  · simp
  · dsimp only
    split
    · exact length_takeWhile_le rest
    · exact Nat.zero_le _

theorem decimal_le (rest : List Char) : (decimal rest).2 ≤ rest.length := by
  -- Digits, fraction, exponent and unit follow one another, each inside what the last one left.
  have h₁ := length_takeWhile_le (p := isDigit) rest
  have h₂ := fractionSpan_le (rest.drop (rest.takeWhile isDigit).length)
  rw [List.length_drop] at h₂
  have h₃ := exponentSpan_le (rest.drop ((rest.takeWhile isDigit).length
    + fractionSpan (rest.drop (rest.takeWhile isDigit).length)))
  rw [List.length_drop] at h₃
  have h₄ := unitSpan_le (rest.drop ((rest.takeWhile isDigit).length
    + fractionSpan (rest.drop (rest.takeWhile isDigit).length)
    + exponentSpan (rest.drop ((rest.takeWhile isDigit).length
      + fractionSpan (rest.drop (rest.takeWhile isDigit).length)))))
  rw [List.length_drop] at h₄
  simp only [decimal]
  omega

private theorem number_tail_le (c : Char) (rest : List Char) :
    (number c rest).tail ≤ rest.length := by
  unfold number
  split
  · -- Behind a zero comes the letter of the base, and then the digits.
    rename_i h
    have hpos := length_pos_of_head? h.2
    have := length_takeWhile_le (p := isAlphanumeric) (rest.drop 1)
    rw [List.length_drop] at this
    show 1 + _ ≤ _
    omega
  · have := decimal_le (c :: rest)
    simp only [List.length_cons] at this
    show (decimal (c :: rest)).2 - 1 ≤ _
    omega

private theorem operator_tail_le (c : Char) (rest : List Char) :
    (operator c rest).tail ≤ rest.length := by
  unfold operator
  split
  · rename_i kind h
    cases rest with
    | nil => simp [longOperator?] at h
    | cons d rest => exact Nat.succ_le_succ (Nat.zero_le _)
  · split <;> exact Nat.zero_le _

theorem code_tail_le (c : Char) (rest : List Char) : (code c rest).tail ≤ rest.length := by
  unfold code
  split
  · exact stringSpan_le rest
  · split
    · exact raw_tail_le rest
    · split
      · rename_i lexeme hlabel
        split at hlabel
        · exact label?_tail_le hlabel
        · cases hlabel
      · split
        · exact number_tail_le c rest
        · split
          · exact Nat.zero_le _
          · split
            · exact length_takeWhile_le rest
            · exact operator_tail_le c rest

/-- A lexeme does not reach past the end of the text. -/
theorem scan_tail_le (mode : Mode) (before : Option Char) (c : Char) (rest : List Char) :
    (scan mode before c rest).tail ≤ rest.length := by
  unfold scan
  split
  · exact whitespace_tail_le mode c rest
  · split
    · rename_i h
      exact lineComment_tail_le h.2
    · split
      · rename_i h
        exact blockComment_tail_le h.2
      · cases mode with
        | markup => exact markup_tail_le before c rest
        | code => exact code_tail_le c rest
        | math => exact math_tail_le c rest

/-! ## White space -/

/-- The characters that white space takes behind its first one. -/
theorem take_whitespace (mode : Mode) (c : Char) (rest : List Char) :
    rest.take (whitespace mode c rest).tail = rest.takeWhile mode.isBlank :=
  (List.prefix_iff_eq_take.1 (List.takeWhile_prefix mode.isBlank)).symm

/-- A text in which a line ends holds a line break. -/
theorem lineBreaks_pos_iff {text : List Char} :
    0 < lineBreaks text ↔ ∃ c ∈ text, isLineBreak c = true := by
  fun_induction lineBreaks text with
  | case1 => simp
  | case2 rest _ =>
    refine iff_of_true (Nat.succ_pos _) ⟨'\n', by simp, by decide⟩
  | case3 c rest _ ih =>
    cases hc : isLineBreak c <;> simp [hc, ih]

/-- A line break does not go on behind a text that does not end with a carriage return. -/
theorem lineBreaks_append {text : List Char} (h : text.getLast? ≠ some '\r') (rest : List Char) :
    lineBreaks (text ++ rest) = lineBreaks text + lineBreaks rest := by
  fun_induction lineBreaks text with
  | case1 => exact (Nat.zero_add _).symm
  | case2 text ih =>
    have hlast : text.getLast? ≠ some '\r' := by
      cases text with
      | nil => nofun
      | cons d text => rwa [List.getLast?_cons_cons, List.getLast?_cons_cons] at h
    rw [List.cons_append, List.cons_append, lineBreaks, ih hlast, Nat.add_right_comm]
  | case3 c text hpair ih =>
    have hlast : text.getLast? ≠ some '\r' := by
      cases text with
      | nil => nofun
      | cons d text => rwa [List.getLast?_cons_cons] at h
    have hpair' : ∀ more, c = '\r' → text ++ rest = '\n' :: more → False := by
      intro more hc hmore
      cases text with
      | nil =>
        rw [hc] at h
        exact h rfl
      | cons d text => exact hpair text hc (by rw [(List.cons.inj hmore).1])
    rw [List.cons_append, lineBreaks.eq_3 c (text ++ rest) hpair', ih hlast, Nat.add_right_comm]

/-- Every line break ends a line, but a carriage return with a line feed behind it does so only
together with it. -/
theorem lineBreaks_add_count (text : List Char) :
    lineBreaks text + (text.zip text.tail).count ('\r', '\n') = text.countP isLineBreak := by
  fun_induction lineBreaks text with
  | case1 => rfl
  | case2 rest ih =>
    -- The line feed of the pair does not start another one.
    have hfeed : (('\n' :: rest).zip rest).count ('\r', '\n') =
        (rest.zip rest.tail).count ('\r', '\n') := by
      cases rest with
      | nil => rfl
      | cons d rest => simp
    have hreturn : isLineBreak '\r' = true := by decide
    have hnewline : isLineBreak '\n' = true := by decide
    simp only [List.tail_cons, List.zip_cons_cons, List.count_cons_self, hfeed,
      List.countP_cons_of_pos hreturn, List.countP_cons_of_pos hnewline]
    omega
  | case3 c rest hpair ih =>
    have hcount : ((c :: rest).zip rest).count ('\r', '\n') =
        (rest.zip rest.tail).count ('\r', '\n') := by
      cases rest with
      | nil => rfl
      | cons d rest =>
        refine List.count_cons_of_ne ?_
        rintro ⟨⟩
        exact hpair rest rfl rfl
    rw [List.tail_cons, hcount, List.countP_cons]
    cases hc : isLineBreak c <;> simp <;> omega

/-! ## What the rules find -/

/-- The rules that look for the end of what they have started. -/
inductive Delimited (c : Char) (rest : List Char) : Lexeme → Prop where
  | string : c = '\x22' → Delimited c rest (string rest)
  | raw : c = '\x60' → Delimited c rest (raw rest)
  | comment : c = '/' → rest.head? = some '*' → Delimited c rest (blockComment rest)

/-- A lexeme that always is in order, and is no white space, no line comment, no comma and no
parenthesis. No line ends in it. -/
def isPlain (lexeme : Lexeme) : Bool :=
  lexeme.kind.isLexical && !lexeme.kind.isSpace && lexeme.kind ≠ .lineComment
    && lexeme.kind.char?.isNone && !lexeme.kind.mayBeFlawed && lexeme.flaw.isNone
    && !lexeme.containsNewline

/-- What may be found in a text that starts with `c`. -/
inductive Found (mode : Mode) (c : Char) (rest : List Char) : Lexeme → Prop where
  | whitespace : mode.isBlank c = true → Found mode c rest (whitespace mode c rest)
  | lineComment : c = '/' → rest.head? = some '/' → Found mode c rest (lineComment rest)
  | delimited {lexeme : Lexeme} : Delimited c rest lexeme → Found mode c rest lexeme
  | sign {kind : Kind} :
    mode = .code → kind.char? = some c → Found mode c rest { kind, tail := 0 }
  | invalid : Found mode c rest (invalid c)
  | plain {lexeme : Lexeme} : lexeme.isPlain = true → Found mode c rest lexeme

private theorem whitespace_isLexical (mode : Mode) (c : Char) (rest : List Char) :
    (whitespace mode c rest).kind.isLexical = true := by
  unfold whitespace
  dsimp only
  split <;> rfl

private theorem raw_kind (rest : List Char) : (raw rest).kind = .raw := by
  unfold raw
  dsimp only
  split <;> rfl

private theorem backslash_isPlain (mode : Mode) (rest : List Char) :
    (backslash mode rest).isPlain = true := by
  unfold backslash
  split
  · rfl
  · rfl
  · split <;> rfl

private theorem label?_isPlain {rest : List Char} {lexeme : Lexeme}
    (h : label? rest = some lexeme) : lexeme.isPlain = true := by
  simp only [label?] at h
  split at h
  · cases h
    rfl
  · cases h

private theorem marker_isPlain {kind : Kind} {n : Nat}
    (h : isPlain { kind, tail := n } = true) (rest : List Char) :
    (marker kind n rest).isPlain = true := by
  unfold marker
  split
  · exact h
  · rfl

private theorem enumMarker_isPlain (rest : List Char) : (enumMarker rest).isPlain = true := by
  unfold enumMarker
  dsimp only
  split
  · split <;> rfl
  · rfl

private theorem markupPunctuation?_isPlain {c : Char} {kind : Kind}
    (h : markupPunctuation? c = some kind) : isPlain { kind, tail := 0 } = true := by
  unfold markupPunctuation? at h
  split at h <;> cases h <;> rfl

private theorem markupMarker_isPlain (before : Option Char) (c : Char) (rest : List Char) :
    (markupMarker before c rest).isPlain = true := by
  unfold markupMarker
  split
  · rfl
  · split
    · rfl
    · split
      · exact marker_isPlain rfl rest
      · split
        · exact marker_isPlain rfl rest
        · split
          · exact marker_isPlain rfl rest
          · split
            · exact marker_isPlain rfl rest
            · split
              · exact enumMarker_isPlain rest
              · rfl

private theorem markup_found (before : Option Char) (c : Char) (rest : List Char) :
    Found .markup c rest (markup before c rest) := by
  unfold markup
  split
  · exact .plain (backslash_isPlain .markup rest)
  · split
    · rename_i hc
      exact .delimited (.raw hc)
    · split
      · exact .plain rfl
      · split
        · exact .plain rfl
        · split
          · rename_i lexeme hlabel
            split at hlabel
            · exact .plain (label?_isPlain hlabel)
            · cases hlabel
          · split
            · exact .plain rfl
            · split
              · rename_i kind hkind
                exact .plain (markupPunctuation?_isPlain hkind)
              · exact .plain (markupMarker_isPlain before c rest)

private theorem math_found (c : Char) (rest : List Char) :
    Found .math c rest (math c rest) := by
  unfold math
  split
  · exact .plain (backslash_isPlain .math rest)
  · split
    · rename_i hc
      exact .delimited (.string hc)
    · split
      · exact .plain rfl
      · split <;> exact .plain rfl

private theorem ident_isPlain (c : Char) (rest : List Char) : (ident c rest).isPlain = true := by
  -- A name is a keyword of the table, or an identifier.
  have hall : ∀ entry ∈ Kind.keywords, isPlain { kind := entry.2, tail := 0 } = true := by decide
  unfold ident Kind.ofKeyword?
  dsimp only
  cases hfind : Kind.keywords.find?
      (fun entry => entry.1 == c :: rest.takeWhile fun d => isIdentContinue d || d = '-') with
  | none => rfl
  | some entry => exact hall entry (List.mem_of_find?_eq_some hfind)

private theorem number_isPlain (c : Char) (rest : List Char) : (number c rest).isPlain = true := by
  unfold number
  split
  · rfl
  · unfold decimal
    dsimp only
    split
    · rfl
    · split <;> rfl

private theorem operator_found (c : Char) (rest : List Char) :
    Found .code c rest (operator c rest) := by
  unfold operator
  split
  · rename_i kind h
    refine .plain ?_
    unfold longOperator? at h
    split at h <;> cases h <;> rfl
  · split
    · -- The comma and the parentheses are the operators that are not plain.
      rename_i kind h
      cases hchar : kind.char? with
      | none =>
        refine .plain ?_
        unfold operator? at h
        split at h <;> cases h <;> first | rfl | cases hchar
      | some d =>
        refine .sign rfl ?_
        unfold operator? at h
        split at h <;> cases h <;> first | rfl | cases hchar
    · exact .invalid

private theorem code_found (c : Char) (rest : List Char) : Found .code c rest (code c rest) := by
  unfold code
  split
  · rename_i hc
    exact .delimited (.string hc)
  · split
    · rename_i hc
      exact .delimited (.raw hc)
    · split
      · rename_i lexeme hlabel
        split at hlabel
        · exact .plain (label?_isPlain hlabel)
        · cases hlabel
      · split
        · exact .plain (number_isPlain c rest)
        · split
          · exact .plain rfl
          · split
            · exact .plain (ident_isPlain c rest)
            · exact operator_found c rest

/-- What a text starts with is found by one of the rules. -/
theorem found_scan (mode : Mode) (before : Option Char) (c : Char) (rest : List Char) :
    Found mode c rest (scan mode before c rest) := by
  unfold scan
  split
  · rename_i hblank
    exact .whitespace hblank
  · split
    · rename_i hcomment
      exact .lineComment hcomment.1 hcomment.2
    · split
      · rename_i hcomment
        exact .delimited (.comment hcomment.1 hcomment.2)
      · cases mode with
        | markup => exact markup_found before c rest
        | code => exact code_found c rest
        | math => exact math_found c rest

theorem Delimited.containsNewline_eq_false {c : Char} {rest : List Char} {lexeme : Lexeme}
    (h : Delimited c rest lexeme) : lexeme.containsNewline = false := by
  cases h with
  | string => rfl
  | raw =>
    unfold Lexeme.raw
    dsimp only
    split <;> rfl
  | comment => rfl

theorem Delimited.kind_cases {c : Char} {rest : List Char} {lexeme : Lexeme}
    (h : Delimited c rest lexeme) :
    lexeme.kind = .str ∨ lexeme.kind = .raw ∨ lexeme.kind = .blockComment := by
  cases h with
  | string => exact .inl rfl
  | raw => exact .inr (.inl (raw_kind rest))
  | comment => exact .inr (.inr rfl)

/-- Every lexeme is a token that stands in a text. -/
theorem scan_isLexical (mode : Mode) (before : Option Char) (c : Char) (rest : List Char) :
    (scan mode before c rest).kind.isLexical = true := by
  have hfound := found_scan mode before c rest
  generalize scan mode before c rest = lexeme at hfound ⊢
  cases hfound with
  | whitespace => exact whitespace_isLexical mode c rest
  | lineComment => rfl
  | delimited h => rcases h.kind_cases with hk | hk | hk <;> rw [hk] <;> rfl
  | sign _ hchar => rcases Kind.eq_of_char? hchar with rfl | rfl | rfl <;> rfl
  | invalid => rfl
  | plain h =>
    simp only [isPlain, Bool.and_eq_true] at h
    exact h.1.1.1.1.1.1

/-- White space starts with a blank and takes all blanks behind it. -/
theorem whitespace_of_scan_isSpace {mode : Mode} {before : Option Char} {c : Char}
    {rest : List Char} (h : (scan mode before c rest).kind.isSpace = true) :
    mode.isBlank c = true ∧ scan mode before c rest = whitespace mode c rest := by
  have hfound := found_scan mode before c rest
  generalize scan mode before c rest = lexeme at h hfound ⊢
  cases hfound with
  | whitespace hblank => exact ⟨hblank, rfl⟩
  | lineComment => cases h
  | delimited hdelimited =>
    rcases hdelimited.kind_cases with hk | hk | hk <;> simp [hk, Kind.isSpace] at h
  | sign _ hchar => rcases Kind.eq_of_char? hchar with rfl | rfl | rfl <;> cases h
  | invalid => cases h
  | plain hplain => simp [isPlain, h] at hplain

/-- Lines end in white space only. -/
theorem isSpace_of_scan_containsNewline {mode : Mode} {before : Option Char} {c : Char}
    {rest : List Char} (h : (scan mode before c rest).containsNewline = true) :
    (scan mode before c rest).kind.isSpace = true := by
  have hfound := found_scan mode before c rest
  generalize scan mode before c rest = lexeme at h hfound ⊢
  cases hfound with
  | whitespace =>
    simp only [whitespace]
    split <;> rfl
  | lineComment => cases h
  | delimited hdelimited => simp [hdelimited.containsNewline_eq_false] at h
  | sign => cases h
  | invalid => cases h
  | plain hplain => simp [isPlain, h] at hplain

/-- White space holds nothing but blanks. -/
theorem isBlank_of_scan_isSpace {mode : Mode} {before : Option Char} {c : Char} {rest : List Char}
    (h : (scan mode before c rest).kind.isSpace = true) :
    ∀ d ∈ c :: rest.take (scan mode before c rest).tail, mode.isBlank d = true := by
  obtain ⟨hblank, hscan⟩ := whitespace_of_scan_isSpace h
  intro d hd
  rw [hscan, take_whitespace] at hd
  rcases List.mem_cons.1 hd with rfl | hd
  · exact hblank
  · exact List.mem_takeWhile_imp hd

/-- Only markup has paragraphs. -/
theorem mode_of_scan_parbreak {mode : Mode} {before : Option Char} {c : Char} {rest : List Char}
    (h : (scan mode before c rest).kind = .parbreak) : mode = .markup := by
  have hspace : (scan mode before c rest).kind.isSpace = true := by
    rw [h]
    rfl
  obtain ⟨_, hscan⟩ := whitespace_of_scan_isSpace hspace
  rw [hscan] at h
  simp only [whitespace] at h
  split at h
  · rename_i hmarkup
    exact hmarkup.1
  · cases h

private theorem label?_isMarker {rest : List Char} {lexeme : Lexeme}
    (h : label? rest = some lexeme) : lexeme.kind.isMarker = false := by
  unfold label? at h
  dsimp only at h
  split at h
  · cases h
    rfl
  · cases h

private theorem math_isMarker (c : Char) (rest : List Char) :
    (math c rest).kind.isMarker = false := by
  unfold math
  split
  · unfold backslash
    split
    · rfl
    · rfl
    · split <;> rfl
  · repeat' split
    all_goals rfl

private theorem ident_isMarker (c : Char) (rest : List Char) :
    (ident c rest).kind.isMarker = false := by
  have hall : ∀ entry ∈ Kind.keywords, entry.2.isMarker = false := by decide
  unfold ident Kind.ofKeyword?
  dsimp only
  cases hfind : Kind.keywords.find?
      (fun entry => entry.1 == c :: rest.takeWhile fun d => isIdentContinue d || d = '-') with
  | none => rfl
  | some entry => exact hall entry (List.mem_of_find?_eq_some hfind)

private theorem operator_isMarker (c : Char) (rest : List Char) :
    (operator c rest).kind.isMarker = false := by
  unfold operator
  split
  · rename_i kind h
    unfold longOperator? at h
    split at h <;> cases h <;> rfl
  · split
    · rename_i kind h
      unfold operator? at h
      split at h <;> cases h <;> rfl
    · rfl

private theorem code_isMarker (c : Char) (rest : List Char) :
    (code c rest).kind.isMarker = false := by
  unfold code
  split
  · rfl
  · split
    · rw [raw_kind]
      rfl
    · split
      · rename_i lexeme hlabel
        split at hlabel
        · exact label?_isMarker hlabel
        · cases hlabel
      · split
        · unfold number decimal
          dsimp only
          repeat' split
          all_goals rfl
        · split
          · rfl
          · split
            · exact ident_isMarker c rest
            · exact operator_isMarker c rest

/-- Only markup has markers. -/
theorem mode_of_scan_isMarker {mode : Mode} {before : Option Char} {c : Char} {rest : List Char}
    (h : (scan mode before c rest).kind.isMarker = true) : mode = .markup := by
  unfold scan at h
  split at h
  · unfold whitespace at h
    dsimp only at h
    split at h <;> cases h
  · split at h
    · cases h
    · split at h
      · cases h
      · cases mode with
        | markup => rfl
        | math => simp [math_isMarker] at h
        | code => simp [code_isMarker] at h

private theorem backslash_isOfCode (mode : Mode) (rest : List Char) :
    (backslash mode rest).kind.isOfCode = false := by
  unfold backslash
  split
  · rfl
  · rfl
  · split <;> rfl

private theorem marker_isOfCode {kind : Kind} (hkind : kind.isOfCode = false) (n : Nat)
    (rest : List Char) : (marker kind n rest).kind.isOfCode = false := by
  unfold marker
  split
  · exact hkind
  · rfl

private theorem markupMarker_isOfCode (before : Option Char) (c : Char) (rest : List Char) :
    (markupMarker before c rest).kind.isOfCode = false := by
  unfold markupMarker
  split
  · rfl
  · split
    · rfl
    · repeat' split
      all_goals first
        | exact marker_isOfCode rfl _ _
        | rfl
        | unfold enumMarker
          dsimp only
          split
          · split <;> rfl
          · rfl

private theorem markup_isOfCode (before : Option Char) (c : Char) (rest : List Char) :
    (markup before c rest).kind.isOfCode = false := by
  unfold markup
  split
  · exact backslash_isOfCode _ _
  · split
    · rw [raw_kind]
      rfl
    · split
      · rfl
      · split
        · rfl
        · split
          · rename_i lexeme hlabel
            split at hlabel
            · unfold label? at hlabel
              dsimp only at hlabel
              split at hlabel
              · cases hlabel
                rfl
              · cases hlabel
            · cases hlabel
          · split
            · rfl
            · split
              · rename_i kind hkind
                unfold markupPunctuation? at hkind
                split at hkind <;> cases hkind <;> rfl
              · exact markupMarker_isOfCode before c rest

/-- Only code has keywords and braces. -/
theorem mode_of_scan_isOfCode {mode : Mode} {before : Option Char} {c : Char} {rest : List Char}
    (h : (scan mode before c rest).kind.isOfCode = true) : mode = .code := by
  unfold scan at h
  split at h
  · unfold whitespace at h
    dsimp only at h
    split at h <;> cases h
  · split at h
    · cases h
    · split at h
      · cases h
      · cases mode with
        | code => rfl
        | markup => simp [markup_isOfCode] at h
        | math =>
          have h : (math c rest).kind.isOfCode = true := h
          unfold math at h
          split at h
          · simp [backslash_isOfCode] at h
          · repeat' split at h
            all_goals cases h

/-- Code and math have the same trivia. -/
theorem scan_code_of_isTrivia {before : Option Char} {c : Char} {rest : List Char}
    (h : (scan .math before c rest).kind.isTrivia = true) :
    scan .code before c rest = scan .math before c rest := by
  unfold scan at h ⊢
  have hblank : Mode.isBlank .code = Mode.isBlank .math := rfl
  rw [hblank]
  split
  · simp [whitespace, hblank]
  · rename_i hc
    rw [if_neg hc] at h
    split
    · rfl
    · rename_i hline
      rw [if_neg hline] at h
      split
      · rfl
      · -- Nothing else that math finds is trivia.
        rename_i hblock
        rw [if_neg hblock] at h
        have h : (math c rest).kind.isTrivia = true := h
        unfold math at h
        split at h
        · unfold backslash at h
          split at h
          · cases h
          · cases h
          · split at h <;> cases h
        · repeat' split at h
          all_goals cases h

/-- A comma or a parenthesis is a token of its own, and one of code. -/
theorem char_of_scan {mode : Mode} {before : Option Char} {c d : Char} {rest : List Char}
    (h : (scan mode before c rest).kind.char? = some d) :
    mode = .code ∧ c = d ∧ (scan mode before c rest).tail = 0 := by
  have hfound := found_scan mode before c rest
  generalize scan mode before c rest = lexeme at h hfound ⊢
  cases hfound with
  | whitespace =>
    simp only [whitespace] at h
    split at h <;> cases h
  | lineComment => cases h
  | delimited hdelimited =>
    rcases hdelimited.kind_cases with hk | hk | hk <;> simp [hk, Kind.char?] at h
  | sign hmode hchar => exact ⟨hmode, Option.some.inj (hchar.symm.trans h), rfl⟩
  | invalid => cases h
  | plain hplain => simp [isPlain, h] at hplain

/-- A line comment starts with two slashes, and reaches up to a line break. -/
theorem lineComment_of_scan {mode : Mode} {before : Option Char} {c : Char} {rest : List Char}
    (h : (scan mode before c rest).kind = .lineComment) :
    c = '/' ∧ rest.head? = some '/' ∧ scan mode before c rest = lineComment rest := by
  have hfound := found_scan mode before c rest
  generalize scan mode before c rest = lexeme at h hfound ⊢
  cases hfound with
  | whitespace =>
    simp only [whitespace] at h
    split at h <;> cases h
  | lineComment hc hrest => exact ⟨hc, hrest, rfl⟩
  | delimited hdelimited => rcases hdelimited.kind_cases with hk | hk | hk <;> simp [hk] at h
  | sign _ hchar => rcases Kind.eq_of_char? hchar with rfl | rfl | rfl <;> cases h
  | invalid => cases h
  | plain hplain => simp [isPlain, h] at hplain

end Lexeme

end TypstFormat
