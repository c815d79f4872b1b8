import TypstFormat.Proofs.Token.Boundary
import TypstFormat.Proofs.Token.Lexeme

/-!
# White space that is replaced

Two texts that differ in white space only are given by `Patch`es: characters that stay as they are,
and stretches of white space with what takes their place. `olds` is the one text and `news` the other
one. A piece of the first one that ends between two patches has a counterpart in the second one
(`Reach`), and most rules of the scanner take such pieces: a word ends in front of white space on both
sides, and what is quoted goes on through all of it.

The class of characters that may be replaced is `ends`: white space in code and math, and line
breaks in markup.

## Key results

- `reach_word`: pieces without white space
- `reach_takeWhile`: runs of a class of characters that holds all white space or none
- `reach_comment`, `reach_string`, `reach_raw`: the rest of what has to be closed
-/

namespace TypstFormat

open Text Lexeme

/-- White space, and what takes its place: there is some on both sides, and a line break on both
sides or on none. -/
structure Spacing (ends : Char → Bool) (old new : List Char) : Prop where
  old_ne_nil : old ≠ []
  new_ne_nil : new ≠ []
  old_ends : ∀ c ∈ old, ends c = true
  new_ends : ∀ c ∈ new, ends c = true
  breaks_eq : new.any isLineBreak = old.any isLineBreak

/-- A part of a text: a character that stays, or white space and what takes its place. -/
inductive Patch where
  | keep (c : Char)
  | space (old new : List Char)

namespace Patch

def old : Patch → List Char
  | keep c => [c]
  | space old _ => old

def new : Patch → List Char
  | keep c => [c]
  | space _ new => new

/-- The text before. -/
def olds (patches : List Patch) : List Char :=
  patches.flatMap old

/-- The text after. -/
def news (patches : List Patch) : List Char :=
  patches.flatMap new

@[simp] theorem olds_nil : olds [] = [] := rfl

@[simp] theorem news_nil : news [] = [] := rfl

@[simp] theorem olds_keep (c : Char) (patches : List Patch) :
    olds (keep c :: patches) = c :: olds patches := rfl

@[simp] theorem news_keep (c : Char) (patches : List Patch) :
    news (keep c :: patches) = c :: news patches := rfl

@[simp] theorem olds_space (old new : List Char) (patches : List Patch) :
    olds (space old new :: patches) = old ++ olds patches := rfl

@[simp] theorem news_space (old new : List Char) (patches : List Patch) :
    news (space old new :: patches) = new ++ news patches := rfl

/-- A text that stays as it is. -/
@[simp] theorem olds_map_keep (text : List Char) : olds (text.map keep) = text := by
  induction text with
  | nil => rfl
  | cons c text ih => rw [List.map_cons, olds_keep, ih]

@[simp] theorem news_map_keep (text : List Char) : news (text.map keep) = text := by
  induction text with
  | nil => rfl
  | cons c text ih => rw [List.map_cons, news_keep, ih]

@[simp] theorem olds_append (patches more : List Patch) :
    olds (patches ++ more) = olds patches ++ olds more :=
  List.flatMap_append

@[simp] theorem news_append (patches more : List Patch) :
    news (patches ++ more) = news patches ++ news more :=
  List.flatMap_append

/-- The white space is of a class of characters. -/
def Fits (ends : Char → Bool) : Patch → Prop
  | keep _ => True
  | space old new => Spacing ends old new

variable {ends : Char → Bool} {patches : List Patch}

theorem Fits.mono {ends' : Char → Bool} (hends : ∀ c, ends c = true → ends' c = true)
    {patch : Patch} (h : patch.Fits ends) : patch.Fits ends' := by
  cases patch with
  | keep c => trivial
  | space old new =>
    obtain ⟨hold, hnew, hold', hnew', hbreaks⟩ := h
    exact ⟨hold, hnew, fun c hc => hends c (hold' c hc), fun c hc => hends c (hnew' c hc), hbreaks⟩

/-- No patch is empty. -/
theorem Fits.length_pos {patch : Patch} (h : patch.Fits ends) :
    0 < patch.old.length ∧ 0 < patch.new.length := by
  cases patch with
  | keep c => exact ⟨Nat.one_pos, Nat.one_pos⟩
  | space old new => exact ⟨List.length_pos_iff.2 h.old_ne_nil, List.length_pos_iff.2 h.new_ne_nil⟩

private theorem all_head? {old : List Char} (hold : ∀ c ∈ old, ends c = true) (hne : old ≠ [])
    (rest : List Char) : (old ++ rest).head?.all ends = true := by
  obtain ⟨c, old, rfl⟩ := List.exists_cons_of_ne_nil hne
  exact hold c List.mem_cons_self

/-- The texts agree up to the first white space. -/
theorem sameUpTo (h : ∀ patch ∈ patches, patch.Fits ends) :
    SameUpTo ends (olds patches) (news patches) := by
  induction patches with
  | nil => exact .stop rfl rfl
  | cons patch patches ih =>
    obtain ⟨hpatch, hfits⟩ := List.forall_mem_cons.1 h
    cases patch with
    | keep c =>
      cases hc : ends c with
      | false => exact .cons hc (ih hfits)
      | true => exact .stop hc hc
    | space old new =>
      exact .stop (all_head? hpatch.old_ends hpatch.old_ne_nil _)
        (all_head? hpatch.new_ends hpatch.new_ne_nil _)

/-- A character that is not replaced stands first on both sides. -/
theorem eq_keep_of_head? (h : ∀ patch ∈ patches, patch.Fits ends) {c : Char} (hc : ends c = false)
    (hhead : (olds patches).head? = some c) : ∃ more, patches = keep c :: more := by
  cases patches with
  | nil => cases hhead
  | cons patch more =>
    cases patch with
    | keep d =>
      cases hhead
      exact ⟨more, rfl⟩
    | space old new =>
      obtain ⟨hpatch, -⟩ := List.forall_mem_cons.1 h
      have hall := all_head? hpatch.old_ends hpatch.old_ne_nil (olds more)
      rw [olds_space] at hhead
      rw [hhead, Option.all_some, hc] at hall
      cases hall

/-- There is a line break on both sides or on none. -/
theorem any_isLineBreak (h : ∀ patch ∈ patches, patch.Fits ends) :
    (news patches).any isLineBreak = (olds patches).any isLineBreak := by
  induction patches with
  | nil => rfl
  | cons patch patches ih =>
    obtain ⟨hpatch, hfits⟩ := List.forall_mem_cons.1 h
    cases patch with
    | keep c => rw [news_keep, olds_keep, List.any_cons, List.any_cons, ih hfits]
    | space old new =>
      rw [news_space, olds_space, List.any_append, List.any_append, ih hfits, hpatch.breaks_eq]

/-! ## Corresponding pieces -/

/-- The first `n` characters of the one text and the first `n'` of the other one are corresponding
pieces: they end between two patches. -/
def Reach (patches : List Patch) (n n' : Nat) : Prop :=
  ∃ own behind, patches = own ++ behind ∧ n = (olds own).length ∧ n' = (news own).length

namespace Reach

variable {n n' : Nat}

theorem zero (patches : List Patch) : Reach patches 0 0 :=
  ⟨[], patches, rfl, rfl, rfl⟩

theorem append {behind : List Patch} (h : Reach behind n n') (own : List Patch) :
    Reach (own ++ behind) ((olds own).length + n) ((news own).length + n') := by
  obtain ⟨more, behind, rfl, rfl, rfl⟩ := h
  exact ⟨own ++ more, behind, by simp, by simp, by simp⟩

theorem keep (h : Reach patches n n') (c : Char) :
    Reach (.keep c :: patches) (n + 1) (n' + 1) := by
  rw [Nat.add_comm n, Nat.add_comm n']
  exact h.append [.keep c]

theorem space (h : Reach patches n n') (old new : List Char) :
    Reach (.space old new :: patches) (n + old.length) (n' + new.length) := by
  rw [Nat.add_comm n, Nat.add_comm n']
  have happend := h.append [.space old new]
  rwa [olds_space, news_space, olds_nil, news_nil, List.append_nil, List.append_nil] at happend

end Reach

/-- A piece without white space is the same on both sides. -/
theorem reach_word (h : ∀ patch ∈ patches, patch.Fits ends) {n : Nat}
    (hn : n ≤ ((olds patches).takeWhile (!ends ·)).length) : Reach patches n n := by
  induction patches generalizing n with
  | nil =>
    obtain rfl := Nat.le_zero.1 hn
    exact .zero _
  | cons patch patches ih =>
    obtain ⟨hpatch, hfits⟩ := List.forall_mem_cons.1 h
    cases n with
    | zero => exact .zero _
    | succ n =>
      cases patch with
      | keep c =>
        cases hc : ends c with
        | true => simp [hc] at hn
        | false =>
          simp only [olds_keep, List.takeWhile_cons, hc, Bool.not_false, if_true, List.length_cons,
            Nat.add_le_add_iff_right] at hn
          exact (ih hfits hn).keep c
      | space old new =>
        obtain ⟨c, old, rfl⟩ := List.exists_cons_of_ne_nil hpatch.old_ne_nil
        simp [hpatch.old_ends c List.mem_cons_self] at hn

/-- A run of a class of characters that holds all of the white space or none of it. -/
theorem reach_takeWhile (h : ∀ patch ∈ patches, patch.Fits ends) {q : Char → Bool}
    (hq : ∀ c d, ends c = true → ends d = true → q c = q d) :
    ∃ own behind, patches = own ++ behind ∧ (olds patches).takeWhile q = olds own ∧
      (news patches).takeWhile q = news own := by
  induction patches with
  | nil => exact ⟨[], [], rfl, rfl, rfl⟩
  | cons patch patches ih =>
    obtain ⟨hpatch, hfits⟩ := List.forall_mem_cons.1 h
    obtain ⟨own, behind, heq, hold, hnew⟩ := ih hfits
    cases patch with
    | keep c =>
      by_cases hc : q c = true
      · refine ⟨.keep c :: own, behind, by rw [heq]; rfl, ?_, ?_⟩
        · rw [olds_keep, List.takeWhile_cons_of_pos hc, hold, olds_keep]
        · rw [news_keep, List.takeWhile_cons_of_pos hc, hnew, news_keep]
      · exact ⟨[], _, rfl, List.takeWhile_cons_of_neg hc, List.takeWhile_cons_of_neg hc⟩
    | space old new =>
      obtain ⟨c, cs, rfl⟩ := List.exists_cons_of_ne_nil hpatch.old_ne_nil
      obtain ⟨d, ds, rfl⟩ := List.exists_cons_of_ne_nil hpatch.new_ne_nil
      have hc := hpatch.old_ends c List.mem_cons_self
      have hd := hpatch.new_ends d List.mem_cons_self
      by_cases hqc : q c = true
      · refine ⟨.space (c :: cs) (d :: ds) :: own, behind, by rw [heq]; rfl, ?_, ?_⟩
        · rw [olds_space, List.takeWhile_append_of_pos fun e he => ?_, hold, olds_space]
          rw [hq e c (hpatch.old_ends e he) hc, hqc]
        · rw [news_space, List.takeWhile_append_of_pos fun e he => ?_, hnew, news_space]
          rw [hq e c (hpatch.new_ends e he) hc, hqc]
      · refine ⟨[], _, rfl, List.takeWhile_cons_of_neg hqc, List.takeWhile_cons_of_neg ?_⟩
        rwa [hq d c hd hc]

/-! ## What has to be closed -/

private theorem grow_grow (span : Span) (n m : Nat) : (span.grow n).grow m = span.grow (n + m) := by
  simp [Span.grow, Nat.add_assoc]

private theorem commentSpan_other {depth : Nat} {c : Char} {rest : List Char}
    (hclose : ¬(c = '*' ∧ rest.head? = some '/')) (hopen : ¬(c = '/' ∧ rest.head? = some '*')) :
    commentSpan depth (c :: rest) = (commentSpan depth rest).grow 1 := by
  rw [commentSpan.eq_def]
  split
  · cases ‹_›
  · simp_all
  · simp_all
  · simp_all
  · simp_all

private theorem commentSpan_append {depth : Nat} {spaces rest : List Char}
    (h : ∀ c ∈ spaces, c ≠ '*' ∧ c ≠ '/') :
    commentSpan depth (spaces ++ rest) = (commentSpan depth rest).grow spaces.length := by
  induction spaces with
  | nil => rfl
  | cons c spaces ih =>
    obtain ⟨⟨hstar, hslash⟩, h⟩ := List.forall_mem_cons.1 h
    rw [List.cons_append, commentSpan_other (fun hc => hstar hc.1) (fun hc => hslash hc.1), ih h,
      grow_grow, List.length_cons]

private theorem stringSpan_append {spaces rest : List Char}
    (h : ∀ c ∈ spaces, c ≠ '\x22' ∧ c ≠ '\\') :
    stringSpan (spaces ++ rest) = (stringSpan rest).grow spaces.length := by
  induction spaces with
  | nil => rfl
  | cons c spaces ih =>
    obtain ⟨⟨hquote, hbackslash⟩, h⟩ := List.forall_mem_cons.1 h
    rw [List.length_cons, ← grow_grow, ← ih h, List.cons_append, stringSpan.eq_def]
    split <;> simp_all

private theorem rawSpan_append {fence run : Nat} {spaces rest : List Char} (hfence : fence ≠ 0)
    (hne : spaces ≠ []) (h : ∀ c ∈ spaces, c ≠ '\x60') :
    rawSpan fence run (spaces ++ rest) = (rawSpan fence 0 rest).grow spaces.length := by
  induction spaces generalizing run with
  | nil => exact absurd rfl hne
  | cons c spaces ih =>
    obtain ⟨hc, h⟩ := List.forall_mem_cons.1 h
    rw [List.cons_append, rawSpan]
    simp only [hc, if_false, hfence.symm]
    cases spaces with
    | nil => rfl
    | cons d spaces => rw [ih (List.cons_ne_nil _ _) h, grow_grow, List.length_cons (a := c)]

/-- White space is none of the characters that open or close anything. -/
private theorem ne_of_ends (hends : ∀ c, ends c = true → isSpace c = true) {c d : Char}
    (hc : ends c = true) (hd : isSpace d = false) : c ≠ d := by
  rintro rfl
  rw [hends c hc] at hd
  cases hd

private theorem ends_eq_false (hends : ∀ c, ends c = true → isSpace c = true) {d : Char}
    (hd : isSpace d = false) : ends d = false := by
  cases hc : ends d with
  | false => rfl
  | true => exact absurd rfl (ne_of_ends hends hc hd)

/-- Spans of two texts that end at corresponding places. -/
structure Spans (patches : List Patch) (span span' : Span) : Prop where
  reach : Reach patches span.length span'.length
  closed_eq : span'.closed = span.closed

namespace Spans

variable {span span' : Span}

theorem keep (h : Spans patches span span') (c : Char) :
    Spans (.keep c :: patches) (span.grow 1) (span'.grow 1) :=
  ⟨h.reach.keep c, h.closed_eq⟩

theorem space (h : Spans patches span span') (old new : List Char) :
    Spans (.space old new :: patches) (span.grow old.length) (span'.grow new.length) :=
  ⟨h.reach.space old new, h.closed_eq⟩

/-- The closing delimiter is missing on both sides or on none. -/
theorem flaw_eq (h : Spans patches span span') (issue : Issue) :
    span'.flaw issue = span.flaw issue := by
  unfold Span.flaw
  rw [h.closed_eq]

end Spans

/-- The rest of a block comment. -/
theorem reach_comment (hends : ∀ c, ends c = true → isSpace c = true)
    (h : ∀ patch ∈ patches, patch.Fits ends) (depth : Nat) :
    Spans patches (commentSpan depth (olds patches)) (commentSpan depth (news patches)) := by
  induction hn : patches.length using Nat.strong_induction_on generalizing patches depth with
  | _ n ih =>
    cases patches with
    | nil => exact ⟨.zero _, by cases depth <;> rfl⟩
    | cons patch rest =>
      subst hn
      obtain ⟨hpatch, hfits⟩ := List.forall_mem_cons.1 h
      have hrest := ih rest.length (Nat.lt_succ_self _) hfits depth rfl
      cases patch with
      | space old new =>
        have hinert {c : Char} (hc : ends c = true) : c ≠ '*' ∧ c ≠ '/' :=
          ⟨ne_of_ends hends hc (by decide), ne_of_ends hends hc (by decide)⟩
        rw [olds_space, news_space, commentSpan_append fun c hc => hinert (hpatch.old_ends c hc),
          commentSpan_append fun c hc => hinert (hpatch.new_ends c hc)]
        exact hrest.space old new
      | keep c =>
        have hstar := ends_eq_false hends (d := '*') (by decide)
        have hslash := ends_eq_false hends (d := '/') (by decide)
        rw [olds_keep, news_keep]
        by_cases hclose : c = '*' ∧ (olds rest).head? = some '/'
        · obtain ⟨rfl, hhead⟩ := hclose
          obtain ⟨more, rfl⟩ := eq_keep_of_head? hfits hslash hhead
          cases depth with
          | zero => exact ⟨((Reach.zero more).keep '/').keep '*', rfl⟩
          | succ depth =>
            obtain ⟨-, hmore⟩ := List.forall_mem_cons.1 hfits
            have hmore := ih more.length (by simp only [List.length_cons]; omega) hmore depth rfl
            exact ⟨(hmore.reach.keep '/').keep '*', hmore.closed_eq⟩
        · by_cases hopen : c = '/' ∧ (olds rest).head? = some '*'
          · obtain ⟨rfl, hhead⟩ := hopen
            obtain ⟨more, rfl⟩ := eq_keep_of_head? hfits hstar hhead
            obtain ⟨-, hmore⟩ := List.forall_mem_cons.1 hfits
            have hmore :=
              ih more.length (by simp only [List.length_cons]; omega) hmore (depth + 1) rfl
            have heq (text : List Char) : commentSpan depth ('/' :: '*' :: text) =
                (commentSpan (depth + 1) text).grow 2 := by
              cases depth <;> rfl
            rw [olds_keep, news_keep, heq, heq]
            exact ⟨(hmore.reach.keep '*').keep '/', hmore.closed_eq⟩
          · have hsame := sameUpTo hfits
            rw [commentSpan_other hclose hopen, commentSpan_other
              (mt (And.imp_right (hsame.head?_eq_iff hslash).1) hclose)
              (mt (And.imp_right (hsame.head?_eq_iff hstar).1) hopen)]
            exact hrest.keep c

/-- The rest of a string. -/
theorem reach_string (hends : ∀ c, ends c = true → isSpace c = true)
    (h : ∀ patch ∈ patches, patch.Fits ends) :
    Spans patches (stringSpan (olds patches)) (stringSpan (news patches)) := by
  have hinert {c : Char} (hc : ends c = true) : c ≠ '\x22' ∧ c ≠ '\\' :=
    ⟨ne_of_ends hends hc (by decide), ne_of_ends hends hc (by decide)⟩
  induction hn : patches.length using Nat.strong_induction_on generalizing patches with
  | _ n ih =>
    cases patches with
    | nil => exact ⟨.zero _, rfl⟩
    | cons patch rest =>
      subst hn
      obtain ⟨hpatch, hfits⟩ := List.forall_mem_cons.1 h
      have hrest := ih rest.length (Nat.lt_succ_self _) hfits rfl
      cases patch with
      | space old new =>
        rw [olds_space, news_space, stringSpan_append fun c hc => hinert (hpatch.old_ends c hc),
          stringSpan_append fun c hc => hinert (hpatch.new_ends c hc)]
        exact hrest.space old new
      | keep c =>
        rw [olds_keep, news_keep]
        by_cases hquote : c = '\x22'
        · subst hquote
          exact ⟨(Reach.zero rest).keep _, rfl⟩
        · by_cases hbackslash : c = '\\'
          · subst hbackslash
            -- The character behind the backslash does not count, whatever it is.
            cases rest with
            | nil => exact ⟨(Reach.zero []).keep _, rfl⟩
            | cons patch more =>
              obtain ⟨hpatch, hmore⟩ := List.forall_mem_cons.1 hfits
              have hmore := ih more.length (by simp only [List.length_cons]; omega) hmore rfl
              cases patch with
              | keep d => exact ⟨(hmore.reach.keep d).keep '\\', hmore.closed_eq⟩
              | space old new =>
                obtain ⟨c, cs, rfl⟩ := List.exists_cons_of_ne_nil hpatch.old_ne_nil
                obtain ⟨d, ds, rfl⟩ := List.exists_cons_of_ne_nil hpatch.new_ne_nil
                have hcs : stringSpan (cs ++ olds more) = (stringSpan (olds more)).grow cs.length :=
                  stringSpan_append fun e he => hinert (hpatch.old_ends e (List.mem_cons_of_mem _ he))
                have hds : stringSpan (ds ++ news more) = (stringSpan (news more)).grow ds.length :=
                  stringSpan_append fun e he => hinert (hpatch.new_ends e (List.mem_cons_of_mem _ he))
                have hreach := (hmore.reach.space (c :: cs) (d :: ds)).keep '\\'
                rw [olds_space, news_space, List.cons_append, List.cons_append, stringSpan,
                  stringSpan, hcs, hds]
                exact ⟨hreach, hmore.closed_eq⟩
          · have heq (text : List Char) :
                stringSpan (c :: text) = (stringSpan text).grow 1 := by
              rw [stringSpan.eq_def]
              split <;> simp_all
            rw [heq, heq]
            exact hrest.keep c

/-- The rest of raw text behind some backticks in a row. -/
theorem reach_raw (hends : ∀ c, ends c = true → isSpace c = true)
    (h : ∀ patch ∈ patches, patch.Fits ends) {fence : Nat} (hfence : fence ≠ 0) (run : Nat) :
    Spans patches (rawSpan fence run (olds patches)) (rawSpan fence run (news patches)) := by
  induction patches generalizing run with
  | nil => exact ⟨.zero _, rfl⟩
  | cons patch patches ih =>
    obtain ⟨hpatch, hfits⟩ := List.forall_mem_cons.1 h
    cases patch with
    | space old new =>
      have hinert {c : Char} (hc : ends c = true) : c ≠ '\x60' := ne_of_ends hends hc (by decide)
      rw [olds_space, news_space,
        rawSpan_append hfence hpatch.old_ne_nil fun c hc => hinert (hpatch.old_ends c hc),
        rawSpan_append hfence hpatch.new_ne_nil fun c hc => hinert (hpatch.new_ends c hc)]
      exact (ih hfits 0).space old new
    | keep c =>
      rw [olds_keep, news_keep, rawSpan, rawSpan]
      generalize (if c = '\x60' then run + 1 else 0) = run
      split
      · exact ⟨(Reach.zero patches).keep c, rfl⟩
      · exact (ih hfits _).keep c

end Patch

end TypstFormat
