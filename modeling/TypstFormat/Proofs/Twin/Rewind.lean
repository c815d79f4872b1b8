import TypstFormat.Grammar.Expression
import TypstFormat.Proofs.Grammar.Item
import TypstFormat.Proofs.Twin.Keyword

/-!
# Reading a list twice

Where an arrow follows a list between parentheses, the parser goes back to the parenthesis and reads
the list again as parameters. Nothing of the first reading is left: a parenthesis was consumed before
anything else could happen, and what was written before is left alone.

## Key results

- `rewind_collection`: going back to the parenthesis gives back the parser as it was
- `parenthesized_eq_ok`: what reading something between parentheses amounts to
-/

namespace TypstFormat

open Parse TypstFormat.Parser

namespace Sides

/-- Two sources without corresponding places. Nothing is compared, so that only what the left actions
leave alone matters. -/
def void : Sides where
  left := []
  right := []
  clean := False
  strict := False
  absent _ := False
  place _ _ := False
  stays _ := False
  first _ _ := False
  old _ _ := True
  spent _ := False
  front := []
  modes := []
  breakRules := []

/-- In a comparison in which no event is absent, markup is not barred. -/
theorem not_barred {S : Sides} (h : ∀ event, ¬S.absent event) : ¬S.barred :=
  fun hbarred => h _ (hbarred none)

instance : void.Lawful where
  place_lt h := h.elim
  clean_of_strict h := h
  column _ _ _ _ h := h.elim
  strict_of_first h := h.elim
  first_zero h := h.elim
  old_first h := h.elim
  spent_step h := h.elim
  spent_closing h := h.elim
  sight _ h := (h.elim id id).elim
  breakRules _ h := by cases h

theorem void_at {stage : Stage} {n ahead : Nat} {scope : Scope} {p p' : Parser}
    (h : void.At stage n ahead scope p p') : False :=
  h.consumed.elim id id

/-- What is known of the left actions is enough where nothing is compared. -/
theorem void_rulesTwin {rules : Rules} (h : rules.Keep) : void.RulesTwin rules rules where
  expression atomic precedence _ _ _ _ _ _ :=
    ⟨h.expression atomic precedence, fun _ _ _ _ _ _ _ _ hat => (void_at hat).elim⟩
  conditional _ _ _ _ _ _ := ⟨h.conditional, fun _ _ _ _ _ _ _ _ hat => (void_at hat).elim⟩
  markup atLineStart extent stops _ _ _ _ _ _ :=
    ⟨h.markup atLineStart extent stops, fun _ _ _ _ _ _ _ _ hat =>
      (void_at (hat (not_barred fun _ => id))).elim⟩
  keep' := h

end Sides

open Grammar Sides

variable {rules : Rules} {held : List Nat} {p q : Parser}

/-! ## What a list leaves alone -/

private theorem mode_whole : (Scope.whole .code).mode = .code := rfl

theorem keeps_nextItem (hk : rules.Keep) (collected : Collected) :
    Keeps held (nextItem rules collected) fun _ => held :=
  have h : void.Twin true True held _ (nextItem rules collected) (nextItem rules collected) _ _ :=
    nextItem_twin (n := 0) (void_rulesTwin hk) mode_whole collected collected
  h.keeps

theorem keeps_collection (hk : rules.Keep) (kind : Option Kind) :
    Keeps held (collection rules kind) fun list => list.index :: held :=
  have h : void.Twin true True held (void.At .on 0 0 (.whole .code)) (collection rules kind)
      (collection rules kind) _ _ := collection_twin (void_rulesTwin hk) mode_whole rfl kind
  h.keeps

/-! ## What is consumed first -/

/-- The action consumes the current token before anything else. -/
def Starts (x : Parse α) (p : Parser) : Prop :=
  ∀ a q, x p = .ok (a, q) → ∃ p₁, p₁.stream = p.stream.bump ∧ Later p₁ q

namespace Starts

variable {α β γ : Type}

theorem bump (held : List Nat) {f : Unit → Parse β} (hp : p.stream.Steady) (hend : p.isAtEnd = false)
    (hf : Keeps held (f ()) fun _ => held) : Starts (Parse.bump >>= f) p := by
  intro b q hrun
  obtain ⟨_, p₁, hbump, hrest⟩ := bind_eq_ok hrun
  cases hbump
  have hstream := stream_bumpAs hend p.stream.kind
  have hsteady : (p.bumpAs p.stream.kind).stream.Steady :=
    hstream ▸ (hp.bump (kind_ne_eof hend)).steady
  exact ⟨_, hstream, (hf _ _ _ hsteady hrest).1⟩

theorem ask {g : Parser → γ} {f : γ → Parse β} (h : Starts (f (g p)) p) :
    Starts (Parse.ask g >>= f) p := by
  intro b q hrun
  obtain ⟨_, p₁, hask, hrest⟩ := bind_eq_ok hrun
  cases hask
  exact h b q hrest

theorem modify {g : Parser → Parser} {f : Unit → Parse β} (hg : (g p).stream = p.stream)
    (h : Starts (f ()) (g p)) : Starts (modify g >>= f) p := by
  intro b q hrun
  obtain ⟨_, p₁, hmodify, hrest⟩ := bind_eq_ok hrun
  cases hmodify
  rw [← hg]
  exact h b q hrest

theorem start {f : Opening → Parse β}
    (h : Starts (f { index := p.events.size }) { p with events := p.events.push .tombstone }) :
    Starts (Parse.start >>= f) p := by
  intro b q hrun
  obtain ⟨node, p₁, hstart, hrest⟩ := bind_eq_ok hrun
  cases hstart
  exact h b q hrest

theorem bind (held : List Nat) {x : Parse α} {f : α → Parse β} (h : Starts x p)
    (hf : ∀ a, Keeps held (f a) fun _ => held) : Starts (x >>= f) p := by
  intro b q hrun
  obtain ⟨a, q₁, hx, hrest⟩ := bind_eq_ok hrun
  obtain ⟨p₁, hstream, hlater⟩ := h a q₁ hx
  exact ⟨p₁, hstream, hlater.trans (hf a _ _ _ hlater.steady hrest).1⟩

end Starts

theorem starts_eat (hp : p.stream.Steady) {kind : Kind} (hkind : kind.closesCode = false)
    (hat : p.isAt kind = true) : Starts (eat kind) p := by
  refine .ask ?_
  rw [hat]
  exact .bump [] hp (Twin.isAtEnd_of_isAt hkind hat) (.pure true)

theorem starts_expect (hp : p.stream.Steady) {kind : Kind} (hkind : kind.closesCode = false)
    (hat : p.isAt kind = true) (description : Option String) :
    Starts (expect kind description) p :=
  .bind [] (starts_eat hp hkind hat) fun _ =>
    .ite _ (.pure _) (.bind (.ask _) fun _ => .bind (keeps_report _) fun _ => .pure _)

theorem starts_items (hk : rules.Keep) (hp : p.stream.Steady) (hat : p.isAt .leftParen = true) :
    Starts (items rules) p := by
  have hat' : (p.enterBreakRule .ignored).isAt .leftParen = true := by
    rw [isAt_iff, current_enterBreakRule, kind_of_isAt rfl hat]
  have hopening := starts_expect (p := p.enterBreakRule .ignored) hp rfl hat' none
  refine .ask (.modify (g := (·.enterBreakRule .ignored)) rfl (.bind [] hopening fun _ => ?_))
  exact .bind (.loop (keeps_nextItem hk) _) fun _ => .bind (keeps_expectClosing _ _) fun _ =>
    .bind keeps_leaveBreakRule fun _ => .pure _

/-- A list begins with its parenthesis, whatever comes behind it. -/
theorem starts_collection (hk : rules.Keep) (hp : p.stream.Steady)
    (hat : p.isAt .leftParen = true) (kind : Option Kind) : Starts (collection rules kind) p := by
  have hend : p.isAtEnd = false := isAtEnd_of_isAt rfl hat
  have hnode (kind : Kind) : Keeps [p.events.size]
      (Opening.finish { index := p.events.size } kind) fun _ => [p.events.size] :=
    keeps_finish List.mem_cons_self kind
  refine .start (.ask (.ask (.ask ?_)))
  split
  · exact .bump _ hp hend (.bind keeps_bump fun _ => .bind keeps_bump fun _ => hnode _)
  · exact .bind _ (starts_items hk hp hat) fun _ => hnode _

/-! ## Going back -/

/-- Going back to the parenthesis in front of a list gives back the parser as it was. -/
theorem rewind_collection (hk : rules.Keep) (hp : p.stream.Steady) (hat : p.isAt .leftParen = true)
    {kind : Option Kind} {list : Closed} (hrun : collection rules kind p = .ok (list, q)) :
    q.rewind p.mark = p := by
  obtain ⟨p₁, hbump, hlater₁⟩ := starts_collection hk hp hat kind list q hrun
  obtain ⟨hlater, hleaves⟩ := @keeps_collection rules [] hk kind p list q hp hrun
  have hb := hp.bump (kind_ne_eof (isAtEnd_of_isAt rfl hat))
  rw [← hbump] at hb
  -- The look at the parenthesis was consumed, so that its trivia and diagnostics are settled.
  have hrecorded : p.stream.recorded <:+ q.stream.recorded := by
    rw [hp.recorded, hlater.steady.recorded, ← hb.settled]
    exact hlater₁.settled.trans (List.suffix_append _ _)
  have hfound : p.stream.scanner.findings <:+ q.stream.scanner.findings := by
    rw [hp.findings, hlater.steady.findings, ← hb.found]
    exact hlater₁.found.trans (List.suffix_append _ _)
  have hstream : q.stream.rewind p.stream.mark = p.stream :=
    Stream.rewind_mark hlater.source_eq hrecorded hfound
  have hevents : q.events.take p.events.size = p.events := by
    refine Array.ext_getElem? fun k => ?_
    rw [Array.take_eq_extract, Array.getElem?_extract, Nat.sub_zero, Nat.zero_add]
    by_cases hlt : k < p.events.size
    · have hlt' := hleaves.lt_size hlt List.not_mem_nil
      rw [if_pos (by omega)]
      exact (hleaves k hlt List.not_mem_nil).2
    · rw [if_neg (by omega), Array.getElem?_eq_none (by omega)]
  have hfindings : q.findings.drop (q.findings.length - p.findings.length) = p.findings :=
    (List.suffix_iff_eq_drop.1 hlater.findings).symm
  unfold Parser.rewind mark
  simp only [hstream, hevents, hfindings]

/-- The function whose parameters were read, from its arrow on. -/
def closureAround (rules : Rules) (params : Closed) : Parse Unit := do
  let closure ← params.wrap
  bump
  rules.expression false 0
  let _ ← closure.finish .closure

/-- A function whose parameters are a list. -/
def paramsClosure (rules : Rules) : Parse Unit :=
  collection rules (some .params) >>= closureAround rules

/-- A list to which something is assigned is a pattern. -/
def assigned (list : Closed) : Parse Unit := do
  if ← isAt .eq then
    unless (← list.kind) = .parenthesized do
      list.rename .destructuring

/-- What stands between parentheses is a list, unless an arrow follows: then the list is read as
parameters instead. -/
theorem parenthesized_eq_ok (hk : rules.Keep) (hp : p.stream.Steady)
    (hat : p.isAt .leftParen = true) {atomic : Bool} {r : Parser}
    (hrun : parenthesized rules atomic p = .ok ((), r)) :
    ∃ list q, collection rules none p = .ok (list, q) ∧
      ((atomic = true ∧ r = q) ∨
        (atomic = false ∧ q.isAt .arrow = true ∧ paramsClosure rules p = .ok ((), r)) ∨
        (atomic = false ∧ q.isAt .arrow = false ∧ assigned list q = .ok ((), r))) := by
  obtain ⟨_, p₁, hmark, hrest⟩ := bind_eq_ok hrun
  cases hmark
  obtain ⟨list, q, hlist, hrest⟩ := bind_eq_ok hrest
  refine ⟨list, q, hlist, ?_⟩
  cases atomic with
  | true =>
    cases hrest
    exact .inl ⟨rfl, rfl⟩
  | false =>
    obtain ⟨_, q₁, hask, hrest⟩ := bind_eq_ok hrest
    cases hask
    cases harrow : q.isAt .arrow with
    | true =>
      simp only [harrow, if_true] at hrest
      obtain ⟨_, q₂, hmodify, hrest⟩ := bind_eq_ok hrest
      cases hmodify
      have hagain : paramsClosure rules (q.rewind p.mark) = .ok ((), r) := hrest
      rw [rewind_collection hk hp hat hlist] at hagain
      exact .inr (.inl ⟨rfl, rfl, hagain⟩)
    | false =>
      simp only [harrow, Bool.false_eq_true, if_false] at hrest
      exact .inr (.inr ⟨rfl, rfl, hrest⟩)

theorem keeps_closureAround (hk : rules.Keep) (params : Closed) :
    Keeps (params.index :: held) (closureAround rules params) fun _ => held := by
  refine .bind (keeps_wrap List.mem_cons_self) fun closure => .bind keeps_bump fun _ => ?_
  refine .bind (hk.expression _ _) fun _ => .bind (keeps_finish (by simp) _) fun _ => ?_
  exact .pure_of_subset (by simp)

theorem keeps_paramsClosure (hk : rules.Keep) :
    Keeps held (paramsClosure rules) fun _ => held :=
  .bind (keeps_collection hk _) (keeps_closureAround hk)

theorem keeps_assigned {list : Closed} (hlist : list.index ∈ held) :
    Keeps held (assigned list) fun _ => held :=
  .bind (.ask _) fun _ => .ite _ (.bind (keeps_kind list) fun _ =>
    .ite _ (.pure _) (keeps_rename hlist _)) (.pure _)

/-- What stands between parentheses leaves alone what was there before. -/
theorem keeps_parenthesized (hk : rules.Keep) (hp : p.stream.Steady)
    (hat : p.isAt .leftParen = true) {atomic : Bool} {r : Parser}
    (hrun : parenthesized rules atomic p = .ok ((), r)) :
    Later p r ∧ Leaves held held p r := by
  obtain ⟨list, q, hlist, hrest⟩ := parenthesized_eq_ok hk hp hat hrun
  have hkeeps : Keeps held (collection rules none) fun _ => held :=
    (keeps_collection hk none).mono fun _ => List.subset_cons_self _ _
  rcases hrest with ⟨_, rfl⟩ | ⟨_, _, hrest⟩ | ⟨_, _, hrest⟩
  · exact hkeeps p list r hp hlist
  · exact keeps_paramsClosure hk p () r hp hrest
  · have hboth : (collection rules none >>= assigned) p = .ok ((), r) := by
      show (collection rules none p >>= fun found => assigned found.1 found.2) = _
      rw [hlist]
      exact hrest
    have hkeeps : Keeps held (collection rules none >>= assigned) fun _ => held :=
      .bind (keeps_collection hk none) fun _ =>
        (keeps_assigned List.mem_cons_self).mono fun _ => List.subset_cons_self _ _
    exact hkeeps p () r hp hboth

/-! ## Both sides -/

namespace Sides

variable {S : Sides} [hS : S.Lawful] {rules' : Rules} {closing : Bool} {fact : Prop}
variable {stage : Stage} {n ahead : Nat} {scope : Scope}

omit hS in
/-- What a list is called does not matter for the end of a comparison. -/
theorem broken_collection {kind kind' : Option Kind} {list list' : Closed} {q' : Parser}
    (hlist : collection rules kind p = .ok (list, q))
    (hlist' : collection rules kind' p = .ok (list', q'))
    (h : S.Broken closing (list.index :: held) q) :
    S.Broken closing (list'.index :: held) q' := by
  rw [collection_eq] at hlist hlist'
  obtain ⟨⟨node, name⟩, r, hopen, hfinish⟩ := bind_eq_ok hlist
  obtain ⟨_, r', hopen', hfinish'⟩ := bind_eq_ok hlist'
  rw [hopen] at hopen'
  cases hopen'
  obtain ⟨rfl, link, rfl⟩ := finish_eq_ok hfinish
  obtain ⟨rfl, link', rfl⟩ := finish_eq_ok hfinish'
  refine ⟨h.steady, h.source_eq, ?_⟩
  cases h.cause with
  | finding hclean hcause => exact .finding hclean hcause
  | spent hstrict hclosing hspent => exact .spent hstrict hclosing hspent
  | event hk hevent habsent =>
    have hne : node.index ≠ _ := fun heq => hk (heq ▸ List.mem_cons_self)
    refine .event hk ?_ habsent
    dsimp only at hevent ⊢
    rw [Array.getElem?_push, Array.getElem?_setIfInBounds_ne hne,
      Array.size_setIfInBounds] at hevent ⊢
    exact hevent

theorem assigned_twin (hmode : scope.mode = .code) {list : Closed} (hlist : list.index ∈ held) :
    S.Twin closing fact held (S.At stage n ahead scope) (assigned list)
      (assigned (S.closed list)) (fun _ => held) fun _ _ => S.At stage n ahead scope := by
  refine .askBool (fun _ _ _ h => h.isAt_eq hS (unbarred_code hmode trivial) rfl) ?_
    (.pure (List.Subset.refl _) fun _ _ _ h => h.1)
  refine .pre (P := S.At stage n ahead scope) ?_ fun _ _ _ h => h.1
  refine .bindEq (.kind list) fun kind => ?_
  split
  · exact .pure (List.Subset.refl _) fun _ _ _ h => h
  · exact .rename hlist .destructuring

theorem closureAround_twin (hr : S.RulesTwin rules rules') (hmode : scope.mode = .code)
    (params : Closed) :
    S.Twin closing fact (params.index :: held) (S.At .met n 0 scope) (closureAround rules params)
      (closureAround rules' (S.closed params)) (fun _ => held) fun _ _ => S.At .past n 0 scope := by
  refine .bindNode (.wrapInner List.mem_cons_self (List.subset_cons_self _ _)) fun closure => ?_
  refine .bind (.bump (follows_code hmode) rfl) fun _ _ => ?_
  exact .bind ((hr.expression false 0).run hmode rfl) fun _ _ => .finishLast

/-- The list is read as parameters on both sides. -/
theorem paramsClosure_run (hr : S.RulesTwin rules rules') (hmode : scope.mode = .code)
    (hon : stage.covers .on = true) {p' q r r' : Parser} (hp : S.Stands held p)
    (h : S.At stage n ahead scope p p') {list : Closed}
    (hlist : collection rules none p = .ok (list, q)) (harrow : q.isAt .arrow = true)
    (hrun : paramsClosure rules p = .ok ((), r)) (hrun' : paramsClosure rules' p' = .ok ((), r')) :
    (S.At .past n 0 scope r r' ∧ S.Stands held r) ∨ S.Broken closing held r := by
  obtain ⟨params, q₁, hparams, hrest⟩ := bind_eq_ok hrun
  obtain ⟨params', q₁', hparams', hrest'⟩ := bind_eq_ok hrun'
  have htwin : S.Twin closing True held (S.At stage n ahead scope) _ _ _ _ :=
    collection_twin hr hmode hon (some .params)
  rcases htwin.run trivial hp h hparams hparams' with ⟨⟨rfl, hq⟩, hstands⟩ | hbroken
  · -- The arrow that followed the first reading follows the second one.
    have hcurrent : q₁.isAt .arrow = true := by
      rw [isAt_iff, current_collection hlist hparams]
      exact isAt_iff.1 harrow
    have hmet := hq.seen (Twin.isAtEnd_of_isAt rfl hcurrent)
    have hrest_twin : S.Twin closing True (params.index :: held) (S.At .met n 0 scope) _ _ _ _ :=
      closureAround_twin hr hmode params
    exact hrest_twin.run trivial hstands hmet hrest hrest'
  · exact .inr (hbroken.keep hS (keeps_closureAround hr.keep params) hrest)

theorem parenthesized_run (hr : S.RulesTwin rules rules') (hmode : scope.mode = .code)
    (hon : stage.covers .on = true) {p' r r' : Parser} (hp : S.Stands held p)
    (h : S.At stage n ahead scope p p') (hat : p.isAt .leftParen = true) {atomic : Bool}
    (hrun : parenthesized rules atomic p = .ok ((), r))
    (hrun' : parenthesized rules' atomic p' = .ok ((), r')) :
    (S.At .past n 0 scope r r' ∧ S.Stands held r) ∨ S.Broken closing held r := by
  have hunbarred : S.barred → scope.mode ≠ .markup := unbarred_code hmode trivial
  have hat' : p'.isAt .leftParen = true := (h.isAt_eq hS hunbarred rfl).trans hat
  have hsub (list : Closed) : held ⊆ list.index :: held := List.subset_cons_self _ _
  obtain ⟨list, q, hlist, hrest⟩ := parenthesized_eq_ok hr.keep hp.steady hat hrun
  obtain ⟨list', q', hlist', hrest'⟩ := parenthesized_eq_ok hr.keep' h.steady' hat' hrun'
  have htwin : S.Twin closing True held (S.At stage n ahead scope) _ _ _ _ :=
    collection_twin hr hmode hon none
  rcases htwin.run trivial hp h hlist hlist' with ⟨⟨rfl, hq⟩, hstands⟩ | hbroken
  · have harrow : q'.isAt .arrow = q.isAt .arrow := hq.isAt_eq hS hunbarred rfl
    rcases hrest with ⟨rfl, rfl⟩ | ⟨rfl, hyes, hrest⟩ | ⟨rfl, hno, hrest⟩
    · obtain ⟨_, rfl⟩ : true = true ∧ r' = q' := by simpa using hrest'
      exact .inl ⟨hq, hstands.steady, hstands.source_eq, fun k hk => hstands.held_lt k (hsub _ hk)⟩
    · have hrest' : paramsClosure rules' p' = .ok ((), r') := by
        simpa [harrow, hyes] using hrest'
      exact paramsClosure_run hr hmode hon hp h hlist hyes hrest hrest'
    · have hrest' : assigned (S.closed list) q' = .ok ((), r') := by
        simpa [harrow, hno] using hrest'
      have hassigned : S.Twin closing True (list.index :: held) (S.At .past n 0 scope) _ _
          (fun _ => held) fun _ _ => S.At .past n 0 scope :=
        (assigned_twin hmode List.mem_cons_self).drop fun _ => hsub list
      exact hassigned.run trivial hstands hq hrest hrest'
  · right
    rcases hrest with ⟨_, rfl⟩ | ⟨_, _, hrest⟩ | ⟨_, _, hrest⟩
    · exact hbroken.drop (hsub list)
    · obtain ⟨params, q₁, hparams, hrest⟩ := bind_eq_ok hrest
      have hagain := broken_collection hlist hparams hbroken
      exact hagain.keep hS (keeps_closureAround hr.keep params) hrest
    · exact (hbroken.keep hS (keeps_assigned List.mem_cons_self) hrest).drop (hsub list)

end Sides

end TypstFormat
