import TypstFormat.Grammar.Item
import TypstFormat.Proofs.Grammar.Block

/-!
# What lists of items read

Items between parentheses, the arguments of calls, patterns, and imported names. Without diagnostics
a list of items is items with commas between them, and perhaps a comma behind the last one. Only the
tokens of an empty dictionary are consumed without being asked for, and so it can be cut short by a
line break.

## Key results

- `items_returns`: the items between two parentheses
- `args_returns`: the arguments of a call have the shape of such
- `collection_returns`, `pattern_returns`, `importItems_returns`
-/

namespace TypstFormat.Grammar

open Draft Parse TypstFormat.Parser

variable {rules : Rules} {n : Nat} {p p' : Parser}

/-! ## One item -/

theorem keyedItem_returns (hr : rules.Adequate n) (hp : p.Ok)
    (hstarts : p.isAtAny expressionStarts = true) (hleft : p.left < n) :
    Returns (keyedItem rules) p fun _ p' => ReadsItem p p' := by
  refine start_returns hp fun node hnode => .ask (.ask ?_)
  split
  · rename_i hkey
    obtain ⟨hident, hcolon⟩ := Bool.and_eq_true_iff.1 hkey
    have hcurrent : p.Consumes := .of_isAt rfl hident
    have hcolon : p.stream.nth 1 = .colon := of_decide_eq_true hcolon
    refine .bind (bump_returns_kind hnode.ok hcurrent.started) ?_
    rintro _ p₁ ⟨h₁, hnext⟩
    have hnext : p₁.stream.kind = .colon := hnext.trans hcolon
    have hbegins := begins_token p false
    refine .bind (bump_returns_some h₁.ok (by simp [hnext])) ?_
    rintro _ p₂ ⟨_, h₂⟩
    have hinside := (hnode.read h₁).read h₂
    have hleft₂ := Nat.lt_of_le_of_lt hinside.left_le hleft
    refine .bind (hr.expression hinside.ok hleft₂ _ _) ?_
    rintro _ p₃ ⟨_, h₃, _⟩
    refine .bind (finishNode_returns .named (hinside.read h₃) ((hbegins.append _).append _) rfl
      fun _ => trivial) ?_
    exact fun _ _ h => .pure (h.item rfl)
  · refine .bind (hr.expression hnode.ok hleft _ _) ?_
    rintro _ p₁ ⟨ds₁, h₁, hbegins, hitem, -⟩
    have hbegins : p.Begins ds₁ := hbegins hstarts
    have hinside := hnode.read h₁
    have hleft₁ := Nat.lt_of_le_of_lt hinside.left_le hleft
    refine .bind (eat_returns h₁.ok rfl) ?_
    rintro found p₂ ⟨_, h₂, _, _, hfalse⟩
    split
    · have hinside₂ := hinside.read h₂
      have hleft₂ := Nat.lt_of_le_of_lt hinside₂.left_le hleft
      refine .bind (hr.expression h₂.ok hleft₂ _ _) ?_
      rintro _ p₃ ⟨_, h₃, _⟩
      refine .bind (finishNode_returns .keyed (hinside₂.read h₃) ((hbegins.append _).append _) rfl
        fun _ => trivial) ?_
      exact fun _ _ h => .pure (h.item rfl)
    · -- No colon: the expression is the item, and the node around it is given up.
      rename_i hfound
      obtain ⟨rfl, _⟩ := hfalse (Bool.eq_false_iff.2 hfound)
      refine .bind (dissolve_returns hinside) ?_
      rintro _ p₃ ⟨hre, ds₃, h₃, hpresent, hleaves⟩
      refine .pure ⟨ds₃, h₃, ?_, fun hclean => ?_⟩
      · unfold Begins
        rw [hleaves]
        exact hbegins
      · rw [hre.findings_eq] at hclean
        rw [kinds_of_present hpresent]
        exact (hitem hclean).1.kinds_eq

/-- The tokens that an item starts with. -/
def itemStarts : List Kind :=
  .dots :: expressionStarts

/-- What is read from the start of an item is solid, if it is one thing. -/
theorem solidNodes_of_begins (hp : p.Ok) {drafts : List Draft} {first kind : Kind}
    (hfirst : p.current = first) (hsolid : (first.isGlue || first = .breakEnd) = false)
    (hbegins : p.Begins drafts) (hkinds : kinds drafts = [kind]) (hends : EndsPlainly drafts) :
    SolidNodes drafts := by
  refine solidNodes_of_leaf hkinds hbegins ?_ hends
  rw [Bool.or_eq_false_iff, decide_eq_false_iff_not] at hsolid
  rw [← hp.kind_eq, kind_eq_current (hfirst ▸ hsolid.2), hfirst]
  exact hsolid.1

theorem solidNodes_of_itemStarts (hp : p.Ok) {drafts : List Draft} {kind : Kind}
    (hstarts : p.current ∈ itemStarts) (hbegins : p.Begins drafts)
    (hkinds : kinds drafts = [kind]) (hends : EndsPlainly drafts) : SolidNodes drafts := by
  have hall : ∀ first ∈ itemStarts, (first.isGlue || first = .breakEnd) = false := by decide
  exact solidNodes_of_begins hp rfl (hall _ hstarts) hbegins hkinds hends

/-- An item begins with the current token; otherwise none starts here. -/
theorem item_returns (hr : rules.Adequate n) (hp : p.Ok) (hleft : p.left < n) :
    Returns (item rules) p fun found p' =>
      match found with
      | some _ => ReadsItem p p' ∧ p.current ∈ itemStarts
      | none => p' = p := by
  refine .ask ?_
  split
  · rename_i hdots
    have hcurrent := Consumes.of_isAt rfl hdots
    refine start_returns hp fun node hnode => ?_
    refine .bind (bump_returns hnode.ok hcurrent.started) fun _ p₁ h₁ => ?_
    have hbegins := begins_token p false
    refine .ask ?_
    extract_lets next
    have hnext : ∀ p₂ ds, Reads p.started ds p₂ → p.Begins ds →
        Returns (next ()) p₂ fun found p' =>
          match found with
          | some _ => ReadsItem p p' ∧ p.current ∈ itemStarts
          | none => p' = p := by
      intro p₂ ds h₂ hbegins₂
      refine .bind (finish_returns .spread (hnode.read h₂) rfl hbegins₂.ne_nil fun _ => trivial) ?_
      rintro _ p₃ ⟨h₃, _⟩
      refine .pure ⟨ReadsNode.item ⟨_, h₃, hbegins₂⟩ rfl, ?_⟩
      rw [isAt_iff.1 hdots]
      exact List.mem_cons_self
    split
    · have hleft₁ := Nat.lt_of_le_of_lt (hnode.read h₁).left_le hleft
      refine .bind (hr.expression h₁.ok hleft₁ _ _) ?_
      rintro _ p₂ ⟨_, h₂, _⟩
      exact hnext p₂ _ (h₁.trans h₂) (hbegins.append _)
    · exact hnext p₁ _ h₁ hbegins
  · refine .ask ?_
    split
    · rename_i hstarts
      refine .bind (keyedItem_returns hr hp hstarts hleft) fun _ p₁ h₁ => .pure ⟨h₁, ?_⟩
      exact List.mem_cons_of_mem _ (mem_of_isAtAny hstarts)
    · exact .pure rfl

/-- What is no item is skipped, with a complaint, unless the list can go on here. -/
theorem skipToItem_returns (hp : p.Ok) :
    Returns skipToItem p fun ended p' => ∃ ds, Reads p ds p' ∧ p'.findings ≠ [] ∧
      (ended = false → p.Begins ds ∨ ds = [] ∧ p.isAtAny itemResumes = true) := by
  refine .bind (reportUnexpected_returns hp) ?_
  rintro _ p₁ ⟨h₁, hne⟩
  refine .bind (recover_returns .errorNode h₁.ok hne rfl _) ?_
  rintro recovery p₂ ⟨ds, h₂, h⟩
  have hne₂ : p₂.findings ≠ [] := fun hclean => hne (h₂.clean hclean)
  cases recovery with
  | atEnd => exact .pure ⟨ds, h₁.trans h₂, hne₂, by simp⟩
  | alreadySafe =>
    obtain ⟨rfl, hsafe⟩ := h
    exact .pure ⟨[], h₁, hne₂, fun _ => .inr ⟨rfl, h₁.isAtAny_eq hp _ ▸ hsafe⟩⟩
  | skipped node => exact .pure ⟨ds, h₁.trans h₂, hne₂, fun _ => .inl (h₁.begins h)⟩

theorem isAtTerminator_eq_false : p.isAtTerminator = false ↔
    p.current.isTerminator = false ∧ p.current ≠ .eof := by
  simp [Parser.isAtTerminator, Parser.isAt]

/-- Where a list can go on and does not end, a comma stands. -/
theorem current_of_resumes (h : p.isAtTerminator = false)
    (hresumes : p.isAtAny itemResumes = true) : p.current = .comma := by
  obtain ⟨hterminator, _⟩ := isAtTerminator_eq_false.1 h
  have := mem_of_isAtAny hresumes
  simp only [itemResumes, closingDelimiters, List.cons_append, List.nil_append, List.mem_cons,
    List.not_mem_nil, or_false] at this
  rcases this with hk | hk | hk | hk | hk | hk <;> rw [hk] at hterminator ⊢ <;>
    cases hterminator

/-- Behind an item, or what was skipped for one, a comma is read as well, so the round consumes
something even if nothing was skipped. -/
theorem begins_comma (hp : p.Ok) (hterminator : p.isAtTerminator = false) {ds ds' : List Draft}
    (h : Reads p ds p') (hended : p.Begins ds ∨ ds = [] ∧ p.isAtAny itemResumes = true)
    {found : Bool} (hfound : found = p'.isAt .comma)
    (htrue : found = true → kinds ds' = [.comma] ∧ p'.Begins ds') : p.Begins (ds ++ ds') := by
  rcases hended with hbegins | ⟨rfl, hresumes⟩
  · exact hbegins.append ds'
  · have hcurrent : p'.isAt .comma = true := by
      rw [isAt_iff, h.current_eq hp]
      exact current_of_resumes hterminator hresumes
    exact h.begins (htrue (hfound.trans hcurrent)).2

/-! ## Items between parentheses -/

/-- Items, each with a comma behind it, were read so far. -/
def Gathered (p : Parser) (collected : Collected) (p' : Parser) : Prop :=
  Behind collected.progress p' ∧ ∃ drafts, Reads p drafts p' ∧
    (p'.findings = [] → ∃ items : List Kind,
      kinds drafts = items.flatMap (fun item => [item, .comma]) ∧
      (∀ item ∈ items, item.isItem = true) ∧ SolidNodes drafts)

/-- A list of items was read. -/
def ReadsItems (p p' : Parser) : Prop :=
  ∃ drafts, Reads p drafts p' ∧
    (p'.findings = [] → ItemKinds (kinds drafts) ∧ SolidNodes drafts)

theorem itemKinds_of_items {items : List Kind} (h : ∀ item ∈ items, item.isItem = true) :
    ItemKinds (items.flatMap fun item => [item, .comma]) :=
  ⟨items, none, by simp, by simpa using h⟩

theorem itemKinds_of_last {items : List Kind} {last : Kind}
    (h : ∀ item ∈ items, item.isItem = true) (hlast : last.isItem = true) :
    ItemKinds (items.flatMap (fun item => [item, .comma]) ++ [last]) := by
  refine ⟨items, some last, by simp, ?_⟩
  intro item hitem
  rcases List.mem_append.1 hitem with hitem | hitem
  · exact h item hitem
  · obtain rfl : item = last := by simpa using hitem
    exact hlast

/-- Each round reads an item and a comma, skips what is no item, or ends the list. -/
theorem nextItem_returns (hr : rules.Adequate n) (hmode : p.stream.mode = .code)
    (hleft : p.left < n) {collected : Collected} {p₁ : Parser} (h : Gathered p collected p₁) :
    Returns (nextItem rules collected) p₁
      (Returns.Round (Gathered p) (fun _ p' => ReadsItems p p') p₁) := by
  obtain ⟨hbehind, ds, hread, hclean⟩ := h
  have hok := hread.ok
  have hleft₁ := Nat.lt_of_le_of_lt hread.left_le hleft
  have hcode : p₁.stream.mode ≠ .markup := by simp [hread.mode_eq, hmode]
  refine .ask ?_
  split
  · -- The list ends behind a comma, or is empty.
    refine .pure ⟨ds, hread, fun hfindings => ?_⟩
    obtain ⟨items, hkinds, hitems, hsolid⟩ := hclean hfindings
    refine ⟨?_, hsolid⟩
    rw [hkinds]
    exact itemKinds_of_items hitems
  · rename_i hterminator
    have hterminator : p₁.isAtTerminator = false := Bool.eq_false_iff.2 hterminator
    refine advance_returns hbehind ?_
    refine .bind (item_returns hr hok hleft₁) fun found p₂ h₂ => ?_
    extract_lets collected₂ next
    cases found with
    | some item =>
      obtain ⟨⟨ds₂, h₂, hbegins, hitem⟩, hstarts⟩ := h₂
      refine .pure_bind (.ask ?_)
      split
      · -- The list ends behind this item.
        refine .pure ⟨_, hread.trans h₂, fun hfindings => ?_⟩
        obtain ⟨kind, hkind, hisItem⟩ := hitem hfindings
        obtain ⟨items, hkinds, hitems, hsolid⟩ := hclean (h₂.clean hfindings)
        have hends := (h₂.tidy hfindings).ends hcode
        refine ⟨?_, hsolid.append (solidNodes_of_itemStarts hok hstarts hbegins hkind hends)⟩
        rw [kinds_append, hkinds, hkind]
        exact itemKinds_of_last hitems hisItem
      · refine .bind (expect_returns h₂.ok rfl _) ?_
        rintro comma p₃ ⟨ds₃, h₃, _, htrue, hfalse⟩
        have hbegins' := hbegins.append ds₃
        have h₂₃ := h₂.trans h₃
        refine .pure ⟨⟨h₂₃.behind hok hbegins', _, hread.trans h₂₃, fun hfindings => ?_⟩,
          h₂₃.left_lt hok hbegins'⟩
        have hfindings₂ := h₃.clean hfindings
        obtain ⟨kind, hkind, hisItem⟩ := hitem hfindings₂
        obtain ⟨items, hkinds, hitems, hsolid⟩ := hclean (h₂.clean hfindings₂)
        have hkinds₃ : kinds ds₃ = [.comma] := (htrue (eq_true_of_clean hfalse hfindings)).1
        have hends := (h₂.tidy hfindings₂).ends hcode
        refine ⟨items ++ [kind], ?_, ?_, hsolid.append (.append ?_ ?_)⟩
        · rw [kinds_append, kinds_append, hkinds, hkind, hkinds₃]
          simp
        · simpa [or_imp, forall_and] using ⟨hitems, hisItem⟩
        · exact solidNodes_of_itemStarts hok hstarts hbegins hkind hends
        · exact solidNodes_of_kinds h₃.proper (by simp [hkinds₃]; rfl)
    | none =>
      -- There is a diagnostic from here on, so only the progress is left to show.
      subst h₂
      refine .bind (skipToItem_returns hok) ?_
      rintro ended p₃ ⟨ds₃, h₃, hne, hended⟩
      refine .ask ?_
      split
      · exact .pure ⟨_, hread.trans h₃, fun hfindings => absurd hfindings hne⟩
      · rename_i hgoes
        have hended := hended (Bool.eq_false_iff.2 fun h => hgoes (Bool.or_eq_true_iff.2 (.inl h)))
        refine .bind (expect_returns h₃.ok rfl _) ?_
        rintro comma p₄ ⟨ds₄, h₄, hcomma, htrue, _⟩
        have hbegins := begins_comma hok hterminator h₃ hended hcomma htrue
        have h₃₄ := h₃.trans h₄
        refine .pure ⟨⟨h₃₄.behind hok hbegins, _, hread.trans h₃₄, fun hfindings => ?_⟩,
          h₃₄.left_lt hok hbegins⟩
        exact absurd (h₄.clean hfindings) hne

/-- Items between parentheses: without diagnostics, both parentheses are there. -/
theorem items_returns (hr : rules.Adequate n) (hp : p.Ok) (hat : p.isAt .leftParen = true)
    (hleft : p.left ≤ n) :
    Returns (items rules) p fun _ p' => ∃ ds, Spans p ds p' ∧ p.Begins ds ∧
      (p'.findings = [] → (∃ items, ItemKinds items ∧
        kinds ds = .leftParen :: (items ++ [.rightParen])) ∧ SolidNodes ds) := by
  refine .ask (.modified ?_)
  have hok : (p.enterBreakRule .ignored).Ok := ⟨hp.steady, hp.complains⟩
  have hat' : (p.enterBreakRule .ignored).isAt .leftParen = true := by
    have hcurrent := isAt_iff.1 hat
    rw [isAt_iff, current_enterBreakRule, kind_eq_current (by rw [hcurrent]; simp), hcurrent]
  refine .bind (expectOpening_returns hok hat') fun _ p₁ h₁ => ?_
  have hkinds₁ := hok.kinds_look_of_isAt (by simp) hat'
  have hparen := hok.kind_look_of_isAt (by simp) hat'
  have hmode₁ : p₁.stream.mode = .code :=
    h₁.mode_eq.trans (hok.steady.mode_eq_code (hok.kind_eq.trans hparen))
  have hbegins := begins_token p false
  have hleft₁ := Nat.lt_of_lt_of_le (h₁.left_lt hok hbegins) hleft
  have hstart : Gathered p₁ {} p₁ :=
    ⟨behind_start _, [], .refl h₁.ok, fun _ => ⟨[], rfl, by simp, solidNodes_nil⟩⟩
  refine .bind (.loop (Gathered p₁) hstart fun _ _ =>
    nextItem_returns hr hmode₁ hleft₁) ?_
  rintro _ p₂ ⟨ds₂, h₂, hitems⟩
  -- The diagnostic of a missing parenthesis is that of the opening one.
  have hopening : p.range.stop ≤ p₂.source.length := by
    rw [h₂.source_eq, h₁.source_eq]
    exact hp.range_stop_le
  refine .bind (expectClosing_returns h₂.ok rfl hopening) ?_
  rintro closed p₃ ⟨ds₃, h₃, _, htrue, hfalse⟩
  have hkinds₃ (hclean : p₃.findings = []) : kinds ds₃ = [.rightParen] :=
    (htrue (eq_true_of_clean hfalse hclean)).1
  refine .bind (leaveBreakRule_returns (h₁.close h₂.toSpans h₃.toSpans hparen hkinds₃)) ?_
  rintro _ _ ⟨h₄, rfl⟩
  refine .pure ⟨_, h₄, hbegins.append _, fun hclean => ?_⟩
  have hkinds₃ := hkinds₃ hclean
  obtain ⟨hitems, hsolid⟩ := hitems (h₃.clean hclean)
  refine ⟨⟨_, hitems, ?_⟩, SolidNodes.append ?_ (hsolid.append ?_)⟩
  · rw [kinds_append, kinds_append, hkinds₁, hkinds₃]
    rfl
  · exact solidNodes_of_kinds h₁.proper (by simp [hkinds₁]; rfl)
  · exact solidNodes_of_kinds h₃.proper (by simp [hkinds₃]; rfl)

/-! ## Lists -/

/-- The kinds of lists between parentheses. -/
def listKinds : List Kind :=
  [.parenthesized, .array, .dict, .destructuring, .params]

theorem isNode_of_mem_listKinds {kind : Kind} (h : kind ∈ listKinds) : kind.isNode = true := by
  revert kind
  decide

theorem isCommon_of_mem_listKinds {kind : Kind} (h : kind ∈ listKinds) :
    kind.isCommon = true ∧ kind.isOpen = false := by
  revert kind
  decide

theorem shape_of_mem_listKinds {kind : Kind} {children : List Draft} (hkind : kind ∈ listKinds)
    (h : Between .leftParen .rightParen (kinds children)) : Shape kind children := by
  simp only [listKinds, List.mem_cons, List.not_mem_nil, or_false] at hkind
  rcases hkind with rfl | rfl | rfl | rfl | rfl
  · exact .inl h
  · exact .inl h
  · exact .inl h
  · exact .inl h
  · trivial

theorem mem_listKinds_collected (collected : Collected) : collected.kind ∈ listKinds := by
  unfold Collected.kind
  split
  · decide
  · split <;> decide

theorem params_mem_listKinds : ∀ kind ∈ some Kind.params, kind ∈ listKinds := by
  rintro kind ⟨⟩
  decide

theorem tidy_list {mode : Mode} {kind : Kind} {children : List Draft} (hkind : kind ∈ listKinds)
    (htidy : Tidy mode children) (hbetween : Between .leftParen .rightParen (kinds children)) :
    Tidy mode [.node kind false children] :=
  tidy_node _ (isNode_of_mem_listKinds hkind)
    (htidy.formed (shape_of_mem_listKinds hkind hbetween)) htidy.sound htidy.ends htidy.keeps

/-- A list between parentheses was taken. Either it is tidy and closed, or it is an empty dictionary
that was cut short by the end of the code. -/
structure ReadsList (kind : Option Kind) (own : Kind) (children : List Draft) (p p' : Parser) :
    Prop where
  takes : Takes p [.node own false children] p'
  bare : Bare children
  isAtEnd : p.isAtEnd = false
  begins : p.Begins children
  mem : own ∈ listKinds
  closes : (p'.findings = [] →
      Tidy p.stream.mode children ∧ Between .leftParen .rightParen (kinds children)) ∨
    (p'.current = .breakEnd ∧ SoundAll children ∧ EndsPlainly children ∧
      Look.Keeps (p.stream.mode = .markup) (leavesAll children) ∧
      (kind = none → IsCutShort own (kinds children)))

namespace ReadsList

variable {kind : Option Kind} {own : Kind} {children : List Draft}

theorem isNode (h : ReadsList kind own children p p') : own.isNode = true :=
  isNode_of_mem_listKinds h.mem

/-- Where the code does not end behind the list, it is closed, whatever it is called. -/
theorem tidy (h : ReadsList kind own children p p') (hcurrent : p'.current ≠ .breakEnd)
    (hclean : p'.findings = []) {name : Kind} (hname : name ∈ listKinds) :
    Tidy p.stream.mode [.node name false children] := by
  obtain ⟨htidy, hbetween⟩ := h.closes.resolve_right (fun hcut => hcurrent hcut.1) hclean
  exact tidy_list hname htidy hbetween

/-- Whatever the list is called, its lines are its own. -/
theorem lined (h : ReadsList kind own children p p') {name : Kind} (hname : name ∈ listKinds)
    {breaks : Breaks} : Lined p.source breaks p'.codeLook (.node name false children) := by
  obtain ⟨-, hmarkup, hmath, -⟩ := Kind.isCommon_iff.1 (isCommon_of_mem_listKinds h.mem).1
  obtain ⟨hcommon, hclosed⟩ := isCommon_of_mem_listKinds hname
  have hlined := (lined_node.1 h.takes.lined.2.1).1
  have hinside : Breaks.inside .anywhere own = .anywhere := by
    simp [Breaks.inside, hmarkup, hmath]
  rw [hinside] at hlined
  refine lined_of_isCommon hcommon hlined (fun _ hopen => ?_) _
  rw [hclosed] at hopen
  cases hopen

theorem placed (h : ReadsList kind own children p p') (hp : p.Ok) {name : Kind}
    (hname : name ∈ listKinds) : Placed p p'.codeLook [.node name false children] :=
  ⟨fun _ => h.bare.enclosed (isCommon_of_mem_listKinds hname).1 _, fun hbound =>
    linedAll_node (fun _ => h.begins.joins hp h.isAtEnd _ hbound) (h.lined hname)⟩

theorem reads_of_current (h : ReadsList kind own children p p') (hp : p.Ok)
    (hcurrent : p'.current ≠ .breakEnd) : Reads p [.node own false children] p' :=
  h.takes.reads (fun hclean => h.tidy hcurrent hclean h.mem) (h.placed hp h.mem)

/-- A list that may be called a dictionary is read even if it is cut short. -/
theorem reads (h : ReadsList none own children p p') (hp : p.Ok) :
    Reads p [.node own false children] p' := by
  refine h.takes.reads (fun hclean => ?_) (h.placed hp h.mem)
  rcases h.closes with hclosed | ⟨_, hsound, hends, hkeeps, hcut⟩
  · obtain ⟨htidy, hbetween⟩ := hclosed hclean
    exact tidy_list h.mem htidy hbetween
  · exact tidy_node _ h.isNode (formed_of_isCutShort (hcut rfl)) hsound (fun _ => hends) hkeeps

end ReadsList

/-- The three tokens of an empty dictionary, as far as the code goes on. -/
theorem emptyDict_takes (hp : p.Ok) (hat : p.isAt .leftParen = true)
    (hcolon : p.stream.nth 1 = .colon) (hclose : p.stream.nth 2 = .rightParen) :
    ∃ ds, Takes p ds p.bump.bump.bump ∧ Bare ds ∧ p.Begins ds ∧
      ((p.bump.bump.bump.findings = [] →
          Tidy p.stream.mode ds ∧ Between .leftParen .rightParen (kinds ds)) ∨
        (p.bump.bump.bump.current = .breakEnd ∧ SoundAll ds ∧ EndsPlainly ds ∧
          Look.Keeps (p.stream.mode = .markup) (leavesAll ds) ∧
          (kinds ds = [.leftParen] ∨ kinds ds = [.leftParen, .colon]))) := by
  have hend := isAtEnd_of_isAt rfl hat
  have h₁ := takes_bump hp hend
  have hbegins := begins_token p false
  have hbare₁ : Bare [.token p.look false] := .token false (hp.isOfMarkup_of_isAt hat rfl)
  have hkinds₁ := hp.kinds_look_of_isAt (by simp) hat
  have hends₁ := endsPlainly_of_kinds h₁.proper (by rw [hkinds₁]; rfl) rfl (by simp) rfl
  have hkeeps₁ : Look.Keeps (p.stream.mode = .markup) (leavesAll [.token p.look false]) :=
    ⟨fun hmarkup => of_decide_eq_true hmarkup, trivial⟩
  have hkind₁ : p.bump.stream.kind = .colon := (kind_bump hend).trans hcolon
  cases hend₁ : p.bump.isAtEnd with
  | true =>
    -- The code ends in front of the colon.
    rw [bump_of_isAtEnd hend₁, bump_of_isAtEnd hend₁]
    have hcurrent := current_of_isAtEnd hend₁ (by simp [hkind₁])
    exact ⟨_, h₁, hbare₁, hbegins, .inr ⟨hcurrent, ⟨trivial, trivial⟩, hends₁, hkeeps₁, .inl hkinds₁⟩⟩
  | false =>
    have h₂ := reads_bump h₁.ok ⟨hend₁, by simp [hkind₁]⟩
    have hkinds₂ := h₁.ok.kinds_look.trans (by rw [hkind₁])
    have hbare₂ := hbare₁.append (.of_kinds h₂.proper hkinds₂ rfl rfl)
    have hends₂ := endsPlainly_of_kinds h₂.proper (by rw [hkinds₂]; rfl) rfl (by simp) rfl
    have hkind₂ : p.bump.bump.stream.kind = .rightParen := by
      rw [kind_bump hend₁, nth_bump hend (by simp [hkind₁]), hclose]
    cases hend₂ : p.bump.bump.isAtEnd with
    | true =>
      -- The code ends in front of the closing parenthesis.
      rw [bump_of_isAtEnd hend₂]
      have hcurrent := current_of_isAtEnd hend₂ (by simp [hkind₂])
      refine ⟨_, h₁.trans h₂.toTakes, hbare₂, hbegins.append _,
        .inr ⟨hcurrent, ?_, hends₁.append hends₂, ?_, .inr ?_⟩⟩
      · exact ⟨trivial, trivial, trivial⟩
      · refine ⟨hkeeps₁.1, fun hspace => ?_, trivial⟩
        rw [hp.kind_look_of_isAt (by simp) hat] at hspace
        cases hspace
      · rw [kinds_append, hkinds₁, hkinds₂]
        rfl
    | false =>
      have h₃ := reads_bump h₂.ok ⟨hend₂, by simp [hkind₂]⟩
      have hkinds₃ := h₂.ok.kinds_look.trans (by rw [hkind₂])
      have hparen := hp.kind_look_of_isAt (by simp) hat
      have hclosed := h₁.close h₂.toSpans h₃.toSpans hparen fun _ => hkinds₃
      have hbare := hbare₂.append (.of_kinds h₃.proper hkinds₃ rfl rfl)
      rw [List.append_assoc] at hbare
      exact ⟨_, hclosed.toTakes, hbare, hbegins.append _, .inl fun hclean =>
        ⟨hclosed.tidy hclean, between_of_kinds hkinds₁ hkinds₃⟩⟩

/-- A list between parentheses is a node, of the given kind if there is one. -/
theorem collection_returns (hr : rules.Adequate n) (hp : p.Ok) (hat : p.isAt .leftParen = true)
    (hleft : p.left ≤ n) {kind : Option Kind} (hkind : ∀ k ∈ kind, k ∈ listKinds) :
    Returns (collection rules kind) p fun closed p' => ∃ own children,
      ReadsList kind own children p p' ∧ closed.index = p.events.size := by
  have hown {default : Kind} (hdefault : default ∈ listKinds) :
      kind.getD default ∈ listKinds := by
    cases kind with
    | none => exact hdefault
    | some k => exact hkind k rfl
  have hend := isAtEnd_of_isAt rfl hat
  have hmode : p.stream.mode ≠ .markup := by
    have hparen := hp.kind_eq.trans (hp.kind_look_of_isAt (by simp) hat)
    simp [hp.steady.mode_eq_code hparen]
  refine start_returns hp fun node hnode => .ask (.ask (.ask ?_))
  split
  · rename_i hempty
    simp only [Bool.and_eq_true, decide_eq_true_eq] at hempty
    obtain ⟨⟨_, hcolon⟩, hclose⟩ := hempty
    obtain ⟨ds, h₁, hbare, hbegins, hends⟩ := emptyDict_takes hnode.ok hat hcolon hclose
    have hmem : kind.getD .dict ∈ listKinds := hown (by decide)
    have hwithin := hnode.take h₁
    refine .modified (.modified (.modified ?_))
    refine (finishWithin_returns _ hwithin (isNode_of_mem_listKinds hmem)
      (lined_of_isCommon (isCommon_of_mem_listKinds hmem).1 hwithin.lined
        (fun hne => absurd rfl hne) _)).mono ?_
    rintro closed p₂ ⟨h₂, hindex, hre⟩
    refine ⟨_, _, ⟨h₂, hbare, hend, hbegins, hmem, ?_⟩, hindex⟩
    rcases hends with hclosed | ⟨hcurrent, hsound, hends, hkeeps, hcut⟩
    · exact .inl fun hclean => hclosed (hre.findings_eq ▸ hclean)
    · refine .inr ⟨hre.current_eq.trans hcurrent, hsound, hends, hkeeps, ?_⟩
      rintro rfl
      exact ⟨rfl, hcut⟩
  · refine .bind (items_returns hr hnode.ok hat hleft) ?_
    rintro collected p₁ ⟨ds, h₁, hbegins, hitems⟩
    have hmem := hown (mem_listKinds_collected collected)
    have hwithin := hnode.take h₁.toTakes
    refine (finishWithin_returns _ hwithin (isNode_of_mem_listKinds hmem)
      (lined_of_isCommon (isCommon_of_mem_listKinds hmem).1 hwithin.lined
        (fun hne => absurd rfl hne) _)).mono ?_
    rintro closed p₂ ⟨h₂, hindex, hre⟩
    refine ⟨_, _, ⟨h₂, h₁.bare hmode, hend, hbegins, hmem, .inl fun hclean => ?_⟩, hindex⟩
    rw [hre.findings_eq] at hclean
    obtain ⟨⟨items, _, hkinds⟩, _⟩ := hitems hclean
    exact ⟨h₁.tidy hclean, items, hkinds⟩

/-- A list and the kind that its items make it, in the node that is started for it. -/
def openList (rules : Rules) : Parse (Opening × Kind) := do
  let node ← start
  if (← isAt .leftParen) && (← nth 1) = .colon && (← nth 2) = .rightParen then
    bump
    bump
    bump
    return (node, .dict)
  else
    return (node, (← items rules).kind)

theorem collection_eq (rules : Rules) (kind : Option Kind) :
    collection rules kind = openList rules >>= fun r => r.1.finish (kind.getD r.2) := by
  unfold collection openList
  simp only [bind_assoc]
  refine bind_congr fun node => bind_congr fun _ => bind_congr fun _ => bind_congr fun _ => ?_
  split <;> simp only [bind_assoc, pure_bind]

/-- What a list is called does not change where the parser stands behind it. -/
theorem current_collection {kind kind' : Option Kind} {closed closed' : Closed} {p₁ p₂ : Parser}
    (h : collection rules kind p = .ok (closed, p₁))
    (h' : collection rules kind' p = .ok (closed', p₂)) : p₂.current = p₁.current := by
  rw [collection_eq] at h h'
  obtain ⟨r, q, hopen, hfinish⟩ := bind_eq_ok h
  obtain ⟨r', q', hopen', hfinish'⟩ := bind_eq_ok h'
  rw [hopen] at hopen'
  cases hopen'
  rw [(rewrites_of_finish hfinish).current_eq, (rewrites_of_finish hfinish').current_eq]

theorem isAt_of_isDirectlyAt {kind : Kind} (h : p.isDirectlyAt kind = true) :
    p.isAt kind = true :=
  (Bool.and_eq_true_iff.1 h).1

/-- Where nothing but the current token comes next, what begins with it is attached. -/
theorem attached_of_isDirectlyAt (hp : p.Ok) {kind : Kind} (hat : p.isDirectlyAt kind = true)
    {drafts : List Draft} (hbegins : p.Begins drafts) : Attached drafts := by
  have htrivia := (Bool.and_eq_true_iff.1 hat).2
  rw [hp.steady.afterTrivia, Bool.not_not, List.isEmpty_iff] at htrivia
  exact ⟨p.look, hbegins, htrivia⟩

/-- Content blocks, each attached to what stands in front of it. -/
def AttachedBlocks (drafts : List Draft) : Prop :=
  SolidNodes drafts ∧
    ∀ draft ∈ drafts, draft.isNode = true ∧ draft.kind = .contentBlock ∧ Attached [draft]

/-- A content block ends with its bracket. -/
theorem endsPlainly_contentBlock {wraps : Bool} {children : List Draft}
    (hproper : ProperAll [.node .contentBlock wraps children])
    (hsound : SoundAll [.node .contentBlock wraps children]) :
    EndsPlainly [.node .contentBlock wraps children] := by
  obtain ⟨inner, hkinds⟩ := (hsound.1.1.shape.between rfl).resolve_right (by simp [IsCutShort])
  have hlast : (kinds children).getLast? = some .rightBracket := by
    rw [hkinds, ← List.cons_append, List.getLast?_concat]
  rw [endsPlainly_node]
  exact endsPlainly_of_kinds hproper.1.2.2 hlast rfl (by simp) rfl

/-- All content blocks that are attached are read. -/
theorem trailingBlocks_returns (hr : rules.Adequate n) (hp : p.Ok) (hleft : p.left ≤ n) :
    Returns (trailingBlocks rules) p fun _ p' => ∃ ds, Reads p ds p' ∧
      (p'.findings = [] → AttachedBlocks ds) ∧
      (p.isDirectlyAt .leftBracket = true → p.Begins ds) := by
  refine .loop (fun _ p' => ∃ ds, Reads p ds p' ∧ (p'.findings = [] → AttachedBlocks ds) ∧
    (p' = p ∨ p.Begins ds)) ⟨[], .refl hp, fun _ => ⟨solidNodes_nil, by simp⟩, .inl rfl⟩ ?_
  rintro _ p₁ ⟨ds, h, hblocks, hbegins⟩
  refine .ask ?_
  split
  · rename_i hdirectly
    have hat := isAt_of_isDirectlyAt hdirectly
    refine .bind (contentBlock_returns hr h.ok hat (Nat.le_trans h.left_le hleft)) ?_
    rintro _ p₂ ⟨children, h₂, hbegins₂, -⟩
    have hblock := hbegins₂.node .contentBlock false
    refine .pure ⟨⟨_, h.trans h₂, fun hclean => ?_, .inr ?_⟩, h₂.left_lt h.ok hblock⟩
    · obtain ⟨hsolid, hall⟩ := hblocks (h₂.clean hclean)
      refine ⟨hsolid.append ?_, List.forall_mem_append.2 ⟨hall, ?_⟩⟩
      · exact solidNodes_of_begins h.ok (isAt_iff.1 hat) rfl hblock rfl
          (endsPlainly_contentBlock h₂.proper (h₂.tidy hclean).sound)
      · simpa [Draft.kind, Draft.isNode] using attached_of_isDirectlyAt h.ok hdirectly hblock
    · rcases hbegins with rfl | hbegins
      · exact .of_nil (h.leaves_eq_nil hp rfl) hblock
      · exact hbegins.append _
  · rename_i hat
    refine .pure ⟨ds, h, hblocks, fun hdirect => ?_⟩
    rcases hbegins with rfl | hbegins
    · exact absurd hdirect hat
    · exact hbegins

/-- The arguments of a call have their shape, and begin with the current token if it is attached to
what is called. -/
theorem args_returns (hr : rules.Adequate n) (hp : p.Ok) (hend : p.isAtEnd = false)
    (hstart : p.stream.mode = .code ∨ p.isAt .leftParen = true ∨
      p.isDirectlyAt .leftBracket = true) (hleft : p.left ≤ n) :
    Returns (args rules) p fun _ p' => ∃ children, Reads p [.node .args false children] p' ∧
      (p.isAt .leftParen = true ∨ p.isDirectlyAt .leftBracket = true → p.Begins children) := by
  refine start_returns hp fun node hnode => .ask ?_
  extract_lets next
  have hnext : ∀ p₁ ds₁, Spans p.started ds₁ p₁ →
      (p₁ = p.started ∧ ds₁ = [] ∧ p.isAt .leftParen = false ∨ p.Begins ds₁) →
      (p₁.findings = [] → (ds₁ = [] ∨ ∃ items, ItemKinds items ∧
        kinds ds₁ = .leftParen :: (items ++ [.rightParen])) ∧ SolidNodes ds₁) →
      Returns (next ()) p₁ fun _ p' => ∃ children, Reads p [.node .args false children] p' ∧
        (p.isAt .leftParen = true ∨ p.isDirectlyAt .leftBracket = true → p.Begins children) := by
    intro p₁ ds₁ h₁ hbegins hlist
    have hleft₁ : p₁.left ≤ n := Nat.le_trans h₁.left_le hleft
    refine .bind (trailingBlocks_returns hr h₁.ok hleft₁) ?_
    rintro _ p₂ ⟨ds₂, h₂, hblocks, hdirect⟩
    have henclosed := hnode.span (h₁.trans h₂.toSpans)
    have hbegins : p.isAt .leftParen = true ∨ p.isDirectlyAt .leftBracket = true →
        p.Begins (ds₁ ++ ds₂) := by
      intro hat
      rcases hbegins with ⟨rfl, rfl, hparen⟩ | hbegins
      · -- Without parentheses the first block is what the arguments begin with.
        refine .of_nil rfl (hdirect (hat.resolve_left ?_))
        simp [hparen]
      · exact hbegins.append _
    have hfront (hbound : p.Bound) : (front (ds₁ ++ ds₂) p₂.codeLook).Joins := by
      rcases hstart with hmode | hat
      · refine henclosed.joins_front hp ?_
        rw [codeLook_eq hmode]
        exact hbound.joins hp hend
      · exact (hbegins hat).joins hp hend _ hbound
    have hshape : p₂.findings = [] → Shape .args (ds₁ ++ ds₂) := by
      intro hclean
      obtain ⟨hlist, hsolid⟩ := hlist (h₂.clean hclean)
      obtain ⟨hsolid₂, hblocks⟩ := hblocks hclean
      exact ⟨⟨ds₁, ds₂, rfl, hlist, hblocks⟩, hsolid.append hsolid₂⟩
    exact (finishEnclosed_returns .args henclosed rfl hfront hshape).mono fun _ _ h₃ =>
      ⟨_, h₃, hbegins⟩
  split
  · rename_i hat
    refine .bind (items_returns hr hnode.ok hat hleft) ?_
    rintro _ p₁ ⟨ds₁, h₁, hbegins, hitems⟩
    exact hnext p₁ ds₁ h₁ (.inr hbegins) fun hclean =>
      ⟨.inr (hitems hclean).1, (hitems hclean).2⟩
  · rename_i hat
    exact hnext p.started [] (Reads.refl hnode.ok).toSpans
      (.inl ⟨rfl, rfl, Bool.eq_false_iff.2 hat⟩) fun _ => ⟨.inl rfl, solidNodes_nil⟩

/-- A list that is more than parenthesized is called a pattern. If it is cut short, the code ends
behind it. -/
theorem destructure_returns {list : Closed} {own : Kind} {children : List Draft} {p₁ : Parser}
    (hp : p.Ok) (hlist : ReadsList none own children p p₁) (hindex : list.index = p.events.size) :
    Returns (do unless (← list.kind) = .parenthesized do list.rename .destructuring) p₁
      fun _ p₂ => p₂.current = p₁.current ∧ ∃ name ∈ listKinds,
        Takes p [.node name false children] p₂ ∧
          Placed p p₂.codeLook [.node name false children] ∧
          (Reads p [.node name false children] p₂ ∨ p₂.current = .breakEnd) := by
  refine .bind (kind_returns hlist.takes rfl hindex) ?_
  rintro kind p₂ ⟨_, hsame⟩
  subst hsame
  split
  · exact .pure ⟨rfl, own, hlist.mem, hlist.takes, hlist.placed hp hlist.mem, .inl (hlist.reads hp)⟩
  · have hmem : Kind.destructuring ∈ listKinds := by decide
    refine (rename_returns .destructuring hlist.takes hindex rfl
      (linedAll_node (fun hnowhere => (nomatch hnowhere)) (hlist.lined hmem))).mono ?_
    rintro _ p₃ ⟨h₃, hre⟩
    have hplaced := hre.codeLook_eq ▸ hlist.placed hp hmem
    refine ⟨hre.current_eq, .destructuring, hmem, h₃, hplaced,
      or_iff_not_imp_right.2 fun hcurrent => h₃.reads (fun hclean => ?_) hplaced⟩
    rw [hre.current_eq] at hcurrent
    rw [hre.findings_eq] at hclean
    exact hlist.tidy hcurrent hclean (by decide)

/-- A pattern was read, or one was taken behind which the code ends too early. -/
def ReadsPattern (p p' : Parser) : Prop :=
  ∃ drafts, Takes p drafts p' ∧ Placed p p'.codeLook drafts ∧
    (Reads p drafts p' ∨ p'.current = .breakEnd)

theorem readsPattern_of_reads {drafts : List Draft} (h : Reads p drafts p') : ReadsPattern p p' :=
  ⟨drafts, h.toTakes, h.placed, .inl h⟩

theorem pattern_returns (hr : rules.Adequate n) (hp : p.Ok) (hleft : p.left ≤ n) :
    Returns (pattern rules) p fun _ p' => ReadsPattern p p' := by
  refine .ask (.ask ?_)
  split
  · rename_i hname
    have hcurrent : p.Consumes := by
      rcases Bool.or_eq_true_iff.1 hname with hat | hat
      · exact .of_isAt rfl hat
      · exact .of_isAt rfl hat
    exact (bump_returns hp hcurrent).mono fun _ _ h => readsPattern_of_reads h
  · refine .ask ?_
    split
    · rename_i hat
      refine .bind (collection_returns hr hp hat hleft (by simp)) ?_
      rintro closed p₁ ⟨own, children, hlist, hindex⟩
      refine (destructure_returns hp hlist hindex).mono ?_
      rintro _ p₂ ⟨_, name, _, h₂, hplaced, hends⟩
      exact ⟨_, h₂, hplaced, hends⟩
    · refine .bind (expect_returns hp rfl _) ?_
      rintro _ p₁ ⟨ds, h₁, _⟩
      exact .pure (readsPattern_of_reads h₁)

/-! ## Imported names -/

theorem path_returns (hp : p.Ok) : Returns path p fun _ p' => ∃ ds, Reads p ds p' := by
  refine .loop (fun _ p' => ∃ ds, Reads p ds p') ⟨[], .refl hp⟩ ?_
  rintro _ p₁ ⟨ds, h⟩
  refine .bind (eat_returns h.ok rfl) ?_
  rintro found p₂ ⟨_, h₂, _, htrue, _⟩
  split
  · rename_i hfound
    have hbegins := (htrue hfound).2
    refine .bind (expect_returns h₂.ok rfl _) ?_
    rintro _ p₃ ⟨_, h₃, _⟩
    exact .pure ⟨⟨_, h.trans (h₂.trans h₃)⟩, (h₂.trans h₃).left_lt h.ok (hbegins.append _)⟩
  · exact .pure ⟨_, h.trans h₂⟩

theorem importItem_returns (hp : p.Ok) (hcurrent : p.Consumes) :
    Returns importItem p fun _ p' => ∃ ds, Reads p ds p' ∧ p.Begins ds := by
  refine start_returns hp fun node hnode => ?_
  refine .bind (bump_returns hnode.ok hcurrent.started) fun _ p₁ h₁ => ?_
  have hbegins := begins_token p false
  refine .bind (path_returns h₁.ok) ?_
  rintro _ p₂ ⟨ds₂, h₂⟩
  refine .bind (eat_returns h₂.ok rfl) ?_
  rintro found p₃ ⟨ds₃, h₃, _⟩
  have hinside := ((hnode.read h₁).read h₂).read h₃
  split
  · refine .bind (expect_returns h₃.ok rfl _) ?_
    rintro _ p₄ ⟨ds₄, h₄, _⟩
    have hbegins := ((hbegins.append ds₂).append ds₃).append ds₄
    refine .bind (finish_returns .renamedImportItem (hinside.read h₄) rfl hbegins.ne_nil
      fun _ => trivial) ?_
    rintro _ p₅ ⟨h₅, _⟩
    exact .pure ⟨_, h₅, hbegins.node _ _⟩
  · refine (dissolve_returns hinside).mono ?_
    rintro _ p₄ ⟨_, ds, h₄, _, hleaves⟩
    refine ⟨ds, h₄, ?_⟩
    unfold Begins
    rw [hleaves]
    exact (hbegins.append _).append _

/-- Each round reads a name and a comma, skips what is no name, or ends the list. -/
theorem nextImportItem_returns {node : Opening} {progress : Progress} {p₁ : Parser}
    (h : Listing p node progress p₁) :
    Returns (nextImportItem progress) p₁
      (Returns.Round (Listing p node) (fun _ p' => ∃ ds, Inside p none ds node p') p₁) := by
  obtain ⟨⟨ds, h⟩, hbehind⟩ := h
  refine .ask ?_
  split
  · exact .pure ⟨ds, h⟩
  · rename_i hterminator
    have hterminator : p₁.isAtTerminator = false := Bool.eq_false_iff.2 hterminator
    refine advance_returns hbehind (.ask ?_)
    extract_lets again next
    have hnext : ∀ ended p₂ ds₂, Reads p₁ ds₂ p₂ →
        (ended = false → p₁.Begins ds₂ ∨ ds₂ = [] ∧ p₁.isAtAny itemResumes = true) →
        Returns (next ended) p₂
          (Returns.Round (Listing p node) (fun _ p' => ∃ ds, Inside p none ds node p') p₁) := by
      intro ended p₂ ds₂ h₂ hended
      unfold next
      split
      · exact .pure ⟨_, h.read h₂⟩
      · rename_i hgoes
        have hended := hended (Bool.eq_false_iff.2 hgoes)
        refine .ask ?_
        split
        · -- The list did not end before, so something was read.
          rename_i hterminator₂
          refine .pure (h.round h₂ (hended.resolve_right ?_))
          rintro ⟨rfl, hresumes⟩
          have hcurrent := current_of_resumes hterminator hresumes
          rw [← h₂.current_eq h.ok] at hcurrent
          simp [Parser.isAtTerminator, Parser.isAt, hcurrent, Kind.isTerminator] at hterminator₂
        · refine .bind (expect_returns h₂.ok rfl _) ?_
          rintro comma p₃ ⟨ds₃, h₃, hcomma, htrue, _⟩
          have hbegins := begins_comma h.ok hterminator h₂ hended hcomma htrue
          exact .pure (h.round (h₂.trans h₃) hbegins)
    split
    · rename_i hident
      refine .bind (importItem_returns h.ok (.of_isAt rfl hident)) ?_
      rintro _ p₂ ⟨ds₂, h₂, hbegins⟩
      exact .pure_bind (hnext false p₂ ds₂ h₂ fun _ => .inl hbegins)
    · refine .bind (skipToItem_returns h.ok) ?_
      rintro ended p₂ ⟨ds₂, h₂, _, hended⟩
      exact hnext ended p₂ ds₂ h₂ hended

/-- Imported names are a node even where there are none, so that it need not stand in the line. -/
theorem importItems_returns (hp : p.Ok) :
    Returns importItems p fun _ p' => ∃ ds, Spans p ds p' := by
  refine start_returns hp fun node hnode => ?_
  refine .bind (.loop (Listing p node) hnode.listing fun _ _ => nextImportItem_returns) ?_
  rintro _ p₁ ⟨_, h₁⟩
  refine .bind (finishSpans_returns .importItems h₁.encloses rfl fun _ => trivial) ?_
  rintro _ p₂ ⟨h₂, _⟩
  exact .pure ⟨_, h₂⟩

end TypstFormat.Grammar
