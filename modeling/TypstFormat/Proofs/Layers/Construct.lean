import TypstFormat.Proofs.Layers.Rules

/-!
# Constructs leave what they enter

A construct is what the grammar reads with one of its rules: markup, math, code, an expression,
arguments, a block, an equation or embedded code. Wherever the parser stands when the rule is
called, whatever modes and rules for line breaks are in force and whatever events were written, if
the rule returns then all of that is in force again and still written, and what was written since
needs nothing around it. Errors in the text, lists that are skipped to their end and parentheses
that are read again as parameters make no difference.

## Key results

- `Construct.read_restored`: every construct leaves the parser as it found it, with more events
-/

namespace TypstFormat

open TypstFormat.Parser

/-- What is read with one rule of the grammar. -/
inductive Construct where
  | markup (atLineStart : Bool) (extent : Extent) (stops : List Kind)
  | math (stops : List Kind)
  | code (stops : List Kind)
  | expression (atomic : Bool) (precedence : Nat)
  | args
  | contentBlock
  | codeBlock
  | equation
  | embeddedCode
  deriving DecidableEq, Repr

namespace Construct

/-- Reads a construct, from its first token on. -/
def read (rules : Rules) : Construct → Parse Unit
  | markup atLineStart extent stops => do
    let _ ← Grammar.markup rules atLineStart extent stops
  | math stops => do
    let _ ← Grammar.math rules stops
  | code stops => do
    let _ ← Grammar.code rules stops
  | expression atomic precedence => Grammar.expression rules atomic precedence
  | args => do
    let _ ← Grammar.args rules
  | contentBlock => do
    let _ ← Grammar.contentBlock rules
  | codeBlock => do
    let _ ← Grammar.codeBlock rules
  | equation => do
    let _ ← Grammar.equation rules
  | embeddedCode => Grammar.embeddedCode rules

end Construct

/-- The mode, the modes to come back to and the rules for line breaks are what they were, and behind
the events that were there stand some that need nothing around them. -/
structure Parser.Restored (p q : Parser) : Prop extends Agrees p q where
  events : ∃ written : List Event,
    q.events.toList = p.events.toList ++ written ∧ Event.SelfContained written

theorem Restores.restored {x : Parse α} {a : α} {p q : Parser} (h : Restores x)
    (hrun : x p = .ok (a, q)) : p.Restored q := by
  obtain ⟨drafts, hwrites⟩ := h.writes hrun
  exact ⟨hwrites.toAgrees, Draft.eventsAll drafts, hwrites.events_eq,
    Draft.selfContained_eventsAll hwrites.linked⟩

namespace Construct

theorem restores_read {rules : Rules} (hr : rules.Restore) (construct : Construct) :
    Restores (construct.read rules) := by
  cases construct with
  | markup atLineStart extent stops =>
    exact (Grammar.restores_markup hr atLineStart extent stops).returning ()
  | math stops => exact (Grammar.restores_math hr stops).returning ()
  | code stops => exact (Grammar.restores_code hr stops).returning ()
  | expression atomic precedence => exact Grammar.restores_expression hr atomic precedence
  | args => exact (Grammar.restores_args hr).returning ()
  | contentBlock => exact (Grammar.restores_contentBlock hr).returning ()
  | codeBlock => exact (Grammar.restores_codeBlock hr).returning ()
  | equation => exact (Grammar.restores_equation hr).returning ()
  | embeddedCode => exact Grammar.restores_embeddedCode hr

/-- Whatever the text and the state of the parser, a construct that was read has left all that it
entered, and wrote events behind the others that need nothing around them. -/
theorem read_restored (construct : Construct) (depth : Nat) {p q : Parser}
    (h : construct.read (Grammar.rules depth) p = .ok ((), q)) : p.Restored q :=
  (restores_read (Grammar.rules_restore depth) construct).restored h

/-- The parentheses are read twice, first as an array and then as parameters, and nothing that is
opened in the body is closed before the text ends. The events in front are those of a node that is
still open. -/
theorem read_restored_closure :
    let p : Parser :=
      { Parser.ofSource "(a) => [*b #f(c".toList .code with
        events := #[.tombstone, .token .hash 0]
        modes := [.markup]
        breakRules := [(.ends, 0)] }
    ∃ q, (expression false 0).read (Grammar.rules 8) p = .ok ((), q) ∧ q.diagnostics.length = 3 ∧
      p.Restored q := by
  intro p
  have hreported : ((expression false 0).read (Grammar.rules 8) p).toOption.map
      (fun result => result.2.diagnostics.length) = some 3 := by
    decide +kernel
  cases hrun : (expression false 0).read (Grammar.rules 8) p with
  | error =>
    rw [hrun] at hreported
    cases hreported
  | ok result =>
    rw [hrun] at hreported
    exact ⟨result.2, rfl, Option.some.inj hreported, read_restored _ _ hrun⟩

end Construct

end TypstFormat
