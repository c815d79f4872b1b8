import TypstFormat.Grammar.Expression
import TypstFormat.Grammar.Markup
import TypstFormat.Tree.Assembly

/-!
# Parsing a source

`Grammar.rules` ties the recursive rules together. Each rule that calls another one has consumed a
character before, so rules that may be nested as deeply as the text is long are enough.

`parse` makes a tree of a source, together with the diagnostics of the scanner and of the grammar.
-/

namespace TypstFormat

namespace Grammar

/-- The rules of the grammar, for at most `depth` of them inside each other. -/
def rules : Nat → Rules
  | 0 =>
    { expression := fun _ _ => throw .tooDeep
      markup := fun _ _ _ => throw .tooDeep
      conditional := throw .tooDeep }
  | depth + 1 =>
    { expression := fun atomic precedence => expression (rules depth) atomic precedence
      markup := fun atLineStart extent stops => markup (rules depth) atLineStart extent stops
      conditional := fun p => conditional (rules depth) p }

/-- The rules that are enough for a source. -/
def rulesFor (source : List Char) : Rules :=
  rules (source.length + 2)

/-- A source that is written in one language as a whole. -/
def document (rules : Rules) : Mode → Parse Closed
  | .markup => markup rules true .unbounded []
  | .code => code rules []
  | .math => math rules []

end Grammar

/-- A source, its tree and what is wrong with it. -/
structure Parsed where
  source : List Char
  mode : Mode
  tree : Tree
  diagnostics : List Diagnostic
  deriving Repr

namespace Parsed

def hasErrors (parsed : Parsed) : Bool :=
  Diagnostic.hasErrors parsed.diagnostics

end Parsed

/-- Why a source has no tree. -/
inductive SourceError where
  | grammar (error : ParseError)
  | tree (error : TreeError)
  deriving DecidableEq, Repr

namespace SourceError

def message? : SourceError → Option String
  | grammar error => error.message?
  | tree error => error.message?

end SourceError

namespace Parser

/-- The diagnostics of the scanner and of the grammar together, as they are shown. -/
def allDiagnostics (p : Parser) : List Diagnostic :=
  Diagnostic.collect [p.stream.scanner.diagnostics, p.diagnostics]

/-- The tree of what was read, and the events that are left. -/
def finish (p : Parser) : Except TreeError (Tree × Array Event) :=
  buildTree p.source p.stream.trivia p.events

end Parser

/-- The tree of a source that is written in one language, and its diagnostics. -/
def parse (source : List Char) (mode : Mode := .markup) : Except SourceError Parsed := do
  let run := Grammar.document (Grammar.rulesFor source) mode
  let (_, p) ← (run.run (Parser.ofSource source mode)).mapError .grammar
  let (tree, _) ← p.finish.mapError .tree
  return { source, mode, tree, diagnostics := p.allDiagnostics }

end TypstFormat
