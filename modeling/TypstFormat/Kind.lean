/-!
# Kinds

`Kind` is the vocabulary of the trees: the kinds of tokens and the kinds of nodes. Every kind has a
`number`, which groups related kinds into ranges, and a `name`, under which messages and dumps show
it; `ofNumber?` and `ofName?` read them back.
-/

namespace TypstFormat

/-- The kinds of tokens and nodes. -/
inductive Kind where
  -- Control kinds: a node under construction, the end of the text, the end of code at a line
  -- break, and a character that is no token.
  | tombstone | eof | breakEnd | error
  -- White space and comments.
  | space | parbreak | lineComment | blockComment
  -- Tokens of markup and math.
  | text | escape | linebreak | shorthand | smartQuote | raw | link | label | refMarker
  | headingMarker | listMarker | enumMarker | termMarker | hash | mathText
  -- Delimiters.
  | leftBrace | rightBrace | leftBracket | rightBracket | leftParen | rightParen | dollar
  -- Punctuation and operators.
  | comma | semicolon | colon | dot | dots | star | underscore | plus | minus | slash | eq | eqEq
  | exclEq | lt | ltEq | gt | gtEq | plusEq | hyphEq | starEq | slashEq | arrow
  -- Keywords.
  | kwNone | kwAuto | kwBool | kwLet | kwSet | kwShow | kwContext | kwIf | kwElse | kwFor | kwIn
  | kwWhile | kwBreak | kwContinue | kwReturn | kwImport | kwInclude | kwAs | kwNot | kwAnd
  | kwOr
  -- Names and literals.
  | ident | int | float | numeric | str
  -- Nodes.
  | markup | strong | emph | heading | listItem | enumItem | termItem | ref | equation | math
  | code | codeBlock | contentBlock | parenthesized | array | dict | named | keyed | spread
  | unary | binary | fieldAccess | funcCall | args | closure | params | destructuring
  | letBinding | setRule | showRule | conditional | whileLoop | forLoop | moduleImport
  | importItems | renamedImportItem | moduleInclude | loopBreak | loopContinue | funcReturn
  | contextual | errorNode
  deriving DecidableEq, Repr, Inhabited

namespace Kind

/-- Every kind, in the order of their numbers. -/
def all : List Kind :=
  [.tombstone, .eof, .breakEnd, .error, .space, .parbreak, .lineComment, .blockComment, .text,
    .escape, .linebreak, .shorthand, .smartQuote, .raw, .link, .label, .refMarker,
    .headingMarker, .listMarker, .enumMarker, .termMarker, .hash, .mathText, .leftBrace,
    .rightBrace, .leftBracket, .rightBracket, .leftParen, .rightParen, .dollar, .comma,
    .semicolon, .colon, .dot, .dots, .star, .underscore, .plus, .minus, .slash, .eq, .eqEq,
    .exclEq, .lt, .ltEq, .gt, .gtEq, .plusEq, .hyphEq, .starEq, .slashEq, .arrow, .kwNone,
    .kwAuto, .kwBool, .kwLet, .kwSet, .kwShow, .kwContext, .kwIf, .kwElse, .kwFor, .kwIn,
    .kwWhile, .kwBreak, .kwContinue, .kwReturn, .kwImport, .kwInclude, .kwAs, .kwNot, .kwAnd,
    .kwOr, .ident, .int, .float, .numeric, .str, .markup, .strong, .emph, .heading, .listItem,
    .enumItem, .termItem, .ref, .equation, .math, .code, .codeBlock, .contentBlock,
    .parenthesized, .array, .dict, .named, .keyed, .spread, .unary, .binary, .fieldAccess,
    .funcCall, .args, .closure, .params, .destructuring, .letBinding, .setRule, .showRule,
    .conditional, .whileLoop, .forLoop, .moduleImport, .importItems, .renamedImportItem,
    .moduleInclude, .loopBreak, .loopContinue, .funcReturn, .contextual, .errorNode]

/-- The number of a kind. Related kinds have neighbouring numbers. -/
def number : Kind → Nat
  | .tombstone => 0
  | .eof => 1
  | .breakEnd => 2
  | .error => 3
  | .space => 10
  | .parbreak => 11
  | .lineComment => 12
  | .blockComment => 13
  | .text => 20
  | .escape => 21
  | .linebreak => 22
  | .shorthand => 23
  | .smartQuote => 24
  | .raw => 25
  | .link => 26
  | .label => 27
  | .refMarker => 28
  | .headingMarker => 29
  | .listMarker => 30
  | .enumMarker => 31
  | .termMarker => 32
  | .hash => 33
  | .mathText => 34
  | .leftBrace => 40
  | .rightBrace => 41
  | .leftBracket => 42
  | .rightBracket => 43
  | .leftParen => 44
  | .rightParen => 45
  | .dollar => 46
  | .comma => 50
  | .semicolon => 51
  | .colon => 52
  | .dot => 53
  | .dots => 54
  | .star => 55
  | .underscore => 56
  | .plus => 57
  | .minus => 58
  | .slash => 59
  | .eq => 60
  | .eqEq => 61
  | .exclEq => 62
  | .lt => 63
  | .ltEq => 64
  | .gt => 65
  | .gtEq => 66
  | .plusEq => 67
  | .hyphEq => 68
  | .starEq => 69
  | .slashEq => 70
  | .arrow => 71
  | .kwNone => 80
  | .kwAuto => 81
  | .kwBool => 82
  | .kwLet => 83
  | .kwSet => 84
  | .kwShow => 85
  | .kwContext => 86
  | .kwIf => 87
  | .kwElse => 88
  | .kwFor => 89
  | .kwIn => 90
  | .kwWhile => 91
  | .kwBreak => 92
  | .kwContinue => 93
  | .kwReturn => 94
  | .kwImport => 95
  | .kwInclude => 96
  | .kwAs => 97
  | .kwNot => 98
  | .kwAnd => 99
  | .kwOr => 100
  | .ident => 110
  | .int => 111
  | .float => 112
  | .numeric => 113
  | .str => 114
  | .markup => 1000
  | .strong => 1001
  | .emph => 1002
  | .heading => 1003
  | .listItem => 1004
  | .enumItem => 1005
  | .termItem => 1006
  | .ref => 1007
  | .equation => 1008
  | .math => 1009
  | .code => 1010
  | .codeBlock => 1011
  | .contentBlock => 1012
  | .parenthesized => 1013
  | .array => 1014
  | .dict => 1015
  | .named => 1016
  | .keyed => 1017
  | .spread => 1018
  | .unary => 1019
  | .binary => 1020
  | .fieldAccess => 1021
  | .funcCall => 1022
  | .args => 1023
  | .closure => 1024
  | .params => 1025
  | .destructuring => 1026
  | .letBinding => 1027
  | .setRule => 1028
  | .showRule => 1029
  | .conditional => 1030
  | .whileLoop => 1031
  | .forLoop => 1032
  | .moduleImport => 1033
  | .importItems => 1034
  | .renamedImportItem => 1035
  | .moduleInclude => 1036
  | .loopBreak => 1037
  | .loopContinue => 1038
  | .funcReturn => 1039
  | .contextual => 1040
  | .errorNode => 1041

/-- The name under which a kind is shown. -/
def name : Kind → String
  | .tombstone => "TOMBSTONE"
  | .eof => "EOF"
  | .breakEnd => "END"
  | .error => "ERROR"
  | .space => "SPACE"
  | .parbreak => "PARBREAK"
  | .lineComment => "LINE_COMMENT"
  | .blockComment => "BLOCK_COMMENT"
  | .text => "TEXT"
  | .escape => "ESCAPE"
  | .linebreak => "LINEBREAK"
  | .shorthand => "SHORTHAND"
  | .smartQuote => "SMART_QUOTE"
  | .raw => "RAW"
  | .link => "LINK"
  | .label => "LABEL"
  | .refMarker => "REF_MARKER"
  | .headingMarker => "HEADING_MARKER"
  | .listMarker => "LIST_MARKER"
  | .enumMarker => "ENUM_MARKER"
  | .termMarker => "TERM_MARKER"
  | .hash => "HASH"
  | .mathText => "MATH_TEXT"
  | .leftBrace => "LEFT_BRACE"
  | .rightBrace => "RIGHT_BRACE"
  | .leftBracket => "LEFT_BRACKET"
  | .rightBracket => "RIGHT_BRACKET"
  | .leftParen => "LEFT_PAREN"
  | .rightParen => "RIGHT_PAREN"
  | .dollar => "DOLLAR"
  | .comma => "COMMA"
  | .semicolon => "SEMICOLON"
  | .colon => "COLON"
  | .dot => "DOT"
  | .dots => "DOTS"
  | .star => "STAR"
  | .underscore => "UNDERSCORE"
  | .plus => "PLUS"
  | .minus => "MINUS"
  | .slash => "SLASH"
  | .eq => "EQ"
  | .eqEq => "EQ_EQ"
  | .exclEq => "EXCL_EQ"
  | .lt => "LT"
  | .ltEq => "LT_EQ"
  | .gt => "GT"
  | .gtEq => "GT_EQ"
  | .plusEq => "PLUS_EQ"
  | .hyphEq => "HYPH_EQ"
  | .starEq => "STAR_EQ"
  | .slashEq => "SLASH_EQ"
  | .arrow => "ARROW"
  | .kwNone => "NONE"
  | .kwAuto => "AUTO"
  | .kwBool => "BOOL"
  | .kwLet => "LET"
  | .kwSet => "SET"
  | .kwShow => "SHOW"
  | .kwContext => "CONTEXT"
  | .kwIf => "IF"
  | .kwElse => "ELSE"
  | .kwFor => "FOR"
  | .kwIn => "IN"
  | .kwWhile => "WHILE"
  | .kwBreak => "BREAK"
  | .kwContinue => "CONTINUE"
  | .kwReturn => "RETURN"
  | .kwImport => "IMPORT"
  | .kwInclude => "INCLUDE"
  | .kwAs => "AS"
  | .kwNot => "NOT"
  | .kwAnd => "AND"
  | .kwOr => "OR"
  | .ident => "IDENT"
  | .int => "INT"
  | .float => "FLOAT"
  | .numeric => "NUMERIC"
  | .str => "STR"
  | .markup => "MARKUP"
  | .strong => "STRONG"
  | .emph => "EMPH"
  | .heading => "HEADING"
  | .listItem => "LIST_ITEM"
  | .enumItem => "ENUM_ITEM"
  | .termItem => "TERM_ITEM"
  | .ref => "REF"
  | .equation => "EQUATION"
  | .math => "MATH"
  | .code => "CODE"
  | .codeBlock => "CODE_BLOCK"
  | .contentBlock => "CONTENT_BLOCK"
  | .parenthesized => "PARENTHESIZED"
  | .array => "ARRAY"
  | .dict => "DICT"
  | .named => "NAMED"
  | .keyed => "KEYED"
  | .spread => "SPREAD"
  | .unary => "UNARY"
  | .binary => "BINARY"
  | .fieldAccess => "FIELD_ACCESS"
  | .funcCall => "FUNC_CALL"
  | .args => "ARGS"
  | .closure => "CLOSURE"
  | .params => "PARAMS"
  | .destructuring => "DESTRUCTURING"
  | .letBinding => "LET_BINDING"
  | .setRule => "SET_RULE"
  | .showRule => "SHOW_RULE"
  | .conditional => "CONDITIONAL"
  | .whileLoop => "WHILE_LOOP"
  | .forLoop => "FOR_LOOP"
  | .moduleImport => "MODULE_IMPORT"
  | .importItems => "IMPORT_ITEMS"
  | .renamedImportItem => "RENAMED_IMPORT_ITEM"
  | .moduleInclude => "MODULE_INCLUDE"
  | .loopBreak => "LOOP_BREAK"
  | .loopContinue => "LOOP_CONTINUE"
  | .funcReturn => "FUNC_RETURN"
  | .contextual => "CONTEXTUAL"
  | .errorNode => "ERROR_NODE"

/-- The kind with a given name. -/
def ofName? (name : String) : Option Kind :=
  all.find? fun kind => kind.name == name

/-- The kind with a given number. -/
def ofNumber? (number : Nat) : Option Kind :=
  all.find? fun kind => kind.number == number

/-- White space and comments: outside of markup they stand between tokens without taking part in
the grammar. -/
def isTrivia : Kind → Bool
  | .space | .parbreak | .lineComment | .blockComment => true
  | _ => false

/-- The kinds that close a list of items. -/
def isTerminator : Kind → Bool
  | .breakEnd | .semicolon | .rightBrace | .rightParen | .rightBracket => true
  | _ => false

def isKeyword (kind : Kind) : Bool :=
  80 ≤ kind.number && kind.number ≤ 100

def isToken (kind : Kind) : Bool :=
  kind ≠ .tombstone && kind.number < 1000

def isNode (kind : Kind) : Bool :=
  1000 ≤ kind.number

/-- The keywords of code, and the kinds they are tokens of. -/
def keywords : List (List Char × Kind) :=
  [(['n', 'o', 'n', 'e'], .kwNone), (['a', 'u', 't', 'o'], .kwAuto),
    (['t', 'r', 'u', 'e'], .kwBool), (['f', 'a', 'l', 's', 'e'], .kwBool),
    (['l', 'e', 't'], .kwLet), (['s', 'e', 't'], .kwSet), (['s', 'h', 'o', 'w'], .kwShow),
    (['c', 'o', 'n', 't', 'e', 'x', 't'], .kwContext), (['i', 'f'], .kwIf),
    (['e', 'l', 's', 'e'], .kwElse), (['f', 'o', 'r'], .kwFor), (['i', 'n'], .kwIn),
    (['w', 'h', 'i', 'l', 'e'], .kwWhile), (['b', 'r', 'e', 'a', 'k'], .kwBreak),
    (['c', 'o', 'n', 't', 'i', 'n', 'u', 'e'], .kwContinue),
    (['r', 'e', 't', 'u', 'r', 'n'], .kwReturn), (['i', 'm', 'p', 'o', 'r', 't'], .kwImport),
    (['i', 'n', 'c', 'l', 'u', 'd', 'e'], .kwInclude), (['a', 's'], .kwAs),
    (['n', 'o', 't'], .kwNot), (['a', 'n', 'd'], .kwAnd), (['o', 'r'], .kwOr)]

/-- The kind of a keyword, if the word is one. -/
def ofKeyword? (word : List Char) : Option Kind :=
  (keywords.find? fun entry => entry.1 == word).map (·.2)

theorem mem_all (kind : Kind) : kind ∈ all := by
  cases kind <;> decide

/-- Reading a number back gives the kind it belongs to, so no two kinds share one. -/
theorem ofNumber?_number (kind : Kind) : ofNumber? kind.number = some kind := by
  cases kind <;> decide

end Kind

end TypstFormat
