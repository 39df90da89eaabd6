import CodeOutline.Proofs.Delimiter.Plain
import CodeOutline.Shape.Declarator

namespace CodeOutline.Program

open Delimiter (joined)

/-- A white space character between tokens. -/
inductive Gap where
  | space
  | newline
  deriving DecidableEq, Repr

def Gap.char : Gap → Char
  | .space => ' '
  | .newline => '\n'

abbrev Gaps := List Gap

def Gaps.print (gaps : Gaps) : List Char :=
  gaps.map Gap.char

/-- An ASCII letter or underscore, then letters, digits and underscores; no keyword. -/
def isIdentifier (chars : List Char) : Bool :=
  chars.head?.any CharClass.isWordStart && chars.all CharClass.isNameChar &&
    !Keyword.isKeyword (String.ofList chars)

structure Identifier where
  chars : List Char
  valid : isIdentifier chars = true

def Identifier.text (identifier : Identifier) : String :=
  String.ofList identifier.chars

/-- Whether a literal or a preprocessor line could begin at the character. -/
def isQuote (c : Char) : Bool :=
  ['"', '\'', '\x60', '#'].contains c

/-- Whether a comment could begin at one of the characters. -/
def hasMarker : List Char → Bool
  | [] => false
  | c :: rest => (c = '/' && rest.head?.any (fun d => d = '/' || d = '*')) || hasMarker rest

/-- Tokens with white space between them; the first and the last character are not blank. -/
def isExpression (chars : List Char) : Bool :=
  chars.head?.any (!CharClass.isAsciiSpace ·) && chars.getLast?.any (!CharClass.isAsciiSpace ·) &&
    chars.all (fun c => !isQuote c && !Delimiter.isMark c) && !hasMarker chars

structure Expression where
  chars : List Char
  valid : isExpression chars = true

def Expression.text (expression : Expression) : String :=
  String.ofList expression.chars

def ifWord : List Char := ['i', 'f']

def elseWord : List Char := ['e', 'l', 's', 'e']

def forWord : List Char := ['f', 'o', 'r']

def whileWord : List Char := ['w', 'h', 'i', 'l', 'e']

def returnWord : List Char := ['r', 'e', 't', 'u', 'r', 'n']

/-- An expression with the white space around it. -/
structure Phrase where
  before : Gaps
  expression : Expression
  after : Gaps

def Phrase.print (phrase : Phrase) : List Char :=
  phrase.before.print ++ (phrase.expression.chars ++ phrase.after.print)

/-- What may stand after a word of a type. -/
inductive Mark where
  | blank (gap : Gap)
  | star
  deriving DecidableEq, Repr

def Mark.char : Mark → Char
  | .blank gap => gap.char
  | .star => '*'

def Mark.isStar (mark : Mark) : Bool :=
  mark = .star

/-- The gaps and stars between a word of a type and the next word. -/
structure Joint where
  first : Mark
  others : List Mark

def Joint.print (joint : Joint) : List Char :=
  (joint.first :: joint.others).map Mark.char

/-- The marks up to the last star. -/
def Joint.kept (joint : Joint) : List Char :=
  ((joint.first :: joint.others).reverse.dropWhile (!·.isStar)).reverse.map Mark.char

/-- The words of a type, and what stands between the last one and the declared name. -/
structure TypeName where
  head : Identifier
  more : List (Joint × Identifier)
  last : Joint

namespace TypeName

def tail (more : List (Joint × Identifier)) : List Char :=
  more.flatMap fun (joint, word) => joint.print ++ word.chars

def print (type : TypeName) : List Char :=
  type.head.chars ++ (tail type.more ++ type.last.print)

/-- The type as it is reported: the words and stars. -/
def text (type : TypeName) : String :=
  String.ofList (type.head.chars ++ (tail type.more ++ type.last.kept))

end TypeName

/-- A declared variable, up to its semicolon. -/
structure Variable where
  type : TypeName
  name : Identifier
  gaps : Gaps
  initializer : Option Phrase

def printInitializer : Option Phrase → List Char
  | none => []
  | some value => '=' :: value.print

def Variable.print (declared : Variable) : List Char :=
  declared.type.print ++
    (declared.name.chars ++ (declared.gaps.print ++ printInitializer declared.initializer))

structure Call where
  name : Identifier
  gaps : Gaps
  inside : Gaps
  arguments : List Phrase

def Call.inner (call : Call) : List Char :=
  call.inside.print ++ joined ',' (call.arguments.map Phrase.print)

def Call.print (call : Call) : List Char :=
  call.name.chars ++ (call.gaps.print ++ '(' :: (call.inner ++ [')']))

/-- What a `return` gives back. -/
inductive Result where
  | empty (gaps : Gaps)
  | value (gap : Gap) (phrase : Phrase)
  | call (gap : Gap) (before : Gaps) (called : Call) (after : Gaps)

def Result.print : Result → List Char
  | .empty gaps => gaps.print
  | .value gap phrase => gap.char :: phrase.print
  | .call gap before called after => gap.char :: (before.print ++ (called.print ++ after.print))

/-- A condition in parentheses, with the white space around them. -/
structure Guard where
  before : Gaps
  condition : Phrase
  after : Gaps

def Guard.print (guard : Guard) : List Char :=
  guard.before.print ++ '(' :: (guard.condition.print ++ ')' :: guard.after.print)

/-- The second or third clause of a `for` heading. -/
inductive Clause where
  | blank (gaps : Gaps)
  | value (phrase : Phrase)

def Clause.print : Clause → List Char
  | .blank gaps => gaps.print
  | .value phrase => phrase.print

/-- The first clause of a `for` heading. -/
inductive Init where
  | blank (gaps : Gaps)
  | declaration (before : Gaps) (declared : Variable)
  | assignment (before : Gaps) (target : Identifier) (gaps : Gaps) (phrase : Phrase)
  | value (phrase : Phrase)

def Init.print : Init → List Char
  | .blank gaps => gaps.print
  | .declaration before declared => before.print ++ declared.print
  | .assignment before target gaps phrase =>
    before.print ++ (target.chars ++ (gaps.print ++ '=' :: phrase.print))
  | .value phrase => phrase.print

/-- The heading of a `for` loop, with the white space around its parentheses. -/
structure Header where
  before : Gaps
  init : Init
  test : Clause
  update : Clause
  after : Gaps

def Header.inner (header : Header) : List Char :=
  joined ';' [header.init.print, header.test.print, header.update.print]

def Header.print (header : Header) : List Char :=
  header.before.print ++ '(' :: (header.inner ++ ')' :: header.after.print)

mutual

inductive Statement where
  | declaration (declared : Variable)
  | call (called : Call) (gaps : Gaps)
  | result (given : Result)
  | conditional (guard : Guard) (body : Block) (alternative : Alternative)
  | forLoop (header : Header) (body : Block)
  | whileLoop (guard : Guard) (body : Block)

/-- What follows the body of a conditional: nothing, an `else if` or an `else`. -/
inductive Alternative where
  | none
  | chain (before : Gaps) (gap : Gap) (between : Gaps) (guard : Guard) (body : Block)
      (alternative : Alternative)
  | block (before between : Gaps) (body : Block)

/-- What stands between two braces. -/
inductive Block where
  | done (gaps : Gaps)
  | cons (gaps : Gaps) (statement : Statement) (rest : Block)

end

mutual

def Statement.print : Statement → List Char
  | .declaration declared => declared.print ++ [';']
  | .call called gaps => called.print ++ (gaps.print ++ [';'])
  | .result given => returnWord ++ (given.print ++ [';'])
  | .conditional guard body alternative =>
    ifWord ++ (guard.print ++ '{' :: (body.print ++ '}' :: alternative.print))
  | .forLoop header body => forWord ++ (header.print ++ '{' :: (body.print ++ ['}']))
  | .whileLoop guard body =>
    whileWord ++ (guard.print ++ '{' :: (body.print ++ ['}']))

def Alternative.print : Alternative → List Char
  | .none => []
  | .chain before gap between guard body alternative =>
    before.print ++ (elseWord ++ (gap.char :: (between.print ++ (ifWord ++
      (guard.print ++ '{' :: (body.print ++ '}' :: alternative.print))))))
  | .block before between body =>
    before.print ++ (elseWord ++ (between.print ++ '{' :: (body.print ++ ['}'])))

def Block.print : Block → List Char
  | .done gaps => gaps.print
  | .cons gaps statement rest => gaps.print ++ (statement.print ++ rest.print)

end

/-- A named parameter of a function. -/
structure Formal where
  before : Gaps
  type : TypeName
  name : Identifier
  after : Gaps

def Formal.print (formal : Formal) : List Char :=
  formal.before.print ++ (formal.type.print ++ (formal.name.chars ++ formal.after.print))

structure Function where
  type : TypeName
  name : Identifier
  gaps : Gaps
  inside : Gaps
  formals : List Formal
  after : Gaps
  body : Block

def Function.list (function : Function) : List Char :=
  function.inside.print ++ joined ',' (function.formals.map Formal.print)

def Function.print (function : Function) : List Char :=
  function.type.print ++ (function.name.chars ++ (function.gaps.print ++
    '(' :: (function.list ++ ')' :: (function.after.print ++ '{' :: (function.body.print ++ ['}'])))))

inductive Member where
  | declaration (declared : Variable)
  | function (defined : Function)

def Member.print : Member → List Char
  | .declaration declared => declared.print ++ [';']
  | .function defined => defined.print

end CodeOutline.Program

namespace CodeOutline

/-- Global declarations and functions, each with the white space before it, and what follows the
last one. -/
structure Program where
  members : List (Program.Gaps × Program.Member)
  gaps : Program.Gaps

namespace Program

def printMembers (members : List (Gaps × Member)) : List Char :=
  members.flatMap fun (gaps, member) => gaps.print ++ member.print

def text (program : Program) : String :=
  String.ofList (printMembers program.members ++ program.gaps.print)

end Program

end CodeOutline
