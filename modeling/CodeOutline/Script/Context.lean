import CodeOutline.Parsing.Lexer
import CodeOutline.Script.Language
import CodeOutline.Script.Semicolon

namespace CodeOutline.Script

open Grammar Parsing

/-- The number of a token. -/
def number (terminal : Terminal) : Nat :=
  table.tokens.idxOf terminal

def setOf (terminals : List Terminal) : TokenSet :=
  terminals.foldl (fun set terminal => set ||| 1 <<< number terminal) 0

/-- The token of a terminal between two cursors. -/
def tokenOf (terminal : Terminal) (start stop : Cursor) : Token :=
  ⟨number terminal, start, stop, false⟩

/-- The length of the text of a template up to a mark, an escape or a substitution. -/
def templateLength? : List Char → Option Nat
  | '\x60' :: _ => some 0
  | '\\' :: _ => some 0
  | '$' :: '\x7b' :: _ => some 0
  | c :: rest => if c = '\x00' then none else (templateLength? rest).map (· + 1)
  | [] => none

def isMarkupText (c : Char) : Bool :=
  c ≠ '<' && c ≠ '>' && c ≠ '\x7b' && c ≠ '\x7d' && c ≠ '&' && c ≠ '\x00'

/-- Whether text in markup counts. Blanks that follow a line break do not. -/
def countsAsText (atLine : Bool) : List Char → Bool
  | [] => false
  | c :: rest =>
    if c = '\n' then countsAsText true rest
    else !(atLine && isPlainSpace c) || countsAsText true rest

def scanTemplate (cursor : Cursor) : Option Token :=
  ((templateLength? cursor.rest).filter (0 < ·)).map fun length =>
    tokenOf .templateText cursor (cursor.skip length)

/-- A question mark that neither belongs to a longer mark nor begins an optional access. -/
def scanQuestion (cursor : Cursor) : Option Token :=
  let place := cursor.skip (countWhile isPlainSpace cursor.rest)
  match place.rest with
  | '?' :: '?' :: _ => none
  | '?' :: '.' :: c :: _ =>
    if c.isDigit then some (tokenOf .questionMark place (place.skip 1)) else none
  | ['?', '.'] => none
  | '?' :: _ => some (tokenOf .questionMark place (place.skip 1))
  | _ => none

/-- A comment in the way of markup, which reaches to the end of its line. It begins at the given
cursor if there is one, otherwise after the gap. -/
def scanMarkupComment (begin : Option Cursor) (cursor : Cursor) : Option Token :=
  let place := cursor.skip (countWhile (fun c => isPlainSpace c || isLineFeed c) cursor.rest)
  if "<!--".toList.isPrefixOf place.rest || "-->".toList.isPrefixOf place.rest then
    let length := countWhile (fun c => !isLineFeed c && c ≠ '\x00') place.rest
    some (tokenOf .markupComment (begin.getD place) (place.skip length))
  else none

/-- What the expected tokens say about the surroundings. -/
structure Surroundings where
  inTemplate : Bool
  inMarkup : Bool
  mayEnd : Bool
  mayAsk : Bool
  afterOperand : Bool
  inLiteral : Bool

def templateSet : TokenSet := setOf [.templateText]
def markupSet : TokenSet := setOf [.markupText]
def semicolonSet : TokenSet := setOf [.semicolon]
def questionSet : TokenSet := setOf [.questionMark]
def disjunctionSet : TokenSet := setOf [.literal "||"]
def literalSet : TokenSet := setOf [.escape, .regexPattern]

def Surroundings.ofExpected (expected : TokenSet) : Surroundings :=
  let has (set : TokenSet) : Bool := expected &&& set ≠ 0
  ⟨has templateSet, has markupSet, has semicolonSet, has questionSet, has disjunctionSet,
    has literalSet⟩

/-- Finds a token that the surroundings decide on. -/
def scan (expected : TokenSet) (cursor : Cursor) : Option Token :=
  let around := Surroundings.ofExpected expected
  if around.inTemplate then if around.mayEnd then none else scanTemplate cursor
  else
    let text := if around.inMarkup then cursor.rest.takeWhile isMarkupText else []
    let place := cursor.skip text.length
    if countsAsText false text then some (tokenOf .markupText cursor place)
    else if around.mayEnd then
      let search := findSemicolon (!around.afterOperand) false place.rest
      if search.isImplied then some (tokenOf .semicolon cursor cursor)
      else if around.mayAsk && !search.hasComment && search.rest.head? = some '?' then
        scanQuestion (place.skip (place.rest.length - search.rest.length))
      else none
    else if around.mayAsk then scanQuestion place
    else if around.afterOperand || around.inLiteral then none
    else scanMarkupComment (if text.isEmpty then none else some cursor) place

end CodeOutline.Script
