import CodeOutline.Parsing.Preference

namespace CodeOutline.Parsing

open Grammar

structure Lexer where
  /-- Finds a token that depends on what surrounds it. -/
  scan : TokenSet → Cursor → Option Token
  /-- Finds a token by its spelling. -/
  read : TokenSet → Cursor → Option Token
  /-- Passes over what may stand between tokens. -/
  skipGap : Cursor → Cursor
  /-- The tokens to look for when anything may come. -/
  familiar : TokenSet

namespace Lexer

variable (lexer : Lexer)

/-- Passes over characters up to the next token. What is passed over is one token, too. -/
def passUnknown (errorSymbol : Nat) : Nat → Option (Cursor × Cursor) → Cursor → Token
  | 0, _, cursor => ⟨errorSymbol, cursor, cursor, false⟩
  | limit + 1, passed, cursor =>
    match lexer.read lexer.familiar cursor, passed with
    | some token, none => token
    | some _, some (start, stop) => ⟨errorSymbol, start, stop, false⟩
    | none, _ =>
      let place := lexer.skipGap cursor
      let start := (passed.map Prod.fst).getD place
      passUnknown errorSymbol limit (some (start, place.skip 1)) (place.skip 1)

/-- The next token where the given ones may come. -/
def next (errorSymbol : Nat) (expected : TokenSet) (mayBeEmpty : Bool) (cursor : Cursor) : Token :=
  let scanned := (lexer.scan expected cursor).filter fun token =>
    mayBeEmpty || token.stop.isAfter cursor
  match scanned.or (lexer.read expected cursor) with
  | some token => token
  | none => lexer.passUnknown errorSymbol (cursor.rest.length + 2) none cursor

end Lexer

end CodeOutline.Parsing
