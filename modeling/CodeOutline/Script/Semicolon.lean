import CodeOutline.Script.Spelling

namespace CodeOutline.Script

/-- ASCII white space. -/
def isPlainSpace (c : Char) : Bool :=
  c = ' ' || (9 ≤ c.toNat && c.toNat ≤ 13)

def isLineFeed (c : Char) : Bool :=
  c = '\n' || c = '\u2028' || c = '\u2029'

/-- Whether nothing is left of a text. A null character ends it. -/
def isAtEnd (text : List Char) : Bool :=
  text.head?.all (· = '\x00')

/-- What is found when white space and comments are passed over. -/
inductive GapResult where
  /-- A slash that begins no comment. -/
  | blocked
  /-- Only a comment without a line break, after which something else follows. -/
  | sameLine
  | passed
  deriving DecidableEq, Repr

structure Gap where
  result : GapResult
  /-- What follows. -/
  rest : List Char
  hasComment : Bool

theorem dropWhile_length_le (p : Char → Bool) (text : List Char) :
    (text.dropWhile p).length ≤ text.length :=
  (List.dropWhile_sublist p).length_le

/-- Passes over white space and comments. Unless `all`, it stops after a block comment. -/
def passGap (all hasComment brokeLine : Bool) (text : List Char) : Gap :=
  match _h : text.dropWhile isPlainSpace with
  | '/' :: '/' :: rest =>
    have := dropWhile_length_le isPlainSpace text
    have := dropWhile_length_le (fun c => !isLineFeed c && c ≠ '\x00') rest
    passGap all true brokeLine (rest.dropWhile fun c => !isLineFeed c && c ≠ '\x00')
  | '/' :: '*' :: rest =>
    have := dropWhile_length_le isPlainSpace text
    match (blockCommentLength? rest).filter fun length => !(rest.take length).contains '\x00' with
    | none =>
      have := dropWhile_length_le (· ≠ '\x00') rest
      passGap all hasComment brokeLine (rest.dropWhile (· ≠ '\x00'))
    | some length =>
      let brokeLine := brokeLine || (rest.take length).any isLineFeed
      if all || (rest.drop length).head? = some '/' then
        passGap all true brokeLine (rest.drop length)
      else ⟨if brokeLine then .passed else .sameLine, rest.drop length, true⟩
  | '/' :: rest => ⟨.blocked, rest, hasComment⟩
  | rest => ⟨.passed, rest, hasComment⟩
termination_by text.length
decreasing_by all_goals simp_all; omega

/-- What is known of a place where a semicolon may be understood: whether one is, whether a comment
has been passed, and where the decision fell. -/
structure SemicolonSearch where
  isImplied : Bool
  hasComment : Bool
  rest : List Char

/-- Whether a statement may end at a line break before this text. -/
def decideAtLine (hasComment : Bool) (text : List Char) : SemicolonSearch :=
  let decided (isImplied : Bool) (rest : List Char) : SemicolonSearch :=
    ⟨isImplied, hasComment, rest⟩
  match text with
  | '.' :: rest => decided (rest.head?.any Char.isDigit) rest
  | '+' :: rest => decided (rest.head? = some '+') rest
  | '-' :: rest => decided (rest.head? = some '-') rest
  | '!' :: rest => decided (rest.head? ≠ some '=') rest
  | 'i' :: 'n' :: rest =>
    if !rest.head?.any Char.isAlpha then decided false rest
    else
      match Text.strip? "stanceof".toList rest with
      | some after => decided (after.head?.any Char.isAlpha) after
      | none => decided true rest
  | c :: _ => decided (!"\x60,:;*%><=[(?^|&/".contains c) text
  | [] => decided true []

theorem passGap_rest_length_le (all hasComment brokeLine : Bool) (text : List Char) :
    (passGap all hasComment brokeLine text).rest.length ≤ text.length := by
  fun_induction passGap <;> grind [dropWhile_length_le]

/-- Looks for a semicolon at the start of the text. `commentEnds` tells whether a comment that
reaches to the next line ends the statement by itself. -/
def findSemicolon (commentEnds hasComment : Bool) (text : List Char) : SemicolonSearch :=
  let gap : Gap :=
    if text.head? = some '/' then passGap false hasComment false text
    else ⟨.sameLine, text, hasComment⟩
  have : gap.rest.length ≤ text.length := by
    simp only [gap]
    split <;> simp [passGap_rest_length_le]
  let isOther := gap.rest.head? ≠ some ',' && gap.rest.head? ≠ some '='
  if isAtEnd text then ⟨true, hasComment, text⟩
  else if gap.result = .blocked then ⟨false, gap.hasComment, gap.rest⟩
  else if gap.result = .passed && commentEnds && isOther then ⟨true, gap.hasComment, gap.rest⟩
  else
    match h : gap.rest with
    | [] => ⟨false, gap.hasComment, []⟩
    | c :: rest =>
      if c = '\x7d' then ⟨true, gap.hasComment, c :: rest⟩
      else if isLineFeed c then
        let next := passGap true gap.hasComment false rest
        if next.result = .blocked then ⟨false, next.hasComment, next.rest⟩
        else decideAtLine next.hasComment next.rest
      else if isPlainSpace c then findSemicolon commentEnds gap.hasComment rest
      else ⟨false, gap.hasComment, c :: rest⟩
termination_by text.length
decreasing_by
  rw [h, List.length_cons] at this
  exact this

end CodeOutline.Script
