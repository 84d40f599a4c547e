import Mathlib.Data.Nat.Basic

/-!
# The scanner

`ScanPopToken` looks at the next byte of a stream and takes bytes until a token is
complete.  Inside a macro, a comment or a literal it does not look for the end of the
stream, so it does not come back from there; this is `none` here.
-/

namespace Tegenaria.QCBuild

/-- The bytes of a stream that have not been popped. -/
abbrev Stream := List UInt8

/-- `TOKEN_XXX`, as far as they are returned; `directive` is `TOKEN_MACRO`. -/
inductive TokenId where
  | eof
  | number
  | ident
  | directive
  | eol
  | blockBegin
  | blockEnd
  | parentBegin
  | parentEnd
  | operator
  | comment
  | white
  | delim
  | semicolon
  | string
  | char
  | indexBegin
  | indexEnd
  deriving DecidableEq

/-- A token and its text. -/
abbrev Token := TokenId × Stream

/-! ## Characters -/

def lineFeed : UInt8 := 10

def carriageReturn : UInt8 := 13

def backslash : UInt8 := 92

def slash : UInt8 := 47

def star : UInt8 := 42

def blank : UInt8 := 32

def isLineEnd (c : UInt8) : Bool := c == lineFeed || c == carriageReturn

/-- White space and control characters that do not end a line. -/
def isBlank (c : UInt8) : Bool := 0 < c && c ≤ 32 && !isLineEnd c

def isDigitByte (c : UInt8) : Bool := 48 ≤ c && c ≤ 57

def isLetterByte (c : UInt8) : Bool := 97 ≤ c && c ≤ 122 || 65 ≤ c && c ≤ 90 || c == 95

/-- Letters, digits, `_`, `:` and `~`. -/
def isIdentByte (c : UInt8) : Bool := isLetterByte c || isDigitByte c || c == 58 || c == 126

def isNumberByte (c : UInt8) : Bool := isDigitByte c || c == 46

/-- The cases of the switch on the next byte. -/
inductive CharCase where
  | zero
  | white
  | lineEnd
  | comma
  | letter
  | digit
  | hash
  | single (id : TokenId)
  | operator
  | quote (id : TokenId)
  | other
  deriving DecidableEq

def charCase (c : UInt8) : CharCase :=
  if c == 0 then .zero
  else if isBlank c then .white
  else if isLineEnd c then .lineEnd
  else if c == 44 then .comma
  else if isLetterByte c then .letter
  else if isDigitByte c then .digit
  else if c == 35 then .hash
  else if c == 123 then .single .blockBegin
  else if c == 125 then .single .blockEnd
  else if c == 40 then .single .parentBegin
  else if c == 41 then .single .parentEnd
  else if [43, 45, slash, 61, star, 38, 124, 37, 60, 62].contains c then .operator
  else if c == 59 then .single .semicolon
  else if c == 34 then .quote .string
  else if c == 39 then .quote .char
  else if c == 91 then .single .indexBegin
  else if c == 93 then .single .indexEnd
  else .other

/-! ## Loops -/

/-- `while(test) token += ScanPop()` -/
def popWhile (test : UInt8 → Bool) (token : Stream) : Stream → Stream × Stream
  | [] => (token, [])
  | c :: rest => if test c then popWhile test (token ++ [c]) rest else (token, c :: rest)

/-- `while(test) ScanEat()` -/
def eatWhile (test : UInt8 → Bool) : Stream → Stream
  | [] => []
  | c :: rest => if test c then eatWhile test rest else c :: rest

/-- The loop inside a macro: a byte is popped, then the next one is peeked. -/
def directiveLoop (joined : Bool) (token : Stream) : Stream → Option (Stream × Stream)
  | [] => none
  | c :: rest =>
      match rest with
      | [] => none
      | next :: _ =>
          if isLineEnd next then
            if joined then directiveLoop false (token ++ [c]) rest else some (token ++ [c], rest)
          else if next == backslash then directiveLoop true (token ++ [c]) rest
          else directiveLoop joined (token ++ [c]) rest

/-- The loop inside a comment of one line. -/
def lineCommentLoop (token : Stream) : Stream → Option (Stream × Stream)
  | [] => none
  | c :: rest => if isLineEnd c then some (token, c :: rest) else lineCommentLoop (token ++ [c]) rest

/-- The line end that is eaten behind a comment of one line. -/
def eatLineEnd : Stream → Stream
  | [] => []
  | c :: rest =>
      if c == carriageReturn then
        match rest with
        | [] => []
        | next :: later => if next == lineFeed then later else next :: later
      else if c == lineFeed then rest
      else c :: rest

/-- The loop inside a comment of several lines. -/
def longCommentLoop (token : Stream) : Stream → Option (Stream × Stream)
  | [] => none
  | c :: rest =>
      let token := token ++ [c]
      if token.length > 2 ∧ token.drop (token.length - 2) = [star, slash] then some (token, rest)
      else longCommentLoop token rest

/-- The loop inside a string or a character, with the quotation mark at its end. -/
@[grind =] def literalLoop (mark : UInt8) (token : Stream) : Stream → Option (Stream × Stream)
  | [] => none
  | c :: rest =>
      if c == mark then some (token ++ [c], rest)
      else if c == backslash then
        match rest with
        | [] => none
        | next :: later => literalLoop mark (token ++ [c, next]) later
      else literalLoop mark (token ++ [c]) rest

/-! ## Tokens -/

/-- The case of an operator or a comment. -/
def scanOperator (c : UInt8) (rest : Stream) : Option (TokenId × Stream × Stream) :=
  if c == slash && rest.head? == some slash then
    (lineCommentLoop [c] rest).map fun parts => (.comment, parts.1, eatLineEnd parts.2)
  else if c == slash && rest.head? == some star then
    (longCommentLoop [c] rest).map fun parts => (.comment, parts.1, eatWhile isLineEnd parts.2)
  else some (.operator, [c], rest)

/-- `ScanPopToken`: the token, its text and the stream behind it. -/
@[grind =] def scanPopToken : Stream → Option (TokenId × Stream × Stream)
  | [] => some (.eof, [], [])
  | c :: rest =>
      match charCase c with
      | .zero => some (.eof, [], c :: rest)
      | .white => some (.white, [blank], eatWhile isBlank (c :: rest))
      | .lineEnd =>
          -- The byte that is compared with a line feed is still the one that was peeked.
          let stream := if c == carriageReturn && c == lineFeed then rest else c :: rest
          some (.eol, [blank], stream.tail)
      | .comma =>
          -- There is no `break` behind the token of the comma.
          let parts := popWhile isIdentByte [c] rest
          some (.ident, parts.1, parts.2)
      | .letter =>
          let parts := popWhile isIdentByte [] (c :: rest)
          some (.ident, parts.1, parts.2)
      | .digit =>
          let parts := popWhile isNumberByte [] (c :: rest)
          some (.number, parts.1, parts.2)
      | .hash => (directiveLoop false [] (c :: rest)).map fun parts => (.directive, parts.1, parts.2)
      | .single id => some (id, [c], rest)
      | .operator => scanOperator c rest
      | .quote id => (literalLoop c [c] rest).map fun parts => (id, parts.1, parts.2)
      | .other => scanPopToken rest

/-- The tokens that repeated calls of a scanner return, up to the end of the stream. -/
@[grind =] def tokensWith (pop : Stream → Option (TokenId × Stream × Stream)) :
    Nat → Stream → Option (List Token)
  | 0, _ => none
  | fuel + 1, stream =>
      (pop stream).bind fun found =>
        if found.1 = .eof then some [(found.1, found.2.1)]
        else (tokensWith pop fuel found.2.2).map ((found.1, found.2.1) :: ·)

/-- Every token but the last one takes a byte, so there are enough calls. -/
def scanTokens (stream : Stream) : Option (List Token) :=
  tokensWith scanPopToken (stream.length + 1) stream

end Tegenaria.QCBuild
