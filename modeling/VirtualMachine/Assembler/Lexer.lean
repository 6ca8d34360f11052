import VirtualMachine.Types

namespace VirtualMachine

inductive TokenType
  | End | Newline | Identifier | Number | Register | LBracket | RBracket | Comma | Colon
  deriving DecidableEq, Repr

structure Token where
  type : TokenType := .End
  text : Text := []
  line : Nat := 1
  deriving DecidableEq, Repr

structure Lexer where
  source : Text
  position : Nat := 0
  line : Nat := 1
  hasPeek : Bool := false
  peekToken : Token := {}
  peekPosition : Nat := 0
  peekLine : Nat := 1

namespace Lexer

def isBlank (ch : Char) : Bool := ch == ' ' || ch == '\t' || ch == '\r'

def isWordChar (ch : Char) : Bool := ch.isAlphanum || ch == '_'

/-- How many characters `skipWhitespace` skips of the text that is left, from
outside or from inside a comment. -/
def skipWhitespaceLength : Bool → Text → Nat
  | _, [] => 0
  | true, ch :: rest => if ch = '\n' then 0 else skipWhitespaceLength true rest + 1
  | false, ch :: rest =>
    if isBlank ch then skipWhitespaceLength false rest + 1
    else if ch = '#' then skipWhitespaceLength true rest + 1
    else 0

def skipWhitespace (lexer : Lexer) : Lexer :=
  { lexer with
    position := lexer.position + skipWhitespaceLength false (lexer.source.drop lexer.position) }

/-- A token of `text`, which starts at the current position. -/
def take (lexer : Lexer) (type : TokenType) (text : Text) : Token × Lexer :=
  ({ type := type, text := text, line := lexer.line }, { lexer with position := lexer.position + text.length })

def isRegisterName (text : Text) : Bool :=
  match text with
  | 'r' :: digits => !digits.isEmpty && digits.all Char.isDigit
  | _ => false

def makeIdentifierOrRegister (lexer : Lexer) : Token × Lexer :=
  let text := (lexer.source.drop lexer.position).takeWhile isWordChar
  if isRegisterName text then lexer.take .Register text else lexer.take .Identifier text

def numberText : Text → Text
  | '-' :: rest => '-' :: rest.takeWhile Char.isDigit
  | text => text.takeWhile Char.isDigit

def makeNumber (lexer : Lexer) : Token × Lexer :=
  lexer.take .Number (numberText (lexer.source.drop lexer.position))

/-- Exceptions end the parse, and the lexer with it, so the position a throwing
`readToken` leaves behind is not kept. -/
def readToken (lexer : Lexer) : Except Exception (Token × Lexer) :=
  let lexer := lexer.skipWhitespace
  match lexer.source.drop lexer.position with
  | [] => .ok ({ type := .End, text := [], line := lexer.line }, lexer)
  | ch :: _ =>
    if ch = '\n' then
      .ok ({ type := .Newline, text := ['\\', 'n'], line := lexer.line },
        { lexer with position := lexer.position + 1, line := lexer.line + 1 })
    else if ch = '[' then .ok (lexer.take .LBracket ['['])
    else if ch = ']' then .ok (lexer.take .RBracket [']'])
    else if ch = ',' then .ok (lexer.take .Comma [','])
    else if ch = ':' then .ok (lexer.take .Colon [':'])
    else if ch.isAlpha || ch == '_' then .ok lexer.makeIdentifierOrRegister
    else if ch.isDigit || ch == '-' then .ok lexer.makeNumber
    else .error (.assemblerError lexer.line ("unexpected character: " ++ String.singleton ch))

def next (lexer : Lexer) : Except Exception (Token × Lexer) :=
  if lexer.hasPeek then
    .ok (lexer.peekToken,
      { lexer with hasPeek := false, position := lexer.peekPosition, line := lexer.peekLine })
  else lexer.readToken

def peek (lexer : Lexer) : Except Exception (Token × Lexer) :=
  if lexer.hasPeek then .ok (lexer.peekToken, lexer)
  else
    match lexer.readToken with
    | .error e => .error e
    | .ok (token, after) =>
      .ok (token,
        { lexer with
          peekToken := token, peekPosition := after.position, peekLine := after.line, hasPeek := true })

def reset (lexer : Lexer) : Lexer := { lexer with position := 0, line := 1, hasPeek := false }

def mark (lexer : Lexer) : Nat := lexer.position

/-- The mark is a position only: the line counter stays where it is. -/
def restore (lexer : Lexer) (mark : Nat) : Lexer := { lexer with position := mark, hasPeek := false }

end Lexer

end VirtualMachine
