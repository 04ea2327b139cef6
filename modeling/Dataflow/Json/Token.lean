import Dataflow.Json.Numeral

/-!
# JSON tokens

A text is cut into tokens by a machine that looks at one character at a time.
Between two characters the machine is outside of any token or inside a word, a
number or a string.
-/

namespace Dataflow.Json

/-- A token.  A number out of range and a string with half of a surrogate pair
are tokens without a value. -/
inductive Token
  | openArray
  | closeArray
  | openObject
  | closeObject
  | comma
  | colon
  | null
  | bool (value : Bool)
  | number (value : Option Json.Number)
  | string (value : Option String)
  deriving Repr

/-! ## Strings -/

/-- Where the machine stands inside a string. -/
inductive StringPlace
  | plain
  | escape
  | unit (digits value : Nat)
  deriving Repr

/-- A string that is being read, its characters in reverse.  `high` is the first
half of a surrogate pair that waits for the second, and `broken` says that some
half has stayed alone. -/
structure PartialString where
  reversed : List Char
  high : Option Nat
  broken : Bool
  place : StringPlace
  deriving Repr

/-- A string of which nothing has been read. -/
def PartialString.start : PartialString :=
  ⟨[], none, false, .plain⟩

/-- Adds a character.  A pending half of a surrogate pair stays alone. -/
def PartialString.push (text : PartialString) (char : Char) : PartialString :=
  ⟨char :: text.reversed, none, text.broken || text.high.isSome, .plain⟩

/-- Adds an escaped code unit. -/
def PartialString.pushUnit (text : PartialString) (unit : Nat) : PartialString :=
  if 0xD800 ≤ unit ∧ unit < 0xDC00 then
    ⟨text.reversed, some unit, text.broken || text.high.isSome, .plain⟩
  else if 0xDC00 ≤ unit ∧ unit < 0xE000 then
    match text.high with
    | some high =>
        let char := Char.ofNat (0x10000 + (high - 0xD800) * 0x400 + (unit - 0xDC00))
        ⟨char :: text.reversed, none, text.broken, .plain⟩
    | none => ⟨text.reversed, none, true, .plain⟩
  else
    text.push (Char.ofNat unit)

/-- The finished string, if it has a value. -/
def PartialString.finish (text : PartialString) : Option String :=
  if text.broken || text.high.isSome then none else some (String.ofList text.reversed.reverse)

/-- The character that a short escape stands for. -/
def shortEscape? : Char → Option Char
  | '"' => some '"'
  | '\\' => some '\\'
  | '/' => some '/'
  | 'b' => some '\x08'
  | 'f' => some '\x0c'
  | 'n' => some '\n'
  | 'r' => some '\r'
  | 't' => some '\t'
  | _ => none

/-- The value of a hexadecimal digit. -/
def hexValue? (digit : Char) : Option Nat :=
  if digit.isDigit then some (digit.toNat - '0'.toNat)
  else if 'a' ≤ digit ∧ digit ≤ 'f' then some (digit.toNat - 'a'.toNat + 10)
  else if 'A' ≤ digit ∧ digit ≤ 'F' then some (digit.toNat - 'A'.toNat + 10)
  else none

/-- Reads one character of a string other than the closing quote. -/
def PartialString.step? (text : PartialString) (char : Char) : Option PartialString :=
  match text.place with
  | .plain =>
      if char = '\\' then some { text with place := .escape }
      else if char.toNat < 0x20 then none
      else some (text.push char)
  | .escape =>
      if char = 'u' then some { text with place := .unit 0 0 }
      else (shortEscape? char).map text.push
  | .unit digits value => do
      let digit ← hexValue? char
      let value := value * 16 + digit
      if digits = 3 then some (text.pushUnit value)
      else some { text with place := .unit (digits + 1) value }

/-! ## The machine -/

/-- The state of the machine.  Words and numbers hold their characters in
reverse. -/
inductive LexState
  | outside
  | word (reversed : List Char)
  | number (reversed : List Char)
  | string (text : PartialString)
  deriving Repr

/-- The token that a word stands for. -/
def wordToken? : List Char → Option Token
  | ['n', 'u', 'l', 'l'] => some .null
  | ['t', 'r', 'u', 'e'] => some (.bool true)
  | ['f', 'a', 'l', 's', 'e'] => some (.bool false)
  | _ => none

/-- Whether a character can belong to a number. -/
def isNumberChar (char : Char) : Bool :=
  char.isDigit || char = '-' || char = '+' || char = '.' || char = 'e' || char = 'E'

/-- Reads a character outside of any token. -/
def stepOutside? (char : Char) : Option (LexState × List Token) :=
  match char with
  | ' ' | '\t' | '\n' | '\r' => some (.outside, [])
  | '[' => some (.outside, [.openArray])
  | ']' => some (.outside, [.closeArray])
  | '\x7b' => some (.outside, [.openObject])
  | '\x7d' => some (.outside, [.closeObject])
  | ',' => some (.outside, [.comma])
  | ':' => some (.outside, [.colon])
  | '"' => some (.string .start, [])
  | char =>
      if char = '-' || char.isDigit then some (.number [char], [])
      else if char.isAlpha then some (.word [char], [])
      else none

/-- The tokens that are complete when the text ends or the character at hand does
not belong to the token before it. -/
def LexState.close? : LexState → Option (List Token)
  | outside => some []
  | word reversed => (wordToken? reversed.reverse).map ([·])
  | number reversed => (Numeral.read? reversed.reverse).map ([.number ·.value?])
  | string _ => none

/-- Ends the token before a character and reads the character outside of it. -/
def LexState.leave? (state : LexState) (char : Char) : Option (LexState × List Token) := do
  let before ← state.close?
  let (next, tokens) ← stepOutside? char
  pure (next, before ++ tokens)

/-- Reads one character. -/
def LexState.step? (state : LexState) (char : Char) : Option (LexState × List Token) :=
  match state with
  | outside => stepOutside? char
  | word reversed =>
      if char.isAlpha then some (.word (char :: reversed), []) else state.leave? char
  | number reversed =>
      if isNumberChar char then some (.number (char :: reversed), []) else state.leave? char
  | string text =>
      match text.place, char with
      | .plain, '"' => some (.outside, [.string text.finish])
      | _, char => (text.step? char).map ((.string ·, []))

/-- Cuts a text into tokens, given the tokens before it in reverse. -/
def tokensFrom? (state : LexState) (reversed : List Token) : List Char → Option (List Token)
  | [] => state.close?.map (reversed.reverse ++ ·)
  | char :: rest =>
      match state.step? char with
      | some (next, tokens) => tokensFrom? next (tokens.reverse ++ reversed) rest
      | none => none

/-- The tokens of a text. -/
def tokens? (text : String) : Option (List Token) :=
  tokensFrom? .outside [] text.toList

end Dataflow.Json
