import Dataflow.Json.Token

/-!
# Reading JSON

The reader goes through the tokens once and keeps the arrays and objects that are
still open on a stack.  It accepts exactly the well-formed texts; what a text can
hold without denoting a value becomes `malformed`.
-/

namespace Dataflow.Json

/-- An array or object that is still open, its parts in reverse.  `valid` says
that every key so far has a value. -/
inductive Frame
  | array (reversed : List Json)
  | object (reversed : List (String × Json)) (valid : Bool) (key : Option String)
  deriving Repr

/-- What the reader can meet next. -/
inductive Expectation
  | value
  | valueOrClose
  | keyOrClose
  | key
  | colon
  | commaOrClose
  | done (result : Json)
  deriving Repr

/-- The open frames, innermost first, and what may follow. -/
structure ReaderState where
  frames : List Frame
  expected : Expectation
  deriving Repr

/-- The state before a text. -/
def ReaderState.start : ReaderState :=
  ⟨[], .value⟩

/-- Arrays and objects below this many others denote no value. -/
def depthLimit : Nat := 127

/-- An array or object that closes inside the given frames. -/
def closed (frames : List Frame) (content : Json) : Json :=
  if frames.length < depthLimit then content else .malformed

/-- Puts a complete value where one was expected. -/
def ReaderState.complete (frames : List Frame) (value : Json) : ReaderState :=
  match frames with
  | [] => ⟨[], .done value⟩
  | .array reversed :: outer => ⟨.array (value :: reversed) :: outer, .commaOrClose⟩
  | .object reversed valid key :: outer =>
      let frame :=
        match key with
        | some key => .object ((key, value) :: reversed) valid none
        | none => .object reversed false none
      ⟨frame :: outer, .commaOrClose⟩

/-- Reads a token where a value is expected. -/
def ReaderState.value? (frames : List Frame) : Token → Option ReaderState
  | .openArray => some ⟨.array [] :: frames, .valueOrClose⟩
  | .openObject => some ⟨.object [] true none :: frames, .keyOrClose⟩
  | .null => some (complete frames .null)
  | .bool value => some (complete frames (.bool value))
  | .number (some value) => some (complete frames (.number value))
  | .number none => some (complete frames .malformed)
  | .string (some value) => some (complete frames (.string value))
  | .string none => some (complete frames .malformed)
  | _ => none

/-- Closes the innermost frame. -/
def ReaderState.close? : List Frame → Token → Option ReaderState
  | .array reversed :: outer, .closeArray =>
      some (complete outer (closed outer (.array reversed.reverse)))
  | .object reversed valid _ :: outer, .closeObject =>
      let content := if valid then .object reversed.reverse else .malformed
      some (complete outer (closed outer content))
  | _, _ => none

/-- Reads the key of a member. -/
def ReaderState.key? : List Frame → Token → Option ReaderState
  | .object reversed valid _ :: outer, .string key =>
      some ⟨.object reversed valid key :: outer, .colon⟩
  | _, _ => none

/-- Reads one token. -/
def ReaderState.step? (state : ReaderState) (token : Token) : Option ReaderState :=
  match state.expected, token with
  | .value, token => value? state.frames token
  | .valueOrClose, .closeArray => close? state.frames .closeArray
  | .valueOrClose, token => value? state.frames token
  | .keyOrClose, .closeObject => close? state.frames .closeObject
  | .keyOrClose, token => key? state.frames token
  | .key, token => key? state.frames token
  | .colon, .colon => some { state with expected := .value }
  | .commaOrClose, .comma =>
      match state.frames with
      | .array _ :: _ => some { state with expected := .value }
      | .object .. :: _ => some { state with expected := .key }
      | [] => none
  | .commaOrClose, token => close? state.frames token
  | _, _ => none

/-- The value of a token sequence. -/
def ofTokens? (tokens : List Token) : Option Json :=
  match tokens.foldlM ReaderState.step? ReaderState.start with
  | some ⟨[], .done value⟩ => some value
  | _ => none

/-- Reads a text. -/
def read? (text : String) : Option Json :=
  (tokens? text).bind ofTokens?

end Dataflow.Json
