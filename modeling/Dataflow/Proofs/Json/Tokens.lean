import Dataflow.Proofs.Json.Numerals
import Dataflow.Json.Writer

/-!
# Tokens of texts

A piece of text between tokens spells the tokens that it is cut into.  Brackets, commas and quoted
strings do so whatever follows; a word or a number has to end where the piece ends.
-/

namespace Dataflow.Json

section Machine

variable {text others rest : List Char} {reversed tokens more : List Token} {state : LexState}
  {follows then_follows : List Char → Prop}

/-! ## Pieces of text -/

/-- Outside of a token a piece of text is cut into these tokens, if what follows allows it. -/
def Spells (follows : List Char → Prop) (text : List Char) (tokens : List Token) : Prop :=
  ∀ reversed rest, follows rest →
    tokensFrom? .outside reversed (text ++ rest) =
      tokensFrom? .outside (tokens.reverse ++ reversed) rest

/-- Anything can follow. -/
def Anything (_ : List Char) : Prop :=
  True

/-- Neither a word nor a number goes on. -/
def Parted (rest : List Char) : Prop :=
  ∀ char ∈ rest.head?, char.isAlpha = false ∧ isNumberChar char = false

namespace Spells

theorem nil : Spells Anything [] [] :=
  fun _ _ _ => rfl

theorem append (first : Spells follows text tokens) (second : Spells then_follows others more)
    (allowed : ∀ rest, then_follows rest → follows (others ++ rest)) :
    Spells then_follows (text ++ others) (tokens ++ more) := by
  intro reversed rest following
  rw [List.append_assoc, first _ _ (allowed rest following), second _ _ following,
    List.reverse_append, List.append_assoc]

/-- Whatever follows is allowed. -/
theorem mono (spells : Spells Anything text tokens) : Spells follows text tokens :=
  fun reversed rest _ => spells reversed rest trivial

/-- A character that stands for itself. -/
theorem single (char : Char) (step : stepOutside? char = some (.outside, tokens)) :
    Spells Anything [char] tokens := by
  intro reversed rest _
  simp [tokensFrom?, LexState.step?, step]

end Spells

/-! ## Words and numbers -/

/-- A state collects the characters of one kind. -/
theorem tokensFrom?_collect (state : List Char → LexState) {kind : Char → Bool}
    (collects : ∀ before char, kind char = true →
      (state before).step? char = some (state (char :: before), []))
    (all : ∀ char ∈ text, kind char = true) (before : List Char) :
    tokensFrom? (state before) reversed (text ++ rest) =
      tokensFrom? (state (text.reverse ++ before)) reversed rest := by
  induction text generalizing before with
  | nil => rfl
  | cons char others ih =>
      obtain ⟨own, all_others⟩ := List.forall_mem_cons.mp all
      rw [List.cons_append, tokensFrom?, collects before char own]
      change tokensFrom? (state (char :: before)) reversed (others ++ rest) = _
      rw [ih all_others, List.reverse_cons, List.append_assoc]
      rfl

/-- A token that is complete where the text ends or goes on with something else. -/
theorem tokensFrom?_leave (closes : state.close? = some tokens)
    (leaves : ∀ char ∈ rest.head?, state.step? char = state.leave? char) :
    tokensFrom? state reversed rest = tokensFrom? .outside (tokens.reverse ++ reversed) rest := by
  cases rest with
  | nil =>
      rw [tokensFrom?, tokensFrom?, closes]
      simp [LexState.close?]
  | cons char others =>
      rw [tokensFrom?, tokensFrom?, leaves char rfl]
      simp only [LexState.leave?, closes, LexState.step?]
      cases step : stepOutside? char with
      | none => rfl
      | some next => simp [List.append_assoc]

/-- A word spells its token. -/
theorem spells_word (first : Char) {token : Token}
    (step : stepOutside? first = some (.word [first], [])) (all : ∀ char ∈ text, char.isAlpha = true)
    (stands : wordToken? (first :: text) = some token) :
    Spells Parted (first :: text) [token] := by
  intro reversed rest parted
  have enter : tokensFrom? .outside reversed (first :: text ++ rest) =
      tokensFrom? (.word [first]) reversed (text ++ rest) := by
    simp [tokensFrom?, LexState.step?, step]
  rw [enter, tokensFrom?_collect .word (fun before char alpha => if_pos alpha) all]
  apply tokensFrom?_leave
  · simp [LexState.close?, stands]
  · intro char following
    simp [LexState.step?, parted char following]

theorem stepOutside?_number {char : Char} (starts : char = '-' ∨ char.isDigit = true) :
    stepOutside? char = some (.number [char], []) := by
  unfold stepOutside?
  split <;> first | rfl | (exfalso; revert starts; decide) | skip
  simp [starts]

/-- A literal spells a number. -/
theorem spells_numeral {numeral : Numeral} (read : Numeral.read? text = some numeral) :
    Spells Parted text [.number numeral.value?] := by
  obtain ⟨first, digits, rfl, starts, all⟩ := Numeral.exists_cons_of_read? read
  intro reversed rest parted
  have enter : tokensFrom? .outside reversed (first :: digits ++ rest) =
      tokensFrom? (.number [first]) reversed (digits ++ rest) := by
    simp [tokensFrom?, LexState.step?, stepOutside?_number starts]
  rw [enter, tokensFrom?_collect .number (fun before char own => if_pos own) all]
  apply tokensFrom?_leave
  · simp [LexState.close?, read]
  · intro char following
    simp [LexState.step?, parted char following]

theorem spells_null : Spells Parted "null".toList [.null] :=
  spells_word 'n' rfl (by simp; decide) rfl

theorem spells_bool (value : Bool) :
    Spells Parted (if value then "true" else "false").toList [.bool value] := by
  cases value
  · exact spells_word 'f' rfl (by simp; decide) rfl
  · exact spells_word 't' rfl (by simp; decide) rfl

/-! ## Strings -/

variable {partial_text : PartialString} {char : Char}

/-- A character inside a string. -/
theorem tokensFrom?_string (next : PartialString) (step : partial_text.step? char = some next)
    (inside : partial_text.place = .plain → char ≠ '"') :
    tokensFrom? (.string partial_text) reversed (char :: rest) =
      tokensFrom? (.string next) reversed rest := by
  have machine : (LexState.string partial_text).step? char = some (.string next, []) := by
    simp only [LexState.step?, step]
    rfl
  simp [tokensFrom?, machine]

/-- A short escape stands for one character. -/
theorem tokensFrom?_shortEscape {escape : Char} (plain : partial_text.place = .plain)
    (short : escape ≠ 'u') (stands : shortEscape? escape = some char) :
    tokensFrom? (.string partial_text) reversed ('\\' :: escape :: rest) =
      tokensFrom? (.string (partial_text.push char)) reversed rest := by
  rw [tokensFrom?_string { partial_text with place := .escape }
    (by simp [PartialString.step?, plain]) (by simp)]
  apply tokensFrom?_string _
  · simp [PartialString.step?, short, stands, PartialString.push]
  · simp

/-- The digits of a control character. -/
theorem hexValue?_hexDigit {value : Nat} (small : value < 16) :
    hexValue? (hexDigit value) = some value := by
  have all : ∀ value < 16, hexValue? (hexDigit value) = some value := by decide
  exact all value small

/-- A control character is written with its code. -/
theorem tokensFrom?_control (plain : partial_text.place = .plain) (control : char.toNat < 0x20) :
    tokensFrom? (.string partial_text) reversed
        ('\\' :: 'u' :: '0' :: '0' :: hexDigit (char.toNat / 16) :: hexDigit (char.toNat % 16) ::
          rest) =
      tokensFrom? (.string (partial_text.push char)) reversed rest := by
  have high : hexValue? (hexDigit (char.toNat / 16)) = some (char.toNat / 16) :=
    hexValue?_hexDigit (by omega)
  have low : hexValue? (hexDigit (char.toNat % 16)) = some (char.toNat % 16) :=
    hexValue?_hexDigit (by omega)
  have zero : hexValue? '0' = some 0 := rfl
  rw [tokensFrom?_string { partial_text with place := .escape }
    (by simp [PartialString.step?, plain]) (by simp)]
  rw [tokensFrom?_string { partial_text with place := .unit 0 0 }
    (by simp [PartialString.step?]) (by simp)]
  rw [tokensFrom?_string { partial_text with place := .unit 1 0 }
    (by simp [PartialString.step?, zero]) (by simp)]
  rw [tokensFrom?_string { partial_text with place := .unit 2 0 }
    (by simp [PartialString.step?, zero]) (by simp)]
  rw [tokensFrom?_string { partial_text with place := .unit 3 (char.toNat / 16) }
    (by simp [PartialString.step?, high]) (by simp)]
  apply tokensFrom?_string _
  · have whole : char.toNat / 16 * 16 + char.toNat % 16 = char.toNat := by omega
    have low_unit : ¬ 0xD800 ≤ char.toNat := by omega
    have high_unit : ¬ 0xDC00 ≤ char.toNat := by omega
    simp [PartialString.step?, low, whole, PartialString.pushUnit, low_unit, high_unit,
      PartialString.push]
  · simp

/-- What stands for a character adds the character. -/
theorem tokensFrom?_escaped (plain : partial_text.place = .plain) (char : Char) :
    tokensFrom? (.string partial_text) reversed (escaped char ++ rest) =
      tokensFrom? (.string (partial_text.push char)) reversed rest := by
  unfold escaped
  split
  · exact tokensFrom?_shortEscape plain (by decide) rfl
  · exact tokensFrom?_shortEscape plain (by decide) rfl
  · exact tokensFrom?_shortEscape plain (by decide) rfl
  · exact tokensFrom?_shortEscape plain (by decide) rfl
  · exact tokensFrom?_shortEscape plain (by decide) rfl
  · exact tokensFrom?_shortEscape plain (by decide) rfl
  · exact tokensFrom?_shortEscape plain (by decide) rfl
  · rename_i quote backslash _ _ _ _ _
    split
    · rename_i control
      exact tokensFrom?_control plain control
    · rename_i printed
      apply tokensFrom?_string _
      · rw [PartialString.step?, plain]
        exact (if_neg backslash).trans (if_neg printed)
      · exact fun _ => quote

/-- The characters of a string are read one by one.  The induction is on the characters that are
left; `before` is read already. -/
theorem tokensFrom?_characters (chars before : List Char) :
    tokensFrom? (.string ⟨before, none, false, .plain⟩) reversed (chars.flatMap escaped ++ rest) =
      tokensFrom? (.string ⟨chars.reverse ++ before, none, false, .plain⟩) reversed rest := by
  induction chars generalizing before with
  | nil => rfl
  | cons char others ih =>
      rw [List.flatMap_cons, List.append_assoc, tokensFrom?_escaped rfl]
      change tokensFrom? (.string ⟨char :: before, none, false, .plain⟩) _ _ = _
      rw [ih, List.reverse_cons, List.append_assoc]
      rfl

/-- A quoted string spells itself. -/
theorem spells_quoted (text : String) :
    Spells Anything (quoted text).toList [.string (some text)] := by
  intro reversed rest _
  have enter : tokensFrom? .outside reversed ((quoted text).toList ++ rest) =
      tokensFrom? (.string .start) reversed (text.toList.flatMap escaped ++ ('"' :: rest)) := by
    simp [quoted, tokensFrom?, LexState.step?, stepOutside?]
  have finish : PartialString.finish ⟨text.toList.reverse ++ [], none, false, .plain⟩ = some text := by
    simp [PartialString.finish]
  rw [enter, PartialString.start, tokensFrom?_characters]
  simp only [tokensFrom?, LexState.step?, finish]

end Machine

end Dataflow.Json
