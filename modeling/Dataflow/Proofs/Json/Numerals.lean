import Dataflow.Json.Token
import Dataflow.Json.Writer
import Dataflow.Proofs.Decimal.Shortest

/-!
# Number literals of decimals

The text of a positive decimal is a literal in every style, and reading it gives back its digits
and its exponent.
-/

namespace Dataflow

namespace Json

/-! ## Digits -/

section Digits

variable {digits rest : List Char}

/-- No digit follows. -/
def EndsDigits (rest : List Char) : Prop :=
  ∀ char ∈ rest.head?, char.isDigit = false

theorem endsDigits_nil : EndsDigits [] := by
  simp [EndsDigits]

theorem spanDigits_append (all : ∀ digit ∈ digits, digit.isDigit = true) (ends : EndsDigits rest) :
    spanDigits (digits ++ rest) = (digits.map digitValue, rest) := by
  have none : rest.takeWhile Char.isDigit = [] ∧ rest.dropWhile Char.isDigit = rest := by
    cases rest with
    | nil => exact ⟨rfl, rfl⟩
    | cons char others => simp [ends char rfl]
  simp [spanDigits, List.takeWhile_append_of_pos all, List.dropWhile_append_of_pos all, none]

theorem spanDigits_of_all (all : ∀ digit ∈ digits, digit.isDigit = true) :
    spanDigits digits = (digits.map digitValue, []) := by
  have spanned := spanDigits_append all endsDigits_nil
  rwa [List.append_nil] at spanned

/-- What is split off are digits, and the text consists of them and the rest. -/
theorem exists_of_spanDigits {text : List Char} {values : List Nat}
    (spanned : spanDigits text = (values, rest)) :
    ∃ digits, text = digits ++ rest ∧ values = digits.map digitValue ∧
      ∀ digit ∈ digits, digit.isDigit = true := by
  obtain ⟨rfl, rfl⟩ := Prod.mk.inj spanned
  exact ⟨_, List.takeWhile_append_dropWhile.symm, rfl, fun _ => List.mem_takeWhile_imp⟩

theorem isDigit_toDigits (value : Nat) : ∀ digit ∈ Nat.toDigits 10 value, digit.isDigit = true :=
  fun _ => Nat.isDigit_of_mem_toDigits (by decide) (by decide)

/-- The digits of a number stand for it. -/
@[simp]
theorem ofDigits_toDigits (value : Nat) :
    ofDigits ((Nat.toDigits 10 value).map digitValue) = value := by
  have back := Nat.ofDigitChars_ten_toDigits (n := value)
  rw [Nat.ofDigitChars_eq_foldl] at back
  simpa [ofDigits, List.foldl_map, digitValue, Nat.mul_comm] using back

/-- The first digit of a positive number is not zero. -/
theorem head_toDigits {value : Nat} (positive : 0 < value) :
    ∀ digit ∈ (Nat.toDigits 10 value).head?, digit ≠ '0' := by
  induction value using Nat.strongRecOn with
  | ind value ih =>
      rw [Nat.toDigits_eq_if (by decide)]
      split
      · rename_i small
        intro digit first
        obtain rfl := Option.some.inj first
        interval_cases value <;> decide
      · rename_i large
        rw [List.head?_append_of_ne_nil _ Nat.toDigits_ne_nil]
        exact ih (value / 10) (by omega) (by omega)

end Digits

/-! ## Literals -/

section Literals

variable {whole fraction rest : List Char} {digits : List Nat} {numeral : Numeral}

/-- An exponent is read with its sign. -/
theorem readExponent?_mark {value : Nat} {sign : List Char} {negative : Bool}
    (signed : sign = ['-'] ∧ negative = true ∨ (sign = ['+'] ∨ sign = []) ∧ negative = false) :
    readExponent? ('e' :: sign ++ Nat.toDigits 10 value) =
      some (some (if negative then -(value : Int) else value)) := by
  have spanned := spanDigits_of_all (isDigit_toDigits value)
  have stands := ofDigits_toDigits value
  obtain ⟨char, chars, text⟩ :=
    List.exists_cons_of_ne_nil (Nat.toDigits_ne_nil (n := value) (b := 10))
  have digit : char.isDigit = true := isDigit_toDigits value char (by simp [text])
  have plus : char ≠ '+' := by rintro rfl; exact absurd digit (by decide)
  have minus : char ≠ '-' := by rintro rfl; exact absurd digit (by decide)
  rw [text, List.map_cons] at spanned stands
  rcases signed with ⟨rfl, rfl⟩ | ⟨rfl | rfl, rfl⟩
  · simp [readExponent?, text, spanned, stands]
  · simp [readExponent?, text, spanned, stands]
  · simp [readExponent?, text, plus, minus, spanned, stands]

/-- A point is followed by digits and then by what else there is. -/
theorem readFraction?_point (all : ∀ digit ∈ fraction, digit.isDigit = true)
    (some_digit : fraction ≠ []) (ends : EndsDigits rest) :
    readFraction? ('.' :: fraction ++ rest) =
      (readExponent? rest).map ((some (fraction.map digitValue), ·)) := by
  have spanned := spanDigits_append all ends
  obtain ⟨digit, digits, rfl⟩ := List.exists_cons_of_ne_nil some_digit
  rw [List.cons_append] at spanned
  simp [readFraction?, spanned]

theorem digitValue_ne_zero {digit : Char} (isDigit : digit.isDigit = true) (positive : digit ≠ '0') :
    digitValue digit ≠ 0 := by
  intro zero
  simp only [Char.isDigit, Bool.and_eq_true, decide_eq_true_eq] at isDigit
  apply positive
  apply Char.ext
  apply UInt32.toNat_inj.mp
  simp only [digitValue, Char.toNat] at zero
  have low : ('0' : Char).val.toNat ≤ digit.val.toNat := isDigit.1
  change digit.val.toNat = ('0' : Char).val.toNat
  omega

/-- The sign of a literal. -/
def signText (negative : Bool) : List Char :=
  if negative then ['-'] else []

/-- A sign, digits without a leading zero, and what else there is. -/
theorem Numeral.read?_append {parts : Option (List Nat) × Option Int} (negative : Bool)
    (all : ∀ digit ∈ whole, digit.isDigit = true) (some_digit : whole ≠ [])
    (plain : whole = ['0'] ∨ ∀ digit ∈ whole.head?, digit ≠ '0') (ends : EndsDigits rest)
    (read : readFraction? rest = some parts) :
    Numeral.read? (signText negative ++ (whole ++ rest)) =
      some ⟨negative, whole.map digitValue, parts.1, parts.2⟩ := by
  have spanned := spanDigits_append all ends
  obtain ⟨digit, digits, rfl⟩ := List.exists_cons_of_ne_nil some_digit
  have isDigit : digit.isDigit = true := all digit List.mem_cons_self
  have unsigned : digit ≠ '-' := by rintro rfl; exact absurd isDigit (by decide)
  rw [List.cons_append, List.map_cons] at spanned
  rcases plain with zero | positive
  · obtain ⟨rfl, rfl⟩ := List.cons.inj zero
    have value : digitValue '0' = 0 := rfl
    rw [List.nil_append, List.map_nil, value] at spanned
    cases negative <;> simp [Numeral.read?, signText, spanned, read, value]
  · have value := digitValue_ne_zero isDigit (positive digit rfl)
    cases negative <;> simp [Numeral.read?, signText, unsigned, spanned, read, value]

/-! ## Characters of literals -/

theorem isNumberChar_of_isDigit {char : Char} (digit : char.isDigit = true) :
    isNumberChar char = true := by
  simp [isNumberChar, digit]

/-- What `spanDigits` splits off consists of digits. -/
theorem isNumberChar_of_spanDigits {text : List Char} {values : List Nat}
    (spanned : spanDigits text = (values, rest)) (others : ∀ char ∈ rest, isNumberChar char = true) :
    ∀ char ∈ text, isNumberChar char = true := by
  obtain ⟨digits, rfl, -, all⟩ := exists_of_spanDigits spanned
  intro char mem
  rcases List.mem_append.mp mem with digit | other
  · exact isNumberChar_of_isDigit (all char digit)
  · exact others char other

theorem isNumberChar_of_readExponent? {text : List Char} {exponent : Option Int}
    (read : readExponent? text = some exponent) : ∀ char ∈ text, isNumberChar char = true := by
  unfold readExponent? at read
  split at read
  · simp
  · rename_i mark others
    split at read
    · rename_i marked
      have first : isNumberChar mark = true := by
        rcases marked with rfl | rfl <;> decide
      split at read
      rename_i negative magnitude signed
      split at read
      · simp at read
      · rename_i digits _ spanned
        have last := isNumberChar_of_spanDigits spanned (by simp)
        refine List.forall_mem_cons.mpr ⟨first, ?_⟩
        split at signed <;> obtain ⟨-, rfl⟩ := Prod.mk.inj signed
        · exact List.forall_mem_cons.mpr ⟨by decide, last⟩
        · exact List.forall_mem_cons.mpr ⟨by decide, last⟩
        · exact last
      · simp at read
    · simp at read

theorem isNumberChar_of_readFraction? {text : List Char} {parts : Option (List Nat) × Option Int}
    (read : readFraction? text = some parts) : ∀ char ∈ text, isNumberChar char = true := by
  unfold readFraction? at read
  split at read
  · split at read
    · simp at read
    · rename_i spanned
      obtain ⟨exponent, readExponent, -⟩ := Option.map_eq_some_iff.mp read
      exact List.forall_mem_cons.mpr ⟨by decide,
        isNumberChar_of_spanDigits spanned (isNumberChar_of_readExponent? readExponent)⟩
  · obtain ⟨exponent, readExponent, -⟩ := Option.map_eq_some_iff.mp read
    exact isNumberChar_of_readExponent? readExponent

/-- A literal starts with a sign or a digit, and the characters of literals follow. -/
theorem Numeral.exists_cons_of_read? {text : List Char} (read : Numeral.read? text = some numeral) :
    ∃ first others, text = first :: others ∧ (first = '-' ∨ first.isDigit = true) ∧
      ∀ char ∈ others, isNumberChar char = true := by
  unfold Numeral.read? at read
  split at read
  rename_i negative unsigned signed
  split at read
  · simp at read
  · simp at read
  · rename_i whole others some_digit _ spanned
    obtain ⟨parts, readParts, -⟩ := Option.map_eq_some_iff.mp read
    have last := isNumberChar_of_spanDigits spanned (isNumberChar_of_readFraction? readParts)
    split at signed <;> obtain ⟨-, rfl⟩ := Prod.mk.inj signed
    · exact ⟨'-', _, rfl, .inl rfl, last⟩
    · obtain ⟨digits, rfl, values, all⟩ := exists_of_spanDigits spanned
      cases digits with
      | nil => exact absurd values some_digit
      | cons first digits =>
          exact ⟨first, digits ++ others, rfl, .inr (all first List.mem_cons_self),
            (List.forall_mem_cons.mp last).2⟩

end Literals

/-! ## Values of literals -/

theorem ofDigits_append (first second : List Nat) :
    ofDigits (first ++ second) = ofDigits first * 10 ^ second.length + ofDigits second := by
  induction second using List.reverseRecOn with
  | nil => simp [ofDigits]
  | append_singleton digits digit ih =>
      rw [← List.append_assoc]
      simp only [ofDigits, List.foldl_append, List.foldl_cons, List.foldl_nil] at ih ⊢
      rw [ih, List.length_append, List.length_singleton, pow_succ]
      ring

@[simp]
theorem ofDigits_replicate_zero (count : Nat) : ofDigits (List.replicate count 0) = 0 := by
  induction count with
  | zero => rfl
  | succ count ih => rw [List.replicate_succ', ofDigits_append, ih]; simp [ofDigits]

@[simp]
theorem ofDigits_singleton (digit : Nat) : ofDigits [digit] = digit := by
  simp [ofDigits]

@[simp]
theorem digitValue_zero : digitValue '0' = 0 :=
  rfl

namespace Numeral

/-- All digits of a literal as one number. -/
def significand (numeral : Numeral) : Nat :=
  ofDigits (numeral.whole ++ numeral.fraction.getD [])

/-- The exponent that all digits of a literal have. -/
def scale (numeral : Numeral) : Int :=
  numeral.exponent.getD 0 - (numeral.fraction.getD []).length

/-- The number that a literal stands for, without its sign. -/
def magnitude (numeral : Numeral) : ℚ :=
  numeral.significand * 10 ^ numeral.scale

end Numeral

end Json

namespace Decimal

open Json
open Float.Model (Format UnpackedFloat)
open Float.Model.UnpackedFloat (Sign)

section Rendering

variable {decimal : Number} {limit : Nat}

/-- A literal stands for a decimal with a sign, and not as an integer.  Up to a limit its significand
has more zeros than that of the decimal. -/
structure Stands (numeral : Numeral) (limit : Nat) (negative : Bool) (decimal : Number) : Prop where
  sign : numeral.negative = negative
  magnitude : numeral.magnitude = decimal.value
  notInteger : numeral.integer? = none
  short : numeral.significand = decimal.digits ∨ numeral.significand < limit

/-- A text that is a literal and stands for a decimal with a sign. -/
def Denotes (text : List Char) (limit : Nat) (negative : Bool) (decimal : Number) : Prop :=
  ∃ numeral, Numeral.read? text = some numeral ∧ Stands numeral limit negative decimal

/-- Digits around a point. -/
theorem denotes_point {whole fraction : List Char} (negative : Bool)
    (whole_digits : ∀ digit ∈ whole, digit.isDigit = true)
    (fraction_digits : ∀ digit ∈ fraction, digit.isDigit = true)
    (some_whole : whole ≠ []) (some_fraction : fraction ≠ [])
    (plain : whole = ['0'] ∨ ∀ digit ∈ whole.head?, digit ≠ '0')
    (value : (ofDigits ((whole ++ fraction).map digitValue) : ℚ) * 10 ^ (-(fraction.length : Int)) =
      decimal.value)
    (short : ofDigits ((whole ++ fraction).map digitValue) = decimal.digits ∨
      ofDigits ((whole ++ fraction).map digitValue) < limit) :
    Denotes (signText negative ++ (whole ++ '.' :: fraction)) limit negative decimal := by
  have read : readFraction? ('.' :: fraction) = some (some (fraction.map digitValue), none) := by
    have pointed := readFraction?_point fraction_digits some_fraction endsDigits_nil
    simpa [readExponent?] using pointed
  refine ⟨⟨negative, whole.map digitValue, some (fraction.map digitValue), none⟩,
    Numeral.read?_append negative whole_digits some_whole plain (by simp [EndsDigits]) read, rfl, ?_,
    rfl, ?_⟩
  · simpa [Numeral.magnitude, Numeral.significand, Numeral.scale] using value
  · simpa [Numeral.significand] using short

/-- An exponent is read from its text. -/
theorem readExponent?_exponentText (style : Style) (exponent : Int) :
    readExponent? ('e' :: (style.exponentText exponent).toList) = some (some exponent) := by
  unfold Style.exponentText
  split_ifs with below plus
  · have text : ("-" ++ exponent.natAbs.repr).toList = ['-'] ++ Nat.toDigits 10 exponent.natAbs := by
      simp
    have magnitude : -(exponent.natAbs : Int) = exponent := by omega
    change readExponent? ('e' :: ("-" ++ exponent.natAbs.repr).toList) = _
    rw [text]
    exact (readExponent?_mark (.inl ⟨rfl, rfl⟩)).trans (congrArg (some ∘ some) magnitude)
  · have text : ("+" ++ exponent.natAbs.repr).toList = ['+'] ++ Nat.toDigits 10 exponent.natAbs := by
      simp
    have magnitude : (exponent.natAbs : Int) = exponent := by omega
    change readExponent? ('e' :: ("+" ++ exponent.natAbs.repr).toList) = _
    rw [text]
    exact (readExponent?_mark (.inr ⟨.inl rfl, rfl⟩)).trans (congrArg (some ∘ some) magnitude)
  · have text : exponent.natAbs.repr.toList = [] ++ Nat.toDigits 10 exponent.natAbs := by
      simp
    have magnitude : (exponent.natAbs : Int) = exponent := by omega
    change readExponent? ('e' :: exponent.natAbs.repr.toList) = _
    rw [text]
    exact (readExponent?_mark (.inr ⟨.inr rfl, rfl⟩)).trans (congrArg (some ∘ some) magnitude)

/-- A digit, further digits behind a point if there are any, and an exponent. -/
theorem denotes_mark (style : Style) {digit : Char} {others : List Char} {exponent : Int} (negative : Bool)
    (all : ∀ char ∈ digit :: others, char.isDigit = true) (first : digit ≠ '0')
    (value : (ofDigits ((digit :: others).map digitValue) : ℚ) * 10 ^ (exponent - others.length) =
      decimal.value)
    (same : ofDigits ((digit :: others).map digitValue) = decimal.digits) :
    Denotes (signText negative ++
      (digit :: ((if others = [] then [] else '.' :: others) ++
        'e' :: (style.exponentText exponent).toList))) limit negative decimal := by
  have marked := readExponent?_exponentText style exponent
  have ends : EndsDigits ('e' :: (style.exponentText exponent).toList) := by simp [EndsDigits]
  obtain ⟨isDigit, all_others⟩ := List.forall_mem_cons.mp all
  have single : ∀ char ∈ [digit], char.isDigit = true := by simpa using isDigit
  by_cases none : others = []
  · subst none
    have read : readFraction? ('e' :: (style.exponentText exponent).toList) =
        some (none, some exponent) := by
      simp [readFraction?, marked]
    refine ⟨_, Numeral.read?_append negative single (by simp) (.inr (by simpa using first)) ends read,
      rfl, ?_, rfl, .inl ?_⟩
    · simpa [Numeral.magnitude, Numeral.significand, Numeral.scale] using value
    · simpa [Numeral.significand] using same
  · have read := readFraction?_point all_others none ends
    rw [marked, Option.map_some] at read
    rw [if_neg none]
    refine ⟨_, Numeral.read?_append negative single (by simp) (.inr (by simpa using first))
      (by simp [EndsDigits]) read, rfl, ?_, rfl, .inl ?_⟩
    · simpa [Numeral.magnitude, Numeral.significand, Numeral.scale] using value
    · simpa [Numeral.significand] using same

section Layouts

variable (positive : 0 < decimal.digits) (negative : Bool)

/-- Zeros stand between the point and the digits. -/
theorem denotes_leading_zeros {zeros : Nat}
    (places : (zeros + (Nat.toDigits 10 decimal.digits).length : Nat) = -decimal.exponent) :
    Denotes (signText negative ++
      (['0'] ++ '.' :: (List.replicate zeros '0' ++ Nat.toDigits 10 decimal.digits))) limit negative
      decimal := by
  have digits : ∀ digit ∈ List.replicate zeros '0' ++ Nat.toDigits 10 decimal.digits,
      digit.isDigit = true := by
    intro digit mem
    rcases List.mem_append.mp mem with zero | own
    · obtain rfl := List.eq_of_mem_replicate zero
      decide
    · exact isDigit_toDigits _ digit own
  have value : ofDigits ((['0'] ++ (List.replicate zeros '0' ++
      Nat.toDigits 10 decimal.digits)).map digitValue) = decimal.digits := by
    simp only [List.map_append, ofDigits_append, ofDigits_toDigits, List.map_replicate]
    simp
  apply denotes_point negative (by simp) digits (by simp) (by simp [Nat.toDigits_ne_nil]) (.inl rfl) ?_
    (.inl value)
  rw [value, Number.value, List.length_append, List.length_replicate, places, Int.neg_neg]

include positive

/-- Zeros stand between the digits and the point. -/
theorem denotes_trailing_zeros (whole : 0 ≤ decimal.exponent)
    (short : decimal.digits * 10 ^ decimal.exponent.toNat * 10 < limit) :
    Denotes (signText negative ++
      (Nat.toDigits 10 decimal.digits ++ List.replicate decimal.exponent.toNat '0' ++ ['.', '0']))
      limit negative decimal := by
  have digits : ∀ digit ∈ Nat.toDigits 10 decimal.digits ++
      List.replicate decimal.exponent.toNat '0', digit.isDigit = true := by
    intro digit mem
    rcases List.mem_append.mp mem with own | zero
    · exact isDigit_toDigits _ digit own
    · obtain rfl := List.eq_of_mem_replicate zero
      decide
  have first : ∀ digit ∈ (Nat.toDigits 10 decimal.digits ++
      List.replicate decimal.exponent.toNat '0').head?, digit ≠ '0' := by
    rw [List.head?_append_of_ne_nil _ Nat.toDigits_ne_nil]
    exact head_toDigits positive
  have zero : ∀ digit ∈ ['0'], digit.isDigit = true := by simp
  have value : ofDigits ((Nat.toDigits 10 decimal.digits ++
      List.replicate decimal.exponent.toNat '0' ++ ['0']).map digitValue) =
        decimal.digits * 10 ^ decimal.exponent.toNat * 10 := by
    simp only [List.map_append, ofDigits_append, ofDigits_toDigits, List.map_replicate]
    simp
  have power : (10 : ℚ) ^ decimal.exponent = 10 ^ decimal.exponent.toNat := by
    rw [← zpow_natCast, Int.toNat_of_nonneg whole]
  apply denotes_point negative digits zero (by simp [Nat.toDigits_ne_nil]) (by simp) (.inr first) ?_
    (.inr (value ▸ short))
  rw [value, Number.value, power]
  simp

/-- The point stands between digits. -/
theorem denotes_split {place : Nat} (after : 0 < place)
    (before : place < (Nat.toDigits 10 decimal.digits).length)
    (exponent : decimal.exponent = place - (Nat.toDigits 10 decimal.digits).length) :
    Denotes (signText negative ++ ((Nat.toDigits 10 decimal.digits).take place ++
      '.' :: (Nat.toDigits 10 decimal.digits).drop place)) limit negative decimal := by
  have all := isDigit_toDigits decimal.digits
  apply denotes_point negative (fun digit mem => all digit (List.mem_of_mem_take mem))
    (fun digit mem => all digit (List.mem_of_mem_drop mem))
    (by simp [Nat.toDigits_ne_nil, after.ne']) (by simp [before])
  · rw [List.head?_take, if_neg after.ne']
    exact .inr (head_toDigits positive)
  · have places : -(((Nat.toDigits 10 decimal.digits).drop place).length : Int) =
        decimal.exponent := by
      rw [List.length_drop, exponent]
      omega
    rw [List.take_append_drop, ofDigits_toDigits, places, Number.value]
  · rw [List.take_append_drop, ofDigits_toDigits]
    exact .inl rfl

/-- The text of a positive decimal is a literal in every style, and stands for the decimal. -/
theorem denotes_render (style : Style) :
    Denotes (signText negative ++ (style.render decimal).toList) (10 ^ (style.positionalTo + 2).toNat)
      negative decimal := by
  have some_digit := Nat.toDigits_ne_nil (n := decimal.digits) (b := 10)
  have some_length := Nat.length_toDigits_pos (n := decimal.digits) (b := 10)
  unfold Style.render
  extract_lets digits leading zeros trailing whole significand
  have first_place : leading = decimal.exponent + (digits.length - 1 : Nat) := rfl
  change digits ≠ [] at some_digit
  change 0 < digits.length at some_length
  split_ifs with positional small whole_number
  · rw [String.toList_ofList]
    apply denotes_leading_zeros
    change (((-leading - 1).toNat + digits.length : Nat) : Int) = _
    omega
  · rw [String.toList_ofList]
    apply denotes_trailing_zeros positive negative whole_number
    have size : decimal.digits < 10 ^ digits.length :=
      (Nat.length_toDigits_le_iff (by decide) some_length).mp le_rfl
    calc decimal.digits * 10 ^ decimal.exponent.toNat * 10
        < 10 ^ digits.length * 10 ^ decimal.exponent.toNat * 10 := by gcongr
      _ = 10 ^ (digits.length + decimal.exponent.toNat + 1) := by rw [← pow_add, ← pow_succ]
      _ ≤ 10 ^ (style.positionalTo + 2).toNat := Nat.pow_le_pow_right (by decide) (by omega)
  · have place : (whole : Int) = leading + 1 := Int.toNat_of_nonneg (by omega)
    rw [String.toList_ofList]
    apply denotes_split positive negative
    · omega
    · change whole < digits.length
      omega
    · change _ = (whole : Int) - digits.length
      omega
  · obtain ⟨digit, others, split⟩ := List.exists_cons_of_ne_nil some_digit
    have text : significand = digit :: if others = [] then [] else '.' :: others := by
      simp only [significand, split]
      cases others <;> rfl
    have stands : ofDigits ((digit :: others).map digitValue) = decimal.digits := by
      rw [← split]
      exact ofDigits_toDigits decimal.digits
    have value : (ofDigits ((digit :: others).map digitValue) : ℚ) * 10 ^ (leading - others.length) =
        decimal.value := by
      rw [stands, first_place, split, List.length_cons, Nat.add_sub_cancel, add_sub_cancel_right,
        Number.value]
    have all : ∀ char ∈ digit :: others, char.isDigit = true :=
      split ▸ isDigit_toDigits decimal.digits
    have first : ∀ char ∈ digits.head?, char ≠ '0' := head_toDigits positive
    rw [split, List.head?_cons] at first
    rw [String.toList_append, String.toList_append, String.toList_ofList, text]
    simpa using denotes_mark style negative all (first digit rfl) value stands

end Layouts

/-- The text of a positive float is the text of its shortest decimal. -/
theorem denotes_unpackedText (style : Style) {format : Format} {sign : Sign} {mantissa : Nat}
    {exponent : Int} (positive : 0 < mantissa) :
    Denotes (style.unpackedText format (.finite sign mantissa exponent positive)).toList
      (10 ^ (style.positionalTo + 2).toNat) (sign == .negative)
      (shortest style.tie format mantissa exponent) := by
  have shortest : 0 < (shortest style.tie format mantissa exponent).digits :=
    shortest_pos style.tie positive
  cases sign with
  | positive => exact denotes_render shortest false style
  | negative =>
      rw [Style.unpackedText, String.toList_append]
      exact denotes_render shortest true style

theorem exists_read?_unpackedText (style : Style) {format : Format} {unpacked : UnpackedFloat}
    (finite : unpacked.isFinite = true) :
    ∃ numeral, Numeral.read? (style.unpackedText format unpacked).toList = some numeral := by
  cases unpacked with
  | infinity => simp [UnpackedFloat.isFinite] at finite
  | notANumber => simp [UnpackedFloat.isFinite] at finite
  | zero sign =>
      cases sign
      · exact Option.isSome_iff_exists.mp (by decide : (Numeral.read? "-0.0".toList).isSome)
      · exact Option.isSome_iff_exists.mp (by decide : (Numeral.read? "0.0".toList).isSome)
  | finite sign mantissa exponent positive =>
      obtain ⟨numeral, read, -⟩ := denotes_unpackedText style positive
      exact ⟨numeral, read⟩

end Rendering

end Decimal

namespace Json

open Decimal (exists_read?_unpackedText)

/-- The literal of an integer. -/
def Numeral.ofInt (value : Int) : Numeral :=
  ⟨decide (value < 0), (Nat.toDigits 10 value.natAbs).map digitValue, none, none⟩

/-- The text of an integer is a literal. -/
theorem read?_toString (value : Int) :
    Numeral.read? (toString value).toList = some (.ofInt value) := by
  have plain : Nat.toDigits 10 value.natAbs = ['0'] ∨
      ∀ digit ∈ (Nat.toDigits 10 value.natAbs).head?, digit ≠ '0' := by
    rcases Nat.eq_zero_or_pos value.natAbs with zero | positive
    · exact .inl (by rw [zero, Nat.toDigits_zero])
    · exact .inr (head_toDigits positive)
  have text : (toString value).toList =
      signText (decide (value < 0)) ++ (Nat.toDigits 10 value.natAbs ++ []) := by
    rw [Int.toString_eq_repr]
    cases value with
    | ofNat value => simp [Int.repr, signText]
    | negSucc value => simp [Int.repr, signText]
  rw [text]
  exact Numeral.read?_append _ (isDigit_toDigits _) Nat.toDigits_ne_nil plain endsDigits_nil rfl

/-- An integer of at most 64 bits is read as itself. -/
theorem Numeral.value?_ofInt {value : Int} (low : -2 ^ 63 ≤ value) (high : value < 2 ^ 64) :
    (Numeral.ofInt value).value? = some (.integer value) := by
  have integer : (Numeral.ofInt value).integer? = some value := by
    simp only [Numeral.integer?, Numeral.ofInt, ofDigits_toDigits, decide_eq_true_eq]
    have signed : Nat.pow 2 63 = 2 ^ 63 := rfl
    have unsigned : Nat.pow 2 64 = 2 ^ 64 := rfl
    split_ifs with negative fits fits
    · exact congrArg some (by omega)
    · exact absurd (by omega) fits
    · exact congrArg some (by omega)
    · exact absurd (by omega) fits
  rw [Numeral.value?, integer]

/-- The text of a number is a literal, or null for an infinite or undefined float. -/
theorem Number.exists_read?_text (number : Number) :
    (∃ numeral, Numeral.read? number.text.toList = some numeral) ∨ number.text = "null" := by
  cases number with
  | integer value => exact .inl ⟨_, read?_toString value⟩
  | double value =>
      rw [Number.text]
      split_ifs with finite
      · exact .inl (exists_read?_unpackedText _ finite)
      · exact .inr rfl
  | single value =>
      rw [Number.text]
      split_ifs with finite
      · exact .inl (exists_read?_unpackedText _ finite)
      · exact .inr rfl

end Json

end Dataflow
