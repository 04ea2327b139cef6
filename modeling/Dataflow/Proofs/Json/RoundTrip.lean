import Dataflow.Json.Reader
import Dataflow.Proofs.Json.Tokens

/-!
# Reading what was written

Both layouts of a tree are cut into the same tokens, and reading these gives the tree back with
every number replaced by the one that its text is read as.  So what a text loses, it loses in its
numbers.
-/

namespace Dataflow.Json

/-! ## Trees -/

/-- A property of all trees, from the parts of a tree to the tree. -/
@[elab_as_elim]
theorem induct {motive : Json → Prop} (null : motive .null) (bool : ∀ value, motive (.bool value))
    (number : ∀ value, motive (.number value)) (string : ∀ value, motive (.string value))
    (array : ∀ items, (∀ item ∈ items, motive item) → motive (.array items))
    (object : ∀ members, (∀ member ∈ members, motive member.2) → motive (.object members))
    (malformed : motive .malformed) : ∀ json, motive json
  | .null => null
  | .bool value => bool value
  | .number value => number value
  | .string value => string value
  | .array items => array items fun item _ =>
      induct null bool number string array object malformed item
  | .object members => object members fun member _ =>
      induct null bool number string array object malformed member.2
  | .malformed => malformed
termination_by json => sizeOf json
decreasing_by
  · decreasing_trivial
  · rename_i mem
    have part := List.sizeOf_lt_of_mem mem
    have second : sizeOf member.2 < sizeOf member := by
      cases member
      simp
    simp
    omega

/-- What the text of a number is read as. -/
def Number.reread (number : Number) : Json :=
  match Numeral.read? number.text.toList with
  | some numeral => (numeral.value?.map Json.number).getD .malformed
  | none => .null

mutual

/-- The tree with every number replaced by what its text is read as. -/
def reread : Json → Json
  | null => null
  | bool value => bool value
  | number value => value.reread
  | string value => string value
  | array items => array (rereadItems items)
  | object members => object (rereadMembers members)
  | malformed => null

/-- The items of an array with their numbers replaced. -/
def rereadItems : List Json → List Json
  | [] => []
  | item :: rest => reread item :: rereadItems rest

/-- The members of an object with their numbers replaced. -/
def rereadMembers : List (String × Json) → List (String × Json)
  | [] => []
  | (key, value) :: rest => (key, reread value) :: rereadMembers rest

end

mutual

/-- Number of arrays and objects around each other. -/
def depth : Json → Nat
  | array items => depthItems items + 1
  | object members => depthMembers members + 1
  | _ => 0

/-- The greatest depth of an item. -/
def depthItems : List Json → Nat
  | [] => 0
  | item :: rest => max (depth item) (depthItems rest)

/-- The greatest depth of a member. -/
def depthMembers : List (String × Json) → Nat
  | [] => 0
  | (_, value) :: rest => max (depth value) (depthMembers rest)

end

mutual

/-- The tokens of a tree. -/
def tokens : Json → List Token
  | null => [.null]
  | bool value => [.bool value]
  | number value =>
      match Numeral.read? value.text.toList with
      | some numeral => [.number numeral.value?]
      | none => [.null]
  | string value => [.string (some value)]
  | array items => .openArray :: ([Token.comma].intercalate (tokensItems items) ++ [.closeArray])
  | object members =>
      .openObject :: ([Token.comma].intercalate (tokensMembers members) ++ [.closeObject])
  | malformed => [.null]

/-- The tokens of the items of an array. -/
def tokensItems : List Json → List (List Token)
  | [] => []
  | item :: rest => tokens item :: tokensItems rest

/-- The tokens of the members of an object. -/
def tokensMembers : List (String × Json) → List (List Token)
  | [] => []
  | (key, value) :: rest => (.string (some key) :: .colon :: tokens value) :: tokensMembers rest

end

theorem rereadItems_eq_map (items : List Json) : rereadItems items = items.map reread := by
  induction items with
  | nil => rfl
  | cons item rest ih => simp [rereadItems, ih]

theorem rereadMembers_eq_map (members : List (String × Json)) :
    rereadMembers members = members.map fun member => (member.1, member.2.reread) := by
  induction members with
  | nil => rfl
  | cons member rest ih => simp [rereadMembers, ih]

theorem depth_lt_of_mem_items {items : List Json} {item : Json} (mem : item ∈ items) :
    item.depth < (array items).depth := by
  suffices item.depth ≤ depthItems items by simpa [depth] using Nat.lt_succ_of_le this
  induction items with
  | nil => simp at mem
  | cons first rest ih =>
      rcases List.mem_cons.mp mem with rfl | later
      · exact Nat.le_max_left _ _
      · exact (ih later).trans (Nat.le_max_right _ _)

theorem depth_lt_of_mem_members {members : List (String × Json)} {member : String × Json}
    (mem : member ∈ members) : member.2.depth < (object members).depth := by
  suffices member.2.depth ≤ depthMembers members by simpa [depth] using Nat.lt_succ_of_le this
  induction members with
  | nil => simp at mem
  | cons first rest ih =>
      rcases List.mem_cons.mp mem with rfl | later
      · exact Nat.le_max_left _ _
      · exact (ih later).trans (Nat.le_max_right _ _)

/-! ## Layouts -/

section Layouts

variable {texts : List (List Char)} {pieces : List (List Token)} {separator : List Char}

/-- Texts between separators spell the tokens between commas. -/
theorem spells_intercalate (separates : Spells Anything separator [.comma])
    (parted : ∀ rest, Parted (separator ++ rest)) (each : List.Forall₂ (Spells Parted) texts pieces) :
    Spells Parted (separator.intercalate texts) ([Token.comma].intercalate pieces) := by
  induction each with
  | nil => exact Spells.nil.mono
  | cons first rest ih =>
      cases rest with
      | nil => simpa using first
      | cons second others =>
          rw [List.intercalate_cons_cons, List.intercalate_cons_cons]
          exact (first.append separates fun rest _ => parted rest).append ih fun _ _ => trivial

theorem spells_blanks (count : Nat) : Spells Anything (List.replicate count ' ') [] := by
  induction count with
  | zero => exact Spells.nil
  | succ count ih =>
      exact (Spells.single ' ' rfl).append ih fun _ _ => trivial

/-- A line break is nothing but space. -/
theorem spells_lineBreak (depth : Nat) : Spells Anything (lineBreak depth).toList [] := by
  rw [lineBreak, String.toList_ofList]
  exact (Spells.single '\n' rfl).append (spells_blanks _) fun _ _ => trivial

theorem parted_lineBreak (depth : Nat) (rest : List Char) :
    Parted ((lineBreak depth).toList ++ rest) := by
  simp [Parted, lineBreak, isNumberChar]

/-- Brackets with parts between them, one on each line. -/
theorem spells_block {opening closing : String} {first last : Token} (depth : Nat)
    {parts : List String} (opens : Spells Anything opening.toList [first])
    (closes : Spells Anything closing.toList [last])
    (each : List.Forall₂ (Spells Parted) (parts.map String.toList) pieces) :
    Spells Anything (block opening closing depth parts).toList
      (first :: ([Token.comma].intercalate pieces ++ [last])) := by
  unfold block
  split
  · rename_i empty
    obtain rfl := List.isEmpty_iff.mp empty
    cases each
    rw [String.toList_append]
    exact opens.append closes fun _ _ => trivial
  · have break_before := spells_lineBreak (depth + 1)
    have separates : Spells Anything ("," ++ lineBreak (depth + 1)).toList [.comma] := by
      rw [String.toList_append]
      exact (Spells.single ',' rfl).append break_before fun _ _ => trivial
    have between := spells_intercalate separates (fun rest => by simp [Parted, isNumberChar]) each
    have inside := (opens.append break_before fun _ _ => trivial).append between fun _ _ => trivial
    have broken := inside.append (spells_lineBreak depth) fun rest _ => parted_lineBreak depth rest
    have whole := broken.append closes fun _ _ => trivial
    simpa [String.toList_append, String.toList_intercalate] using whole

/-- Brackets with parts between them, all on one line. -/
theorem spells_enclosed {opening closing : String} {first last : Token} {parts : List String}
    (opens : Spells Anything opening.toList [first])
    (closes : Spells Anything closing.toList [last])
    (parted : ∀ rest, Parted (closing.toList ++ rest))
    (each : List.Forall₂ (Spells Parted) (parts.map String.toList) pieces) :
    Spells Anything (opening ++ ",".intercalate parts ++ closing).toList
      (first :: ([Token.comma].intercalate pieces ++ [last])) := by
  have comma : Spells Anything ",".toList [.comma] := Spells.single _ rfl
  have between := spells_intercalate comma (fun rest => by simp [Parted, isNumberChar]) each
  have inside := opens.append between fun _ _ => trivial
  have whole := inside.append closes fun rest _ => parted rest
  simpa [String.toList_append, String.toList_intercalate] using whole

theorem spells_openArray : Spells Anything "[".toList [.openArray] :=
  Spells.single _ rfl

theorem spells_closeArray : Spells Anything "]".toList [.closeArray] :=
  Spells.single _ rfl

theorem spells_openObject : Spells Anything "\x7b".toList [.openObject] :=
  Spells.single _ rfl

theorem spells_closeObject : Spells Anything "\x7d".toList [.closeObject] :=
  Spells.single _ rfl

theorem spells_number (number : Number) :
    Spells Parted number.text.toList (tokens (.number number)) := by
  rcases number.exists_read?_text with ⟨numeral, read⟩ | null
  · simp only [tokens, read]
    exact spells_numeral read
  · have read : Numeral.read? "null".toList = none := by decide
    simp only [tokens, null, read]
    exact spells_null

/-- A key and a value with a colon between them. -/
theorem spells_member {colon text : String} {tokens : List Token} (key : String)
    (marks : Spells Anything colon.toList [.colon]) (value : Spells Parted text.toList tokens) :
    Spells Parted (quoted key ++ colon ++ text).toList (.string (some key) :: .colon :: tokens) := by
  have marked := (spells_quoted key).append marks fun _ _ => trivial
  simpa [String.toList_append] using marked.append value fun _ _ => trivial

/-- The pretty text of a tree spells its tokens. -/
theorem spells_pretty (json : Json) :
    ∀ depth, Spells Parted (prettyAt depth json).toList json.tokens := by
  induction json using Json.induct with
  | null => exact fun _ => spells_null
  | bool value => exact fun _ => spells_bool value
  | number value => exact fun _ => spells_number value
  | string value => exact fun _ => (spells_quoted value).mono
  | malformed => exact fun _ => spells_null
  | array items each =>
      intro depth
      have parts : List.Forall₂ (Spells Parted) ((prettyItems (depth + 1) items).map String.toList)
          (tokensItems items) := by
        induction items with
        | nil => exact .nil
        | cons item rest ih =>
            obtain ⟨own, others⟩ := List.forall_mem_cons.mp each
            exact .cons (own _) (ih others)
      exact (spells_block depth spells_openArray spells_closeArray parts).mono
  | object members each =>
      intro depth
      have colon : Spells Anything ": ".toList [.colon] :=
        (Spells.single ':' rfl).append (spells_blanks 1) fun _ _ => trivial
      have parts : List.Forall₂ (Spells Parted)
          ((prettyMembers (depth + 1) members).map String.toList) (tokensMembers members) := by
        induction members with
        | nil => exact .nil
        | cons member rest ih =>
            obtain ⟨own, others⟩ := List.forall_mem_cons.mp each
            exact .cons (spells_member member.1 colon (own _)) (ih others)
      exact (spells_block depth spells_openObject spells_closeObject parts).mono

/-- The compact text of a tree spells its tokens. -/
theorem spells_compact (json : Json) : Spells Parted json.compact.toList json.tokens := by
  induction json using Json.induct with
  | null => exact spells_null
  | bool value => exact spells_bool value
  | number value => exact spells_number value
  | string value => exact (spells_quoted value).mono
  | malformed => exact spells_null
  | array items each =>
      have parts : List.Forall₂ (Spells Parted) ((compactItems items).map String.toList)
          (tokensItems items) := by
        induction items with
        | nil => exact .nil
        | cons item rest ih =>
            obtain ⟨own, others⟩ := List.forall_mem_cons.mp each
            exact .cons own (ih others)
      have parted : ∀ rest, Parted ("]".toList ++ rest) := by simp [Parted, isNumberChar]
      exact (spells_enclosed spells_openArray spells_closeArray parted parts).mono
  | object members each =>
      have colon : Spells Anything ":".toList [.colon] := Spells.single _ rfl
      have parts : List.Forall₂ (Spells Parted) ((compactMembers members).map String.toList)
          (tokensMembers members) := by
        induction members with
        | nil => exact .nil
        | cons member rest ih =>
            obtain ⟨own, others⟩ := List.forall_mem_cons.mp each
            exact .cons (spells_member member.1 colon own) (ih others)
      have parted : ∀ rest, Parted ("\x7d".toList ++ rest) := by simp [Parted, isNumberChar]
      exact (spells_enclosed spells_openObject spells_closeObject parted parts).mono

end Layouts

/-! ## The reader -/

section Reader

open ReaderState

variable {frames : List Frame}

/-- No value starts with a bracket that closes an array. -/
theorem exists_cons_tokens (json : Json) :
    ∃ first rest, json.tokens = first :: rest ∧ first ≠ .closeArray := by
  cases json with
  | number value =>
      simp only [tokens]
      split
      · exact ⟨_, _, rfl, nofun⟩
      · exact ⟨_, _, rfl, nofun⟩
  | _ => exact ⟨_, _, rfl, nofun⟩

theorem exists_cons_items (item : Json) (rest : List Json) :
    ∃ first others, [Token.comma].intercalate (tokensItems (item :: rest)) = first :: others ∧
      first ≠ .closeArray := by
  obtain ⟨first, others, starts, opens⟩ := item.exists_cons_tokens
  cases rest with
  | nil => exact ⟨first, others, by simp [tokensItems, starts], opens⟩
  | cons second rest =>
      simp only [tokensItems, List.intercalate_cons_cons, starts, List.cons_append]
      exact ⟨first, _, rfl, opens⟩

theorem exists_cons_members (member : String × Json) (rest : List (String × Json)) :
    ∃ others, [Token.comma].intercalate (tokensMembers (member :: rest)) =
      .string (some member.1) :: others := by
  cases rest with
  | nil => exact ⟨_, List.intercalate_singleton⟩
  | cons second rest =>
      simp only [tokensMembers, List.intercalate_cons_cons, List.cons_append]
      exact ⟨_, rfl⟩

/-- At the start of an array a value is read like anywhere else. -/
theorem foldlM_valueOrClose {first : Token} {rest : List Token} (opens : first ≠ .closeArray) :
    (first :: rest).foldlM step? ⟨frames, .valueOrClose⟩ =
      (first :: rest).foldlM step? ⟨frames, .value⟩ := by
  have same : step? ⟨frames, .valueOrClose⟩ first = step? ⟨frames, .value⟩ first := by
    cases first <;> first | exact absurd rfl opens | rfl
  rw [List.foldlM_cons, List.foldlM_cons, same]

/-- At the start of an object a key is read like anywhere else. -/
theorem foldlM_keyOrClose (key : Option String) (rest : List Token) :
    (.string key :: rest).foldlM step? ⟨frames, .keyOrClose⟩ =
      (.string key :: rest).foldlM step? ⟨frames, .key⟩ :=
  rfl

/-- Reading the tokens of a tree, inside of some arrays and objects, completes a value. -/
def Completes (json : Json) : Prop :=
  ∀ frames : List Frame, frames.length + json.depth ≤ depthLimit →
    json.tokens.foldlM step? ⟨frames, .value⟩ = some (complete frames json.reread)

/-- Items between commas are put on the innermost array.  The induction is on the items that are
left; those before are on the array already. -/
theorem foldlM_items (before : List Json) (outer : List Frame) {item : Json} {rest : List Json}
    (each : ∀ part ∈ item :: rest, Completes part)
    (shallow : ∀ part ∈ item :: rest, outer.length + 1 + part.depth ≤ depthLimit) :
    ([Token.comma].intercalate (tokensItems (item :: rest))).foldlM step?
        ⟨.array before :: outer, .value⟩ =
      some ⟨.array (((item :: rest).map reread).reverse ++ before) :: outer, .commaOrClose⟩ := by
  induction rest generalizing item before with
  | nil =>
      have first := each item (by simp) (.array before :: outer) (shallow item (by simp))
      simpa [tokensItems, complete] using first
  | cons second rest ih =>
      have first := each item (by simp) (.array before :: outer) (shallow item (by simp))
      have next := ih (item.reread :: before) (List.forall_mem_cons.mp each).2
        (List.forall_mem_cons.mp shallow).2
      have comma : step? (complete (.array before :: outer) item.reread) .comma =
          some ⟨.array (item.reread :: before) :: outer, .value⟩ := rfl
      simp only [tokensItems] at next ⊢
      rw [List.intercalate_cons_cons, List.append_assoc, List.foldlM_append, first]
      simp only [Option.bind_eq_bind, Option.bind_some, List.singleton_append, List.foldlM_cons,
        comma, next]
      simp

/-- Members between commas are put on the innermost object, by the same induction. -/
theorem foldlM_members (fields : List (String × Json)) (outer : List Frame) {member : String × Json}
    {rest : List (String × Json)}
    (each : ∀ part ∈ member :: rest, Completes part.2)
    (shallow : ∀ part ∈ member :: rest, outer.length + 1 + part.2.depth ≤ depthLimit) :
    ([Token.comma].intercalate (tokensMembers (member :: rest))).foldlM step?
        ⟨.object fields true none :: outer, .key⟩ =
      some ⟨.object (((member :: rest).map fun part => (part.1, part.2.reread)).reverse ++ fields)
        true none :: outer, .commaOrClose⟩ := by
  have named : ∀ (key : String) (fields : List (String × Json)) (others : List Token),
      (.string (some key) :: .colon :: others).foldlM step?
          ⟨.object fields true none :: outer, .key⟩ =
        others.foldlM step? ⟨.object fields true (some key) :: outer, .value⟩ :=
    fun _ _ _ => rfl
  induction rest generalizing member fields with
  | nil =>
      have first := each member (by simp) (.object fields true (some member.1) :: outer)
        (shallow member (by simp))
      simpa [tokensMembers, named, complete] using first
  | cons second rest ih =>
      have first := each member (by simp) (.object fields true (some member.1) :: outer)
        (shallow member (by simp))
      have next := ih ((member.1, member.2.reread) :: fields)
        (List.forall_mem_cons.mp each).2 (List.forall_mem_cons.mp shallow).2
      have comma : step? (complete (.object fields true (some member.1) :: outer) member.2.reread)
          .comma = some ⟨.object ((member.1, member.2.reread) :: fields) true none :: outer, .key⟩ :=
        rfl
      simp only [tokensMembers] at next ⊢
      rw [List.intercalate_cons_cons, List.append_assoc, List.cons_append, List.cons_append, named,
        List.foldlM_append, first]
      simp only [Option.bind_eq_bind, Option.bind_some, List.singleton_append, List.foldlM_cons,
        comma, next]
      simp

/-- Reading the tokens of a tree completes the value that the tree stands for. -/
theorem completes (json : Json) : Completes json := by
  induction json using Json.induct with
  | null => exact fun _ _ => rfl
  | bool value => exact fun _ _ => rfl
  | string value => exact fun _ _ => rfl
  | malformed => exact fun _ _ => rfl
  | number value =>
      intro frames _
      cases read : Numeral.read? value.text.toList with
      | none => simp only [tokens, reread, Number.reread, read]; rfl
      | some numeral =>
          simp only [tokens, reread, Number.reread, read]
          generalize numeral.value? = found
          cases found <;> rfl
  | array items each =>
      intro frames shallow
      simp only [depth] at shallow
      have fits : frames.length < depthLimit := by omega
      cases items with
      | nil => simp [tokens, tokensItems, step?, value?, close?, closed, fits, reread, rereadItems]
      | cons item rest =>
          have read := foldlM_items [] frames each fun part mem => by
            have inner := depth_lt_of_mem_items mem
            simp only [depth] at inner
            omega
          obtain ⟨first, others, starts, opens⟩ := exists_cons_items item rest
          have close : step? ⟨.array ((item :: rest).map reread).reverse :: frames, .commaOrClose⟩
              .closeArray = some (complete frames (.array ((item :: rest).map reread))) := by
            simp [step?, close?, closed, fits]
          rw [tokens, List.foldlM_cons]
          change List.foldlM step? ⟨.array [] :: frames, .valueOrClose⟩ _ = _
          rw [starts, List.cons_append, foldlM_valueOrClose opens, ← List.cons_append, ← starts,
            List.foldlM_append, read, List.append_nil]
          simp only [Option.bind_eq_bind, Option.bind_some, List.foldlM_cons, close]
          simp [reread, rereadItems_eq_map]
  | object members each =>
      intro frames shallow
      simp only [depth] at shallow
      have fits : frames.length < depthLimit := by omega
      cases members with
      | nil => simp [tokens, tokensMembers, step?, value?, close?, closed, fits, reread, rereadMembers]
      | cons member rest =>
          have read := foldlM_members [] frames each fun part mem => by
            have inner := depth_lt_of_mem_members mem
            simp only [depth] at inner
            omega
          let read_members := (member :: rest).map fun part => (part.1, part.2.reread)
          have close : step? ⟨.object read_members.reverse true none :: frames, .commaOrClose⟩
              .closeObject = some (complete frames (.object read_members)) := by
            simp [step?, close?, closed, fits]
          rw [tokens, List.foldlM_cons]
          change List.foldlM step? ⟨.object [] true none :: frames, .keyOrClose⟩ _ = _
          obtain ⟨others, starts⟩ := exists_cons_members member rest
          rw [starts, List.cons_append, foldlM_keyOrClose, ← List.cons_append, ← starts,
            List.foldlM_append, read, List.append_nil]
          simp only [Option.bind_eq_bind, Option.bind_some, List.foldlM_cons]
          change (step? ⟨.object read_members.reverse true none :: frames, .commaOrClose⟩
            .closeObject >>= _) = _
          rw [close]
          simp [read_members, reread, rereadMembers_eq_map]

theorem ofTokens?_tokens {json : Json} (shallow : json.depth ≤ depthLimit) :
    ofTokens? json.tokens = some json.reread := by
  have read := completes json [] (by simpa using shallow)
  rw [ofTokens?, ReaderState.start, read]
  rfl

end Reader

/-! ## Texts -/

variable {json : Json} {text : String} {pieces : List Token}

theorem tokens?_of_spells (spells : Spells Parted text.toList pieces) :
    tokens? text = some pieces := by
  have cut := spells [] [] (by simp [Parted])
  rw [List.append_nil] at cut
  rw [tokens?, cut]
  simp [tokensFrom?, LexState.close?]

/-- The pretty text of a tree is read as the tree with its numbers reread. -/
theorem read?_pretty (shallow : json.depth ≤ depthLimit) : read? json.pretty = some json.reread := by
  rw [read?, pretty, tokens?_of_spells (spells_pretty json 0), Option.bind_some,
    ofTokens?_tokens shallow]

/-- The compact text of a tree is read like the pretty one. -/
theorem read?_compact (shallow : json.depth ≤ depthLimit) :
    read? json.compact = some json.reread := by
  rw [read?, tokens?_of_spells (spells_compact json), Option.bind_some, ofTokens?_tokens shallow]

end Dataflow.Json
