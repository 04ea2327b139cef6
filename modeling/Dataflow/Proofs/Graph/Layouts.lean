import Dataflow.Graph.JsonForm
import Dataflow.Proofs.Archive.Fields
import Dataflow.Proofs.Graph.Sound
import Mathlib.Algebra.Order.BigOperators.Group.List

/-!
# Memory layouts

A layout is consistent when its padding has the rank of its active shape: then the extent has that
rank too, each of its dimensions is an active one with the padding on both sides, and the memory has
room for the active elements.  When the ranks differ, the extent loses the dimensions that one of the
two shapes does not have.  The builders of layouts compare the ranks, and so all ports of nodes have
consistent layouts.  The reader of the JSON form compares nothing: it makes every layout whose
dimensions are words, also those that the builders refuse.
-/

namespace Dataflow

/-! ## Counting elements -/

namespace Shape

theorem elementCount_of_ne_nil {shape : Shape} (ranked : shape.dims ≠ []) :
    shape.elementCount = shape.dims.prod := by
  rw [elementCount, List.prod_eq_foldl]
  cases dims : shape.dims with
  | nil => exact absurd dims ranked
  | cons size rest => rfl

/-- A shape with larger dimensions has more elements. -/
theorem elementCount_le {small large : Shape} (below : List.Forall₂ (· ≤ ·) small.dims large.dims) :
    small.elementCount ≤ large.elementCount := by
  by_cases empty : small.dims = []
  · simp [elementCount, empty]
  · have ranked : large.dims ≠ [] := by
      intro none
      rw [none] at below
      exact empty (List.forall₂_nil_right_iff.mp below)
    rw [elementCount_of_ne_nil empty, elementCount_of_ne_nil ranked]
    exact below.prod_le_prod'

end Shape

/-! ## Layouts that fit together -/

namespace MemoryLayout

/-- The padding and the extent of a layout have the rank of its active shape, every dimension of the
extent is an active one with the padding on both sides, and there is memory for all active elements,
but for no more of them when nothing is padded. -/
structure Consistent (layout : MemoryLayout) : Prop where
  padding_rank : layout.padding.rank = layout.active.rank
  extent_rank : layout.extent.rank = layout.active.rank
  padded : ∀ index size pad : Nat, layout.active.dims[index]? = some size →
    layout.padding.dims[index]? = some pad → layout.extent.dims[index]? = some (size + 2 * pad)
  room : layout.activeSize ≤ layout.memorySize
  tight : (∀ pad ∈ layout.padding.dims, pad = 0) → layout.memorySize = layout.activeSize

section Ranks

variable {layout : MemoryLayout} {active padding : Shape}

/-- The extent has the dimensions that both shapes have. -/
theorem rank_extent (layout : MemoryLayout) :
    layout.extent.rank = min layout.active.rank layout.padding.rank := by
  simp [extent, Shape.rank]

theorem getElem?_extent {index size pad : Nat} (active : layout.active.dims[index]? = some size)
    (padding : layout.padding.dims[index]? = some pad) :
    layout.extent.dims[index]? = some (size + 2 * pad) := by
  simp [extent, List.getElem?_zipWith, active, padding]

theorem active_le_extent (ranks : layout.padding.rank = layout.active.rank) :
    List.Forall₂ (· ≤ ·) layout.active.dims layout.extent.dims := by
  refine List.forall₂_iff_get.mpr ⟨?_, fun index below inside => ?_⟩
  · have rank : layout.extent.rank = layout.active.rank := by
      rw [rank_extent, ranks, Nat.min_self]
    exact rank.symm
  · simp [extent]

/-- Without padding the extent is the active shape. -/
theorem extent_of_zeros (ranks : layout.padding.rank = layout.active.rank)
    (zeros : ∀ pad ∈ layout.padding.dims, pad = 0) : layout.extent = layout.active := by
  obtain ⟨⟨sizes⟩, ⟨pads⟩⟩ := layout
  obtain rfl : pads = List.replicate sizes.length 0 := List.eq_replicate_iff.mpr ⟨ranks, zeros⟩
  refine congrArg Shape.mk ?_
  clear ranks zeros
  induction sizes with
  | nil => rfl
  | cons size rest ih =>
      exact congrArg (size :: ·) ih

/-- Everything else follows from the ranks. -/
theorem consistent_iff : layout.Consistent ↔ layout.padding.rank = layout.active.rank := by
  refine ⟨Consistent.padding_rank, fun ranks => ?_⟩
  exact
    { padding_rank := ranks
      extent_rank := by rw [rank_extent, ranks, Nat.min_self]
      padded := fun _ _ _ => getElem?_extent
      room := Shape.elementCount_le (active_le_extent ranks)
      tight := fun zeros => congrArg Shape.elementCount (extent_of_zeros ranks zeros) }

/-! ## Builders -/

theorem consistent_unpadded (active : Shape) : (unpadded active).Consistent :=
  consistent_iff.mpr (by simp [unpadded, Shape.rank])

theorem padded?_eq_some_iff :
    padded? active padding = some layout ↔ layout = ⟨active, padding⟩ ∧ layout.Consistent := by
  rw [padded?, consistent_iff]
  split
  · rename_i ranks
    constructor
    · rintro ⟨⟩
      exact ⟨rfl, ranks.symm⟩
    · rintro ⟨rfl, _⟩
      rfl
  · rename_i ranks
    simp only [reduceCtorEq, false_iff, not_and]
    rintro rfl same
    exact ranks same.symm

/-- The layouts that come from builders. -/
inductive Built : MemoryLayout → Prop
  | unpadded (active : Shape) : Built (.unpadded active)
  | vector (size : Nat) : Built (.vector size)
  | padded {active padding : Shape} {layout : MemoryLayout}
      (fits : padded? active padding = some layout) : Built layout

theorem built_iff : layout.Built ↔ layout.Consistent := by
  constructor
  · intro built
    cases built with
    | unpadded active => exact consistent_unpadded active
    | vector size => exact consistent_unpadded (.vector size)
    | padded fits => exact (padded?_eq_some_iff.mp fits).2
  · exact fun consistent => .padded (padded?_eq_some_iff.mpr ⟨rfl, consistent⟩)

end Ranks

/-! ## Ports -/

theorem consistent_of_plannedLayout {output : PlannedOutput} {layout : MemoryLayout}
    (planned : Node.plannedLayout output = .ok layout) : layout.Consistent := by
  unfold Node.plannedLayout at planned
  split at planned
  · obtain rfl := Except.ok.inj planned
    exact consistent_unpadded _
  · split at planned
    · rename_i fits
      obtain rfl := Except.ok.inj planned
      exact (padded?_eq_some_iff.mp fits).2
    · contradiction

/-- Standard nodes do not pad. -/
theorem consistent_of_standard {operator : Operator} (standard : operator.kind?.isSome)
    {port : OutputPort} (mem : port ∈ operator.outputs) : port.layout.Consistent := by
  cases operator with
  | custom _ => contradiction
  | _ =>
      obtain rfl := List.mem_singleton.mp mem
      exact consistent_unpadded _

theorem consistent_of_custom {name : String} {inputs : List (ScalarType × Elements)}
    {outputs : List PlannedOutput} {capabilities : Capabilities} {behaviour : Behaviour} {node : Node}
    (built : Node.custom name inputs outputs capabilities behaviour = .ok node) {port : OutputPort}
    (mem : port ∈ node.outputs) : port.layout.Consistent := by
  simp only [Node.custom, bind_eq_ok_iff, pure_eq_ok_iff] at built
  obtain ⟨ports, planned, rfl⟩ := built
  obtain ⟨output, _, made⟩ := exists_of_mem_right (mapM_eq_ok_iff.mp planned) mem
  simp only [bind_eq_ok_iff, pure_eq_ok_iff] at made
  obtain ⟨layout, laidOut, rfl⟩ := made
  exact consistent_of_plannedLayout laidOut

end MemoryLayout

/-! ## Reading layouts -/

/-- All dimensions of a shape are words. -/
def Shape.FitsWords (shape : Shape) : Prop :=
  ∀ size ∈ shape.dims, size < Json.wordBound

theorem nat_lt_of_read {json : Json} {value : Nat} (read : ofJson? json = some value) :
    value < Json.wordBound := by
  simp only [ofJson?, Json.natBelow?] at read
  split at read
  · split at read
    · obtain rfl := Option.some.inj read
      omega
    · contradiction
  · contradiction

theorem nats_lt_of_read {items : List Json} {values : List Nat}
    (read : items.mapM ofJson? = some values) : ∀ value ∈ values, value < Json.wordBound := by
  induction items generalizing values with
  | nil =>
      obtain rfl := Option.some.inj read
      nofun
  | cons item rest ih =>
      simp only [List.mapM_cons, Option.bind_eq_bind, Option.bind_eq_some_iff, Option.pure_def,
        Option.some.injEq] at read
      obtain ⟨value, first, others, later, rfl⟩ := read
      exact List.forall_mem_cons.mpr ⟨nat_lt_of_read first, ih later⟩

theorem Shape.fitsWords_of_read {json : Json} {shape : Shape} (read : ofJson? json = some shape) :
    shape.FitsWords := by
  obtain ⟨dims, listed, rfl⟩ : ∃ dims : List Nat, ofJson? json = some dims ∧ ⟨dims⟩ = shape :=
    Option.map_eq_some_iff.mp read
  cases json with
  | array items => exact nats_lt_of_read listed
  | _ => contradiction

theorem Shape.fitsWords_of_required {field : Option Json} {shape : Shape}
    (read : Json.required? field = some shape) : shape.FitsWords := by
  cases field with
  | none => contradiction
  | some json => exact fitsWords_of_read read

namespace MemoryLayout

variable {layout : MemoryLayout}

theorem recovered (active : layout.active.FitsWords) (padding : layout.padding.FitsWords) :
    ofJson? (toJson layout) = some layout := by
  have fields : Json.fields? ["active", "padding"] (toJson layout) =
      some [some (toJson layout.active), some (toJson layout.padding)] := by
    simp [toJson, Json.fields?, Json.lookup?]
  simp only [ofJson?, fields]
  simp [Json.required?, (recovered_shape active).read, (recovered_shape padding).read]

/-- The layouts that can be read are those whose dimensions are words, whatever their ranks. -/
theorem exists_json_iff :
    (∃ json, ofJson? json = some layout) ↔ layout.active.FitsWords ∧ layout.padding.FitsWords := by
  constructor
  · rintro ⟨json, read⟩
    simp only [ofJson?, Option.bind_eq_bind, Option.bind_eq_some_iff] at read
    obtain ⟨fields, _, read⟩ := read
    split at read
    · simp only [Option.bind_eq_some_iff, Option.pure_def, Option.some.injEq] at read
      obtain ⟨active, activeRead, padding, paddingRead, rfl⟩ := read
      exact ⟨Shape.fitsWords_of_required activeRead, Shape.fitsWords_of_required paddingRead⟩
    · contradiction
  · rintro ⟨active, padding⟩
    exact ⟨toJson layout, recovered active padding⟩

/-- The reader makes layouts that the builders refuse: four by three elements with padding for one
dimension get an extent of one dimension, with less memory than elements. -/
theorem exists_inconsistent_reading :
    ∃ json layout, (ofJson? json : Option MemoryLayout) = some layout ∧
      padded? layout.active layout.padding = none ∧ layout.activeSize = 12 ∧
      layout.extent = .vector 6 ∧ layout.memorySize = 6 := by
  refine ⟨toJson (⟨⟨[4, 3]⟩, ⟨[1]⟩⟩ : MemoryLayout), _, recovered ?_ ?_, rfl, rfl, rfl, rfl⟩
  · simp [Shape.FitsWords, Json.wordBound]
  · simp [Shape.FitsWords, Json.wordBound]

end MemoryLayout

end Dataflow
