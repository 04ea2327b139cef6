import Dataflow.Proofs.Lowering.Sites
import Dataflow.Proofs.Lowering.Subroutines
import Dataflow.Proofs.Routine.Passing

/-!
# Code that is accepted where the inputs are in place

The code of a node reads elements of its inputs and writes its output.  The builder accepts it when
each element that is read lies inside a window that has passed its check and has the type of the
input.  Inside the entry routine the scope has to lead to such a place, in a subroutine the
parameters are such windows.
-/

namespace Dataflow

/-! ## Places that can be read -/

/-- A window lies in an array, with a type and a length. -/
def Builder.Fits (builder : Builder) (window : ArrayRef) (type : ScalarType) (length : Nat) : Prop :=
  builder.checkArray window = .ok () ∧ window.type = type ∧ window.length = length

/-- A place is an element of a window that lies in an array of a type. -/
def Builder.Finds (builder : Builder) (type : ScalarType) (location : Location) : Prop :=
  ∃ length, builder.Fits location.window type length ∧ location.position < length

/-- A coordinate leads to a place that can be read. -/
def Scope.Finds (scope : Scope) (builder : Builder) (type : ScalarType) (coordinate : Coordinate) :
    Prop :=
  ∃ location, scope.locate coordinate = .ok location ∧ builder.Finds type location

theorem Builder.Continues.fits {before after : Builder} {window : ArrayRef} {type : ScalarType}
    {length : Nat} (continues : before.Continues after) (fits : before.Fits window type length) :
    after.Fits window type length :=
  ⟨continues.checkArray fits.1, fits.2⟩

theorem Builder.Continues.finds {before after : Builder} {location : Location} {type : ScalarType}
    (continues : before.Continues after) (finds : before.Finds type location) :
    after.Finds type location := by
  obtain ⟨length, fits, inside⟩ := finds
  exact ⟨length, continues.fits fits, inside⟩

theorem Builder.Continues.scopeFinds {before after : Builder} {scope : Scope}
    {coordinate : Coordinate} {type : ScalarType} (continues : before.Continues after)
    (finds : scope.Finds before type coordinate) : scope.Finds after type coordinate := by
  obtain ⟨location, located, found⟩ := finds
  exact ⟨location, located, continues.finds found⟩

/-- Places one after another lie in one window that can be read. -/
theorem Builder.fits_windowOver? {builder : Builder} {type : ScalarType} {locations : List Location}
    {window : ArrayRef} (covered : Scope.windowOver? type locations = some window)
    (finds : ∀ location ∈ locations, builder.Finds type location) :
    builder.Fits window type locations.length := by
  obtain ⟨typed, length, places⟩ := Scope.location_of_windowOver? covered
  refine ⟨?_, typed, length⟩
  have nonempty : locations ≠ [] := by
    rintro rfl
    simp [Scope.windowOver?] at covered
  -- The last place has to lie inside the array, so the whole window does.
  have last := List.getLast_mem nonempty
  obtain ⟨_, ⟨checked, lastTyped, rfl⟩, inside⟩ := finds _ last
  obtain ⟨declaration, declared, room, same⟩ := checkArray_eq_ok_iff.mp checked
  have positive : 0 < locations.length := List.length_pos_iff.mpr nonempty
  obtain ⟨array, absolute⟩ := places (locations.length - 1) (locations.getLast nonempty)
    (by rw [← List.getLast?_eq_getElem?, List.getLast?_eq_some_getLast nonempty])
  refine checkArray_eq_ok_iff.mpr ⟨declaration, array ▸ declared, ?_, ?_⟩
  · rw [Location.absolute] at absolute
    omega
  · rw [same, lastTyped, typed]

namespace Scope

variable {σ : Type} {kept : σ → σ → Prop} [IsPreorder σ kept] {scope : Scope}
  {before : Builder × σ} {type : ScalarType} {elements : Elements}

theorem exists_locateAll (finds : ∀ coordinate ∈ elements, scope.Finds before.1 type coordinate) :
    ∃ locations, scope.locateAll elements = .ok locations ∧ locations.length = elements.length ∧
      ∀ location ∈ locations, before.1.Finds type location := by
  obtain ⟨locations, located⟩ : ∃ locations, scope.locateAll elements = .ok locations :=
    exists_mapM_eq_ok fun coordinate mem => (finds coordinate mem).imp fun _ found => found.1
  have pointwise := mapM_eq_ok_iff.mp located
  refine ⟨locations, located, pointwise.length_eq.symm, fun location mem => ?_⟩
  obtain ⟨coordinate, coordinateMem, here⟩ := exists_of_mem_right pointwise mem
  obtain ⟨_, there, found⟩ := finds coordinate coordinateMem
  exact Except.ok.inj (there.symm.trans here) ▸ found

theorem exists_contiguous (finds : ∀ coordinate ∈ elements, scope.Finds before.1 type coordinate) :
    ∃ covered, scope.contiguous elements type = .ok covered ∧
      ∀ window ∈ covered, before.1.Fits window type elements.length := by
  obtain ⟨locations, located, length, found⟩ := exists_locateAll finds
  refine ⟨windowOver? type locations, ?_, fun window covers => ?_⟩
  · rw [contiguous, located]
    rfl
  · exact length ▸ Builder.fits_windowOver? covers found

theorem passes_load {coordinate : Coordinate} (finds : scope.Finds before.1 type coordinate) :
    (scope.load coordinate : Emit σ ValueId).Passes kept before (Emit.Typed type) := by
  obtain ⟨location, located, _, ⟨checked, rfl, rfl⟩, inside⟩ := finds
  exact Emit.passes_check located (Emit.passes_load checked inside)

/-- Elements can be copied to a window with room for them.  The induction is on the elements that
are left. -/
theorem passes_copyElements {target : ArrayRef} {position : Nat}
    (writable : before.1.Writable target) (room : position + elements.length ≤ target.length)
    (finds : ∀ coordinate ∈ elements, scope.Finds before.1 target.type coordinate) :
    (scope.copyElements target position elements : Emit σ Unit).Passes kept before Emit.Done := by
  induction elements generalizing before position with
  | nil => exact Emit.passes_pure trivial
  | cons coordinate rest ih =>
      obtain ⟨here, others⟩ := List.forall_mem_cons.mp finds
      rw [List.length_cons] at room
      refine (passes_load here).bind fun value between continues _ typed => ?_
      have stores : (Emit.store target (.fixed position) value : Emit σ Unit).Passes kept between
          Emit.Done := by
        refine Emit.passes_store (continues.writable writable) typed ?_
        exact (by omega : position < target.length)
      refine stores.bind fun _ later further _ _ => ?_
      have through := continues.trans further
      exact ih (through.writable writable) (by omega) fun coordinate mem =>
        through.scopeFinds (others coordinate mem)

theorem passes_gather (finds : ∀ coordinate ∈ elements, scope.Finds before.1 type coordinate) :
    (scope.gather elements type : Emit σ ArrayRef).Passes kept before
      fun window builder => builder.Fits window type elements.length := by
  obtain ⟨covered, covers, fits⟩ := exists_contiguous finds
  refine Emit.passes_check covers ?_
  cases covered with
  | some window => exact Emit.passes_pure (fits window rfl)
  | none =>
      have declares : (Emit.declareArray type elements.length : Emit σ ArrayRef).Passes kept before
          fun window builder => builder.Writable window ∧ window.type = type ∧
            window.length = elements.length :=
        ⟨_, _, Emit.succeeds_declareArray_iff.mpr ⟨rfl, rfl⟩, .of_grows (.withArray _ _), refl _,
          before.1.writable_withArray type elements.length, rfl, rfl⟩
      refine declares.bind fun target between continues _ ⟨writable, typed, length⟩ => ?_
      subst typed
      have room : 0 + elements.length ≤ target.length := by rw [Nat.zero_add, length]
      refine Emit.Passes.bind (passes_copyElements writable room fun coordinate mem =>
        continues.scopeFinds (finds coordinate mem)) fun _ later further _ _ => Emit.passes_pure ?_
      exact ⟨(further.writable writable).1, rfl, length⟩

end Scope

/-! ## Sites -/

instance : IsPreorder Lowering Lowering.Agrees where
  refl := .refl
  trans _ _ _ := .trans

namespace Site

variable {site : Site} {before : Builder × Lowering} {index : Nat} {port : InputPort}

/-- The elements of the inputs of a site can be read where its code stands. -/
def Supplied (site : Site) (scope : Scope) (builder : Builder) : Prop :=
  ∀ (index : Nat) (port : InputPort), site.inputs[index]? = some port →
    match site.placement with
    | .inline => ∀ coordinate ∈ port.elements, scope.Finds builder port.type coordinate
    | .subroutine => builder.checkArray (inputParameter index port) = .ok ()

theorem Supplied.continues {scope : Scope} {builder later : Builder}
    (supplied : site.Supplied scope builder) (continues : builder.Continues later) :
    site.Supplied scope later := by
  intro index port ported
  have here := supplied index port ported
  cases placed : site.placement with
  | inline =>
      simp only [placed] at here ⊢
      exact fun coordinate mem => continues.scopeFinds (here coordinate mem)
  | subroutine =>
      simp only [placed] at here ⊢
      exact continues.checkArray here

/-- Nodes do not read their own ports, so binding them takes no input away. -/
theorem Supplied.bind {scope : Scope} {builder : Builder} {own : OutputRef} {binding : PortBinding}
    (supplied : site.Supplied scope builder)
    (earlier : ∀ port ∈ site.inputs, ∀ coordinate ∈ port.elements, coordinate.output ≠ own) :
    site.Supplied (scope.bind own binding) builder := by
  intro index port ported
  have here := supplied index port ported
  cases placed : site.placement with
  | inline =>
      simp only [placed] at here ⊢
      intro coordinate mem
      obtain ⟨location, located, found⟩ := here coordinate mem
      have different := earlier port (List.mem_of_getElem? ported) coordinate mem
      exact ⟨location, (Scope.locate_bind_of_ne different).trans located, found⟩
  | subroutine =>
      simp only [placed] at here ⊢
      exact here

theorem passes_strategy {size : Nat} :
    (site.strategy size).Passes Lowering.Agrees before Emit.Done :=
  ⟨_, _, rfl, .refl _, ⟨rfl, rfl⟩, trivial⟩

theorem passes_inputElement {element : Nat} (supplied : site.Supplied before.2.scope before.1)
    (ported : site.inputs[index]? = some port) (inside : element < port.size) :
    (site.inputElement index element).Passes Lowering.Agrees before (Emit.Typed port.type) := by
  have here := supplied index port ported
  refine Emit.passes_check (inputPort_eq_ok_iff.mpr ported) ?_
  cases placed : site.placement with
  | inline =>
      simp only [placed] at here ⊢
      obtain ⟨output, found⟩ : ∃ output, port.elements[element]? = some output :=
        ⟨_, List.getElem?_eq_getElem inside⟩
      simp only [found]
      exact Scope.passes_load (here _ (List.mem_of_getElem? found))
  | subroutine =>
      simp only [placed] at here ⊢
      exact Emit.passes_load here inside

theorem passes_inputArray (supplied : site.Supplied before.2.scope before.1)
    (ported : site.inputs[index]? = some port) :
    (site.inputArray index).Passes Lowering.Agrees before
      fun window builder => builder.Fits window port.type port.size := by
  have here := supplied index port ported
  refine Emit.passes_check (inputPort_eq_ok_iff.mpr ported) ?_
  cases placed : site.placement with
  | inline =>
      simp only [placed] at here ⊢
      exact Scope.passes_gather here
  | subroutine =>
      simp only [placed] at here ⊢
      exact Emit.passes_pure ⟨here, rfl, rfl⟩

theorem passes_inputIsContiguous (supplied : site.Supplied before.2.scope before.1)
    (ported : site.inputs[index]? = some port) :
    (site.inputIsContiguous index).Passes Lowering.Agrees before Emit.Done := by
  have here := supplied index port ported
  refine Emit.passes_check (inputPort_eq_ok_iff.mpr ported) ?_
  cases placed : site.placement with
  | inline =>
      simp only [placed] at here ⊢
      obtain ⟨covered, covers, _⟩ := Scope.exists_contiguous here
      exact Emit.passes_check covers (Emit.passes_pure trivial)
  | subroutine =>
      exact Emit.passes_pure trivial

/-! ## Outputs -/

/-- The code of a site succeeds.  Inside the entry routine its output is bound to a window. -/
def Fulfils (site : Site) (port : OutputPort) (action : Lower Unit) (before : Builder × Lowering) :
    Prop :=
  ∃ after, Succeeds action before () after ∧ before.1.Continues after.1 ∧
    after.2.program = before.2.program ∧
    match site.placement with
    | .inline => ∃ output, after.2.scope = before.2.scope.bindArray (site.port 0) output ∧
        after.1.Fits output port.type port.size
    | .subroutine => after.2.scope = before.2.scope

/-- The output of a site can be chosen: it has no place yet, or it is a parameter. -/
def Open (site : Site) (port : OutputPort) (before : Builder × Lowering) : Prop :=
  match site.placement with
  | .inline => before.2.scope.binding? (site.port 0) = none
  | .subroutine => before.1.Writable (site.outputParameter 0 port)

/-- Code that first asks for its output and then passes. -/
theorem fulfils_of_passes {port : OutputPort} {next : ArrayRef → Lower Unit}
    (ported : site.outputs[0]? = some port) (opens : site.Open port before)
    (supplied : site.Supplied before.2.scope before.1)
    (earlier : ∀ port ∈ site.inputs, ∀ coordinate ∈ port.elements,
      coordinate.output ≠ site.port 0)
    (rest : ∀ output between, between.1.Writable output → output.type = port.type →
      output.length = port.size → site.Supplied between.2.scope between.1 →
      (next output).Passes Lowering.Agrees between Emit.Done) :
    site.Fulfils port (site.outputArray 0 >>= next) before := by
  unfold Open at opens
  unfold Fulfils
  cases placed : site.placement with
  | inline =>
      simp only [placed] at opens ⊢
      have chosen : Succeeds (site.outputArray 0) before ⟨before.1.arrays.size, port.type, 0, port.size⟩
          (before.1.withArray (.scratch port.type port.size), { before.2 with
            scope := before.2.scope.bindArray (site.port 0)
              ⟨before.1.arrays.size, port.type, 0, port.size⟩ }) := by
        simp only [outputArray, succeeds_bind_iff, Emit.succeeds_check_iff, outputPort_eq_ok_iff, placed,
          Lower.succeeds_scope_iff]
        refine ⟨port, before, ⟨ported, rfl⟩, _, before, ⟨rfl, rfl⟩, ?_⟩
        simp only [opens, succeeds_bind_iff, Emit.succeeds_declareArray_iff,
          Lower.succeeds_setScope_iff, succeeds_pure_iff]
        exact ⟨_, _, ⟨rfl, rfl⟩, (), _, rfl, rfl, rfl⟩
      have grown : before.1.Continues (before.1.withArray (.scratch port.type port.size)) :=
        .of_grows (.withArray _ _)
      obtain ⟨⟨⟩, after, ran, continues, agrees, _⟩ := rest _
        (before.1.withArray (.scratch port.type port.size), { before.2 with
          scope := before.2.scope.bindArray (site.port 0)
            ⟨before.1.arrays.size, port.type, 0, port.size⟩ })
        (before.1.writable_withArray port.type port.size) rfl rfl
        ((supplied.continues grown).bind earlier)
      refine ⟨after, succeeds_bind_iff.mpr ⟨_, _, chosen, ran⟩, grown.trans continues,
        agrees.program_eq, _, agrees.scope_eq, ?_⟩
      exact ⟨continues.checkArray (before.1.writable_withArray port.type port.size).1, rfl, rfl⟩
  | subroutine =>
      simp only [placed] at opens ⊢
      have chosen : Succeeds (site.outputArray 0) before (site.outputParameter 0 port) before := by
        simp only [outputArray, succeeds_bind_iff, Emit.succeeds_check_iff, outputPort_eq_ok_iff, placed]
        exact ⟨port, before, ⟨ported, rfl⟩, succeeds_pure_iff.mpr ⟨rfl, rfl⟩⟩
      obtain ⟨⟨⟩, after, ran, continues, agrees, _⟩ := rest _ _ opens rfl rfl supplied
      exact ⟨after, succeeds_bind_iff.mpr ⟨_, _, chosen, ran⟩, continues, agrees.program_eq,
        agrees.scope_eq⟩

/-- A window of the type and size of an output can be bound to it in the entry routine. -/
theorem succeeds_bindOutputArray {port : OutputPort} {window : ArrayRef}
    (ported : site.outputs[index]? = some port) (inline : site.placement = .inline)
    (length : window.length = port.size) (typed : window.type = port.type) :
    Succeeds (site.bindOutputArray index window) before () (before.1, { before.2 with
      scope := before.2.scope.bindArray (site.port index) window }) := by
  simp only [bindOutputArray, succeeds_bind_iff, Emit.succeeds_check_iff, outputPort_eq_ok_iff]
  refine ⟨port, before, ⟨ported, rfl⟩, ?_⟩
  simp only [length, typed, ne_eq, not_true_eq_false, or_self, if_false, requireInline, inline,
    succeeds_bind_iff, succeeds_pure_iff, Lower.succeeds_scope_iff, Lower.succeeds_setScope_iff]
  exact ⟨(), before, ⟨trivial, rfl⟩, _, before, ⟨rfl, rfl⟩, rfl⟩

/-- Elements that have places can be given another name in the entry routine. -/
theorem succeeds_bindOutputAlias {port : OutputPort} {elements : Elements} {locations : List Location}
    (ported : site.outputs[index]? = some port) (inline : site.placement = .inline)
    (length : elements.length = port.size)
    (located : before.2.scope.locateAll elements = .ok locations) :
    Succeeds (site.bindOutputAlias index elements) before () (before.1, { before.2 with
      scope := before.2.scope.bind (site.port index) (.scattered locations) }) := by
  simp only [bindOutputAlias, succeeds_bind_iff, Emit.succeeds_check_iff, outputPort_eq_ok_iff]
  refine ⟨port, before, ⟨ported, rfl⟩, ?_⟩
  simp only [length, ne_eq, not_true_eq_false, if_false, requireInline, inline,
    succeeds_bind_iff, succeeds_pure_iff, Lower.succeeds_scope_iff, Lower.succeeds_setScope_iff,
    Emit.succeeds_check_iff, Scope.bindAlias, bind_eq_ok_iff, pure_eq_ok_iff]
  exact ⟨(), before, ⟨trivial, rfl⟩, _, before, ⟨rfl, rfl⟩, _, before, ⟨⟨locations, located, rfl⟩, rfl⟩,
    rfl⟩

/-! ## Elementwise work -/

/-- An action combines variables of one type to a variable of another type. -/
def Accepts (combine : ValueId → ValueId → Lower ValueId) (type result : ScalarType) : Prop :=
  ∀ {left right : ValueId} {before : Builder × Lowering}, Emit.Typed type left before.1 →
    Emit.Typed type right before.1 →
      (combine left right).Passes Lowering.Agrees before (Emit.Typed result)

variable {combine : ValueId → ValueId → Lower ValueId} {type result : ScalarType} {size : Nat}
  {output : ArrayRef}

theorem passes_expandElementwise (accepts : Accepts combine type result)
    (supplied : site.Supplied before.2.scope before.1)
    (inputs : ∀ index < 2, ∃ port, site.inputs[index]? = some port ∧ port.size = size ∧
      port.type = type) (writable : before.1.Writable output) (typed : output.type = result)
    (length : output.length = size) {position count : Nat} (room : position + count ≤ size) :
    (site.expandElementwise output combine position count).Passes Lowering.Agrees before
      Emit.Done := by
  induction count generalizing before position with
  | zero => exact Emit.passes_pure trivial
  | succ count ih =>
      obtain ⟨first, firstPorted, firstSize, rfl⟩ := inputs 0 (by decide)
      obtain ⟨second, secondPorted, secondSize, secondType⟩ := inputs 1 (by decide)
      refine (passes_inputElement supplied firstPorted (by omega)).bind fun left one oneOn oneKept
        leftTyped => ?_
      have oneSupplied : site.Supplied one.2.scope one.1 :=
        oneKept.scope_eq ▸ supplied.continues oneOn
      refine (passes_inputElement oneSupplied secondPorted (by omega)).bind fun right two twoOn
        twoKept rightTyped => ?_
      refine (accepts (twoOn.values _ _ leftTyped) (secondType ▸ rightTyped)).bind fun value three
        threeOn threeKept valueTyped => ?_
      have through := (oneOn.trans twoOn).trans threeOn
      have stores : (Emit.store output (.fixed position) value).Passes Lowering.Agrees three
          Emit.Done := by
        refine Emit.passes_store (through.writable writable) (typed ▸ valueTyped) ?_
        exact (by omega : position < output.length)
      refine stores.bind fun _ four fourOn fourKept _ => ?_
      have agrees : before.2.Agrees four.2 :=
        ((oneKept.trans twoKept).trans threeKept).trans fourKept
      exact ih (agrees.scope_eq ▸ supplied.continues (through.trans fourOn))
        ((through.trans fourOn).writable writable) (by omega)

/-- Elementwise work on two inputs of one type and size. -/
theorem fulfils_elementwise {port : OutputPort} (accepts : Accepts combine type result)
    (inputs : ∀ index < 2, ∃ port, site.inputs[index]? = some port ∧ port.size = size ∧
      port.type = type)
    (ported : site.outputs[0]? = some port) (typed : port.type = result) (sized : port.size = size)
    (opens : site.Open port before) (supplied : site.Supplied before.2.scope before.1)
    (earlier : ∀ port ∈ site.inputs, ∀ coordinate ∈ port.elements,
      coordinate.output ≠ site.port 0) :
    site.Fulfils port (site.elementwise size combine) before := by
  refine fulfils_of_passes ported opens supplied earlier fun output between writable outputTyped
    length supplied => ?_
  refine passes_strategy.bind fun choice chosen chosenOn chosenKept _ => ?_
  replace supplied : site.Supplied chosen.2.scope chosen.1 :=
    chosenKept.scope_eq ▸ supplied.continues chosenOn
  replace writable := chosenOn.writable writable
  cases choice with
  | expanded =>
      exact passes_expandElementwise accepts supplied inputs writable (outputTyped.trans typed)
        (length.trans sized) (by omega)
  | loop =>
      obtain ⟨first, firstPorted, firstSize, rfl⟩ := inputs 0 (by decide)
      obtain ⟨second, secondPorted, secondSize, secondType⟩ := inputs 1 (by decide)
      refine (passes_inputArray supplied firstPorted).bind fun left one oneOn oneKept
        ⟨leftChecked, leftTyped, _⟩ => ?_
      have oneSupplied : site.Supplied one.2.scope one.1 :=
        oneKept.scope_eq ▸ supplied.continues oneOn
      refine (passes_inputArray oneSupplied secondPorted).bind fun right two twoOn twoKept
        ⟨rightChecked, rightTyped, _⟩ => ?_
      refine Emit.passes_loop fun counter inner innerOn _ counts => ?_
      refine Emit.Passes.bind (Emit.passes_load ((twoOn.trans innerOn).checkArray leftChecked) counts)
        fun leftValue three threeOn _ leftValueTyped => ?_
      refine Emit.Passes.bind (Emit.passes_load ((innerOn.trans threeOn).checkArray rightChecked)
        (threeOn.values _ _ counts)) fun rightValue four fourOn _ rightValueTyped => ?_
      refine (accepts (leftTyped ▸ fourOn.values _ _ leftValueTyped)
        ((rightTyped.trans secondType) ▸ rightValueTyped)).bind fun value five fiveOn _ valueTyped => ?_
      have through := (innerOn.trans threeOn).trans (fourOn.trans fiveOn)
      refine Emit.passes_store (((oneOn.trans twoOn).trans through).writable writable) ?_ ?_
      · rw [outputTyped, typed]
        exact valueTyped
      · exact ((threeOn.trans fourOn).trans fiveOn).values _ _ counts

/-! ## Sums -/

theorem passes_expandSum {type : RealType} {group : Nat}
    (supplied : site.Supplied before.2.scope before.1) (ported : site.inputs[group]? = some port)
    (typed : port.type = type.toScalarType) {total : ValueId}
    (totalTyped : Emit.Typed type.toScalarType total before.1) {position count : Nat}
    (room : position + count ≤ port.size) :
    (site.expandSum group total position count).Passes Lowering.Agrees before
      (Emit.Typed type.toScalarType) := by
  induction count generalizing before position total with
  | zero => exact Emit.passes_pure totalTyped
  | succ count ih =>
      refine (passes_inputElement supplied ported (by omega)).bind fun element one oneOn oneKept
        elementTyped => ?_
      refine (Emit.passes_binary type (oneOn.values _ _ totalTyped) (typed ▸ elementTyped)).bind
        fun sum two twoOn twoKept sumTyped => ?_
      have agrees : before.2.Agrees two.2 := oneKept.trans twoKept
      exact ih (agrees.scope_eq ▸ supplied.continues (oneOn.trans twoOn)) sumTyped (by omega)

/-- The sum of an input that is not empty, looped over or written out. -/
theorem passes_chosenSum {type : RealType} {group : Nat}
    (supplied : site.Supplied before.2.scope before.1) (ported : site.inputs[group]? = some port)
    (typed : port.type = type.toScalarType) (positive : 0 < port.size) (looped : Bool) :
    (if looped = true then do
        let values ← site.inputArray group
        let accumulator ← Emit.literal type.toScalarType.zero
        Emit.loop 0 port.size fun index => do
          let element ← Emit.load values (.value index)
          let total ← Emit.binary .add accumulator element
          Emit.assign accumulator total
        pure accumulator
      else do
        let first ← site.inputElement group 0
        site.expandSum group first 1 (port.size - 1) : Lower ValueId).Passes Lowering.Agrees before
      (Emit.Typed type.toScalarType) := by
  cases looped with
  | true =>
      refine (passes_inputArray supplied ported).bind fun values one oneOn _
        ⟨checked, valuesTyped, _⟩ => ?_
      refine Emit.passes_literal.bind fun accumulator two twoOn _ accumulatorTyped => ?_
      replace accumulatorTyped : Emit.Typed type.toScalarType accumulator two.1 := by
        simpa [Literal.type] using accumulatorTyped
      refine Emit.Passes.bind (Emit.passes_loop fun counter inner innerOn _ counts => ?_)
        fun _ three threeOn _ _ => Emit.passes_pure (threeOn.values _ _ accumulatorTyped)
      refine Emit.Passes.bind (Emit.passes_load ((twoOn.trans innerOn).checkArray checked) counts)
        fun element four fourOn _ elementTyped => ?_
      have kept := (innerOn.trans fourOn).values _ _ accumulatorTyped
      refine (Emit.passes_binary type kept ((valuesTyped.trans typed) ▸ elementTyped)).bind
        fun total five fiveOn _ totalTyped => ?_
      exact Emit.passes_assign (fiveOn.values _ _ kept) totalTyped
  | false =>
      refine (passes_inputElement supplied ported positive).bind fun first one oneOn oneKept
        firstTyped => ?_
      exact passes_expandSum (oneKept.scope_eq ▸ supplied.continues oneOn) ported typed
        (typed ▸ firstTyped) (by omega)

theorem passes_sumInput {type : RealType} {group : Nat}
    (supplied : site.Supplied before.2.scope before.1) (ported : site.inputs[group]? = some port)
    (typed : port.type = type.toScalarType) (positive : 0 < port.size) :
    (site.sumInput type group port.size).Passes Lowering.Agrees before
      (Emit.Typed type.toScalarType) := by
  refine passes_strategy.bind fun choice chosen chosenOn chosenKept _ => ?_
  have chosenSupplied : site.Supplied chosen.2.scope chosen.1 :=
    chosenKept.scope_eq ▸ supplied.continues chosenOn
  cases choice with
  | loop =>
      refine (passes_inputIsContiguous chosenSupplied ported).bind fun looped one oneOn oneKept _ => ?_
      exact passes_chosenSum (oneKept.scope_eq ▸ chosenSupplied.continues oneOn) ported typed positive
        looped
  | expanded => exact passes_chosenSum chosenSupplied ported typed positive false

/-- Several sums.  The induction is on the groups that are left. -/
theorem passes_sums {type : RealType} {group : Nat} {ports : List InputPort}
    (supplied : site.Supplied before.2.scope before.1)
    (inputs : ∀ (index : Nat) (port : InputPort), ports[index]? = some port →
      site.inputs[group + index]? = some port ∧ port.type = type.toScalarType)
    (writable : before.1.Writable output) (typed : output.type = type.toScalarType)
    (length : output.length = group + ports.length) :
    (site.sums type output group ports).Passes Lowering.Agrees before Emit.Done := by
  induction ports generalizing before group with
  | nil => exact Emit.passes_pure trivial
  | cons port rest ih =>
      obtain ⟨ported, portTyped⟩ := inputs 0 port rfl
      rw [List.length_cons] at length
      have stores : ∀ (total : ValueId) (one : Builder × Lowering), before.1.Continues one.1 →
          before.2.Agrees one.2 → Emit.Typed type.toScalarType total one.1 →
          (do
            Emit.store output (.fixed group) total
            site.sums type output (group + 1) rest : Lower Unit).Passes Lowering.Agrees one
            Emit.Done := by
        intro total one oneOn oneKept totalTyped
        have stored : (Emit.store output (.fixed group) total).Passes Lowering.Agrees one
            Emit.Done := by
          refine Emit.passes_store (oneOn.writable writable) (typed ▸ totalTyped) ?_
          exact (by omega : group < output.length)
        refine stored.bind fun _ two twoOn twoKept _ => ?_
        have agrees : before.2.Agrees two.2 := oneKept.trans twoKept
        refine ih (agrees.scope_eq ▸ supplied.continues (oneOn.trans twoOn)) (fun index port found => ?_)
          ((oneOn.trans twoOn).writable writable) (by omega)
        rw [Nat.add_right_comm]
        exact inputs (index + 1) port found
      by_cases empty : port.size = 0
      · simp only [sums, empty, if_true]
        refine Emit.passes_literal.bind fun total one oneOn oneKept totalTyped => ?_
        exact stores total one oneOn oneKept (by simpa [Literal.type] using totalTyped)
      · simp only [sums, empty, if_false]
        exact (passes_sumInput supplied ported portTyped (Nat.pos_of_ne_zero empty)).bind stores

end Site

end Dataflow
