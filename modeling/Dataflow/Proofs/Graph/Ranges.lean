import Dataflow.Graph.Elements

/-!
# Ranges of a port

A range of a port stands for a list of elements: those from its start up to its stop, one after
another.  The search for the range of a list compares every coordinate with the one that its first
coordinate and its position ask for, so it finds a range exactly when the list is what the range
stands for.  An empty list is what every empty range stands for, and it has no range of its own;
every other list is what at most one range stands for.
-/

namespace Dataflow

/-! ## Elements of a range -/

namespace OutputRef

variable (output : OutputRef) (start count : Nat)

theorem elementsFrom_succ :
    output.elementsFrom start (count + 1) =
      output.element start :: output.elementsFrom (start + 1) count :=
  rfl

theorem length_elementsFrom : (output.elementsFrom start count).length = count := by
  rw [elementsFrom, List.length_map, List.length_range']

end OutputRef

namespace PortRange

/-- The elements of a range, in order. -/
def elements (range : PortRange) : Elements :=
  range.output.elementsFrom range.start (range.stop - range.start)

variable {range : PortRange}

theorem length_elements (range : PortRange) : range.elements.length = range.stop - range.start :=
  range.output.length_elementsFrom range.start _

theorem elements_ne_nil_iff : range.elements ≠ [] ↔ range.start < range.stop := by
  rw [← List.length_pos_iff, length_elements]
  exact Nat.sub_pos_iff_lt

end PortRange

namespace Elements

variable {elements : Elements} {range : PortRange}

/-! ## Recognition -/

/-- The induction is on the list.  Each coordinate has to be the next element of the port, and the
rest of the list then has to continue after it. -/
theorem continues_iff {output : OutputRef} {index : Nat} :
    continues output index elements = true ↔
      elements = output.elementsFrom index elements.length := by
  induction elements generalizing index with
  | nil => exact iff_of_true rfl rfl
  | cons first rest ih =>
      have here : first.output = output ∧ first.element = index ↔ first = output.element index := by
        constructor
        · rintro ⟨rfl, rfl⟩
          exact (Coordinate.element_output first).symm
        · rintro rfl
          exact ⟨Coordinate.output_element output index, rfl⟩
      rw [continues, Bool.and_eq_true, Bool.and_eq_true, decide_eq_true_eq, decide_eq_true_eq, here,
        ih, List.length_cons, OutputRef.elementsFrom_succ, List.cons.injEq]

/-- A range that is found stands for the list. -/
theorem eq_elements_of_singlePortRange? (found : elements.singlePortRange? = some range) :
    elements ≠ [] ∧ elements = range.elements := by
  cases elements with
  | nil => contradiction
  | cons first rest =>
      rw [singlePortRange?] at found
      split at found
      · rename_i holds
        obtain rfl := Option.some.inj found
        refine ⟨List.cons_ne_nil first rest, ?_⟩
        rw [PortRange.elements, Nat.add_sub_cancel_left]
        exact continues_iff.mp holds
      · contradiction

/-- Consecutive elements of a port are found to be a range. -/
theorem singlePortRange?_elementsFrom (output : OutputRef) (start count : Nat) :
    (output.elementsFrom start (count + 1)).singlePortRange? =
      some ⟨output, start, start + (count + 1)⟩ := by
  have length := output.length_elementsFrom start (count + 1)
  have holds : continues output start (output.elementsFrom start (count + 1)) = true :=
    continues_iff.mpr (by rw [length])
  calc (output.elementsFrom start (count + 1)).singlePortRange?
      = some ⟨output, start, start + (output.elementsFrom start (count + 1)).length⟩ := if_pos holds
    _ = some ⟨output, start, start + (count + 1)⟩ := by rw [length]

theorem singlePortRange?_eq_some_iff :
    elements.singlePortRange? = some range ↔ elements ≠ [] ∧ elements = range.elements := by
  refine ⟨eq_elements_of_singlePortRange?, ?_⟩
  rintro ⟨nonempty, rfl⟩
  obtain ⟨output, start, stop⟩ := range
  have proper : start < stop := PortRange.elements_ne_nil_iff.mp nonempty
  obtain ⟨count, rfl⟩ : ∃ count, stop = start + (count + 1) := Nat.exists_eq_add_of_lt proper
  rw [PortRange.elements, Nat.add_sub_cancel_left]
  exact singlePortRange?_elementsFrom output start count

/-- The search finds a range exactly when the list is not empty and has the elements of that range
and no others, in order.  There is at most one such range, and without one nothing is found. -/
theorem ranges_are_recognised (elements : Elements) :
    (∀ range, elements.singlePortRange? = some range ↔
        elements ≠ [] ∧ elements = range.elements) ∧
      (∀ range other : PortRange, elements ≠ [] → elements = range.elements →
        elements = other.elements → range = other) ∧
      (elements.singlePortRange? = none ↔
        ¬∃ range : PortRange, elements ≠ [] ∧ elements = range.elements) := by
  refine ⟨fun range => singlePortRange?_eq_some_iff, ?_, ?_⟩
  · intro range other nonempty same sameOther
    have found := singlePortRange?_eq_some_iff.mpr ⟨nonempty, same⟩
    have foundOther := singlePortRange?_eq_some_iff.mpr ⟨nonempty, sameOther⟩
    exact Option.some.inj (found.symm.trans foundOther)
  · simp only [← singlePortRange?_eq_some_iff]
    exact Option.eq_none_iff_forall_ne_some.trans not_exists.symm

/-- Three elements in the middle of a port are a range of it and of nothing else.  Backwards, they
are none. -/
theorem middle_range_is_recognised :
    let middle : Elements := [⟨3, 0, 2⟩, ⟨3, 0, 3⟩, ⟨3, 0, 4⟩]
    middle.singlePortRange? = some ⟨⟨3, 0⟩, 2, 5⟩ ∧
      (∀ range : PortRange, middle = range.elements → range = ⟨⟨3, 0⟩, 2, 5⟩) ∧
      ¬∃ range : PortRange, middle.reverse ≠ [] ∧ middle.reverse = range.elements := by
  intro middle
  obtain ⟨finds, unique, _⟩ := ranges_are_recognised middle
  obtain ⟨_, _, findsNone⟩ := ranges_are_recognised middle.reverse
  have nonempty : middle ≠ [] := List.cons_ne_nil _ _
  have listed : middle = PortRange.elements ⟨⟨3, 0⟩, 2, 5⟩ := rfl
  exact ⟨(finds _).mpr ⟨nonempty, listed⟩, fun range same => unique _ _ nonempty same listed,
    findsNone.mp (by decide)⟩

end Elements

end Dataflow
