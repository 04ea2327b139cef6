import Dataflow.Proofs.Graph.WellFormed

/-!
# Checking well-formed models

A model checks its own structure in two parts: that every coordinate names an earlier node of
the model, and that the sort of its nodes meets no cycle.  In a well-formed model everything
that a node reads comes before it, so along a path of the sort ids only go down and no node is
met a second time.
-/

namespace Dataflow

/-- The walk meets no cycle when dependencies have a smaller rank: nodes that rank below
everything on the path are not on it. -/
theorem exists_sortFrom {α : Type} [DecidableEq α] {dependencies : α → List α} (rank : α → Nat)
    (falls : ∀ node, ∀ source ∈ dependencies node, rank source < rank node)
    (remaining path nodes sorted : List α)
    (below : ∀ node ∈ nodes, ∀ outer ∈ path, rank node < rank outer) :
    ∃ listed, sortFrom dependencies remaining path nodes sorted = .ok listed := by
  have fresh : ∀ {node : α} {rest : List α} {path : List α},
      (∀ inner ∈ node :: rest, ∀ outer ∈ path, rank inner < rank outer) → node ∉ path :=
    fun low onPath => Nat.lt_irrefl _ (low _ List.mem_cons_self _ onPath)
  induction remaining, path, nodes, sorted using sortFrom.induct dependencies with
  | case1 remaining path sorted => exact ⟨sorted, by simp [sortFrom]⟩
  | case2 remaining path node rest sorted onPath => exact absurd onPath (fresh below)
  | case3 remaining path node rest sorted new listed ih =>
      obtain ⟨result, done⟩ := ih fun inner mem => below inner (List.mem_cons_of_mem _ mem)
      exact ⟨result, by simp [sortFrom, new, listed, done]⟩
  | case4 remaining path node rest sorted new unlisted known cycle failed ih =>
      -- the walk into the dependencies cannot have failed
      obtain ⟨result, done⟩ := ih fun source read outer onPath => by
        rcases List.mem_cons.mp onPath with rfl | outside
        · exact falls _ source read
        · exact (falls node source read).trans (below node List.mem_cons_self outer outside)
      simp [done] at failed
  | case5 remaining path node rest sorted new unlisted known after walked _ ih =>
      obtain ⟨result, done⟩ := ih fun inner mem => below inner (List.mem_cons_of_mem _ mem)
      exact ⟨result, by simp [sortFrom, new, unlisted, known, walked, done]⟩
  | case6 remaining path node rest sorted new unlisted unknown ih =>
      obtain ⟨result, done⟩ := ih fun inner mem => below inner (List.mem_cons_of_mem _ mem)
      exact ⟨result, by simp [sortFrom, new, unlisted, unknown, done]⟩

/-! ## Dependencies -/

/-- Collecting names that are not there yet adds exactly the missing ones. -/
theorem mem_collect_iff {α β : Type} [DecidableEq β] (name : α → β) {items : List α}
    {start : List β} {found : β} :
    found ∈ items.foldl
        (fun names item => if name item ∈ names then names else names ++ [name item]) start ↔
      found ∈ start ∨ ∃ item ∈ items, name item = found := by
  induction items generalizing start with
  | nil => simp
  | cons item rest ih =>
      rw [List.foldl_cons, ih]
      split <;> grind

theorem Elements.mem_sourceNodes_iff {elements : Elements} {source : NodeId} :
    source ∈ elements.sourceNodes ↔ ∃ coordinate ∈ elements, coordinate.node = source := by
  have collected : source ∈ elements.sourceNodes ↔
      source ∈ [] ∨ ∃ coordinate ∈ elements, coordinate.node = source :=
    mem_collect_iff Coordinate.node
  simpa using collected

namespace Model

variable {model : Model} {id source : NodeId}

/-- The dependencies of a node are the nodes that it reads. -/
theorem Coherent.mem_dependencies_iff (coherent : model.Coherent) :
    source ∈ model.dependencies id ↔
      ∃ entry ∈ model.entries, entry.id = id ∧ ∃ input ∈ entry.node.inputs,
        ∃ coordinate ∈ input.elements, coordinate.node = source := by
  have collected : ∀ (inputs : List InputPort) (start : List NodeId),
      source ∈ inputs.foldl
          (fun sources input =>
            input.elements.sourceNodes.foldl
              (fun sources source => if source ∈ sources then sources else sources ++ [source])
              sources) start ↔
        source ∈ start ∨ ∃ input ∈ inputs, source ∈ input.elements.sourceNodes := by
    intro inputs
    induction inputs with
    | nil => simp
    | cons input rest ih =>
        intro start
        rw [List.foldl_cons, ih, mem_collect_iff (fun source => source)]
        simp [or_assoc]
  unfold dependencies
  cases found : model.node? id with
  | none =>
      have absent : ∀ entry ∈ model.entries, entry.id ≠ id := by
        intro entry mem same
        simp [coherent.node?_eq_some_iff.mpr ⟨entry, mem, same, rfl⟩] at found
      simp only [List.not_mem_nil, false_iff, not_exists, not_and]
      exact fun entry mem same => absurd same (absent entry mem)
  | some node =>
      obtain ⟨entry, mem, same, rfl⟩ := coherent.node?_eq_some_iff.mp found
      simp only [collected, List.not_mem_nil, false_or, Elements.mem_sourceNodes_iff]
      constructor
      · exact fun read => ⟨entry, mem, same, read⟩
      · rintro ⟨other, otherMem, otherSame, read⟩
        rwa [coherent.entry_unique otherMem mem (otherSame.trans same.symm)] at read

/-! ## The two checks -/

theorem WellFormed.lt_of_mem_dependencies (wellFormed : model.WellFormed)
    (read : source ∈ model.dependencies id) : source < id := by
  obtain ⟨entry, mem, rfl, input, inputMem, coordinate, coordinateMem, rfl⟩ :=
    wellFormed.coherent.mem_dependencies_iff.mp read
  exact (wellFormed.provided entry mem input inputMem coordinate coordinateMem).1

theorem WellFormed.exists_submodelOrder (wellFormed : model.WellFormed) (roots : List NodeId) :
    ∃ listed, model.submodelOrder roots = .ok listed := by
  obtain ⟨listed, sorted⟩ :=
    exists_sortFrom (fun node => node) (fun _ _ read => wellFormed.lt_of_mem_dependencies read)
      model.ids [] roots [] (fun _ _ outer onPath => absurd onPath List.not_mem_nil)
  exact ⟨listed, mapError_eq_ok_iff.mpr sorted⟩

theorem WellFormed.invalidReference?_eq_none (wellFormed : model.WellFormed) {entry : Entry}
    (mem : entry ∈ model.entries) : model.invalidReference? entry = none := by
  simp only [invalidReference?, List.findSome?_eq_none_iff, List.find?_eq_none,
    Bool.or_eq_true, decide_eq_true_eq, Bool.not_eq_true', not_or, Nat.not_le,
    Bool.not_eq_false]
  intro input inputMem coordinate coordinateMem
  obtain ⟨earlier, source, sourceMem, same, _⟩ :=
    wellFormed.provided entry mem input inputMem coordinate coordinateMem
  refine ⟨earlier, wellFormed.coherent.contains_iff.mpr ?_⟩
  exact mem_ids_iff.mpr ⟨source, sourceMem, same⟩

/-- A well-formed model passes its own check. -/
theorem WellFormed.verify (wellFormed : model.WellFormed) : model.verify = .ok () := by
  obtain ⟨listed, sorted⟩ := wellFormed.exists_submodelOrder model.ids
  simp only [Model.verify, List.forM_eq_forM, bind_eq_ok_iff, forM_eq_ok_iff, pure_eq_ok_iff]
  refine ⟨(), fun entry mem => ?_, listed, sorted, trivial⟩
  rw [wellFormed.invalidReference?_eq_none mem]
  rfl

end Model

end Dataflow
