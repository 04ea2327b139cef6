import Dataflow.Pass.PortMap
import Dataflow.Proofs.Actions

/-!
# Laws of port maps

A port map is a list of ports with the elements that stand for them, and no port comes twice.
Inserting a port changes nothing about the others, and going through the composition of two
maps is going through the one and then through the other, failures included.
-/

namespace Dataflow

namespace PortMap

variable {map first second composed : PortMap} {port : OutputRef} {elements images : Elements}
  {coordinate image : Coordinate}

/-! ## Looking up -/

theorem get?_append (entries : List (OutputRef × Elements)) (port : OutputRef)
    (elements : Elements) (other : OutputRef) :
    (⟨entries ++ [(port, elements)]⟩ : PortMap).get? other =
      ((⟨entries⟩ : PortMap).get? other).or (if port = other then some elements else none) := by
  simp only [get?, List.find?_append, List.find?_singleton, decide_eq_true_eq]
  cases entries.find? (·.1 = other) <;> split <;> simp_all

theorem insert_eq_ok_iff {after : PortMap} :
    map.insert port elements = .ok after ↔
      map.get? port = none ∧ after = ⟨map.entries ++ [(port, elements)]⟩ := by
  unfold insert
  cases map.get? port <;> simp [eq_comm]

theorem get?_eq_none_iff : map.get? port = none ↔ port ∉ map.entries.map Prod.fst := by
  simp only [get?, Option.map_eq_none_iff, List.find?_eq_none, decide_eq_true_eq, List.mem_map,
    not_exists, not_and]

/-- A map of different ports finds each of its entries. -/
theorem get?_of_mem (once : (map.entries.map Prod.fst).Nodup) (mem : (port, elements) ∈ map.entries) :
    map.get? port = some elements := by
  obtain ⟨entries⟩ := map
  induction entries with
  | nil => contradiction
  | cons entry rest ih =>
      obtain ⟨fresh, once⟩ := List.nodup_cons.mp once
      rcases List.mem_cons.mp mem with rfl | later
      · simp [get?]
      · have different : entry.1 ≠ port := by
          rintro rfl
          exact fresh (List.mem_map.mpr ⟨_, later, rfl⟩)
        have found := ih once later
        simp only [get?] at found
        simp [get?, different, found]

/-! ## Translating -/

theorem translateCoordinate_of_get?_eq_none (absent : map.get? coordinate.output = none) :
    map.translateCoordinate coordinate = .error (.unmappedPort coordinate.output) := by
  simp [translateCoordinate, absent]

theorem translateCoordinate_of_get?_eq_some (found : map.get? coordinate.output = some elements) :
    map.translateCoordinate coordinate =
      (elements[coordinate.element]?).elim (.error (.coordinateOutOfRange coordinate)) .ok := by
  simp only [translateCoordinate, found]
  cases elements[coordinate.element]? <;> rfl

theorem translateCoordinate_eq_ok_iff :
    map.translateCoordinate coordinate = .ok image ↔
      ∃ elements, map.get? coordinate.output = some elements ∧
        elements[coordinate.element]? = some image := by
  cases found : map.get? coordinate.output with
  | none => simp [translateCoordinate_of_get?_eq_none found]
  | some elements =>
      rw [translateCoordinate_of_get?_eq_some found]
      cases read : elements[coordinate.element]? <;> simp [read]

theorem translate_eq_ok_iff :
    map.translate elements = .ok images ↔
      List.Forall₂ (fun coordinate image => map.translateCoordinate coordinate = .ok image)
        elements images :=
  mapM_eq_ok_iff

/-- The translation of a whole port is what stands for it. -/
theorem translate_elements (found : map.get? port = some elements) :
    map.translate (port.elements elements.length) = .ok elements := by
  rw [translate_eq_ok_iff, OutputRef.elements, List.forall₂_map_left_iff, List.forall₂_iff_get]
  refine ⟨by simp, fun index inRange inElements => ?_⟩
  rw [translateCoordinate_eq_ok_iff]
  refine ⟨elements, found, ?_⟩
  simp only [List.get_eq_getElem, List.getElem_range, OutputRef.element]
  exact List.getElem?_eq_getElem inElements

/-! ## Extending -/

/-- A map keeps what another one says. -/
def Extends (after before : PortMap) : Prop :=
  ∀ port elements, before.get? port = some elements → after.get? port = some elements

theorem extends_append (map : PortMap) (port : OutputRef) (elements : Elements) :
    Extends ⟨map.entries ++ [(port, elements)]⟩ map := by
  intro other found isFound
  rw [get?_append, isFound]
  rfl

theorem Extends.translateCoordinate {after before : PortMap} (extends_ : Extends after before)
    (translated : before.translateCoordinate coordinate = .ok image) :
    after.translateCoordinate coordinate = .ok image := by
  obtain ⟨elements, found, read⟩ := translateCoordinate_eq_ok_iff.mp translated
  exact translateCoordinate_eq_ok_iff.mpr ⟨elements, extends_ _ _ found, read⟩

theorem Extends.translate {after before : PortMap} (extends_ : Extends after before)
    (translated : before.translate elements = .ok images) :
    after.translate elements = .ok images :=
  translate_eq_ok_iff.mpr
    ((translate_eq_ok_iff.mp translated).imp fun _ _ => extends_.translateCoordinate)

/-! ## Composing -/

theorem compose_eq_ok_iff :
    first.compose second = .ok composed ↔
      List.Forall₂ (fun entry image => image.1 = entry.1 ∧ second.translate entry.2 = .ok image.2)
        first.entries composed.entries := by
  simp only [compose, bind_eq_ok_iff, pure_eq_ok_iff, mapM_eq_ok_iff]
  constructor
  · rintro ⟨entries, pointwise, rfl⟩
    refine pointwise.imp fun entry image done => ?_
    obtain ⟨images, translated, rfl⟩ := done
    exact ⟨rfl, translated⟩
  · intro pointwise
    refine ⟨composed.entries, pointwise.imp fun entry image done => ?_, rfl⟩
    exact ⟨image.2, done.2, by rw [← done.1]⟩

/-- The composition maps the same ports, and what stands for a port is translated. -/
theorem get?_of_compose (composition : first.compose second = .ok composed) (port : OutputRef) :
    match first.get? port with
    | none => composed.get? port = none
    | some elements => ∃ images, second.translate elements = .ok images ∧
        composed.get? port = some images := by
  have pointwise := compose_eq_ok_iff.mp composition
  obtain ⟨entries⟩ := first
  obtain ⟨composedEntries⟩ := composed
  simp only at pointwise
  clear composition
  induction pointwise with
  | nil => rfl
  | cons done others ih =>
      rename_i entry image _ _
      obtain ⟨key, elements⟩ := entry
      obtain ⟨imageKey, images⟩ := image
      obtain ⟨rfl, translated⟩ := done
      simp only [get?] at ih ⊢
      by_cases here : imageKey = port
      · simpa [here] using translated
      · simpa [here] using ih

/-- Going through a composition is going through both maps, one after the other. -/
theorem translateCoordinate_compose (composition : first.compose second = .ok composed)
    (coordinate : Coordinate) :
    composed.translateCoordinate coordinate =
      first.translateCoordinate coordinate >>= second.translateCoordinate := by
  have searched := get?_of_compose composition coordinate.output
  cases found : first.get? coordinate.output with
  | none =>
      rw [found] at searched
      rw [translateCoordinate_of_get?_eq_none found, translateCoordinate_of_get?_eq_none searched]
      rfl
  | some elements =>
      rw [found] at searched
      obtain ⟨images, translated, composedFound⟩ := searched
      have pointwise := translate_eq_ok_iff.mp translated
      rw [translateCoordinate_of_get?_eq_some found,
        translateCoordinate_of_get?_eq_some composedFound]
      cases read : elements[coordinate.element]? with
      | none =>
          have beyond : images[coordinate.element]? = none := by
            rw [List.getElem?_eq_none_iff] at read ⊢
            exact pointwise.length_eq ▸ read
          rw [beyond]
          rfl
      | some middle =>
          obtain ⟨image, imageRead, step⟩ := exists_getElem?_left pointwise read
          rw [imageRead]
          exact step.symm

/-- Two maps compose when the second one translates everything that the first one yields. -/
theorem exists_compose
    (translates : ∀ entry ∈ first.entries, ∀ coordinate ∈ entry.2,
      ∃ image, second.translateCoordinate coordinate = .ok image) :
    ∃ composed, first.compose second = .ok composed := by
  have step : ∀ entry ∈ first.entries, ∃ image : OutputRef × Elements,
      (do return (entry.1, ← second.translate entry.2)) = Except.ok image := by
    intro entry mem
    obtain ⟨images, translated⟩ : ∃ images, second.translate entry.2 = .ok images :=
      exists_mapM_eq_ok (translates entry mem)
    exact ⟨(entry.1, images), by simp [translated]⟩
  obtain ⟨entries, done⟩ := exists_mapM_eq_ok step
  exact ⟨⟨entries⟩, bind_eq_ok_iff.mpr ⟨entries, done, rfl⟩⟩

end PortMap

end Dataflow
