import Mathlib

/-!
# Checks and actions that can fail

A check is an `Except` value.  An action works on a state, and what it did before a
failure stays done.  The laws of this module take both apart: a check passes when all
of its parts do, and an action succeeds when its steps succeed one after the other.
-/

namespace Dataflow

universe u

/-! ## Checks -/

section Checks

variable {ε α β γ : Type}

@[simp]
theorem bind_eq_ok_iff {check : Except ε α} {next : α → Except ε β} {result : β} :
    (check >>= next) = .ok result ↔ ∃ value, check = .ok value ∧ next value = .ok result := by
  cases check <;> simp [bind, Except.bind]

@[simp]
theorem map_eq_ok_iff {check : Except ε α} {change : α → β} {result : β} :
    (change <$> check) = .ok result ↔ ∃ value, check = .ok value ∧ change value = result := by
  cases check <;> simp [Functor.map, Except.map]

@[simp]
theorem pure_eq_ok_iff {value result : α} :
    (pure value : Except ε α) = .ok result ↔ value = result := by
  simp [pure, Except.pure]

@[simp]
theorem throw_ne_ok {error : ε} {result : α} : (throw error : Except ε α) ≠ .ok result := by
  simp [throw, throwThe, MonadExceptOf.throw]

@[simp]
theorem mapError_eq_ok_iff {δ : Type} {check : Except ε α} {change : ε → δ} {result : α} :
    check.mapError change = .ok result ↔ check = .ok result := by
  cases check <;> simp [Except.mapError]

theorem toOption_eq_some_iff {check : Except ε α} {result : α} :
    check.toOption = some result ↔ check = .ok result := by
  cases check <;> simp [Except.toOption]

/-- A check of all elements of a list passes when it passes for each of them. -/
theorem forM_eq_ok_iff {check : α → Except ε Unit} {items : List α} {result : Unit} :
    forM items check = .ok result ↔ ∀ item ∈ items, check item = .ok () := by
  induction items with
  | nil => simp
  | cons item rest ih =>
      have passes : (∃ value, check item = .ok value) ↔ check item = .ok () :=
        ⟨fun ⟨(), passed⟩ => passed, fun passed => ⟨(), passed⟩⟩
      simp [ih, passes]

/-- Checking the elements of a list one by one gives the results in order. -/
theorem mapM_eq_ok_iff {check : α → Except ε β} {items : List α} {results : List β} :
    items.mapM check = .ok results ↔
      List.Forall₂ (fun item result => check item = .ok result) items results := by
  induction items generalizing results with
  | nil => cases results <;> simp
  | cons item rest ih =>
      cases results with
      | nil => simp
      | cons result results => simp [ih]

/-- If a check passes for every element of a list, it passes for the list. -/
theorem exists_mapM_eq_ok {check : α → Except ε β} {items : List α}
    (passes : ∀ item ∈ items, ∃ result, check item = .ok result) :
    ∃ results, items.mapM check = .ok results := by
  induction items with
  | nil => exact ⟨[], rfl⟩
  | cons item rest ih =>
      obtain ⟨result, first⟩ := passes item List.mem_cons_self
      obtain ⟨results, others⟩ := ih fun other mem => passes other (List.mem_cons_of_mem _ mem)
      exact ⟨result :: results, by simp [first, others]⟩

/-- The first element that a check refuses decides the failure of a list. -/
theorem mapM_eq_error {check : α → Except ε β} {left right : List α} {item : α} {error : ε}
    (passes : ∀ first ∈ left, ∃ result, check first = .ok result) (fails : check item = .error error) :
    (left ++ item :: right).mapM check = .error error := by
  obtain ⟨results, done⟩ := exists_mapM_eq_ok passes
  simp only [List.mapM_append, done, List.mapM_cons, fails]
  rfl

/-- Checking lists one after the other is checking all their elements. -/
theorem mapM_flatten {check : α → Except ε β} (lists : List (List α)) :
    lists.flatten.mapM check = List.flatten <$> lists.mapM (·.mapM check) := by
  induction lists with
  | nil => rfl
  | cons first rest ih =>
      simp only [List.flatten_cons, List.mapM_append, List.mapM_cons, ih]
      cases first.mapM check with
      | error error => rfl
      | ok results => cases rest.mapM (·.mapM check) <;> rfl

/-- The first element that a check refuses decides the failure of several lists. -/
theorem mapM_lists_eq_error {check : α → Except ε β} {lists : List (List α)} {left right : List α}
    {item : α} {error : ε} (split : lists.flatten = left ++ item :: right)
    (passes : ∀ first ∈ left, ∃ result, check first = .ok result) (fails : check item = .error error) :
    lists.mapM (·.mapM check) = .error error := by
  have refused : lists.flatten.mapM check = .error error := split ▸ mapM_eq_error passes fails
  rw [mapM_flatten] at refused
  cases checked : lists.mapM (·.mapM check) with
  | error other => exact congrArg _ (Except.error.inj (checked ▸ refused))
  | ok results => cases checked ▸ refused

end Checks

/-! ## Lists that are related element by element -/

section Pointwise

variable {α β : Type} {related : α → β → Prop} {left : List α} {right : List β}

theorem exists_of_mem_left (pointwise : List.Forall₂ related left right) {first : α}
    (mem : first ∈ left) : ∃ second ∈ right, related first second := by
  obtain ⟨index, bound, rfl⟩ := List.getElem_of_mem mem
  exact ⟨_, List.getElem_mem _, pointwise.get bound (pointwise.length_eq ▸ bound)⟩

theorem exists_of_mem_right (pointwise : List.Forall₂ related left right) {second : β}
    (mem : second ∈ right) : ∃ first ∈ left, related first second :=
  exists_of_mem_left pointwise.flip mem

theorem exists_getElem?_left (pointwise : List.Forall₂ related left right) {index : Nat} {first : α}
    (found : left[index]? = some first) :
    ∃ second, right[index]? = some second ∧ related first second := by
  obtain ⟨bound, rfl⟩ := List.getElem?_eq_some_iff.mp found
  have rightBound : index < right.length := pointwise.length_eq ▸ bound
  exact ⟨_, List.getElem?_eq_getElem rightBound, pointwise.get bound rightBound⟩

theorem exists_getElem?_right (pointwise : List.Forall₂ related left right) {index : Nat}
    {second : β} (found : right[index]? = some second) :
    ∃ first, left[index]? = some first ∧ related first second :=
  exists_getElem?_left pointwise.flip found

/-- Elements that are related to something, one by one, are related to a list. -/
theorem exists_forall₂ (each : ∀ first ∈ left, ∃ second, related first second) :
    ∃ right, List.Forall₂ related left right := by
  induction left with
  | nil => exact ⟨[], .nil⟩
  | cons first rest ih =>
      obtain ⟨second, one⟩ := each first List.mem_cons_self
      obtain ⟨others, all⟩ := ih fun next mem => each next (List.mem_cons_of_mem _ mem)
      exact ⟨second :: others, .cons one all⟩

theorem forall₂_trans {γ : Type} {more : β → γ → Prop} {last : List γ}
    (first : List.Forall₂ related left right) (second : List.Forall₂ more right last) :
    List.Forall₂ (fun start stop => ∃ middle, related start middle ∧ more middle stop) left last := by
  induction first generalizing last with
  | nil => exact List.forall₂_nil_left_iff.mp second ▸ .nil
  | cons step _ ih =>
      obtain ⟨stop, rest, next, others, rfl⟩ := List.forall₂_cons_left_iff.mp second
      exact .cons ⟨_, step, next⟩ (ih others)

end Pointwise

/-! ## Actions -/

section Actions

variable {ε σ α β : Type}

/-- What an action gives on a state: its result or its failure, and the new state. -/
def outcome (action : ExceptT ε (StateM σ) α) (before : σ) : Except ε α × σ :=
  action.run.run before

/-- An action succeeds on a state with a result, and leaves another state. -/
def Succeeds (action : ExceptT ε (StateM σ) α) (before : σ) (result : α) (after : σ) : Prop :=
  outcome action before = (.ok result, after)

theorem outcome_bind (action : ExceptT ε (StateM σ) α) (next : α → ExceptT ε (StateM σ) β)
    (before : σ) :
    outcome (action >>= next) before =
      match outcome action before with
      | (.ok value, between) => outcome (next value) between
      | (.error error, between) => (.error error, between) := by
  simp only [outcome, ExceptT.run_bind, StateT.run_bind]
  rcases h : action.run.run before with ⟨_ | _, _⟩ <;> rfl

theorem outcome_bind_of_succeeds {action : ExceptT ε (StateM σ) α} {before between : σ}
    {value : α} (first : Succeeds action before value between)
    (next : α → ExceptT ε (StateM σ) β) :
    outcome (action >>= next) before = outcome (next value) between := by
  rw [outcome_bind, first]

@[simp]
theorem outcome_pure (value : α) (before : σ) :
    outcome (pure value : ExceptT ε (StateM σ) α) before = (.ok value, before) :=
  rfl

theorem outcome_map (action : ExceptT ε (StateM σ) α) (change : α → β) (before : σ) :
    outcome (change <$> action) before =
      match outcome action before with
      | (.ok value, after) => (.ok (change value), after)
      | (.error error, after) => (.error error, after) := by
  rw [← bind_pure_comp, outcome_bind]
  rcases outcome action before with ⟨_ | _, _⟩ <;> rfl

@[simp]
theorem outcome_throw (error : ε) (before : σ) :
    outcome (throw error : ExceptT ε (StateM σ) α) before = (.error error, before) :=
  rfl

@[simp]
theorem outcome_get (before : σ) :
    outcome (get : ExceptT ε (StateM σ) σ) before = (.ok before, before) :=
  rfl

@[simp]
theorem outcome_set (state before : σ) :
    outcome (set state : ExceptT ε (StateM σ) PUnit) before = (.ok ⟨⟩, state) :=
  rfl

@[simp]
theorem outcome_modify (change : σ → σ) (before : σ) :
    outcome (modify change : ExceptT ε (StateM σ) PUnit) before = (.ok ⟨⟩, change before) :=
  rfl

theorem outcome_tryCatch (action : ExceptT ε (StateM σ) α) (handler : ε → ExceptT ε (StateM σ) α)
    (before : σ) :
    outcome (tryCatch action handler) before =
      match outcome action before with
      | (.ok value, after) => (.ok value, after)
      | (.error error, after) => outcome (handler error) after := by
  simp only [outcome, tryCatch, tryCatchThe, MonadExceptOf.tryCatch, ExceptT.tryCatch, ExceptT.run,
    ExceptT.mk, StateT.run_bind]
  rcases h : StateT.run action before with ⟨_ | _, _⟩ <;> simp <;> rfl

/-- A handler is not asked when nothing fails. -/
theorem Succeeds.tryCatch {action : ExceptT ε (StateM σ) α} {before after : σ} {result : α}
    (succeeded : Succeeds action before result after) (handler : ε → ExceptT ε (StateM σ) α) :
    Succeeds (MonadExcept.tryCatch action handler) before result after := by
  unfold Succeeds at succeeded ⊢
  rw [outcome_tryCatch, succeeded]

@[simp]
theorem succeeds_bind_iff {action : ExceptT ε (StateM σ) α}
    {next : α → ExceptT ε (StateM σ) β} {before after : σ} {result : β} :
    Succeeds (action >>= next) before result after ↔
      ∃ value between, Succeeds action before value between ∧
        Succeeds (next value) between result after := by
  simp only [Succeeds, outcome_bind]
  rcases outcome action before with ⟨_ | value, between⟩
  · simp
  · constructor
    · intro continued
      exact ⟨value, between, rfl, continued⟩
    · rintro ⟨_, _, started, continued⟩
      cases started
      exact continued

@[simp]
theorem succeeds_pure_iff {value result : α} {before after : σ} :
    Succeeds (pure value : ExceptT ε (StateM σ) α) before result after ↔
      result = value ∧ after = before := by
  simp [Succeeds, eq_comm]

@[simp]
theorem succeeds_map_iff {action : ExceptT ε (StateM σ) α} {change : α → β}
    {before after : σ} {result : β} :
    Succeeds (change <$> action) before result after ↔
      ∃ value, Succeeds action before value after ∧ result = change value := by
  rw [← bind_pure_comp]
  simp only [succeeds_bind_iff, succeeds_pure_iff]
  constructor
  · rintro ⟨value, _, succeeded, rfl, rfl⟩
    exact ⟨value, succeeded, rfl⟩
  · rintro ⟨value, succeeded, rfl⟩
    exact ⟨value, after, succeeded, rfl, rfl⟩

/-- Two actions in a row fail when the first one does, or when it succeeds and the second one does. -/
theorem outcome_bind_eq_error_iff {action : ExceptT ε (StateM σ) α}
    {next : α → ExceptT ε (StateM σ) β} {before after : σ} {error : ε} :
    outcome (action >>= next) before = (.error error, after) ↔
      outcome action before = (.error error, after) ∨
        ∃ value between, Succeeds action before value between ∧
          outcome (next value) between = (.error error, after) := by
  simp only [Succeeds, outcome_bind]
  rcases outcome action before with ⟨_ | value, between⟩
  · simp
  · constructor
    · exact fun failed => .inr ⟨value, between, rfl, failed⟩
    · rintro (failed | ⟨_, _, started, failed⟩)
      · cases failed
      · cases started
        exact failed

theorem outcome_map_eq_error_iff {action : ExceptT ε (StateM σ) α} {change : α → β}
    {before after : σ} {error : ε} :
    outcome (change <$> action) before = (.error error, after) ↔
      outcome action before = (.error error, after) := by
  rw [outcome_map]
  rcases outcome action before with ⟨_ | _, _⟩ <;> simp

@[simp]
theorem not_succeeds_throw {error : ε} {before after : σ} {result : α} :
    ¬Succeeds (throw error : ExceptT ε (StateM σ) α) before result after := by
  simp [Succeeds]

@[simp]
theorem succeeds_get_iff {before result after : σ} :
    Succeeds (get : ExceptT ε (StateM σ) σ) before result after ↔
      result = before ∧ after = before := by
  simp [Succeeds, eq_comm]

@[simp]
theorem succeeds_set_iff {state before after : σ} {result : PUnit} :
    Succeeds (set state : ExceptT ε (StateM σ) PUnit) before result after ↔ after = state := by
  simp [Succeeds, eq_comm]

@[simp]
theorem succeeds_modify_iff {change : σ → σ} {before after : σ} {result : PUnit} :
    Succeeds (modify change : ExceptT ε (StateM σ) PUnit) before result after ↔
      after = change before := by
  simp [Succeeds, eq_comm]

/-! ## Invariants of actions -/

/-- Whether an action fails or not, it keeps an invariant of the state; if it does not fail, its
result meets a condition. -/
def Keeps (invariant : σ → Prop) (action : ExceptT ε (StateM σ) α) (condition : α → Prop) : Prop :=
  ∀ before, invariant before → invariant (outcome action before).2 ∧
    ∀ result after, Succeeds action before result after → condition result

variable {invariant : σ → Prop} {condition : α → Prop} {action : ExceptT ε (StateM σ) α}

theorem keeps_pure {value : α} (meets : condition value) :
    Keeps (ε := ε) invariant (pure value) condition :=
  fun _ holds => ⟨holds, fun _ _ succeeded => (succeeds_pure_iff.mp succeeded).1 ▸ meets⟩

theorem keeps_throw (error : ε) :
    Keeps invariant (throw error : ExceptT ε (StateM σ) α) condition :=
  fun _ holds => ⟨holds, fun _ _ succeeded => absurd succeeded not_succeeds_throw⟩

theorem keeps_get : Keeps invariant (get : ExceptT ε (StateM σ) σ) invariant :=
  fun _ holds => ⟨holds, fun _ _ succeeded => (succeeds_get_iff.mp succeeded).1 ▸ holds⟩

theorem keeps_modify {change : σ → σ} (keeps : ∀ state, invariant state → invariant (change state)) :
    Keeps invariant (modify change : ExceptT ε (StateM σ) PUnit) fun _ => True :=
  fun before holds => ⟨keeps before holds, fun _ _ _ => trivial⟩

theorem Keeps.bind {next : α → ExceptT ε (StateM σ) β} {later : β → Prop}
    (first : Keeps invariant action condition)
    (second : ∀ value, condition value → Keeps invariant (next value) later) :
    Keeps invariant (action >>= next) later := by
  intro before holds
  obtain ⟨kept, meets⟩ := first before holds
  constructor
  · rw [outcome_bind]
    rcases done : outcome action before with ⟨error | value, between⟩
    · rwa [done] at kept
    · rw [done] at kept
      exact (second value (meets value between done) between kept).1
  · intro result after succeeded
    obtain ⟨value, between, done, rest⟩ := succeeds_bind_iff.mp succeeded
    have betweenHolds : invariant between := by rwa [done] at kept
    exact (second value (meets value between done) between betweenHolds).2 result after rest

theorem Keeps.mono {weaker : α → Prop} (keeps : Keeps invariant action condition)
    (implies : ∀ value, condition value → weaker value) : Keeps invariant action weaker :=
  fun before holds => ⟨(keeps before holds).1,
    fun result after succeeded => implies result ((keeps before holds).2 result after succeeded)⟩

theorem Keeps.tryCatch {handler : ε → ExceptT ε (StateM σ) α} (keeps : Keeps invariant action condition)
    (handles : ∀ error, Keeps invariant (handler error) condition) :
    Keeps invariant (tryCatch action handler) condition := by
  intro before holds
  obtain ⟨kept, meets⟩ := keeps before holds
  have unfolded := outcome_tryCatch action handler before
  rcases done : outcome action before with ⟨error | value, between⟩
  · rw [done] at kept
    simp only [done] at unfolded
    obtain ⟨handled, meetsAfter⟩ := handles error between kept
    refine ⟨unfolded ▸ handled, fun result after succeeded => meetsAfter result after ?_⟩
    exact unfolded.symm.trans succeeded
  · rw [done] at kept
    simp only [done] at unfolded
    refine ⟨unfolded ▸ kept, fun result after succeeded => ?_⟩
    obtain ⟨rfl, _⟩ : value = result ∧ between = after := by
      simpa using unfolded.symm.trans succeeded
    exact meets value between done

end Actions

end Dataflow
