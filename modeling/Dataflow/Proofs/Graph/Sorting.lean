import Dataflow.Graph.TopologicalSort
import Mathlib

/-!
# What the sort lists

The walk of the sort is described by a relation without any bound on its depth: a derivation is a
walk that has ended.  When the nodes with dependencies that the roots reach are finitely many, the
walk ends, and the sort follows it.  A walk that meets no cycle lists what it reaches, once each and
after all of its dependencies; a walk that meets one returns a way around it.  Exactly the lists with
every node once and after all of its dependencies are left as they are.
-/

namespace Dataflow

variable {α : Type} {dependencies : α → List α}

/-! ## Reachable nodes -/

/-- A node depends directly on another one. -/
def DependsOn (dependencies : α → List α) (node source : α) : Prop :=
  source ∈ dependencies node

/-- A node is one of the roots, or one of them depends on it, directly or not. -/
def Reaches (dependencies : α → List α) (roots : List α) (node : α) : Prop :=
  ∃ root ∈ roots, Relation.ReflTransGen (DependsOn dependencies) root node

section Reaching

variable {roots others : List α} {node source : α}

theorem reaches_of_mem (mem : node ∈ roots) : Reaches dependencies roots node :=
  ⟨node, mem, .refl⟩

theorem Reaches.step (reaches : Reaches dependencies roots node) (read : source ∈ dependencies node) :
    Reaches dependencies roots source := by
  obtain ⟨root, mem, path⟩ := reaches
  exact ⟨root, mem, path.tail read⟩

/-- What is reached from reachable nodes is reachable. -/
theorem Reaches.trans (reaches : Reaches dependencies others node)
    (each : ∀ other ∈ others, Reaches dependencies roots other) : Reaches dependencies roots node := by
  obtain ⟨other, mem, path⟩ := reaches
  obtain ⟨root, rootMem, before⟩ := each other mem
  exact ⟨root, rootMem, before.trans path⟩

theorem Reaches.mono (reaches : Reaches dependencies others node) (sub : others ⊆ roots) :
    Reaches dependencies roots node :=
  reaches.trans fun _ mem => reaches_of_mem (sub mem)

/-- What is reached along fewer dependencies is reached along all of them. -/
theorem Reaches.of_subset {fewer : α → List α} (reaches : Reaches fewer roots node)
    (sub : ∀ node, fewer node ⊆ dependencies node) : Reaches dependencies roots node := by
  obtain ⟨root, mem, path⟩ := reaches
  have along : DependsOn fewer ≤ DependsOn dependencies := fun outer _ read => sub outer read
  exact ⟨root, mem, Relation.ReflTransGen.mono along _ _ path⟩

theorem reaches_dependencies (reaches : Reaches dependencies (dependencies node) source) :
    Reaches dependencies [node] source :=
  reaches.trans fun _ read => (reaches_of_mem List.mem_cons_self).step read

end Reaching

/-! ## Lists in order -/

section Orders

variable {listed : List α} {node source : α}

/-- A list has every node once, after all of its dependencies. -/
structure DependencyOrder (dependencies : α → List α) (listed : List α) : Prop where
  once : listed.Nodup
  after : ∀ left node right, listed = left ++ node :: right → ∀ source ∈ dependencies node,
    source ∈ left

theorem dependencyOrder_nil : DependencyOrder dependencies [] :=
  ⟨List.nodup_nil, fun _ _ _ split => by simp at split⟩

/-- A new node whose dependencies are listed can come next. -/
theorem DependencyOrder.snoc (ordered : DependencyOrder dependencies listed) (fresh : node ∉ listed)
    (covered : ∀ source ∈ dependencies node, source ∈ listed) :
    DependencyOrder dependencies (listed ++ [node]) := by
  refine ⟨ordered.once.append (List.nodup_singleton _) (by simpa using fresh), ?_⟩
  intro left other right split source read
  rcases List.eq_nil_or_concat right with rfl | ⟨front, last, rfl⟩
  · obtain ⟨rfl, same⟩ := List.append_inj' split rfl
    obtain rfl := List.singleton_inj.mp same
    exact covered source read
  · rw [List.concat_eq_append, ← List.cons_append, ← List.append_assoc] at split
    obtain ⟨rfl, _⟩ := List.append_inj' split rfl
    exact ordered.after left other front rfl source read

/-- An order for some dependencies is one for fewer dependencies. -/
theorem DependencyOrder.of_subset {fewer : α → List α} (ordered : DependencyOrder dependencies listed)
    (sub : ∀ node ∈ listed, fewer node ⊆ dependencies node) : DependencyOrder fewer listed := by
  refine ⟨ordered.once, fun left node right split source read => ?_⟩
  have mem : node ∈ listed := split ▸ List.mem_append_right left List.mem_cons_self
  exact ordered.after left node right split source (sub node mem read)

/-- What a listed node depends on, directly or not, comes before it. -/
theorem DependencyOrder.mem_left (ordered : DependencyOrder dependencies listed) {left right : List α}
    (split : listed = left ++ node :: right)
    (path : Relation.TransGen (DependsOn dependencies) node source) : source ∈ left := by
  induction path with
  | single read => exact ordered.after left node right split _ read
  | tail _ read ih =>
      obtain ⟨front, back, rfl⟩ := List.append_of_mem ih
      refine List.mem_append_left _ (ordered.after front _ (back ++ node :: right) ?_ _ read)
      simp [split]

theorem DependencyOrder.acyclic (ordered : DependencyOrder dependencies listed) (mem : node ∈ listed) :
    ¬Relation.TransGen (DependsOn dependencies) node node := by
  intro around
  obtain ⟨left, right, rfl⟩ := List.append_of_mem mem
  have before := ordered.mem_left rfl around
  exact (List.nodup_append.mp ordered.once).2.2 node before node List.mem_cons_self rfl

end Orders

/-! ## Cycles -/

section Cycles

variable {path nodes cycle : List α} {node : α}

/-- A way from a node back to itself along dependencies, on which no node comes twice: its first
node stands at its end again. -/
def IsCycle (dependencies : α → List α) (cycle : List α) : Prop :=
  ∃ first inner, cycle = first :: inner ++ [first] ∧ (first :: inner).Nodup ∧
    cycle.IsChain (DependsOn dependencies)

theorem IsCycle.exists_around (isCycle : IsCycle dependencies cycle) :
    ∃ node ∈ cycle, Relation.TransGen (DependsOn dependencies) node node := by
  obtain ⟨first, inner, rfl, _, chain⟩ := isCycle
  refine ⟨first, List.mem_cons_self, ?_⟩
  have transitive := (chain.imp fun _ _ => Relation.TransGen.single).pairwise
  exact (List.pairwise_cons.mp transitive).1 first (by simp)

/-- A path that a walk takes, innermost node first: nodes read each other in turn, none of them comes
twice, and the innermost one reads what is visited next. -/
structure Trail (dependencies : α → List α) (path nodes : List α) : Prop where
  chain : path.IsChain fun inner outer => DependsOn dependencies outer inner
  once : path.Nodup
  next : ∀ node ∈ nodes, ∀ inner ∈ path.head?, DependsOn dependencies inner node

theorem trail_nil (roots : List α) : Trail dependencies [] roots :=
  ⟨.nil, List.nodup_nil, fun _ _ _ mem => by simp at mem⟩

theorem Trail.rest {rest : List α} (trail : Trail dependencies path (node :: rest)) :
    Trail dependencies path rest :=
  ⟨trail.chain, trail.once, fun other mem => trail.next other (List.mem_cons_of_mem _ mem)⟩

theorem Trail.chain_cons {rest : List α} (trail : Trail dependencies path (node :: rest)) :
    (node :: path).IsChain fun inner outer => DependsOn dependencies outer inner :=
  trail.chain.cons fun inner mem => trail.next node List.mem_cons_self inner mem

theorem Trail.enter {rest : List α} (trail : Trail dependencies path (node :: rest))
    (new : node ∉ path) : Trail dependencies (node :: path) (dependencies node) :=
  ⟨trail.chain_cons, List.nodup_cons.mpr ⟨new, trail.once⟩, fun source read inner mem => by
    obtain rfl := Option.mem_some_iff.mp mem
    exact read⟩

/-- The part of a path down to a node that is met again is a cycle. -/
theorem Trail.isCycle [DecidableEq α] {rest : List α} (trail : Trail dependencies path (node :: rest))
    (onPath : node ∈ path) :
    IsCycle dependencies (node :: (path.takeWhile (· ≠ node)).reverse ++ [node]) := by
  obtain ⟨front, back, rfl, fresh⟩ := List.eq_append_cons_of_mem onPath
  have taken : (front ++ node :: back).takeWhile (· ≠ node) = front := by
    rw [List.takeWhile_append_of_pos fun other mem => by
      simpa using fun same : other = node => fresh (same ▸ mem)]
    simp
  have around : (node :: front ++ [node]).IsChain
      fun inner outer => DependsOn dependencies outer inner := by
    refine trail.chain_cons.prefix ⟨back, ?_⟩
    simp
  refine ⟨node, front.reverse, by rw [taken], ?_, ?_⟩
  · rw [List.nodup_cons, List.mem_reverse, List.nodup_reverse]
    exact ⟨fresh, (List.nodup_append.mp trail.once).1⟩
  · rw [taken]
    have reversed := List.isChain_reverse.mpr around
    simpa using reversed

end Cycles

/-! ## Walks -/

section Walks

variable [DecidableEq α]

/-- The walk that lists `nodes` and what they depend on after those that are `sorted`, with a `path`
that leads to them.  It ends with the longer list or with a cycle. -/
inductive Walks (dependencies : α → List α) :
    (path nodes sorted : List α) → Except (List α) (List α) → Prop
  | done {path sorted : List α} : Walks dependencies path [] sorted (.ok sorted)
  /-- A node of the path is met again. -/
  | meets {path rest sorted : List α} {node : α} (onPath : node ∈ path) :
      Walks dependencies path (node :: rest) sorted
        (.error (node :: (path.takeWhile (· ≠ node)).reverse ++ [node]))
  /-- A node is listed already. -/
  | skips {path rest sorted : List α} {node : α} {outcome : Except (List α) (List α)}
      (new : node ∉ path) (listed : node ∈ sorted)
      (others : Walks dependencies path rest sorted outcome) :
      Walks dependencies path (node :: rest) sorted outcome
  /-- A cycle is met below a node. -/
  | fails {path rest sorted cycle : List α} {node : α} (new : node ∉ path) (unlisted : node ∉ sorted)
      (inner : Walks dependencies (node :: path) (dependencies node) sorted (.error cycle)) :
      Walks dependencies path (node :: rest) sorted (.error cycle)
  /-- A node is listed after its dependencies. -/
  | lists {path rest sorted listed : List α} {node : α} {outcome : Except (List α) (List α)}
      (new : node ∉ path) (unlisted : node ∉ sorted)
      (inner : Walks dependencies (node :: path) (dependencies node) sorted (.ok listed))
      (others : Walks dependencies path rest (listed ++ [node]) outcome) :
      Walks dependencies path (node :: rest) sorted outcome

variable {path nodes sorted listed cycle roots : List α} {node source : α}
  {outcome : Except (List α) (List α)}

/-- A walk has one outcome. -/
theorem Walks.unique {other : Except (List α) (List α)}
    (walk : Walks dependencies path nodes sorted outcome)
    (again : Walks dependencies path nodes sorted other) : outcome = other := by
  induction walk generalizing other with
  | done => cases again; rfl
  | meets onPath =>
      cases again with
      | meets _ => rfl
      | skips new _ _ | fails new _ _ | lists new _ _ _ => exact absurd onPath new
  | skips new listed _ ih =>
      cases again with
      | meets onPath => exact absurd onPath new
      | skips _ _ others => exact ih others
      | fails _ unlisted _ | lists _ unlisted _ _ => exact absurd listed unlisted
  | fails new unlisted _ ih =>
      cases again with
      | meets onPath => exact absurd onPath new
      | skips _ listed _ => exact absurd listed unlisted
      | fails _ _ inner => exact ih inner
      | lists _ _ inner _ => exact absurd (ih inner) (by simp)
  | lists new unlisted _ _ innerIh othersIh =>
      cases again with
      | meets onPath => exact absurd onPath new
      | skips _ listed _ => exact absurd listed unlisted
      | fails _ _ inner => exact absurd (innerIh inner) (by simp)
      | lists _ _ inner others =>
          obtain rfl := Except.ok.inj (innerIh inner)
          exact othersIh others

/-- Only the dependencies of reachable nodes matter to a walk. -/
theorem Walks.congr {others : α → List α} (walk : Walks dependencies path nodes sorted outcome)
    (same : ∀ node, Reaches dependencies nodes node → others node = dependencies node) :
    Walks others path nodes sorted outcome := by
  induction walk with
  | done => exact .done
  | meets onPath => exact .meets onPath
  | skips new listed _ ih =>
      exact .skips new listed (ih fun node reaches => same node (reaches.mono (List.subset_cons_self _ _)))
  | fails new unlisted _ ih =>
      refine .fails new unlisted ?_
      rw [same _ (reaches_of_mem List.mem_cons_self)]
      exact ih fun node reaches => same node ((reaches_dependencies reaches).mono (by simp))
  | lists new unlisted _ _ innerIh othersIh =>
      refine .lists new unlisted ?_
        (othersIh fun node reaches => same node (reaches.mono (List.subset_cons_self _ _)))
      rw [same _ (reaches_of_mem List.mem_cons_self)]
      exact innerIh fun node reaches => same node ((reaches_dependencies reaches).mono (by simp))

/-- The dependencies of the nodes of a list.  All other nodes count as nodes without any. -/
def followed (nodes : List α) (dependencies : α → List α) (node : α) : List α :=
  if node ∈ nodes then dependencies node else []

theorem followed_of_mem (mem : node ∈ nodes) :
    followed nodes dependencies node = dependencies node :=
  if_pos mem

theorem followed_of_not_mem (absent : node ∉ nodes) : followed nodes dependencies node = [] :=
  if_neg absent

theorem followed_subset (nodes : List α) (node : α) :
    followed nodes dependencies node ⊆ dependencies node := by
  by_cases mem : node ∈ nodes
  · rw [followed_of_mem mem]
    exact List.Subset.refl _
  · rw [followed_of_not_mem mem]
    exact List.nil_subset _

/-- The sort ends as the walk does that follows the nodes of its list.  A step into the dependencies
of a node moves the node from the list to the path, so both together stay the same nodes. -/
theorem walks_sortFrom (known remaining path nodes sorted : List α)
    (parts : ∀ node, node ∈ known ↔ node ∈ remaining ∨ node ∈ path) :
    Walks (followed known dependencies) path nodes sorted
      (sortFrom dependencies remaining path nodes sorted) := by
  have partsInner : ∀ {remaining path : List α} {node : α}, node ∈ remaining →
      (∀ other, other ∈ known ↔ other ∈ remaining ∨ other ∈ path) →
      ∀ other, other ∈ known ↔ other ∈ remaining.erase node ∨ other ∈ node :: path := by
    intro remaining path node left parts other
    rw [parts, List.mem_cons]
    by_cases same : other = node
    · simp [same, left]
    · simp [same, List.mem_erase_of_ne same]
  induction remaining, path, nodes, sorted using sortFrom.induct dependencies with
  | case1 remaining path sorted =>
      rw [sortFrom]
      exact .done
  | case2 remaining path node rest sorted onPath =>
      rw [sortFrom, if_pos onPath]
      exact .meets onPath
  | case3 remaining path node rest sorted new listed ih =>
      rw [sortFrom, if_neg new, if_pos listed]
      exact .skips new listed (ih parts)
  | case4 remaining path node rest sorted new unlisted left cycle failed ih =>
      have inner := ih (partsInner left parts)
      have same : followed known dependencies node = dependencies node :=
        followed_of_mem ((parts node).mpr (.inl left))
      rw [failed, ← same] at inner
      simp only [sortFrom, new, unlisted, left, failed, if_false, dif_pos]
      exact .fails new unlisted inner
  | case5 remaining path node rest sorted new unlisted left listed walked innerIh ih =>
      have inner := innerIh (partsInner left parts)
      have same : followed known dependencies node = dependencies node :=
        followed_of_mem ((parts node).mpr (.inl left))
      rw [walked, ← same] at inner
      simp only [sortFrom, new, unlisted, left, walked, if_false, dif_pos]
      exact .lists new unlisted inner (ih parts)
  | case6 remaining path node rest sorted new unlisted unknown ih =>
      have leaf : followed known dependencies node = [] := by
        refine followed_of_not_mem fun mem => ?_
        rcases (parts node).mp mem with left | onPath
        · exact unknown left
        · exact new onPath
      simp only [sortFrom, new, unlisted, unknown, if_false, dif_neg, not_false_eq_true]
      exact .lists new unlisted (leaf ▸ .done) (ih parts)

/-! ## Outcomes -/

/-- What a walk without a cycle has listed. -/
structure Lists (dependencies : α → List α) (path nodes sorted listed : List α) : Prop where
  ordered : DependencyOrder dependencies listed
  apart : ∀ outer ∈ path, outer ∉ listed
  kept : sorted ⊆ listed
  covered : nodes ⊆ listed
  reached : ∀ node ∈ listed, node ∈ sorted ∨ Reaches dependencies nodes node

/-- The induction is on the walk.  Nodes of the path are never listed below it, so a node is new when
its dependencies are done. -/
theorem Walks.lists_of_ok (walk : Walks dependencies path nodes sorted (.ok listed))
    (ordered : DependencyOrder dependencies sorted) (apart : ∀ outer ∈ path, outer ∉ sorted) :
    Lists dependencies path nodes sorted listed := by
  generalize ended : Except.ok listed = outcome at walk
  induction walk generalizing listed with
  | done =>
      obtain rfl := Except.ok.inj ended
      exact ⟨ordered, apart, List.Subset.refl _, List.nil_subset _, fun _ mem => .inl mem⟩
  | meets _ => contradiction
  | skips new known _ ih =>
      have rest := ih ordered apart ended
      exact ⟨rest.ordered, rest.apart, rest.kept, List.cons_subset.mpr ⟨rest.kept known, rest.covered⟩,
        fun node mem => (rest.reached node mem).imp_right (·.mono (List.subset_cons_self _ _))⟩
  | fails _ _ _ _ => contradiction
  | @lists path rest sorted inner node outcome new unlisted _ _ innerIh othersIh =>
      have below := innerIh ordered (List.forall_mem_cons.mpr ⟨unlisted, apart⟩) rfl
      have fresh : node ∉ inner := below.apart node List.mem_cons_self
      have others := othersIh (below.ordered.snoc fresh below.covered) (fun outer mem => by
        rw [List.mem_append, List.mem_singleton, not_or]
        exact ⟨below.apart outer (List.mem_cons_of_mem _ mem), fun same => new (same ▸ mem)⟩) ended
      have innerKept : inner ⊆ listed := fun other mem => others.kept (List.mem_append_left _ mem)
      have nodeKept : node ∈ listed := others.kept (List.mem_append_right _ List.mem_cons_self)
      refine ⟨others.ordered, others.apart, fun other mem => innerKept (below.kept mem),
        List.cons_subset.mpr ⟨nodeKept, others.covered⟩, fun other mem => ?_⟩
      rcases others.reached other mem with early | late
      · rcases List.mem_append.mp early with inside | last
        · exact (below.reached other inside).imp_right fun reaches =>
            (reaches_dependencies reaches).mono (by simp)
        · obtain rfl := List.mem_singleton.mp last
          exact .inr (reaches_of_mem List.mem_cons_self)
      · exact .inr (late.mono (List.subset_cons_self _ _))

/-- The induction is on the walk; the trail is the path so far. -/
theorem Walks.isCycle_of_error (walk : Walks dependencies path nodes sorted (.error cycle))
    (trail : Trail dependencies path nodes) :
    IsCycle dependencies cycle ∧ ∀ node ∈ cycle, Reaches dependencies (path ++ nodes) node := by
  generalize ended : Except.error cycle = outcome at walk
  induction walk generalizing cycle with
  | done => contradiction
  | @meets path rest sorted node onPath =>
      obtain rfl := Except.error.inj ended
      refine ⟨trail.isCycle onPath, fun other mem => reaches_of_mem ?_⟩
      have within : ∀ inner ∈ path.takeWhile (· ≠ node), inner ∈ path :=
        fun inner mem => (List.takeWhile_prefix _).subset mem
      simp only [List.cons_append, List.mem_cons, List.mem_append, List.mem_reverse,
        List.not_mem_nil, or_false] at mem ⊢
      rcases mem with rfl | inner | rfl
      · exact .inl onPath
      · exact .inl (within other inner)
      · exact .inl onPath
  | @skips path rest _ _ _ _ _ _ ih =>
      obtain ⟨isCycle, reached⟩ := ih trail.rest ended
      refine ⟨isCycle, fun other mem => (reached other mem).mono ?_⟩
      simp
  | @fails path rest _ _ node new _ _ ih =>
      obtain ⟨isCycle, reached⟩ := ih (trail.enter new) ended
      refine ⟨isCycle, fun other mem => (reached other mem).trans fun start startMem => ?_⟩
      have entered : Reaches dependencies (path ++ node :: rest) node := reaches_of_mem (by simp)
      rcases List.mem_append.mp startMem with onPath | read
      · rcases List.mem_cons.mp onPath with rfl | outside
        · exact entered
        · exact reaches_of_mem (List.mem_append_left _ outside)
      · exact entered.step read
  | @lists path rest _ _ _ _ _ _ _ _ _ othersIh =>
      obtain ⟨isCycle, reached⟩ := othersIh trail.rest ended
      refine ⟨isCycle, fun other mem => (reached other mem).mono ?_⟩
      simp

/-- Nothing is listed again. -/
theorem walks_of_subset (apart : ∀ node ∈ nodes, node ∉ path) (listed : nodes ⊆ sorted) :
    Walks dependencies path nodes sorted (.ok sorted) := by
  induction nodes with
  | nil => exact .done
  | cons node rest ih =>
      obtain ⟨known, others⟩ := List.cons_subset.mp listed
      exact .skips (apart node List.mem_cons_self) known
        (ih (fun other mem => apart other (List.mem_cons_of_mem _ mem)) others)

/-- Roots that are in order already are listed as they are: when the walk comes to one of them, all
of its dependencies are listed. -/
theorem DependencyOrder.walks (ordered : DependencyOrder dependencies (sorted ++ nodes)) :
    Walks dependencies [] nodes sorted (.ok (sorted ++ nodes)) := by
  induction nodes generalizing sorted with
  | nil => exact (List.append_nil sorted).symm ▸ .done
  | cons node rest ih =>
      have fresh : node ∉ sorted := fun mem =>
        (List.nodup_append.mp ordered.once).2.2 node mem node List.mem_cons_self rfl
      have covered : dependencies node ⊆ sorted := ordered.after sorted node rest rfl
      rw [List.append_cons] at ordered ⊢
      refine .lists List.not_mem_nil fresh (walks_of_subset ?_ covered) (ih ordered)
      intro source read
      rw [List.mem_singleton]
      rintro rfl
      exact fresh (covered read)

end Walks

/-! ## The sort -/

section Sorting

variable [DecidableEq α] {nodes roots : List α}

theorem walks_topologicalSort (nodes roots : List α) :
    Walks (followed nodes dependencies) [] roots [] (topologicalSort nodes dependencies roots) :=
  walks_sortFrom nodes nodes [] roots [] fun _ => by simp

/-- A list has all nodes that some roots reach and that have dependencies. -/
def Covers (dependencies : α → List α) (nodes roots : List α) : Prop :=
  ∀ node, Reaches dependencies roots node → dependencies node ≠ [] → node ∈ nodes

/-- The sort returns the outcome of the walk. -/
theorem Covers.walks_iff (covers : Covers dependencies nodes roots)
    {outcome : Except (List α) (List α)} :
    Walks dependencies [] roots [] outcome ↔ topologicalSort nodes dependencies roots = outcome := by
  have walk : Walks dependencies [] roots [] (topologicalSort nodes dependencies roots) := by
    refine (walks_topologicalSort nodes roots).congr fun node reaches => ?_
    have reached := reaches.of_subset (followed_subset nodes)
    by_cases mem : node ∈ nodes
    · exact (followed_of_mem mem).symm
    · rw [followed_of_not_mem mem]
      by_contra inner
      exact mem (covers node reached inner)
  exact ⟨walk.unique, fun same => same ▸ walk⟩

/-- What the sort lists is in order, and it is what the roots reach. -/
theorem Covers.of_ok (covers : Covers dependencies nodes roots) {listed : List α}
    (sorted : topologicalSort nodes dependencies roots = .ok listed) :
    DependencyOrder dependencies listed ∧
      ∀ node, node ∈ listed ↔ Reaches dependencies roots node := by
  have lists := (covers.walks_iff.mpr sorted).lists_of_ok dependencyOrder_nil (by simp)
  refine ⟨lists.ordered, fun node => ⟨fun mem => ?_, ?_⟩⟩
  · exact (lists.reached node mem).resolve_left List.not_mem_nil
  · rintro ⟨root, rootMem, path⟩
    induction path with
    | refl => exact lists.covered rootMem
    | tail _ read ih =>
        obtain ⟨left, right, split⟩ := List.append_of_mem ih
        exact split ▸ List.mem_append_left _ (lists.ordered.after left _ right split _ read)

theorem Covers.of_error (covers : Covers dependencies nodes roots) {cycle : List α}
    (met : topologicalSort nodes dependencies roots = .error cycle) :
    IsCycle dependencies cycle ∧ ∀ node ∈ cycle, Reaches dependencies roots node :=
  (covers.walks_iff.mpr met).isCycle_of_error (trail_nil roots)

omit [DecidableEq α] in
/-- Finitely many reachable nodes can be listed. -/
theorem exists_covers (finite : {node | Reaches dependencies roots node}.Finite) :
    ∃ nodes, Covers dependencies nodes roots :=
  ⟨finite.toFinset.toList, fun node reaches _ => by simpa using reaches⟩

/-- The sort decides whether some roots reach a cycle.  When the nodes that they reach are finitely
many, the depth-first walk from the roots ends, and for every list that covers these nodes the sort
returns its outcome.  It is a failure exactly when a cycle is reachable.  A failure returns a cycle
that is reachable, and a list has exactly the reachable nodes, once each and after all of their
dependencies. -/
theorem topologicalSort_decides (finite : {node | Reaches dependencies roots node}.Finite) :
    ∃ outcome, Walks dependencies [] roots [] outcome ∧
      (∃ nodes, Covers dependencies nodes roots) ∧
      (∀ nodes, Covers dependencies nodes roots →
        topologicalSort nodes dependencies roots = outcome) ∧
      ((∃ cycle, outcome = .error cycle) ↔
        ∃ node, Reaches dependencies roots node ∧
          Relation.TransGen (DependsOn dependencies) node node) ∧
      (∀ cycle, outcome = .error cycle →
        IsCycle dependencies cycle ∧ ∀ node ∈ cycle, Reaches dependencies roots node) ∧
      ∀ listed, outcome = .ok listed →
        DependencyOrder dependencies listed ∧
          ∀ node, node ∈ listed ↔ Reaches dependencies roots node := by
  obtain ⟨nodes, covers⟩ := exists_covers finite
  have walk := covers.walks_iff.mpr rfl
  refine ⟨topologicalSort nodes dependencies roots, walk, ⟨nodes, covers⟩,
    fun _ others => others.walks_iff.mp walk, ⟨?_, ?_⟩, fun _ => covers.of_error,
    fun _ => covers.of_ok⟩
  · rintro ⟨cycle, met⟩
    obtain ⟨isCycle, reached⟩ := covers.of_error met
    obtain ⟨node, mem, around⟩ := isCycle.exists_around
    exact ⟨node, reached node mem, around⟩
  · rintro ⟨node, reaches, around⟩
    cases sorted : topologicalSort nodes dependencies roots with
    | error cycle => exact ⟨cycle, rfl⟩
    | ok listed =>
        obtain ⟨ordered, members⟩ := covers.of_ok sorted
        exact absurd around (ordered.acyclic ((members node).mpr reaches))

end Sorting

/-- Dependencies with a cycle that does not go through the node that leads into it. -/
def looped : Nat → List Nat
  | 0 => [3, 1, 1]
  | 1 => [3, 2]
  | 2 => [1]
  | _ => []

/-- The loop is found from the root that leads into it, and what is listed before does not matter. -/
theorem topologicalSort_decides_looped :
    topologicalSort [0, 1, 2] looped [4, 0] = .error [1, 2, 1] ∧
      IsCycle looped [1, 2, 1] ∧
      ∃ node, Reaches looped [4, 0] node ∧ Relation.TransGen (DependsOn looped) node node := by
  have reads : ∀ node, ∀ source ∈ looped node, source ≤ 4 := by
    rintro (_ | _ | _ | node) <;> simp [looped]
  have finite : {node | Reaches looped [4, 0] node}.Finite := by
    refine (Set.finite_le_nat 4).subset ?_
    rintro node ⟨root, mem, path⟩
    cases path with
    | refl => exact (by decide : ∀ root ∈ [4, 0], root ≤ 4) node mem
    | tail _ read => exact reads _ _ read
  have covers : Covers looped [0, 1, 2] [4, 0] := by
    rintro (_ | _ | _ | node) _ inner
    · decide
    · decide
    · decide
    · exact absurd rfl inner
  have walk : Walks looped [] [4, 0] [] (.error [1, 2, 1]) := by
    refine .lists (by decide) (by decide) .done ?_
    refine .fails (by decide) (by decide) ?_
    refine .lists (by decide) (by decide) .done ?_
    refine .fails (by decide) (by decide) ?_
    refine .skips (by decide) (by decide) ?_
    exact .fails (by decide) (by decide) (.meets (by decide))
  obtain ⟨outcome, ends, _, sorts, decides, cycles, _⟩ := topologicalSort_decides finite
  obtain rfl := ends.unique walk
  exact ⟨sorts _ covers, (cycles _ rfl).1, decides.mp ⟨_, rfl⟩⟩

/-! ## Lists that are in order already -/

section Stability

variable [DecidableEq α] {roots : List α}

/-- A list in order stays in order when the sort follows fewer dependencies, so it does not matter
which ones the sort follows. -/
theorem DependencyOrder.topologicalSort_eq (ordered : DependencyOrder dependencies roots)
    (nodes : List α) : topologicalSort nodes dependencies roots = .ok roots := by
  have fewer : DependencyOrder (followed nodes dependencies) ([] ++ roots) :=
    ordered.of_subset fun node _ => followed_subset nodes node
  exact (walks_topologicalSort nodes roots).unique fewer.walks

theorem Walks.dependencyOrder {listed : List α} (walk : Walks dependencies [] roots [] (.ok listed)) :
    DependencyOrder dependencies listed :=
  (walk.lists_of_ok dependencyOrder_nil (fun _ onPath => absurd onPath List.not_mem_nil)).ordered

/-- A sort that follows all nodes of a list and returns the list has seen all dependencies. -/
theorem dependencyOrder_of_topologicalSort_eq
    (same : topologicalSort roots dependencies roots = .ok roots) :
    DependencyOrder dependencies roots := by
  have walk : Walks (followed roots dependencies) [] roots [] (.ok roots) :=
    same ▸ walks_topologicalSort roots roots
  refine walk.dependencyOrder.of_subset fun node mem => ?_
  rw [followed_of_mem mem]
  exact List.Subset.refl _

/-- Sorting is stable.  The depth-first walk from a list ends with this very list exactly when the
list has every node once and after all of its dependencies.  Then the sort returns the list, whatever
nodes it follows, and it returns no other list unchanged when it follows the nodes of that list. -/
theorem topologicalSort_leaves_orders (roots : List α) :
    (DependencyOrder dependencies roots ↔ Walks dependencies [] roots [] (.ok roots)) ∧
      (DependencyOrder dependencies roots →
        ∀ nodes, topologicalSort nodes dependencies roots = .ok roots) ∧
      (topologicalSort roots dependencies roots = .ok roots →
        DependencyOrder dependencies roots) := by
  refine ⟨⟨fun ordered => ?_, Walks.dependencyOrder⟩, DependencyOrder.topologicalSort_eq,
    dependencyOrder_of_topologicalSort_eq⟩
  have fromNothing : DependencyOrder dependencies ([] ++ roots) := ordered
  exact fromNothing.walks

end Stability

/-- Dependencies with repetitions, for an order that is not that of the numbers.  All further nodes
depend on themselves. -/
def braided : Nat → List Nat
  | 0 => [3, 1, 3]
  | 1 => [3]
  | 2 => [0, 3, 1]
  | 3 => []
  | node => [node]

/-- The cycles of nodes that the list does not reach do not matter, and neither does it matter that
the sort is told of them. -/
theorem topologicalSort_leaves_braided :
    DependencyOrder braided [3, 1, 0, 2] ∧
      Walks braided [] [3, 1, 0, 2] [] (.ok [3, 1, 0, 2]) ∧
      topologicalSort [0, 1, 2, 4] braided [3, 1, 0, 2] = .ok [3, 1, 0, 2] := by
  have first : DependencyOrder braided [3, 1] :=
    (dependencyOrder_nil.snoc (by decide) (by decide)).snoc (by decide) (by decide)
  have ordered : DependencyOrder braided [3, 1, 0, 2] :=
    (first.snoc (by decide) (by decide)).snoc (by decide) (by decide)
  have walks := (topologicalSort_leaves_orders [3, 1, 0, 2]).1.mp ordered
  have sorts := (topologicalSort_leaves_orders [3, 1, 0, 2]).2.1 ordered
  exact ⟨ordered, walks, sorts _⟩

end Dataflow
