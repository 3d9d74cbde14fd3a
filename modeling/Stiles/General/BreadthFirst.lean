import Mathlib.Data.Finmap

/-
  Shortest paths in a graph with labelled edges, breadth first.

  `search` goes through a queue of nodes that have a path. What an edge leads to gets a path when it
  is met for the first time, and joins the queue.

  * `offer_spec`: what the edges of one node add.
  * `Invariant.step`: what one turn keeps. The paths in the queue are in order of their length, and
    no path is more than one step longer than the first of them.
  * `search_spec`: the nodes that get a path are those that the start leads to, and each path is a
    shortest one.
-/

/-- A graph with finitely many nodes behind its edges. -/
structure LabelledGraph (ν ε : Type*) where
  nodes : Finset ν
  edges : ν → List (ε × ν)
  closed : ∀ a, ∀ edge ∈ edges a, edge.2 ∈ nodes

namespace LabelledGraph

variable {ν ε : Type*}

/-- The labels on a way from one node to another. -/
inductive Leads (graph : LabelledGraph ν ε) (start : ν) : List ε → ν → Prop
  | start : Leads graph start [] start
  | step {labels : List ε} {a b : ν} {label : ε} (front : Leads graph start labels a)
    (edge : (label, b) ∈ graph.edges a) : Leads graph start (labels ++ [label]) b

variable [DecidableEq ν]

/-- Nodes with a path to each. -/
abbrev Paths (ν ε : Type*) := Finmap fun _ : ν => List ε

/-- Gives a path to the nodes behind the edges that have none, and puts them into the queue. -/
def offer (front : List ε) : List (ε × ν) → Paths ν ε → List ν → Paths ν ε × List ν
  | [], paths, queue => (paths, queue)
  | (label, b) :: rest, paths, queue =>
    if b ∈ paths then offer front rest paths queue
    else offer front rest (paths.insert b (front ++ [label])) (queue ++ [b])

/-- What is left to do: a node without a path may still come into the queue. -/
def measure (graph : LabelledGraph ν ε) (paths : Paths ν ε) (queue : List ν) : Nat :=
  2 * (graph.nodes \ paths.keys).card + queue.length

theorem measure_offer (graph : LabelledGraph ν ε) (front : List ε) {edges : List (ε × ν)}
    (hedges : ∀ edge ∈ edges, edge.2 ∈ graph.nodes) (paths : Paths ν ε) (queue : List ν) :
    graph.measure (offer front edges paths queue).1 (offer front edges paths queue).2
      ≤ graph.measure paths queue := by
  induction edges generalizing paths queue with
  | nil => exact le_rfl
  | cons edge rest ih =>
    obtain ⟨label, b⟩ := edge
    obtain ⟨hb, hrest⟩ := List.forall_mem_cons.mp hedges
    unfold offer
    split
    · exact ih hrest paths queue
    · rename_i hfresh
      refine (ih hrest _ _).trans ?_
      have hkeys : (Finmap.insert b (front ++ [label]) paths).keys = insert b paths.keys := by
        ext a
        rw [Finmap.mem_keys, Finmap.mem_insert, Finset.mem_insert, Finmap.mem_keys]
      have hmem : b ∈ graph.nodes \ paths.keys :=
        Finset.mem_sdiff.mpr ⟨hb, fun h => hfresh (Finmap.mem_keys.mp h)⟩
      have hcard : (graph.nodes \ insert b paths.keys).card + 1
          = (graph.nodes \ paths.keys).card := by
        rw [Finset.sdiff_insert, Finset.card_erase_add_one hmem]
      unfold measure
      rw [hkeys, List.length_append, List.length_singleton]
      omega

/-- Goes on until the queue is empty. -/
def searchFrom (graph : LabelledGraph ν ε) (paths : Paths ν ε) : List ν → Paths ν ε
  | [] => paths
  | a :: queue =>
    match paths.lookup a with
    | none => searchFrom graph paths queue
    | some front =>
      searchFrom graph (offer front (graph.edges a) paths queue).1
        (offer front (graph.edges a) paths queue).2
termination_by queue => graph.measure paths queue
decreasing_by
  · unfold measure
    rw [List.length_cons]
    omega
  · refine (measure_offer graph front (graph.closed a) paths queue).trans_lt ?_
    unfold measure
    rw [List.length_cons]
    omega

def search (graph : LabelledGraph ν ε) (start : ν) : Paths ν ε :=
  graph.searchFrom (Finmap.singleton start []) [start]

/-! ## The edges of one node -/

/-- What the edges of one node add. -/
structure Offered (front : List ε) (edges : List (ε × ν)) (paths : Paths ν ε) (queue : List ν)
    (result : Paths ν ε × List ν) : Prop where
  old : ∀ a path, Finmap.lookup a paths = some path → Finmap.lookup a result.1 = some path
  new : ∀ a path, Finmap.lookup a result.1 = some path → Finmap.lookup a paths = some path ∨
    a ∉ paths ∧ ∃ label, (label, a) ∈ edges ∧ path = front ++ [label]
  all : ∀ edge ∈ edges, edge.2 ∈ result.1
  queued : ∃ added, result.2 = queue ++ added ∧ ∀ a, a ∈ added ↔ a ∉ paths ∧ a ∈ result.1

theorem offer_spec (front : List ε) (edges : List (ε × ν)) (paths : Paths ν ε) (queue : List ν) :
    Offered front edges paths queue (offer front edges paths queue) := by
  induction edges generalizing paths queue with
  | nil =>
    refine ⟨fun a path h => h, fun a path h => Or.inl h, fun _ h => absurd h List.not_mem_nil, ?_⟩
    refine ⟨[], (List.append_nil _).symm, fun a => ?_⟩
    exact ⟨fun h => absurd h List.not_mem_nil, fun h => absurd h.2 h.1⟩
  | cons edge rest ih =>
    obtain ⟨label, b⟩ := edge
    unfold offer
    split
    · rename_i hknown
      obtain ⟨hold, hnew, hall, hqueued⟩ := ih paths queue
      refine ⟨hold, fun a path h => ?_, List.forall_mem_cons.mpr ⟨?_, hall⟩, hqueued⟩
      · refine (hnew a path h).imp_right fun hfresh => ⟨hfresh.1, ?_⟩
        obtain ⟨other, hedge, hpath⟩ := hfresh.2
        exact ⟨other, List.mem_cons_of_mem _ hedge, hpath⟩
      · obtain ⟨path, hpath⟩ := Finmap.mem_iff.mp hknown
        exact Finmap.mem_iff.mpr ⟨path, hold b path hpath⟩
    · rename_i hfresh
      obtain ⟨hold, hnew, hall, added, hqueue, hadded⟩ :=
        ih (paths.insert b (front ++ [label])) (queue ++ [b])
      have hother : ∀ {a}, a ≠ b → Finmap.lookup a (paths.insert b (front ++ [label]))
          = Finmap.lookup a paths := fun hne => Finmap.lookup_insert_of_ne _ hne
      have hb : b ∈ (offer front rest (paths.insert b (front ++ [label])) (queue ++ [b])).1 :=
        Finmap.mem_iff.mpr ⟨_, hold b _ (Finmap.lookup_insert _)⟩
      refine ⟨fun a path h => ?_, fun a path h => ?_, List.forall_mem_cons.mpr ⟨hb, hall⟩,
        b :: added, ?_, fun a => ?_⟩
      · have hne : a ≠ b := fun heq => hfresh (heq ▸ Finmap.mem_of_lookup_eq_some h)
        exact hold a path ((hother hne).trans h)
      · by_cases hne : a = b
        · obtain rfl := hne
          have hpath := hold a _ (Finmap.lookup_insert paths)
          rw [h] at hpath
          exact Or.inr ⟨hfresh, label, List.mem_cons_self, Option.some.inj hpath⟩
        · rcases hnew a path h with hbefore | ⟨hnone, other, hedge, hpath⟩
          · exact Or.inl ((hother hne).symm.trans hbefore)
          · refine Or.inr ⟨fun hmem => hnone ?_, other, List.mem_cons_of_mem _ hedge, hpath⟩
            exact Finmap.mem_insert.mpr (Or.inr hmem)
      · rw [hqueue, List.append_assoc]
        rfl
      · rw [List.mem_cons, hadded, Finmap.mem_insert]
        by_cases hne : a = b
        · obtain rfl := hne
          exact ⟨fun _ => ⟨hfresh, hb⟩, fun _ => Or.inl rfl⟩
        · simp [hne]

/-! ## One turn -/

/-- The length of the path to a node. -/
def depth (paths : Paths ν ε) (a : ν) : Nat :=
  ((Finmap.lookup a paths).map List.length).getD 0

theorem depth_of_lookup {paths : Paths ν ε} {a : ν} {path : List ε}
    (h : Finmap.lookup a paths = some path) : depth paths a = path.length := by
  unfold depth
  rw [h]
  rfl

structure Invariant (graph : LabelledGraph ν ε) (start : ν) (paths : Paths ν ε)
    (queue : List ν) : Prop where
  root : Finmap.lookup start paths = some []
  sound : ∀ a path, Finmap.lookup a paths = some path → graph.Leads start path a
  queued : ∀ a ∈ queue, a ∈ paths
  /-- The edges of a node that left the queue were offered. -/
  done : ∀ a ∈ paths, a ∉ queue → ∀ edge ∈ graph.edges a,
    edge.2 ∈ paths ∧ depth paths edge.2 ≤ depth paths a + 1
  /-- No path is more than one step longer than a path in the queue. -/
  level : ∀ a ∈ queue, ∀ b ∈ paths, depth paths b ≤ depth paths a + 1
  sorted : queue.Pairwise fun a b => depth paths a ≤ depth paths b

variable {graph : LabelledGraph ν ε} {start : ν}

omit [DecidableEq ν] in
theorem mem_root {a : ν} : a ∈ (Finmap.singleton start [] : Paths ν ε) ↔ a = start :=
  Finmap.mem_singleton a start []

theorem invariant_start : Invariant graph start (Finmap.singleton start []) [start] where
  root := Finmap.lookup_singleton_eq
  sound := by
    intro a path h
    obtain rfl := mem_root.mp (Finmap.mem_of_lookup_eq_some h)
    rw [Finmap.lookup_singleton_eq] at h
    exact Option.some.inj h ▸ .start
  queued := fun a h => mem_root.mpr (List.mem_singleton.mp h)
  done := by
    intro a ha hqueue
    exact absurd (List.mem_singleton.mpr (mem_root.mp ha)) hqueue
  level := by
    intro a _ b hb
    obtain rfl := mem_root.mp hb
    rw [depth_of_lookup Finmap.lookup_singleton_eq]
    exact Nat.zero_le _
  sorted := List.pairwise_singleton _ _

/-- One turn: a node leaves the queue, and its edges are offered. -/
theorem Invariant.step {paths : Paths ν ε} {a : ν} {queue : List ν} {front : List ε}
    (h : Invariant graph start paths (a :: queue)) (hfront : Finmap.lookup a paths = some front) :
    Invariant graph start (offer front (graph.edges a) paths queue).1
      (offer front (graph.edges a) paths queue).2 := by
  obtain ⟨hold, hnew, hall, added, hqueue, hadded⟩ := offer_spec front (graph.edges a) paths queue
  generalize offer front (graph.edges a) paths queue = result at hold hnew hall hqueue hadded ⊢
  have ha : depth paths a = front.length := depth_of_lookup hfront
  have hkept : ∀ b ∈ paths, b ∈ result.1 ∧ depth result.1 b = depth paths b := by
    intro b hb
    obtain ⟨path, hpath⟩ := Finmap.mem_iff.mp hb
    have hlater := hold b path hpath
    refine ⟨Finmap.mem_of_lookup_eq_some hlater, ?_⟩
    rw [depth_of_lookup hlater, depth_of_lookup hpath]
  have hfresh : ∀ b ∈ result.1, b ∉ paths → depth result.1 b = depth paths a + 1 := by
    intro b hb hnone
    obtain ⟨path, hpath⟩ := Finmap.mem_iff.mp hb
    rcases hnew b path hpath with hbefore | ⟨_, label, _, rfl⟩
    · exact absurd (Finmap.mem_of_lookup_eq_some hbefore) hnone
    · rw [depth_of_lookup hpath, ha, List.length_append]
      rfl
  have hdepth : ∀ b ∈ result.1, depth result.1 b ≤ depth paths a + 1 := by
    intro b hb
    by_cases hbefore : b ∈ paths
    · rw [(hkept b hbefore).2]
      exact h.level a List.mem_cons_self b hbefore
    · exact (hfresh b hb hbefore).le
  have hback : ∀ b ∈ queue, depth paths a ≤ depth paths b := (List.pairwise_cons.mp h.sorted).1
  have hrest : ∀ b ∈ queue, b ∈ paths := fun b hb => h.queued b (List.mem_cons_of_mem _ hb)
  rw [hqueue]
  constructor
  case root => exact hold start [] h.root
  case sound =>
    intro b path hpath
    rcases hnew b path hpath with hbefore | ⟨_, label, hedge, rfl⟩
    · exact h.sound b path hbefore
    · exact .step (h.sound a front hfront) hedge
  case queued =>
    intro b hb
    rcases List.mem_append.mp hb with hold | hlast
    · exact (hkept b (hrest b hold)).1
    · exact ((hadded b).mp hlast).2
  case done =>
    intro b hb hnone edge hedge
    obtain ⟨hnotQueue, hnotAdded⟩ := not_or.mp fun hmem => hnone (List.mem_append.mpr hmem)
    have hbefore : b ∈ paths := by
      by_contra hnot
      exact hnotAdded ((hadded b).mpr ⟨hnot, hb⟩)
    rw [(hkept b hbefore).2]
    by_cases hsame : b = a
    · obtain rfl := hsame
      have hedge' := hall edge hedge
      exact ⟨hedge', hdepth _ hedge'⟩
    · have hnot : b ∉ a :: queue := by
        intro hmem
        exact (List.mem_cons.mp hmem).elim hsame hnotQueue
      obtain ⟨hmem, hle⟩ := h.done b hbefore hnot edge hedge
      rw [(hkept _ hmem).2]
      exact ⟨(hkept _ hmem).1, hle⟩
  case level =>
    intro b hb other hother
    have hlong := hdepth other hother
    have hfar : depth paths a ≤ depth result.1 b := by
      rcases List.mem_append.mp hb with hmem | hlast
      · rw [(hkept b (hrest b hmem)).2]
        exact hback b hmem
      · rw [hfresh b ((hadded b).mp hlast).2 ((hadded b).mp hlast).1]
        exact Nat.le_succ _
    omega
  case sorted =>
    refine List.pairwise_append.mpr ⟨?_, ?_, fun b hb other hother => ?_⟩
    · refine ((List.pairwise_cons.mp h.sorted).2).imp_of_mem fun {b c} hb hc hle => ?_
      rw [(hkept b (hrest b hb)).2, (hkept c (hrest c hc)).2]
      exact hle
    · refine List.pairwise_of_forall_mem_list fun b hb c hc => ?_
      rw [hfresh b ((hadded b).mp hb).2 ((hadded b).mp hb).1,
        hfresh c ((hadded c).mp hc).2 ((hadded c).mp hc).1]
    · rw [(hkept b (hrest b hb)).2, hfresh other ((hadded other).mp hother).2
        ((hadded other).mp hother).1]
      exact h.level a List.mem_cons_self b (hrest b hb)

/-! ## The whole search -/

/-- What holds when the queue is empty. -/
theorem invariant_search (paths : Paths ν ε) (queue : List ν)
    (h : Invariant graph start paths queue) :
    Invariant graph start (graph.searchFrom paths queue) [] := by
  fun_induction searchFrom graph paths queue with
  | case1 paths => exact h
  | case2 paths a queue hnone ih =>
    obtain ⟨path, hpath⟩ := Finmap.mem_iff.mp (h.queued a List.mem_cons_self)
    rw [hnone] at hpath
    cases hpath
  | case3 paths a queue front hfront ih => exact ih (h.step hfront)

/-- Everything that the start leads to has a path that is no longer. -/
theorem Invariant.complete {paths : Paths ν ε} (h : Invariant graph start paths [])
    {labels : List ε} {a : ν} (hleads : graph.Leads start labels a) :
    a ∈ paths ∧ depth paths a ≤ labels.length := by
  induction hleads with
  | start =>
    refine ⟨Finmap.mem_of_lookup_eq_some h.root, ?_⟩
    rw [depth_of_lookup h.root]
  | step _ edge ih =>
    obtain ⟨hmem, hle⟩ := ih
    obtain ⟨hnext, hdepth⟩ := h.done _ hmem List.not_mem_nil _ edge
    refine ⟨hnext, hdepth.trans ?_⟩
    rw [List.length_append]
    exact Nat.succ_le_succ hle

/-- The nodes with a path are those that the start leads to, and each path is a shortest one. -/
theorem search_spec (graph : LabelledGraph ν ε) (start a : ν) :
    ((∃ path, Finmap.lookup a (graph.search start) = some path) ↔
      ∃ labels, graph.Leads start labels a) ∧
    ∀ path, Finmap.lookup a (graph.search start) = some path → graph.Leads start path a ∧
      ∀ labels, graph.Leads start labels a → path.length ≤ labels.length := by
  have h : Invariant graph start (graph.search start) [] :=
    invariant_search _ [start] invariant_start
  refine ⟨⟨fun hpath => ?_, fun hleads => ?_⟩, fun path hpath => ⟨h.sound a path hpath, ?_⟩⟩
  · obtain ⟨path, hpath⟩ := hpath
    exact ⟨path, h.sound a path hpath⟩
  · obtain ⟨labels, hleads⟩ := hleads
    exact Finmap.mem_iff.mp (h.complete hleads).1
  · intro labels hleads
    have hle := (h.complete hleads).2
    have hdepth : depth (graph.search start) a = path.length := depth_of_lookup hpath
    exact hdepth ▸ hle

end LabelledGraph
