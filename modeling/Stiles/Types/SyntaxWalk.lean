import Stiles.Types.DecoratedTree

/-
  Fields, and the walk over the named nodes of a tree (`decorated_node.rs`).

  A decoration provider walks a tree from the root down through the named children, and asks for a
  child by its index or by its field. `FieldNames` says the fields of its parent that a node stands
  in, which the grammar decides.

  The walk visits a node once and each node is the child of one parent, so that where the ids of a
  tree differ, neither the ids that are visited nor the ids of the children of what is visited
  repeat: `nodup_visited_ids` and `nodup_visited_children`.
-/

namespace Stiles

/-- The fields of its parent that the node with an id stands in. -/
abbrev FieldNames := Nat → List String

namespace SyntaxTree

def id (t : SyntaxTree) : Nat := t.info.id

def kind (t : SyntaxTree) : String := t.info.kind

def namedChildren (t : SyntaxTree) : List SyntaxTree := t.children.filter named

def namedChild (t : SyntaxTree) (index : Nat) : Option SyntaxTree := t.namedChildren[index]?

/-- The first child, named or not, that stands in the field. -/
def childByFieldName (fields : FieldNames) (t : SyntaxTree) (name : String) : Option SyntaxTree :=
  t.children.find? fun child => (fields child.id).contains name

mutual

/-- The ids of a tree, in pre-order. -/
def ids : SyntaxTree → List Nat
  | .node info children => info.id :: idsAll children

def idsAll : List SyntaxTree → List Nat
  | [] => []
  | t :: ts => ids t ++ idsAll ts

end

mutual

/-- The nodes that a walk through the named children visits, in pre-order. -/
def visited : SyntaxTree → List SyntaxTree
  | .node info children => .node info children :: visitedAll children

def visitedAll : List SyntaxTree → List SyntaxTree
  | [] => []
  | t :: ts => (if t.named then visited t else []) ++ visitedAll ts

end

theorem mem_of_childByFieldName {fields : FieldNames} {t child : SyntaxTree} {name : String}
    (h : childByFieldName fields t name = some child) : child ∈ t.children :=
  List.mem_of_find?_eq_some h

theorem mem_of_namedChild {t child : SyntaxTree} {index : Nat}
    (h : t.namedChild index = some child) : child ∈ t.children :=
  List.mem_of_mem_filter (List.mem_of_getElem? h)

def childIds (t : SyntaxTree) : List Nat := t.children.map id

mutual

theorem count_visited_ids (t : SyntaxTree) (x : Nat) :
    ((visited t).map id).count x ≤ (ids t).count x := by
  match t with
  | .node info children =>
    have hbelow := count_visitedAll_ids children x
    unfold visited ids
    rw [List.map_cons, List.count_cons, List.count_cons]
    have hid : (node info children).id = info.id := rfl
    rw [hid]
    omega

theorem count_visitedAll_ids (ts : List SyntaxTree) (x : Nat) :
    ((visitedAll ts).map id).count x ≤ (idsAll ts).count x := by
  match ts with
  | [] => exact Nat.le_refl _
  | t :: ts =>
    have hfirst := count_visited_ids t x
    have hrest := count_visitedAll_ids ts x
    unfold visitedAll idsAll
    rw [List.map_append, List.count_append, List.count_append]
    split
    · omega
    · rw [List.map_nil, List.count_nil]
      omega

end

mutual

/-- The root is no child, so the children that are met below it fill no more than the rest. -/
theorem count_visited_children (t : SyntaxTree) (x : Nat) :
    ((visited t).flatMap childIds).count x + [t.id].count x ≤ (ids t).count x := by
  match t with
  | .node info children =>
    have hbelow := count_visitedAll_children children x
    have hids : (node info children).id = info.id := rfl
    have hchildren : (node info children).childIds = children.map id := rfl
    unfold visited ids
    rw [List.flatMap_cons, List.count_append, hchildren, hids, List.count_cons, List.count_cons,
      List.count_nil]
    omega

theorem count_visitedAll_children (ts : List SyntaxTree) (x : Nat) :
    (ts.map id).count x + ((visitedAll ts).flatMap childIds).count x ≤ (idsAll ts).count x := by
  match ts with
  | [] => exact Nat.le_refl _
  | t :: ts =>
    have hfirst := count_visited_children t x
    have hrest := count_visitedAll_children ts x
    have hself : [t.id].count x ≤ (ids t).count x := by omega
    unfold visitedAll idsAll
    rw [List.map_cons, ← List.singleton_append, List.flatMap_append, List.count_append,
      List.count_append, List.count_append]
    split
    · omega
    · rw [List.flatMap_nil, List.count_nil]
      omega

end

variable {t : SyntaxTree}

theorem nodup_visited_ids (h : t.ids.Nodup) : (t.visited.flatMap fun v => [v.id]).Nodup := by
  rw [List.nodup_iff_count] at h ⊢
  intro x
  rw [← List.map_eq_flatMap]
  exact (count_visited_ids t x).trans (h x)

theorem nodup_visited_children (h : t.ids.Nodup) : (t.visited.flatMap childIds).Nodup := by
  rw [List.nodup_iff_count] at h ⊢
  intro x
  have := count_visited_children t x
  have := h x
  omega

end SyntaxTree

end Stiles
