import Stiles.Types.Diagnostic
import Stiles.Types.DecorationMap

/-
  Syntax trees and the decorated view of them (`decorated_tree.rs`, `decorated_node.rs`).

  `SyntaxTree` is a tree-sitter tree as its API shows it, named and anonymous nodes alike. A
  `TsNode` is a cursor in a tree: the subtree it stands on, with the ancestors it was reached
  through, the parent first. A `DecoratedNode` is a cursor with the source, the file and the handle
  into the decorations.

  `DecoratedNode.descendants` lists the nodes of a subtree in pre-order. `NamedThroughNamed` is the
  guarantee of tree-sitter that every ancestor of a named node is named.
-/

namespace Stiles

/-- What a node says about itself. -/
structure NodeInfo where
  id : Nat
  kind : String
  named : Bool
  startByte : Nat
  endByte : Nat
  start_le_end : startByte ≤ endByte

inductive SyntaxTree where
  | node (info : NodeInfo) (children : List SyntaxTree)

namespace SyntaxTree

def info : SyntaxTree → NodeInfo
  | .node info _ => info

def children : SyntaxTree → List SyntaxTree
  | .node _ children => children

def named (t : SyntaxTree) : Bool := t.info.named

end SyntaxTree

/-- A node of a tree: its subtree and its ancestors, the parent first. -/
structure TsNode where
  tree : SyntaxTree
  ancestors : List SyntaxTree

namespace TsNode

def info (node : TsNode) : NodeInfo := node.tree.info

def isNamed (node : TsNode) : Bool := node.tree.named

def parent (node : TsNode) : Option TsNode :=
  match node.ancestors with
  | [] => none
  | t :: rest => some ⟨t, rest⟩

end TsNode

variable {D : DecorationTypes}

/-- A node with what a lint reads beside it. -/
structure DecoratedNode (D : DecorationTypes) where
  node : TsNode
  source : String
  file : FilePath
  decorations : DecorationLookup D

namespace DecoratedNode

/-- The same view of another node of the tree. -/
def sibling (self : DecoratedNode D) (node : TsNode) : DecoratedNode D := { self with node }

def kind (self : DecoratedNode D) : String := self.node.info.kind

def id (self : DecoratedNode D) : Nat := self.node.info.id

def isNamed (self : DecoratedNode D) : Bool := self.node.isNamed

def span (self : DecoratedNode D) : Span :=
  { file := self.file
    start := self.node.info.startByte
    stop := self.node.info.endByte
    start_le_stop := self.node.info.start_le_end }

def parent (self : DecoratedNode D) : Option (DecoratedNode D) :=
  self.node.parent.map self.sibling

/-- The one decoration of type `T` on this node: the first that was recorded. -/
def decoration (self : DecoratedNode D) (T : D.Ty) : Option (D.Value T) :=
  self.decorations.first T self.id

/-! ### Every node of a subtree -/

mutual

/-- The nodes of the subtree `t`, reached through `ancestors`, in pre-order. -/
def nodesFrom (self : DecoratedNode D) :
    SyntaxTree → List SyntaxTree → List (DecoratedNode D)
  | .node info children, ancestors =>
    self.sibling ⟨.node info children, ancestors⟩ ::
      nodesFromAll self children (.node info children :: ancestors)

def nodesFromAll (self : DecoratedNode D) :
    List SyntaxTree → List SyntaxTree → List (DecoratedNode D)
  | [], _ => []
  | t :: ts, ancestors => nodesFrom self t ancestors ++ nodesFromAll self ts ancestors

end

/-- The node and everything below it, named or not, in pre-order. -/
def descendants (self : DecoratedNode D) : List (DecoratedNode D) :=
  self.nodesFrom self.node.tree self.node.ancestors

/-- Every ancestor of a named node is named, as tree-sitter guarantees. -/
def NamedThroughNamed (self : DecoratedNode D) : Prop :=
  ∀ node ∈ self.descendants, node.isNamed = true →
    ∀ ancestor ∈ node.node.ancestors, ancestor.named = true

instance (self : DecoratedNode D) : Decidable self.NamedThroughNamed :=
  inferInstanceAs (Decidable (∀ node ∈ self.descendants, node.isNamed = true →
    ∀ ancestor ∈ node.node.ancestors, ancestor.named = true))

mutual

/-- A node of the subtree `t` stands on `t` or was reached through it. -/
theorem nodesFrom_through (self : DecoratedNode D) (t : SyntaxTree) (ancestors : List SyntaxTree) :
    ∀ node ∈ self.nodesFrom t ancestors,
      node.node.tree = t ∨ t ∈ node.node.ancestors := by
  intro node hnode
  cases t with
  | node info children =>
    rw [nodesFrom, List.mem_cons] at hnode
    rcases hnode with rfl | hnode
    · exact Or.inl rfl
    · exact Or.inr (nodesFromAll_through self children _ node hnode _ List.mem_cons_self)

/-- A node below a list of siblings was reached through all their ancestors. -/
theorem nodesFromAll_through (self : DecoratedNode D) (ts : List SyntaxTree)
    (ancestors : List SyntaxTree) :
    ∀ node ∈ self.nodesFromAll ts ancestors, ∀ a ∈ ancestors, a ∈ node.node.ancestors := by
  intro node hnode a ha
  cases ts with
  | nil => simp [nodesFromAll] at hnode
  | cons t ts =>
    rw [nodesFromAll, List.mem_append] at hnode
    rcases hnode with hnode | hnode
    · exact nodesFrom_ancestors self t ancestors node hnode a ha
    · exact nodesFromAll_through self ts ancestors node hnode a ha

/-- A node of the subtree `t` was reached through the ancestors of `t`. -/
theorem nodesFrom_ancestors (self : DecoratedNode D) (t : SyntaxTree)
    (ancestors : List SyntaxTree) :
    ∀ node ∈ self.nodesFrom t ancestors, ∀ a ∈ ancestors, a ∈ node.node.ancestors := by
  intro node hnode a ha
  cases t with
  | node info children =>
    rw [nodesFrom, List.mem_cons] at hnode
    rcases hnode with rfl | hnode
    · exact ha
    · exact nodesFromAll_through self children _ node hnode a (List.mem_cons_of_mem _ ha)

end

end DecoratedNode

/-! ## The tree -/

/-- A parsed file with the decorations that the providers recorded. -/
structure DecoratedTree (D : DecorationTypes) where
  tree : SyntaxTree
  language : Language
  source : String
  file : FilePath
  decorations : DecorationMap D

namespace DecoratedTree

def new (tree : SyntaxTree) (language : Language) (source : String) (file : FilePath) :
    DecoratedTree D :=
  { tree, language, source, file, decorations := DecorationMap.new }

def mergeDecorations (self : DecoratedTree D) (decorations : DecorationMap D) :
    DecoratedTree D :=
  { self with decorations := self.decorations.merge decorations }

/-- The root, and the tree with its index sealed: the root carries a handle into the map. -/
def rootNode (self : DecoratedTree D) : DecoratedNode D × DecoratedTree D :=
  let lookup := self.decorations.lookup
  ({ node := ⟨self.tree, []⟩, source := self.source, file := self.file,
     decorations := lookup.1 },
    { self with decorations := lookup.2 })

/-- The named nodes of the tree in pre-order. -/
def namedNodes (self : DecoratedTree D) : List (DecoratedNode D) :=
  self.rootNode.1.descendants.filter DecoratedNode.isNamed

end DecoratedTree

end Stiles
