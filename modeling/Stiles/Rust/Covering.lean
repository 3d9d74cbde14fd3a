import Stiles.Rust.Targets

/-
  How the Rust provider finds a node of rust-analyzer's tree by a byte range (`covering_node`,
  `find_expr_covering`, `find_enclosing_fn` and `resolve_expr_type` of `provider.rs`).

  A `SyntaxElement` is rust-analyzer's tree, nodes and tokens. From the smallest element that covers
  the range the callers climb to the smallest expression or function.

  `findExprCovering_of_inside`: where the tree holds an expression of exactly that range, an
  expression of exactly that range is found.
-/

namespace Stiles.RustProvider

def TextRange.isEmpty (range : TextRange) : Bool := decide (range.start = range.stop)

def TextRange.containsRange (range other : TextRange) : Bool :=
  decide (range.start ≤ other.start ∧ other.stop ≤ range.stop)

inductive SyntaxElement where
  | token (range : TextRange)
  | node (kind : String) (range : TextRange) (children : List SyntaxElement)

namespace SyntaxElement

def textRange : SyntaxElement → TextRange
  | .token range => range
  | .node _ range _ => range

/-- A node of one of the kinds. Tokens cast to nothing. -/
def casts (kinds : String → Bool) : SyntaxElement → Bool
  | .token _ => false
  | .node kind _ _ => kinds kind

mutual

/-- The smallest element that covers the range, and those above it, the nearest first. -/
def coveringElement (range : TextRange) :
    SyntaxElement → List SyntaxElement → List SyntaxElement
  | .token own, above => .token own :: above
  | .node kind own children, above =>
    coveringChild range children (.node kind own children :: above)

def coveringChild (range : TextRange) :
    List SyntaxElement → List SyntaxElement → List SyntaxElement
  | [], above => above
  | child :: rest, above =>
    if child.textRange.containsRange range then coveringElement range child above
    else coveringChild range rest above

end

/-- The ranges of children lie in that of their node, one after the other. -/
inductive WellFormed : SyntaxElement → Prop where
  | token (range : TextRange) : WellFormed (.token range)
  | node (kind : String) (range : TextRange) (children : List SyntaxElement)
    (within : ∀ child ∈ children, range.containsRange child.textRange = true)
    (ordered : children.Pairwise fun a b => a.textRange.stop ≤ b.textRange.start)
    (below : ∀ child ∈ children, WellFormed child) : WellFormed (.node kind range children)

/-- `inner` is the element or below it. -/
inductive Inside (inner : SyntaxElement) : SyntaxElement → Prop where
  | self : Inside inner inner
  | under (kind : String) (range : TextRange) (children : List SyntaxElement)
    (child : SyntaxElement) (hchild : child ∈ children) (h : Inside inner child) :
    Inside inner (.node kind range children)

end SyntaxElement

/-- The smallest node that covers the range with its ancestors, the nearest first. -/
def coveringNode (syntax_ : SyntaxElement) (range : TextRange) : Option (List SyntaxElement) :=
  if range.isEmpty || ! syntax_.textRange.containsRange range then none
  else
    match syntax_.coveringElement range [] with
    | .token _ :: [] => none
    | .token _ :: parents => some parents
    | ancestors => some ancestors

/-- The queries of rust-analyzer about a file: which kinds are expressions and functions, and what
    it says of a node. -/
structure Semantics (Ty Function ResolvedType : Type) where
  isExpr : String → Bool
  isFn : String → Bool
  toDef : SyntaxElement → Option Function
  typeOfExpr : SyntaxElement → Option Ty
  /-- The type as the enclosing function displays it, with what it is. -/
  resolved : Ty → Option Function → ResolvedType

variable {Ty Function ResolvedType : Type}

def findEnclosingFn (sema : Semantics Ty Function ResolvedType) (syntax_ : SyntaxElement)
    (range : TextRange) : Option Function :=
  ((coveringNode syntax_ range).bind fun ancestors =>
    ancestors.find? (SyntaxElement.casts sema.isFn)).bind sema.toDef

def findExprCovering (sema : Semantics Ty Function ResolvedType) (syntax_ : SyntaxElement)
    (range : TextRange) : Option SyntaxElement :=
  (coveringNode syntax_ range).bind fun ancestors =>
    ancestors.find? (SyntaxElement.casts sema.isExpr)

def resolveExprType (sema : Semantics Ty Function ResolvedType) (syntax_ : SyntaxElement)
    (range : TextRange) : Option ResolvedType :=
  (findExprCovering sema syntax_ range).bind fun expr =>
    (sema.typeOfExpr expr).map fun ty => sema.resolved ty (findEnclosingFn sema syntax_ range)

/-! ## The way down -/

theorem TextRange.containsRange_iff {range other : TextRange} :
    range.containsRange other = true ↔ range.start ≤ other.start ∧ other.stop ≤ range.stop :=
  decide_eq_true_iff

theorem TextRange.eq_of_containsRange {a b : TextRange} (hab : a.containsRange b = true)
    (hba : b.containsRange a = true) : a = b := by
  obtain ⟨hstart, hstop⟩ := TextRange.containsRange_iff.mp hab
  obtain ⟨hstart', hstop'⟩ := TextRange.containsRange_iff.mp hba
  cases a
  cases b
  simp only [TextRange.mk.injEq] at *
  omega

theorem TextRange.containsRange_trans {a b c : TextRange} (hab : a.containsRange b = true)
    (hbc : b.containsRange c = true) : a.containsRange c = true := by
  rw [TextRange.containsRange_iff] at *
  omega

namespace SyntaxElement

variable {range : TextRange}

/-- The way into the children goes through the first child that covers the range. -/
theorem coveringChild_eq (children above : List SyntaxElement) :
    coveringChild range children above =
      match children.find? fun child => child.textRange.containsRange range with
      | some child => coveringElement range child above
      | none => above := by
  induction children with
  | nil => rfl
  | cons child rest ih =>
    unfold coveringChild
    rw [List.find?_cons]
    split
    · rename_i hcovers
      rw [hcovers]
    · rename_i hcovers
      rw [Bool.eq_false_iff.mpr hcovers]
      exact ih

/-- The element lies at the bottom of what is above it, and what is found below has the range of
    the element if the element has the range that is looked for. -/
theorem coveringElement_of_range {t : SyntaxElement} (hwf : t.WellFormed)
    (ht : t.textRange = range) (above : List SyntaxElement) :
    ∃ below, coveringElement range t above = below ++ t :: above ∧
      ∀ element ∈ below, element.textRange = range := by
  induction hwf generalizing above with
  | token own => exact ⟨[], rfl, fun element h => absurd h List.not_mem_nil⟩
  | node kind own children within _ _ ih =>
    unfold coveringElement
    rw [coveringChild_eq]
    split
    · rename_i child hfind
      have hchild := List.mem_of_find?_eq_some hfind
      have hcovers := List.find?_some
        (p := fun child : SyntaxElement => child.textRange.containsRange range) hfind
      have hrange : child.textRange = range := by
        refine TextRange.eq_of_containsRange hcovers ?_
        rw [← ht]
        exact within child hchild
      obtain ⟨below, hway, hbelow⟩ :=
        ih child hchild hrange (.node kind own children :: above)
      refine ⟨below ++ [child], ?_, ?_⟩
      · rw [hway, List.append_assoc]
        rfl
      · intro element helement
        rcases List.mem_append.mp helement with h | h
        · exact hbelow element h
        · rw [List.mem_singleton.mp h]
          exact hrange
    · exact ⟨[], rfl, fun element h => absurd h List.not_mem_nil⟩

/-- What stands inside a well formed element has its range inside. -/
theorem Inside.containsRange {inner t : SyntaxElement} (h : Inside inner t)
    (hwf : t.WellFormed) : t.textRange.containsRange inner.textRange = true := by
  induction h with
  | self => exact TextRange.containsRange_iff.mpr ⟨Nat.le_refl _, Nat.le_refl _⟩
  | under kind own children child hchild _ ih =>
    cases hwf with
    | node _ _ _ within _ below =>
      exact TextRange.containsRange_trans (within child hchild) (ih (below child hchild))

/-- The children before one that covers a range that is not empty do not cover it. -/
theorem find?_covers {children : List SyntaxElement} {child : SyntaxElement}
    (hordered : children.Pairwise fun a b => a.textRange.stop ≤ b.textRange.start)
    (hchild : child ∈ children) (hcovers : child.textRange.containsRange range = true)
    (hempty : range.start < range.stop) :
    children.find? (fun child => child.textRange.containsRange range) = some child := by
  induction children with
  | nil => cases hchild
  | cons first rest ih =>
    rw [List.pairwise_cons] at hordered
    rw [List.find?_cons]
    rcases List.mem_cons.mp hchild with rfl | hrest
    · rw [hcovers]
    · have hbefore := hordered.1 child hrest
      have hno : first.textRange.containsRange range = false := by
        rw [Bool.eq_false_iff]
        intro hfirst
        rw [TextRange.containsRange_iff] at hcovers hfirst
        omega
      rw [hno]
      exact ih hordered.2 hrest

/-- The way down to a range passes an element of that range, and only elements of the same range
    come below it. -/
theorem coveringElement_of_inside {inner t : SyntaxElement} (h : Inside inner t)
    (hwf : t.WellFormed) (hrange : inner.textRange = range) (hempty : range.start < range.stop)
    (above : List SyntaxElement) :
    ∃ below ancestors, coveringElement range t above = below ++ inner :: ancestors ∧
      ∀ element ∈ below, element.textRange = range := by
  induction h generalizing above with
  | self =>
    obtain ⟨below, hway, hbelow⟩ := coveringElement_of_range hwf hrange above
    exact ⟨below, above, hway, hbelow⟩
  | under kind own children child hchild hinside ih =>
    cases hwf with
    | node _ _ _ within ordered below =>
      have hcovers : child.textRange.containsRange range = true := by
        rw [← hrange]
        exact hinside.containsRange (below child hchild)
      unfold coveringElement
      rw [coveringChild_eq, find?_covers ordered hchild hcovers hempty]
      exact ih (below child hchild) _

end SyntaxElement

/-- Climbing from a token starts at its parent, which is where a search for nodes starts anyway. -/
theorem find?_coveringNode {syntax_ : SyntaxElement} {range : TextRange} {kinds : String → Bool}
    (hempty : range.isEmpty = false) (hcovers : syntax_.textRange.containsRange range = true) :
    ((coveringNode syntax_ range).bind fun ancestors =>
        ancestors.find? (SyntaxElement.casts kinds)) =
      (syntax_.coveringElement range []).find? (SyntaxElement.casts kinds) := by
  unfold coveringNode
  rw [hempty, hcovers]
  simp only [Bool.not_true, Bool.or_self, Bool.false_eq_true, if_false]
  split
  · rename_i own hway
    rw [hway]
    rfl
  · rename_i own parents _ hway
    rw [hway]
    rfl
  · rfl

/-- An expression of exactly the range is found where the tree holds one. -/
theorem findExprCovering_of_inside {sema : Semantics Ty Function ResolvedType}
    {syntax_ expr : SyntaxElement} {range : TextRange} (hwf : syntax_.WellFormed)
    (hinside : SyntaxElement.Inside expr syntax_) (hexpr : expr.casts sema.isExpr = true)
    (hrange : expr.textRange = range) (hempty : range.start < range.stop) :
    ∃ found, findExprCovering sema syntax_ range = some found ∧ found.textRange = range := by
  have hcovers : syntax_.textRange.containsRange range = true := by
    rw [← hrange]
    exact hinside.containsRange hwf
  have hnot : range.isEmpty = false := decide_eq_false (by omega)
  unfold findExprCovering
  rw [find?_coveringNode hnot hcovers]
  obtain ⟨below, ancestors, hway, hbelow⟩ :=
    SyntaxElement.coveringElement_of_inside hinside hwf hrange hempty []
  rw [hway, List.find?_append]
  cases hfound : below.find? (SyntaxElement.casts sema.isExpr) with
  | some found => exact ⟨found, rfl, hbelow found (List.mem_of_find?_eq_some hfound)⟩
  | none =>
    refine ⟨expr, ?_, hrange⟩
    rw [List.find?_cons, hexpr]
    rfl

end Stiles.RustProvider
