import Stiles.Rust.Marks
import Stiles.TypeScript.Targets

/-
  Each provider records a type on a node once.

  The tree, the fields its grammar gives to the nodes, and what the type checkers answer are
  arbitrary; only the ids of the nodes differ.
-/

namespace Stiles

theorem one_of_each_type (fields : FieldNames) (t : SyntaxTree) (h : t.ids.Nodup) :
    (((RustProvider.collectTargets fields t []).flatMap RustProvider.Target.marks).Nodup ∧
      ∀ (KEY : RustProvider.RustDecoration → DecorationKey)
        (Value : RustProvider.RustDecoration → Type) (ModulePaths : Type)
        (answers : RustProvider.Answers Value ModulePaths),
        (RustProvider.decorate fields answers t :
          DecorationMap (RustProvider.rustDecorations KEY Value)).OneOfEach) ∧
    ((TypeScriptProvider.collectTargets fields t TypeScriptProvider.Targets.default).marks.Nodup ∧
      ∀ (KEY : TypeScriptProvider.TypeScriptDecoration → DecorationKey)
        (Value : TypeScriptProvider.TypeScriptDecoration → Type)
        (Checker Token Declaration Ty : Type)
        (answers : TypeScriptProvider.Answers Value Checker Token Declaration Ty),
        (TypeScriptProvider.decorate fields answers t :
          DecorationMap (TypeScriptProvider.typeScriptDecorations KEY Value)).OneOfEach) := by
  refine ⟨⟨RustProvider.nodup_marks h, ?_⟩, TypeScriptProvider.nodup_marks h, ?_⟩
  · intro KEY Value ModulePaths answers
    exact RustProvider.oneOfEach_decorate answers h
  · intro KEY Value Checker Token Declaration Ty answers
    exact TypeScriptProvider.oneOfEach_decorate answers h

/-- `match read()?? { .. }`, whose scrutinee is a `?` of a `?`. -/
def scrutinee : SyntaxTree :=
  .node ⟨1, "match_expression", true, 0, 20, by decide⟩
    [.node ⟨2, "try_expression", true, 6, 14, by decide⟩
      [.node ⟨3, "try_expression", true, 6, 13, by decide⟩
        [.node ⟨4, "call_expression", true, 6, 12, by decide⟩ []]]]

/-- `import a from 'm'; function f() {}`. -/
def importing : SyntaxTree :=
  .node ⟨1, "program", true, 0, 34, by decide⟩
    [.node ⟨2, "import_statement", true, 0, 18, by decide⟩
      [.node ⟨3, "import_clause", true, 7, 8, by decide⟩
        [.node ⟨4, "identifier", true, 7, 8, by decide⟩ []],
       .node ⟨5, "string", true, 14, 17, by decide⟩ []],
     .node ⟨6, "function_declaration", true, 19, 34, by decide⟩
      [.node ⟨7, "identifier", true, 28, 29, by decide⟩ []]]

def importingFields : FieldNames
  | 5 => ["source"]
  | 7 => ["name"]
  | _ => []

/-- The scrutinee, the inner `?` and the call each get their type from the node above them. A name
    gets the types of its value, the declaration its signature and the specifier its source. -/
theorem scrutinee_once :
    (RustProvider.collectTargets (fun id => if id = 2 then ["value"] else []) scrutinee []).flatMap
        RustProvider.Target.marks =
      [(2, .ResolvedType), (2, .AdtFlags), (3, .ResolvedType), (4, .ResolvedType)] ∧
    ((RustProvider.collectTargets (fun id => if id = 2 then ["value"] else []) scrutinee
      []).flatMap RustProvider.Target.marks).Nodup ∧
    (TypeScriptProvider.collectTargets importingFields importing
        TypeScriptProvider.Targets.default).marks =
      [(4, .TypeText), (4, .ResolvedType), (4, .StringUnion), (7, .TypeText), (7, .ResolvedType),
       (7, .StringUnion), (6, .FnSignature), (5, .ImportSource)] ∧
    (TypeScriptProvider.collectTargets importingFields importing
      TypeScriptProvider.Targets.default).marks.Nodup :=
  ⟨by decide,
    (one_of_each_type (fun id => if id = 2 then ["value"] else []) scrutinee (by decide)).1.1,
    by decide, (one_of_each_type importingFields importing (by decide)).2.1⟩

end Stiles
