import Stiles.Core.Pipeline

/-
  The grammar of a file, which its extension decides (`grammar.rs`).
-/

namespace Stiles

inductive Grammar where
  | Rust
  | TypeScript
  | Tsx
deriving DecidableEq, Repr

namespace Grammar

def of (path : FilePath) : Option Grammar :=
  path.extension.bind fun extension =>
    match extension with
    | "rs" => some .Rust
    | "ts" => some .TypeScript
    | "mts" => some .TypeScript
    | "cts" => some .TypeScript
    | "tsx" => some .Tsx
    | _ => none

def language : Grammar → Language
  | .Rust => .Rust
  | .TypeScript => .TypeScript
  | .Tsx => .TypeScript

/-- `Grammar::pipeline`. Tree-sitter gives a parser of the grammar or refuses it. -/
def pipeline (setLanguage : Grammar → Except IoError (String → Option SyntaxTree))
    (grammar : Grammar) : AnyhowResult Pipeline :=
  match setLanguage grammar with
  | .error source => .error ⟨"failed to set the tree-sitter grammar", [source.message]⟩
  | .ok parse => .ok { language := grammar.language, parse }

theorem pipeline_language {setLanguage : Grammar → Except IoError (String → Option SyntaxTree)}
    {grammar : Grammar} {p : Pipeline} (h : grammar.pipeline setLanguage = .ok p) :
    p.language = grammar.language := by
  unfold pipeline at h
  cases hset : setLanguage grammar with
  | error source => simp [hset] at h
  | ok parse =>
    rw [hset, Except.ok.injEq] at h
    rw [← h]

end Grammar

/-- Only the last extension decides, and a name that starts with its only dot has none. -/
example : Grammar.of ⟨"./src/view.test.tsx"⟩ = some .Tsx ∧ Grammar.of ⟨"src/.rs"⟩ = none := by
  decide

end Stiles
