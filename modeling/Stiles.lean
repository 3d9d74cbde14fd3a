import Stiles.Types.DecorationRefinement
import Stiles.Check.Interrupted
import Stiles.Check.Ownership
import Stiles.CustomLints.Sources
import Stiles.Codegen.Language
import Stiles.Codegen.Methods
import Stiles.Discovery.Tree
import Stiles.Check.Position
import Stiles.Check.Annotations
import Stiles.Config.RulesTable
import Stiles.CustomLints.Rules
import Stiles.CustomLints.Unpacked
import Stiles.CustomLints.Alone
import Stiles.CustomLints.Artifact
import Stiles.Tools.CheckAbi
import Stiles.Codegen.Fingerprint
import Stiles.Tools.Bundle.Manifest
import Stiles.CustomLints.StilesPatch
import Stiles.Rust.PublicPaths
import Stiles.Rust.ElseClauses
import Stiles.Rust.Described
import Stiles.Check.OncePerNode
import Stiles.Check.Providers
import Stiles.Tools.Bundle.Includes
import Stiles.Plugin.ExportLints
import Stiles.CustomLints.LoadLibrary
import Stiles.Check.Filtered
import Stiles.Check.Configured
import Stiles.CustomLints.LoadRun
import Stiles.Rust.Workspace
import Stiles.TypeScript.Decorations
import Stiles.TypeScript.Verdict
