import LintReport.Text.Basic

/-!
The reporters of Biome, one for a build log and one for a program.
-/
namespace LintReport.Biome

/-- What Biome prints. -/
inductive Reporter where
  | annotations
  | document
deriving DecidableEq, Repr

def Reporter.name : Reporter → Text
  | annotations => "github"
  | document => "json"

end LintReport.Biome
