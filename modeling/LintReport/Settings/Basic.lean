import LintReport.Session.Basic
import LintReport.Settings.Rule
import LintReport.Tool.Reporter

/-!
Settings. Each setting has the name that it has in a configuration file, and most of them a second
one with underscores; the first one wins.
-/
namespace LintReport

/-- Which groups of the statistics show the last issue. -/
inductive LastPolicy where
  | never
  | always
  | single
deriving DecidableEq, Repr

def LastPolicy.name : LastPolicy → Text
  | never => "never"
  | always => "always"
  | single => "single"

structure Settings where
  phpRoot : Path
  jsRoot : Path
  /-- Where the PHP tools lie, if not below the PHP root. -/
  binDir : Option Path
  phpDir : Text
  jsDir : Text
  styleLintFiles : Text
  bun : Text
  node : Text
  enabled : Tool → Bool
  rules : Tool → Text
  reporter : Biome.Reporter
  stats : Bool
  last : LastPolicy
  silent : Bool
  cache : Bool
  strict : Bool
  verbosity : Int
  timeout : Option Binary64

namespace Settings

/-- The words for the policies, blanks and case left out. A value of another kind stands for never
if it is blank, and for always if it is not. -/
def lastPolicy : Rule LastPolicy
  | .string s =>
    oneOf [("never", .never), ("always", .always), ("single", .single)] (.string s.trimBlanks.lower)
  | v => .ok (if v.isBlank then .never else .always)

/-- The names of a setting: with hyphens, and in full with underscores. -/
def rulesName : Tool → Text × Text
  | .psalm => ("psalm-config", "psalm_config")
  | .phpStan => ("phpstan-config", "phpstan_config")
  | .phpCs => ("phpcs-standard", "phpcs_standard")
  | .ecs => ("ecs-config", "ecs_config")
  | .esLint => ("eslint-config", "eslint_config")
  | .styleLint => ("stylelint-config", "stylelint_config")
  | .biome => ("biome-config", "biome_config")

def switchName (t : Tool) : Text := "run_" ++ t.name

def textSetting (names : List Text) (default : Text) (members : Table Json) : Checked Text :=
  setting names default text members

/-- The settings in a table, seen from a directory. -/
def check (directory : Path) (members : Table Json) : Checked Settings := do
  let phpRoot ← setting ["php_root"] directory path members
  let jsRoot ← setting ["js_root"] directory path members
  let binDir ← setting ["bin_dir"] none (nullable path) members
  let phpDir ← textSetting ["php-dir", "php_dir"] "." members
  let jsDir ← textSetting ["js-dir", "js_dir"] "resources" members
  let styleLintFiles ← textSetting ["stylelint-files", "stylelint_files"]
    "resources/**/*.\x7bcss,scss,sass,vue\x7d" members
  let bun ← textSetting ["bun", "bun_bin"] "bun" members
  let node ← textSetting ["node", "node_bin"] "node" members
  let enabled ← Checked.forTools Tool.all fun t =>
    setting [t.name, switchName t] true switch members
  let rules ← Checked.forTools Tool.all fun t =>
    textSetting [(rulesName t).1, (rulesName t).2] t.defaultRules members
  let reporter ← setting ["biome-reporter", "biome_reporter"] .annotations
    (oneOf [("github", .annotations), ("json", .document)]) members
  let stats ← setting ["stats"] true truth members
  let last ← setting ["last"] .never lastPolicy members
  let silent ← setting ["silent"] false truth members
  let cache ← setting ["cache"] false truth members
  let strict ← setting ["strict"] false truth members
  let verbosity ← setting ["verbosity"] 1 whole members
  let timeout ← setting ["timeout"] none (nullable real) members
  return { phpRoot, jsRoot, binDir, phpDir, jsDir, styleLintFiles, bun, node, enabled, rules,
           reporter, stats, last, silent, cache, strict, verbosity, timeout }

/-- The settings in a table, or all problems with them. -/
def ofTable (directory : Path) (members : Table Json) : Except Fault Settings :=
  (check directory members).toExcept.mapError .invalidSettings

/-- The words that start a JavaScript interpreter, in order of preference. -/
def interpreters (s : Settings) : List Text := [s.bun, s.node]

def toolDir (s : Settings) : Path := s.binDir.getD (s.phpRoot.below "vendor/bin")

/-- The root of the sources of a group of tools. -/
def root (s : Settings) : Tool.Group → Path
  | .php => s.phpRoot
  | .js => s.jsRoot

def limit (s : Settings) : Option Seconds := s.timeout.map .real

end Settings

end LintReport
