import LintReport.CommandLine.Flag
import LintReport.Text.Quoted

/-!
What the program says about its own command line.
-/
namespace LintReport.CommandLine

def programName : String := "gitlab-code-quality"

def versionText : Text := "v1.6\n"

def textOfLines (lines : List String) : Text :=
  lines.flatMap fun line => Text.ofString line ++ [.scalar '\n']

/-- The flags in brief. -/
def usageText : Text := textOfLines
  ["usage: gitlab-code-quality [-h] [-v] [-s] [-vv] [--php-root PHP_ROOT]",
   "                           [--js-root JS_ROOT] [--bin-dir BIN_DIR]"]

/-- The flags at length. -/
def helpText : Text := usageText ++ textOfLines
  ["",
   "Runs Psalm, PHPStan, PHP CodeSniffer, ECS, ESLint, StyleLint and Biome, and",
   "prints one GitLab Code Quality report.",
   "",
   "options:",
   "  -h, --help           show this help message and exit",
   "  -v, --version        Print version.",
   "  -s, --strict         Return non-zero exit code if issues are found.",
   "  -vv, --verbose       Increase output verbosity.",
   "  --php-root PHP_ROOT  PHP project root (composer.json, vendor/bin). Default:",
   "                       current dir.",
   "  --js-root JS_ROOT    JS project root (node_modules). Default: current dir.",
   "  --bin-dir BIN_DIR    Directory of the PHP tool binaries. Default: <php-",
   "                       root>/vendor/bin.",
   "",
   "Usage: gitlab-code-quality > gl-code-quality-report.json"]

namespace UsageError

def message : UsageError → Text
  | ambiguous word candidates =>
    "ambiguous option: " ++ word ++ Text.ofString " could match " ++
      Text.join (Text.ofString ", ") candidates
  | missingArgument flag => "argument " ++ flag.names ++ Text.ofString ": expected one argument"
  | unwantedArgument flag argument =>
    "argument " ++ flag.names ++ Text.ofString ": ignored explicit argument " ++ argument.quoted
  | unrecognized words => "unrecognized arguments: " ++ Text.join [.scalar ' '] words

/-- The error behind the usage. -/
def text (e : UsageError) : Text :=
  usageText ++ Text.ofString (programName ++ ": error: ") ++ e.message ++ [.scalar '\n']

end UsageError

end LintReport.CommandLine
