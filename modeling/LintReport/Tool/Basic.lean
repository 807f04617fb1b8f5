import LintReport.Text.Basic

/-!
The seven tools, in the order in which they run: first those for PHP, type checkers before style
checkers, then those for JavaScript.
-/
namespace LintReport

/-- A tool whose findings go into the report. -/
inductive Tool where
  | psalm
  | phpStan
  | phpCs
  | ecs
  | esLint
  | styleLint
  | biome
deriving DecidableEq, Repr

/-- What the tools of a group have in common: the root of the sources, and how they are started. -/
inductive Tool.Group where
  | php
  | js
deriving DecidableEq, Repr

namespace Tool

def Group.name : Group → Text
  | php => "php"
  | js => "js"

def all : List Tool := [psalm, phpStan, phpCs, ecs, esLint, styleLint, biome]

theorem mem_all (t : Tool) : t ∈ all := by cases t <;> decide

/-- The name of a tool in settings and diagnostics. -/
def name : Tool → Text
  | psalm => "psalm"
  | phpStan => "phpstan"
  | phpCs => "phpcs"
  | ecs => "ecs"
  | esLint => "eslint"
  | styleLint => "stylelint"
  | biome => "biome"

def ofName? (name : Text) : Option Tool := all.find? fun t => t.name = name

/-- What a tool calls itself. -/
def title : Tool → Text
  | psalm => "Psalm"
  | phpStan => "PHPStan"
  | phpCs => "PHP CodeSniffer"
  | ecs => "ECS (Easy Coding Standard)"
  | esLint => "ESLint"
  | styleLint => "StyleLint"
  | biome => "Biome"

def group : Tool → Group
  | psalm | phpStan | phpCs | ecs => .php
  | esLint | styleLint | biome => .js

/-- The exit code of a run in which the tool failed. -/
def failureCode : Tool → Nat
  | psalm => 1
  | phpStan => 2
  | phpCs => 3
  | ecs => 4
  | esLint => 5
  | styleLint => 6
  | biome => 9

/-- The rules that a tool goes by when nothing else is configured: a standard for PHP CodeSniffer,
a file for every other tool. -/
def defaultRules : Tool → Text
  | psalm => "psalm.xml"
  | phpStan => "phpstan.neon"
  | phpCs => "PSR12"
  | ecs => "ecs.php"
  | esLint => ".eslintrc.yml"
  | styleLint => ".stylelintrc.yml"
  | biome => "biome.json"

end Tool

end LintReport
