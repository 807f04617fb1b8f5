import LintReport.Report.Document
import LintReport.Report.Ranking
import LintReport.Settings.Basic
import LintReport.Text.Lines

/-!
The summary of a run without failures: the report, the statistics and the exit code, all from one
list of issues.
-/
namespace LintReport

/-- The exit codes of a run in which no tool failed and the settings were valid. -/
inductive ExitReason where
  | clean
  | criticalIssues
  | strictIssues
deriving DecidableEq, Repr

def ExitReason.code : ExitReason → Nat
  | clean => 0
  | criticalIssues => 7
  | strictIssues => 8

structure Summary where
  exit : ExitReason
  statistics : Text
  document : Option Text
  total : Nat
  critical : Nat
  ranking : List Ranking.Entry

namespace Summary

def countCritical (issues : List Issue) : Nat :=
  issues.countP fun issue => issue.severity = .critical

/-- In a strict run every issue counts, otherwise only critical ones do. -/
def exitReason (strict : Bool) (issues : List Issue) : ExitReason :=
  if strict then
    if issues = [] then .clean else .strictIssues
  else if countCritical issues = 0 then
    .clean
  else
    .criticalIssues

/-- Where an issue lies: its file, line and column with colons between them. -/
def place (issue : Issue) : Text :=
  let p := issue.location.position
  Text.join [.scalar ':']
    (issue.location.fullPath :: Text.ofInt p.line :: p.column.toList.map Text.ofInt)

def showsLast (policy : LastPolicy) (e : Ranking.Entry) : Bool :=
  match policy with
  | .never => false
  | .always => true
  | .single => e.count = 1

def rankLines (policy : LastPolicy) (rank : Nat) (e : Ranking.Entry) : List Text :=
  let row : Text := "\t#" ++ Text.ofNat rank ++ .scalar '\t' :: Text.ofNat e.count ++
    .scalar '\t' :: e.checkName
  row :: if showsLast policy e then ["\t\t\tLast: " ++ place e.last] else []

def rankingLines (policy : LastPolicy) (ranking : List Ranking.Entry) : List Text :=
  if ranking = [] then
    []
  else
    "Issue types by count:" :: "\tRNK\tCNT\tTYPE\t" ::
      (ranking.zipIdx 1).flatMap fun (e, rank) => rankLines policy rank e

def totalLine (total critical : Nat) : Text :=
  "Total issues: " ++ Text.ofNat total ++ " (" ++ Text.ofNat critical ++ Text.ofString " critical)"

def statisticsOf (policy : LastPolicy) (ranking : List Ranking.Entry) (total critical : Nat) :
    Text :=
  Text.joinLines (rankingLines policy ranking ++ [totalLine total critical])

def ofIssues (s : Settings) (issues : List Issue) : Summary :=
  let ranking := Ranking.ofIssues issues
  let total := issues.length
  let critical := countCritical issues
  { exit := exitReason s.strict issues
    statistics := if s.stats then statisticsOf s.last ranking total critical else []
    document := if s.silent then none else some (Report.document issues)
    total, critical, ranking }

end Summary

end LintReport
