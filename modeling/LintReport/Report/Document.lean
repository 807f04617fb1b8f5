import LintReport.Issue
import LintReport.Json.Writer

/-!
The report itself, a JSON document with one object an issue. It is laid out with four spaces a
level, and then every four spaces at the start of a line become a tab.
-/
namespace LintReport.Report

def indentation : Text := List.replicate 4 (.scalar ' ')

def toJson (issues : List Issue) : Json := .array (issues.map Issue.toJson)

/-- A line with a tab for every four spaces at its start. -/
def tabbedLine (line : Text) : Text :=
  let levels := (line.takeWhile (· = .scalar ' ')).length / 4
  List.replicate levels (.scalar '\t') ++ line.drop (4 * levels)

def tabbed (text : Text) : Text :=
  Text.join [.scalar '\n'] ((Text.fields (.scalar '\n') text).map tabbedLine)

def document (issues : List Issue) : Text := tabbed ((toJson issues).pretty indentation 0)

end LintReport.Report
