import LintReport.Text.Lines

/-!
Banners. Some tools print other lines before their document; those before the first line that
starts as a document does are dropped.
-/
namespace LintReport.Output

/-- The lines from the first one on that starts with `opener`; without such a line, the whole
text. -/
def withoutBanner (opener text : Text) : Text :=
  match text.lines.dropWhile fun line => !Text.beginsWith opener line with
  | [] => text
  | lines => Text.joinLines lines

end LintReport.Output
