import LintReport.Fault
import LintReport.Tool.Basic

/-!
Plans. A plan lists tools to run and tools whose output can be decoded; it can be carried out if all
of the first are among the second.
-/
namespace LintReport

/-- Tools to run, and tools with a decoder. -/
structure Plan where
  tools : List Tool
  decoders : List Tool
deriving DecidableEq, Repr

namespace Plan

def group (p : Plan) (g : Tool.Group) : List Tool := p.tools.filter fun t => t.group = g

def decodable (p : Plan) : List Tool := p.decoders.eraseDups

/-- The stages: every tool with the tool whose decoder reads its output. -/
def stages (p : Plan) : Except Fault (List (Tool × Tool)) :=
  p.tools.mapM fun t => if t ∈ p.decoders then .ok (t, t) else .error (.noDecoder t.name)

def find (p : Plan) (name : Text) : Except Fault Tool :=
  match p.tools.find? fun t => t.name = name with
  | some t => .ok t
  | none => .error (.unknownName name)

end Plan

end LintReport
