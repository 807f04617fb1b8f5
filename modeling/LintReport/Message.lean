import LintReport.Message.Aligned

/-!
Messages with places for values. Values go to the places from left to right, and every value has
its place; a single object may also give its members to places that name them. Two percent signs
are one, and a message without values is left alone.
-/
namespace LintReport.Message

inductive Piece where
  | unit (c : CodePoint)
  | place (p : Place)
deriving DecidableEq, Repr

/-- The pieces of a message, if each percent sign starts a place or is one of two. -/
def pieces? : Text → Option (List Piece)
  | [] => some []
  | .scalar '%' :: .scalar '%' :: s => (pieces? s).map (.unit (.scalar '%') :: ·)
  | c :: s =>
    if c = .scalar '%' then
      match h : place? s with
      | some (p, rest) =>
        have : rest.length < s.length := place?_length_lt h
        (pieces? rest).map (.place p :: ·)
      | none => none
    else
      (pieces? s).map (.unit c :: ·)
termination_by s => s.length

/-- The values that are left for the places to come. -/
structure Values where
  /-- The members that places may name. -/
  members : Option (Table Json) := none
  /-- The values that have no place yet. -/
  waiting : List Json

namespace Values

/-- The values of a message. An only value gives its members too. -/
def ofList : List Json → Values
  | [.object (m :: ms)] => ⟨some (m :: ms), [.object (m :: ms)]⟩
  | values => { waiting := values }

def next? (v : Values) : Option (Json × Values) :=
  match v.waiting with
  | [] => none
  | value :: waiting => some (value, { v with waiting })

/-- The values with a member in place of those that waited. -/
def choose? (key : Option Text) (v : Values) : Option Values :=
  match key with
  | none => some v
  | some key => do
    let members ← v.members
    let value ← Table.get? key members
    return { v with waiting := [value] }

def count? (count : Count) (v : Values) : Option (Option Int × Values) :=
  match count with
  | .absent => some (none, v)
  | .given n => some (some (n : Int), v)
  | .next => do
    let (value, v) ← v.next?
    return (some (← index? value), v)

/-- Is nothing left over? Members need not have a place. -/
def isDone (v : Values) : Bool := v.members.isSome || v.waiting.isEmpty

end Values

def maxWidth : Nat := Nat.pow 2 63 - 1

def maxPrecision : Nat := Nat.pow 2 31 - 1

/-- What stands at a place, and the values behind it. A width below zero aligns to the left, and a
precision below zero is zero. -/
def Place.fill? (p : Place) (v : Values) : Option (Text × Values) := do
  let v ← v.choose? p.key
  let (width, v) ← v.count? p.width
  let (precision, v) ← v.count? p.precision
  let width := width.getD 0
  let precision := precision.map Int.toNat
  if width.natAbs > maxWidth ∨ precision.any (· > maxPrecision) then
    none
  else
    let (value, v) ← v.next?
    let written ← p.write? precision value
    return (written.aligned (p.has '-' || width < 0) (p.isNumeric && p.has '0') width.natAbs, v)

/-- The pieces with their places filled, if there is a value for every place and a place for every
value. -/
def filled? (v : Values) : List Piece → Option Text
  | [] => if v.isDone then some [] else none
  | .unit c :: ps => (filled? v ps).map (c :: ·)
  | .place p :: ps => do
    let (text, v) ← p.fill? v
    return text ++ (← filled? v ps)

def fill? (values : List Json) (message : Text) : Option Text :=
  if values.isEmpty then some message else (pieces? message).bind (filled? (.ofList values))

end LintReport.Message
