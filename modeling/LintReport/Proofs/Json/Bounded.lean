import LintReport.Proofs.Json.Grammar
import LintReport.Proofs.Number.Bounded
import LintReport.Proofs.Text.Table

/-!
Bounded values. All numbers in a value that was read have a whole part that may be written, because
no more digits are read of a whole number, and no double is as large as that.
-/
namespace LintReport.Json

/-- A value in which the whole part of every number may be written. -/
inductive Bounded : Json → Prop
  | null : Bounded null
  | bool (b : Bool) : Bounded (bool b)
  | int {n : Int} (h : n.natAbs < Nat.pow 10 maxDigits) : Bounded (int n)
  | float {x : Binary64} (h : ∀ n, x.truncate? = some n → n.natAbs < Nat.pow 10 maxDigits) :
      Bounded (float x)
  | string (s : Text) : Bounded (string s)
  | array {items : List Json} (h : ∀ v ∈ items, Bounded v) : Bounded (array items)
  | object {members : List (Text × Json)} (h : ∀ m ∈ members, Bounded m.2) :
      Bounded (object members)

theorem bounded_of_lt_ten {n : Nat} (h : n < 10) : Bounded (int n) := .int (lt_pow_maxDigits h)

theorem Bounded.of_mem {items : List Json} {v : Json} (h : Bounded (.array items))
    (hv : v ∈ items) : Bounded v := by
  cases h with
  | array h => exact h v hv

theorem Bounded.of_member_mem {members : List (Text × Json)} {m : Text × Json}
    (h : Bounded (.object members)) (hm : m ∈ members) : Bounded m.2 := by
  cases h with
  | object h => exact h m hm

theorem Bounded.member {v : Json} (h : Bounded v) (name : Text) : Bounded (v.member name) := by
  unfold Json.member
  cases hm : v.member? name with
  | none => exact .null
  | some found =>
    cases v with
    | object members => exact h.of_member_mem (Table.mem_of_get? hm)
    | _ => cases hm

/-! ### What is read -/

def Parsed.Bounded : Parsed → Prop
  | .value v => Json.Bounded v
  | .items vs => ∀ v ∈ vs, Json.Bounded v
  | .members ms => ∀ m ∈ ms, Json.Bounded m.2

theorem bounded_word {s r : Text} {v : Json} (h : readWord? s = some (v, r)) : Bounded v := by
  obtain ⟨⟨word, value⟩, hmem, hword⟩ := List.exists_of_findSome?_eq_some h
  obtain ⟨rest, -, heq⟩ := Option.map_eq_some_iff.mp hword
  cases heq
  simp only [words, List.mem_cons, List.not_mem_nil, or_false, Prod.mk.injEq] at hmem
  rcases hmem with ⟨-, rfl⟩ | ⟨-, rfl⟩ | ⟨-, rfl⟩ | ⟨-, rfl⟩ | ⟨-, rfl⟩ | ⟨-, rfl⟩
  · exact .null
  · exact .bool true
  · exact .bool false
  all_goals exact .float fun n hn => by cases hn

theorem lt_ten_of_asciiDigit? {c : CodePoint} {d : Nat} (h : c.asciiDigit? = some d) : d < 10 := by
  have hvalue := value_of_asciiDigit? h
  cases c with
  | scalar c =>
    simp only [CodePoint.asciiDigit?, Option.ite_none_right_eq_some, Option.some.injEq] at h
    simp only [CodePoint.value] at hvalue
    omega
  | surrogate half => cases h

theorem lt_ten_of_spanDigits (s : Text) : ∀ d ∈ (spanDigits s).1, d < 10 := by
  obtain ⟨digits, -, -, hvalues, -⟩ := Text.spanDigits_eq CodePoint.asciiDigit? s
  intro d hd
  rw [spanDigits, hvalues] at hd
  obtain ⟨c, -, hc⟩ := List.mem_filterMap.mp hd
  exact lt_ten_of_asciiDigit? hc

theorem lt_ten_of_spanWhole (s : Text) : ∀ d ∈ (spanWhole s).1, d < 10 := by
  unfold spanWhole
  split
  · exact List.forall_mem_singleton.mpr (by decide)
  · exact lt_ten_of_spanDigits s

theorem bounded_number {s r : Text} {v : Json} (h : readNumber s = .ok (v, r)) : Bounded v := by
  obtain ⟨negative, body, whole, afterWhole, fraction, afterFraction, exponent, -, hw, -, -, -,
    hv⟩ := readNumber_eq_ok h
  have hwhole : ∀ d ∈ whole, d < 10 := by
    have hdigits := lt_ten_of_spanWhole body
    rwa [hw] at hdigits
  unfold numeral at hv
  split at hv
  · split at hv
    · next hlength =>
      cases hv
      refine .int ?_
      have hlt := ofDigits_lt_pow hwhole hlength
      split
      · rwa [Int.natAbs_neg, Int.natAbs_natCast]
      · rwa [Int.natAbs_natCast]
    · cases hv
  · cases hv
    exact .float fun n hn => Binary64.natAbs_truncate?_ofDecimal_lt hn

theorem Reads.bounded {s r : Text} {x : Parsed} (h : Reads s x r) : x.Bounded := by
  induction h with
  | string => exact .string _
  | emptyArray => exact .array (by simp)
  | array _ _ ih => exact .array ih
  | emptyObject => exact .object (by simp)
  | object _ _ ih =>
    refine .object fun m hm => ?_
    exact ih m (Table.mem_of_mem_ofList hm)
  | word _ h => exact bounded_word h
  | number _ _ h => exact bounded_number h
  | lastItem _ _ ih => exact List.forall_mem_singleton.mpr ih
  | item _ _ _ ihv ihvs => exact List.forall_mem_cons.mpr ⟨ihv, ihvs⟩
  | lastMember _ _ _ _ ih => exact List.forall_mem_singleton.mpr ih
  | member _ _ _ _ _ ihv ihms => exact List.forall_mem_cons.mpr ⟨ihv, ihms⟩

/-- Every value that is read is bounded. -/
theorem bounded_read {s : Text} {v : Json} (h : read s = .ok v) : Bounded v := by
  obtain ⟨-, r, hreads, -⟩ := read_eq_ok.mp h
  exact hreads.bounded

end LintReport.Json
