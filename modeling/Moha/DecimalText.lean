import Mathlib.Algebra.Group.Int.Defs
import Mathlib.Algebra.Group.Nat.Defs

/-! Decimal text of machine integers: how an unsigned 64-bit number is printed,
and how signed and unsigned 64-bit parsers read text back. Printing always
produces digits without a sign, so the unsigned parser inverts it everywhere
and the signed parser inverts it below its own range. -/
namespace Moha.DecimalText

/-- The decimal form of an unsigned number. -/
def sprint (n : UInt64) : String := n.toNat.repr

/-- The value of a non-empty digit string; `none` for anything else. -/
def digitsValue (chars : List Char) : Option Nat :=
  if chars ≠ [] ∧ chars.all Char.isDigit then some (Nat.ofDigitChars 10 chars 0) else none

/-- Unsigned base-10 parsing into 64 bits: no sign is accepted, and a value out
of range is an error. -/
def parseUint (text : String) : Option UInt64 :=
  (digitsValue text.toList).bind fun n => if n < 2 ^ 64 then some (UInt64.ofNat n) else none

/-- A number with its sign, as the signed parser reads it before the range
check. -/
def signedValue : List Char → Option Int
  | '-' :: chars => (digitsValue chars).map fun n => -(n : Int)
  | '+' :: chars => (digitsValue chars).map fun n => (n : Int)
  | chars => (digitsValue chars).map fun n => (n : Int)

/-- Signed base-10 parsing into 64 bits. A syntax error yields zero and a range
error the nearest bound; both report failure in the second component. -/
def parseInt (chars : List Char) : Int × Bool :=
  match signedValue chars with
  | none => (0, false)
  | some i =>
    if i < -2 ^ 63 then (-2 ^ 63, false)
    else if 2 ^ 63 ≤ i then (2 ^ 63 - 1, false)
    else (i, true)

/-- `none` whenever parsing reports failure. -/
def atoi (text : String) : Option Int :=
  let parsed := parseInt text.toList
  if parsed.2 then some parsed.1 else none

theorem sprint_toList (n : UInt64) : (sprint n).toList = Nat.toDigits 10 n.toNat := by
  rw [sprint, Nat.repr_eq_ofList_toDigits, String.toList_ofList]

theorem all_isDigit_toDigits (n : ℕ) : (Nat.toDigits 10 n).all Char.isDigit = true :=
  List.all_eq_true.mpr fun _ member => Nat.isDigit_of_mem_toDigits (by decide) (by decide) member

theorem digitsValue_toDigits (n : ℕ) : digitsValue (Nat.toDigits 10 n) = some n := by
  simp [digitsValue, all_isDigit_toDigits, Nat.toDigits_ne_nil]

/-- A digit string starts with a digit, so no sign is read from it. -/
theorem signedValue_of_digitsValue {chars : List Char} {n : ℕ}
    (value : digitsValue chars = some n) : signedValue chars = some (n : Int) := by
  have digits : chars.all Char.isDigit = true := by
    unfold digitsValue at value
    split at value
    · rename_i shape
      exact shape.2
    · contradiction
  unfold signedValue
  split
  · exact absurd (List.all_eq_true.mp digits '-' List.mem_cons_self) (by decide)
  · exact absurd (List.all_eq_true.mp digits '+' List.mem_cons_self) (by decide)
  · simp [value]

/-- A digit string is read by the signed parser if its value is in range. -/
theorem parseInt_of_digitsValue {chars : List Char} {n : ℕ}
    (value : digitsValue chars = some n) :
    parseInt chars = if n < 2 ^ 63 then ((n : Int), true) else (2 ^ 63 - 1, false) := by
  have lower : ¬ (n : Int) < -2 ^ 63 := by omega
  simp only [parseInt, signedValue_of_digitsValue value, lower, ↓reduceIte]
  by_cases small : n < 2 ^ 63
  · have upper : ¬ (2 : Int) ^ 63 ≤ n := by omega
    simp only [small, upper, ↓reduceIte]
  · have upper : (2 : Int) ^ 63 ≤ n := by omega
    simp only [small, upper, ↓reduceIte]

/-- Every printed number is read back by the unsigned parser. -/
@[simp] theorem parseUint_sprint (n : UInt64) : parseUint (sprint n) = some n := by
  have bound := n.toNat_lt
  simp [parseUint, sprint_toList, digitsValue_toDigits, bound]

/-- A printed number below `2^63` is read back by the signed parser. -/
theorem parseInt_sprint {n : UInt64} (small : n.toNat < 2 ^ 63) :
    parseInt (sprint n).toList = ((n.toNat : Int), true) := by
  rw [sprint_toList, parseInt_of_digitsValue (digitsValue_toDigits _), if_pos small]

theorem atoi_sprint {n : UInt64} (small : n.toNat < 2 ^ 63) :
    atoi (sprint n) = some (n.toNat : Int) := by
  simp only [atoi, parseInt_sprint small, ↓reduceIte]

/-- A printed number from `2^63` on is out of the signed parser's range. -/
theorem atoi_sprint_large {n : UInt64} (large : 2 ^ 63 ≤ n.toNat) : atoi (sprint n) = none := by
  have range := parseInt_of_digitsValue (digitsValue_toDigits n.toNat)
  rw [if_neg (Nat.not_lt.mpr large)] at range
  simp only [atoi, sprint_toList, range, ↓reduceIte, Bool.false_eq_true]

theorem sprint_injective {m n : UInt64} (same : sprint m = sprint n) : m = n := by
  have parsed := congrArg parseUint same
  simpa using parsed

end Moha.DecimalText
