import Moha.DecimalText
import Moha.PathText

/-! The server ID of a generated MySQL configuration, `CreateMySQLConf` of `moctl/conf.go`:
the decimal texts of the third octet, the fourth octet and the port one after the other,
with a one for a third octet of zero. Nothing marks where one text ends and the next
begins, and the number may have eleven digits. -/
namespace Moha.ServerID
open DecimalText PathText

/-- What `CreateMySQLConf` does with the address: the process exits, or the
configuration gets a server ID. -/
inductive Generated where
  | exits
  | serverID (id : Int)
  deriving DecidableEq, Repr

/-- `conf.go::CreateMySQLConf` up to the server ID. An error of the port by itself is
logged. -/
def createMySQLConf (hostAddress port : Text) : Generated :=
  match hostAddress.splitOn '.' with
  | [_, _, third, fourth] =>
    let text := if third = ['0'] then '1' :: (fourth ++ port) else third ++ (fourth ++ port)
    match parseInt text with
    | (id, true) => .serverID id
    | (_, false) => .exits
  | _ => .exits

/-- An IPv4 address with a port. -/
structure Endpoint where
  first : Fin 256
  second : Fin 256
  third : Fin 256
  fourth : Fin 256
  port : Nat
  portPos : 1 ≤ port
  portLe : port ≤ 65535
  deriving DecidableEq, Repr

def decimal (n : Nat) : Text := Nat.toDigits 10 n

def Endpoint.hostAddress (e : Endpoint) : Text :=
  ['.'].intercalate [decimal e.first, decimal e.second, decimal e.third, decimal e.fourth]

/-- The configuration that is generated for an endpoint. -/
def Endpoint.conf (e : Endpoint) : Generated := createMySQLConf e.hostAddress (decimal e.port)

def width (n : Nat) : Nat := (decimal n).length

/-- What is printed of the third octet. -/
def Endpoint.leading (e : Endpoint) : Nat := max e.third.val 1

/-- The server ID as a number. -/
def Endpoint.number (e : Endpoint) : Nat :=
  (e.leading * 10 ^ width e.fourth + e.fourth) * 10 ^ width e.port + e.port

/-! ### Which endpoints are in order -/

/-- The endpoint is small enough for 32 bits. -/
def Endpoint.Fits (e : Endpoint) : Prop := e.third.val ≤ 42 ∨ e.fourth.val ≤ 99 ∨ e.port ≤ 9999

/-- Two octets with the given numbers of digits in the second read as the other two: the longer
second one begins with the last digits of the other first one. -/
def SameDigits (third fourth n third' fourth' n' : Nat) : Prop :=
  n ≤ n' ∧ fourth' = third % 10 ^ (n' - n) * 10 ^ n + fourth ∧ third' = third / 10 ^ (n' - n) ∨
  n' ≤ n ∧ fourth = third' % 10 ^ (n - n') * 10 ^ n' + fourth' ∧ third = third' / 10 ^ (n - n')

/-- The second port has some digits more than the first, and they are the last digits of the
first endpoint's octets: of the fourth, or all of the fourth and the last ones of the third.
What is left of the first endpoint's octets reads as the octets of the second. -/
def Endpoint.RunsInto (e e' : Endpoint) : Prop :=
  let more := width e'.port - width e.port
  width e.port ≤ width e'.port ∧
    if more < width e.fourth then
      e'.port = e.fourth.val % 10 ^ more * 10 ^ width e.port + e.port ∧
        SameDigits e.leading (e.fourth / 10 ^ more) (width e.fourth - more)
          e'.leading e'.fourth (width e'.fourth)
    else
      let beyond := more - width e.fourth
      e'.port = (e.leading % 10 ^ beyond * 10 ^ width e.fourth + e.fourth) * 10 ^ width e.port +
          e.port ∧
        e'.fourth = e.leading / 10 ^ beyond % 10 ^ width e'.fourth ∧
        e'.leading = e.leading / 10 ^ beyond / 10 ^ width e'.fourth

/-! ### The number that is generated -/

theorem width_le {n k : Nat} (positive : 0 < k) (small : n < 10 ^ k) : width n ≤ k :=
  (Nat.length_toDigits_le_iff (by decide) positive).mpr small

private theorem dot_not_mem_decimal (n : Nat) : '.' ∉ decimal n := by
  intro member
  exact absurd (List.all_eq_true.mp (all_isDigit_toDigits n) '.' member) (by decide)

private theorem ofDigitChars_decimal (n init : Nat) :
    Nat.ofDigitChars 10 (decimal n) init = init * 10 ^ width n + n := by
  rw [Nat.ofDigitChars_eq_ofDigitChars_zero, decimal, Nat.ofDigitChars_ten_toDigits, Nat.mul_comm]
  rfl

theorem digitsValue_concat (c d p : Nat) :
    digitsValue (decimal c ++ (decimal d ++ decimal p)) =
      some ((c * 10 ^ width d + d) * 10 ^ width p + p) := by
  have digits : (decimal c ++ (decimal d ++ decimal p)).all Char.isDigit = true := by
    simp only [List.all_append, decimal, all_isDigit_toDigits, Bool.and_self]
  have nonempty : decimal c ++ (decimal d ++ decimal p) ≠ [] := by
    simp [decimal, Nat.toDigits_ne_nil]
  rw [digitsValue, if_pos ⟨nonempty, digits⟩, Nat.ofDigitChars_append, Nat.ofDigitChars_append,
    ofDigitChars_decimal, ofDigitChars_decimal, ofDigitChars_decimal, Nat.zero_mul, Nat.zero_add]

private theorem decimal_eq_zero_iff (n : Nat) : decimal n = ['0'] ↔ n = 0 := by
  constructor
  · intro same
    have value := @Nat.ofDigitChars_ten_toDigits n
    rw [← decimal, same] at value
    exact value.symm
  · rintro rfl
    rfl

namespace Endpoint
variable (e e' : Endpoint)

private theorem splitOn_hostAddress : e.hostAddress.splitOn '.' =
    [decimal e.first, decimal e.second, decimal e.third, decimal e.fourth] := by
  unfold hostAddress
  rw [List.splitOn_intercalate '.' _ (by simp)]
  simp [dot_not_mem_decimal]

theorem number_pos : 1 ≤ e.number := by
  have positive := e.portPos
  unfold number
  omega

theorem number_lt : e.number < 2 ^ 63 := by
  have third : e.leading ≤ 255 := by unfold leading; omega
  have fourth : 10 ^ width e.fourth ≤ 10 ^ 3 :=
    Nat.pow_le_pow_right (by decide) (width_le (by decide) (by omega))
  have port : 10 ^ width e.port ≤ 10 ^ 5 :=
    Nat.pow_le_pow_right (by decide) (width_le (by decide) (by have := e.portLe; omega))
  calc e.number
      ≤ (255 * 10 ^ 3 + 255) * 10 ^ 5 + 65535 := by
        refine Nat.add_le_add (Nat.mul_le_mul (Nat.add_le_add ?_ (by omega)) port) e.portLe
        exact Nat.mul_le_mul third fourth
    _ < 2 ^ 63 := by decide

/-- An endpoint always gets a server ID. -/
theorem conf_eq : e.conf = .serverID e.number := by
  have text : (if decimal e.third = ['0'] then '1' :: (decimal e.fourth ++ decimal e.port)
      else decimal e.third ++ (decimal e.fourth ++ decimal e.port)) =
        decimal e.leading ++ (decimal e.fourth ++ decimal e.port) := by
    unfold leading
    by_cases zero : e.third.val = 0
    · rw [if_pos ((decimal_eq_zero_iff _).mpr zero), zero]
      rfl
    · rw [if_neg (mt (decimal_eq_zero_iff _).mp zero), Nat.max_eq_left (by omega)]
  have parsed : parseInt (decimal e.leading ++ (decimal e.fourth ++ decimal e.port)) =
      ((e.number : Int), true) :=
    (parseInt_of_digitsValue (digitsValue_concat _ _ _)).trans (if_pos e.number_lt)
  unfold conf createMySQLConf
  rw [splitOn_hostAddress]
  simp only [text, parsed]

end Endpoint

/-! ### The endpoints that clash -/

private theorem lt_pow_width (n : Nat) : n < 10 ^ width n :=
  (Nat.length_toDigits_le_iff (by decide) Nat.length_toDigits_pos).mp (Nat.le_refl (width n))

private theorem width_eq {n k : Nat} (large : 10 ^ k ≤ n) (small : n < 10 ^ (k + 1)) :
    width n = k + 1 := by
  refine Nat.le_antisymm (width_le (Nat.succ_pos k) small) (Nat.succ_le_of_lt ?_)
  by_contra short
  have below := lt_pow_width n
  have monotone : 10 ^ width n ≤ 10 ^ k := Nat.pow_le_pow_right (by decide) (by omega)
  omega

/-- A number is cut at `n` digits from its end. -/
private theorem eq_mul_add_iff {whole head tail n : Nat} (small : tail < 10 ^ n) :
    whole = head * 10 ^ n + tail ↔ tail = whole % 10 ^ n ∧ head = whole / 10 ^ n := by
  have positive : 0 < 10 ^ n := Nat.pow_pos (by decide)
  constructor
  · rintro rfl
    constructor
    · rw [Nat.mul_add_mod_self_right, Nat.mod_eq_of_lt small]
    · rw [Nat.mul_comm, Nat.mul_add_div positive, Nat.div_eq_of_lt small, Nat.add_zero]
  · rintro ⟨rfl, rfl⟩
    exact (Nat.div_add_mod' whole (10 ^ n)).symm

/-- A cut to the left of the last digits leaves them alone. -/
private theorem cut_of_le {head tail n n' : Nat} (small : tail < 10 ^ n) (le : n ≤ n') :
    (head * 10 ^ n + tail) % 10 ^ n' = head % 10 ^ (n' - n) * 10 ^ n + tail ∧
      (head * 10 ^ n + tail) / 10 ^ n' = head / 10 ^ (n' - n) := by
  obtain ⟨more, rfl⟩ := Nat.exists_eq_add_of_le le
  have positive : 0 < 10 ^ n := Nat.pow_pos (by decide)
  have front : (head * 10 ^ n + tail) / 10 ^ n = head := by
    rw [Nat.mul_comm, Nat.mul_add_div positive, Nat.div_eq_of_lt small, Nat.add_zero]
  have last : (head * 10 ^ n + tail) % 10 ^ n = tail := by
    rw [Nat.mul_add_mod_self_right, Nat.mod_eq_of_lt small]
  rw [Nat.add_sub_cancel_left, Nat.pow_add, Nat.mod_mul, ← Nat.div_div_eq_div_mul, front, last,
    Nat.mul_comm (10 ^ n), Nat.add_comm]
  exact ⟨rfl, rfl⟩

private theorem mul_add_eq_iff_of_le {head tail n head' tail' n' : Nat} (small : tail < 10 ^ n)
    (small' : tail' < 10 ^ n') (le : n ≤ n') :
    head * 10 ^ n + tail = head' * 10 ^ n' + tail' ↔
      tail' = head % 10 ^ (n' - n) * 10 ^ n + tail ∧ head' = head / 10 ^ (n' - n) := by
  obtain ⟨last, front⟩ := @cut_of_le head tail n n' small le
  rw [eq_mul_add_iff small', last, front]

private theorem mul_add_eq_iff {head tail n head' tail' n' : Nat} (small : tail < 10 ^ n)
    (small' : tail' < 10 ^ n') :
    head * 10 ^ n + tail = head' * 10 ^ n' + tail' ↔ SameDigits head tail n head' tail' n' := by
  unfold SameDigits
  rcases Nat.le_total n n' with le | le
  · have direct := @mul_add_eq_iff_of_le head tail n head' tail' n' small small' le
    constructor
    · exact fun same => .inl ⟨le, direct.mp same⟩
    · rintro (⟨_, cut⟩ | ⟨ge, cut⟩)
      · exact direct.mpr cut
      · exact ((mul_add_eq_iff_of_le small' small ge).mpr cut).symm
  · have direct := @mul_add_eq_iff_of_le head' tail' n' head tail n small' small le
    constructor
    · exact fun same => .inr ⟨le, direct.mp same.symm⟩
    · rintro (⟨ge, cut⟩ | ⟨_, cut⟩)
      · exact (mul_add_eq_iff_of_le small small' ge).mpr cut
      · exact (direct.mpr cut).symm

namespace Endpoint
variable {e e' : Endpoint}

/-- With the shorter port first, the numbers are the same exactly if the digits run over. -/
theorem number_eq_iff_of_le (le : width e.port ≤ width e'.port) :
    e.number = e'.number ↔ e.RunsInto e' := by
  have fourth := lt_pow_width e.fourth
  have fourth' := lt_pow_width e'.fourth
  unfold number RunsInto
  rw [mul_add_eq_iff_of_le (lt_pow_width e.port) (lt_pow_width e'.port) le]
  simp only [le, true_and]
  generalize width e'.port - width e.port = more
  split
  · -- only digits of the fourth octet run over
    rename_i inside
    have rest : e.fourth.val / 10 ^ more < 10 ^ (width e.fourth - more) := by
      rw [Nat.div_lt_iff_lt_mul (Nat.pow_pos (by decide)), ← Nat.pow_add]
      rwa [Nat.sub_add_cancel (Nat.le_of_lt inside)]
    have split : e.leading * 10 ^ width e.fourth + e.fourth.val =
        (e.leading * 10 ^ (width e.fourth - more) + e.fourth.val / 10 ^ more) * 10 ^ more +
          e.fourth.val % 10 ^ more := by
      rw [Nat.add_mul, Nat.mul_assoc, ← Nat.pow_add, Nat.sub_add_cancel (Nat.le_of_lt inside),
        Nat.add_assoc, Nat.div_add_mod']
    obtain ⟨last, front⟩ := (eq_mul_add_iff (Nat.mod_lt _ (Nat.pow_pos (by decide)))).mp split
    rw [← last, ← front, @eq_comm _ (_ * _ + e'.fourth.val), mul_add_eq_iff rest fourth']
  · rename_i outside
    obtain ⟨last, front⟩ := @cut_of_le e.leading e.fourth.val _ more fourth (by omega)
    rw [last, front, @eq_comm _ (_ * _ + e'.fourth.val), eq_mul_add_iff fourth']

theorem number_eq_iff : e.number = e'.number ↔ e.RunsInto e' ∨ e'.RunsInto e := by
  rcases Nat.le_total (width e.port) (width e'.port) with le | le
  · constructor
    · exact fun same => .inl ((number_eq_iff_of_le le).mp same)
    · rintro (runs | runs)
      · exact (number_eq_iff_of_le le).mpr runs
      · exact ((number_eq_iff_of_le runs.1).mpr runs).symm
  · constructor
    · exact fun same => .inr ((number_eq_iff_of_le le).mp same.symm)
    · rintro (runs | runs)
      · exact (number_eq_iff_of_le runs.1).mpr runs
      · exact ((number_eq_iff_of_le le).mpr runs).symm

/-- A bound on the number from bounds on its parts. -/
private theorem number_le_of {third n m : Nat} (leading : e.leading ≤ third)
    (fourth : width e.fourth ≤ n) (port : width e.port ≤ m) :
    e.number ≤ (third * 10 ^ n + e.fourth) * 10 ^ m + e.port := by
  have front : 10 ^ width e.fourth ≤ 10 ^ n := Nat.pow_le_pow_right (by decide) fourth
  have last : 10 ^ width e.port ≤ 10 ^ m := Nat.pow_le_pow_right (by decide) port
  unfold number
  refine Nat.add_le_add_right (Nat.mul_le_mul (Nat.add_le_add_right ?_ _) last) _
  exact Nat.mul_le_mul leading front

/-- The IDs of more than 32 bits have three digits from the fourth octet and five from the
port, behind 43 or more. -/
theorem number_le_iff : e.number ≤ 2 ^ 32 - 1 ↔ e.Fits := by
  have third := e.third.isLt
  have fourth := e.fourth.isLt
  have port := e.portLe
  have leading : e.leading ≤ 255 := by unfold Endpoint.leading; omega
  have three : width e.fourth ≤ 3 := width_le (by decide) (by omega)
  have five : width e.port ≤ 5 := width_le (by decide) (by omega)
  constructor
  · intro small
    by_contra outside
    simp only [Fits, not_or, Nat.not_le] at outside
    obtain ⟨high, wide, long⟩ := outside
    have ofFourth : width e.fourth = 3 := width_eq (by omega) (by omega)
    have ofPort : width e.port = 5 := width_eq (by omega) (by omega)
    have large : 43 ≤ e.leading := by unfold Endpoint.leading; omega
    rw [number, ofFourth, ofPort] at small
    omega
  · rintro (low | narrow | short)
    · have := @number_le_of e 42 3 5 (by unfold Endpoint.leading; omega) three five
      omega
    · have := @number_le_of e 255 2 5 leading (width_le (by decide) (by omega)) five
      omega
    · have := @number_le_of e 255 3 4 leading three (width_le (by decide) (by omega))
      omega

end Endpoint

/-- Two endpoints get different server IDs, both in the range of MySQL, exactly if no digits
run over from the octets of one into the other port, and each is small enough. -/
theorem generated_ids_iff (e e' : Endpoint) :
    (∃ id id', e.conf = .serverID id ∧ e'.conf = .serverID id' ∧ id ≠ id' ∧
      (1 ≤ id ∧ id ≤ 2 ^ 32 - 1) ∧ (1 ≤ id' ∧ id' ≤ 2 ^ 32 - 1)) ↔
    (¬ e.RunsInto e' ∧ ¬ e'.RunsInto e) ∧ e.Fits ∧ e'.Fits := by
  have positive := e.number_pos
  have positive' := e'.number_pos
  rw [e.conf_eq, e'.conf_eq, ← not_or, ← Endpoint.number_eq_iff, ← Endpoint.number_le_iff,
    ← Endpoint.number_le_iff]
  constructor
  · rintro ⟨id, id', same, same', apart, ⟨_, le⟩, _, le'⟩
    cases same
    cases same'
    omega
  · rintro ⟨apart, le, le'⟩
    exact ⟨e.number, e'.number, rfl, rfl, by omega, by omega, by omega⟩

/-- The neighbouring texts run into each other: `10.0.1.11:3306` and `10.0.11.1:3306` both
get 1113306. The number of `10.0.255.255:65535` has more than 32 bits. -/
theorem generated_ids_clash :
    createMySQLConf "10.0.1.11".toList "3306".toList = .serverID 1113306 ∧
      createMySQLConf "10.0.11.1".toList "3306".toList = .serverID 1113306 ∧
      createMySQLConf "10.0.255.255".toList "65535".toList = .serverID 25525565535 ∧
      (2 ^ 32 - 1 : Int) < 25525565535 := by
  decide +kernel

end Moha.ServerID
