import CSharpActions.Text.Integer
import Mathlib.Algebra.Group.Nat.Defs
import Mathlib.Logic.Function.Basic

/-!
# Numerals

A number is read back from its decimal digits. The only numbers that cannot be read back are those
with too many digits.
-/
namespace CSharpActions.Text

theorem toNat_digitChar : ∀ n < 10, (digitChar n).toNat = 48 + n := by decide

theorem natOfDigits_ofNat (n : Nat) : natOfDigits (ofNat n) = n := by
  induction n using ofNat.induct with
  | case1 n h =>
    rw [ofNat, if_pos h, natOfDigits, List.foldl_cons, List.foldl_nil, toNat_digitChar n h]
    omega
  | case2 n h ih =>
    rw [natOfDigits] at ih
    rw [ofNat, if_neg h, natOfDigits, List.foldl_append, ih, List.foldl_cons, List.foldl_nil,
      toNat_digitChar _ (by omega)]
    omega

theorem ofNat_injective : Function.Injective ofNat :=
  Function.LeftInverse.injective natOfDigits_ofNat

theorem isPlainDigit_iff {c : CodePoint} : isPlainDigit c = true ↔ 48 ≤ c.toNat ∧ c.toNat ≤ 57 := by
  rw [isPlainDigit, Bool.and_eq_true, decide_eq_true_iff, decide_eq_true_iff]
  rfl

theorem isPlainDigit_of_mem_ofNat {n : Nat} {c : CodePoint} (h : c ∈ ofNat n) :
    isPlainDigit c = true := by
  have hdigit : ∀ m < 10, isPlainDigit (digitChar m) = true := by
    intro m hm
    have hc := toNat_digitChar m hm
    rw [isPlainDigit_iff]
    omega
  induction n using ofNat.induct with
  | case1 n hn =>
    rw [ofNat, if_pos hn, List.mem_singleton] at h
    rw [h]
    exact hdigit n hn
  | case2 n hn ih =>
    rw [ofNat, if_neg hn] at h
    rcases List.mem_append.mp h with h | h
    · exact ih h
    · rw [List.mem_singleton.mp h]
      exact hdigit _ (by omega)

theorem ofNat_ne_nil (n : Nat) : ofNat n ≠ [] := by
  rw [ofNat]
  split <;> simp

/-- The number of digits. -/
theorem length_ofNat_le_iff {n k : Nat} (hk : 0 < k) : (ofNat n).length ≤ k ↔ n < 10 ^ k := by
  induction n using ofNat.induct generalizing k with
  | case1 n h =>
    rw [ofNat, if_pos h, List.length_singleton]
    have hpow : 10 ^ 1 ≤ 10 ^ k := Nat.pow_le_pow_right (by omega) hk
    omega
  | case2 n h ih =>
    rw [ofNat, if_neg h, List.length_append, List.length_singleton]
    obtain ⟨k, rfl⟩ := Nat.exists_eq_succ_of_ne_zero (Nat.ne_of_gt hk)
    rw [Nat.pow_succ, ← Nat.div_lt_iff_lt_mul (by omega)]
    cases k with
    | zero =>
      have hlen := List.length_pos_iff.mpr (ofNat_ne_nil (n / 10))
      omega
    | succ k =>
      rw [← ih (Nat.succ_pos k)]
      omega

theorem plainNumeral_eq_self {t : Text} (h : ∀ c ∈ t, c.toNat < 127) : plainNumeral t = t := by
  induction t with
  | nil => rfl
  | cons c r ih =>
    rw [plainNumeral, if_pos (h c List.mem_cons_self),
      ih fun x hx => h x (List.mem_cons_of_mem c hx)]

theorem numeralDigits_eq {t : Text} (h : ∀ c ∈ t, isPlainDigit c = true) (afterDigit : Bool) :
    numeralDigits afterDigit t = (t, afterDigit || !t.isEmpty, []) := by
  induction t generalizing afterDigit with
  | nil => simp [numeralDigits]
  | cons c r ih =>
    rw [numeralDigits, if_pos (h c List.mem_cons_self),
      ih fun x hx => h x (List.mem_cons_of_mem c hx)]
    simp

/-- What is read of a number from its digits. -/
def readDigits (digits : Text) (n : Int) : Except IntegerError Int :=
  if maxDigits < digits.length then .error (.tooLong digits.length) else .ok n

theorem isNumeralBlank_of_digit {c : CodePoint} (h : isPlainDigit c = true) :
    isNumeralBlank c = false := by
  have hc := isPlainDigit_iff.mp h
  rw [isNumeralBlank, Bool.or_eq_false_iff]
  refine ⟨?_, ?_⟩
  · rw [decide_eq_false_iff_not]
    rintro rfl
    exact absurd h (by decide)
  · rw [Bool.and_eq_false_iff, decide_eq_false_iff_not, decide_eq_false_iff_not]
    right
    change ¬ c.toNat ≤ 13
    omega

theorem readInt_ofNat (n : Nat) : readInt (ofNat n) = readDigits (ofNat n) n := by
  have hd : ∀ c ∈ ofNat n, isPlainDigit c = true := fun _ => isPlainDigit_of_mem_ofNat
  have hplain : plainNumeral (ofNat n) = ofNat n := by
    apply plainNumeral_eq_self
    intro c hc
    have hrange := isPlainDigit_iff.mp (hd c hc)
    omega
  have hread := numeralDigits_eq hd false
  have hvalue := natOfDigits_ofNat n
  have hn := ofNat_ne_nil n
  generalize ofNat n = digits at *
  obtain ⟨c, r, rfl⟩ := List.exists_cons_of_ne_nil hn
  have hc := hd c List.mem_cons_self
  rw [readInt, hplain, List.dropWhile_cons_of_neg (by simp [isNumeralBlank_of_digit hc])]
  dsimp only
  split
  · rename_i heq
    rw [(List.cons.inj heq).1] at hc
    exact absurd hc (by decide)
  · rename_i heq
    rw [(List.cons.inj heq).1] at hc
    exact absurd hc (by decide)
  · simp [hread, hvalue, readDigits]

theorem readInt_neg_ofNat (n : Nat) :
    readInt (.char '-' :: ofNat n) = readDigits (ofNat n) (-(n : Int)) := by
  have hd : ∀ c ∈ ofNat n, isPlainDigit c = true := fun _ => isPlainDigit_of_mem_ofNat
  have hplain : plainNumeral (.char '-' :: ofNat n) = .char '-' :: ofNat n := by
    apply plainNumeral_eq_self
    intro c hc
    rcases List.mem_cons.mp hc with rfl | hc
    · decide
    · have hrange := isPlainDigit_iff.mp (hd c hc)
      omega
  have hblank : isNumeralBlank '-' = false := by decide
  rw [readInt, hplain, List.dropWhile_cons_of_neg (by simp [hblank])]
  simp [numeralDigits_eq hd false, natOfDigits_ofNat, ofNat_ne_nil, readDigits]

/-- A number is read back from its numeral unless that has too many digits. -/
theorem readInt_ofInt (n : Int) : readInt (ofInt n) = readDigits (ofNat n.natAbs) n := by
  cases n with
  | ofNat n => exact readInt_ofNat n
  | negSucc n => exact readInt_neg_ofNat (n + 1)

/-- Numbers whose numerals can be read. -/
def Readable (n : Int) : Prop := n.natAbs < 10 ^ maxDigits

theorem readable_of_lt {n : Int} {k : Nat} (h : n.natAbs < 10 ^ k) (hk : k ≤ maxDigits) :
    Readable n := Nat.lt_of_lt_of_le h (Nat.pow_le_pow_right (by omega) hk)

/-! The numbers around the least one that has too many digits. -/

theorem neg_pow_maxDigits_neg : -((10 ^ maxDigits : Nat) : Int) < 0 := by
  have hpos : 0 < 10 ^ maxDigits := Nat.pow_pos (by decide)
  omega

theorem not_readable_succ : ¬ Readable ((10 ^ maxDigits : Nat) + 1 : Int) := by
  rw [Readable]
  omega

theorem readable_neg_succ : Readable (-((10 ^ maxDigits : Nat) : Int) + 1) := by
  have hpos : 0 < 10 ^ maxDigits := Nat.pow_pos (by decide)
  rw [Readable]
  omega

theorem not_readable_neg : ¬ Readable (-((10 ^ maxDigits : Nat) : Int)) := by
  rw [Readable]
  omega

theorem readable_iff {n : Int} : Readable n ↔ ¬ maxDigits < (ofNat n.natAbs).length := by
  rw [Nat.not_lt, Readable, length_ofNat_le_iff (by decide)]

theorem writeInt_eq_ok {n : Int} (h : Readable n) : writeInt n = .ok (ofInt n) := by
  rw [writeInt, if_neg (readable_iff.mp h)]

theorem writeInt_eq_error {n : Int} (h : ¬ Readable n) : writeInt n = .error .unwritable := by
  rw [writeInt, if_pos (not_not.mp (mt readable_iff.mpr h))]

theorem readInt_ofInt_eq_ok {n : Int} (h : Readable n) : readInt (ofInt n) = .ok n := by
  rw [readInt_ofInt, readDigits, if_neg (readable_iff.mp h)]

theorem toBool_readInt_ofInt {n : Int} (h : ¬ Readable n) : (readInt (ofInt n)).toBool = false := by
  rw [readInt_ofInt, readDigits, if_pos (not_not.mp (mt readable_iff.mpr h))]
  rfl

end CSharpActions.Text
