import Mathlib.Algebra.Ring.Nat
import Mathlib.Data.List.Basic

/-!
# Numeral — numbers as bytes

A varint is written in groups of seven bits, least significant group first; every byte but the last
has its high bit set.  `varint n` is the shortest such numeral of `n`.  A reader accepts more than
the shortest ones: any `Terminated` list of bytes is the numeral of its `groups`.

A little-endian numeral has a fixed number of bytes, least significant byte first.
-/

namespace KmpApp
namespace Codec

/-! ## Varints -/

/-- The number the low seven bits of the bytes spell, least significant byte first. -/
def groups : List UInt8 → ℕ
  | [] => 0
  | b :: bs => b.toNat % 128 + 128 * groups bs

/-- Every byte but the last announces another one. -/
def Terminated : List UInt8 → Prop
  | [] => False
  | [b] => b.toNat < 128
  | b :: c :: bs => 128 ≤ b.toNat ∧ Terminated (c :: bs)

def varint (n : ℕ) : List UInt8 :=
  if n < 128 then
    [UInt8.ofNat n]
  else
    UInt8.ofNat (n % 128 + 128) :: varint (n / 128)
termination_by n

theorem toNat_ofNat_lt {n : ℕ} (h : n < 256) : (UInt8.ofNat n).toNat = n := by
  rw [UInt8.toNat_ofNat']
  exact Nat.mod_eq_of_lt h

theorem varint_of_lt {n : ℕ} (h : n < 128) : varint n = [UInt8.ofNat n] := by
  rw [varint, if_pos h]

theorem varint_of_le {n : ℕ} (h : 128 ≤ n) :
    varint n = UInt8.ofNat (n % 128 + 128) :: varint (n / 128) := by
  rw [varint, if_neg (by omega)]

theorem varint_ne_nil (n : ℕ) : varint n ≠ [] := by
  rw [varint]
  split <;> simp

theorem Terminated.ne_nil {w : List UInt8} (h : Terminated w) : w ≠ [] := by
  rintro rfl
  exact h

theorem terminated_cons_of_low {b : UInt8} {w : List UInt8} (hb : b.toNat < 128) :
    Terminated (b :: w) ↔ w = [] := by
  cases w with
  | nil => simpa [Terminated] using hb
  | cons c w =>
      simp only [Terminated, reduceCtorEq, iff_false, not_and]
      omega

theorem terminated_cons_of_high {b : UInt8} {w : List UInt8} (hb : 128 ≤ b.toNat) :
    Terminated (b :: w) ↔ Terminated w := by
  cases w with
  | nil =>
      simp only [Terminated, iff_false]
      omega
  | cons c w => simp [Terminated, hb]

theorem terminated_varint (n : ℕ) : Terminated (varint n) := by
  induction n using Nat.strongRecOn with
  | _ n ih =>
    -- As in the definition: one last byte, or one that announces the numeral of the quotient.
    by_cases hn : n < 128
    · rw [varint_of_lt hn, Terminated, toNat_ofNat_lt (by omega)]
      exact hn
    · rw [varint_of_le (by omega)]
      have hhigh : 128 ≤ (UInt8.ofNat (n % 128 + 128)).toNat := by
        rw [toNat_ofNat_lt (by omega)]
        omega
      exact (terminated_cons_of_high hhigh).mpr (ih (n / 128) (by omega))

theorem groups_varint (n : ℕ) : groups (varint n) = n := by
  induction n using Nat.strongRecOn with
  | _ n ih =>
    by_cases hn : n < 128
    · rw [varint_of_lt hn, groups, groups, toNat_ofNat_lt (by omega)]
      omega
    · rw [varint_of_le (by omega), groups, ih (n / 128) (by omega), toNat_ofNat_lt (by omega)]
      omega

/-- The numeral of `n` has `k` bytes or fewer exactly when `n` fits into `k` groups. -/
theorem length_varint_le {n k : ℕ} (hk : 0 < k) : (varint n).length ≤ k ↔ n < 128 ^ k := by
  induction k generalizing n with
  | zero => omega
  | succ k ih =>
    by_cases hn : n < 128
    · have hpow : 128 ≤ 128 ^ (k + 1) := Nat.le_self_pow (by omega) 128
      rw [varint_of_lt hn]
      simp only [List.length_singleton]
      omega
    · rw [varint_of_le (by omega), List.length_cons, pow_succ]
      -- One byte is not enough for a number of two groups.
      cases k with
      | zero =>
          have hpos : 0 < (varint (n / 128)).length :=
            List.length_pos_of_ne_nil (varint_ne_nil _)
          constructor
          · omega
          · omega
      | succ k =>
          rw [Nat.add_le_add_iff_right, ih (by omega), Nat.div_lt_iff_lt_mul (by omega)]

/-! ## Little-endian numerals -/

def littleEndian : ℕ → ℕ → List UInt8
  | 0, _ => []
  | k + 1, n => UInt8.ofNat n :: littleEndian k (n / 256)

def ofLittleEndian : List UInt8 → ℕ
  | [] => 0
  | b :: bs => b.toNat + 256 * ofLittleEndian bs

@[simp] theorem length_littleEndian (k n : ℕ) : (littleEndian k n).length = k := by
  induction k generalizing n with
  | zero => rfl
  | succ k ih => simp [littleEndian, ih]

theorem littleEndian_eq_map (k n : ℕ) :
    littleEndian k n = (List.range k).map fun i => UInt8.ofNat (n / 256 ^ i) := by
  induction k generalizing n with
  | zero => rfl
  | succ k ih =>
      rw [littleEndian, ih, List.range_succ_eq_map, List.map_cons, List.map_map]
      -- The head is the byte at place zero; every other place moves up by one.
      congr 1
      · simp
      · apply List.map_congr_left
        intro i _
        rw [Function.comp_apply, pow_succ', Nat.div_div_eq_div_mul]

theorem ofLittleEndian_littleEndian (k n : ℕ) : ofLittleEndian (littleEndian k n) = n % 256 ^ k := by
  induction k generalizing n with
  | zero => simp [littleEndian, ofLittleEndian, Nat.mod_one]
  | succ k ih =>
      have hsplit : n % (256 * 256 ^ k) = n % 256 + 256 * (n / 256 % 256 ^ k) := Nat.mod_mul
      rw [pow_succ' 256 k, hsplit, littleEndian, ofLittleEndian, ih, UInt8.toNat_ofNat']

theorem ofLittleEndian_lt (bs : List UInt8) : ofLittleEndian bs < 256 ^ bs.length := by
  induction bs with
  | nil => simp [ofLittleEndian]
  | cons b bs ih =>
      have hb : b.toNat < 256 := b.toNat_lt
      rw [ofLittleEndian, List.length_cons, pow_succ']
      omega

theorem littleEndian_ofLittleEndian (bs : List UInt8) :
    littleEndian bs.length (ofLittleEndian bs) = bs := by
  induction bs with
  | nil => rfl
  | cons b bs ih =>
      have hb : b.toNat < 256 := b.toNat_lt
      -- A byte is the remainder, the bytes behind it the quotient.
      have hhead : UInt8.ofNat (b.toNat + 256 * ofLittleEndian bs) = b := by
        apply UInt8.toNat_inj.mp
        rw [UInt8.toNat_ofNat']
        omega
      have htail : (b.toNat + 256 * ofLittleEndian bs) / 256 = ofLittleEndian bs := by omega
      rw [List.length_cons, ofLittleEndian, littleEndian, hhead, htail, ih]

end Codec
end KmpApp
