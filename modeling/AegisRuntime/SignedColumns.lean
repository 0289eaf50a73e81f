import Mathlib.Algebra.Ring.Int.Defs
import Mathlib.Algebra.Ring.Nat
import Mathlib.Logic.Function.Basic

/-!
# Unsigned words in signed columns

A database column is a signed 64-bit integer. An unsigned word is written by a
cast that wraps and read back by the opposite one; nothing is lost on the way.
-/

namespace AegisRuntime.SignedColumns

/-- `n as i64`. -/
def asI64 (n : UInt64) : ℤ := if n.toNat < 2^63 then n.toNat else n.toNat-2^64

/-- `v as u64`. -/
def asU64 (v : ℤ) : UInt64 := UInt64.ofInt v

theorem asI64_lt (n : UInt64) : asI64 n < 2^63 := by
  have hn := n.toNat_lt
  unfold asI64
  split <;> omega

theorem asI64_of_lt {n : UInt64} (h : n.toNat < 2^63) : asI64 n=n.toNat := if_pos h

/-- The casts to the column and back lose nothing. -/
@[simp] theorem asU64_asI64 (n : UInt64) : asU64 (asI64 n)=n := by
  have hn := n.toNat_lt
  apply UInt64.toNat_inj.mp
  unfold asU64 asI64
  split
  · have hmod : (n.toNat : ℤ)%2^64=n.toNat := by omega
    simp only [UInt64.ofInt,hmod]
    simp
  · next hbig =>
    have hmod : ((n.toNat : ℤ)-2^64)%2^64=n.toNat := by omega
    simp only [UInt64.ofInt,hmod]
    simp

/-- Different words are different in the column. -/
theorem asI64_injective : Function.Injective asI64 := Function.LeftInverse.injective asU64_asI64

/-- A value that the column can hold is read back as itself. -/
theorem toNat_asU64 {v : ℤ} (hpos : 0 ≤ v) (hlt : v < 2^63) : (asU64 v).toNat=v.toNat := by
  have hmod : v%2^64=v := by omega
  have hsmall : v.toNat < 2^64 := by omega
  simp only [asU64,UInt64.ofInt,hmod]
  rw [UInt64.toNat_ofNat',Nat.mod_eq_of_lt hsmall]

end AegisRuntime.SignedColumns
