import Mathlib.Algebra.Group.Nat.Defs
import Mathlib.Logic.Function.Basic
import Mathlib.Data.List.Basic
import Mathlib.Tactic.Common

namespace LittleEndian

/-- An unbounded byte store. The bounds of a real memory are kept beside it. -/
abbrev Store := Nat → BitVec 8

/-- The bits a loop of `value |= byte i << 8 i` collects from `count` bytes. -/
def ofBytes (w count : Nat) (byte : Nat → BitVec 8) : BitVec w :=
  (List.range count).foldl (fun value i => value ||| ((byte i).setWidth w <<< (8 * i))) 0

/-- The `i`-th byte of a value, least significant first. -/
def byteOf {w : Nat} (value : BitVec w) (i : Nat) : BitVec 8 :=
  (value >>> (8 * i)).setWidth 8

/-- A loop that stores `count` bytes upwards from `address`. -/
def write (store : Store) (address count : Nat) (byte : Nat → BitVec 8) : Store :=
  (List.range count).foldl (fun bytes i => Function.update bytes (address + i) (byte i)) store

theorem ofBytes_succ (w count : Nat) (byte : Nat → BitVec 8) :
    ofBytes w (count + 1) byte = ofBytes w count byte ||| ((byte count).setWidth w <<< (8 * count)) := by
  simp only [ofBytes, List.range_succ, List.foldl_append, List.foldl_cons, List.foldl_nil]

theorem getLsbD_ofBytes (w count : Nat) (byte : Nat → BitVec 8) (k : Nat) :
    (ofBytes w count byte).getLsbD k =
      (decide (k < w) && decide (k / 8 < count) && (byte (k / 8)).getLsbD (k % 8)) := by
  induction count with
  | zero => simp [ofBytes]
  | succ count ih =>
    rw [ofBytes_succ, BitVec.getLsbD_or, ih, BitVec.getLsbD_shiftLeft, BitVec.getLsbD_setWidth]
    by_cases inWidth : k < w
    · rcases Nat.lt_trichotomy (k / 8) count with below | here | above
      · have early : k < 8 * count := by omega
        have within : k / 8 < count + 1 := by omega
        simp [inWidth, below, early, within]
      · subst here
        have late : ¬ k < 8 * (k / 8) := by omega
        have offset : k - 8 * (k / 8) = k % 8 := by omega
        have small : k % 8 < w := by omega
        simp [inWidth, late, offset, small]
      · have outside : ¬ k / 8 < count := by omega
        have beyond : ¬ k / 8 < count + 1 := by omega
        have high : 8 ≤ k - 8 * count := by omega
        simp [outside, beyond, BitVec.getLsbD_of_ge _ _ high]
    · simp [inWidth]

theorem getLsbD_byteOf {w : Nat} (value : BitVec w) (i k : Nat) :
    (byteOf value i).getLsbD k = (decide (k < 8) && value.getLsbD (8 * i + k)) := by
  simp [byteOf]

/-- Collecting the bytes of a value gives the value back, once all of its
bits are covered. -/
theorem ofBytes_byteOf {w count : Nat} (value : BitVec w) (covered : w ≤ 8 * count) :
    ofBytes w count (byteOf value) = value := by
  apply BitVec.eq_of_getLsbD_eq
  intro k inWidth
  have within : k / 8 < count := by omega
  have small : k % 8 < 8 := Nat.mod_lt _ (by decide)
  have index : 8 * (k / 8) + k % 8 = k := Nat.div_add_mod k 8
  rw [getLsbD_ofBytes, getLsbD_byteOf, index]
  simp [inWidth, within, small]

theorem ofBytes_congr {w count : Nat} {f g : Nat → BitVec 8} (same : ∀ i, i < count → f i = g i) :
    ofBytes w count f = ofBytes w count g := by
  induction count with
  | zero => rfl
  | succ count ih =>
    rw [ofBytes_succ, ofBytes_succ, ih (fun i bound => same i (by omega)), same count (by omega)]

theorem ofBytes_lt {w : Nat} (count : Nat) (byte : Nat → BitVec 8) :
    (ofBytes w count byte).toNat < 2 ^ (8 * count) := by
  apply Nat.lt_pow_two_of_testBit
  intro k high
  have outside : ¬ k / 8 < count := by omega
  rw [BitVec.testBit_toNat, getLsbD_ofBytes]
  simp [outside]

/-- The bytes are the digits of the value to the base 256. -/
theorem toNat_ofBytes_succ {w count : Nat} (byte : Nat → BitVec 8) (fits : 8 * (count + 1) ≤ w) :
    (ofBytes w (count + 1) byte).toNat = (ofBytes w count byte).toNat + 2 ^ (8 * count) * (byte count).toNat := by
  have below := ofBytes_lt (w := w) count byte
  have digit : (byte count).toNat < 2 ^ 8 := (byte count).isLt
  have wide : (byte count).toNat < 2 ^ w := Nat.lt_of_lt_of_le digit (Nat.pow_le_pow_right (by decide) (by omega))
  have shifted : 2 ^ (8 * count) * (byte count).toNat < 2 ^ w := by
    calc 2 ^ (8 * count) * (byte count).toNat
      _ < 2 ^ (8 * count) * 2 ^ 8 := Nat.mul_lt_mul_of_pos_left digit (Nat.two_pow_pos _)
      _ = 2 ^ (8 * count + 8) := (Nat.pow_add _ _ _).symm
      _ ≤ 2 ^ w := Nat.pow_le_pow_right (by decide) (by omega)
  rw [ofBytes_succ, BitVec.toNat_or, BitVec.toNat_shiftLeft, BitVec.toNat_setWidth, Nat.mod_eq_of_lt wide,
    Nat.shiftLeft_eq, Nat.mul_comm (byte count).toNat, Nat.mod_eq_of_lt shifted, Nat.or_comm,
    ← Nat.two_pow_add_eq_or_of_lt below, Nat.add_comm]

theorem byteOf_eq {w : Nat} (value : BitVec w) (i : Nat) : byteOf value i = BitVec.ofNat 8 (value.toNat / 256 ^ i) := by
  apply BitVec.eq_of_toNat_eq
  rw [byteOf, BitVec.toNat_setWidth, BitVec.toNat_ushiftRight, BitVec.toNat_ofNat, Nat.shiftRight_eq_div_pow,
    Nat.pow_mul]

theorem write_succ (store : Store) (address count : Nat) (byte : Nat → BitVec 8) :
    write store address (count + 1) byte =
      Function.update (write store address count byte) (address + count) (byte count) := by
  simp only [write, List.range_succ, List.foldl_append, List.foldl_cons, List.foldl_nil]

/-- What a store holds after the loop, at every address. -/
theorem write_apply (store : Store) (address count : Nat) (byte : Nat → BitVec 8) (k : Nat) :
    write store address count byte k =
      if address ≤ k ∧ k < address + count then byte (k - address) else store k := by
  induction count with
  | zero =>
    rw [if_neg (by omega)]
    rfl
  | succ count ih =>
    rw [write_succ]
    by_cases last : k = address + count
    · subst last
      simp
    · rw [Function.update_of_ne last, ih]
      congr 1
      simp only [eq_iff_iff]
      omega

theorem write_outside {store : Store} {address count k : Nat} {byte : Nat → BitVec 8}
    (outside : k < address ∨ address + count ≤ k) : write store address count byte k = store k := by
  rw [write_apply, if_neg (by omega)]

theorem write_inside {store : Store} {address count i : Nat} {byte : Nat → BitVec 8}
    (inside : i < count) : write store address count byte (address + i) = byte i := by
  rw [write_apply, if_pos (by omega), Nat.add_sub_cancel_left]

/-- A word read where it was written. -/
theorem ofBytes_write_same {w count : Nat} (store : Store) (address : Nat) (value : BitVec w)
    (covered : w ≤ 8 * count) :
    ofBytes w count (fun i => write store address count (byteOf value) (address + i)) = value := by
  rw [ofBytes_congr (g := byteOf value) (fun i bound => write_inside bound)]
  exact ofBytes_byteOf value covered

/-- A word read away from a write is unchanged. -/
theorem ofBytes_write_disjoint {w count size : Nat} {store : Store} {address target : Nat}
    {byte : Nat → BitVec 8} (apart : address + count ≤ target ∨ target + size ≤ address) :
    ofBytes w count (fun i => write store target size byte (address + i)) =
      ofBytes w count (fun i => store (address + i)) :=
  ofBytes_congr (fun i bound => write_outside (by omega))

end LittleEndian
