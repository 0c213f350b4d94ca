import Mathlib.Algebra.Group.Nat.Defs
import Mathlib.Data.List.Induction

/-! # Numbers in big-endian byte order -/

namespace BigEndian

def value (bs : List UInt8) : Nat := bs.foldl (fun n b => n * 256 + b.toNat) 0

/-- The last `w` bytes of `n`. -/
def digits : Nat → Nat → List UInt8
  | 0, _ => []
  | w + 1, n => digits w (n / 256) ++ [UInt8.ofNat n]

@[simp] theorem length_digits (w n : Nat) : (digits w n).length = w := by
  induction w generalizing n with
  | zero => rfl
  | succ w ih => simp [digits, ih]

theorem value_snoc (bs : List UInt8) (b : UInt8) :
    value (bs ++ [b]) = value bs * 256 + b.toNat := by
  simp [value]

theorem value_lt (bs : List UInt8) : value bs < 256 ^ bs.length := by
  induction bs using List.reverseRecOn with
  | nil => simp [value]
  | append_singleton bs b ih =>
    have hb := b.toNat_lt
    rw [value_snoc, List.length_append, List.length_singleton, Nat.pow_succ]
    omega

theorem value_digits {w n : Nat} (h : n < 256 ^ w) : value (digits w n) = n := by
  induction w generalizing n with
  | zero =>
    rw [Nat.pow_zero] at h
    simp [digits, value]
    omega
  | succ w ih =>
    have hn : n / 256 < 256 ^ w := by
      rw [Nat.pow_succ] at h
      omega
    rw [digits, value_snoc, ih hn, UInt8.toNat_ofNat']
    omega

end BigEndian
