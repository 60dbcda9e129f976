/-
# What a CRC-32 detects

Each step of the division can be undone, so registers that differ once differ to the end.

* `crcBit_injective`, `foldl_crcByte_injective` — a step, and all steps over some bytes;
* `DetectsByte` — byte strings that differ in one byte have different checksums;
* `detectsByte_crc32` — the CRC-32 does.
-/
import Mathlib.Logic.Function.Basic
import Memd.ByteCodec

namespace ByteCodec

/-! ## One bit -/

theorem toNat_half (c : UInt32) : (c >>> 1).toNat = c.toNat / 2 := by
  rw [UInt32.toNat_shiftRight]
  simp [Nat.shiftRight_eq_div_pow]

theorem lowBit_iff (c : UInt32) : c &&& 1 = 1 ↔ c.toNat % 2 = 1 := by
  rw [← UInt32.toNat_inj, UInt32.toNat_and]
  have hone : (1 : UInt32).toNat = 1 := rfl
  rw [hone, Nat.and_one_is_mod]

/-- The polynomial sets the highest bit, which a half does not have. -/
theorem half_xor_ne (c c' : UInt32) : (c >>> 1) ^^^ (0xEDB88320 : UInt32) ≠ c' >>> 1 := by
  intro h
  have hnat := congrArg UInt32.toNat h
  rw [UInt32.toNat_xor, toNat_half, toNat_half] at hnat
  have hc := UInt32.toNat_lt c
  have hc' := UInt32.toNat_lt c'
  have hpoly : (0xEDB88320 : UInt32).toNat = (c.toNat / 2) ^^^ (c'.toNat / 2) := by
    rw [← hnat, ← Nat.xor_assoc, Nat.xor_self, Nat.zero_xor]
  have hlt : (c.toNat / 2) ^^^ (c'.toNat / 2) < 2 ^ 31 :=
    Nat.xor_lt_two_pow (by omega) (by omega)
  rw [← hpoly] at hlt
  exact absurd hlt (by decide)

/-- **One bit** of the division can be undone. -/
theorem crcBit_injective : Function.Injective crcBit := by
  intro c c' h
  unfold crcBit at h
  have hbit : (c &&& 1 = 1 ↔ c' &&& 1 = 1) ∧ c >>> 1 = c' >>> 1 := by
    split at h <;> rename_i hc <;> split at h <;> rename_i hc'
    · exact ⟨iff_of_true hc hc', (UInt32.xor_left_inj _).mp h⟩
    · exact absurd h (half_xor_ne c c')
    · exact absurd h.symm (half_xor_ne c' c)
    · exact ⟨iff_of_false hc hc', h⟩
  rw [lowBit_iff, lowBit_iff] at hbit
  have hhalf := congrArg UInt32.toNat hbit.2
  rw [toNat_half, toNat_half] at hhalf
  have hlow := hbit.1
  exact UInt32.toNat_inj.mp (by omega)

/-! ## Bytes -/

theorem crcByte_left_injective (b : UInt8) : Function.Injective fun c => crcByte c b := by
  intro c c' h
  have hxor := crcBit_injective (crcBit_injective (crcBit_injective (crcBit_injective
    (crcBit_injective (crcBit_injective (crcBit_injective (crcBit_injective h)))))))
  exact (UInt32.xor_left_inj _).mp hxor

theorem crcByte_right_injective (c : UInt32) : Function.Injective (crcByte c) := by
  intro b b' h
  have hxor := crcBit_injective (crcBit_injective (crcBit_injective (crcBit_injective
    (crcBit_injective (crcBit_injective (crcBit_injective (crcBit_injective h)))))))
  have hwide := congrArg UInt32.toNat ((UInt32.xor_right_inj _).mp hxor)
  simpa [UInt8.toNat_inj] using hwide

theorem foldl_crcByte_injective (d : List UInt8) : Function.Injective fun c => d.foldl crcByte c := by
  induction d with
  | nil => exact Function.injective_id
  | cons b d ih => exact ih.comp (crcByte_left_injective b)

/-- A checksum that shows the change of one byte. -/
def DetectsByte (crc : List UInt8 → UInt32) : Prop :=
  ∀ (a d : List UInt8) (b b' : UInt8), b ≠ b' → crc (a ++ b :: d) ≠ crc (a ++ b' :: d)

/-- **One byte** changed is a checksum changed. -/
theorem detectsByte_crc32 : DetectsByte crc32 := by
  intro a d b b' h heq
  have hfold := (UInt32.xor_left_inj _).mp heq
  rw [List.foldl_append, List.foldl_append, List.foldl_cons, List.foldl_cons] at hfold
  exact h (crcByte_right_injective _ (foldl_crcByte_injective d hfold))

end ByteCodec
