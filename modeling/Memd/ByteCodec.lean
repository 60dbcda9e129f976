/-
# Byte codecs: little-endian words, tagged varints, byte strings, CRC-32

Self-contained encoders and decoders over `List UInt8`, in the layout of a
compact binary serializer:

* `leBytes` / `ofLeBytes` : fixed-width little-endian words;
* `varint` / `readVarint` : a number below 251 is one byte, larger ones are a tag
  (251, 252, 253) and 2, 4 or 8 little-endian bytes;
* `zigzag` / `unzigzag` : signed numbers interleaved into the natural numbers;
* `block` / `readBlock` : a byte string behind its length;
* `crc32` : the reflected CRC with polynomial `0xEDB88320`.

Every reader returns the value and the bytes behind it, so readers compose with
the option monad; the `read*_append` lemmas say that each reader undoes its
writer in front of any bytes.
-/
import Mathlib.Algebra.Group.Int.Defs
import Mathlib.Algebra.Group.Nat.Defs
import Mathlib.Data.Int.Basic
import Mathlib.Data.Nat.Basic
import Mathlib.Tactic.Common

namespace ByteCodec

/-! ## Little-endian words -/

/-- The `k` low-order bytes of `n`, least significant first. -/
def leBytes : ℕ → ℕ → List UInt8
  | 0, _ => []
  | k + 1, n => UInt8.ofNat n :: leBytes k (n / 256)

/-- The number written by a list of bytes, least significant first. -/
def ofLeBytes : List UInt8 → ℕ
  | [] => 0
  | b :: bs => b.toNat + 256 * ofLeBytes bs

@[simp] theorem length_leBytes (k n : ℕ) : (leBytes k n).length = k := by
  induction k generalizing n with
  | zero => rfl
  | succ k ih => rw [leBytes, List.length_cons, ih]

/-- Writing and reading `k` bytes keeps the number modulo `256 ^ k`. -/
theorem ofLeBytes_leBytes (k n : ℕ) : ofLeBytes (leBytes k n) = n % 256 ^ k := by
  induction k generalizing n with
  | zero => simp [leBytes, ofLeBytes, Nat.mod_one]
  | succ k ih =>
    rw [leBytes, ofLeBytes, ih, Nat.pow_succ, Nat.mul_comm (256 ^ k), Nat.mod_mul]
    simp

theorem ofLeBytes_leBytes_of_lt {k n : ℕ} (h : n < 256 ^ k) :
    ofLeBytes (leBytes k n) = n := by
  rw [ofLeBytes_leBytes, Nat.mod_eq_of_lt h]

theorem ofLeBytes_lt (bs : List UInt8) : ofLeBytes bs < 256 ^ bs.length := by
  induction bs with
  | nil => exact Nat.one_pos
  | cons b bs ih =>
    have hb := b.toNat_lt
    rw [ofLeBytes, List.length_cons, Nat.pow_succ]
    omega

/-- A list of bytes is the word of its number. -/
theorem leBytes_ofLeBytes (bs : List UInt8) : leBytes bs.length (ofLeBytes bs) = bs := by
  induction bs with
  | nil => rfl
  | cons b bs ih =>
    have hb := b.toNat_lt
    have hlow : UInt8.ofNat (b.toNat + 256 * ofLeBytes bs) = b := by
      rw [← UInt8.toNat_inj, UInt8.toNat_ofNat']
      omega
    have hhigh : (b.toNat + 256 * ofLeBytes bs) / 256 = ofLeBytes bs := by omega
    rw [ofLeBytes, List.length_cons, leBytes, hlow, hhigh, ih]

/-- Read a `k`-byte little-endian word. -/
def readLe (k : ℕ) (d : List UInt8) : Option (ℕ × List UInt8) :=
  if k ≤ d.length then some (ofLeBytes (d.take k), d.drop k) else none

theorem readLe_append {k n : ℕ} (h : n < 256 ^ k) (y : List UInt8) :
    readLe k (leBytes k n ++ y) = some (n, y) := by
  have hlen : k ≤ (leBytes k n ++ y).length := by simp
  rw [readLe, if_pos hlen, List.take_append_of_le_length (by simp),
    List.drop_append_of_le_length (by simp), List.take_of_length_le (by simp),
    List.drop_of_length_le (by simp), ofLeBytes_leBytes_of_lt h, List.nil_append]

/-! ## Varints -/

/-- A number of at most 64 bits: one byte below 251, else a tag and a word. -/
def varint (n : ℕ) : List UInt8 :=
  if n < 251 then [UInt8.ofNat n]
  else if n < 2 ^ 16 then 251 :: leBytes 2 n
  else if n < 2 ^ 32 then 252 :: leBytes 4 n
  else 253 :: leBytes 8 n

/-- Read a varint of at most 64 bits. -/
def readVarint : List UInt8 → Option (ℕ × List UInt8)
  | [] => none
  | b :: d =>
    if b.toNat < 251 then some (b.toNat, d)
    else if b = 251 then readLe 2 d
    else if b = 252 then readLe 4 d
    else if b = 253 then readLe 8 d
    else none

theorem readVarint_append {n : ℕ} (h : n < 2 ^ 64) (y : List UInt8) :
    readVarint (varint n ++ y) = some (n, y) := by
  rw [varint]
  split_ifs with h1 h2 h3
  · have hb : (UInt8.ofNat n).toNat = n := by
      rw [UInt8.toNat_ofNat']
      omega
    rw [List.singleton_append, readVarint, hb, if_pos h1]
  · rw [List.cons_append, readVarint, if_neg (by decide), if_pos rfl]
    exact readLe_append (by omega) y
  · rw [List.cons_append, readVarint, if_neg (by decide), if_neg (by decide), if_pos rfl]
    exact readLe_append (by omega) y
  · rw [List.cons_append, readVarint, if_neg (by decide), if_neg (by decide),
      if_neg (by decide), if_pos rfl]
    exact readLe_append (by omega) y

/-! ## Signed numbers -/

/-- Zigzag: nonnegative numbers go to the even naturals, negative ones to the odd. -/
def zigzag (z : ℤ) : ℕ := if 0 ≤ z then 2 * z.toNat else 2 * (-z).toNat - 1

/-- The number behind a zigzag code. -/
def unzigzag (n : ℕ) : ℤ := if n % 2 = 0 then (n / 2 : ℕ) else -((n / 2 : ℕ) : ℤ) - 1

theorem unzigzag_zigzag (z : ℤ) : unzigzag (zigzag z) = z := by
  unfold unzigzag zigzag
  split_ifs <;> omega

/-- A 64-bit signed number has a 64-bit zigzag. -/
theorem zigzag_lt {z : ℤ} (hl : -2 ^ 63 ≤ z) (hu : z < 2 ^ 63) : zigzag z < 2 ^ 64 := by
  unfold zigzag
  split_ifs <;> omega

/-! ## Byte strings -/

/-- A byte string behind its length. -/
def block (b : List UInt8) : List UInt8 := varint b.length ++ b

/-- Reads a length and as many bytes. -/
def readBlock (d : List UInt8) : Option (List UInt8 × List UInt8) := do
  let (n, d) ← readVarint d
  if n ≤ d.length then some (d.take n, d.drop n) else none

theorem readBlock_append {b : List UInt8} (h : b.length < 2 ^ 64) (y : List UInt8) :
    readBlock (block b ++ y) = some (b, y) := by
  rw [readBlock, block, List.append_assoc, readVarint_append h]
  simp

/-! ## CRC-32 -/

/-- One bit of the reflected CRC division. -/
def crcBit (c : UInt32) : UInt32 :=
  if c &&& 1 = 1 then (c >>> 1) ^^^ 0xEDB88320 else c >>> 1

/-- Feed one byte to the CRC register. -/
def crcByte (c : UInt32) (b : UInt8) : UInt32 :=
  crcBit (crcBit (crcBit (crcBit (crcBit (crcBit (crcBit (crcBit (c ^^^ b.toUInt32))))))))

/-- The CRC-32 of a byte string. -/
def crc32 (d : List UInt8) : UInt32 := d.foldl crcByte 0xFFFFFFFF ^^^ 0xFFFFFFFF

/-- The check value of the CRC: the digest of the digits `1` to `9`. -/
example : crc32 [0x31, 0x32, 0x33, 0x34, 0x35, 0x36, 0x37, 0x38, 0x39] = 0xCBF43926 := by
  decide +kernel

end ByteCodec
