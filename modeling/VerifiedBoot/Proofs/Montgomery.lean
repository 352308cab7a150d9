import Mathlib.Data.Nat.ModEq
import VerifiedBoot.Proofs.KeyBlob

/-!
# The square at the end of an encoded key

Montgomery multiplication works with a radix, a power of two above the modulus, and needs the square
of the radix modulo the modulus. An encoded key ends in such a square. A boot loader knows the key
by its blob only, so its radix is two to the size that the first word declares.

The square that is written is the one for the binary digits of the modulus, which are fewer than the
size unless the size is a power of two. As the modulus is odd, the two squares are equal exactly if
four to the number of missing digits is 1 modulo the modulus. That is so where no digit is missing.
It is never so where some are missing, but less than a third of the size.

* `radixSquare_eq_iff`: when two powers of two have the same square modulo an odd number.
* `exists_encode_iff`, `lastNumber_of_encode`: the keys with an encoding, and what it ends in.
* `square_exact`: when that is the square for the declared size.
-/

namespace VerifiedBoot

namespace PublicKey

/-- The square of `2^size` modulo a number. -/
def radixSquare (size n : Nat) : Nat :=
  (1 <<< size) * (1 <<< size) % n

/-- The number at the end of a blob, which has the size that the first word of the blob declares. -/
def lastNumber (blob : Bytes) : Nat :=
  Bytes.toNat (blob.drop (blob.length - Bytes.toNat (blob.take 4) / 8))

variable {key : PublicKey} {data : Bytes} {digits size n word : Nat}

/-! ### Squares of powers of two -/

/-- The square of a larger power of two has a power of four as a factor. -/
theorem square_eq_mul (h : digits ≤ size) : (1 <<< size) * (1 <<< size) =
    (1 <<< digits) * (1 <<< digits) * 1 <<< (2 * (size - digits)) := by
  obtain ⟨missing, rfl⟩ := Nat.exists_eq_add_of_le h
  simp only [Nat.one_shiftLeft, Nat.add_sub_cancel_left, ← Nat.pow_add]
  congr 1
  omega

/-- Modulo an odd number two powers of two have the same square exactly if the factor between the
squares is 1. -/
theorem radixSquare_eq_iff (hone : 1 < n) (hodd : n % 2 = 1) (h : digits ≤ size) :
    radixSquare digits n = radixSquare size n ↔ 1 <<< (2 * (size - digits)) % n = 1 := by
  have hcoprime : Nat.Coprime n ((1 <<< digits) * (1 <<< digits)) :=
    (Number.coprime_shiftLeft hodd digits).mul_right (Number.coprime_shiftLeft hodd digits)
  have hunit : 1 % n = 1 := Nat.mod_eq_of_lt hone
  unfold radixSquare
  rw [square_eq_mul h]
  constructor
  · intro hsame
    -- Powers of two are units modulo an odd number, so the smaller square can be taken off both
    -- sides.
    have hfactor : 1 ≡ 1 <<< (2 * (size - digits)) [MOD n] := by
      refine Nat.ModEq.cancel_left_of_coprime hcoprime ?_
      rw [Nat.mul_one]
      exact hsame
    rw [← hfactor, hunit]
  · intro hfactor
    have hsame : 1 ≡ 1 <<< (2 * (size - digits)) [MOD n] := hunit.trans hfactor.symm
    have hproduct := hsame.mul_left ((1 <<< digits) * (1 <<< digits))
    rwa [Nat.mul_one] at hproduct

/-- A power of two with fewer binary digits than an odd number is not 1 modulo that number. -/
theorem shiftLeft_mod_ne_one {k : Nat} (hodd : n % 2 = 1) (hpos : 0 < k)
    (h : k < Number.bitLength n) : 1 <<< k % n ≠ 1 := by
  have heven : 1 <<< k = 2 * 1 <<< (k - 1) := by
    rw [← Nat.shiftLeft_succ, Nat.sub_add_cancel hpos]
  have hle : 1 <<< k ≤ n := by
    refine Nat.le_trans ?_ (Number.shiftLeft_bitLength_le (show 0 < n by omega))
    rw [Nat.one_shiftLeft, Nat.one_shiftLeft]
    exact Nat.pow_le_pow_right (by decide) (by omega)
  rw [Nat.mod_eq_of_lt (by omega)]
  omega

/-! ### The square of a key -/

theorem square_eq (key : PublicKey) :
    key.square = radixSquare (Number.bitLength key.modulus) key.modulus :=
  rfl

/-- When the square of a key is the one for its size. -/
theorem square_eq_iff (key : PublicKey) : key.square = radixSquare key.bits key.modulus ↔
    1 <<< (2 * (key.bits - Number.bitLength key.modulus)) % key.modulus = 1 :=
  radixSquare_eq_iff key.one_lt key.odd (Number.le_roundUpPow2 _)

/-- A key with some binary digits missing, but less than a third of its size, has another square
than the one for its size. -/
theorem square_ne (hmissing : Number.bitLength key.modulus < key.bits)
    (hthird : 2 * key.bits < 3 * Number.bitLength key.modulus) :
    key.square ≠ radixSquare key.bits key.modulus := by
  rw [Ne, square_eq_iff]
  exact shiftLeft_mod_ne_one key.odd (by omega) (by omega)

/-- The keys with an encoding are those whose size is a word and has at least one byte. -/
theorem exists_encode_iff (key : PublicKey) :
    (∃ data, key.encode = .ok data) ↔ 8 ≤ key.bits ∧ key.bits < 1 <<< 32 := by
  rcases key.encode_cases with ⟨hbits, h⟩ | ⟨hbits, h⟩ | ⟨hmin, hmax, hdata⟩
  · exact iff_of_false (fun ⟨data, h'⟩ => nomatch h.symm.trans h') (by omega)
  · exact iff_of_false (fun ⟨data, h'⟩ => nomatch h.symm.trans h') (by omega)
  · exact iff_of_true hdata ⟨hmin, hmax⟩

theorem toNat_take_blob (hmax : key.bits < 1 <<< 32) (word square : Nat) :
    Bytes.toNat ((key.blob word square).take 4) = key.bits := by
  rw [take_blob, Bytes.toNat_bigEndian_of_lt hmax]

/-- The last number of a blob is the one that was put there. -/
theorem lastNumber_blob {square : Nat} (hmin : 8 ≤ key.bits) (hmax : key.bits < 1 <<< 32)
    (h : square < 1 <<< key.bits) : lastNumber (key.blob word square) = square := by
  have hdvd : 8 ∣ key.bits := Number.eight_dvd_roundUpPow2 hmin
  rw [lastNumber, toNat_take_blob hmax, length_blob, blob, List.drop_left']
  · refine Bytes.toNat_bigEndian_of_lt ?_
    rw [Nat.mul_div_cancel' hdvd]
    exact h
  · simp only [List.length_append, Bytes.length_bigEndian]
    omega

/-- An encoded key declares the size of the key and ends in the square of the key. -/
theorem lastNumber_of_encode (h : key.encode = .ok data) :
    Bytes.toNat (data.take 4) = key.bits ∧ lastNumber data = key.square := by
  obtain ⟨hmin, hmax⟩ := key.exists_encode_iff.1 ⟨data, h⟩
  obtain ⟨word, -, -, hencode⟩ := encode_eq_blob hmin hmax
  obtain rfl : key.blob word key.square = data := Except.ok.inj (hencode.symm.trans h)
  exact ⟨toNat_take_blob hmax word _, lastNumber_blob hmin hmax key.square_lt⟩

/-- **The square at the end of an encoded key.** A key is encoded exactly if its size is a word and
has at least one byte. The last number of an encoded key is the square for the binary digits of the
modulus. It is the square for the declared size exactly if four to the number of missing digits is 1
modulo the modulus: if no digit is missing, and never if some are but less than a third of the
size. -/
theorem square_exact (key : PublicKey) :
    ((∃ data, key.encode = .ok data) ↔ 8 ≤ key.bits ∧ key.bits < 1 <<< 32) ∧
    ∀ data, key.encode = .ok data → ∃ digits size, digits = Number.bitLength key.modulus ∧
      size = key.bits ∧ Bytes.toNat (data.take 4) = size ∧ digits ≤ size ∧
      lastNumber data = radixSquare digits key.modulus ∧
      (lastNumber data = radixSquare size key.modulus ↔
        1 <<< (2 * (size - digits)) % key.modulus = 1) ∧
      (digits = size → lastNumber data = radixSquare size key.modulus) ∧
      (digits < size → 2 * size < 3 * digits →
        lastNumber data ≠ radixSquare size key.modulus) := by
  refine ⟨key.exists_encode_iff, fun data h => ?_⟩
  obtain ⟨hsize, hlast⟩ := lastNumber_of_encode h
  refine ⟨_, _, rfl, rfl, hsize, Number.le_roundUpPow2 _, hlast.trans key.square_eq, ?_, ?_, ?_⟩
  · rw [hlast]
    exact key.square_eq_iff
  · intro hall
    rw [hlast, square_eq, hall]
  · intro hmissing hthird
    rw [hlast]
    exact square_ne hmissing hthird

/-- The modulus 1443 has 11 binary digits of 16, and ends in 946 where the square for its size is
451. The modulus 381 has 9 of 16, and the two squares happen to be equal. -/
theorem square_exact_shortKeys :
    (∃ data, (PublicKey.mk 1443 (by decide) (by decide)).encode = .ok data ∧
      Bytes.toNat (data.take 4) = 16 ∧ lastNumber data = 946 ∧ radixSquare 16 1443 = 451) ∧
    ∃ data, (PublicKey.mk 381 (by decide) (by decide)).encode = .ok data ∧
      Bytes.toNat (data.take 4) = 16 ∧ lastNumber data = radixSquare 16 381 := by
  constructor
  · obtain ⟨hencoded, hlast⟩ := square_exact (PublicKey.mk 1443 (by decide) (by decide))
    obtain ⟨data, hdata⟩ := hencoded.2 (by decide)
    obtain ⟨digits, size, rfl, rfl, hsize, -, hsquare, -⟩ := hlast data hdata
    exact ⟨data, hdata, hsize, hsquare, by decide⟩
  · obtain ⟨hencoded, hlast⟩ := square_exact (PublicKey.mk 381 (by decide) (by decide))
    obtain ⟨data, hdata⟩ := hencoded.2 (by decide)
    obtain ⟨digits, size, rfl, rfl, hsize, -, -, hsame, -⟩ := hlast data hdata
    exact ⟨data, hdata, hsize, hsame.2 (by decide)⟩

end PublicKey

end VerifiedBoot
