import VerifiedBoot.Proofs.Layout
import VerifiedBoot.Proofs.Rounding
import VerifiedBoot.PublicKey

/-!
# Public keys are read back

The size of a key is a power of two, and the modulus has no more binary digits. An encoded key is
two words and two numbers of that size, and the key is read back from it.
-/

namespace VerifiedBoot

namespace PublicKey

/-- Whether the size of a key, and with it the length of its encoding, is below its sign bit. A key
of fewer than eight bits has no encoding. -/
def InRange (key : PublicKey) : Prop :=
  8 ≤ key.bits ∧ key.bits < 1 <<< 31

instance (key : PublicKey) : Decidable key.InRange :=
  inferInstanceAs (Decidable (_ ∧ _))

theorem modulus_lt (key : PublicKey) : key.modulus < 1 <<< key.bits := by
  refine Nat.lt_of_lt_of_le (Number.lt_shiftLeft_bitLength key.modulus) ?_
  rw [Nat.one_shiftLeft, Nat.one_shiftLeft]
  exact Nat.pow_le_pow_right (by decide) (Number.le_roundUpPow2 _)

/-- A key has a bit. -/
theorem bits_pos (key : PublicKey) : 0 < key.bits := by
  by_contra h
  have hone := key.one_lt
  have hlt := key.modulus_lt
  rw [show key.bits = 0 by omega] at hlt
  simp at hlt
  omega

/-- The numbers of a key are those of its modulus and the one exponent. -/
theorem ofNumbers_modulus (key : PublicKey) :
    ofNumbers (key.modulus : Nat) exponent = .ok key := by
  have h : 1 < (key.modulus : Int).toNat ∧ (key.modulus : Int).toNat % 2 = 1 :=
    ⟨key.one_lt, key.odd⟩
  rw [ofNumbers, if_neg (not_not.2 rfl), dif_pos h]
  rfl

/-- The parts of an encoded key: the two words, the modulus and the square. -/
theorem encode_eq_ok {key : PublicKey} {data : Bytes} (h : key.encode = .ok data) :
    ∃ word head square, 0 ≤ word ∧ word < wordSize ∧
      layout.pack ((key.bits : Int), word, ()) = .ok head ∧ square.length = key.bits / 8 ∧
      8 ≤ key.bits ∧ data = head ++ Bytes.bigEndian (key.bits / 8) key.modulus ++ square := by
  obtain ⟨inverse, -, h⟩ := Outcome.bind_eq_ok.1 h
  obtain ⟨head, hhead, h⟩ := Outcome.bind_eq_ok.1 h
  obtain ⟨modulus, hmodulus, h⟩ := Outcome.bind_eq_ok.1 h
  obtain ⟨square, hsquare, h⟩ := Outcome.bind_eq_ok.1 h
  obtain ⟨hfits, rfl⟩ := Number.encode_eq_ok hmodulus
  obtain ⟨-, rfl⟩ := Number.encode_eq_ok hsquare
  rw [Nat.mod_eq_of_lt key.modulus_lt] at hfits h
  -- Of fewer than eight bits there is no byte, and only zero has a number without bytes.
  have hbits : 8 ≤ key.bits := by
    by_contra hlt
    rw [show key.bits / 8 = 0 by omega] at hfits
    have := key.one_lt
    simp at hfits
    omega
  have hword : (0 : Int) < wordSize := by decide
  exact ⟨_, head, _, Int.emod_nonneg _ (by decide), Int.emod_lt_of_pos _ hword, hhead,
    Bytes.length_bigEndian _ _, hbits, (Except.ok.inj h).symm⟩

/-- An encoded key is two words and two numbers of its size. -/
theorem length_of_encode {key : PublicKey} {data : Bytes} (h : key.encode = .ok data) :
    data.length = 8 + 2 * (key.bits / 8) := by
  obtain ⟨word, head, square, -, -, hhead, hsquare, -, rfl⟩ := encode_eq_ok h
  rw [List.length_append, List.length_append, Layout.length_pack hhead, Bytes.length_bigEndian,
    hsquare]
  simp only [layout, Layout.size, Field.width]
  omega

/-- A key whose size is in range has an encoding. -/
theorem exists_encode {key : PublicKey} (h : key.InRange) : ∃ data, key.encode = .ok data := by
  obtain ⟨inverse, hinverse⟩ : ∃ inverse, Number.inverse? key.modulus wordSize = .ok inverse := by
    unfold Number.inverse?
    simp only
    split
    · exact ⟨none, rfl⟩
    · exact ⟨_, if_neg (by decide)⟩
  have hdvd : 8 ∣ key.bits := Number.eight_dvd_roundUpPow2 h.1
  have hbits : key.bits ≤ Number.maxBits := Nat.le_of_lt (Nat.lt_trans h.2 (by decide))
  have hword : (0 : Int) < wordSize := by decide
  have hholds : layout.Holds ((key.bits : Int), (wordSize - inverse.getD 0) % wordSize, ()) :=
    ⟨⟨Int.natCast_nonneg _, by exact_mod_cast Nat.lt_trans h.2 (by decide)⟩,
      ⟨Int.emod_nonneg _ (by decide), Int.emod_lt_of_pos _ hword⟩, trivial⟩
  obtain ⟨head, hhead⟩ := Layout.exists_pack hholds
  obtain ⟨modulus, hmodulus⟩ := Number.exists_encode key.modulus hdvd hbits
  obtain ⟨square, hsquare⟩ := Number.exists_encode (1 <<< Number.bitLength key.modulus *
    1 <<< Number.bitLength key.modulus % key.modulus) hdvd hbits
  exact ⟨_, Outcome.bind_eq_ok.2 ⟨inverse, hinverse, Outcome.bind_eq_ok.2 ⟨head, hhead,
    Outcome.bind_eq_ok.2 ⟨modulus, hmodulus, Outcome.bind_eq_ok.2 ⟨square, hsquare, rfl⟩⟩⟩⟩⟩

/-- A key of fewer than eight bits has no encoding. -/
theorem eight_le_bits_of_encode {key : PublicKey} {data : Bytes} (h : key.encode = .ok data) :
    8 ≤ key.bits := by
  obtain ⟨-, -, -, -, -, -, -, hbits, -⟩ := encode_eq_ok h
  exact hbits

/-- The key of a modulus has that modulus. -/
theorem modulus_of_ofNumbers {modulus : Nat} {exponent : Int} {key : PublicKey}
    (h : ofNumbers modulus exponent = .ok key) : key.modulus = modulus := by
  unfold ofNumbers at h
  split at h
  · cases h
  · split at h
    · cases h
      rfl
    · cases h

/-- What a blob has to be for a key to be read from it: its size is that of the key, and its first
number the modulus. Nothing else is looked at. -/
theorem decode_eq_ok {data : Bytes} {key : PublicKey} :
    decode data = .ok key ↔ (∃ word, layout.unpack data = .ok ((key.bits : Int), word, ())) ∧
      key.bits < 1 <<< 31 ∧ 8 ∣ key.bits ∧ data.length = 8 + 2 * (key.bits / 8) ∧
      Bytes.toNat (Bytes.slice data 8 (key.bits / 8)) = key.modulus := by
  constructor
  · intro h
    obtain ⟨⟨(size : Int), word, ⟨⟩⟩, hrow, h⟩ := Outcome.bind_eq_ok.1 h
    obtain ⟨bits, hbits, h⟩ := Outcome.bind_eq_ok.1 h
    obtain ⟨hsize, h⟩ := Outcome.guard_eq_ok.1 h
    obtain ⟨hlength, h⟩ := Outcome.guard_eq_ok.1 h
    obtain ⟨hmodulus, h⟩ := Outcome.guard_eq_ok.1 h
    obtain ⟨-, h⟩ := Outcome.guard_eq_ok.1 h
    have hkey := modulus_of_ofNumbers h
    have hholds := Layout.unpack_eq_ok.1 hrow
    have hnonneg : 0 ≤ size := by
      have := Layout.holds_read hholds.1
      rw [hholds.2] at this
      exact this.1.1
    obtain ⟨rfl, hlt⟩ := (checkUnsigned_eq_ok (by decide) hnonneg).1 hbits
    rw [← hkey] at hmodulus
    obtain rfl : (key.bits : Int) = bits := by
      by_contra hne
      exact hmodulus (.inr hne)
    simp only [Int.toNat_natCast] at hlength hkey
    refine ⟨⟨word, hrow⟩, by exact_mod_cast hlt, by omega, not_not.1 hlength, hkey.symm⟩
  · rintro ⟨⟨word, hrow⟩, hlt, hdvd, hlength, hmodulus⟩
    have hpos := key.bits_pos
    have hcheck : checkUnsigned (key.bits : Int) 32 "key_num_bits" = .ok (key.bits : Int) :=
      (checkUnsigned_eq_ok (by decide) (Int.natCast_nonneg _)).2 ⟨rfl, by exact_mod_cast hlt⟩
    refine Outcome.bind_eq_ok.2 ⟨_, hrow, Outcome.bind_eq_ok.2 ⟨_, hcheck, ?_⟩⟩
    refine Outcome.guard_eq_ok.2 ⟨by omega, ?_⟩
    refine Outcome.guard_eq_ok.2 ⟨not_not.2 ?_, ?_⟩
    · rw [Int.toNat_natCast]
      exact hlength
    · simp only [Int.toNat_natCast, hmodulus]
      refine Outcome.guard_eq_ok.2 ⟨?_, Outcome.guard_eq_ok.2 ⟨?_, ofNumbers_modulus key⟩⟩
      · exact not_or.2 ⟨by have := key.one_lt; omega, not_not.2 rfl⟩
      · have := key.odd
        omega

theorem inRange_of_decode {data : Bytes} {key : PublicKey} (h : decode data = .ok key) :
    key.InRange := by
  obtain ⟨-, hlt, hdvd, -, -⟩ := decode_eq_ok.1 h
  have hpos := key.bits_pos
  exact ⟨by omega, hlt⟩

/-- A key is read back from its encoding. -/
theorem decode_encode {key : PublicKey} {data : Bytes} (h : key.encode = .ok data)
    (hbits : key.bits < 1 <<< 31) : decode data = .ok key := by
  obtain ⟨word, head, square, hword, hlt, hhead, hsquare, hmin, hdata⟩ := encode_eq_ok h
  have hdvd : 8 ∣ key.bits := Number.eight_dvd_roundUpPow2 hmin
  have hlength : head.length = 8 := Layout.length_pack hhead
  have hrow : layout.Holds ((key.bits : Int), word, ()) :=
    ⟨⟨Int.natCast_nonneg _, by exact_mod_cast Nat.lt_trans hbits (by decide)⟩, ⟨hword, hlt⟩,
      trivial⟩
  have hunpack :=
    Layout.unpack_pack hhead hrow (Bytes.bigEndian (key.bits / 8) key.modulus ++ square)
  rw [← List.append_assoc, ← hdata] at hunpack
  have hslice : Bytes.slice data 8 (key.bits / 8) = Bytes.bigEndian (key.bits / 8) key.modulus := by
    rw [Bytes.slice, hdata, List.append_assoc, List.drop_left' hlength]
    exact List.take_left' (Bytes.length_bigEndian _ _)
  refine decode_eq_ok.2 ⟨⟨word, hunpack⟩, hbits, hdvd, length_of_encode h, ?_⟩
  rw [hslice]
  apply Bytes.toNat_bigEndian_of_lt
  rw [Nat.mul_div_cancel' hdvd]
  exact key.modulus_lt

end PublicKey

end VerifiedBoot
