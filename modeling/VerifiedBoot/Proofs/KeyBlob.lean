import Mathlib.Tactic.LinearCombination
import VerifiedBoot.Proofs.Inverse
import VerifiedBoot.Proofs.PublicKey

/-!
# What stands in an encoded key

A boot loader reduces modulo `2^32` with the second word of an encoded key, which has to be the
negative inverse of the modulus. As the modulus is odd there is one, and the algorithm that looks
for it finds it, however long the modulus is. A key is encoded as two words and two numbers of the
size of the key, unless it has fewer than eight bits, or so many that its size is no word.

* `encode_eq_blob`: the bytes of a key whose size is a word.
* `encode_of_lt_eight`, `encode_of_no_word`: the keys without an encoding.
* `blob_exact`: what the encoding says of the key, and what a blob says that is read as one.
-/

namespace VerifiedBoot

/-- A number that fits into a word is packed as its bytes. -/
theorem Field.pack_word {width n : Nat} (h : n < 1 <<< (8 * width)) :
    pack (.word width) (n : Int) = .ok (Bytes.bigEndian width n) :=
  if_pos ⟨Int.natCast_nonneg n, Int.ofNat_lt.2 h⟩

theorem Field.pack_word_eq_error {width n : Nat} (h : 1 <<< (8 * width) ≤ n) :
    pack (.word width) (n : Int) = .error .fieldRange :=
  if_neg fun hrange => Nat.not_lt.2 h (Int.ofNat_lt.1 hrange.2)

namespace Number

/-- The low binary digits of a number that do not fit into whole bytes are not written. -/
theorem encode_eq_error {bits value : Nat} (hbits : bits ≤ maxBits)
    (h : 1 <<< (8 * (bits / 8)) ≤ value % (1 <<< bits)) :
    encode bits value = .error .numberTooWide := by
  have hlow : ((value : Int) % ((1 <<< bits : Nat) : Int)).toNat = value % (1 <<< bits) := by
    rw [← Int.natCast_emod, Int.toNat_natCast]
  unfold encode
  rw [if_neg (by omega), if_neg (by omega)]
  simp only [Int.toNat_natCast, hlow]
  exact if_neg (by omega)

/-- A number is written in whole bytes, of which there are enough for what is kept of it. -/
theorem encode_of_dvd {bits : Nat} (value : Nat) (hdvd : 8 ∣ bits) (hbits : bits ≤ maxBits) :
    encode bits value = .ok (Bytes.bigEndian (bits / 8) (value % (1 <<< bits))) := by
  obtain ⟨data, hdata⟩ := exists_encode value hdvd hbits
  rw [hdata, (encode_eq_ok hdata).2]

/-- An odd number has no common divisor with a power of two. -/
theorem coprime_shiftLeft {n : Nat} (hodd : n % 2 = 1) (k : Nat) : Nat.Coprime n (1 <<< k) := by
  have htwo : Nat.Coprime n 2 := by
    rw [Nat.Coprime, Nat.gcd_comm, Nat.gcd_rec, hodd]
    rfl
  rw [Nat.one_shiftLeft]
  exact htwo.pow_right k

end Number

namespace PublicKey

/-- The bytes of a key with a second word and a last number. -/
def blob (key : PublicKey) (word square : Nat) : Bytes :=
  Bytes.bigEndian 4 key.bits ++ Bytes.bigEndian 4 word ++
    Bytes.bigEndian (key.bits / 8) key.modulus ++ Bytes.bigEndian (key.bits / 8) square

/-- The square that an encoded key ends with. -/
def square (key : PublicKey) : Nat :=
  (1 <<< Number.bitLength key.modulus) * (1 <<< Number.bitLength key.modulus) % key.modulus

theorem square_lt (key : PublicKey) : key.square < 1 <<< key.bits :=
  Nat.lt_trans (Nat.mod_lt _ (Nat.lt_trans Nat.one_pos key.one_lt)) key.modulus_lt

variable {key : PublicKey} {data : Bytes}

theorem gcd_wordSize (key : PublicKey) : Int.gcd key.modulus wordSize = 1 :=
  Number.coprime_shiftLeft key.odd 32

/-- The word that is written is the negative inverse of the modulus. -/
theorem exists_word (key : PublicKey) :
    ∃ (inverse : Option Int) (word : Nat),
      Number.inverse? key.modulus wordSize = .ok inverse ∧
      (wordSize - inverse.getD 0) % wordSize = word ∧ word < 1 <<< 32 ∧
      (word * key.modulus + 1) % (1 <<< 32) = 0 := by
  obtain ⟨x, hinverse, -, -, hproduct⟩ :=
    Number.exists_inverse (show 0 < wordSize by decide) key.gcd_wordSize
  have hnonneg : 0 ≤ (wordSize - x) % wordSize := Int.emod_nonneg _ (by decide)
  have hlt : (wordSize - x) % wordSize < wordSize := Int.emod_lt_of_pos _ (by decide)
  obtain ⟨word, hword⟩ := Int.eq_ofNat_of_zero_le hnonneg
  refine ⟨some x, word, hinverse, hword, ?_, ?_⟩
  · rw [hword] at hlt
    exact Int.ofNat_lt.1 hlt
  · have hdvd : wordSize ∣ (word : Int) * key.modulus + 1 := by
      obtain ⟨k, hk⟩ : wordSize ∣ key.modulus * x - 1 :=
        Int.dvd_of_emod_eq_zero (Int.emod_eq_emod_iff_emod_sub_eq_zero.1 hproduct)
      have hquotient := Int.mul_ediv_add_emod (wordSize - x) wordSize
      rw [hword] at hquotient
      -- `word` is `wordSize - x` less a multiple of the word size, and `modulus * x` is one more
      -- than a multiple of it.
      refine ⟨key.modulus - k - (wordSize - x) / wordSize * key.modulus, ?_⟩
      linear_combination (key.modulus : Int) * hquotient - hk
    have hnat : ((1 <<< 32 : Nat) : Int) ∣ (word * key.modulus + 1 : Nat) := by
      rw [Int.natCast_add, Int.natCast_mul]
      exact hdvd
    exact Nat.mod_eq_zero_of_dvd (Int.natCast_dvd_natCast.1 hnat)

/-- The two words in front. -/
theorem pack_words {word : Nat} (hbits : key.bits < 1 <<< 32) (hword : word < 1 <<< 32) :
    layout.pack ((key.bits : Int), (word : Int), ()) =
      .ok (Bytes.bigEndian 4 key.bits ++ Bytes.bigEndian 4 word) := by
  refine Layout.pack_cons_eq_ok.2 ⟨_, Bytes.bigEndian 4 word, Field.pack_word hbits, ?_, rfl⟩
  exact Layout.pack_cons_eq_ok.2
    ⟨_, [], Field.pack_word hword, rfl, (List.append_nil _).symm⟩

/-- A key whose size is a word, and has at least a byte, is encoded as a blob. -/
theorem encode_eq_blob (hmin : 8 ≤ key.bits) (hmax : key.bits < 1 <<< 32) :
    ∃ word : Nat, word < 1 <<< 32 ∧ (word * key.modulus + 1) % (1 <<< 32) = 0 ∧
      key.encode = .ok (key.blob word key.square) := by
  obtain ⟨inverse, word, hinverse, hword, hlt, hnegative⟩ := key.exists_word
  have hdvd : 8 ∣ key.bits := Number.eight_dvd_roundUpPow2 hmin
  have hlimit : key.bits ≤ Number.maxBits := Nat.le_of_lt (Nat.lt_trans hmax (by decide))
  have hmodulus := Number.encode_of_dvd key.modulus hdvd hlimit
  have hsquare := Number.encode_of_dvd key.square hdvd hlimit
  rw [Nat.mod_eq_of_lt key.modulus_lt] at hmodulus
  rw [Nat.mod_eq_of_lt key.square_lt] at hsquare
  refine ⟨word, hlt, hnegative, Outcome.bind_eq_ok.2 ⟨inverse, hinverse, ?_⟩⟩
  rw [hword]
  refine Outcome.bind_eq_ok.2 ⟨_, pack_words hmax hlt, Outcome.bind_eq_ok.2 ⟨_, hmodulus, ?_⟩⟩
  exact Outcome.bind_eq_ok.2 ⟨_, hsquare, rfl⟩

/-- A key of fewer than eight bits has no byte for its modulus. -/
theorem encode_of_lt_eight (h : key.bits < 8) : key.encode = .error .numberTooWide := by
  obtain ⟨inverse, word, hinverse, hword, hlt, -⟩ := key.exists_word
  have hbits : key.bits < 1 <<< 32 := Nat.lt_trans h (by decide)
  have hmodulus : Number.encode key.bits key.modulus = .error .numberTooWide := by
    refine Number.encode_eq_error (Nat.le_of_lt (Nat.lt_trans hbits (by decide))) ?_
    have hone := key.one_lt
    rw [Nat.mod_eq_of_lt key.modulus_lt, show key.bits / 8 = 0 by omega]
    exact Nat.le_of_lt hone
  refine Outcome.bind_eq_error.2 (.inr ⟨inverse, hinverse, ?_⟩)
  rw [hword]
  refine Outcome.bind_eq_error.2 (.inr ⟨_, pack_words hbits hlt, ?_⟩)
  exact Outcome.bind_eq_error.2 (.inl hmodulus)

/-- A key whose size is no word has no encoding either. -/
theorem encode_of_no_word (h : 1 <<< 32 ≤ key.bits) : key.encode = .error .fieldRange := by
  obtain ⟨inverse, word, hinverse, -⟩ := key.exists_word
  have hsize : Field.pack (.word 4) (key.bits : Int) = .error .fieldRange :=
    Field.pack_word_eq_error h
  refine Outcome.bind_eq_error.2 (.inr ⟨inverse, hinverse, Outcome.bind_eq_error.2 (.inl ?_)⟩)
  exact Outcome.bind_eq_error.2 (.inl hsize)

theorem length_blob (key : PublicKey) (word square : Nat) :
    (key.blob word square).length = 8 + 2 * (key.bits / 8) := by
  simp only [blob, List.length_append, Bytes.length_bigEndian]
  omega

theorem take_blob (key : PublicKey) (word square : Nat) :
    (key.blob word square).take 4 = Bytes.bigEndian 4 key.bits := by
  rw [blob, List.append_assoc, List.append_assoc]
  exact List.take_left' (Bytes.length_bigEndian _ _)

/-- The second word of a blob. -/
theorem slice_blob_word (key : PublicKey) (word square : Nat) :
    Bytes.slice (key.blob word square) 4 4 = Bytes.bigEndian 4 word := by
  rw [blob, List.append_assoc, List.append_assoc, Bytes.slice,
    List.drop_left' (Bytes.length_bigEndian _ _)]
  exact List.take_left' (Bytes.length_bigEndian _ _)

/-- The modulus stands behind the two words of a blob. -/
theorem slice_blob_modulus (key : PublicKey) (word square : Nat) :
    Bytes.slice (key.blob word square) 8 (key.bits / 8) =
      Bytes.bigEndian (key.bits / 8) key.modulus := by
  have hhead : (Bytes.bigEndian 4 key.bits ++ Bytes.bigEndian 4 word).length = 8 := by
    rw [List.length_append, Bytes.length_bigEndian, Bytes.length_bigEndian]
  rw [blob, List.append_assoc, Bytes.slice, List.drop_left' hhead]
  exact List.take_left' (Bytes.length_bigEndian _ _)

/-- Data that a key is read from begins with the size of the key and has its modulus where a blob of
the key has it. -/
theorem parts_of_decode (h : decode data = .ok key) :
    data.take 4 = Bytes.bigEndian 4 key.bits ∧
      Bytes.slice data 8 (key.bits / 8) = Bytes.bigEndian (key.bits / 8) key.modulus := by
  obtain ⟨⟨word, hrow⟩, -, -, hlength, hmodulus⟩ := decode_eq_ok.1 h
  have hsize : Bytes.toNat (data.take 4) = key.bits := by
    have hread := congrArg Prod.fst (Layout.unpack_eq_ok.1 hrow).2
    exact Int.ofNat_inj.1 hread
  have htake := Bytes.bigEndian_toNat (data.take 4)
  have hslice := Bytes.bigEndian_toNat (Bytes.slice data 8 (key.bits / 8))
  rw [List.length_take, Nat.min_eq_left (by omega), hsize] at htake
  rw [Bytes.length_slice, Nat.min_eq_left (by omega), hmodulus] at hslice
  exact ⟨htake.symm, hslice.symm⟩

/-- What becomes of a key: its modulus has no byte, or its size is no word, or it is encoded. -/
theorem encode_cases (key : PublicKey) :
    key.bits < 8 ∧ key.encode = .error .numberTooWide ∨
    1 <<< 32 ≤ key.bits ∧ key.encode = .error .fieldRange ∨
    8 ≤ key.bits ∧ key.bits < 1 <<< 32 ∧ ∃ data, key.encode = .ok data := by
  by_cases hmin : key.bits < 8
  · exact .inl ⟨hmin, encode_of_lt_eight hmin⟩
  · by_cases hmax : key.bits < 1 <<< 32
    · obtain ⟨word, -, -, hencode⟩ := encode_eq_blob (Nat.not_lt.1 hmin) hmax
      exact .inr (.inr ⟨Nat.not_lt.1 hmin, hmax, _, hencode⟩)
    · exact .inr (.inl ⟨Nat.not_lt.1 hmax, encode_of_no_word (Nat.not_lt.1 hmax)⟩)

/-- A number whose size is that of a key with an encoding is above 1. -/
theorem one_lt_of_bits {n : Nat} (h : 8 ≤ Number.roundUpPow2 (Number.bitLength n)) : 1 < n := by
  by_contra hle
  have hcases : n = 0 ∨ n = 1 := by omega
  rcases hcases with rfl | rfl
  · exact absurd h (by decide)
  · exact absurd h (by decide)

/-- **What stands in an encoded key.** A key of a size of at least eight bits and below the sign bit
is encoded in two words and twice its size, the second word is the negative inverse of the modulus
modulo `2^32`, and the same key is read back. A blob that is read as a key has an odd modulus above
1 whose size is the one that it declares, and the key is encoded with the same size and modulus. A
key has no bytes for its modulus exactly if it has fewer than eight bits; the only other keys
without an encoding are those whose size is no word. -/
theorem blob_exact :
    (∀ n : Nat, n % 2 = 1 → 8 ≤ Number.roundUpPow2 (Number.bitLength n) →
      Number.roundUpPow2 (Number.bitLength n) < 1 <<< 31 →
      ∃ key data, ofNumbers n exponent = .ok key ∧ key.modulus = n ∧ key.encode = .ok data ∧
        data.length = 8 + 2 * (Number.roundUpPow2 (Number.bitLength n) / 8) ∧
        (Bytes.toNat (Bytes.slice data 4 4) * n + 1) % (1 <<< 32) = 0 ∧
        decode data = .ok key) ∧
    (∀ data key, decode data = .ok key →
      ∃ size n, size = Bytes.toNat (data.take 4) ∧ n = Bytes.toNat (Bytes.slice data 8 (size / 8)) ∧
        n % 2 = 1 ∧ 1 < n ∧ Number.roundUpPow2 (Number.bitLength n) = size ∧ key.modulus = n ∧
        ∃ again, key.encode = .ok again ∧ again.length = data.length ∧
          again.take 4 = data.take 4 ∧
          Bytes.slice again 8 (size / 8) = Bytes.slice data 8 (size / 8)) ∧
    (∀ key : PublicKey, key.encode = .error .numberTooWide ↔ key.bits < 8) ∧
    ∀ key : PublicKey, (∃ e, key.encode = .error e) ↔ key.bits < 8 ∨ 1 <<< 32 ≤ key.bits := by
  have hword : (1 : Nat) <<< 31 < 1 <<< 32 := by decide
  refine ⟨?_, ?_, ?_, ?_⟩
  · intro n hodd hmin hmax
    obtain ⟨key, rfl⟩ : ∃ key : PublicKey, key.modulus = n := ⟨⟨n, one_lt_of_bits hmin, hodd⟩, rfl⟩
    obtain ⟨word, hlt, hnegative, hencode⟩ := encode_eq_blob hmin (Nat.lt_trans hmax hword)
    refine ⟨key, _, ofNumbers_modulus key, rfl, hencode, length_blob key word _, ?_,
      decode_encode hencode hmax⟩
    rw [slice_blob_word, Bytes.toNat_bigEndian_of_lt hlt]
    exact hnegative
  · intro data key h
    obtain ⟨hmin, hmax⟩ := inRange_of_decode h
    obtain ⟨hsize, hmodulus⟩ := parts_of_decode h
    obtain ⟨-, -, -, hlength, hnumber⟩ := decode_eq_ok.1 h
    have hlt : key.bits < 1 <<< 32 := Nat.lt_trans hmax hword
    -- Size and modulus are the parts that are read, so they are written again. The word and the
    -- square are made anew.
    obtain ⟨word, -, -, hencode⟩ := encode_eq_blob hmin hlt
    refine ⟨key.bits, key.modulus, ?_, hnumber.symm, key.odd, key.one_lt, rfl, rfl, _, hencode,
      ?_, ?_, ?_⟩
    · rw [hsize, Bytes.toNat_bigEndian_of_lt hlt]
    · rw [length_blob, hlength]
    · rw [take_blob, hsize]
    · rw [slice_blob_modulus, hmodulus]
  · intro key
    rcases key.encode_cases with ⟨hmin, h⟩ | ⟨hmax, h⟩ | ⟨hmin, hmax, data, h⟩
    · exact ⟨fun _ => hmin, fun _ => h⟩
    · exact ⟨fun h' => (nomatch h.symm.trans h'), fun hmin => by omega⟩
    · exact ⟨fun h' => (nomatch h.symm.trans h'), fun hlt => by omega⟩
  · intro key
    rcases key.encode_cases with ⟨hmin, h⟩ | ⟨hmax, h⟩ | ⟨hmin, hmax, data, h⟩
    · exact ⟨fun _ => .inl hmin, fun _ => ⟨_, h⟩⟩
    · exact ⟨fun _ => .inr hmax, fun _ => ⟨_, h⟩⟩
    · exact ⟨fun ⟨e, h'⟩ => (nomatch h.symm.trans h'), fun hout => by omega⟩

/-- A blob that declares 16 bits for a modulus of 11, with nothing in place of the two numbers that
are derived from the modulus. -/
def bareBlob : Bytes :=
  [0, 0, 0, 16, 0, 0, 0, 0, 0x05, 0xa3, 0, 0]

/-- The bare blob is read as a key that is encoded with the numbers it lacks. The key of the modulus
3 has no encoding. -/
theorem blob_exact_bareBlob :
    (∃ key data, ofNumbers 0x05a3 exponent = .ok key ∧ key.encode = .ok data ∧ data.length = 12 ∧
      (Bytes.toNat (Bytes.slice data 4 4) * 0x05a3 + 1) % (1 <<< 32) = 0 ∧
      decode data = .ok key) ∧
    (∃ key again, decode bareBlob = .ok key ∧ key.modulus = 0x05a3 ∧ key.encode = .ok again ∧
      again.take 4 = bareBlob.take 4 ∧ Bytes.slice again 8 2 = Bytes.slice bareBlob 8 2) ∧
    (PublicKey.mk 3 (by decide) (by decide)).encode = .error .numberTooWide := by
  obtain ⟨hencoded, hdecoded, hsmall, -⟩ := blob_exact
  refine ⟨?_, ?_, (hsmall _).2 (by decide)⟩
  · obtain ⟨key, data, hkey, -, hencode, hlength, hword, hdecode⟩ :=
      hencoded 0x05a3 (by decide) (by decide) (by decide)
    exact ⟨key, data, hkey, hencode, hlength, hword, hdecode⟩
  · have hread : (decode bareBlob).toOption.isSome = true := by decide
    obtain ⟨key, hkey⟩ := Option.isSome_iff_exists.1 hread
    obtain ⟨size, n, hsize, hn, -, -, -, hmodulus, again, hencode, -, hfirst, hsame⟩ :=
      hdecoded bareBlob key (Outcome.toOption_eq_some.1 hkey)
    have hsixteen : Bytes.toNat (bareBlob.take 4) = 16 := by decide
    rw [hsixteen] at hsize
    subst hsize
    have hnumber : n = 0x05a3 := hn.trans (by decide)
    exact ⟨key, again, Outcome.toOption_eq_some.1 hkey, hmodulus.trans hnumber, hencode, hfirst,
      hsame⟩

end PublicKey

end VerifiedBoot
