import VerifiedBoot.Proofs.Image.RoundTrip

/-!
# When a signed image verifies

The size of a key is rounded up to a power of two, and an algorithm is open to every key that rounds
up to its own size. The signature, however, is as long as the modulus, and the reader takes as many
bytes as the algorithm asks for. A signature that was filled up with zeros no longer verifies, so a
freshly signed image verifies exactly if the modulus fills the size of the key to the byte.
-/

namespace VerifiedBoot

namespace Image

variable {suite : Suite} {image written : Image} {signer : Rsa.Key} {alignment : Int}
  {blob : Bytes} {c : Contents}

/-- A signature in its room verifies exactly if it fills the room. -/
theorem verify_fit (hc : image.contents signer = .ok c) (haccepts : suite.Accepts signer)
    {message signature : Bytes} (hsignature : suite.sign signer c.digest message = .ok signature) :
    suite.verify c.publicKey c.digest message (Bytes.fit c.algorithm.signatureSize signature) =
        true ↔ 8 * Rsa.Key.signatureSize signer.modulus = c.publicKey.bits := by
  obtain ⟨-, hpublic, hkey, hlength, -⟩ := contents_eq_ok hc
  have hmodulus : c.publicKey.modulus = signer.modulus := PublicKey.modulus_of_ofNumbers hpublic
  have hsize := suite.length_sign hsignature
  have hbits := Contents.bits_eq hkey hlength
  have hroom : 8 * c.algorithm.signatureSize = c.publicKey.bits := by
    rw [hbits]
    change 8 * (c.keySize.bits / 8) = c.keySize.bits
    cases c.keySize <;> rfl
  constructor
  · intro h
    have hfitted := suite.length_of_verify h
    rw [Bytes.length_fit, hmodulus] at hfitted
    rw [← hfitted, hroom]
  · intro h
    have hfills : signature.length = c.algorithm.signatureSize := by omega
    rw [Bytes.fit_of_length hfills]
    exact haccepts hpublic hsignature

/-- **When a freshly signed image verifies.** It is always read back, and its signature is valid
exactly if the modulus of the key has as many bytes as the size of the key. -/
theorem signatureValid_encodeSigned
    (h : image.encodeSigned suite signer alignment = (.ok blob, written)) (hr : image.InRange)
    (halign : 1 ≤ alignment) (haccepts : suite.Accepts signer) :
    ∃ parsed publicKey, parse suite blob = .ok parsed ∧ PublicKey.ofKey signer = .ok publicKey ∧
      (parsed.signatureValid = true ↔
        8 * Rsa.Key.signatureSize signer.modulus = publicKey.bits) := by
  obtain ⟨c, head, signature, behind, hc, -, hsignature, -, -, hparse⟩ :=
    parse_encodeSigned h hr halign
  obtain ⟨-, hpublic, -⟩ := contents_eq_ok hc
  have hparsed := hparse []
  rw [List.append_nil] at hparsed
  exact ⟨_, c.publicKey, hparsed, hpublic, verify_fit hc haccepts hsignature⟩

/-- A private key of 1536 bits. -/
def shortKey : Rsa.Key where
  modulus := Rsa.smooth 399 71 * Rsa.smooth 853 108
  exponent := 65537
  privateExponent :=
    some ((56666 * ((Rsa.smooth 399 71 - 1) * (Rsa.smooth 853 108 - 1)) + 1) / 65537)

/-- It is the one of two primes. -/
theorem consistent_shortKey : shortKey.Consistent := by
  have hprime : (Rsa.smooth 399 71).Prime :=
    @Rsa.prime_smooth _ _ 5 (by decide +kernel) (by decide +kernel) (by decide +kernel)
  have hmade : Rsa.Key.ofPrimes (Rsa.smooth 399 71) (Rsa.smooth 853 108) 65537 = .ok shortKey := by
    decide +kernel
  exact Rsa.Key.consistent_ofPrimes hprime Rsa.prime_smooth_853_108 hmade

/-- The pair of the key of 1536 bits. -/
def shortPair : KeyPair :=
  ⟨⟨shortKey.modulus, by decide +kernel, by decide +kernel⟩, shortKey⟩

/-- The key of 1536 bits counts for one of 2048 bits, but its signatures are shorter. -/
theorem ofKey_shortKey : PublicKey.ofKey shortKey = .ok shortPair.publicKey ∧
    shortPair.bits = 2048 ∧ 8 * Rsa.Key.signatureSize shortKey.modulus = 1536 ∧
      Nat.gcd shortKey.modulus 65537 = 1 := by
  decide +kernel

/-- A key of 1536 bits passes for one of 2048 bits, and the image that it signs does not verify. -/
theorem signatureValid_encodeSigned_shortKey :
    ∃ blob written parsed, mixedImage.encodeSigned .standard shortKey 64 = (.ok blob, written) ∧
      mixedImage.InRange ∧ (1 : Int) ≤ 64 ∧ Suite.standard.Accepts shortKey ∧
      parse .standard blob = .ok parsed ∧ parsed.signatureValid = false := by
  obtain ⟨hpublic, hbits, hsize, hgcd⟩ := ofKey_shortKey
  have halign : (1 : Int) ≤ 64 := by decide
  have haccepts : Suite.standard.Accepts shortKey := Suite.accepts_ofDigests hgcd
  obtain ⟨blob, written, hwritten⟩ : ∃ blob written,
      mixedImage.encodeSigned .standard shortKey 64 = (.ok blob, written) :=
    @exists_encodeSigned_mixedImage shortPair ⟨hpublic, consistent_shortKey⟩ hbits
  obtain ⟨parsed, publicKey, hparse, hfound, hvalid⟩ :=
    signatureValid_encodeSigned hwritten inRange_mixedImage halign haccepts
  refine ⟨blob, written, parsed, hwritten, inRange_mixedImage, halign, haccepts, hparse, ?_⟩
  obtain rfl := Outcome.ok_unique hpublic hfound
  have hshort : ¬8 * Rsa.Key.signatureSize shortKey.modulus = shortPair.publicKey.bits := by
    rw [hsize, show shortPair.publicKey.bits = 2048 from hbits]
    decide
  exact Bool.eq_false_iff.2 (hshort ∘ hvalid.1)

end Image

end VerifiedBoot
