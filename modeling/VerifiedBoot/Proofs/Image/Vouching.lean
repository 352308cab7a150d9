import VerifiedBoot.Proofs.Image.Reading
import VerifiedBoot.Proofs.Image.RoundTrip

/-!
# What a valid signature vouches for

The signature of an image that is read counts as valid if the stored digest is that of the header
and the auxiliary block, in the digest family of the algorithm, and the signature verifies with the
embedded key. The size of the key is no part of that. A signature is as long as the modulus of its
key, and the reader takes as many bytes as the header declares for it, so the key and the signature
have the sizes of the algorithm exactly if the header declares the size of its algorithm.
-/

namespace VerifiedBoot

namespace Image

/-- The bytes that the signature of an image is over, in the data that it is read from: the header
and the auxiliary block that the header declares. -/
def signedBytes (header : Header) (data : Bytes) : Bytes :=
  data.take Header.size ++
    Bytes.slice data (Header.size + header.authenticationSize.toNat) header.auxiliarySize.toNat

/-- Whether a key vouches with a signature for an image that was read from data. -/
structure Vouched (suite : Suite) (image : Image) (data : Bytes) (family : DigestFamily)
    (size : KeySize) (key : PublicKey) (signature : Bytes) : Prop where
  algorithm : image.algorithm = .ok (.signed family size)
  publicKey : image.publicKey = some key
  digest : image.authentication.bind (·.digest) =
    some (suite.digest family (signedBytes image.header data))
  stored : image.authentication.bind (·.signature) = some signature
  verifies : suite.verify key family (signedBytes image.header data) signature = true

variable {suite : Suite} {data : Bytes} {image : Image} {family : DigestFamily} {size : KeySize}
  {key : PublicKey} {signature : Bytes}

theorem signedBytes_of_blocks {b : Blocks} (h : blocks data = .ok b) :
    signedBytes b.header data = b.head ++ b.auxiliary := by
  rw [(blocks_eq_ok.1 h).2.2]
  rfl

/-- A part of a block that is found has the size that was asked for. -/
theorem length_of_sliceBlock? {block part : Bytes} {offset size : Int} {slice : String}
    (h : sliceBlock? block offset size slice = .ok (some part)) (hoffset : 0 ≤ offset)
    (hsize : 0 ≤ size) : size = part.length := by
  unfold sliceBlock? at h
  split at h
  · cases h
  · obtain ⟨found, hfound, hpart⟩ := Outcome.map_eq_ok.1 h
    obtain rfl := Option.some.inj hpart
    unfold sliceBlock at hfound
    split at hfound
    · cases hfound
    · obtain rfl := Except.ok.inj hfound
      rw [Bytes.length_slice]
      omega

/-- A key whose signatures have the length that an algorithm asks for has its number of bits. -/
theorem bits_of_signatureSize
    (h : Rsa.Key.signatureSize key.modulus = (Algorithm.signed family size).signatureSize) :
    key.bits = size.bits := by
  -- The modulus ends less than a byte below the size of the algorithm, which is a power of two.
  obtain ⟨k, hk⟩ : ∃ k, size.bits = 1 <<< k := by
    cases size
    · exact ⟨11, rfl⟩
    · exact ⟨12, rfl⟩
    · exact ⟨13, rfl⟩
  have hdvd : 8 ∣ size.bits := by cases size <;> decide
  have hlarge : 8 < size.bits := by cases size <;> decide
  change (Number.bitLength key.modulus + 7) / 8 = size.bits / 8 at h
  have hle := Number.le_roundUpPow2 (Number.bitLength key.modulus)
  have hup := @Number.roundUpPow2_le (Number.bitLength key.modulus) k (by omega) (by omega)
  have hwhole := @Number.eight_dvd_roundUpPow2 (Number.bitLength key.modulus) (by omega)
  unfold PublicKey.bits
  omega

/-- The signature is valid exactly if a key vouches for the image. -/
theorem signatureValid_iff (h : parse suite data = .ok image) :
    image.signatureValid = true ↔
      ∃ family size key signature, image.Vouched suite data family size key signature := by
  obtain ⟨b, slice, hblocks, hheader, -, -, -, -, algorithm, digest, stored, halgorithm, -, -,
    hauthentication⟩ := parse_eq_ok h
  have hmessage : signedBytes image.header data = b.head ++ b.auxiliary := by
    rw [hheader, signedBytes_of_blocks hblocks]
  rw [← hheader] at halgorithm
  rw [← hmessage] at hauthentication
  have hvalid : image.signatureValid = checkSignature suite algorithm
      (signedBytes image.header data) digest stored image.publicKey := by
    rw [signatureValid, hauthentication]
  rw [hvalid, checkSignature_eq_true]
  constructor
  · rintro ⟨family, size, key, signature, rfl, hkey, rfl, rfl, hverify⟩
    refine ⟨family, size, key, signature, halgorithm, hkey, ?_, ?_, hverify⟩
    · rw [hauthentication, Option.bind_some]
    · rw [hauthentication, Option.bind_some]
  · rintro ⟨family, size, key, signature, hsigned, hkey, hdigest, hsignature, hverify⟩
    rw [hauthentication, Option.bind_some] at hdigest hsignature
    exact ⟨family, size, key, signature, Outcome.ok_unique halgorithm hsigned, hkey, hdigest,
      hsignature, hverify⟩

/-- The sizes of digest and signature are those that the header declares. -/
theorem Vouched.sizes (h : parse suite data = .ok image)
    (hvouched : image.Vouched suite data family size key signature) :
    image.header.hashSize = (suite.digest family (signedBytes image.header data)).length ∧
      image.header.signatureSize = signature.length := by
  obtain ⟨b, slice, hblocks, hheader, -, -, -, -, algorithm, digest, stored, -, hdigest, hstored,
    hauthentication⟩ := parse_eq_ok h
  obtain ⟨hdecode, -⟩ := blocks_eq_ok.1 hblocks
  obtain ⟨-, -, -, -, -, -, hhashOffset, hhashSize, hsignatureOffset, hsignatureSize, -⟩ :=
    (Header.inRange_of_decode hdecode).holds
  have hfirst := hvouched.digest
  have hsecond := hvouched.stored
  rw [hauthentication, Option.bind_some] at hfirst hsecond
  rw [show digest = _ from hfirst] at hdigest
  rw [show stored = _ from hsecond] at hstored
  rw [hheader]
  rw [hheader] at hdigest
  exact ⟨length_of_sliceBlock? hdigest hhashOffset.1 hhashSize.1,
    length_of_sliceBlock? hstored hsignatureOffset.1 hsignatureSize.1⟩

/-- **What a valid signature vouches for.** The signature of an image that is read is valid exactly
if there is a key that vouches for it. The digest is then the one that the algorithm takes of header
and auxiliary block, in its size. Key and signature have the sizes of the algorithm exactly if the
header declares that size for the signature; otherwise another key passes. -/
theorem vouched_of_parse {suite : Suite} {data : Bytes} {image : Image}
    (h : parse suite data = .ok image) :
    (image.signatureValid = true ↔
      ∃ family size key signature, image.Vouched suite data family size key signature) ∧
    ∀ family size key signature, image.Vouched suite data family size key signature →
      (suite.digest family (signedBytes image.header data)).length =
        (Algorithm.signed family size).hashSize ∧
      image.header.hashSize = (Algorithm.signed family size).hashSize ∧
      (key.bits = (Algorithm.signed family size).keyBits ∧
        signature.length = (Algorithm.signed family size).signatureSize ↔
          image.header.signatureSize = (Algorithm.signed family size).signatureSize) := by
  refine ⟨signatureValid_iff h, ?_⟩
  intro family size key signature hvouched
  obtain ⟨hhash, hdeclared⟩ := hvouched.sizes h
  have hdigest : (suite.digest family (signedBytes image.header data)).length =
      (Algorithm.signed family size).hashSize := suite.length_digest _ _
  have hlength := suite.length_of_verify hvouched.verifies
  refine ⟨hdigest, hhash.trans (congrArg Int.ofNat hdigest), ?_⟩
  constructor
  · rintro ⟨-, hsize⟩
    rw [hdeclared, hsize]
  · intro hsize
    -- A signature verifies only if it is as long as its key, so the size that is declared for it
    -- settles that of the key.
    have hfits : signature.length = (Algorithm.signed family size).signatureSize := by omega
    exact ⟨bits_of_signatureSize (hlength.symm.trans hfits), hfits⟩

/-! ### A key that is too short -/

/-- A private key of 512 bits. -/
def weakKey : Rsa.Key where
  modulus := Rsa.smooth 175 51 * Rsa.smooth 227 18
  exponent := 65537
  privateExponent :=
    some ((14453 * ((Rsa.smooth 175 51 - 1) * (Rsa.smooth 227 18 - 1)) + 1) / 65537)

/-- It is the one of two primes. -/
theorem consistent_weakKey : weakKey.Consistent := by
  have hprime : (Rsa.smooth 175 51).Prime :=
    @Rsa.prime_smooth _ _ 19 (by decide +kernel) (by decide +kernel) (by decide +kernel)
  have hprime' : (Rsa.smooth 227 18).Prime :=
    @Rsa.prime_smooth _ _ 5 (by decide +kernel) (by decide +kernel) (by decide +kernel)
  have hmade : Rsa.Key.ofPrimes (Rsa.smooth 175 51) (Rsa.smooth 227 18) 65537 = .ok weakKey := by
    decide +kernel
  exact Rsa.Key.consistent_ofPrimes hprime hprime' hmade

/-- The public half of the key of 512 bits. -/
def weakPublicKey : PublicKey :=
  ⟨weakKey.modulus, by decide +kernel, by decide +kernel⟩

/-- A header that names an algorithm for keys of 2048 bits, and declares the sizes of a signature
and a key of 512 bits. -/
def weakHeader : Header :=
  { Header.empty with
    algorithmType := 1
    authenticationSize := 128
    auxiliarySize := 192
    hashSize := 32
    signatureOffset := 32
    signatureSize := 64
    publicKeySize := 136
    metadataOffset := 136 }

/-- The bytes of this header. -/
def weakHead : Bytes :=
  weakHeader.encode.toOption.getD []

/-- The auxiliary block with the key of 512 bits. -/
def weakAuxiliary : Bytes :=
  Bytes.padTo 192 (weakPublicKey.encode.toOption.getD [])

/-- Header and auxiliary block are read back. -/
theorem weakHead_spec : weakHead.length = Header.size ∧ Header.decode weakHead = .ok weakHeader ∧
    weakAuxiliary.length = 192 ∧
      embeddedKey ⟨weakHead, weakHeader, [], weakAuxiliary⟩ = .ok (some weakPublicKey) := by
  decide +kernel

/-- The two with an authentication block between them: a digest, a signature, and what fills it
up. -/
def weakData (digest signature fill : Bytes) : Bytes :=
  weakHead ++ ((digest ++ (signature ++ fill)) ++ weakAuxiliary)

/-- What the data is read as. -/
def weakImage (suite : Suite) (digest signature : Bytes) : Image where
  header := weakHeader
  descriptors := []
  publicKey := some weakPublicKey
  metadata := some []
  authentication := some ⟨digest, signature, checkSignature suite (.signed .sha256 .rsa2048)
    (weakHead ++ weakAuxiliary) digest signature weakPublicKey⟩

theorem signatureValid_weakImage (suite : Suite) (digest signature : Bytes) :
    (weakImage suite digest signature).signatureValid = checkSignature suite
      (.signed .sha256 .rsa2048) (weakHead ++ weakAuxiliary) digest signature weakPublicKey := rfl

section Weak

variable {digest signature fill : Bytes} (hdigest : digest.length = 32)
  (hsignature : signature.length = 64) (hfill : fill.length = 32)

include hdigest hsignature hfill

/-- Header and blocks are found, whatever follows them. -/
theorem blocks_weakData (rest : Bytes) : blocks (weakData digest signature fill ++ rest) =
    .ok ⟨weakHead, weakHeader, digest ++ (signature ++ fill), weakAuxiliary⟩ := by
  obtain ⟨hlength, hdecode, hauxiliary, -⟩ := weakHead_spec
  have hauthentication : (weakHeader.authenticationSize : Int) =
      (digest ++ (signature ++ fill)).length := by
    rw [List.length_append, List.length_append, hdigest, hsignature, hfill]
    rfl
  have hsize : weakHeader.auxiliarySize = weakAuxiliary.length := by
    rw [hauxiliary]
    rfl
  rw [weakData, List.append_assoc, List.append_assoc]
  exact blocks_append hlength hdecode hauthentication hsize rest

/-- The data is read with every digest and every signature, whatever follows it. -/
theorem parse_weakData (rest : Bytes) :
    parse suite (weakData digest signature fill ++ rest) =
      .ok (weakImage suite digest signature) := by
  obtain ⟨-, -, -, hkey⟩ := weakHead_spec
  have hfirst : sliceBlock? (digest ++ (signature ++ fill)) weakHeader.hashOffset
      weakHeader.hashSize "Hash" = .ok (some digest) :=
    @sliceBlock?_append [] digest _ _ _ _ rfl (by rw [hdigest]; rfl) (by omega)
  have hsecond : sliceBlock? (digest ++ (signature ++ fill)) weakHeader.signatureOffset
      weakHeader.signatureSize "Signature" = .ok (some signature) :=
    sliceBlock?_append (by rw [hdigest]; rfl) (by rw [hsignature]; rfl) (by omega)
  have hmetadata : sliceBlock weakAuxiliary weakHeader.metadataOffset weakHeader.metadataSize
      "Public key metadata" = .ok [] := by
    decide +kernel
  have hdescriptors : sliceBlock weakAuxiliary weakHeader.descriptorsOffset
      weakHeader.descriptorsSize "Descriptors" = .ok [] := by
    decide +kernel
  rw [parse_eq]
  refine Outcome.bind_eq_ok.2 ⟨_, blocks_weakData hdigest hsignature hfill rest, ?_⟩
  refine Outcome.bind_eq_ok.2 ⟨.signed .sha256 .rsa2048, rfl, ?_⟩
  refine Outcome.bind_eq_ok.2 ⟨some weakPublicKey, hkey, ?_⟩
  refine Outcome.bind_eq_ok.2 ⟨[], hmetadata, Outcome.bind_eq_ok.2 ⟨some digest, hfirst, ?_⟩⟩
  refine Outcome.bind_eq_ok.2 ⟨some signature, hsecond, ?_⟩
  refine Outcome.bind_eq_ok.2 ⟨[], hdescriptors, Outcome.bind_eq_ok.2 ⟨[], ?_, rfl⟩⟩
  exact Descriptor.decodeAll_of_short (by decide)

end Weak

/-- The digest of header and auxiliary block. -/
def weakDigest : Bytes :=
  DigestFamily.digest .sha256 (weakHead ++ weakAuxiliary)

/-- The signature over this digest. -/
def weakSignature : Bytes :=
  (Rsa.signDigest weakKey .sha256 weakDigest).toOption.getD []

/-- The key of 512 bits has room for the padding of this digest. -/
theorem signDigest_weakKey : Rsa.signDigest weakKey .sha256 weakDigest = .ok weakSignature := by
  obtain ⟨signature, hsignature⟩ := @Rsa.exists_signDigest weakKey .sha256 weakDigest
    consistent_weakKey weakPublicKey.odd (DigestFamily.length_digest _ _) (by decide +kernel)
  rw [weakSignature, hsignature]
  rfl

/-- The header with digest, signature and key. -/
def weakBlob : Bytes :=
  weakData weakDigest weakSignature (Bytes.zeros 32)

theorem length_weakSignature : weakDigest.length = 32 ∧ weakSignature.length = 64 := by
  refine ⟨DigestFamily.length_digest _ _, ?_⟩
  rw [Rsa.length_signDigest signDigest_weakKey]
  decide +kernel

/-- The signature of the key of 512 bits is valid. -/
theorem parse_weakBlob : parse .standard weakBlob =
    .ok (weakImage .standard weakDigest weakSignature) ∧
      (weakImage .standard weakDigest weakSignature).signatureValid = true := by
  obtain ⟨hdigest, hsignature⟩ := length_weakSignature
  have hparse := @parse_weakData .standard _ _ _ hdigest hsignature (Bytes.length_zeros 32) []
  rw [List.append_nil] at hparse
  have haccepts : Suite.standard.Accepts weakKey := Suite.accepts_ofDigests (by decide +kernel)
  have hsign : Suite.standard.sign weakKey .sha256 (weakHead ++ weakAuxiliary) =
      .ok weakSignature := by
    rw [Suite.standard, Suite.sign_ofDigests]
    exact signDigest_weakKey
  have hpublic : PublicKey.ofKey weakKey = .ok weakPublicKey := by decide +kernel
  have hverify := haccepts hpublic hsign
  refine ⟨hparse, ?_⟩
  rw [signatureValid_weakImage, checkSignature_eq_true]
  exact ⟨.sha256, .rsa2048, weakPublicKey, weakSignature, rfl, rfl, rfl, rfl, hverify⟩

/-- A key of 512 bits passes under an algorithm for keys of 2048 bits. -/
theorem vouched_of_parse_weakBlob :
    ∃ image key signature, parse .standard weakBlob = .ok image ∧ image.signatureValid = true ∧
      image.Vouched .standard weakBlob .sha256 .rsa2048 key signature ∧
      ¬(key.bits = (Algorithm.signed .sha256 .rsa2048).keyBits ∧
        signature.length = (Algorithm.signed .sha256 .rsa2048).signatureSize) := by
  obtain ⟨hparse, hvalid⟩ := parse_weakBlob
  obtain ⟨hvouches, hexact⟩ := vouched_of_parse hparse
  obtain ⟨family, size, key, signature, hvouched⟩ := hvouches.1 hvalid
  have halgorithm : (weakImage .standard weakDigest weakSignature).algorithm =
      .ok (.signed .sha256 .rsa2048) := rfl
  obtain ⟨rfl, rfl⟩ := Algorithm.signed.inj (Outcome.ok_unique hvouched.algorithm halgorithm)
  refine ⟨_, key, signature, hparse, hvalid, hvouched, fun hboth => ?_⟩
  have hdeclared : weakHeader.signatureSize =
      (Algorithm.signed .sha256 .rsa2048).signatureSize := (hexact _ _ _ _ hvouched).2.2.1 hboth
  exact absurd hdeclared (by decide)

end Image

end VerifiedBoot
