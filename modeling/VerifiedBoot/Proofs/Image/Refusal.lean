import VerifiedBoot.Proofs.Fault
import VerifiedBoot.Proofs.Image.RoundTrip

/-!
# Images that are turned down

An image that is turned down is the same afterwards. Everything that is checked about it, its
algorithm, the key and each of its records, is checked before the first field of its header is set;
what can still fail behind that is a fault underneath.
-/

namespace VerifiedBoot

open Outcome

namespace Descriptor

/-- Whether a record is turned down, and with which error: the name of its hash algorithm is too
long, or its body is kept as it is and is not whole words. -/
inductive Refuses : Descriptor → Error → Prop
  | hashtreeName {d : HashtreeDescriptor} : 32 < (Bytes.ofString d.hashAlgorithm).length →
    Refuses (.hashtree d) (.refused (.hashNameLength d.hashAlgorithm))
  | hashName {d : HashDescriptor} : 32 < (Bytes.ofString d.hashAlgorithm).length →
    Refuses (.hash d) (.refused (.hashNameLength d.hashAlgorithm))
  | unalignedBody {d : UnknownDescriptor} : d.data.length % 8 ≠ 0 →
    Refuses (.unknown d) (.refused (.unalignedBody d.data.length))

/-- Whether one of several records is turned down, behind others that have bytes. -/
def RefusesAmong (ds : List Descriptor) (e : Error) : Prop :=
  ∃ before d after, ds = before ++ d :: after ∧ (∃ blob, encodeAll before = .ok blob) ∧ d.Refuses e

variable {d : Descriptor} {ds : List Descriptor} {e : Error}

/-- The name of a hash algorithm is turned down if it is too long. -/
theorem encodeHashName_eq_error {name : String} (hdomain : e.isDomain = true) :
    encodeHashName name = .error e ↔
      32 < (Bytes.ofString name).length ∧ e = .refused (.hashNameLength name) :=
  (FaultAtWorst.ok _).error_of_check hdomain

/-- A body that is kept as it is is turned down if it is not whole words. -/
theorem encodeUnknown_eq_error {d : UnknownDescriptor} (hdomain : e.isDomain = true) :
    encodeUnknown d = .error e ↔
      d.data.length % 8 ≠ 0 ∧ e = .refused (.unalignedBody d.data.length) := by
  refine FaultAtWorst.error_of_check ?_ hdomain
  split
  · exact .fault rfl
  · exact .bind (Layout.pack_faultAtWorst _ _) fun _ _ => .ok _

/-- **A record fails with a domain error exactly if it is turned down.** -/
theorem encode_eq_error_iff_refuses (hdomain : e.isDomain = true) :
    d.encode = .error e ↔ d.Refuses e := by
  cases d with
  | property d =>
    refine iff_of_false (FaultAtWorst.ne_error ?_ hdomain) nofun
    exact packRecord_faultAtWorst _ propertyLayout _ _
  -- Beside the name of its algorithm a record fails only where a number leaves its field, which is
  -- no domain error.
  | hashtree d =>
    have htail : encodeHashtree d = .error e ↔ encodeHashName d.hashAlgorithm = .error e := by
      refine FaultAtWorst.error_of_bind (fun _ _ => ?_) hdomain
      exact packRecord_faultAtWorst _ hashtreeLayout _ _
    refine htail.trans ((encodeHashName_eq_error hdomain).trans ⟨?_, ?_⟩)
    · rintro ⟨hlong, rfl⟩
      exact .hashtreeName hlong
    · rintro ⟨hlong⟩
      exact ⟨hlong, rfl⟩
  | hash d =>
    have htail : encodeHash d = .error e ↔ encodeHashName d.hashAlgorithm = .error e := by
      refine FaultAtWorst.error_of_bind (fun _ _ => ?_) hdomain
      exact packRecord_faultAtWorst _ hashLayout _ _
    refine htail.trans ((encodeHashName_eq_error hdomain).trans ⟨?_, ?_⟩)
    · rintro ⟨hlong, rfl⟩
      exact .hashName hlong
    · rintro (_ | hlong)
      exact ⟨hlong, rfl⟩
  | cmdline d =>
    refine iff_of_false (FaultAtWorst.ne_error ?_ hdomain) nofun
    exact packRecord_faultAtWorst _ cmdlineLayout _ _
  | chain d =>
    refine iff_of_false (FaultAtWorst.ne_error ?_ hdomain) nofun
    exact .bind (encodeKey_faultAtWorst _) fun _ _ => packRecord_faultAtWorst _ chainLayout _ _
  | unknown d =>
    refine (encodeUnknown_eq_error hdomain).trans ⟨?_, ?_⟩
    · rintro ⟨hunaligned, rfl⟩
      exact .unalignedBody hunaligned
    · rintro (_ | _ | hunaligned)
      exact ⟨hunaligned, rfl⟩

/-- Records fail with a domain error exactly if one of them is turned down, and those before it have
bytes. -/
theorem encodeAll_eq_error_iff_refusesAmong (hdomain : e.isDomain = true) :
    encodeAll ds = .error e ↔ RefusesAmong ds e := by
  induction ds with
  | nil =>
    refine iff_of_false nofun ?_
    rintro ⟨before, d, after, hds, -⟩
    cases before <;> cases hds
  | cons first rest ih =>
    constructor
    · intro h
      rcases bind_eq_error.1 h with hfirst | ⟨head, hhead, h₁⟩
      · exact ⟨[], first, rest, rfl, ⟨[], rfl⟩, (encode_eq_error_iff_refuses hdomain).1 hfirst⟩
      · rcases bind_eq_error.1 h₁ with htail | ⟨tail, -, h₂⟩
        · obtain ⟨before, d, after, rfl, ⟨blob, hblob⟩, hrefuses⟩ := ih.1 htail
          exact ⟨first :: before, d, after, rfl, ⟨head ++ blob, bind_eq_ok.2 ⟨head, hhead,
            bind_eq_ok.2 ⟨blob, hblob, rfl⟩⟩⟩, hrefuses⟩
        · cases h₂
    · rintro ⟨before, d, after, hds, ⟨blob, hblob⟩, hrefuses⟩
      cases before with
      | nil =>
        obtain ⟨rfl, rfl⟩ := List.cons.inj hds
        exact bind_eq_error.2 (.inl ((encode_eq_error_iff_refuses hdomain).2 hrefuses))
      | cons other before =>
        obtain ⟨rfl, rfl⟩ := List.cons.inj hds
        obtain ⟨head, hhead, h₁⟩ := bind_eq_ok.1 hblob
        obtain ⟨tail, htail, -⟩ := bind_eq_ok.1 h₁
        have hrest := ih.2 ⟨before, d, after, rfl, ⟨tail, htail⟩, hrefuses⟩
        exact bind_eq_error.2 (.inr ⟨head, hhead, bind_eq_error.2 (.inl hrest)⟩)

end Descriptor

/-- A number that is not the code of an algorithm is unknown. -/
theorem Algorithm.ofCode_eq_error {code : Int} {e : Error} : ofCode code = .error e ↔
    (∀ algorithm : Algorithm, (algorithm.code : Int) ≠ code) ∧
      e = .malformed (.unknownAlgorithm code) := by
  unfold ofCode
  split
  · next found hfound =>
    have hcode := List.find?_some hfound
    rw [decide_eq_true_eq] at hcode
    exact iff_of_false nofun fun h => h.1 found hcode
  · next hnone =>
    have hall : ∀ algorithm : Algorithm, algorithm ∈ all := by
      rintro (_ | ⟨_ | _, _ | _ | _⟩) <;> decide
    have hunknown (algorithm : Algorithm) : (algorithm.code : Int) ≠ code := by
      have h := List.find?_eq_none.1 hnone algorithm (hall algorithm)
      rwa [decide_eq_true_eq] at h
    rw [Except.error.injEq]
    exact ⟨fun h => ⟨hunknown, h.symm⟩, fun h => h.2.symm⟩

/-- A key is turned down because of its exponent, or else because of its modulus. -/
theorem PublicKey.ofKey_eq_error {key : Rsa.Key} {e : Error} : ofKey key = .error e ↔
    (key.exponent ≠ exponent ∧ e = .refused .keyExponent) ∨
      (key.exponent = exponent ∧ ¬(1 < key.modulus ∧ key.modulus % 2 = 1) ∧
        e = .refused .keyModulus) := by
  simp only [ofKey, ofNumbers, Int.toNat_natCast]
  by_cases hexponent : key.exponent = exponent
  · rw [if_neg (not_not.2 (Int.ofNat_inj.2 hexponent))]
    by_cases hmodulus : 1 < key.modulus ∧ key.modulus % 2 = 1
    · rw [dif_pos hmodulus]
      refine iff_of_false (fun h => by cases h) ?_
      rintro (⟨hother, -⟩ | ⟨-, hunusable, -⟩)
      · exact hother hexponent
      · exact hunusable hmodulus
    · rw [dif_neg hmodulus]
      exact ⟨fun h => .inr ⟨hexponent, hmodulus, (Except.error.inj h).symm⟩,
        fun h => h.elim (fun h => absurd hexponent h.1) fun h => congrArg _ h.2.2.symm⟩
  · rw [if_pos (mt Int.ofNat_inj.1 hexponent)]
    exact ⟨fun h => .inl ⟨hexponent, (Except.error.inj h).symm⟩,
      fun h => h.elim (fun h => congrArg _ h.2.symm) fun h => absurd h.1 hexponent⟩

namespace Image

/-- Whether an image is turned down when it is written, unsigned or signed with a key, and with
which error. An unsigned one depends on its records only; a signed one on its algorithm, then on
the key, then on the size of the key for the algorithm, and on its records last. -/
inductive Refuses (image : Image) : Option Rsa.Key → Error → Prop
  | unsignedRecord {e : Error} : Descriptor.RefusesAmong image.descriptors e →
    Refuses image none e
  | unknownAlgorithm {signer : Rsa.Key} :
    (∀ algorithm : Algorithm, (algorithm.code : Int) ≠ image.header.algorithmType) →
    Refuses image (some signer) (.malformed (.unknownAlgorithm image.header.algorithmType))
  | unsignedAlgorithm {signer : Rsa.Key} : image.algorithm = .ok .unsigned →
    Refuses image (some signer) (.refused .unsignedAlgorithm)
  | keyExponent {signer : Rsa.Key} {digest : DigestFamily} {size : KeySize} :
    image.algorithm = .ok (.signed digest size) → signer.exponent ≠ PublicKey.exponent →
    Refuses image (some signer) (.refused .keyExponent)
  | keyModulus {signer : Rsa.Key} {digest : DigestFamily} {size : KeySize} :
    image.algorithm = .ok (.signed digest size) → signer.exponent = PublicKey.exponent →
    ¬(1 < signer.modulus ∧ signer.modulus % 2 = 1) →
    Refuses image (some signer) (.refused .keyModulus)
  | keySize {signer : Rsa.Key} {digest : DigestFamily} {size : KeySize} {publicKey : PublicKey}
    {key : Bytes} :
    image.algorithm = .ok (.signed digest size) → PublicKey.ofKey signer = .ok publicKey →
    publicKey.encode = .ok key → key.length ≠ (Algorithm.signed digest size).publicKeySize →
    Refuses image (some signer) (.refused (.keyWrongSize (Algorithm.signed digest size).name))
  | signedRecord {signer : Rsa.Key} {digest : DigestFamily} {size : KeySize}
    {publicKey : PublicKey} {key : Bytes} {e : Error} :
    image.algorithm = .ok (.signed digest size) → PublicKey.ofKey signer = .ok publicKey →
    publicKey.encode = .ok key → key.length = (Algorithm.signed digest size).publicKeySize →
    Descriptor.RefusesAmong image.descriptors e → Refuses image (some signer) e

variable {suite : Suite} {image : Image} {signer : Rsa.Key} {alignment : Int} {e : Error}

/-- The contents for signing fail with a domain error exactly if the image is turned down. -/
theorem contents_eq_error_iff (hdomain : e.isDomain = true) :
    image.contents signer = .error e ↔ image.Refuses (some signer) e := by
  constructor
  · intro h
    rcases bind_eq_error.1 h with hunknown | ⟨algorithm, halgorithm, h₁⟩
    · obtain ⟨hall, rfl⟩ := Algorithm.ofCode_eq_error.1 hunknown
      exact .unknownAlgorithm hall
    cases algorithm with
    | unsigned =>
      obtain rfl := Except.error.inj h₁
      exact .unsignedAlgorithm halgorithm
    | signed digest size =>
      rcases bind_eq_error.1 h₁ with hkey | ⟨publicKey, hpublic, h₂⟩
      · rcases PublicKey.ofKey_eq_error.1 hkey with ⟨hexponent, rfl⟩ | ⟨hexponent, hmodulus, rfl⟩
        · exact .keyExponent halgorithm hexponent
        · exact .keyModulus halgorithm hexponent hmodulus
      -- A key without an encoding is a fault, so here there is one, and its length is compared
      -- next.
      obtain ⟨key, hkey, h₃⟩ :=
        ((PublicKey.encode_faultAtWorst publicKey).bind_eq_error hdomain).1 h₂
      simp only at h₃
      split at h₃
      · next hsize =>
        obtain rfl := Except.error.inj h₃
        exact .keySize halgorithm hpublic hkey hsize
      · next hsize =>
        have hrecords := (FaultAtWorst.error_of_bind (fun _ _ => .ok _) hdomain).1 h₃
        exact .signedRecord halgorithm hpublic hkey (not_not.1 hsize)
          ((Descriptor.encodeAll_eq_error_iff_refusesAmong hdomain).1 hrecords)
  · intro h
    cases h with
    | unknownAlgorithm hall =>
      exact bind_eq_error.2 (.inl (Algorithm.ofCode_eq_error.2 ⟨hall, rfl⟩))
    | unsignedAlgorithm halgorithm => exact bind_eq_error.2 (.inr ⟨_, halgorithm, rfl⟩)
    | keyExponent halgorithm hexponent =>
      exact bind_eq_error.2 (.inr ⟨_, halgorithm, bind_eq_error.2
        (.inl (PublicKey.ofKey_eq_error.2 (.inl ⟨hexponent, rfl⟩)))⟩)
    | keyModulus halgorithm hexponent hmodulus =>
      exact bind_eq_error.2 (.inr ⟨_, halgorithm, bind_eq_error.2
        (.inl (PublicKey.ofKey_eq_error.2 (.inr ⟨hexponent, hmodulus, rfl⟩)))⟩)
    | keySize halgorithm hpublic hkey hsize =>
      refine bind_eq_error.2 (.inr ⟨_, halgorithm, bind_eq_error.2 (.inr ⟨_, hpublic,
        bind_eq_error.2 (.inr ⟨_, hkey, ?_⟩)⟩)⟩)
      exact if_pos hsize
    | signedRecord halgorithm hpublic hkey hsize hrecords =>
      refine bind_eq_error.2 (.inr ⟨_, halgorithm, bind_eq_error.2 (.inr ⟨_, hpublic,
        bind_eq_error.2 (.inr ⟨_, hkey, ?_⟩)⟩)⟩)
      simp only
      rw [if_neg (not_not.2 hsize)]
      exact bind_eq_error.2
        (.inl ((Descriptor.encodeAll_eq_error_iff_refusesAmong hdomain).2 hrecords))

/-- Once its records have bytes, an unsigned image is not turned down any more. -/
theorem encodeUnsigned_faultAtWorst {descriptors : Bytes}
    (h : Descriptor.encodeAll image.descriptors = .ok descriptors) :
    FaultAtWorst (image.encodeUnsigned suite alignment).1 := by
  unfold encodeUnsigned
  rw [h]
  exact .bind (Layout.pack_faultAtWorst _ _) fun _ _ => align_faultAtWorst _ _ _

/-- Once its contents are settled, an image that is to be signed is not turned down any more. -/
theorem encodeSigned_faultAtWorst (hsuite : suite.NeverRefuses) {c : Contents}
    (h : image.contents signer = .ok c) :
    FaultAtWorst (image.encodeSigned suite signer alignment).1 := by
  simp only [encodeSigned, h]
  split
  · next e hsigned =>
    refine .fault (FaultAtWorst.bind (Layout.pack_faultAtWorst _ _) (fun head _ => ?_) e hsigned)
    exact .bind (hsuite _ _ _) fun _ _ => .ok _
  · exact align_faultAtWorst _ _ _

theorem encodeUnsigned_of_error (h : Descriptor.encodeAll image.descriptors = .error e) :
    image.encodeUnsigned suite alignment = (.error e, image) := by
  unfold encodeUnsigned
  rw [h]

theorem encodeSigned_of_error (h : image.contents signer = .error e) :
    image.encodeSigned suite signer alignment = (.error e, image) := by
  unfold encodeSigned
  rw [h]

/-- **An unsigned image is turned down before anything of it is changed.** -/
theorem encodeUnsigned_refused (hdomain : e.isDomain = true) :
    ((image.encodeUnsigned suite alignment).1 = .error e ↔ image.Refuses none e) ∧
      (image.Refuses none e → (image.encodeUnsigned suite alignment).2 = image) := by
  have hrefuses : image.Refuses none e ↔ Descriptor.encodeAll image.descriptors = .error e := by
    rw [Descriptor.encodeAll_eq_error_iff_refusesAmong hdomain]
    exact ⟨fun | .unsignedRecord h => h, .unsignedRecord⟩
  rw [hrefuses]
  cases h : Descriptor.encodeAll image.descriptors with
  | error e' =>
    rw [encodeUnsigned_of_error h]
    exact ⟨by simp only [Except.error.injEq], fun _ => rfl⟩
  | ok descriptors =>
    exact ⟨iff_of_false ((encodeUnsigned_faultAtWorst h).ne_error hdomain) nofun, nofun⟩

/-- **An image that is to be signed is turned down before anything of it is changed.** -/
theorem encodeSigned_refused (hsuite : suite.NeverRefuses) (hdomain : e.isDomain = true) :
    ((image.encodeSigned suite signer alignment).1 = .error e ↔ image.Refuses (some signer) e) ∧
      (image.Refuses (some signer) e →
        (image.encodeSigned suite signer alignment).2 = image) := by
  rw [← contents_eq_error_iff hdomain]
  cases h : image.contents signer with
  | error e' =>
    rw [encodeSigned_of_error h]
    exact ⟨by simp only [Except.error.injEq], fun _ => rfl⟩
  | ok c =>
    exact ⟨iff_of_false ((encodeSigned_faultAtWorst hsuite h).ne_error hdomain) nofun, nofun⟩

/-- **A domain error leaves the image untouched**: header, descriptors, key and metadata. This holds
for every image, also for one whose fields are out of range, and however it is written. A domain
error arises exactly where the image is turned down: signing may meet an algorithm that is unknown
or does not sign, a key that is not one of the system or of the wrong size, and both ways of writing
may meet a record that is turned down, behind any number of others. -/
theorem untouched_of_domainError (hsuite : suite.NeverRefuses) (hdomain : e.isDomain = true) :
    (∀ signer, ((image.encode suite signer alignment).1 = .error e ↔ image.Refuses signer e) ∧
      ((image.encode suite signer alignment).1 = .error e →
        (image.encode suite signer alignment).2 = image)) ∧
    ((image.encodeUnsigned suite alignment).1 = .error e →
      (image.encodeUnsigned suite alignment).2 = image) ∧
    ∀ signer, (image.encodeSigned suite signer alignment).1 = .error e →
      (image.encodeSigned suite signer alignment).2 = image := by
  obtain ⟨hunsigned, hunsignedLeft⟩ := @encodeUnsigned_refused suite image alignment e hdomain
  have hsigned (signer : Rsa.Key) :=
    @encodeSigned_refused suite image signer alignment e hsuite hdomain
  refine ⟨?_, fun h => hunsignedLeft (hunsigned.1 h), fun signer h =>
    (hsigned signer).2 ((hsigned signer).1.1 h)⟩
  rintro (_ | signer)
  · exact ⟨hunsigned, fun h => hunsignedLeft (hunsigned.1 h)⟩
  · exact ⟨(hsigned signer).1, fun h => (hsigned signer).2 ((hsigned signer).1.1 h)⟩

/-- The image with records of several kinds, with a body of three bytes among them that is to be
kept as it is, and with a size that no field can hold. -/
def unalignedImage : Image :=
  { mixedImage with
    header := { mixedImage.header with auxiliarySize := -1 }
    descriptors := mixedImage.descriptors ++ [.unknown ⟨some 9, [1, 2, 3]⟩, .cmdline ⟨1, "rw"⟩] }

/-- The body of three bytes is turned down when the image is to be signed, and the image is as it
was. -/
theorem untouched_of_domainError_unalignedImage :
    Suite.standard.NeverRefuses ∧ (Error.refused (.unalignedBody 3)).isDomain = true ∧
      (unalignedImage.encode .standard (some Rsa.smoothKey) 64).1 =
        .error (.refused (.unalignedBody 3)) ∧
      (unalignedImage.encode .standard (some Rsa.smoothKey) 64).2 = unalignedImage := by
  have hsuite : Suite.standard.NeverRefuses := Suite.neverRefuses_ofDigests
  have hdomain : (Error.refused (.unalignedBody 3)).isDomain = true := rfl
  have hfailed : (unalignedImage.encode .standard (some Rsa.smoothKey) 64).1 =
      .error (.refused (.unalignedBody 3)) := by
    decide +kernel
  obtain ⟨hencode, -, -⟩ :=
    @untouched_of_domainError .standard unalignedImage 64 _ hsuite hdomain
  exact ⟨hsuite, hdomain, hfailed, (hencode (some Rsa.smoothKey)).2 hfailed⟩

end Image

end VerifiedBoot
