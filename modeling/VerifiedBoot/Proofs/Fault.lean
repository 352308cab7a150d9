import VerifiedBoot.Image.Encode
import VerifiedBoot.Proofs.Outcome

/-!
# Writers that only fail underneath

Packing a row, encoding a key, signing a digest and filling up a blob can fail: a number does not
fit its field, or there is no room for so many bytes. None of these is a domain error. So where a
writer fails with a domain error, it is that of a check which the writer makes itself.
-/

namespace VerifiedBoot

namespace Outcome

variable {α β : Type}

/-- An operation that has a value, or fails by a fault underneath. -/
def FaultAtWorst (x : Except Error α) : Prop :=
  ∀ e, x = .error e → e.isDomain = false

namespace FaultAtWorst

variable {x : Except Error α} {f : α → Except Error β} {e : Error}

theorem ok (a : α) : FaultAtWorst (.ok a) :=
  nofun

theorem fault (h : e.isDomain = false) : FaultAtWorst (.error e : Except Error α) := by
  rintro e' he
  rwa [← Except.error.inj he]

/-- A sequence is, if each of its steps is. -/
theorem bind (hx : FaultAtWorst x) (hf : ∀ a, x = .ok a → FaultAtWorst (f a)) :
    FaultAtWorst (x >>= f) := by
  intro e he
  rcases bind_eq_error.1 he with hfirst | ⟨a, ha, hnext⟩
  · exact hx e hfirst
  · exact hf a ha e hnext

theorem choice {c : Prop} {_ : Decidable c} {x y : Except Error α} (hx : FaultAtWorst x)
    (hy : FaultAtWorst y) : FaultAtWorst (if c then x else y) := by
  by_cases hc : c
  · rwa [if_pos hc]
  · rwa [if_neg hc]

theorem ne_error (h : FaultAtWorst x) (hdomain : e.isDomain = true) : x ≠ .error e := by
  intro he
  rw [h e he] at hdomain
  cases hdomain

/-- A domain error behind such an operation is that of what comes behind. -/
theorem bind_eq_error (h : FaultAtWorst x) (hdomain : e.isDomain = true) :
    (x >>= f) = .error e ↔ ∃ a, x = .ok a ∧ f a = .error e :=
  Outcome.bind_eq_error.trans (or_iff_right (h.ne_error hdomain))

/-- A domain error before such operations is that of what comes before. -/
theorem error_of_bind (h : ∀ a, x = .ok a → FaultAtWorst (f a)) (hdomain : e.isDomain = true) :
    (x >>= f) = .error e ↔ x = .error e := by
  refine Outcome.bind_eq_error.trans (or_iff_left ?_)
  rintro ⟨a, ha, hnext⟩
  exact (h a ha).ne_error hdomain hnext

/-- A domain error of a check before such an operation is that of the check. -/
theorem error_of_check {c : Prop} {_ : Decidable c} {refusal : Error} (h : FaultAtWorst x)
    (hdomain : e.isDomain = true) :
    (if c then .error refusal else x) = .error e ↔ c ∧ e = refusal := by
  by_cases hc : c
  · rw [if_pos hc]
    exact ⟨fun he => ⟨hc, (Except.error.inj he).symm⟩, fun he => congrArg _ he.2.symm⟩
  · rw [if_neg hc]
    exact iff_of_false (h.ne_error hdomain) fun he => hc he.1

end FaultAtWorst

end Outcome

open Outcome

/-! ### Rows, numbers and keys -/

theorem Field.pack_faultAtWorst (field : Field) (value : field.Carrier) :
    FaultAtWorst (field.pack value) := by
  cases field with
  | word width => exact .choice (.ok _) (.fault rfl)
  | block width => exact .ok _

/-- One of the values of a row may not be in the range of its field. -/
theorem Layout.pack_faultAtWorst (layout : Layout) (row : layout.Row) :
    FaultAtWorst (layout.pack row) := by
  induction layout with
  | nil => exact .ok _
  | cons field rest ih =>
    exact .bind (Field.pack_faultAtWorst field row.1) fun _ _ => .bind (ih row.2) fun _ _ => .ok _

/-- A number may have no inverse for want of a modulus. -/
theorem Number.inverse?_faultAtWorst (a m : Int) : FaultAtWorst (inverse? a m) :=
  .choice (.ok _) (.choice (.fault rfl) (.ok _))

theorem Number.encode_faultAtWorst (bits value : Int) : FaultAtWorst (encode bits value) :=
  .choice (.fault rfl) (.choice (.fault rfl) (.choice (.ok _) (.fault rfl)))

theorem PublicKey.encode_faultAtWorst (key : PublicKey) : FaultAtWorst key.encode := by
  refine .bind (Number.inverse?_faultAtWorst _ _) fun _ _ => ?_
  refine .bind (Layout.pack_faultAtWorst _ _) fun _ _ => ?_
  refine .bind (Number.encode_faultAtWorst _ _) fun _ _ => ?_
  exact .bind (Number.encode_faultAtWorst _ _) fun _ _ => .ok _

/-- A digest may be too long for the key, and the key may lack its private part. -/
theorem Rsa.signDigest_faultAtWorst (key : Key) (family : DigestFamily) (digest : Bytes) :
    FaultAtWorst (signDigest key family digest) := by
  simp only [signDigest]
  split
  · exact .fault rfl
  · split
    · exact .fault rfl
    · exact .choice (.ok _) (.fault rfl)

/-- Whether signing never turns a request down: where it fails, it fails by a fault underneath. -/
def Suite.NeverRefuses (suite : Suite) : Prop :=
  ∀ key family message, FaultAtWorst (suite.sign key family message)

/-- RSA never turns a request down, whatever the digests are. -/
theorem Suite.neverRefuses_ofDigests {digest : DigestFamily → Bytes → Bytes}
    {length_digest : ∀ family message, (digest family message).length = family.size} :
    (ofDigests digest length_digest).NeverRefuses :=
  fun key family message => Rsa.signDigest_faultAtWorst key family (digest family message)

/-! ### Records and blobs -/

namespace Descriptor

theorem encodeRecord_faultAtWorst (tag : Nat) (fixed rest : Bytes) :
    FaultAtWorst (encodeRecord tag fixed rest) :=
  .bind (Layout.pack_faultAtWorst _ _) fun _ _ => .ok _

theorem packRecord_faultAtWorst (tag : Nat) (layout : Layout) (row : layout.Row) (rest : Bytes) :
    FaultAtWorst (layout.pack row >>= fun fixed => encodeRecord tag fixed rest) :=
  .bind (Layout.pack_faultAtWorst _ _) fun _ _ => encodeRecord_faultAtWorst _ _ _

theorem encodeKey_faultAtWorst (key : Option PublicKey) : FaultAtWorst (encodeKey key) := by
  cases key with
  | none => exact .ok []
  | some key => exact PublicKey.encode_faultAtWorst key

end Descriptor

/-- There may be no room for the zeros, and no multiple of an alignment of zero. -/
theorem Image.align_faultAtWorst (room : Nat) (blob : Bytes) (alignment : Int) :
    FaultAtWorst (align room blob alignment) := by
  have hround : FaultAtWorst (Number.roundUp? blob.length alignment) := .choice (.fault rfl) (.ok _)
  refine .bind hround fun size _ => ?_
  have hroom : FaultAtWorst (Bytes.requireRoom room size.toNat) :=
    .choice (.fault rfl) (.choice (.fault rfl) (.ok _))
  exact .bind hroom fun _ _ => .ok _

end VerifiedBoot
