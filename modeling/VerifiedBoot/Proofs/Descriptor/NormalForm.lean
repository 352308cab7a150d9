import VerifiedBoot.Proofs.Descriptor.Span

/-!
# The normal form of a record

Many byte strings are read as the same descriptor: the body of a record may be larger than its
parts, what fills it up need not be zeros, a name may end before its field does, and the two words
that a key carries besides its modulus are not looked at. One of these byte strings is the one that
the descriptor is written to. It is read as the same descriptor again, so nothing that was read is
lost by writing it.
-/

namespace VerifiedBoot

namespace Descriptor

/-- Whether a byte string is one whole record: it has as many bytes behind its preamble as the
preamble says, and is made of whole words. -/
def WholeRecord (blob : Bytes) : Prop :=
  ∃ (tag : Int) (following : Nat), preamble.unpack blob = .ok (tag, (following : Int), ()) ∧
    blob.length = 16 + following ∧ 8 ∣ blob.length

variable {d : Descriptor}

theorem eight_dvd_span (d : Descriptor) : 8 ∣ d.span := by
  have hround := (@Number.roundUp_spec d.bodySize 8 (by decide)).2.2
  unfold span
  omega

/-- A record that says how many bytes follow, and has as many bytes as its descriptor takes, is
whole. -/
theorem IsRecord.wholeRecord {tag : Int} {body blob : Bytes} (h : IsRecord tag body blob)
    (hspan : blob.length = d.span) : WholeRecord blob := by
  have hunpack := h.unpack []
  rw [List.append_nil] at hunpack
  refine ⟨tag, body.length, hunpack, h.length_blob, ?_⟩
  rw [hspan]
  exact eight_dvd_span d

/-- A descriptor in range has a whole record, from which it is read back. -/
theorem exists_wholeRecord (hr : d.InRange) (haligned : ¬d.Unaligned) :
    ∃ blob, encode d = .ok blob ∧ WholeRecord blob ∧ decode blob = .ok d := by
  obtain ⟨blob, hblob, hspan⟩ := exists_encode hr haligned
  obtain ⟨hdecode, tag, body, hrecord, -⟩ := decode_encode hblob hr
  exact ⟨blob, hblob, hrecord.wholeRecord hspan, hdecode⟩

/-- A descriptor in range has no bytes only if its body is kept as it is and is not whole words. -/
theorem encode_eq_error_iff (hr : d.InRange) : (∃ e, encode d = .error e) ↔ d.Unaligned := by
  constructor
  · rintro ⟨e, he⟩
    by_contra haligned
    obtain ⟨blob, hblob, -⟩ := exists_wholeRecord hr haligned
    cases hblob.symm.trans he
  · intro h
    obtain ⟨size, hsize⟩ := encode_of_unaligned h
    exact ⟨_, hsize⟩

/-- **The bytes of a descriptor are its normal form.** A descriptor in range is written to a whole
record and read back from it. Whatever byte string a descriptor is read from, it is refused by the
writer only if its body is kept as it is and is not whole words, and otherwise writing it and
reading it again changes nothing. -/
theorem encode_normalForm :
    (∀ d : Descriptor, d.InRange → ¬d.Unaligned →
      ∃ blob, encode d = .ok blob ∧ WholeRecord blob ∧ decode blob = .ok d) ∧
    ∀ (data : Bytes) (d : Descriptor), data.length ≤ Bytes.maxSize → decode data = .ok d →
      ((∃ e, encode d = .error e) ↔ d.Unaligned) ∧
      (¬d.Unaligned → ∃ blob, encode d = .ok blob ∧ WholeRecord blob ∧ decode blob = .ok d) := by
  refine ⟨fun d => exists_wholeRecord, ?_⟩
  intro data d hdata hdecode
  have hlimit : Bytes.maxSize < 1 <<< 63 := by decide
  have hr := inRange_of_decode hdecode (Nat.lt_of_le_of_lt hdata hlimit)
  exact ⟨encode_eq_error_iff hr, exists_wholeRecord hr⟩

/-- A hash whose record is not in normal form: the name of the algorithm is followed by other bytes
behind the zero that ends it, and the body has more bytes than its parts, none of them zero. -/
def looseRecord : Bytes :=
  Bytes.bigEndian 8 2 ++ Bytes.bigEndian 8 136 ++ Bytes.bigEndian 8 3 ++
    Bytes.ofString "sha256" ++ [0] ++ List.replicate 25 7 ++ Bytes.bigEndian 4 4 ++
    Bytes.bigEndian 4 1 ++ Bytes.bigEndian 4 2 ++ Bytes.bigEndian 4 0 ++ Bytes.zeros 60 ++
    Bytes.ofString "boot" ++ [9] ++ [5, 6] ++ List.replicate 13 255

/-- The hash that the record is read as. -/
def looseHash : Descriptor :=
  .hash ⟨3, "sha256", "boot", [9], [5, 6], 0, Bytes.zeros 60⟩

/-- The hash of the record that is not in normal form has a record of its own, eight bytes shorter,
from which it is read as well. -/
theorem encode_normalForm_looseRecord :
    (looseHash.InRange ∧ ¬looseHash.Unaligned ∧ looseRecord.length ≤ Bytes.maxSize ∧
      decode looseRecord = .ok looseHash) ∧
    (∃ blob, encode looseHash = .ok blob ∧ WholeRecord blob ∧ decode blob = .ok looseHash) ∧
    ((∃ e, encode looseHash = .error e) ↔ looseHash.Unaligned) := by
  have hr : looseHash.InRange := by
    refine ⟨?_, ?_, ?_, ?_, ?_, ?_, ?_⟩
    all_goals decide +kernel
  have haligned : ¬looseHash.Unaligned := nofun
  have hdata : looseRecord.length ≤ Bytes.maxSize := by decide +kernel
  have hdecode : decode looseRecord = .ok looseHash := by decide +kernel
  exact ⟨⟨hr, haligned, hdata, hdecode⟩, encode_normalForm.1 looseHash hr haligned,
    (encode_normalForm.2 looseRecord looseHash hdata hdecode).1⟩

end Descriptor

end VerifiedBoot
