import VerifiedBoot.Footer
import VerifiedBoot.Header
import VerifiedBoot.Proofs.Layout

/-!
# Headers and footers are read back

`Header.InRange` and `Footer.InRange` say what a header and a footer have to be for their bytes to
mean them. They are read back from their bytes exactly then, whatever follows, and each one that was
read is of this kind.
-/

namespace VerifiedBoot

namespace Header

/-- Whether the bytes of a header mean it. -/
structure InRange (header : Header) : Prop where
  holds : layout.Holds header.toRow
  magic : header.magic = signature
  extents : ∀ e ∈ header.extents, e.2 < (1 <<< 63 : Nat)
  algorithm : ∃ algorithm, header.algorithm = .ok algorithm

/-- Whether the blocks of a header have the widths of their fields, the mark in front among them. -/
structure Shaped (header : Header) : Prop where
  magic : header.magic = signature
  releaseString : header.releaseString.length = 48
  reserved : header.reserved.length = 80

theorem InRange.shaped {header : Header} (h : header.InRange) : header.Shaped := by
  obtain ⟨-, -, -, -, -, -, -, -, -, -, -, -, -, -, -, -, -, -, -, hrelease, hreserved, -⟩ :=
    h.holds
  exact ⟨h.magic, hrelease, hreserved⟩

/-- The layout fits a header that has its shape already. -/
theorem fitted_toRow {header : Header} (h : header.Shaped) :
    layout.fitted header.toRow = header.toRow := by
  have hmagic : header.magic.length = 4 := congrArg List.length h.magic
  simp only [layout, toRow, Layout.fitted, Field.fitted, Bytes.fit_of_length h.releaseString,
    Bytes.fit_of_length h.reserved, Bytes.fit_of_length hmagic]
  rfl

theorem length_of_encode {header : Header} {data : Bytes} (h : header.encode = .ok data) :
    data.length = size :=
  Layout.length_pack h

theorem extents_nonneg {header : Header} (h : layout.Holds header.toRow) :
    ∀ e ∈ header.extents, 0 ≤ e.2 := by
  obtain ⟨-, -, -, h1, h2, -, h3, h4, h5, h6, h7, h8, h9, h10, h11, h12, -⟩ := h
  simp only [extents, List.forall_mem_cons]
  exact ⟨h1.1, h2.1, h3.1, h4.1, h5.1, h6.1, h7.1, h8.1, h9.1, h10.1, h11.1, h12.1, by simp⟩

/-- To decode is to read a row, and to check it. -/
theorem decode_eq_ok {data : Bytes} {header : Header} :
    decode data = .ok header ↔ layout.unpack data = .ok header.toRow ∧ header.magic = signature ∧
      checkExtents header.extents = .ok () ∧ ∃ algorithm, header.algorithm = .ok algorithm := by
  constructor
  · intro h
    obtain ⟨row, hrow, h⟩ := Outcome.bind_eq_ok.1 h
    obtain ⟨hmagic, h⟩ := Outcome.guard_eq_ok.1 h
    obtain ⟨⟨⟩, hextents, h⟩ := Outcome.bind_eq_ok.1 h
    obtain ⟨algorithm, halgorithm, h⟩ := Outcome.bind_eq_ok.1 h
    obtain rfl : ofRow row = header := Except.ok.inj h
    exact ⟨hrow, not_not.1 hmagic, hextents, algorithm, halgorithm⟩
  · rintro ⟨hrow, hmagic, hextents, algorithm, halgorithm⟩
    refine Outcome.bind_eq_ok.2 ⟨_, hrow, Outcome.guard_eq_ok.2 ⟨not_not.2 hmagic, ?_⟩⟩
    refine Outcome.bind_eq_ok.2 ⟨(), hextents, ?_⟩
    exact Outcome.bind_eq_ok.2 ⟨algorithm, halgorithm, rfl⟩

/-- A header is read back from its bytes, whatever follows them. -/
theorem decode_encode {header : Header} {data : Bytes} (h : header.encode = .ok data)
    (hr : header.InRange) (rest : Bytes) : decode (data ++ rest) = .ok header :=
  decode_eq_ok.2 ⟨Layout.unpack_pack h hr.holds rest, hr.magic,
    (checkExtents_eq_ok (extents_nonneg hr.holds)).2 hr.extents, hr.algorithm⟩

/-- A header that was read is one that its bytes mean. -/
theorem inRange_of_decode {data : Bytes} {header : Header} (h : decode data = .ok header) :
    header.InRange := by
  obtain ⟨hrow, hmagic, hextents, halgorithm⟩ := decode_eq_ok.1 h
  obtain ⟨hlength, hread⟩ := Layout.unpack_eq_ok.1 hrow
  have holds : layout.Holds header.toRow := hread ▸ Layout.holds_read hlength
  exact ⟨holds, hmagic, (checkExtents_eq_ok (extents_nonneg holds)).1 hextents, halgorithm⟩

/-- A header that has bytes is in range if it has its shape, its sizes and offsets are below their
sign bits, and its algorithm is known. -/
theorem inRange_of_encode {header : Header} {data : Bytes} (h : header.encode = .ok data)
    (hshape : header.Shaped) (hextents : ∀ e ∈ header.extents, e.2 < (1 <<< 63 : Nat))
    {algorithm : Algorithm} (halgorithm : header.algorithm = .ok algorithm) : header.InRange :=
  ⟨Layout.holds_of_pack h (fitted_toRow hshape), hshape.magic, hextents, algorithm, halgorithm⟩

end Header

namespace Footer

/-- Whether the bytes of a footer mean it. -/
structure InRange (footer : Footer) : Prop where
  holds : layout.Holds footer.toRow
  magic : footer.magic = signature
  extents : ∀ e ∈ footer.extents, e.2 < (1 <<< 63 : Nat)

theorem length_of_encode {footer : Footer} {data : Bytes} (h : footer.encode = .ok data) :
    data.length = size :=
  Layout.length_pack h

theorem extents_nonneg {footer : Footer} (h : layout.Holds footer.toRow) :
    ∀ e ∈ footer.extents, 0 ≤ e.2 := by
  obtain ⟨-, -, -, h1, h2, h3, -⟩ := h
  simp only [extents, List.forall_mem_cons]
  exact ⟨h1.1, h2.1, h3.1, by simp⟩

/-- To decode is to read a row, and to check it. -/
theorem decode_eq_ok {data : Bytes} {footer : Footer} :
    decode data = .ok footer ↔ data.length = size ∧ layout.unpack data = .ok footer.toRow ∧
      footer.magic = signature ∧ checkExtents footer.extents = .ok () := by
  unfold decode
  constructor
  · intro h
    obtain ⟨hlength, h⟩ := Outcome.guard_eq_ok.1 h
    obtain ⟨row, hrow, h⟩ := Outcome.bind_eq_ok.1 h
    obtain ⟨hmagic, h⟩ := Outcome.guard_eq_ok.1 h
    obtain ⟨⟨⟩, hextents, h⟩ := Outcome.bind_eq_ok.1 h
    obtain rfl : ofRow row = footer := Except.ok.inj h
    exact ⟨not_not.1 hlength, hrow, not_not.1 hmagic, hextents⟩
  · rintro ⟨hlength, hrow, hmagic, hextents⟩
    refine Outcome.guard_eq_ok.2 ⟨not_not.2 hlength, Outcome.bind_eq_ok.2 ⟨_, hrow, ?_⟩⟩
    refine Outcome.guard_eq_ok.2 ⟨not_not.2 hmagic, ?_⟩
    exact Outcome.bind_eq_ok.2 ⟨(), hextents, rfl⟩

/-- A footer is read back from its bytes. -/
theorem decode_encode {footer : Footer} {data : Bytes} (h : footer.encode = .ok data)
    (hr : footer.InRange) : decode data = .ok footer := by
  have hunpack := Layout.unpack_pack h hr.holds []
  rw [List.append_nil] at hunpack
  exact decode_eq_ok.2 ⟨length_of_encode h, hunpack, hr.magic,
    (checkExtents_eq_ok (extents_nonneg hr.holds)).2 hr.extents⟩

/-- A footer that was read is one that its bytes mean. -/
theorem inRange_of_decode {data : Bytes} {footer : Footer} (h : decode data = .ok footer) :
    footer.InRange := by
  obtain ⟨-, hrow, hmagic, hextents⟩ := decode_eq_ok.1 h
  obtain ⟨hlength, hread⟩ := Layout.unpack_eq_ok.1 hrow
  have holds : layout.Holds footer.toRow := hread ▸ Layout.holds_read hlength
  exact ⟨holds, hmagic, (checkExtents_eq_ok (extents_nonneg holds)).1 hextents⟩

end Footer

end VerifiedBoot
