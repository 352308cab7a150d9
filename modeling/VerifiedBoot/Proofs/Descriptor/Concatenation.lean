import VerifiedBoot.Proofs.Descriptor.NormalForm

/-!
# Lists of records are read record by record

A record says where it ends, and none of its parts reaches behind its end. So what is read from a
record does not depend on what follows it, and two lists of records one after the other are read as
the first list and then the second. Only fewer bytes than a preamble are ever left unread, and it is
in front of these that the second list is taken up.

* `recordSize_append`, `decode_take`: what follows a record does not matter.
* `Reads`: the run of the reader, with what it leaves.
* `Reads.decodeAll_append`: a run goes on with whatever is put behind the data.
-/

namespace VerifiedBoot

namespace Layout

/-- A row is read from the head of the data, whatever follows. -/
theorem read_append {layout : Layout} {data : Bytes} (h : layout.size ≤ data.length)
    (rest : Bytes) : layout.read (data ++ rest) = layout.read data := by
  induction layout generalizing data with
  | nil => rfl
  | cons field fields ih =>
    have hsize : field.width + size fields ≤ data.length := h
    have htail : size fields ≤ (data.drop field.width).length := by
      rw [List.length_drop]
      omega
    rw [read, read, List.take_append_of_le_length (by omega),
      List.drop_append_of_le_length (by omega), ih htail]

/-- A row that is unpacked is unpacked from longer data as well. -/
theorem unpack_append {layout : Layout} {data : Bytes} {row : layout.Row}
    (h : layout.unpack data = .ok row) (rest : Bytes) :
    layout.unpack (data ++ rest) = .ok row := by
  obtain ⟨hlength, rfl⟩ := unpack_eq_ok.1 h
  refine unpack_eq_ok.2 ⟨?_, read_append hlength rest⟩
  rw [List.length_append]
  omega

/-- A row that is unpacked is unpacked from a head of the data that is long enough. -/
theorem unpack_take {layout : Layout} {data : Bytes} {row : layout.Row} {n : Nat}
    (h : layout.unpack data = .ok row) (hn : layout.size ≤ n) :
    layout.unpack (data.take n) = .ok row := by
  obtain ⟨hlength, rfl⟩ := unpack_eq_ok.1 h
  have hhead : layout.size ≤ (data.take n).length := by
    rw [List.length_take]
    omega
  have hread := read_append hhead (data.drop n)
  rw [List.take_append_drop] at hread
  exact unpack_eq_ok.2 ⟨hhead, hread.symm⟩

end Layout

namespace Descriptor

variable {data rest : Bytes} {size : Nat} {d : Descriptor} {ds : List Descriptor}

/-! ### Records do not reach behind their end -/

/-- A record ends where its preamble says, within the data. -/
theorem recordSize_eq_ok : recordSize data = .ok size ↔ ∃ (tag : Int) (following : Nat),
    preamble.unpack data = .ok (tag, (following : Int), ()) ∧ following < 1 <<< 63 ∧
      size = 16 + following ∧ size ≤ data.length := by
  constructor
  · intro h
    obtain ⟨⟨(tag : Int), (following : Int), ⟨⟩⟩, hrow, h₁⟩ := Outcome.bind_eq_ok.1 h
    have hnonneg : 0 ≤ following := (Layout.holds_of_unpack hrow).2.1.1
    obtain ⟨hlt, h₂⟩ := (checkLength_bind_eq_ok (by decide) hnonneg).1 h₁
    obtain ⟨hlength, h₃⟩ := Outcome.guard_eq_ok.1 h₂
    obtain rfl := Except.ok.inj h₃
    obtain ⟨n, rfl⟩ := Int.eq_ofNat_of_zero_le hnonneg
    exact ⟨tag, n, hrow, Int.ofNat_lt.1 hlt, rfl, by omega⟩
  · rintro ⟨tag, following, hrow, hlt, rfl, hlength⟩
    refine Outcome.bind_eq_ok.2 ⟨_, hrow, ?_⟩
    refine (checkLength_bind_eq_ok (by decide) (Int.natCast_nonneg _)).2 ⟨Int.ofNat_lt.2 hlt, ?_⟩
    exact Outcome.guard_eq_ok.2 ⟨by omega, rfl⟩

/-- A record has its size whatever follows it. -/
theorem recordSize_append (h : recordSize data = .ok size) (rest : Bytes) :
    recordSize (data ++ rest) = .ok size := by
  obtain ⟨tag, following, hrow, hlt, hsize, hlength⟩ := recordSize_eq_ok.1 h
  refine recordSize_eq_ok.2 ⟨tag, following, Layout.unpack_append hrow rest, hlt, hsize, ?_⟩
  rw [List.length_append]
  omega

/-- A record is opened in the same way, or turned down for the same reason, without what follows
it. -/
theorem openRecord_take (h : recordSize data = .ok size) (kind : DescriptorKind) :
    openRecord kind (data.take size) = openRecord kind data := by
  obtain ⟨tag, following, hrow, hlt, rfl, hlength⟩ := recordSize_eq_ok.1 h
  have hhead : preamble.unpack (data.take (16 + following)) = .ok (tag, (following : Int), ()) :=
    Layout.unpack_take hrow (Nat.le_add_right 16 following)
  have hbody : Bytes.slice (data.take (16 + following)) 16 following =
      Bytes.slice data 16 following := by
    rw [Bytes.slice, Bytes.slice, List.drop_take, Nat.add_sub_cancel_left, List.take_take,
      Nat.min_self]
  have hwhole : ¬((data.take (16 + following)).length : Int) < 16 + (following : Int) := by
    rw [List.length_take]
    omega
  have hwithin : ¬(data.length : Int) < 16 + (following : Int) := by omega
  have hcheck : checkUnsigned (following : Int) 64 "num_bytes_following" = .ok (following : Int) :=
    (checkUnsigned_eq_ok (by decide) (Int.natCast_nonneg _)).2 ⟨rfl, Int.ofNat_lt.2 hlt⟩
  -- The length of the data and the body are all that could differ.
  unfold openRecord
  rw [hrow, hhead]
  simp only [bind, Except.bind, hcheck, Int.toNat_natCast, hbody, if_neg hwhole, if_neg hwithin]

/-- A record is read as the same descriptor, or turned down for the same reason, without what
follows it. -/
theorem decode_take (h : recordSize data = .ok size) : decode (data.take size) = decode data := by
  obtain ⟨tag, following, hrow, -, hsize, -⟩ := recordSize_eq_ok.1 h
  have hpreamble : preamble.size ≤ size := hsize ▸ Nat.le_add_right 16 following
  rw [decode_of_unpack hrow, decode_of_unpack (Layout.unpack_take hrow hpreamble)]
  cases DescriptorKind.ofTag tag with
  | property => simp only [decodeAs, decodeProperty, openRecord_take h]
  | hashtree => simp only [decodeAs, decodeHashtree, openRecord_take h]
  | hash => simp only [decodeAs, decodeHash, openRecord_take h]
  | cmdline => simp only [decodeAs, decodeCmdline, openRecord_take h]
  | chain => simp only [decodeAs, decodeChain, openRecord_take h]
  | unknown => simp only [decodeAs, decodeUnknown, openRecord_take h]

/-! ### Runs of the reader -/

/-- How data is read record by record: the descriptors, and what is left where no further preamble
fits. -/
inductive Reads : Bytes → List Descriptor → Bytes → Prop where
  | stop {rest : Bytes} (short : rest.length < 16) : Reads rest [] rest
  | record {data rest : Bytes} {size : Nat} {d : Descriptor} {ds : List Descriptor}
      (long : 16 ≤ data.length) (size_eq : recordSize data = .ok size)
      (decode_eq : decode (data.take size) = .ok d) (next : Reads (data.drop size) ds rest) :
      Reads data (d :: ds) rest

/-- A list of records whose first record has no size is turned down. -/
theorem decodeAll_of_recordSize_eq_error {e : Error} (hlength : 16 ≤ data.length)
    (h : recordSize data = .error e) : decodeAll data = .error e := by
  rw [decodeAll, if_neg (by omega)]
  split
  · next cause hcause => exact congrArg Except.error (Except.error.inj (hcause.symm.trans h))
  · next size hsize => exact absurd (h.symm.trans hsize) nofun

/-- Data is read as descriptors exactly if there is a run of the reader. -/
theorem decodeAll_eq_ok : decodeAll data = .ok ds ↔ ∃ rest, Reads data ds rest := by
  constructor
  · intro h
    -- A record takes at least its preamble, so what is left behind it is shorter.
    induction hn : data.length using Nat.strongRecOn generalizing data ds with
    | _ n ih =>
    by_cases hshort : data.length < 16
    · rw [decodeAll_of_short hshort] at h
      obtain rfl := Except.ok.inj h
      exact ⟨data, .stop hshort⟩
    · cases hsize : recordSize data with
      | error e =>
        rw [decodeAll_of_recordSize_eq_error (by omega) hsize] at h
        cases h
      | ok size =>
        rw [decodeAll_of_recordSize hshort hsize] at h
        obtain ⟨d, hd, h₁⟩ := Outcome.bind_eq_ok.1 h
        obtain ⟨others, hothers, h₂⟩ := Outcome.bind_eq_ok.1 h₁
        obtain rfl := Except.ok.inj h₂
        have hpos := recordSize_pos hsize
        have hfewer : (data.drop size).length < n := by
          rw [List.length_drop]
          omega
        obtain ⟨rest, hrest⟩ := ih _ hfewer hothers rfl
        exact ⟨rest, .record (by omega) hsize hd hrest⟩
  · rintro ⟨rest, h⟩
    induction h with
    | stop short => exact decodeAll_of_short short
    | record long size_eq decode_eq _ ih =>
      rw [decodeAll_of_recordSize (by omega) size_eq]
      exact Outcome.bind_eq_ok.2 ⟨_, decode_eq, Outcome.bind_eq_ok.2 ⟨_, ih, rfl⟩⟩

/-- A run of the reader goes on with what is put behind the data, from where it stopped. -/
theorem Reads.decodeAll_append (h : Reads data ds rest) (more : Bytes) :
    decodeAll (data ++ more) = (ds ++ ·) <$> decodeAll (rest ++ more) := by
  induction h with
  | stop short =>
    cases decodeAll (_ ++ more) with
    | error e => rfl
    | ok others => rfl
  | @record data rest size d ds long size_eq decode_eq next ih =>
    obtain ⟨-, -, -, -, -, hwithin⟩ := recordSize_eq_ok.1 size_eq
    have hlong : ¬(data ++ more).length < 16 := by
      rw [List.length_append]
      omega
    rw [decodeAll_of_recordSize hlong (recordSize_append size_eq more),
      List.take_append_of_le_length hwithin, List.drop_append_of_le_length hwithin, decode_eq, ih]
    cases decodeAll (rest ++ more) with
    | error e => rfl
    | ok others => rfl

/-- Descriptors in range have bytes exactly if no body is kept as it is without being whole
words. -/
theorem exists_encodeAll_iff (hr : ∀ d ∈ ds, d.InRange) :
    (∃ blob, encodeAll ds = .ok blob) ↔ ∀ d ∈ ds, ¬d.Unaligned := by
  constructor
  · rintro ⟨blob, hblob⟩ d hd hunaligned
    obtain ⟨e, he⟩ := encodeAll_of_unaligned hd hunaligned
    cases hblob.symm.trans he
  · intro haligned
    obtain ⟨blob, hblob, -⟩ := exists_encodeAll hr haligned
    exact ⟨blob, hblob⟩

/-- **Lists of records are read record by record.** What is written for descriptors in range is read
as these descriptors, with up to fifteen more bytes behind it. Data is read as descriptors if there
is a run of the reader; with anything put behind the data the run goes on from where it stopped, so
a list that was read to its end is followed by the list that comes next, or by the error of that. A
record is read in the same way, or turned down for the same reason, with and without what follows
it. -/
theorem decodeAll_composes :
    (∀ ds : List Descriptor, (∀ d ∈ ds, d.InRange) →
      ((∃ blob, encodeAll ds = .ok blob) ↔ ∀ d ∈ ds, ¬d.Unaligned) ∧
      ∀ blob tail : Bytes, encodeAll ds = .ok blob → tail.length < 16 →
        decodeAll (blob ++ tail) = .ok ds) ∧
    (∀ (data : Bytes) (ds : List Descriptor),
      decodeAll data = .ok ds ↔ ∃ rest, Reads data ds rest) ∧
    (∀ (data rest more : Bytes) (ds : List Descriptor), Reads data ds rest →
      decodeAll (data ++ more) = (ds ++ ·) <$> decodeAll (rest ++ more)) ∧
    ∀ (data : Bytes) (size : Nat), recordSize data = .ok size →
      decode (data.take size) = decode data := by
  refine ⟨?_, fun data ds => decodeAll_eq_ok, ?_, fun data size h => decode_take h⟩
  · intro ds hr
    exact ⟨exists_encodeAll_iff hr, fun blob tail h htail => decodeAll_encodeAll h hr htail⟩
  · intro data rest more ds h
    exact h.decodeAll_append more

/-- The record that is not in normal form is read to its end. -/
theorem reads_looseRecord : Reads looseRecord [looseHash] [] := by
  have hsize : recordSize looseRecord = .ok looseRecord.length := by decide +kernel
  have hdecode : decode (looseRecord.take looseRecord.length) = .ok looseHash := by decide +kernel
  refine .record (by decide +kernel) hsize hdecode ?_
  rw [List.drop_length]
  exact .stop (by decide)

/-- The record that is not in normal form is followed by a second one and three bytes, or by a
preamble that says more bytes than there are. -/
theorem decodeAll_composes_looseRecord :
    (looseHash.InRange ∧ (∃ blob, encodeAll [looseHash] = .ok blob ∧
      decodeAll (blob ++ Bytes.zeros 15) = .ok [looseHash])) ∧
    Reads looseRecord [looseHash] [] ∧
    decodeAll (looseRecord ++ (looseRecord ++ [1, 2, 3])) = .ok [looseHash, looseHash] ∧
    decodeAll (looseRecord ++ (Bytes.bigEndian 8 2 ++ Bytes.bigEndian 8 1)) =
      .error (.malformed .descriptorSize) ∧
    recordSize looseRecord = .ok 152 ∧
    decode (looseRecord.take 152) = decode looseRecord := by
  obtain ⟨hwritten, -, happend, hrecord⟩ := decodeAll_composes
  have hdecode : decode looseRecord = .ok looseHash := by decide +kernel
  have hr : looseHash.InRange := inRange_of_decode hdecode (by decide +kernel)
  have hsize : recordSize looseRecord = .ok 152 := by decide +kernel
  have hreads := reads_looseRecord
  refine ⟨⟨hr, ?_⟩, hreads, ?_, ?_, hsize, hrecord _ _ hsize⟩
  · obtain ⟨hiff, hread⟩ := hwritten [looseHash] (List.forall_mem_singleton.2 hr)
    obtain ⟨blob, hblob⟩ := hiff.2 (List.forall_mem_singleton.2 nofun)
    exact ⟨blob, hblob, hread blob _ hblob (by decide)⟩
  -- The second list is the record again, and then three bytes that hold no preamble.
  · rw [happend _ _ _ _ hreads, List.nil_append, happend _ _ _ _ hreads, List.nil_append,
      decodeAll_of_short (by decide)]
    rfl
  · have hbad : recordSize (Bytes.bigEndian 8 2 ++ Bytes.bigEndian 8 1) =
        .error (.malformed .descriptorSize) := by
      decide +kernel
    rw [happend _ _ _ _ hreads, List.nil_append,
      decodeAll_of_recordSize_eq_error (by decide +kernel) hbad]
    rfl

end Descriptor

end VerifiedBoot
