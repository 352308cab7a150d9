import Mathlib.Tactic.Common
import VerifiedBoot.Proofs.Outcome
import VerifiedBoot.Walk.Measure

/-!
# What is measured

A measurement that returns is the digest of the salt and the first bytes of the partition, whatever
the size of the chunks. Only a negative size differs: it asks for all bytes that there are. With
chunks of at least one byte a measurement returns for every partition and every digest that has a
length of its own.
-/

namespace VerifiedBoot

namespace Measurement

/-- The bytes of a partition that a measurement over `size` of them reads. -/
def payload (chunkSize : Int) (data : Bytes) (size : Int) : Bytes :=
  if 0 ≤ chunkSize then data.take size.toNat else if 0 < size then data else []

/-- The first bytes are read, unless the size of the chunks is negative. -/
@[simp] theorem payload_of_nonneg {chunkSize : Int} (h : 0 ≤ chunkSize) (data : Bytes)
    (size : Int) : payload chunkSize data size = data.take size.toNat :=
  if_pos h

/-- What is wanted beyond the end is not there to be read. -/
theorem payload_min (chunkSize : Int) (data : Bytes) (size : Int) :
    payload chunkSize data (min size data.length) = payload chunkSize data size := by
  unfold payload
  split
  · rw [List.take_eq_take_iff]
    omega
  · cases data with
    | nil => rw [ite_self, ite_self]
    | cons byte rest =>
      have hlength : (0 : Int) < ((byte :: rest).length : Nat) := by
        rw [List.length_cons]
        omega
      have hmin : 0 < min size ((byte :: rest).length : Nat) ↔ 0 < size := by omega
      simp only [hmin]

/-- Chunks together are the bytes that were read before and the wanted bytes. -/
theorem flatten_readChunks {partition : String} {chunkSize remaining : Int} {data : Bytes}
    {chunks read : List Bytes} (hchunk : 0 ≤ chunkSize)
    (h : readChunks partition chunkSize remaining data chunks = .ok read) :
    read.reverse.flatten = chunks.reverse.flatten ++ data.take remaining.toNat := by
  revert h
  fun_induction readChunks partition chunkSize remaining data chunks with
  | case1 remaining data chunks hdone =>
    intro h
    obtain rfl := Except.ok.inj h
    rw [show remaining.toNat = 0 by omega, List.take_zero, List.append_nil]
  | case2 => exact nofun
  | case3 => exact nofun
  | case4 remaining data chunks hmore hrange hread size ih =>
    intro h
    have hsize : (size : Int) ≤ remaining := by
      show (readSize chunkSize remaining data.length : Int) ≤ remaining
      unfold readSize
      split <;> omega
    have hsplit : remaining.toNat = size + (remaining - size).toNat := by omega
    rw [ih h, List.reverse_cons, List.flatten_append, List.flatten_singleton, List.append_assoc,
      hsplit, List.take_add]

/-- With chunks of at least one byte, as many bytes are read as there are. -/
theorem exists_readChunks {partition : String} {chunkSize remaining : Int} {data : Bytes}
    {chunks : List Bytes} (hchunk : 1 ≤ chunkSize) (hlength : remaining ≤ data.length) :
    ∃ read, readChunks partition chunkSize remaining data chunks = .ok read := by
  fun_induction readChunks partition chunkSize remaining data chunks with
  | case1 remaining data chunks hdone => exact ⟨chunks, rfl⟩
  | case2 remaining data chunks hmore hrange => omega
  | case3 remaining data chunks hmore hrange hread =>
    -- A read of at least one byte returns one as long as there is one.
    unfold readSize at hread
    split at hread <;> omega
  | case4 remaining data chunks hmore hrange hread size ih =>
    have hle : size ≤ data.length := readSize_le chunkSize remaining data.length
    apply ih
    rw [List.length_drop]
    omega

/-- A negative chunk size reads all bytes at once. -/
theorem flatten_readChunks_of_neg {partition : String} {chunkSize remaining : Int} {data : Bytes}
    {read : List Bytes} (hchunk : chunkSize < 0) (hlength : remaining ≤ data.length)
    (h : readChunks partition chunkSize remaining data [] = .ok read) :
    read.reverse.flatten = if 0 < remaining then data else [] := by
  -- One read takes everything, so there is at most one.
  have hsize : readSize chunkSize remaining data.length = data.length := if_pos (by omega)
  unfold readChunks at h
  rw [hsize] at h
  by_cases hdone : remaining ≤ 0
  · rw [if_pos hdone] at h
    obtain rfl := Except.ok.inj h
    rw [if_neg (by omega)]
    rfl
  · rw [if_neg hdone] at h
    split at h
    · cases h
    · split at h
      · cases h
      · unfold readChunks at h
        simp only at h
        rw [if_pos (by omega)] at h
        obtain rfl := Except.ok.inj h
        rw [if_pos (by omega), List.reverse_singleton, List.flatten_singleton, List.take_length]

/-- What is read of a partition that has as many bytes as are wanted. -/
theorem read_eq_ok {partition : String} {chunkSize remaining : Int} {data bytes : Bytes}
    (hlength : remaining ≤ data.length)
    (h : read partition chunkSize remaining data = .ok bytes) :
    bytes = payload chunkSize data remaining := by
  obtain ⟨chunks, hchunks, h⟩ := Outcome.bind_eq_ok.1 h
  obtain rfl := Except.ok.inj h
  unfold payload
  split
  · next hchunk =>
    rw [flatten_readChunks hchunk hchunks]
    rfl
  · next hchunk => exact flatten_readChunks_of_neg (by omega) hlength hchunks

/-- The first bytes can be read in chunks of at least one byte. -/
theorem exists_read {partition : String} {chunkSize remaining : Int} {data : Bytes}
    (hchunk : 1 ≤ chunkSize) (hlength : remaining ≤ data.length) :
    ∃ bytes, read partition chunkSize remaining data = .ok bytes := by
  obtain ⟨chunks, hchunks⟩ :=
    @exists_readChunks partition chunkSize remaining data [] hchunk hlength
  exact ⟨_, Outcome.bind_eq_ok.2 ⟨chunks, hchunks, rfl⟩⟩

/-- A measurement agrees with a descriptor that gives its size and its digest. -/
theorem agrees_iff {m : Measurement} {d : HashDescriptor} :
    m.agrees d = true ↔ m.size = d.imageSize ∧ m.digest = d.digest := by
  rw [agrees, Bool.and_eq_true, decide_eq_true_iff, decide_eq_true_iff]

/-- The measurement of data over `size` bytes, or over all there are. -/
def ofData (chunkSize : Int) (digest : Bytes → Bytes) (salt data : Bytes) (size : Int) :
    Measurement where
  size := min size data.length
  digest := digest (salt ++ payload chunkSize data size)

/-- What is measured: nothing for a digest that nobody knows, else bytes of the partition. -/
theorem take_eq_ok {suite : Suite} {store : Store} {chunkSize size : Int} {d : HashDescriptor}
    {m : Option Measurement} (h : take suite store chunkSize d size = .ok m) :
    (suite.named d.hashAlgorithm = .unsupported ∧ m = none) ∨
      ∃ digest data, suite.named d.hashAlgorithm = .plain digest ∧
        store.open? d.partitionName = .ok data ∧
        m = some (ofData chunkSize digest d.salt data size) := by
  unfold take at h
  cases hnamed : suite.named d.hashAlgorithm with
  | unsupported =>
    rw [hnamed] at h
    exact .inl ⟨rfl, (Except.ok.inj h).symm⟩
  | extendable =>
    rw [hnamed] at h
    obtain ⟨data, -, h₁⟩ := Outcome.bind_eq_ok.1 h
    obtain ⟨payload, -, h₂⟩ := Outcome.bind_eq_ok.1 h₁
    cases h₂
  | plain digest =>
    rw [hnamed] at h
    obtain ⟨data, hdata, h₁⟩ := Outcome.bind_eq_ok.1 h
    obtain ⟨bytes, hbytes, h₂⟩ := Outcome.bind_eq_ok.1 h₁
    obtain ⟨value, hvalue, h₃⟩ := Outcome.bind_eq_ok.1 h₂
    obtain rfl := Except.ok.inj hvalue
    -- The size is cut to that of the data before the loop, so the loop reads all that is left of
    -- it.
    obtain rfl := read_eq_ok (Int.min_le_right _ _) hbytes
    obtain rfl := Except.ok.inj h₃
    refine .inr ⟨digest, data, rfl, hdata, ?_⟩
    rw [payload_min]
    rfl

/-- A partition can be measured if its digest has a length of its own. -/
theorem exists_take {suite : Suite} {store : Store} {chunkSize : Int} {d : HashDescriptor}
    {data : Bytes} (hchunk : 1 ≤ chunkSize) (hdata : store.open? d.partitionName = .ok data)
    (hnamed : suite.named d.hashAlgorithm ≠ .extendable) (size : Int) :
    ∃ m, take suite store chunkSize d size = .ok m := by
  unfold take
  cases hname : suite.named d.hashAlgorithm with
  | unsupported => exact ⟨none, rfl⟩
  | extendable => exact absurd hname hnamed
  | plain digest =>
    obtain ⟨payload, hpayload⟩ := @exists_read d.partitionName chunkSize (min size data.length)
      data hchunk (Int.min_le_right _ _)
    exact ⟨_, Outcome.bind_eq_ok.2 ⟨data, hdata, Outcome.bind_eq_ok.2 ⟨payload, hpayload, rfl⟩⟩⟩

/-- What a digest with a length of its own measures of a partition that is there. -/
theorem take_of_plain {suite : Suite} {store : Store} {chunkSize : Int} {d : HashDescriptor}
    {data : Bytes} {digest : Bytes → Bytes} (hchunk : 1 ≤ chunkSize)
    (hdata : store.open? d.partitionName = .ok data)
    (hnamed : suite.named d.hashAlgorithm = .plain digest) (size : Int) :
    take suite store chunkSize d size = .ok (some (ofData chunkSize digest d.salt data size)) := by
  have hsized : suite.named d.hashAlgorithm ≠ .extendable := by
    rw [hnamed]
    exact nofun
  obtain ⟨m, hm⟩ := exists_take hchunk hdata hsized size
  rcases take_eq_ok hm with ⟨hnone, -⟩ | ⟨digest', data', hnamed', hdata', rfl⟩
  · cases hnamed.symm.trans hnone
  · obtain rfl := NamedDigest.plain.inj (hnamed.symm.trans hnamed')
    obtain rfl := Outcome.ok_unique hdata hdata'
    exact hm

end Measurement

end VerifiedBoot
