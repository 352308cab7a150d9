import VerifiedBoot.Proofs.Walk.Consistency

/-!
# The size of the chunks does not matter

A partition is read for its digest in chunks, and the digest is fed chunk by chunk. The loop reads
just the bytes that are wanted and there, in no more rounds than that takes, and never comes to an
end of the partition that it did not expect. So a measurement is the one that reads everything at
once, and two verifications that differ in nothing but the size of their chunks find the same.

* `exists_chunked`: the rounds of the loop.
* `take_eq_atOnce`: a measurement in chunks of at least one byte is the measurement at once.
* `verify_streamed`: chunks of two sizes, in a whole verification.
-/

namespace VerifiedBoot

/-- A digest that is computed of data that arrive piece by piece. -/
structure Hasher where
  State : Type
  start : State
  update : State → Bytes → State
  finish : State → Bytes

namespace Hasher

variable {hasher : Hasher}

/-- Whether it makes no difference to feed two pieces or to feed them joined. -/
def Joins (hasher : Hasher) : Prop :=
  ∀ s a b, hasher.update (hasher.update s a) b = hasher.update s (a ++ b)

/-- The digest of a message that is fed as a whole. -/
def digest (hasher : Hasher) (message : Bytes) : Bytes :=
  hasher.finish (hasher.update hasher.start message)

/-- The digest of a first piece and of chunks that are fed one after the other. -/
def digestChunks (hasher : Hasher) (first : Bytes) (chunks : List Bytes) : Bytes :=
  hasher.finish (chunks.foldl hasher.update (hasher.update hasher.start first))

/-- Chunks that are fed one after the other are fed joined. -/
theorem digestChunks_eq (h : hasher.Joins) (first : Bytes) (chunks : List Bytes) :
    hasher.digestChunks first chunks = hasher.digest (first ++ chunks.flatten) := by
  induction chunks generalizing first with
  | nil => rw [List.flatten_nil, List.append_nil, digestChunks, List.foldl_nil, digest]
  | cons chunk chunks ih =>
    rw [List.flatten_cons, ← List.append_assoc, ← ih, digestChunks, List.foldl_cons, h]
    rfl

/-- A digest that keeps its message until the end. -/
def buffered (digest : Bytes → Bytes) : Hasher :=
  ⟨Bytes, [], (· ++ ·), digest⟩

/-- What is kept until the end is joined before. -/
theorem joins_buffered (digest : Bytes → Bytes) : (buffered digest).Joins :=
  List.append_assoc

@[simp]
theorem digest_buffered (digest : Bytes → Bytes) (message : Bytes) :
    (buffered digest).digest message = digest message :=
  rfl

end Hasher

namespace Measurement

/-- Whether data are cut into chunks: none is empty or larger than the size of a chunk, and there is
none that could be spared. -/
structure Chunked (chunkSize : Int) (data : Bytes) (chunks : List Bytes) : Prop where
  flatten : chunks.flatten = data
  bounds : ∀ chunk ∈ chunks, 0 < chunk.length ∧ (chunk.length : Int) ≤ chunkSize
  fewest : chunks.length * chunkSize < data.length + chunkSize

variable {partition : String} {chunkSize remaining : Int} {data : Bytes}

theorem Chunked.nil (hchunk : 1 ≤ chunkSize) : Chunked chunkSize [] [] :=
  ⟨rfl, nofun, by simp; omega⟩

/-- A chunk that is as large as it may be, or the last one. -/
theorem Chunked.cons {chunk rest : Bytes} {chunks : List Bytes} (h : Chunked chunkSize rest chunks)
    (hpos : 0 < chunk.length) (hle : (chunk.length : Int) ≤ chunkSize)
    (hfull : (chunk.length : Int) = chunkSize ∨ rest = []) :
    Chunked chunkSize (chunk ++ rest) (chunk :: chunks) := by
  refine ⟨by rw [List.flatten_cons, h.flatten], ?_, ?_⟩
  · exact List.forall_mem_cons.2 ⟨⟨hpos, hle⟩, h.bounds⟩
  · have hfewest := h.fewest
    rw [List.length_cons, List.length_append, Int.natCast_succ, Int.add_mul, Int.one_mul]
    rcases hfull with hfull | rfl
    · omega
    · -- Chunks that are not empty make up nothing only if there are none.
      have hnone : chunks = [] := by
        cases chunks with
        | nil => rfl
        | cons next chunks =>
          have hnext := (h.bounds next List.mem_cons_self).1
          have hempty := (List.append_eq_nil_iff.1 (List.flatten_cons ▸ h.flatten)).1
          rw [hempty] at hnext
          cases hnext
      rw [hnone]
      simp
      omega

/-- **The rounds of the loop.** Every read returns something as long as something is wanted, so the
loop ends, with the chunks of the wanted bytes. -/
theorem exists_chunked {chunks : List Bytes} (hchunk : 1 ≤ chunkSize)
    (hlength : remaining ≤ data.length) :
    ∃ read, readChunks partition chunkSize remaining data chunks = .ok (read.reverse ++ chunks) ∧
      Chunked chunkSize (data.take remaining.toNat) read := by
  fun_induction readChunks partition chunkSize remaining data chunks with
  | case1 remaining data chunks hdone =>
    refine ⟨[], rfl, ?_⟩
    rw [Int.toNat_of_nonpos hdone, List.take_zero]
    exact .nil hchunk
  | case2 remaining data chunks hmore hrange => omega
  -- A read that returns nothing would need a chunk of size zero or data that has run out.
  | case3 remaining data chunks hmore hrange hread =>
    unfold readSize at hread
    split at hread <;> omega
  | case4 remaining data chunks hmore hrange hread size ih =>
    have hsize : (size : Int) = min chunkSize remaining := by
      show (readSize chunkSize remaining data.length : Int) = _
      unfold readSize
      rw [if_neg (by omega)]
      omega
    have hhead : (data.take size).length = size := List.length_take_of_le (by omega)
    obtain ⟨read, hread, hchunked⟩ := ih (by rw [List.length_drop]; omega)
    refine ⟨data.take size :: read, ?_, ?_⟩
    · rw [hread, List.reverse_cons, List.append_assoc]
      rfl
    · have hsplit : remaining.toNat = size + (remaining - size).toNat := by omega
      rw [hsplit, List.take_add]
      refine hchunked.cons (by omega) (by omega) ?_
      -- A chunk is full unless it is the last one.
      by_cases hlast : remaining ≤ chunkSize
      · right
        rw [Int.toNat_of_nonpos (by omega), List.take_zero]
      · left
        omega

/-- The first bytes are read in chunks of at least one byte. -/
theorem read_eq_take (hchunk : 1 ≤ chunkSize) (hlength : remaining ≤ data.length) :
    read partition chunkSize remaining data = .ok (data.take remaining.toNat) := by
  obtain ⟨chunks, hread, hchunked⟩ :=
    @exists_chunked partition chunkSize remaining data [] hchunk hlength
  refine Outcome.bind_eq_ok.2 ⟨_, hread, ?_⟩
  rw [List.append_nil, List.reverse_reverse, hchunked.flatten]
  rfl

/-- A measurement that reads the first bytes of a partition at once. -/
def atOnce (suite : Suite) (store : Store) (d : HashDescriptor) (size : Int) :
    Except Error (Option Measurement) :=
  match suite.named d.hashAlgorithm with
  | .unsupported => .ok none
  | .extendable => do
    let _ ← store.open? d.partitionName
    throw (.digestUnsized d.hashAlgorithm)
  | .plain digest => do
    let data ← store.open? d.partitionName
    let size := min size data.length
    return some { size, digest := digest (d.salt ++ data.take size.toNat) }

/-- A measurement in chunks of at least one byte is the one at once. -/
theorem take_eq_atOnce {suite : Suite} {store : Store} (hchunk : 1 ≤ chunkSize) (d : HashDescriptor)
    (size : Int) : take suite store chunkSize d size = atOnce suite store d size := by
  have hread (data : Bytes) : read d.partitionName chunkSize (min size data.length) data =
      .ok (data.take (min size data.length).toNat) :=
    read_eq_take hchunk (Int.min_le_right _ _)
  unfold take atOnce
  cases suite.named d.hashAlgorithm with
  | unsupported => rfl
  | extendable =>
    simp only [hread]
    rfl
  | plain digest =>
    simp only [hread]
    rfl

end Measurement

namespace Verifier

section Sizes

variable {suite : Suite} {store : Store} {c₁ c₂ : Int}

/-- A hash is checked alike in chunks of two sizes. -/
theorem checkHashDescriptor_streamed (h₁ : 1 ≤ c₁) (h₂ : 1 ≤ c₂) (p : Pending) (d : HashDescriptor)
    (f : Findings) : checkHashDescriptor ⟨suite, c₁⟩ store p d f =
      checkHashDescriptor ⟨suite, c₂⟩ store p d f := by
  have hcheck : checkHash ⟨suite, c₁⟩ store = checkHash ⟨suite, c₂⟩ store := by
    funext holder index d size f
    unfold checkHash
    rw [Measurement.take_eq_atOnce h₁, Measurement.take_eq_atOnce h₂]
  unfold checkHashDescriptor
  rw [hcheck]

/-- A walk goes the same way in chunks of two sizes, as they matter for hashes only. -/
theorem walk_streamed (h₁ : 1 ≤ c₁) (h₂ : 1 ≤ c₂) (unvisited : List String) (agenda : List Pending)
    (f : Findings) :
    walk ⟨suite, c₁⟩ store unvisited agenda f = walk ⟨suite, c₂⟩ store unvisited agenda f := by
  have hhash := @checkHashDescriptor_streamed suite store c₁ c₂ h₁ h₂
  have hchain : checkChainDescriptor ⟨suite, c₁⟩ store = checkChainDescriptor ⟨suite, c₂⟩ store :=
    rfl
  have henter : enter ⟨suite, c₁⟩ store = enter ⟨suite, c₂⟩ store := rfl
  fun_induction walk ⟨suite, c₁⟩ store unvisited agenda f with
  | case1 unvisited f => exact walk_nil.symm
  | case2 unvisited f p rest d hd e hcheck =>
    rw [hhash] at hcheck
    rw [walk, hd]
    simp only [hcheck]
  | case3 unvisited f p rest d hd f₁ hcheck ih =>
    rw [hhash] at hcheck
    rw [ih, walk_of_hash hd hcheck]
  | case4 unvisited f p rest d hd e hcheck =>
    rw [hchain] at hcheck
    rw [walk, hd]
    simp only [hcheck]
  | case5 unvisited f p rest d hd f₁ hmem e hfailed hcheck =>
    rw [hchain] at hcheck
    rw [henter] at hfailed
    rw [walk, hd]
    simp only [hcheck, hfailed, if_pos hmem, if_true]
  | case6 unvisited f p rest d hd f₁ hmem next f₂ hentered hcheck ih =>
    rw [hchain] at hcheck
    rw [henter] at hentered
    rw [ih, walk_of_chain hd hcheck hmem hentered]
  | case7 unvisited f p rest d hd f₁ hmem hcheck ih =>
    rw [hchain] at hcheck
    rw [ih, walk_of_chain_entered hd hcheck hmem]
  | case8 unvisited f p rest d hd readable f₁ hcheck hread ih =>
    rw [hchain] at hcheck
    rw [ih, walk, hd]
    simp only [hcheck, if_neg hread]
  | case9 unvisited f p rest hhash' hchain' ih => rw [ih, walk_of_other hhash' hchain']

end Sizes

/-- **The size of the chunks does not matter.** With chunks of any two sizes of at least one byte a
verification has the same result or the same error. Each measurement is the digest of the salt and
the first bytes of the partition, as many as are wanted and there. The loop that reads them ends,
and does not meet an end of the partition that it did not expect; a digest to which it is all the
same whether pieces are joined comes out as that of the salt and all wanted bytes. -/
theorem verify_streamed {suite : Suite} {store : Store} {root : String} {c₁ c₂ : Int}
    (h₁ : 1 ≤ c₁) (h₂ : 1 ≤ c₂) :
    verify ⟨suite, c₁⟩ store root = verify ⟨suite, c₂⟩ store root ∧
    (∀ d size, Measurement.take suite store c₁ d size = Measurement.atOnce suite store d size) ∧
    ∀ (partition : String) (size : Int) (data : Bytes), size ≤ data.length →
      ∃ chunks, Measurement.readChunks partition c₁ size data [] = .ok chunks ∧
        Measurement.Chunked c₁ (data.take size.toNat) chunks.reverse ∧
        ∀ (hasher : Hasher) (salt : Bytes), hasher.Joins →
          hasher.digestChunks salt chunks.reverse =
            hasher.digest (salt ++ data.take size.toNat) := by
  refine ⟨?_, Measurement.take_eq_atOnce h₁, fun partition size data hsize => ?_⟩
  · have hwalk := @walk_streamed suite store c₁ c₂ h₁ h₂
    have henter : enter ⟨suite, c₁⟩ store = enter ⟨suite, c₂⟩ store := rfl
    have hrecord : recordOf? ⟨suite, c₁⟩ store = recordOf? ⟨suite, c₂⟩ store := rfl
    simp only [verify, henter, hrecord, hwalk]
  · obtain ⟨read, hread, hchunked⟩ :=
      @Measurement.exists_chunked partition c₁ size data [] h₁ hsize
    rw [List.append_nil] at hread
    refine ⟨read.reverse, hread, ?_, fun hasher salt hjoins => ?_⟩
    · rw [List.reverse_reverse]
      exact hchunked
    · rw [List.reverse_reverse, Hasher.digestChunks_eq hjoins, hchunked.flatten]

/-- The store with one hash is verified byte by byte as it is in chunks of the usual size, and three
bytes of its partition are read in chunks of two. -/
theorem verify_streamed_hashedStore :
    (∃ found, verify ⟨.standard, 1⟩ hashedStore "vbmeta" = .ok found ∧
      verify ⟨.standard, defaultChunkSize⟩ hashedStore "vbmeta" = .ok found ∧
      found.issues = []) ∧
    ∃ chunks, Measurement.readChunks "boot" 2 3 [1, 2, 3, 4] [] = .ok chunks ∧
      Measurement.Chunked 2 [1, 2, 3] chunks.reverse ∧
      (Hasher.buffered Digest.Sha256.sha256).digestChunks [9] chunks.reverse =
        Digest.Sha256.sha256 [9, 1, 2, 3] := by
  constructor
  · obtain ⟨found, hfound, hissues⟩ := consistent_hashedStore.verify (by decide)
    obtain ⟨hsame, -, -⟩ := @verify_streamed .standard hashedStore "vbmeta" 1 defaultChunkSize
      (by decide) (by decide)
    exact ⟨found, hsame.trans hfound, hfound, hissues⟩
  · obtain ⟨-, -, hread⟩ := @verify_streamed .standard hashedStore "vbmeta" 2 defaultChunkSize
      (by decide) (by decide)
    obtain ⟨chunks, hchunks, hchunked, hdigest⟩ := hread "boot" 3 [1, 2, 3, 4] (by decide)
    refine ⟨chunks, hchunks, hchunked, ?_⟩
    rw [hdigest _ [9] (Hasher.joins_buffered _), Hasher.digest_buffered]
    congr 1

end Verifier

end VerifiedBoot
