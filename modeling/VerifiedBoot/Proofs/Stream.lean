import VerifiedBoot.Bytes.Stream

/-!
# A stream does not show how it is cut

Bytes arrive in pieces of any length, and one read returns a part of one piece at most. Whoever
wants a number of bytes has to read until there are as many. The loop that does so is described here
by what one read does, apart from the function that computes its result. A read may be short, so
there are many ways through the loop.

All of them lead to the same bytes, the first ones in front of the end of the stream. The end is
where a read returns nothing: behind the last piece, or at an empty one.

* `available`: the bytes in front of the end, which do not depend on how they are cut.
* `Reading.Sound`: what every round of the loop keeps.
* `Exact`: what it comes to that a number of bytes is read.
* `readFully_exact`: all ways through the loop, and the function.
-/

namespace VerifiedBoot

namespace Stream

variable {n : Nat} {size : Int} {piece data : Bytes} {pieces rest left : List Bytes}
  {outcome : Except Error (Bytes × List Bytes)}

/-! ### The end of a stream -/

/-- The bytes in front of the end of a stream: its pieces up to the first empty one, joined. -/
def available (pieces : List Bytes) : Bytes :=
  (pieces.takeWhile (!·.isEmpty)).flatten

/-- What a stream holds from its end on: the first empty piece and those that follow it. -/
def behind (pieces : List Bytes) : List Bytes :=
  pieces.dropWhile (!·.isEmpty)

@[simp] theorem available_nil : available [] = [] :=
  rfl

/-- An empty piece is the end. -/
@[simp] theorem available_empty (rest : List Bytes) : available ([] :: rest) = [] :=
  rfl

theorem available_cons (h : piece ≠ []) : available (piece :: rest) = piece ++ available rest := by
  rw [available, List.takeWhile_cons_of_pos (by simpa using h), List.flatten_cons, available]

theorem behind_cons (h : piece ≠ []) : behind (piece :: rest) = behind rest := by
  rw [behind, List.dropWhile_cons_of_pos (by simpa using h), behind]

@[simp] theorem available_singleton (piece : Bytes) : available [piece] = piece := by
  by_cases h : piece = []
  · rw [h, available_empty]
  · rw [available_cons h, available_nil, List.append_nil]

theorem available_append_behind (pieces : List Bytes) :
    available pieces ++ (behind pieces).flatten = pieces.flatten := by
  rw [available, behind, ← List.flatten_append, List.takeWhile_append_dropWhile]

/-! ### The loop -/

/-- One read of at most `n` bytes, with what it returns and what is left of the stream. It returns
the next piece, or a part of it and keeps the rest as the next piece; it returns nothing only at the
end. -/
inductive Read (n : Nat) : List Bytes → Bytes → List Bytes → Prop
  | none : Read n [] [] []
  | empty {rest : List Bytes} : Read n ([] :: rest) [] ([] :: rest)
  | whole {piece : Bytes} {rest : List Bytes} (hpiece : piece ≠ []) (hlength : piece.length ≤ n) :
      Read n (piece :: rest) piece rest
  | part {data kept : Bytes} {rest : List Bytes} (hdata : data ≠ []) (hkept : kept ≠ [])
      (hlength : data.length ≤ n) : Read n ((data ++ kept) :: rest) data (kept :: rest)

/-- The loop under way: the chunks that were read, how many bytes are still wanted, and what is left
of the stream. -/
structure Reading where
  chunks : List Bytes
  remaining : Int
  pieces : List Bytes

namespace Reading

/-- The loop in front of its first round. -/
def start (size : Int) (pieces : List Bytes) : Reading :=
  ⟨[], size, pieces⟩

/-- One round: bytes are wanted, and a read of at most as many returns some. -/
inductive Step : Reading → Reading → Prop
  | read {r : Reading} {data : Bytes} {left : List Bytes} (hwanted : 0 < r.remaining)
      (hread : Read r.remaining.toNat r.pieces data left) (hdata : data ≠ []) :
      Step r ⟨r.chunks ++ [data], r.remaining - data.length, left⟩

/-- A number of rounds, one after the other. -/
inductive Steps : Nat → Reading → Reading → Prop
  | refl (r : Reading) : Steps 0 r r
  | head {n : Nat} {r s t : Reading} : Step r s → Steps n s t → Steps (n + 1) r t

/-- How the loop comes to an end: no more bytes are wanted, or a read returns nothing. -/
inductive Ends : Reading → Except Error (Bytes × List Bytes) → Prop
  | done {r : Reading} (hdone : r.remaining ≤ 0) : Ends r (.ok (r.chunks.flatten, r.pieces))
  | ended {r : Reading} {left : List Bytes} (hwanted : 0 < r.remaining)
      (hread : Read r.remaining.toNat r.pieces [] left) :
      Ends r (.error (.streamEnded r.remaining))

end Reading

/-! ### What a read does -/

namespace Read

/-- From a piece that is longer than what is asked for, just as much may be read. -/
theorem take (hn : 0 < n) (hlong : n < piece.length) :
    Read n (piece :: rest) (piece.take n) (piece.drop n :: rest) := by
  have hdata : piece.take n ≠ [] := by
    rw [← List.length_pos_iff, List.length_take]
    omega
  have hkept : piece.drop n ≠ [] := by
    rw [← List.length_pos_iff, List.length_drop]
    omega
  have hread := @Read.part n _ _ rest hdata hkept (List.length_take_le n piece)
  rw [List.take_append_drop] at hread
  exact hread

/-- Whatever is left, there is a read. -/
theorem exists_of_pos (hn : 0 < n) (pieces : List Bytes) :
    ∃ data left, Read n pieces data left := by
  cases pieces with
  | nil => exact ⟨_, _, .none⟩
  | cons piece rest =>
    by_cases hpiece : piece = []
    · subst hpiece
      exact ⟨_, _, .empty⟩
    · by_cases hlength : piece.length ≤ n
      · exact ⟨_, _, .whole hpiece hlength⟩
      · exact ⟨_, _, take hn (Nat.not_le.1 hlength)⟩

theorem length_le (h : Read n pieces data left) : data.length ≤ n := by
  cases h with
  | none | empty => exact Nat.zero_le n
  | whole _ hlength | part _ _ hlength => exact hlength

/-- What a read returns was in front of what is left, and on this side of the end. -/
theorem append_available (h : Read n pieces data left) :
    data ++ available left = available pieces := by
  cases h with
  | none | empty => rfl
  | whole hpiece => rw [available_cons hpiece]
  | part hdata hkept =>
    have hpiece := List.append_ne_nil_of_left_ne_nil hdata
    rw [available_cons hkept, available_cons (hpiece _), List.append_assoc]

/-- What follows the end is left alone. -/
theorem behind_eq (h : Read n pieces data left) : behind left = behind pieces := by
  cases h with
  | none | empty => rfl
  | whole hpiece => rw [behind_cons hpiece]
  | part hdata hkept =>
    have hpiece := List.append_ne_nil_of_left_ne_nil hdata
    rw [behind_cons hkept, behind_cons (hpiece _)]

/-- Nothing is returned only where nothing is in front of the end. -/
theorem available_eq_nil (h : Read n pieces [] left) : available pieces = [] := by
  cases h with
  | none | empty => rfl
  | whole hpiece => exact absurd rfl hpiece
  | part hdata => exact absurd rfl hdata

end Read

/-! ### What a round keeps -/

namespace Reading

variable {r s t : Reading}

/-- The loop on its way, for the size and the stream that it started with. -/
structure Sound (size : Int) (pieces : List Bytes) (r : Reading) : Prop where
  /-- What was read and what is still there make up the bytes in front of the end. -/
  append_available : r.chunks.flatten ++ available r.pieces = available pieces
  /-- What follows the end is as it was. -/
  behind_eq : behind r.pieces = behind pieces
  /-- What was read and what is wanted make up the size. -/
  length_add_remaining : r.chunks.flatten.length + r.remaining = size
  /-- No more is read than is wanted. -/
  remaining_nonneg : 0 < size → 0 ≤ r.remaining
  /-- If nothing is wanted, nothing is done. -/
  eq_start : size ≤ 0 → r = start size pieces

/-- In front of the first round all bytes are still there. -/
theorem sound_start (size : Int) (pieces : List Bytes) : Sound size pieces (start size pieces) where
  append_available := rfl
  behind_eq := rfl
  length_add_remaining := Int.zero_add size
  remaining_nonneg := Int.le_of_lt
  eq_start _ := rfl

/-- A round moves bytes from the stream to the chunks. -/
theorem Sound.step (h : Sound size pieces r) (hstep : Step r s) : Sound size pieces s := by
  cases hstep with
  | @read data left hwanted hread hdata =>
    have hlength := hread.length_le
    refine ⟨?_, ?_, ?_, fun _ => ?_, fun hsize => ?_⟩
    · rw [List.flatten_concat, List.append_assoc, hread.append_available, h.append_available]
    · rw [hread.behind_eq, h.behind_eq]
    · have hsum := h.length_add_remaining
      show (r.chunks ++ [data]).flatten.length + (r.remaining - data.length) = size
      rw [List.flatten_concat, List.length_append]
      omega
    · show 0 ≤ r.remaining - data.length
      omega
    · rw [h.eq_start hsize] at hwanted
      exact absurd hsize (Int.not_le.2 hwanted)

/-- So does a number of rounds. -/
theorem Sound.steps (h : Sound size pieces r) (hsteps : Steps n r s) : Sound size pieces s := by
  induction hsteps with
  | refl r => exact h
  | head hstep _ ih => exact ih (h.step hstep)

/-- A round reads at least one of the bytes that are wanted. -/
theorem Step.remaining_lt (h : Step r s) : s.remaining.toNat < r.remaining.toNat := by
  cases h with
  | @read data left hwanted hread hdata =>
    have hpos := List.length_pos_iff.2 hdata
    show (r.remaining - data.length).toNat < r.remaining.toNat
    omega

/-- So there is a bound to the number of rounds, on whatever stream. -/
theorem Steps.le_remaining (h : Steps n r s) : n + s.remaining.toNat ≤ r.remaining.toNat := by
  induction h with
  | refl r => exact Nat.le_of_eq (Nat.zero_add _)
  | head hstep _ ih =>
    have hlt := hstep.remaining_lt
    omega

/-- The loop goes on until it ends. -/
theorem exists_step_or_ends (r : Reading) : (∃ s, Step r s) ∨ ∃ outcome, Ends r outcome := by
  by_cases hwanted : 0 < r.remaining
  · obtain ⟨data, left, hread⟩ := Read.exists_of_pos (Int.lt_toNat.2 hwanted) r.pieces
    by_cases hdata : data = []
    · subst hdata
      exact .inr ⟨_, .ended hwanted hread⟩
    · exact .inl ⟨_, .read hwanted hread hdata⟩
  · exact .inr ⟨_, .done (Int.not_lt.1 hwanted)⟩

end Reading

/-! ### What reading comes to -/

/-- What it comes to that `size` bytes of a stream are read. -/
structure Exact (size : Int) (pieces : List Bytes) (outcome : Except Error (Bytes × List Bytes)) :
    Prop where
  /-- No bytes at all are read without touching the stream. -/
  nothing : size ≤ 0 → outcome = .ok ([], pieces)
  /-- As many bytes as there are in front of the end are read, and the others are left. -/
  whole : 0 < size → size ≤ (available pieces).length → ∃ left,
    outcome = .ok ((available pieces).take size.toNat, left) ∧
      available left = (available pieces).drop size.toNat ∧ behind left = behind pieces
  /-- More bytes are not read, and it is said how many are missing. -/
  short : (available pieces).length < size →
    outcome = .error (.streamEnded (size - (available pieces).length))

/-- The loop comes to this, however it ends. -/
theorem Reading.Sound.exact {r : Reading} (h : r.Sound size pieces) (hends : r.Ends outcome) :
    Exact size pieces outcome := by
  have hsum := h.length_add_remaining
  cases hends with
  | done hdone =>
    have hlength : 0 < size → r.chunks.flatten.length = size.toNat := fun hsize => by
      have := h.remaining_nonneg hsize
      omega
    refine ⟨fun hsize => ?_, fun hsize _ => ⟨r.pieces, ?_, ?_, h.behind_eq⟩, fun hshort => ?_⟩
    · rw [h.eq_start hsize]
      rfl
    · rw [← h.append_available, List.take_left' (hlength hsize)]
    · rw [← h.append_available, List.drop_left' (hlength hsize)]
    · rw [← h.append_available, List.length_append] at hshort
      omega
  | ended hwanted hread =>
    -- Nothing is left in front of the end, so all that was there has been read.
    have hall : r.chunks.flatten = available pieces := by
      rw [← h.append_available, hread.available_eq_nil, List.append_nil]
    rw [hall] at hsum
    refine ⟨fun hsize => ?_, fun _ hle => ?_, fun _ => ?_⟩
    · rw [h.eq_start hsize] at hwanted
      exact absurd hsize (Int.not_le.2 hwanted)
    · omega
    · rw [show size - (available pieces).length = r.remaining by omega]

/-- What is read, or that it is not, depends on the bytes in front of the end alone. -/
theorem Exact.map_fst (h : Exact size pieces outcome) : outcome.map Prod.fst =
    if size ≤ (available pieces).length then .ok ((available pieces).take size.toNat)
    else .error (.streamEnded (size - (available pieces).length)) := by
  split
  · next hle =>
    by_cases hsize : size ≤ 0
    · rw [h.nothing hsize, Int.toNat_of_nonpos hsize, List.take_zero]
      rfl
    · obtain ⟨left, houtcome, -⟩ := h.whole (Int.not_le.1 hsize) hle
      rw [houtcome]
      rfl
  · next hlt =>
    rw [h.short (Int.not_le.1 hlt)]
    rfl

/-! ### The function -/

/-- If no more bytes are wanted, nothing is added to the chunks. -/
theorem Reading.ends_of_nonpos (chunks pieces : List Bytes) (hsize : size ≤ 0) :
    Ends ⟨chunks, size, pieces⟩ (.ok (chunks.flatten ++ [], pieces)) := by
  rw [List.append_nil]
  exact .done hsize

/-- The function goes through the loop with reads that are not short, in no more rounds than there
are pieces. -/
theorem exists_run (chunks : List Bytes) (size : Int) (pieces : List Bytes) :
    ∃ n r, n ≤ pieces.length ∧ Reading.Steps n ⟨chunks, size, pieces⟩ r ∧
      r.Ends ((readFully size pieces).map fun read => (chunks.flatten ++ read.1, read.2)) := by
  fun_induction readFully size pieces generalizing chunks with
  | case1 size hsize => exact ⟨0, _, Nat.le_refl _, .refl _, Reading.ends_of_nonpos _ _ hsize⟩
  | case2 size hsize => exact ⟨0, _, Nat.le_refl _, .refl _, .ended (Int.not_le.1 hsize) .none⟩
  | case3 size piece rest hsize =>
    exact ⟨0, _, Nat.zero_le _, .refl _, Reading.ends_of_nonpos _ _ hsize⟩
  | case4 size piece rest hsize hempty =>
    obtain rfl := List.isEmpty_iff.1 hempty
    exact ⟨0, _, Nat.zero_le _, .refl _, .ended (Int.not_le.1 hsize) .empty⟩
  -- The piece holds all that is wanted: one read, and the loop is done.
  | case5 size piece rest hsize hempty hlong =>
    have hlength : ((piece.take size.toNat).length : Int) = size := by
      rw [List.length_take]
      omega
    have hdata : piece.take size.toNat ≠ [] := by
      rw [← List.length_pos_iff]
      omega
    have hread := @Read.take size.toNat piece rest (by omega) (by omega)
    have hdone : Reading.Ends ⟨chunks ++ [piece.take size.toNat],
        size - (piece.take size.toNat).length, piece.drop size.toNat :: rest⟩
        (.ok (chunks.flatten ++ piece.take size.toNat, piece.drop size.toNat :: rest)) := by
      rw [← List.flatten_concat]
      exact .done (by show size - _ ≤ 0; omega)
    exact ⟨1, _, Nat.le_add_left _ _, .head (.read (Int.not_le.1 hsize) hread hdata) (.refl _),
      hdone⟩
  -- The whole piece is read, and the loop goes on with what follows it.
  | case6 size piece rest hsize hempty hshort ih =>
    have hpiece : piece ≠ [] := fun h => hempty (List.isEmpty_iff.2 h)
    have hread := @Read.whole size.toNat piece rest hpiece (by omega)
    obtain ⟨n, r, hn, hsteps, hends⟩ := ih (chunks ++ [piece])
    rw [List.flatten_concat] at hends
    refine ⟨n + 1, r, Nat.succ_le_succ hn, .head (.read (Int.not_le.1 hsize) hread hpiece) hsteps,
      ?_⟩
    cases hrest : readFully (size - piece.length) rest with
    | error e =>
      rw [hrest] at hends
      exact hends
    | ok read =>
      rw [hrest] at hends
      show r.Ends (.ok (chunks.flatten ++ (piece ++ read.1), read.2))
      rw [← List.append_assoc]
      exact hends

/-- The function comes to what the loop comes to. -/
theorem exists_run_start (size : Int) (pieces : List Bytes) :
    ∃ n r, n ≤ pieces.length ∧ Reading.Steps n (.start size pieces) r ∧
      r.Ends (readFully size pieces) := by
  obtain ⟨n, r, hn, hsteps, hends⟩ := exists_run [] size pieces
  have hsame : (readFully size pieces).map (fun read => (List.flatten [] ++ read.1, read.2)) =
      readFully size pieces := by
    cases readFully size pieces <;> rfl
  rw [hsame] at hends
  exact ⟨n, r, hn, hsteps, hends⟩

/-- It reads exactly the bytes that are wanted, or says how many are missing. -/
theorem exact_readFully (size : Int) (pieces : List Bytes) :
    Exact size pieces (readFully size pieces) := by
  obtain ⟨n, r, -, hsteps, hends⟩ := exists_run_start size pieces
  exact ((Reading.sound_start size pieces).steps hsteps).exact hends

/-- As many bytes as there are in front of the end can be read, and the others are left. -/
theorem exists_readFully (hsize : 0 ≤ size) (h : size ≤ (available pieces).length) : ∃ left,
    readFully size pieces = .ok ((available pieces).take size.toNat, left) ∧
      available left = (available pieces).drop size.toNat ∧ behind left = behind pieces := by
  by_cases hzero : size = 0
  · subst hzero
    exact ⟨pieces, (exact_readFully 0 pieces).nothing hsize, rfl, rfl⟩
  · exact (exact_readFully size pieces).whole (by omega) h

/-- The bytes at the head of a stream are read, if there is no end among them. -/
theorem readFully_append {head tail : Bytes} (h : available pieces = head ++ tail) :
    ∃ left, readFully head.length pieces = .ok (head, left) ∧ available left = tail := by
  have hlength : (head.length : Int) ≤ (available pieces).length := by
    rw [h, List.length_append]
    omega
  obtain ⟨left, hread, hleft, -⟩ := exists_readFully (Int.natCast_nonneg _) hlength
  rw [h, Int.toNat_natCast, List.take_left] at hread
  rw [h, Int.toNat_natCast, List.drop_left] at hleft
  exact ⟨left, hread, hleft⟩

/-- What was read has the wanted size, and is the stream together with what is left. -/
theorem append_of_readFully (h : readFully size pieces = .ok (data, left)) :
    data.length = size.toNat ∧ data ++ left.flatten = pieces.flatten := by
  have hexact := exact_readFully size pieces
  rw [h] at hexact
  by_cases hsize : size ≤ 0
  · obtain ⟨rfl, rfl⟩ := Prod.mk.inj (Except.ok.inj (hexact.nothing hsize))
    exact ⟨(Int.toNat_of_nonpos hsize).symm, rfl⟩
  · by_cases hle : size ≤ (available pieces).length
    · obtain ⟨left', hread, havailable, hbehind⟩ := hexact.whole (Int.not_le.1 hsize) hle
      obtain ⟨rfl, rfl⟩ := Prod.mk.inj (Except.ok.inj hread)
      refine ⟨List.length_take_of_le (Int.toNat_le.2 hle), ?_⟩
      rw [← available_append_behind left, havailable, hbehind, ← List.append_assoc,
        List.take_append_drop, available_append_behind]
    · cases hexact.short (Int.not_le.1 hle)

/-- A read from a single piece that is long enough. -/
theorem readFully_of_le {n : Nat} (h : n ≤ data.length) :
    ∃ left, readFully n [data] = .ok (data.take n, left) ∧ left.flatten = data.drop n := by
  have hdata : available [data] = data.take n ++ data.drop n := by
    rw [available_singleton, List.take_append_drop]
  obtain ⟨left, hread, -⟩ := readFully_append hdata
  rw [List.length_take_of_le h] at hread
  have hflat : data.take n ++ left.flatten = data.take n ++ data.drop n := by
    rw [(append_of_readFully hread).2, List.flatten_singleton, List.take_append_drop]
  exact ⟨left, hread, List.append_cancel_left hflat⟩

/-- A piece that is too short ends the stream. -/
theorem readFully_of_short (h : (data.length : Int) < size) :
    ∃ missing, readFully size [data] = .error (.streamEnded missing) :=
  ⟨_, (exact_readFully size [data]).short (by rwa [available_singleton])⟩

/-- **It does not matter how a stream is cut.** On every stream and for every size the loop ends,
after no more rounds than bytes are wanted. However short its reads are, it comes to this: nothing
is done if nothing is wanted; the first bytes in front of the end are read and the others left, if
there are as many; and otherwise it is said how many are missing. The function is one way through
the loop, and the text of its error has the missing number. Two streams with the same bytes in front
of their end give the same data, or fail alike. -/
theorem readFully_exact (size : Int) (pieces : List Bytes) :
    (∀ n r, Reading.Steps n (.start size pieces) r → n ≤ size.toNat ∧
      ((∃ s, r.Step s) ∨ ∃ outcome, r.Ends outcome) ∧
      ∀ outcome, r.Ends outcome → Exact size pieces outcome) ∧
    (∃ n r, n ≤ pieces.length ∧ Reading.Steps n (.start size pieces) r ∧
      r.Ends (readFully size pieces)) ∧
    Exact size pieces (readFully size pieces) ∧
    ((available pieces).length < size → (readFully size pieces).mapError Error.message =
      .error ("Unexpected end of stream (" ++ toString (size - (available pieces).length) ++
        " bytes missing)")) ∧
    ∀ others, available others = available pieces →
      (readFully size others).map Prod.fst = (readFully size pieces).map Prod.fst := by
  refine ⟨fun n r hsteps => ⟨?_, r.exists_step_or_ends, fun outcome hends => ?_⟩,
    exists_run_start size pieces, exact_readFully size pieces, fun hshort => ?_,
    fun others hsame => ?_⟩
  · have hle : n + r.remaining.toNat ≤ size.toNat := hsteps.le_remaining
    omega
  · exact ((Reading.sound_start size pieces).steps hsteps).exact hends
  · rw [(exact_readFully size pieces).short hshort]
    rfl
  · rw [(exact_readFully size others).map_fst, (exact_readFully size pieces).map_fst, hsame]

/-- Three bytes are wanted of a stream with two in front of its end. They are read one by one, and
then one is missing; the same is said if they were pieces of their own. Of the two that are there
one is read and the other left. -/
theorem readFully_exact_shortReads :
    Reading.Steps 2 (.start 3 [[1, 2], [], [3]]) ⟨[[1], [2]], 1, [[], [3]]⟩ ∧
    Reading.Ends ⟨[[1], [2]], 1, [[], [3]]⟩ (.error (.streamEnded 1)) ∧
    readFully 3 [[1, 2], [], [3]] = .error (.streamEnded 1) ∧
    (readFully 3 [[1, 2], [], [3]]).mapError Error.message =
      .error "Unexpected end of stream (1 bytes missing)" ∧
    (readFully 3 [[1], [2]]).map Prod.fst = .error (.streamEnded 1) ∧
    ∃ left, readFully 1 [[1, 2], [], [3]] = .ok ([1], left) ∧
      available left = [2] ∧ behind left = [[], [3]] := by
  have hsteps : Reading.Steps 2 (.start 3 [[1, 2], [], [3]]) ⟨[[1], [2]], 1, [[], [3]]⟩ := by
    have hfirst : Read 3 [[1, 2], [], [3]] [1] [[2], [], [3]] :=
      @Read.part 3 [1] [2] _ (by decide) (by decide) (by decide)
    have hsecond : Read 2 [[2], [], [3]] [2] [[], [3]] := .whole (by decide) (by decide)
    exact .head (.read (by decide) hfirst (by decide))
      (.head (.read (by decide) hsecond (by decide)) (.refl _))
  obtain ⟨hruns, -, hexact, hmessage, hsame⟩ := readFully_exact 3 [[1, 2], [], [3]]
  obtain ⟨-, -, hends⟩ := hruns _ _ hsteps
  have hended : Reading.Ends ⟨[[1], [2]], 1, [[], [3]]⟩ (.error (.streamEnded 1)) :=
    .ended (by decide) .empty
  have hshort := (hends _ hended).short (by decide)
  refine ⟨hsteps, hended, ?_, hmessage (by decide), ?_, ?_⟩
  · exact (hexact.short (by decide)).trans hshort.symm
  · rw [hsame [[1], [2]] (by decide), hexact.short (by decide)]
    rfl
  · exact (readFully_exact 1 [[1, 2], [], [3]]).2.2.1.whole (by decide) (by decide)

end Stream

end VerifiedBoot
