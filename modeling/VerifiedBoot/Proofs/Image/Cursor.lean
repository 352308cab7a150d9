import VerifiedBoot.Image.Parse
import VerifiedBoot.Proofs.Header
import VerifiedBoot.Proofs.Stream

/-!
# Where in a file an image is read

An image is read from a position of a file on, and its blocks are measured against the distance from
there to the end. Nothing in front of the position plays a part: what is read is what the bytes from
the position on begin with, and the position moves past just these bytes.

* `Header.extent`: the bytes that a header declares, its own included.
* `Image.blocks`: header and blocks at the head of some bytes, apart from any file.
* `Image.readBlocks_of_whole` and the three lemmas before it: every way the reader can end.
* `Image.read_eq`: a cursor in a file against the bytes that it stands in front of.
-/

namespace VerifiedBoot

/-- The bytes of an image with this header: the header itself and the two blocks behind it. -/
def Header.extent (header : Header) : Int :=
  Header.size + header.authenticationSize + header.auxiliarySize

/-- The blocks that a header declares have sizes that are not negative. -/
theorem Header.blocks_nonneg {data : Bytes} {header : Header} (h : decode data = .ok header) :
    0 ≤ header.authenticationSize ∧ 0 ≤ header.auxiliarySize := by
  obtain ⟨-, -, -, ⟨hfirst, -⟩, ⟨hsecond, -⟩, -⟩ := (inRange_of_decode h).holds
  exact ⟨hfirst, hsecond⟩

namespace Cursor

variable {c : Cursor} {n : Nat} {size : Int}

/-- Where bytes follow, their number is the distance to the end. -/
theorem left_eq (h : 0 < c.ahead.length) : c.left = c.ahead.length := by
  unfold ahead at h
  rw [List.length_drop] at h
  rw [left, ahead, List.length_drop]
  omega

/-- The distance to the end, behind bytes that were there. -/
theorem left_advance (hn : 0 < n) (h : n ≤ c.ahead.length) :
    (c.advance n).left = c.ahead.length - n := by
  have hleft := @left_eq c (by omega)
  unfold left at hleft
  simp only [left, advance, Int.natCast_add]
  omega

/-- As many bytes as follow can be read. -/
theorem readFully_of_le (hsize : 0 ≤ size) (h : size ≤ c.ahead.length) :
    c.readFully size = .ok (c.ahead.take size.toNat, c.advance size.toNat) := by
  obtain ⟨rest, hread, -⟩ := Stream.readFully_of_le (Int.toNat_le.2 h)
  rw [Int.toNat_of_nonneg hsize] at hread
  refine Outcome.bind_eq_ok.2 ⟨_, hread, ?_⟩
  change Except.ok (_, c.advance (c.ahead.take size.toNat).length) = _
  rw [List.length_take_of_le (Int.toNat_le.2 h)]

theorem readFully_of_short (h : c.ahead.length < size) :
    ∃ missing, c.readFully size = .error (.streamEnded missing) := by
  obtain ⟨missing, hread⟩ := Stream.readFully_of_short h
  exact ⟨missing, Outcome.bind_eq_error.2 (.inl hread)⟩

end Cursor

namespace Image

/-- The authentication block that a header declares in the data. -/
def authenticationIn (header : Header) (data : Bytes) : Bytes :=
  Bytes.slice data Header.size header.authenticationSize.toNat

/-- The auxiliary block that a header declares in the data. -/
def auxiliaryIn (header : Header) (data : Bytes) : Bytes :=
  Bytes.slice data (Header.size + header.authenticationSize.toNat) header.auxiliarySize.toNat

/-- Whether data is as long as a header declares. -/
def Whole (header : Header) (data : Bytes) : Prop :=
  Header.size + header.authenticationSize + header.auxiliarySize ≤ data.length

instance (header : Header) (data : Bytes) : Decidable (Whole header data) :=
  inferInstanceAs (Decidable (_ ≤ _))

/-- The header and the two blocks that data begins with. -/
def blocks (data : Bytes) : Except Error Blocks :=
  Prod.fst <$> readBlocks ⟨data, 0⟩

variable {suite : Suite} {c : Cursor} {header : Header} {e : Error}

/-! ### How the reader ends -/

/-- There may be too few bytes for a header. -/
theorem readBlocks_of_short (h : c.ahead.length < Header.size) :
    readBlocks c = .error (.malformed .headerLength) := by
  obtain ⟨missing, hread⟩ := @Cursor.readFully_of_short c Header.size (by omega)
  unfold readBlocks
  rw [hread]
  rfl

theorem readFully_header (h : Header.size ≤ c.ahead.length) :
    c.readFully Header.size = .ok (c.ahead.take Header.size, c.advance Header.size) :=
  Cursor.readFully_of_le (Int.natCast_nonneg _) (Int.ofNat_le.2 h)

/-- The bytes of a header may be none. -/
theorem readBlocks_of_decode_eq_error (hlength : Header.size ≤ c.ahead.length)
    (hheader : Header.decode (c.ahead.take Header.size) = .error e) :
    readBlocks c = .error e := by
  unfold readBlocks
  rw [readFully_header hlength]
  exact Outcome.bind_eq_error.2 (.inr ⟨_, rfl, Outcome.bind_eq_error.2 (.inl hheader)⟩)

/-- The blocks of the header may run past the end. -/
theorem readBlocks_of_not_whole (hlength : Header.size ≤ c.ahead.length)
    (hheader : Header.decode (c.ahead.take Header.size) = .ok header)
    (hcut : ¬Whole header c.ahead) : readBlocks c = .error (.malformed .blocksPastEnd) := by
  obtain ⟨algorithm, halgorithm⟩ := (Header.inRange_of_decode hheader).algorithm
  have hleft := Cursor.left_advance (show 0 < Header.size by decide) hlength
  have hpast : (c.advance Header.size).left < header.authenticationSize + header.auxiliarySize := by
    unfold Whole at hcut
    omega
  unfold readBlocks
  rw [readFully_header hlength]
  refine Outcome.bind_eq_error.2 (.inr ⟨_, rfl, Outcome.bind_eq_error.2 (.inr ⟨_, hheader, ?_⟩)⟩)
  refine Outcome.bind_eq_error.2 (.inr ⟨_, halgorithm, ?_⟩)
  simp only
  rw [if_pos hpast]
  rfl

/-- Otherwise header and blocks are read, and the cursor stands behind them. -/
theorem readBlocks_of_whole (hheader : Header.decode (c.ahead.take Header.size) = .ok header)
    (hwhole : Whole header c.ahead) : readBlocks c =
      .ok (⟨c.ahead.take Header.size, header, authenticationIn header c.ahead,
        auxiliaryIn header c.ahead⟩, c.advance header.extent.toNat) := by
  obtain ⟨algorithm, halgorithm⟩ := (Header.inRange_of_decode hheader).algorithm
  obtain ⟨hfirst, hsecond⟩ := Header.blocks_nonneg hheader
  unfold Whole at hwhole
  have hlength : Header.size ≤ c.ahead.length := by omega
  have hleft := Cursor.left_advance (show 0 < Header.size by decide) hlength
  have hauthentication := @Cursor.readFully_of_le (c.advance Header.size)
    header.authenticationSize hfirst (by rw [Cursor.ahead_advance, List.length_drop]; omega)
  have hauxiliary := @Cursor.readFully_of_le
    ((c.advance Header.size).advance header.authenticationSize.toNat) header.auxiliarySize hsecond
    (by rw [Cursor.advance_advance, Cursor.ahead_advance, List.length_drop]; omega)
  have hextent : header.extent.toNat =
      Header.size + header.authenticationSize.toNat + header.auxiliarySize.toNat := by
    unfold Header.extent
    omega
  -- Each reader starts where the one before it ended. Put together, the three starts are places in
  -- the data ahead of the first one.
  rw [Cursor.ahead_advance] at hauthentication
  rw [Cursor.advance_advance, Cursor.ahead_advance, Cursor.advance_advance] at hauxiliary
  rw [hextent]
  unfold readBlocks
  rw [readFully_header hlength]
  refine Outcome.bind_eq_ok.2 ⟨_, rfl, Outcome.bind_eq_ok.2 ⟨_, hheader, ?_⟩⟩
  refine Outcome.bind_eq_ok.2 ⟨_, halgorithm, Outcome.guard_eq_ok.2 ⟨by omega, ?_⟩⟩
  refine Outcome.bind_eq_ok.2 ⟨_, hauthentication, ?_⟩
  rw [Cursor.advance_advance]
  exact Outcome.bind_eq_ok.2 ⟨_, hauxiliary, rfl⟩

/-! ### Bytes apart from a file -/

theorem blocks_of_whole {data : Bytes}
    (hheader : Header.decode (data.take Header.size) = .ok header) (hwhole : Whole header data) :
    blocks data = .ok ⟨data.take Header.size, header, authenticationIn header data,
      auxiliaryIn header data⟩ := by
  rw [blocks, @readBlocks_of_whole ⟨data, 0⟩ header hheader hwhole]
  rfl

/-- Header and blocks that are read are those that stand in the data. -/
theorem blocks_eq_ok {data : Bytes} {b : Blocks} : blocks data = .ok b ↔
    Header.decode (data.take Header.size) = .ok b.header ∧ Whole b.header data ∧
      b = ⟨data.take Header.size, b.header, authenticationIn b.header data,
        auxiliaryIn b.header data⟩ := by
  constructor
  · intro h
    by_cases hshort : data.length < Header.size
    · rw [blocks, @readBlocks_of_short ⟨data, 0⟩ hshort] at h
      cases h
    cases hheader : Header.decode (data.take Header.size) with
    | error e =>
      rw [blocks, @readBlocks_of_decode_eq_error ⟨data, 0⟩ e (Nat.not_lt.1 hshort) hheader] at h
      cases h
    | ok header =>
      by_cases hwhole : Whole header data
      · rw [blocks_of_whole hheader hwhole] at h
        obtain rfl := Except.ok.inj h
        exact ⟨rfl, hwhole, rfl⟩
      · rw [blocks, @readBlocks_of_not_whole ⟨data, 0⟩ header (Nat.not_lt.1 hshort) hheader hwhole]
          at h
        cases h
  · rintro ⟨hheader, hwhole, hb⟩
    rw [blocks_of_whole hheader hwhole, ← hb]

/-- To read blocks at a cursor is to read them from the bytes that it stands in front of, and to
move past what their header declares. -/
theorem readBlocks_eq (c : Cursor) :
    readBlocks c = (fun b => (b, c.advance b.header.extent.toNat)) <$> blocks c.ahead := by
  have hahead : (Cursor.mk c.ahead 0).ahead = c.ahead := Cursor.ahead_start c.ahead
  unfold blocks
  -- The ways in which reading ends are told apart by the bytes ahead of the cursor alone.
  by_cases hshort : c.ahead.length < Header.size
  · rw [readBlocks_of_short hshort, readBlocks_of_short (hahead ▸ hshort)]
    rfl
  cases hheader : Header.decode (c.ahead.take Header.size) with
  | error e =>
    rw [readBlocks_of_decode_eq_error (Nat.not_lt.1 hshort) hheader,
      readBlocks_of_decode_eq_error (hahead ▸ Nat.not_lt.1 hshort) (hahead ▸ hheader)]
    rfl
  | ok header =>
    by_cases hwhole : Whole header c.ahead
    · rw [readBlocks_of_whole hheader hwhole,
        readBlocks_of_whole (hahead ▸ hheader) (hahead ▸ hwhole)]
      rfl
    · rw [readBlocks_of_not_whole (Nat.not_lt.1 hshort) hheader hwhole,
        readBlocks_of_not_whole (hahead ▸ Nat.not_lt.1 hshort) (hahead ▸ hheader) (hahead ▸ hwhole)]
      rfl

/-- The image of some bytes is the one that their blocks make up. -/
theorem parse_eq (suite : Suite) (data : Bytes) :
    parse suite data = blocks data >>= ofBlocks suite := by
  unfold parse parseAt read blocks
  cases readBlocks ⟨data, 0⟩ with
  | error e => rfl
  | ok read =>
    change Prod.fst <$> (ofBlocks suite read.1 >>= fun image => .ok (image, read.2)) =
      ofBlocks suite read.1
    cases ofBlocks suite read.1 <;> rfl

/-- An image has the header that it was read with. -/
theorem header_of_ofBlocks {b : Blocks} {image : Image} (h : ofBlocks suite b = .ok image) :
    image.header = b.header := by
  obtain ⟨_, -, h₁⟩ := Outcome.bind_eq_ok.1 h
  obtain ⟨_, -, h₂⟩ := Outcome.bind_eq_ok.1 h₁
  obtain ⟨_, -, h₃⟩ := Outcome.bind_eq_ok.1 h₂
  obtain ⟨_, -, h₄⟩ := Outcome.bind_eq_ok.1 h₃
  obtain ⟨_, -, h₅⟩ := Outcome.bind_eq_ok.1 h₄
  obtain ⟨_, -, h₆⟩ := Outcome.bind_eq_ok.1 h₅
  obtain ⟨_, -, h₇⟩ := Outcome.bind_eq_ok.1 h₆
  obtain rfl := Except.ok.inj h₇
  rfl

/-- **A cursor does not show in what is read.** The image at a cursor is the one that the bytes from
there on begin with, and the cursor moves past the bytes that its header declares. -/
theorem read_eq (suite : Suite) (c : Cursor) : read suite c =
    (fun image => (image, c.advance image.header.extent.toNat)) <$> parse suite c.ahead := by
  rw [parse_eq, read, readBlocks_eq]
  cases blocks c.ahead with
  | error e => rfl
  | ok b =>
    change (ofBlocks suite b >>= fun image => .ok (image, c.advance b.header.extent.toNat)) =
      _ <$> ofBlocks suite b
    cases hread : ofBlocks suite b with
    | error e => rfl
    | ok image =>
      rw [← header_of_ofBlocks hread]
      rfl

/-- The image at a position is the one that the bytes from there on begin with. -/
theorem parseAt_eq (suite : Suite) (file : Bytes) (position : Nat) :
    parseAt suite file position = parse suite (file.drop position) := by
  rw [parseAt, read_eq]
  change Prod.fst <$> _ <$> parse suite (file.drop position) = _
  cases parse suite (file.drop position) with
  | error e => rfl
  | ok image => rfl

end Image

end VerifiedBoot
