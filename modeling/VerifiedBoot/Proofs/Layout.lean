import Mathlib.Data.List.Induction
import VerifiedBoot.Bytes.Layout
import VerifiedBoot.Proofs.Outcome

/-!
# Rows are read back from their bytes

A number is read back from its big-endian bytes, and from that a row from the bytes of its layout,
whatever follows them. `Layout.Holds` says which rows have bytes that mean them: each word is in the
range of its field, and each block fills its field. Every row that was read is one of these.
-/

namespace VerifiedBoot

namespace Bytes

theorem toNat_concat (data : Bytes) (b : UInt8) :
    toNat (data ++ [b]) = toNat data * 256 + b.toNat := by
  simp [toNat, List.foldl_append]

theorem bigEndian_succ (width n : Nat) :
    bigEndian (width + 1) n = bigEndian width (n / 256) ++ [UInt8.ofNat n] := by
  simp [bigEndian, littleEndian]

theorem shiftLeft_succ (width : Nat) : 1 <<< (8 * (width + 1)) = (1 <<< (8 * width)) * 256 := by
  rw [Nat.mul_succ, Nat.shiftLeft_add, Nat.shiftLeft_eq]

/-- Bytes denote a number that they have room for. -/
theorem toNat_lt (data : Bytes) : toNat data < 1 <<< (8 * data.length) := by
  -- A byte more stands at the end, where the number is multiplied, so the last one is taken off.
  induction data using List.reverseRecOn with
  | nil => decide
  | append_singleton data b ih =>
    have hb : b.toNat < 256 := b.toNat_lt
    rw [toNat_concat, List.length_append, List.length_singleton, shiftLeft_succ]
    omega

/-- A number is read back from its bytes, up to what they have no room for. -/
theorem toNat_bigEndian (width n : Nat) :
    toNat (bigEndian width n) = n % (1 <<< (8 * width)) := by
  induction width generalizing n with
  | zero => simp [bigEndian, littleEndian, toNat, Nat.mod_one]
  | succ width ih =>
    have hlow : (UInt8.ofNat n).toNat = n % 256 := by simp
    rw [bigEndian_succ, toNat_concat, ih, hlow, shiftLeft_succ, Nat.mul_comm _ 256,
      Nat.mul_comm _ 256, Nat.mod_mul]
    omega

theorem toNat_bigEndian_of_lt {width n : Nat} (h : n < 1 <<< (8 * width)) :
    toNat (bigEndian width n) = n := by
  rw [toNat_bigEndian, Nat.mod_eq_of_lt h]

/-- Bytes are those of the number that they denote. -/
theorem bigEndian_toNat (data : Bytes) : bigEndian data.length (toNat data) = data := by
  induction data using List.reverseRecOn with
  | nil => rfl
  | append_singleton data b ih =>
    have hb : b.toNat < 256 := b.toNat_lt
    have hhigh : (toNat data * 256 + b.toNat) / 256 = toNat data := by omega
    have hlow : UInt8.ofNat (toNat data * 256 + b.toNat) = b := by
      apply UInt8.toNat_inj.1
      rw [UInt8.toNat_ofNat']
      omega
    rw [toNat_concat, List.length_append, List.length_singleton, bigEndian_succ, hhigh, hlow, ih]

theorem bigEndian_zero (width : Nat) : bigEndian width 0 = zeros width := by
  induction width with
  | zero => rfl
  | succ width ih =>
    rw [bigEndian_succ, Nat.zero_div, ih]
    exact List.replicate_succ'.symm

theorem toNat_zeros (count : Nat) : toNat (zeros count) = 0 := by
  rw [← bigEndian_zero, toNat_bigEndian, Nat.zero_mod]

end Bytes

namespace Field

/-- Whether the bytes of the field mean a value: a word has to be in range, and a block has to be
of the field's width. -/
def Holds : (field : Field) → field.Carrier → Prop
  | word width, (n : Int) => 0 ≤ n ∧ n < (1 <<< (8 * width) : Nat)
  | block width, (data : Bytes) => data.length = width

theorem exists_pack {field : Field} {value : field.Carrier} (h : field.Holds value) :
    ∃ data, field.pack value = .ok data := by
  cases field with
  | word width => exact ⟨_, if_pos h⟩
  | block width => exact ⟨_, rfl⟩

/-- What the field makes of a value: a block is cut or filled up to the field's width. -/
def fitted : (field : Field) → field.Carrier → field.Carrier
  | word _, (n : Int) => n
  | block width, (data : Bytes) => Bytes.fit width data

theorem fitted_of_holds {field : Field} {value : field.Carrier} (h : field.Holds value) :
    field.fitted value = value := by
  cases field with
  | word width => rfl
  | block width => exact Bytes.fit_of_length h

/-- A word that was packed is read back. -/
theorem toNat_of_pack_word {width : Nat} {n : Int} {data : Bytes}
    (h : pack (.word width) n = .ok data) : (Bytes.toNat data : Int) = n := by
  by_cases hn : 0 ≤ n ∧ n < (1 <<< (8 * width) : Nat)
  · obtain rfl := Outcome.ok_unique (if_pos hn) h
    have hlt : n.toNat < 1 <<< (8 * width) := by omega
    rw [Bytes.toNat_bigEndian_of_lt hlt, Int.toNat_of_nonneg hn.1]
  · cases (if_neg hn).symm.trans h

/-- A value that was packed is read back as the field fits it. -/
theorem read_pack {field : Field} {value : field.Carrier} {data : Bytes}
    (h : field.pack value = .ok data) : field.read data = field.fitted value := by
  cases field with
  | word width => exact toNat_of_pack_word h
  | block width => exact (Except.ok.inj h).symm

/-- What is read from bytes of the field's width is held by the field. -/
theorem holds_read {field : Field} {data : Bytes} (h : data.length = field.width) :
    field.Holds (field.read data) := by
  cases field with
  | word width =>
    have hlt := Bytes.toNat_lt data
    rw [show data.length = width from h] at hlt
    exact ⟨Int.natCast_nonneg _, Int.ofNat_lt.2 hlt⟩
  | block width => exact h

/-- Bytes of the field's width are those of what is read from them. -/
theorem pack_read {field : Field} {data : Bytes} (h : data.length = field.width) :
    field.pack (field.read data) = .ok data := by
  cases field with
  | word width =>
    have hwidth : data.length = width := h
    have hread : Holds (.word width) (read (.word width) data) := holds_read h
    subst hwidth
    exact (if_pos hread).trans (congrArg Except.ok (Bytes.bigEndian_toNat data))
  | block width => exact congrArg Except.ok (Bytes.fit_of_length h)

end Field

namespace Layout

/-- Whether the bytes of the layout mean a row: every field holds its value. -/
def Holds : (layout : Layout) → Row layout → Prop
  | [], _ => True
  | field :: rest, (value, values) => field.Holds value ∧ Holds rest values

/-- The fields of a row are packed one by one. -/
theorem pack_cons_eq_ok {field : Field} {rest : Layout} {value : field.Carrier} {values : Row rest}
    {data : Bytes} : pack (field :: rest) (value, values) = .ok data ↔
      ∃ head tail, field.pack value = .ok head ∧ pack rest values = .ok tail ∧
        data = head ++ tail := by
  constructor
  · intro h
    obtain ⟨head, hhead, h⟩ := Outcome.bind_eq_ok.1 h
    obtain ⟨tail, htail, h⟩ := Outcome.bind_eq_ok.1 h
    exact ⟨head, tail, hhead, htail, (Except.ok.inj h).symm⟩
  · rintro ⟨head, tail, hhead, htail, rfl⟩
    exact Outcome.bind_eq_ok.2 ⟨head, hhead, Outcome.bind_eq_ok.2 ⟨tail, htail, rfl⟩⟩

/-- A row that the layout holds has bytes. -/
theorem exists_pack {layout : Layout} {row : layout.Row} (h : layout.Holds row) :
    ∃ data, layout.pack row = .ok data := by
  induction layout with
  | nil => exact ⟨[], rfl⟩
  | cons field rest ih =>
    obtain ⟨value, values⟩ := row
    obtain ⟨head, hhead⟩ := Field.exists_pack h.1
    obtain ⟨tail, htail⟩ := ih h.2
    exact ⟨head ++ tail, pack_cons_eq_ok.2 ⟨head, tail, hhead, htail, rfl⟩⟩

/-- What the layout makes of a row: every block gets the width of its field. -/
def fitted : (layout : Layout) → Row layout → Row layout
  | [], _ => ()
  | field :: rest, (value, values) => (field.fitted value, fitted rest values)

/-- A row that the layout holds is left as it is. -/
theorem fitted_of_holds {layout : Layout} {row : layout.Row} (h : layout.Holds row) :
    layout.fitted row = row := by
  induction layout with
  | nil => rfl
  | cons field rest ih =>
    obtain ⟨value, values⟩ := row
    rw [fitted, Field.fitted_of_holds h.1, ih h.2]

/-- A row has bytes if the layout holds what it makes of the row. -/
theorem exists_pack_of_fitted {layout : Layout} {row : layout.Row}
    (h : layout.Holds (layout.fitted row)) : ∃ data, layout.pack row = .ok data := by
  induction layout with
  | nil => exact ⟨[], rfl⟩
  | cons field rest ih =>
    obtain ⟨value, values⟩ := row
    obtain ⟨hvalue, hvalues⟩ := h
    have hfield : ∃ head, field.pack value = .ok head := by
      cases field with
      | word width => exact Field.exists_pack hvalue
      | block width => exact ⟨_, rfl⟩
    obtain ⟨head, hhead⟩ := hfield
    obtain ⟨tail, htail⟩ := ih hvalues
    exact ⟨head ++ tail, pack_cons_eq_ok.2 ⟨head, tail, hhead, htail, rfl⟩⟩

/-- A row is read back from its bytes as the layout fits it, whatever follows them. -/
theorem read_pack {layout : Layout} {row : layout.Row} {data : Bytes}
    (h : layout.pack row = .ok data) (rest : Bytes) :
    layout.read (data ++ rest) = layout.fitted row := by
  induction layout generalizing data with
  | nil => rfl
  | cons field fields ih =>
    obtain ⟨value, values⟩ := row
    obtain ⟨head, tail, hhead, htail, rfl⟩ := pack_cons_eq_ok.1 h
    have hwidth : head.length = field.width := Field.length_pack hhead
    have htake : (head ++ tail ++ rest).take field.width = head := by
      rw [List.append_assoc, ← hwidth, List.take_left]
    have hdrop : (head ++ tail ++ rest).drop field.width = tail ++ rest := by
      rw [List.append_assoc, ← hwidth, List.drop_left]
    rw [read, htake, hdrop, Field.read_pack hhead, ih htail, fitted]

/-- A row is unpacked from its bytes as the layout fits it, whatever follows them. -/
theorem unpack_pack_fitted {layout : Layout} {row : layout.Row} {data : Bytes}
    (h : layout.pack row = .ok data) (rest : Bytes) :
    layout.unpack (data ++ rest) = .ok (layout.fitted row) := by
  have hlength : ¬(data ++ rest).length < layout.size := by
    rw [List.length_append, length_pack h]
    omega
  rw [unpack, if_neg hlength, read_pack h]

theorem unpack_pack {layout : Layout} {row : layout.Row} {data : Bytes}
    (h : layout.pack row = .ok data) (hrow : layout.Holds row) (rest : Bytes) :
    layout.unpack (data ++ rest) = .ok row := by
  rw [unpack_pack_fitted h, fitted_of_holds hrow]

/-- A row that was read is held by its layout. -/
theorem holds_read {layout : Layout} {data : Bytes} (h : layout.size ≤ data.length) :
    layout.Holds (layout.read data) := by
  induction layout generalizing data with
  | nil => trivial
  | cons field fields ih =>
    have hsize : field.width + size fields ≤ data.length := h
    refine ⟨Field.holds_read ?_, ih ?_⟩
    · rw [List.length_take]
      omega
    · rw [List.length_drop]
      omega

/-- The bytes that a row was read from are the bytes of the row. -/
theorem pack_read {layout : Layout} {data : Bytes} (h : data.length = layout.size) :
    layout.pack (layout.read data) = .ok data := by
  induction layout generalizing data with
  | nil => exact congrArg Except.ok (List.length_eq_zero_iff.1 h).symm
  | cons field fields ih =>
    have hsize : data.length = field.width + size fields := h
    have hhead : (data.take field.width).length = field.width := by
      rw [List.length_take]
      omega
    have htail : (data.drop field.width).length = size fields := by
      rw [List.length_drop]
      omega
    exact pack_cons_eq_ok.2 ⟨_, _, Field.pack_read hhead, ih htail,
      (List.take_append_drop field.width data).symm⟩

/-- To unpack is to read what is long enough. -/
theorem unpack_eq_ok {layout : Layout} {data : Bytes} {row : layout.Row} :
    layout.unpack data = .ok row ↔ layout.size ≤ data.length ∧ layout.read data = row := by
  unfold unpack
  split
  · next h => exact ⟨nofun, fun h' => absurd h'.1 (by omega)⟩
  · next h => exact ⟨fun h' => ⟨by omega, Except.ok.inj h'⟩, fun h' => congrArg Except.ok h'.2⟩

theorem holds_of_unpack {layout : Layout} {data : Bytes} {row : layout.Row}
    (h : layout.unpack data = .ok row) : layout.Holds row := by
  obtain ⟨hlength, rfl⟩ := unpack_eq_ok.1 h
  exact holds_read hlength

/-- A row that was packed is held by its layout if it is as the layout fits it. -/
theorem holds_of_pack {layout : Layout} {row : layout.Row} {data : Bytes}
    (h : layout.pack row = .ok data) (hrow : layout.fitted row = row) : layout.Holds row := by
  have hunpack := unpack_pack_fitted h []
  rw [hrow] at hunpack
  exact holds_of_unpack hunpack

end Layout

/-- A number passes the check of its sign bit exactly if it is below it. -/
theorem checkUnsigned_eq_ok {value n : Int} {bits : Nat} {field : String} (hbits : 1 ≤ bits)
    (hvalue : 0 ≤ value) :
    checkUnsigned value bits field = .ok n ↔ n = value ∧ value < (1 <<< (bits - 1) : Nat) := by
  have hwidth : ¬((bits : Int) < 1) := by omega
  -- The program shifts; what it tests is whether the value has the bit or a higher one.
  have hshift : value >>> ((bits : Int) - 1).toNat ≠ 0 ↔ ¬value < (1 <<< (bits - 1) : Nat) := by
    obtain ⟨m, rfl⟩ := Int.eq_ofNat_of_zero_le hvalue
    have hpos : 0 < 2 ^ (bits - 1) := Nat.two_pow_pos _
    rw [show ((bits : Int) - 1).toNat = bits - 1 by omega, Nat.one_shiftLeft]
    simp only [Int.ofNat_lt, ne_eq]
    rw [← Nat.div_eq_zero_iff_lt hpos, ← Nat.shiftRight_eq_div_pow]
    exact not_congr (Int.ofNat_inj (m := m >>> (bits - 1)) (n := 0))
  unfold checkUnsigned
  rw [if_neg hwidth]
  by_cases h : value < (1 <<< (bits - 1) : Nat)
  · rw [if_neg (not_not.2 h ∘ hshift.1)]
    exact ⟨fun h' => ⟨(Except.ok.inj h').symm, h⟩, fun h' => congrArg Except.ok h'.1.symm⟩
  · rw [if_pos (hshift.2 h)]
    exact ⟨nofun, fun h' => absurd h'.2 h⟩

/-- Named fields pass their checks exactly if each is below its sign bit. -/
theorem checkExtents_eq_ok {extents : List (String × Int)} (h : ∀ e ∈ extents, 0 ≤ e.2) :
    checkExtents extents = .ok () ↔ ∀ e ∈ extents, e.2 < (1 <<< 63 : Nat) := by
  induction extents with
  | nil => exact ⟨fun _ _ h => absurd h List.not_mem_nil, fun _ => rfl⟩
  | cons e rest ih =>
    have hrest := ih fun e he => h e (List.mem_cons_of_mem _ he)
    have hcheck (n : Int) : checkUnsigned e.2 64 e.1 = .ok n ↔ n = e.2 ∧ e.2 < (1 <<< 63 : Nat) :=
      checkUnsigned_eq_ok (by decide) (h e List.mem_cons_self)
    rw [List.forall_mem_cons, ← hrest]
    constructor
    · intro hok
      obtain ⟨n, hn, hok⟩ := Outcome.bind_eq_ok.1 hok
      exact ⟨((hcheck n).1 hn).2, hok⟩
    · rintro ⟨he, hok⟩
      exact Outcome.bind_eq_ok.2 ⟨e.2, (hcheck _).2 ⟨rfl, he⟩, hok⟩

end VerifiedBoot
