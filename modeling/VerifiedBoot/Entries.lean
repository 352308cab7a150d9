/-!
# Entries by key

A list of pairs is read by key: the first pair with a key holds its value, as `List.lookup` says.
`assign` writes an entry and keeps the place that the key had, and `erase` takes a key away. The
lemmas say what each does to every key.
-/

namespace VerifiedBoot

namespace Entries

variable {κ α : Type} [BEq κ] [LawfulBEq κ]

/-- Replaces the value under a key in its place, or adds it at the end. -/
def assign (entries : List (κ × α)) (key : κ) (value : α) : List (κ × α) :=
  match entries with
  | [] => [(key, value)]
  | (k, v) :: rest => if k == key then (key, value) :: rest else (k, v) :: assign rest key value

/-- Takes all entries of a key away. -/
def erase (entries : List (κ × α)) (key : κ) : List (κ × α) :=
  entries.filter (·.1 != key)

/-- The first entry decides, if it has the key. -/
theorem lookup_cons [DecidableEq κ] (key k : κ) (v : α) (rest : List (κ × α)) :
    List.lookup key ((k, v) :: rest) = if key = k then some v else rest.lookup key := by
  rw [List.lookup_cons]
  by_cases h : key = k
  · simp [h]
  · have : (key == k) = false := by simpa using h
    rw [this, if_neg h]

/-- An assigned value is found. -/
@[simp] theorem lookup_assign_self (entries : List (κ × α)) (key : κ) (value : α) :
    (assign entries key value).lookup key = some value := by
  classical
  fun_induction assign entries key value with
  | case1 => simp
  | case2 => simp
  | case3 k v rest hk ih =>
    have : key ≠ k := fun e => hk (by simp [e])
    rw [lookup_cons, if_neg this, ih]

/-- Assigning to a key leaves every other key alone. -/
theorem lookup_assign_of_ne {key other : κ} (h : other ≠ key) (entries : List (κ × α))
    (value : α) : (assign entries key value).lookup other = entries.lookup other := by
  classical
  fun_induction assign entries key value with
  | case1 => simp [lookup_cons, h]
  | case2 k v rest hk => simp [lookup_cons, eq_of_beq hk, h]
  | case3 k v rest hk ih => simp [lookup_cons, ih]

/-- The keys after an assignment are those from before, and the key itself. -/
theorem mem_keys_assign {entries : List (κ × α)} {key other : κ} {value : α} :
    other ∈ (assign entries key value).map (·.1) ↔
      other = key ∨ other ∈ entries.map (·.1) := by
  fun_induction assign entries key value with
  | case1 => simp
  | case2 k v rest hk => simp [eq_of_beq hk]
  | case3 k v rest hk ih =>
    rw [List.map_cons, List.mem_cons, ih, List.map_cons, List.mem_cons]
    exact or_left_comm

/-- A key that is there keeps its place, so the keys are the same. -/
theorem keys_assign_of_mem {entries : List (κ × α)} {key : κ}
    (h : key ∈ entries.map (·.1)) (value : α) :
    (assign entries key value).map (·.1) = entries.map (·.1) := by
  fun_induction assign entries key value with
  | case1 => exact absurd h List.not_mem_nil
  | case2 k v rest hk => rw [List.map_cons, List.map_cons, eq_of_beq hk]
  | case3 k v rest hk ih =>
    rw [List.map_cons, List.mem_cons] at h
    rw [List.map_cons, List.map_cons, ih (h.resolve_left fun heq => hk (beq_iff_eq.2 heq.symm))]

/-- There is something under the keys, and under nothing else. -/
theorem isSome_lookup_iff {entries : List (κ × α)} {key : κ} :
    (entries.lookup key).isSome ↔ key ∈ entries.map (·.1) := by
  rw [List.lookup_isSome_iff, List.mem_map]
  constructor
  · rintro ⟨entry, hentry, hkey⟩
    exact ⟨entry, hentry, (eq_of_beq hkey).symm⟩
  · rintro ⟨entry, hentry, rfl⟩
    exact ⟨entry, hentry, beq_self_eq_true _⟩

/-- Where no key appears twice, every entry is the one under its key. -/
theorem lookup_of_mem {entries : List (κ × α)} (hnodup : (entries.map (·.1)).Nodup) {key : κ}
    {value : α} (h : (key, value) ∈ entries) : entries.lookup key = some value := by
  obtain ⟨before, after, rfl⟩ := List.append_of_mem h
  refine List.lookup_eq_some_iff.2 ⟨before, after, rfl, fun entry hentry => ?_⟩
  rw [List.map_append, List.nodup_append] at hnodup
  refine bne_iff_ne.2 fun heq => ?_
  exact hnodup.2.2 entry.1 (List.mem_map.2 ⟨entry, hentry, rfl⟩) key List.mem_cons_self heq.symm

/-- An assignment does not make a key appear twice. -/
theorem nodup_keys_assign {entries : List (κ × α)} {key : κ} {value : α}
    (h : (entries.map (·.1)).Nodup) : ((assign entries key value).map (·.1)).Nodup := by
  fun_induction assign entries key value with
  | case1 => simp
  | case2 k v rest hk =>
    rw [List.map_cons, ← eq_of_beq hk]
    exact h
  | case3 k v rest hk ih =>
    rw [List.map_cons, List.nodup_cons] at h ⊢
    refine ⟨fun hmem => ?_, ih h.2⟩
    rcases mem_keys_assign.1 hmem with rfl | hmem
    · simp at hk
    · exact h.1 hmem

/-- Nothing is left under an erased key. -/
@[simp] theorem lookup_erase_self (entries : List (κ × α)) (key : κ) :
    (erase entries key).lookup key = none := by
  refine List.lookup_eq_none_iff.2 fun entry h => ?_
  have := (List.mem_filter.1 h).2
  simp only [bne_iff_ne, ne_eq] at this
  simpa using Ne.symm this

/-- Erasing a key leaves every other key alone. -/
theorem lookup_erase_of_ne {key other : κ} (h : other ≠ key) (entries : List (κ × α)) :
    (erase entries key).lookup other = entries.lookup other := by
  classical
  induction entries with
  | nil => rfl
  | cons entry rest ih =>
    obtain ⟨k, v⟩ := entry
    by_cases hk : k = key
    · have : erase ((k, v) :: rest) key = erase rest key := by simp [erase, hk]
      rw [this, ih, lookup_cons, if_neg (hk ▸ h)]
    · have : erase ((k, v) :: rest) key = (k, v) :: erase rest key := by simp [erase, hk]
      rw [this, lookup_cons, lookup_cons, ih]

end Entries

end VerifiedBoot
