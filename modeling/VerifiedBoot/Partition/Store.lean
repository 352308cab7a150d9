import VerifiedBoot.Entries
import VerifiedBoot.Partition.Probe

/-!
# Stores of partitions

A store holds finitely many partitions by name, and says of every other name why there is nothing
under it.
-/

namespace VerifiedBoot

/-- Partitions by name. -/
structure Store where
  partitions : List (String × Bytes)
  /-- Why there is no partition of a name. -/
  absent : String → Error

namespace Store

/-- The store of some partitions and no others. -/
def ofList (partitions : List (String × Bytes)) : Store :=
  ⟨partitions, .partitionMissing⟩

/-- The names of the partitions. -/
def names (store : Store) : List String :=
  store.partitions.map (·.1)

/-- The contents of a partition. -/
def open? (store : Store) (name : String) : Except Error Bytes :=
  match store.partitions.lookup name with
  | some data => .ok data
  | none => .error (store.absent name)

/-- The store without a partition. -/
def erase (store : Store) (name : String) : Store :=
  { store with partitions := Entries.erase store.partitions name }

/-- The store with the contents of a partition set. -/
def put (store : Store) (name : String) (data : Bytes) : Store :=
  { store with partitions := Entries.assign store.partitions name data }

/-- Where the image of a partition lies. -/
def info (store : Store) (name : String) : Except Error (Option PartitionInfo) := do
  return PartitionInfo.probe (← store.open? name)

/-- The image of a partition. -/
def image (store : Store) (suite : Suite) (name : String) : Except Error (Option Image) := do
  PartitionInfo.readImage suite (← store.open? name)

/-- A partition that can be opened is one of the store. -/
theorem mem_partitions_of_open {store : Store} {name : String} {data : Bytes}
    (h : store.open? name = .ok data) : (name, data) ∈ store.partitions := by
  unfold open? at h
  split at h
  · next found hfound =>
    obtain rfl := Except.ok.inj h
    obtain ⟨before, after, hlist, _⟩ := List.lookup_eq_some_iff.1 hfound
    rw [hlist]
    exact List.mem_append_right _ List.mem_cons_self
  · cases h

theorem mem_names_of_open {store : Store} {name : String} {data : Bytes}
    (h : store.open? name = .ok data) : name ∈ store.names :=
  List.mem_map.2 ⟨(name, data), mem_partitions_of_open h, rfl⟩

/-- A partition that was put is the one that is opened. -/
@[simp] theorem open_put_self (store : Store) (name : String) (data : Bytes) :
    (store.put name data).open? name = .ok data := by
  simp [put, open?]

theorem open_put_of_ne {name other : String} (h : other ≠ name) (store : Store) (data : Bytes) :
    (store.put name data).open? other = store.open? other := by
  simp [put, open?, Entries.lookup_assign_of_ne h]

end Store

end VerifiedBoot
