import VerifiedBoot.Partition.Store
import VerifiedBoot.Repair.Request

/-!
# Applying requests to stores

Requests are applied to the partitions of a store, or to copies of them that leave the store alone.
An attempt that fails does not stop those after it, and what it wrote before it failed stays
written.
-/

namespace VerifiedBoot

/-- An attempt to apply a request. -/
structure Attempt where
  outcome : Except Error Unit
  /-- The request afterwards. -/
  request : Request
  /-- The file afterwards, unless there was none to write to. -/
  file : Option Bytes

namespace Attempt

/-- Whether the request was applied. -/
def succeeded (attempt : Attempt) : Bool :=
  attempt.outcome.toBool

end Attempt

namespace Store

/-- Applies a request to its partition. -/
def apply (suite : Suite) (alignment : Int) (store : Store) (request : Request) :
    Attempt × Store :=
  match store.open? request.partition with
  | .error e => (⟨.error e, request, none⟩, store)
  | .ok file =>
    let (outcome, written) := request.applyInPlace suite file alignment
    (⟨outcome, written.request, some written.file⟩, store.put request.partition written.file)

/-- Applies requests to their partitions, one after the other. -/
def applyAll (suite : Suite) (alignment : Int) (store : Store) :
    List Request → List Attempt × Store
  | [] => ([], store)
  | request :: rest =>
    let (attempt, store) := store.apply suite alignment request
    let (attempts, store) := store.applyAll suite alignment rest
    (attempt :: attempts, store)

/-- Applies a request to a copy of its partition, which is written to a file. -/
def applyToCopy (suite : Suite) (alignment : Int) (store : Store) (request : Request)
    (file : Bytes) : Attempt :=
  match store.open? request.partition with
  | .error e => ⟨.error e, request, some file⟩
  | .ok source =>
    let (outcome, written) := request.applyToCopy suite source file alignment
    ⟨outcome, written.request, some written.file⟩

end Store

end VerifiedBoot
