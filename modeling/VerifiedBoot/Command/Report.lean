import VerifiedBoot.Image.Print
import VerifiedBoot.Walk.Basic

/-!
# Reports

What a verification found, for people: the root, the images by partition, and the issues.
-/

namespace VerifiedBoot

namespace Verification

/-- The line for the image of a partition, and the image itself if asked for. -/
def describeRecord (describe : Bool) (name : String) (record : Record) : Except Error String := do
  let algorithm ← record.image.algorithm
  let footer := if record.footer.isSome then ", footer" else ""
  let details ← if describe then record.image.describe else pure ""
  return s!"  {name}: {algorithm.name}{footer}\n{details}"

/-- The text for what a verification found. -/
def report (found : Verification) (describe : Bool) : Except Error String := do
  let records ← (found.records.mergeSort fun a b => a.1 ≤ b.1).mapM fun (name, record) =>
    describeRecord describe name record
  let head := s!"Root partition: {found.root}\n" ++ String.join records
  if found.issues.isEmpty then
    return head ++ "No issues found.\n"
  else
    let issues ← found.issues.mapM fun issue => do return s!"  {← issue.toText}\n"
    return head ++ s!"{found.issues.length} issue(s):\n" ++ String.join issues

end Verification

end VerifiedBoot
