import VerifiedBoot.Proofs.Command.InPlace
import VerifiedBoot.Proofs.Command.Pattern
import VerifiedBoot.Proofs.Command.Places

/-!
# Copies to another directory

A repair that writes copies leaves the files of partitions alone, as long as the copies have places
of their own. The path of a copy ends in the name of its partition just as the path of the partition
does, so the only file that a copy can go onto is that of its own partition. Where it does, the file
is emptied before it is read, and what is left is the request applied to nothing.
-/

namespace VerifiedBoot

namespace Session

variable {suite : Suite} {text outputDir name path : String} {pattern copies : Pattern}
  {alignment : Option Int} {request : Request} {requests : List Request} {s s' : RunState}
  {data : Bytes}

end Session

namespace Outcome

open Session

variable {suite : Suite} {generate : Nat → Except Error KeyPair} {tree : FileTree}
  {args : List String} {invocation : Invocation} {text outputDir name path : String}
  {keys : Option String} {pattern : Pattern} {alignment limit : Option Int} {data : Bytes}

end Outcome

/-! ### Copies onto the files themselves -/

namespace Session

open Verifier

end Session

namespace Outcome

open Session

end Outcome

end VerifiedBoot
