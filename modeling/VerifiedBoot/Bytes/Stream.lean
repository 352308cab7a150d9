import VerifiedBoot.Error

/-!
# Streams that arrive in pieces

A stream is the list of the pieces that are still to be read. One read returns at most the next
piece; where it asks for less, the rest stays as the next piece. An empty piece reads as the end of
the stream.
-/

namespace VerifiedBoot

namespace Stream

/-- Reads exactly `size` bytes, over as many pieces as it takes, and returns them with the pieces
that are left. Nothing is read if `size` is not positive. -/
def readFully (size : Int) : List Bytes → Except Error (Bytes × List Bytes)
  | [] => if size ≤ 0 then .ok ([], []) else .error (.streamEnded size)
  | piece :: rest =>
    if size ≤ 0 then .ok ([], piece :: rest)
    else if piece.isEmpty then .error (.streamEnded size)
    else if size < piece.length then .ok (piece.take size.toNat, piece.drop size.toNat :: rest)
    else do
      let (data, left) ← readFully (size - piece.length) rest
      return (piece ++ data, left)

end Stream

end VerifiedBoot
