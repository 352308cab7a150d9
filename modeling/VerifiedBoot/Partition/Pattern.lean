import VerifiedBoot.Error

/-!
# Paths of partitions

A pattern is a path in which a placeholder stands for the name of a partition, any number of times.
Partition names come from untrusted data, so a name is turned down if it could leave the directory
that the pattern points into.
-/

namespace VerifiedBoot

/-- A path with at least one placeholder: the fixed texts before, between and behind the
placeholders. -/
structure Pattern where
  first : List Char
  second : List Char
  others : List (List Char)
  deriving DecidableEq, Repr

namespace Pattern

/-- What stands for the name of a partition. -/
def placeholder : String :=
  "\x7bname\x7d"

/-- The fixed texts that the placeholders of a text separate. -/
def pieces : List Char → List (List Char)
  | '{' :: 'n' :: 'a' :: 'm' :: 'e' :: '}' :: rest => [] :: pieces rest
  | c :: rest =>
    match pieces rest with
    | [] => [[c]]
    | piece :: others => (c :: piece) :: others
  | [] => [[]]

/-- Whether a text holds the placeholder. -/
def isOpen (text : String) : Bool :=
  1 < (pieces text.toList).length

/-- The pattern that a text is. -/
def ofString (text : String) : Except Error Pattern :=
  match pieces text.toList with
  | first :: second :: others => .ok ⟨first, second, others⟩
  | _ => .error (.refused (.patternFixed text))

/-- Whether two dots follow each other. -/
def hasDots : List Char → Bool
  | '.' :: '.' :: _ => true
  | _ :: rest => hasDots rest
  | [] => false

/-- Whether a name can be put into a path. -/
def isName (name : List Char) : Bool :=
  !name.isEmpty && !name.contains '/' && !name.contains '\\' && !name.contains '\x00' &&
    !hasDots name

/-- The fixed texts with a name between each two of them. -/
def fill (pattern : Pattern) (name : List Char) : List Char :=
  List.intercalate name (pattern.first :: pattern.second :: pattern.others)

/-- The path of a partition. -/
def pathFor (pattern : Pattern) (name : String) : Except Error String :=
  if isName name.toList then .ok (String.ofList (pattern.fill name.toList))
  else .error (.refused (.partitionName name))

end Pattern

end VerifiedBoot
