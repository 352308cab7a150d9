/-!
# Kinds of descriptor

The five descriptor kinds that have a layout of their own, and the catch-all for every other tag.
A kind's tag is its number on disk, and its label is the word that messages use for it.
-/

namespace VerifiedBoot

/-- The kinds of record a descriptor list may hold. -/
inductive DescriptorKind where
  | property
  | hashtree
  | hash
  | cmdline
  | chain
  | unknown
  deriving DecidableEq, Repr

namespace DescriptorKind

/-- The tag that a record of this kind carries; an unknown record carries any tag. -/
def tag? : DescriptorKind → Option Nat
  | property => some 0
  | hashtree => some 1
  | hash => some 2
  | cmdline => some 3
  | chain => some 4
  | unknown => none

/-- The kind that a tag selects. -/
def ofTag (tag : Int) : DescriptorKind :=
  if tag = 0 then property
  else if tag = 1 then hashtree
  else if tag = 2 then hash
  else if tag = 3 then cmdline
  else if tag = 4 then chain
  else unknown

/-- The name of the kind in messages and printed values. -/
def label : DescriptorKind → String
  | property => "AvbPropertyDescriptor"
  | hashtree => "AvbHashtreeDescriptor"
  | hash => "AvbHashDescriptor"
  | cmdline => "AvbKernelCmdlineDescriptor"
  | chain => "AvbChainPartitionDescriptor"
  | unknown => "AvbDescriptor"

/-- A tag with a layout of its own selects the kind that carries it. -/
theorem ofTag_tag {kind : DescriptorKind} {tag : Nat} (h : kind.tag? = some tag) :
    ofTag tag = kind := by
  cases kind <;> cases h <;> rfl

end DescriptorKind

end VerifiedBoot
