import VerifiedBoot.PublicKey
import VerifiedBoot.Rsa.Import

/-!
# Key pairs and keyrings

A key pair is an RSA key that can sign, with its public half. Two pairs are the same if their
public halves are. A keyring holds the pairs that a repair may sign with, at most one for each
public key.
-/

namespace VerifiedBoot

/-- A private key with its public half. -/
structure KeyPair where
  publicKey : PublicKey
  rsa : Rsa.Key
  deriving DecidableEq, Repr

namespace KeyPair

/-- The pair of an RSA key, which has to be private and fit for signing images. -/
def ofKey (key : Rsa.Key) : Except Error KeyPair := do
  if !key.isPrivate then
    throw (.refused .keyNotPrivate)
  return ⟨← PublicKey.ofKey key, key⟩

/-- The pair that a key file holds. -/
def ofFile (data : Bytes) : Except Error KeyPair :=
  match Rsa.Key.ofFile data with
  | .ok key => ofKey key
  | .error .divisionByZero => .error .divisionByZero
  | .error _ => .error (.refused .keyUnreadable)

/-- The size of the key. -/
def bits (pair : KeyPair) : Nat :=
  pair.publicKey.bits

/-- How a pair is shown; the private half stays hidden. -/
def toText (pair : KeyPair) : Except Error String := do
  return s!"AvbKeyPair({← pair.publicKey.toText})"

/-- The usable pairs among the files, in their order. Files for which there is a domain error are
skipped. -/
def usable : List Bytes → Except Error (List KeyPair)
  | [] => .ok []
  | data :: files =>
    match ofFile data with
    | .ok pair => (usable files).map (pair :: ·)
    | .error e => if e.isDomain then usable files else .error e

/-- The usable pairs among the files of a directory, in the order of the file names. -/
def ofFiles (files : List (String × Bytes)) : Except Error (List KeyPair) :=
  usable ((files.mergeSort fun a b => a.1 ≤ b.1).map (·.2))

/-- The pair that a supply of fresh keys gives for a size: the first one whose modulus has exactly
so many bits. Sizes below 1024 bits are too weak to be generated. -/
def fresh (supply : List Rsa.Key) (bits : Nat) : Except Error KeyPair :=
  if bits < 1024 then .error (.weakKey bits)
  else match supply.find? fun key => key.modulusBits = bits with
    | some key => ofKey key
    | none => .error (.noFreshKey bits)

/-- A pair has the key that it was made of, and its public half. -/
theorem ofKey_eq_ok {key : Rsa.Key} {pair : KeyPair} (h : ofKey key = .ok pair) :
    pair.rsa = key ∧ PublicKey.ofKey key = .ok pair.publicKey := by
  unfold ofKey at h
  split at h
  · cases h
  · cases hpublic : PublicKey.ofKey key with
    | error e =>
      rw [hpublic] at h
      cases h
    | ok publicKey =>
      rw [hpublic] at h
      obtain rfl := Except.ok.inj h
      exact ⟨rfl, rfl⟩

/-- A fresh pair is made of a key in the supply that has the size. -/
theorem fresh_eq_ok {supply : List Rsa.Key} {bits : Nat} {pair : KeyPair}
    (h : fresh supply bits = .ok pair) :
    ∃ key ∈ supply, key.modulusBits = bits ∧ ofKey key = .ok pair := by
  unfold fresh at h
  split at h
  · cases h
  · split at h
    · next key hfind =>
      have hbits := List.find?_some hfind
      exact ⟨key, List.mem_of_find?_eq_some hfind, of_decide_eq_true hbits, h⟩
    · cases h

end KeyPair

/-- The pairs that a repair may sign with. -/
abbrev Keyring := List KeyPair

namespace Keyring

/-- Adds a pair, in place of one with the same public key. -/
def add (ring : Keyring) (pair : KeyPair) : Keyring :=
  pair :: ring.filter fun other => other.publicKey ≠ pair.publicKey

/-- The keyring of a list of pairs, of which later ones take precedence. -/
def ofList (pairs : List KeyPair) : Keyring :=
  pairs.foldl add []

/-- The pair with a public key. -/
def find? (ring : Keyring) (key : PublicKey) : Option KeyPair :=
  List.find? (fun pair => pair.publicKey = key) ring

end Keyring

end VerifiedBoot
