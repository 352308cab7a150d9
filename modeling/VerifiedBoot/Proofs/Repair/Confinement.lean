import VerifiedBoot.Proofs.KeyPair
import VerifiedBoot.Proofs.Repair.Bound
import VerifiedBoot.Proofs.Repair.Clean

/-!
# A repair changes only what it may

Whatever a repair begins with, each of its requests differs from the record of the partition in a
few places only, and each difference has its reason among the issues that were handled. A hash
descriptor has what the last issue about it measured; a chain descriptor has another key only where
an issue says so or where a reference leads from it to a partition with a new key; an image has a
new key only if its signature was mended without a trusted pair, and another algorithm only if it is
signed with a pair of another size.

`Trace` relates an image in the course of a repair to the one that it was at the start.
-/

namespace VerifiedBoot

namespace Findings

/-- To note elements one after the other is to drop what is repeated. -/
theorem foldl_noteIn_nil {α : Type} [DecidableEq α] (xs : List α) :
    xs.foldl noteIn [] = xs.eraseDups := by
  -- The fold notes at the end, so the last element is the one that may be there already.
  induction xs using List.reverseRecOn with
  | nil => rfl
  | append_singleton xs x ih =>
    rw [List.foldl_append, ih, List.foldl_cons, List.foldl_nil, List.eraseDups_append, noteIn]
    by_cases hx : x ∈ xs
    · rw [if_pos (List.mem_eraseDups.2 hx)]
      simp [List.removeAll, hx]
    · rw [if_neg (mt List.mem_eraseDups.1 hx)]
      simp [List.removeAll, hx, List.eraseDups_cons]

end Findings

/-- The size and the digest that an issue measured for the descriptor at a position. -/
def Issue.measured? (partition : String) (count i : Nat) : Issue → Option (Int × Bytes)
  | .hashMismatch holder index size digest =>
    if holder = partition ∧ Image.position? count index = some i then some (size, digest) else none
  | _ => none

/-- The size and the digest that the last of some issues measured for a descriptor. -/
def lastMeasured (issues : List Issue) (partition : String) (count i : Nat) :
    Option (Int × Bytes) :=
  (issues.filterMap (Issue.measured? partition count i)).getLast?

/-- The hash with what was measured for it, if anything was. -/
def HashDescriptor.withMeasured (d : HashDescriptor) : Option (Int × Bytes) → HashDescriptor
  | some (size, digest) => { d with imageSize := size, digest }
  | none => d

/-- What may become of a descriptor: a hash gets what was measured for it, a chain descriptor may
get a key that there is a reason for, and all others stay as they are. -/
def Descriptor.Confined (measured : Option (Int × Bytes)) (repointed : Option PublicKey → Prop) :
    Descriptor → Descriptor → Prop
  | .hash d, after => after = .hash (d.withMeasured measured)
  | .chain d, after =>
    ∃ key, after = .chain { d with publicKey := key } ∧ (key = d.publicKey ∨ repointed key)
  | d, after => after = d

namespace Descriptor.Confined

variable {measured : Option (Int × Bytes)} {p q : Option PublicKey → Prop} {d e : Descriptor}

theorem refl (d : Descriptor) : d.Confined none p d := by
  cases d with
  | chain d => exact ⟨d.publicKey, rfl, .inl rfl⟩
  | property _ | hashtree _ | hash _ | cmdline _ | unknown _ => rfl

/-- More reasons for new keys do no harm. -/
theorem mono (h : d.Confined measured p e) (hpq : ∀ key, p key → q key) :
    d.Confined measured q e := by
  cases d with
  | chain d =>
    obtain ⟨key, he, hkey⟩ := h
    exact ⟨key, he, hkey.imp_right (hpq key)⟩
  | property _ | hashtree _ | hash _ | cmdline _ | unknown _ => exact h

/-- What is measured last counts. -/
theorem hash {d : Descriptor} {e : HashDescriptor} (h : d.Confined measured p (.hash e))
    (size : Int) (digest : Bytes) :
    d.Confined (some (size, digest)) p (.hash { e with imageSize := size, digest }) := by
  cases d with
  | hash d =>
    obtain rfl := Descriptor.hash.inj h
    -- Size and digest are both overwritten, so it does not matter what was measured before.
    cases measured with
    | none => rfl
    | some before => rfl
  | chain d =>
    obtain ⟨key, he, -⟩ := h
    cases he
  | property _ | hashtree _ | cmdline _ | unknown _ => cases h

/-- A chain descriptor may get another key. -/
theorem chain {d : Descriptor} {e : ChainDescriptor} (h : d.Confined measured p (.chain e))
    {key : Option PublicKey} (hkey : p key) :
    d.Confined measured p (.chain { e with publicKey := key }) := by
  cases d with
  | chain d =>
    obtain ⟨before, he, -⟩ := h
    obtain rfl := Descriptor.chain.inj he
    exact ⟨key, rfl, .inr hkey⟩
  | property _ | hashtree _ | hash _ | cmdline _ | unknown _ => cases h

end Descriptor.Confined

namespace Repair

variable {means : Means} {found : Verification} {s s' start : State} {issue : Issue}
  {rest : List Issue} {handled : List (State × Issue)} {name : String} {first record : Record}
  {signer : Option KeyPair}

section Measured

variable {issues : List Issue} {count i : Nat}

theorem lastMeasured_append {more : List Issue}
    (h : ∀ issue ∈ more, issue.measured? name count i = none) :
    lastMeasured (issues ++ more) name count i = lastMeasured issues name count i := by
  rw [lastMeasured, List.filterMap_append, List.filterMap_eq_nil_iff.2 h, List.append_nil,
    lastMeasured]

theorem lastMeasured_concat {what : Int × Bytes} (h : issue.measured? name count i = some what) :
    lastMeasured (issues ++ [issue]) name count i = some what := by
  rw [lastMeasured, List.filterMap_append, List.filterMap_cons_some h, List.filterMap_nil,
    List.getLast?_concat]

/-- An issue about another partition measures nothing. -/
theorem measured?_of_other {other : String} (hissue : issue.partition? = some other)
    (hother : name ≠ other) : issue.measured? name count i = none := by
  cases issue with
  | hashMismatch holder index size digest =>
    obtain rfl := Option.some.inj hissue
    exact if_neg fun hboth => hother hboth.1.symm
  | invalidPartitionData _ | invalidSignature _ | publicKeyMismatch _ _ _ | other _ _ => rfl

end Measured

/-- Whether an issue gives a key to the chain descriptor at a position. -/
def KeyNoted (issues : List Issue) (partition : String) (count i : Nat) (key : Option PublicKey) :
    Prop :=
  ∃ index, Image.position? count index = some i ∧
    .publicKeyMismatch partition index key ∈ issues

/-- Keys that were noted before still are. -/
theorem KeyNoted.concat {issues : List Issue} {count i : Nat} {key : Option PublicKey}
    (h : KeyNoted issues name count i key) (issue : Issue) :
    KeyNoted (issues ++ [issue]) name count i key := by
  obtain ⟨index, hindex, hmem⟩ := h
  exact ⟨index, hindex, List.mem_append_left _ hmem⟩

/-- What may have become of a descriptor by the issues that were handled. -/
def Traced (issues : List Issue) (partition : String) (count i : Nat) (d e : Descriptor) : Prop :=
  d.Confined (lastMeasured issues partition count i) (KeyNoted issues partition count i) e

/-- A descriptor that an issue measures nothing for may stay as it has become. -/
theorem Traced.concat {issues : List Issue} {count i : Nat} {d e : Descriptor}
    (h : Traced issues name count i d e) (hnothing : issue.measured? name count i = none) :
    Traced (issues ++ [issue]) name count i d e := by
  rw [Traced, lastMeasured_append (List.forall_mem_singleton.2 hnothing)]
  exact h.mono fun key hkey => hkey.concat issue

/-- What became of a record in the course of a repair, by the issues about it that were handled. -/
structure Trace (means : Means) (issues : List Issue) (rekeyed : Prop) (name : String)
    (first record : Record) (signer : Option KeyPair) : Prop where
  footer : record.footer = first.footer
  metadata : record.image.metadata = first.image.metadata
  authentication : record.image.authentication = first.image.authentication
  unsettled : signer = none → record.image.header = first.image.header ∧
    record.image.publicKey = first.image.publicKey
  settled : ∀ pair, signer = some pair →
    first.image.header.Adjusted pair.bits record.image.header
  publicKey : record.image.publicKey = first.image.publicKey ∨
    rekeyed ∧ first.image.publicKey.bind means.keyring.find? = none
  length : record.image.descriptors.length = first.image.descriptors.length
  descriptors : ∀ (i : Nat) d, first.image.descriptors[i]? = some d →
    ∃ e, record.image.descriptors[i]? = some e ∧
      Traced issues name first.image.descriptors.length i d e

theorem mem_rekeyed_concat {moment : State × Issue}
    (h : name ∈ handled.filterMap (rekeyed? means)) :
    name ∈ (handled ++ [moment]).filterMap (rekeyed? means) := by
  rw [List.filterMap_append]
  exact List.mem_append_left _ h

/-- A signature for which no pair is at hand gives its partition a new key. -/
theorem mem_rekeyed_of_findPair (hrecord : s.records.lookup name = some record)
    (hfind : s.findPair means record.image.publicKey = none) :
    name ∈ (handled ++ [(s, Issue.invalidSignature name)]).filterMap (rekeyed? means) := by
  rw [List.filterMap_append]
  refine List.mem_append_right _ (List.mem_filterMap.2 ⟨_, List.mem_cons_self, ?_⟩)
  unfold rekeyed?
  dsimp only
  rw [hrecord]
  dsimp only
  rw [hfind]
  rfl

namespace Trace

variable {issues : List Issue} {rekeyed rekeyed' : Prop}

/-- At the start nothing has become of a record. -/
theorem refl (means : Means) (rekeyed : Prop) (name : String) (record : Record) :
    Trace means [] rekeyed name record record none where
  footer := rfl
  metadata := rfl
  authentication := rfl
  unsettled _ := ⟨rfl, rfl⟩
  settled := nofun
  publicKey := .inl rfl
  length := rfl
  descriptors _ d hd := ⟨d, hd, .refl d⟩

variable (h : Trace means issues rekeyed name first record signer)
include h

/-- A record is traced further with other descriptors if each of them can be. -/
theorem redescribed {descriptors : List Descriptor}
    (hlength : descriptors.length = first.image.descriptors.length)
    (htraced : ∀ (i : Nat) d, first.image.descriptors[i]? = some d →
      ∃ e, descriptors[i]? = some e ∧
        Traced (issues ++ [issue]) name first.image.descriptors.length i d e)
    (hrekeyed : rekeyed → rekeyed') :
    Trace means (issues ++ [issue]) rekeyed' name first
      { record with image := { record.image with descriptors } } signer where
  footer := h.footer
  metadata := h.metadata
  authentication := h.authentication
  unsettled := h.unsettled
  settled := h.settled
  publicKey := h.publicKey.imp_right fun hnew => ⟨hrekeyed hnew.1, hnew.2⟩
  length := hlength
  descriptors := htraced

/-- A record that an issue measures nothing for is traced further as it is. -/
theorem later (hnothing : ∀ count i, issue.measured? name count i = none)
    (hrekeyed : rekeyed → rekeyed') :
    Trace means (issues ++ [issue]) rekeyed' name first record signer := by
  refine h.redescribed h.length (fun i d hd => ?_) hrekeyed
  obtain ⟨e, he, htraced⟩ := h.descriptors i d hd
  exact ⟨e, he, htraced.concat (hnothing _ i)⟩

/-- A record with a descriptor replaced is traced further if the issue is a reason for it, and is
about no other descriptor. -/
theorem replaced {i : Nat} {e : Descriptor}
    (hothers : ∀ j, j ≠ i → issue.measured? name first.image.descriptors.length j = none)
    (hreason : ∀ d before, record.image.descriptors[i]? = some before →
      Traced issues name first.image.descriptors.length i d before →
      Traced (issues ++ [issue]) name first.image.descriptors.length i d e)
    (hrekeyed : rekeyed → rekeyed') :
    Trace means (issues ++ [issue]) rekeyed' name first { record with
      image := { record.image with descriptors := record.image.descriptors.set i e } } signer := by
  refine h.redescribed (List.length_set.trans h.length) (fun j d hd => ?_) hrekeyed
  obtain ⟨before, hbefore, htraced⟩ := h.descriptors j d hd
  -- Only the descriptor at `i` needs the reason; the issue is about no other.
  by_cases hj : j = i
  · subst hj
    have hlt := (List.getElem?_eq_some_iff.1 hbefore).1
    exact ⟨e, List.getElem?_set_self hlt, hreason d before hbefore htraced⟩
  · refine ⟨before, ?_, htraced.concat (hothers j hj)⟩
    rw [← hbefore]
    exact List.getElem?_set_ne (Ne.symm hj)

/-- A hash that is mended has what its last issue measured. -/
theorem hash {index size : Int} {digest : Bytes} {i : Nat} {d : HashDescriptor}
    (hindex : Image.position? record.image.descriptors.length index = some i)
    (hd : record.image.descriptors[i]? = some (.hash d)) (hrekeyed : rekeyed → rekeyed') :
    Trace means (issues ++ [.hashMismatch name index size digest]) rekeyed' name first
      { record with image := { record.image with
        descriptors := record.image.descriptors.set i
          (.hash { d with imageSize := size, digest }) } } signer := by
  rw [h.length] at hindex
  refine h.replaced (fun j hj => ?_) (fun old before hbefore hold => ?_) hrekeyed
  -- An index counts from one end or the other, but it means one position.
  · exact if_neg fun hboth => hj (Option.some.inj (hboth.2.symm.trans hindex))
  · obtain rfl := Option.some.inj (hd.symm.trans hbefore)
    have hmeasured : Issue.measured? name first.image.descriptors.length i
        (.hashMismatch name index size digest) = some (size, digest) := if_pos ⟨rfl, hindex⟩
    rw [Traced, lastMeasured_concat hmeasured]
    exact (hold.mono fun key hkey => hkey.concat _).hash size digest

/-- A chain descriptor that is mended has a key that was noted. -/
theorem chain {index : Int} {key : Option PublicKey} {i : Nat} {d : ChainDescriptor}
    (hindex : Image.position? record.image.descriptors.length index = some i)
    (hd : record.image.descriptors[i]? = some (.chain d)) (hrekeyed : rekeyed → rekeyed') :
    Trace means (issues ++ [.publicKeyMismatch name index key]) rekeyed' name first
      { record with image := { record.image with
        descriptors := record.image.descriptors.set i (.chain { d with publicKey := key }) } }
      signer := by
  rw [h.length] at hindex
  refine h.replaced (fun j hj => rfl) (fun old before hbefore hold => ?_) hrekeyed
  obtain rfl := Option.some.inj (hd.symm.trans hbefore)
  exact (hold.concat rfl).chain ⟨index, hindex, List.mem_append_right _ List.mem_cons_self⟩

/-- A record that no pair was settled for may be signed with one, and gets a new key if there is a
reason for it. -/
theorem sign {header : Header} {key : Option PublicKey} {pair : KeyPair} (hnone : signer = none)
    (hadjusted : record.image.header.Adjusted pair.bits header)
    (hkey : key = record.image.publicKey ∨
      rekeyed' ∧ record.image.publicKey.bind means.keyring.find? = none)
    (hrekeyed : rekeyed → rekeyed') :
    Trace means (issues ++ [.invalidSignature name]) rekeyed' name first
      { record with image := { record.image with header, publicKey := key } } (some pair) := by
  -- As long as no pair is settled, header and key are those of the start, so what is signed now is
  -- compared with the start.
  obtain ⟨hheader, hsame⟩ := h.unsettled hnone
  have hnothing (count i : Nat) : (Issue.invalidSignature name).measured? name count i = none := rfl
  have hlater := h.later hnothing hrekeyed
  rw [hheader] at hadjusted
  rw [hsame] at hkey
  exact { hlater with
    unsettled := nofun
    settled := fun other hother => Option.some.inj hother ▸ hadjusted
    publicKey := hkey }

end Trace

/-- What a run of a repair keeps: no partition is noted as changed twice, the references stay, and
every record can be traced to the start. -/
structure Confining (means : Means) (start : State) (handled : List (State × Issue)) (s : State) :
    Prop where
  nodup : (s.changed.map (·.1)).Nodup
  references : s.references = start.references
  traced : ∀ name record, s.records.lookup name = some record →
    ∃ first, start.records.lookup name = some first ∧
      Trace means (handled.map (·.2)) (name ∈ handled.filterMap (rekeyed? means)) name first record
        (s.signer name)

namespace Confining

/-- A step that changes one image, for an issue about it that is traced, changes no other. -/
theorem edit {image : Image} {pair : Option KeyPair} (hc : Confining means start handled s)
    (hedited : State.Edited s s' name record image pair) (habout : issue.partition? = some name)
    (htrace : ∀ first, Trace means (handled.map (·.2))
        (name ∈ handled.filterMap (rekeyed? means)) name first record (s.signer name) →
      Trace means (handled.map (·.2) ++ [issue])
        (name ∈ (handled ++ [(s, issue)]).filterMap (rekeyed? means)) name first
        { record with image } pair) :
    Confining means start (handled ++ [(s, issue)]) s' where
  nodup := by
    rw [hedited.changed]
    exact Entries.nodup_keys_assign hc.nodup
  references := hedited.references.trans hc.references
  traced other found hfound := by
    rw [List.map_append, List.map_singleton]
    -- The edited image is traced by hypothesis; to every other one the issue does nothing.
    rcases hedited.lookup hfound with ⟨rfl, rfl⟩ | ⟨hother, hbefore⟩
    · obtain ⟨first, hfirst, h⟩ := hc.traced other record hedited.before
      rw [hedited.signer_self]
      exact ⟨first, hfirst, htrace first h⟩
    · obtain ⟨first, hfirst, h⟩ := hc.traced other found hbefore
      rw [hedited.signer_of_ne hother]
      exact ⟨first, hfirst, h.later (fun _ _ => measured?_of_other habout hother)
        mem_rekeyed_concat⟩

/-- **The step lemma.** -/
theorem handle {names : List String} (hc : Confining means start handled s) (ht : Tally names s)
    (hqueue : s.queue = issue :: rest)
    (h : ({ s with queue := rest } : State).handle means issue = .ok s') :
    Confining means start (handled ++ [(s, issue)]) s' := by
  -- An issue about a signature waits only while no pair is settled for its partition, which is what
  -- signing and getting a new key need.
  cases handled_of_handle h with
  | hash hindex hd hedited _ _ =>
    exact hc.edit hedited.unpop rfl fun first htrace => htrace.hash hindex hd mem_rekeyed_concat
  | chain hindex hd hedited _ _ =>
    exact hc.edit hedited.unpop rfl fun first htrace => htrace.chain hindex hd mem_rekeyed_concat
  | @sign name record header pair _ hedited hadjusted _ _ =>
    have hnone := ht.unsettled name (Invariant.mem_of_first hqueue)
    exact hc.edit hedited.unpop rfl fun first htrace =>
      htrace.sign hnone hadjusted (.inl rfl) mem_rekeyed_concat
  | @rekey name record header pair refs hfind _ _ hedited hadjusted _ _ _ =>
    have hnone := ht.unsettled name (Invariant.mem_of_first hqueue)
    refine hc.edit hedited.unpop rfl fun first htrace =>
      htrace.sign hnone hadjusted (.inr ⟨?_, ?_⟩) mem_rekeyed_concat
    · exact mem_rekeyed_of_findPair hedited.unpop.before hfind
    · exact State.find?_of_findPair_eq_none hfind

/-- **The run lemma.** -/
theorem of_run {names : List String} (h : Run means start handled s) (ht : Tally names start)
    (hchanged : start.changed = []) : Confining means start handled s := by
  induction h with
  | start =>
    refine ⟨?_, rfl, fun name record hrecord => ⟨record, hrecord, ?_⟩⟩
    · rw [hchanged]
      exact List.nodup_nil
    · rw [State.signer, hchanged]
      exact .refl means _ name record
  | step hrun hqueue hhandle ih => exact ih.handle (hrun.tally ht).1 hqueue hhandle

end Confining

/-- An issue that came up in the course of a repair: a changed image is not signed any more, or a
chain descriptor refers to another partition, which got a new key. -/
inductive CameUp (means : Means) (start : State) (handled : List (State × Issue)) (s : State) :
    Issue → Prop
  | signature (name : String) : CameUp means start handled s (.invalidSignature name)
  | chain {r : Reference} {pair : KeyPair} : r ∈ start.references → r.holder ≠ r.partition →
    r.partition ∈ handled.filterMap (rekeyed? means) → s.signer r.partition = some pair →
    CameUp means start handled s (State.stale pair r)

namespace CameUp

/-- An issue that came up measures nothing. -/
theorem measured?_eq_none (h : CameUp means start handled s issue) (count i : Nat) :
    issue.measured? name count i = none := by
  cases h with
  | signature _ | chain _ _ _ _ => rfl

/-- What is noted in a step came up. -/
theorem exists_noted (h : ({ s with queue := rest } : State).handle means issue = .ok s')
    (hreferences : s.references = start.references) :
    ∃ noted : List Issue, s'.queue = noted.foldl Findings.noteIn rest ∧
      ∀ other ∈ noted, CameUp means start (handled ++ [(s, issue)]) s' other := by
  -- A mended descriptor puts at most the signature of its own image into question.
  have hrequeued {name : String} {record : Record}
      (hrequeue : s'.queue = State.requeue { s with queue := rest } name record) :
      ∃ noted : List Issue, s'.queue = noted.foldl Findings.noteIn rest ∧
        ∀ other ∈ noted, CameUp means start (handled ++ [(s, issue)]) s' other := by
    rw [hrequeue, State.requeue]
    split
    · exact ⟨[.invalidSignature name], rfl, List.forall_mem_singleton.2 (.signature name)⟩
    · exact ⟨[], rfl, List.forall_mem_nil _⟩
  cases handled_of_handle h with
  | hash _ _ _ _ hrequeue => exact hrequeued hrequeue
  | chain _ _ _ _ hrequeue => exact hrequeued hrequeue
  | sign _ _ _ _ hsame => exact ⟨[], hsame, List.forall_mem_nil _⟩
  | @rekey name _ _ pair refs hfind hrefs _ hedited _ _ _ hnoted =>
    -- A new key makes the references to the partition stale, except its own.
    refine ⟨_, hnoted, fun other hother => ?_⟩
    obtain ⟨⟨r, d⟩, hr, rfl⟩ := List.mem_map.1 hother
    obtain ⟨hmem, rfl, hholder, -⟩ := (State.mem_chainReferences hrefs).1 hr
    refine .chain (hreferences ▸ hmem) hholder ?_ hedited.signer_self
    exact mem_rekeyed_of_findPair hedited.unpop.before hfind

/-- What came up before did so still. -/
theorem later {names : List String} {other : Issue} (hother : CameUp means start handled s other)
    (ht : Tally names s) (hqueue : s.queue = issue :: rest)
    (h : ({ s with queue := rest } : State).handle means issue = .ok s') :
    CameUp means start (handled ++ [(s, issue)]) s' other := by
  cases hother with
  | signature n => exact .signature n
  | chain hmem hne hrekeyed hpair =>
    exact .chain hmem hne (mem_rekeyed_concat hrekeyed) (ht.signer_of_handle hqueue h hpair)

/-- **What is handled is what waited at the start, and then what came up.** -/
theorem exists_of_run {names : List String} (h : Run means start handled s)
    (ht : Tally names start) (hchanged : start.changed = []) :
    ∃ added, handled.map (·.2) ++ s.queue = start.queue ++ added ∧
      ∀ other ∈ added, CameUp means start handled s other := by
  induction h with
  | start => exact ⟨[], (List.append_nil _).symm, List.forall_mem_nil _⟩
  | @step handled s s' issue rest hrun hqueue hhandle ih =>
    obtain ⟨added, hadded, hcame⟩ := ih
    have hs := (hrun.tally ht).1
    have hreferences := (Confining.of_run hrun ht hchanged).references
    obtain ⟨noted, hnoted, hnew⟩ := @exists_noted _ _ _ _ _ _ handled hhandle hreferences
    obtain ⟨extra, hextra, hmem⟩ := Findings.foldl_noteIn_eq noted rest
    -- What is handled moves from the front of the queue to the end of `handled`, so taken together
    -- the two lists only grow at their end, by what the step notes.
    refine ⟨added ++ extra, ?_, fun other hother => ?_⟩
    · rw [← List.append_assoc, ← hadded, hqueue, hnoted, hextra, List.map_append]
      simp only [List.map_singleton, List.append_assoc, List.cons_append, List.nil_append]
    · rcases List.mem_append.1 hother with hother | hother
      · exact (hcame other hother).later hs hqueue hhandle
      · exact hnew other (hmem other hother).1

end CameUp

/-- Whether there is a reason for a chain descriptor to get a key: an issue that was found gives it
the key, or a reference leads from it to another partition, which got this key. -/
def Repointed (means : Means) (found : Verification) (handled : List (State × Issue)) (s : State)
    (partition : String) (count i : Nat) (key : Option PublicKey) : Prop :=
  KeyNoted found.issues partition count i key ∨
    ∃ r ∈ found.references, r.holder = partition ∧ r.partition ≠ partition ∧
      Image.position? count r.index = some i ∧ r.partition ∈ handled.filterMap (rekeyed? means) ∧
      ∃ pair, s.signer r.partition = some pair ∧ key = some pair.publicKey

/-- What a repair may change of a record that a verification left, where it handled some issues and
came to a state. -/
structure Confined (means : Means) (found : Verification) (handled : List (State × Issue))
    (s : State) (record : Record) (request : Request) : Prop where
  footer : request.footer = record.footer
  metadata : request.image.metadata = record.image.metadata
  authentication : request.image.authentication = record.image.authentication
  header : ∃ algorithmType, request.image.header = { record.image.header with algorithmType }
  /-- Another algorithm is one for the pair that signs, whose size was another one, and keeps the
  digest. -/
  algorithm : request.image.header.algorithmType ≠ record.image.header.algorithmType →
    ∃ pair current algorithm, request.signer = some pair ∧
      record.image.algorithm = .ok current ∧ current.keyBits ≠ pair.bits ∧
      request.image.algorithm = .ok algorithm ∧ algorithm.keyBits = pair.bits ∧
      algorithm.digest? = some (current.digest?.getD .sha256)
  /-- Another key is one for a signature that was mended without a trusted pair. -/
  publicKey : request.image.publicKey ≠ record.image.publicKey →
    .invalidSignature request.partition ∈ handled.map (·.2) ∧
      request.partition ∈ handled.filterMap (rekeyed? means) ∧
      record.image.publicKey.bind means.keyring.find? = none
  length : request.image.descriptors.length = record.image.descriptors.length
  /-- A hash has what was measured last, as far as issues are not repeated. -/
  descriptors : ∀ (i : Nat) d, record.image.descriptors[i]? = some d →
    ∃ e, request.image.descriptors[i]? = some e ∧
      d.Confined (lastMeasured found.issues.eraseDups request.partition
          record.image.descriptors.length i)
        (Repointed means found handled s request.partition record.image.descriptors.length i) e

section Result

variable {added : List Issue} {key : Option PublicKey} {count i : Nat}
  (hhandled : handled.map (·.2) = found.issues.eraseDups ++ added)
  (hadded : ∀ other ∈ added, CameUp means (.ofVerification found) handled s other)
include hhandled hadded

/-- What was measured last was measured by an issue that was found. -/
theorem lastMeasured_handled : lastMeasured (handled.map (·.2)) name count i =
    lastMeasured found.issues.eraseDups name count i := by
  rw [hhandled]
  exact lastMeasured_append fun other hother => (hadded other hother).measured?_eq_none count i

/-- A key that was noted in the course of a repair has a reason. -/
theorem repointed_of_keyNoted (h : KeyNoted (handled.map (·.2)) name count i key) :
    Repointed means found handled s name count i key := by
  obtain ⟨index, hindex, hmem⟩ := h
  rw [hhandled] at hmem
  -- An issue that was found is a reason by itself; one that came up stands for a reference to a
  -- partition with a new key.
  rcases List.mem_append.1 hmem with hmem | hmem
  · exact .inl ⟨index, hindex, List.mem_eraseDups.1 hmem⟩
  · generalize hissue : Issue.publicKeyMismatch name index key = other at hmem
    cases hadded other hmem with
    | signature _ => cases hissue
    | @chain r pair hr hne hrekeyed hpair =>
      obtain ⟨rfl, rfl, rfl⟩ := Issue.publicKeyMismatch.inj hissue
      rw [Verifier.ofVerification_eq] at hr
      exact .inr ⟨r, hr, rfl, hne.symm, hindex, hrekeyed, pair, hpair, rfl⟩

/-- A traced record is confined. -/
theorem Trace.confined (h : Trace means (handled.map (·.2))
      (name ∈ handled.filterMap (rekeyed? means)) name first record signer) :
    Confined means found handled s first ⟨name, record.image, record.footer, signer⟩ where
  footer := h.footer
  metadata := h.metadata
  authentication := h.authentication
  header := by
    cases hsigner : signer with
    | none => exact ⟨_, (h.unsettled hsigner).1⟩
    | some pair =>
      obtain ⟨algorithm, -, hheader⟩ := (h.settled pair hsigner).resized
      exact ⟨_, hheader⟩
  algorithm hne := by
    cases hsigner : signer with
    | none => exact absurd (congrArg Header.algorithmType (h.unsettled hsigner).1) hne
    | some pair =>
      -- A pair of the size that the algorithm has already leaves the header alone.
      obtain ⟨current, hcurrent, ⟨-, hsame⟩ | ⟨hbits, algorithm, hkey, hdigest, hheader⟩⟩ :=
        h.settled pair hsigner
      · exact absurd (congrArg Header.algorithmType hsame) hne
      · refine ⟨pair, current, algorithm, rfl, hcurrent, hbits, ?_, hkey, hdigest⟩
        rw [Image.algorithm, hheader]
        exact Algorithm.ofCode_code algorithm
  publicKey hne := by
    obtain ⟨hrekeyed, hnone⟩ := h.publicKey.resolve_left hne
    obtain ⟨moment, hmoment, hname⟩ := List.mem_filterMap.1 hrekeyed
    exact ⟨List.mem_map.2 ⟨moment, hmoment, issue_of_rekeyed hname⟩, hrekeyed, hnone⟩
  length := h.length
  descriptors i d hd := by
    obtain ⟨e, he, htraced⟩ := h.descriptors i d hd
    rw [Traced, lastMeasured_handled hhandled hadded] at htraced
    exact ⟨e, he, htraced.mono fun _ => repointed_of_keyNoted hhandled hadded⟩

end Result

/-- **A repair changes only what it may.** Whatever a repair that succeeds begins with, every
request is for a partition that there was a record of. It has the footer, the metadata, the header
but for the algorithm, and descriptor by descriptor all fields that the record had. Only hashes get
what was measured for them, chain descriptors a key that there is a reason for, and the image a new
key for want of a trusted pair, and an algorithm for keys of another size. -/
theorem confined_of_rebuild {limit : Int} {requests : List Request}
    (h : rebuild means found limit = .ok requests) :
    ∃ handled s, Run means (.ofVerification found) handled s ∧ s.queue = [] ∧
      ∀ request ∈ requests, ∃ record, found.records.lookup request.partition = some record ∧
        Confined means found handled s record request := by
  obtain ⟨s, hdrain, hrequests⟩ := Outcome.bind_eq_ok.1 h
  obtain ⟨ht, -⟩ := Tally.ofVerification found
  obtain ⟨handled, s', hrun, hended⟩ :=
    @Run.exists_ended_of_start means (.ofVerification found) limit.toNat
  rw [hdrain] at hended
  cases hended with
  | done hqueue =>
  have hstart := Verifier.ofVerification_eq found
  have hchanged : (State.ofVerification found).changed = [] := by rw [hstart]
  have hc := Confining.of_run hrun ht hchanged
  -- Nothing waits any more, so what was handled is all that was found, each issue once, and then
  -- what came up.
  obtain ⟨added, hhandled, hadded⟩ := CameUp.exists_of_run hrun ht hchanged
  rw [hqueue, List.append_nil, hstart, Findings.foldl_noteIn_nil] at hhandled
  refine ⟨handled, s, hrun, hqueue, fun request hrequest => ?_⟩
  -- A request is the record of its partition at the end, with the pair that was settled.
  obtain ⟨⟨name, pair⟩, hmem, hrequested⟩ := (Outcome.mem_mapM hrequests).1 hrequest
  obtain ⟨record, hrecord, rfl, -⟩ := State.request_eq_ok hrequested
  obtain ⟨first, hfirst, htrace⟩ := hc.traced name record hrecord
  rw [hstart] at hfirst
  refine ⟨first, hfirst, ?_⟩
  have hsigner : s.signer name = pair := by
    rw [State.signer, Entries.lookup_of_mem hc.nodup hmem]
    rfl
  rw [hsigner] at htrace
  exact htrace.confined hhandled hadded

/-- What might be found of an image with a chain descriptor and a hash: the chained image is not
signed, and two sizes were measured for the hash, the first one both before and after the other. -/
def twiceFound : Verification where
  root := "vbmeta"
  records := [
    ("vbmeta", ⟨{ Image.empty with
      descriptors := [.chain Verifier.bareChain, .hash Verifier.staleHash] }, none⟩),
    ("boot", ⟨Image.empty, none⟩)]
  issues := [.hashMismatch "vbmeta" 1 3 [3], .hashMismatch "vbmeta" 1 4 [4],
    .hashMismatch "vbmeta" 1 3 [3], .invalidSignature "boot"]
  references := [⟨"boot", "vbmeta", 0⟩]

/-- Both images change. The hash has the second size, as the issue about the first one is the same
twice and counts where it is first. -/
theorem confined_of_rebuild_twiceFound :
    ∃ requests, rebuild ⟨[], KeyPair.fresh [Rsa.smoothKey]⟩ twiceFound defaultLimit = .ok requests ∧
      requests.map (·.partition) = ["vbmeta", "boot"] ∧
      ∀ request ∈ requests, request.partition = "vbmeta" →
        request.image.descriptors[1]? =
          some (.hash { Verifier.staleHash with imageSize := 4, digest := [4] }) := by
  have hnames : (rebuild ⟨[], KeyPair.fresh [Rsa.smoothKey]⟩ twiceFound defaultLimit).toOption.map
      (·.map (·.partition)) = some ["vbmeta", "boot"] := by decide +kernel
  cases hrebuild : rebuild ⟨[], KeyPair.fresh [Rsa.smoothKey]⟩ twiceFound defaultLimit with
  | error e =>
    rw [hrebuild] at hnames
    cases hnames
  | ok requests =>
    rw [hrebuild] at hnames
    refine ⟨requests, rfl, Option.some.inj hnames, fun request hrequest hpartition => ?_⟩
    obtain ⟨handled, s, -, -, hconfined⟩ := confined_of_rebuild hrebuild
    obtain ⟨record, hrecord, h⟩ := hconfined request hrequest
    rw [hpartition] at hrecord
    obtain rfl := Option.some.inj hrecord
    obtain ⟨e, he, hhash⟩ := h.descriptors 1 _ rfl
    have hmeasured : lastMeasured twiceFound.issues.eraseDups "vbmeta" 2 1 = some (4, [4]) := by
      decide
    have hmended := hhash.trans (congrArg (Descriptor.hash ∘ Verifier.staleHash.withMeasured)
      (hpartition ▸ hmeasured))
    rw [he]
    exact congrArg some hmended

end Repair

end VerifiedBoot
