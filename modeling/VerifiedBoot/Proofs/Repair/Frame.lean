import VerifiedBoot.Proofs.Walk.Consistency

/-!
# What a repair leaves alone

A repair changes sizes and digests of hashes and the keys of chained partitions, and nothing else of
a descriptor. Two lists of descriptors with the same frame lead to the same partitions, and the last
hash of a partition has the same place in both. Stores whose images have the same frames are walked
in the same way.
-/

namespace VerifiedBoot

namespace Descriptor

/-- A record without what a repair may change. -/
def frame : Descriptor → Descriptor
  | hash d => hash { d with imageSize := 0, digest := [] }
  | chain d => chain { d with publicKey := none }
  | d => d

/-- A record with the frame of a hash is a hash of the same partition. -/
theorem hash_of_frame_eq {x : Descriptor} {d : HashDescriptor} (h : x.frame = (hash d).frame) :
    ∃ d', x = hash d' ∧ d'.partitionName = d.partitionName ∧
      d'.hashAlgorithm = d.hashAlgorithm ∧ d'.salt = d.salt := by
  cases x with
  | hash d' =>
    simp only [frame, hash.injEq, HashDescriptor.mk.injEq] at h
    obtain ⟨-, halgorithm, hname, hsalt, -⟩ := h
    exact ⟨d', rfl, hname, halgorithm, hsalt⟩
  | property _ | hashtree _ | cmdline _ | chain _ | unknown _ => cases h

/-- A record with the frame of a chained partition is one of the same partition. -/
theorem chain_of_frame_eq {x : Descriptor} {d : ChainDescriptor} (h : x.frame = (chain d).frame) :
    ∃ d', x = chain d' ∧ d'.partitionName = d.partitionName := by
  cases x with
  | chain d' =>
    simp only [frame, chain.injEq, ChainDescriptor.mk.injEq] at h
    exact ⟨d', rfl, h.2.1⟩
  | property _ | hashtree _ | cmdline _ | hash _ | unknown _ => cases h

/-- Records with the same frame vouch for the same partition. -/
theorem target?_of_frame_eq {x y : Descriptor} (h : x.frame = y.frame) : x.target? = y.target? := by
  cases y with
  | hash d =>
    obtain ⟨d', rfl, hname, -⟩ := hash_of_frame_eq h
    exact congrArg some hname
  | chain d =>
    obtain ⟨d', rfl, hname⟩ := chain_of_frame_eq h
    exact congrArg some hname
  | property _ | hashtree _ | cmdline _ | unknown _ =>
    cases x <;> cases h
    rfl

end Descriptor

namespace Image

/-- Whether a repair may have led from one image to another, as far as the descriptors go. -/
def SameFrame (a b : Image) : Prop :=
  a.descriptors.map Descriptor.frame = b.descriptors.map Descriptor.frame

/-- A descriptor has its counterpart at the same place. -/
theorem SameFrame.getElem? {a b : Image} (h : a.SameFrame b) {i : Nat} {x : Descriptor}
    (hx : a.descriptors[i]? = some x) : ∃ y, b.descriptors[i]? = some y ∧ x.frame = y.frame := by
  have hi := congrArg (·[i]?) h
  simp only [List.getElem?_map, hx, Option.map_some] at hi
  obtain ⟨y, hy, hframe⟩ := Option.map_eq_some_iff.1 hi.symm
  exact ⟨y, hy, hframe.symm⟩

/-- A hash has its counterpart at the same place. -/
theorem SameFrame.hash {a b : Image} (h : a.SameFrame b) {i : Nat} {d : HashDescriptor}
    (hd : a.descriptors[i]? = some (.hash d)) :
    ∃ d', b.descriptors[i]? = some (.hash d') ∧ d'.partitionName = d.partitionName ∧
      d'.hashAlgorithm = d.hashAlgorithm ∧ d'.salt = d.salt := by
  obtain ⟨y, hy, hframe⟩ := h.getElem? hd
  obtain ⟨d', rfl, hsame⟩ := Descriptor.hash_of_frame_eq hframe.symm
  exact ⟨d', hy, hsame⟩

/-- A chained partition has its counterpart at the same place. -/
theorem SameFrame.chain {a b : Image} (h : a.SameFrame b) {i : Nat} {d : ChainDescriptor}
    (hd : a.descriptors[i]? = some (.chain d)) :
    ∃ d', b.descriptors[i]? = some (.chain d') ∧ d'.partitionName = d.partitionName := by
  obtain ⟨y, hy, hframe⟩ := h.getElem? hd
  obtain ⟨d', rfl, hname⟩ := Descriptor.chain_of_frame_eq hframe.symm
  exact ⟨d', hy, hname⟩

/-- A record may be replaced by one with its frame. -/
theorem map_frame_set {ds : List Descriptor} {i : Nat} {x y : Descriptor} (hx : ds[i]? = some x)
    (h : y.frame = x.frame) : (ds.set i y).map Descriptor.frame = ds.map Descriptor.frame := by
  rw [List.map_set, h]
  refine List.ext_getElem? fun j => ?_
  rw [List.getElem?_set]
  split
  · next hij =>
    subst hij
    rw [List.length_map, if_pos (List.getElem?_eq_some_iff.1 hx).1, List.getElem?_map, hx]
    rfl
  · rfl

/-- The last hash of a partition is the one behind which there is no other. -/
theorem lastHash_iff {image : Image} {name : String} {index : Nat} {e : HashDescriptor} :
    image.LastHash name index e ↔ image.descriptors[index]? = some (.hash e) ∧
      e.partitionName = name ∧ ∀ j other, index < j →
        image.descriptors[j]? = some (.hash other) → other.partitionName ≠ name := by
  constructor
  · rintro ⟨before, after, hdescriptors, rfl, hname, hother⟩
    refine ⟨?_, hname, fun j other hj hat => ?_⟩
    · rw [hdescriptors, List.getElem?_append_right (Nat.le_refl _), Nat.sub_self]
      rfl
    -- Behind the hash the position counts on into `after`.
    · have hsucc : j - before.length = (j - before.length - 1) + 1 := by omega
      rw [hdescriptors, List.getElem?_append_right (by omega), hsucc,
        List.getElem?_cons_succ] at hat
      exact hother other (List.mem_of_getElem? hat)
  · rintro ⟨hat, hname, hother⟩
    obtain ⟨hlt, hget⟩ := List.getElem?_eq_some_iff.1 hat
    refine ⟨image.descriptors.take index, image.descriptors.drop (index + 1), ?_, ?_, hname,
      fun other hmem => ?_⟩
    · rw [← hget, List.getElem_cons_drop, List.take_append_drop]
    · rw [List.length_take]
      omega
    · obtain ⟨j, hj⟩ := List.getElem?_of_mem hmem
      rw [List.getElem?_drop] at hj
      exact hother _ other (by omega) hj

/-- The last hash of a partition stays the last one. -/
theorem SameFrame.lastHash {a b : Image} (h : a.SameFrame b) {name : String} {index : Nat}
    {e : HashDescriptor} (he : a.LastHash name index e) : ∃ e', b.LastHash name index e' := by
  obtain ⟨hat, hname, hother⟩ := lastHash_iff.1 he
  obtain ⟨e', he', hname', -⟩ := h.hash hat
  refine ⟨e', lastHash_iff.2 ⟨he', hname'.trans hname, fun j other hj hat' => ?_⟩⟩
  obtain ⟨d, hd, hsame, -⟩ := SameFrame.hash (Eq.symm h) hat'
  rw [← hsame]
  exact hother j d hj hd

/-- An index that counts from the start replaces the record there. -/
theorem setDescriptor_natCast (image : Image) (i : Nat) (d : Descriptor) :
    image.setDescriptor i d = { image with descriptors := image.descriptors.set i d } := by
  have hnonneg : ¬((i : Int) < 0) := by omega
  unfold setDescriptor position?
  rw [if_neg hnonneg]
  by_cases hi : i < image.descriptors.length
  · have hrange : 0 ≤ (i : Int) ∧ (i : Int) < image.descriptors.length := by omega
    rw [if_pos hrange, Int.toNat_natCast]
  · have hrange : ¬(0 ≤ (i : Int) ∧ (i : Int) < image.descriptors.length) := by omega
    rw [if_neg hrange, List.set_eq_of_length_le (by omega)]

/-- An index that counts from the start finds the record there. -/
theorem descriptorAt_natCast {image : Image} {i : Nat} {d : Descriptor} :
    image.descriptorAt i = .ok d ↔ image.descriptors[i]? = some d := by
  have hnonneg : ¬((i : Int) < 0) := by omega
  unfold descriptorAt position?
  rw [if_neg hnonneg]
  by_cases hi : i < image.descriptors.length
  · have hrange : 0 ≤ (i : Int) ∧ (i : Int) < image.descriptors.length := by omega
    rw [if_pos hrange, Int.toNat_natCast, Option.bind_some]
    cases image.descriptors[i]? with
    | none => exact ⟨nofun, nofun⟩
    | some x => exact ⟨fun h => congrArg some (Except.ok.inj h),
        fun h => congrArg Except.ok (Option.some.inj h)⟩
  · have hrange : ¬(0 ≤ (i : Int) ∧ (i : Int) < image.descriptors.length) := by omega
    rw [if_neg hrange, List.getElem?_eq_none (by omega)]
    exact ⟨nofun, nofun⟩

end Image

/-- Whether the images that chain descriptors lead to are, in another store, the same up to what a
repair may change. -/
def Store.Reframed (suite : Suite) (root : String) (store store' : Store) : Prop :=
  ∀ name, store.Reach suite root name → ∃ image image', store.image suite name = .ok (some image) ∧
    store'.image suite name = .ok (some image') ∧ image'.SameFrame image

namespace Store.Reframed

variable {suite : Suite} {root name : String} {store store' : Store}

/-- Chain descriptors lead to nothing else. -/
theorem reach_before (h : Reframed suite root store store')
    (hreach : store'.Reach suite root name) : store.Reach suite root name := by
  -- Whatever leads on from a partition has its counterpart in the image before.
  induction hreach with
  | root => exact .root
  | @chain holder image' d _ himage' hd ih =>
    obtain ⟨image, found, himage, hfound, hframe⟩ := h holder ih
    obtain rfl := Outcome.ok_some_unique himage' hfound
    obtain ⟨index, hindex⟩ := List.getElem?_of_mem hd
    obtain ⟨d₀, hd₀, hname⟩ := hframe.chain hindex
    rw [← hname]
    exact ih.chain himage (List.mem_of_getElem? hd₀)

theorem symm (h : Reframed suite root store store') : Reframed suite root store' store := by
  intro name hreach
  obtain ⟨image, image', himage, himage', hframe⟩ := h name (h.reach_before hreach)
  exact ⟨image', image, himage', himage, Eq.symm hframe⟩

/-- A visited descriptor has a counterpart that vouches for the same partition. -/
theorem visits_before {v : Verifier} {root : String} (h : Reframed v.suite root store store')
    {p : Pending} (hvisits : v.Visits store' root p) : ∃ q, v.Visits store root q ∧
      q.holder = p.holder ∧ q.index = p.index ∧ q.descriptor.target? = p.descriptor.target? := by
  obtain ⟨name, image', hreach, himage', hmem⟩ := hvisits
  obtain ⟨rfl, hindex⟩ := Pending.mem_ofImage.1 hmem
  have hbefore := h.reach_before hreach
  obtain ⟨image, found, himage, hfound, hframe⟩ := h p.holder hbefore
  obtain rfl := Outcome.ok_some_unique himage' hfound
  obtain ⟨d, hd, hsame⟩ := hframe.getElem? hindex
  refine ⟨⟨p.holder, p.index, d⟩, ⟨p.holder, image, hbefore, himage, ?_⟩, rfl, rfl, ?_⟩
  · exact Pending.mem_ofImage.2 ⟨rfl, hd⟩
  · exact (Descriptor.target?_of_frame_eq hsame).symm

/-- Verifications of the stores find the same references. -/
theorem references_before {v : Verifier} {root : String} (h : Reframed v.suite root store store')
    {found found' : Verification} (hfound : v.verify store root = .ok found)
    (hfound' : v.verify store' root = .ok found') {r : Reference} (hr : r ∈ found'.references) :
    r ∈ found.references := by
  obtain ⟨p, t, hvisits, htarget, rfl⟩ := (Verifier.mem_references_iff hfound').1 hr
  obtain ⟨q, hq, hholder, hindex, hsame⟩ := h.visits_before hvisits
  refine (Verifier.mem_references_iff hfound).2 ⟨q, t, hq, hsame.trans htarget, ?_⟩
  rw [hholder, hindex]

end Store.Reframed

end VerifiedBoot
