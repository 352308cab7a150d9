import VerifiedBoot.Proofs.Repair.Run

/-!
# The start of a repair

A verification says where a repair starts and what it has to bring about: every hash that was
visited has to say what was measured, every chain descriptor has to have the key of the image that
it names, and every image that chain descriptors lead to has to verify. Whatever is amiss was
reported, so the invariant of the repair holds at its start.
-/

namespace VerifiedBoot

/-- The size over which a partition with some contents is measured for a hash. -/
def HashDescriptor.sizeIn (d : HashDescriptor) (data : Bytes) : Int :=
  match (PartitionInfo.probe data).bind (·.footer) with
  | none => d.imageSize
  | some footer => footer.originalImageSize

namespace HashDescriptor

variable {data : Bytes}

/-- Without a footer the size in the hash counts. -/
theorem sizeIn_of_bare (h : (PartitionInfo.probe data).bind (·.footer) = none)
    (d : HashDescriptor) : d.sizeIn data = d.imageSize := by
  unfold sizeIn
  rw [h]

theorem sizeIn_of_footed {footer : Footer}
    (h : (PartitionInfo.probe data).bind (·.footer) = some footer) (d : HashDescriptor) :
    d.sizeIn data = footer.originalImageSize := by
  unfold sizeIn
  rw [h]

/-- The size over which a partition is measured is not negative. -/
theorem sizeIn_nonneg {d : HashDescriptor} (hd : d.InRange) (data : Bytes) : 0 ≤ d.sizeIn data := by
  unfold sizeIn
  split
  · exact hd.imageSize.1
  · next footer hfooter =>
    exact PartitionInfo.originalImageSize_nonneg (PartitionInfo.probe_eq_footer.1 hfooter)

end HashDescriptor

namespace Verifier

open Repair

/-- What a hash has to say of the partition that it names. -/
def Measures (v : Verifier) (store : Store) (d : HashDescriptor) (m : Measurement) : Prop :=
  ∃ data, store.open? d.partitionName = .ok data ∧
    Measurement.take v.suite store v.chunkSize d (d.sizeIn data) = .ok (some m)

/-- What a hash has to say fits its fields. -/
theorem Measures.inRange {v : Verifier} {store : Store} {d : HashDescriptor} {m : Measurement}
    (h : v.Measures store d m) (hd : d.InRange)
    (hsize : ∀ name data, store.open? name = .ok data → data.length < 1 <<< 63) :
    FitsIn 63 m.size ∧ ShortLength m.digest := by
  obtain ⟨data, hdata, htake⟩ := h
  rcases Measurement.take_eq_ok htake with ⟨-, hnone⟩ | ⟨digest, data', hnamed, hdata', hsome⟩
  · cases hnone
  · obtain rfl := Outcome.ok_unique hdata hdata'
    obtain rfl := Option.some.inj hsome
    have hlength := hsize _ data hdata
    have hnonneg := HashDescriptor.sizeIn_nonneg hd data
    refine ⟨?_, Nat.lt_of_le_of_lt (v.suite.length_named _ hnamed) (by decide)⟩
    change 0 ≤ min (d.sizeIn data) (data.length : Int) ∧
      min (d.sizeIn data) (data.length : Int) < (1 <<< 63 : Nat)
    omega

/-- There is only one thing that a hash has to say. -/
theorem Measures.unique {v : Verifier} {store : Store} {d : HashDescriptor} {m m' : Measurement}
    (h : v.Measures store d m) (h' : v.Measures store d m') : m = m' := by
  obtain ⟨data, hdata, hm⟩ := h
  obtain ⟨data', hdata', hm'⟩ := h'
  obtain rfl := Outcome.ok_unique hdata hdata'
  exact Outcome.ok_some_unique hm hm'

/-- What the repair of a verification starts from and has to bring about. -/
def plan (v : Verifier) (store : Store) (root : String) (found : Verification) : Plan where
  original name := found.records.lookup name
  references := found.references
  measured p i m := ∃ first d, found.records.lookup p = some first ∧
    first.image.descriptors[i]? = some (.hash d) ∧ v.Measures store d m ∧
    (m.agrees d = true ∨ .hashMismatch p i m.size m.digest ∈ found.issues)
  chained p i t := ∃ image d, store.Reach v.suite root p ∧
    store.image v.suite p = .ok (some image) ∧ image.descriptors[i]? = some (.chain d) ∧
    d.partitionName = t
  trusted name := store.Reach v.suite root name

section Records

variable {v : Verifier} {store : Store} {root : String} {found : Verification}

/-- What is found under a name in a list that was made from names. -/
theorem lookup_filterMap {α : Type} {f : String → Option α} {names : List String} {name : String}
    {value : α} : (names.filterMap fun n => (f n).map (n, ·)).lookup name = some value ↔
      name ∈ names ∧ f name = some value := by
  induction names with
  | nil => exact ⟨nofun, fun h => absurd h.1 List.not_mem_nil⟩
  | cons n names ih =>
    cases hf : f n with
    | none =>
      rw [List.filterMap_cons_none (by rw [hf]; rfl), ih, List.mem_cons]
      refine and_congr_left fun hvalue => ⟨.inr, fun h => h.resolve_left ?_⟩
      rintro rfl
      exact absurd (hf.symm.trans hvalue) (by simp)
    | some x =>
      rw [List.filterMap_cons_some (by rw [hf]; rfl), Entries.lookup_cons, List.mem_cons]
      -- A name may come up again, but it has one value each time.
      by_cases hname : name = n
      · subst hname
        rw [if_pos rfl, hf]
        exact ⟨fun h => ⟨.inl rfl, h⟩, fun h => h.2⟩
      · rw [if_neg hname, ih]
        exact and_congr_left fun _ => ⟨.inr, fun h => h.resolve_left hname⟩

/-- The record of a partition is its image with its footer. -/
theorem recordOf?_eq_some {name : String} {record : Record} :
    v.recordOf? store name = some record ↔ ∃ data info, store.open? name = .ok data ∧
      PartitionInfo.probe data = some info ∧
      Image.parse v.suite (data.drop info.vbmetaOffset.toNat) = .ok record.image ∧
      record.footer = info.footer := by
  unfold recordOf?
  simp only [bind, Option.bind_eq_some_iff, Outcome.toOption_eq_some, Store.image_eq_ok]
  constructor
  · rintro ⟨_, ⟨data, hdata, himage⟩, image, rfl, _, hinfo, info, rfl, hrecord⟩
    obtain rfl := Option.some.inj hrecord
    -- Image and footer come from one probe of one partition, made twice.
    obtain ⟨info', hprobe, hparse⟩ := PartitionInfo.readImage_eq_some.1 himage
    obtain ⟨data', hdata', hprobe'⟩ := Outcome.bind_eq_ok.1 hinfo
    obtain rfl := Outcome.ok_unique hdata hdata'
    obtain rfl := Option.some.inj (hprobe.symm.trans (Except.ok.inj hprobe'))
    exact ⟨data, info', hdata, hprobe, hparse, rfl⟩
  · rintro ⟨data, info, hdata, hprobe, hparse, hfooter⟩
    refine ⟨_, ⟨data, hdata, PartitionInfo.readImage_eq_some.2 ⟨info, hprobe, hparse⟩⟩, _, rfl, _,
      Outcome.bind_eq_ok.2 ⟨data, hdata, rfl⟩, info, hprobe, ?_⟩
    rw [← hfooter]
    rfl

/-- The record of a partition that is an image itself has no footer. -/
theorem recordOf?_of_parse {name : String} {data : Bytes} {image : Image}
    (hopen : store.open? name = .ok data) (hparse : Image.parse v.suite data = .ok image) :
    v.recordOf? store name = some ⟨image, none⟩ :=
  recordOf?_eq_some.2 ⟨data, _, hopen,
    PartitionInfo.probe_of_signature (Image.take_of_parse hparse), hparse, rfl⟩

/-- The records begin with that of the partition that was read first. -/
theorem records_cons {name : String} {record : Record} (h : v.recordOf? store name = some record)
    (names : List String) :
    (name :: names).filterMap (fun n => (v.recordOf? store n).map (n, ·)) =
      (name, record) :: names.filterMap fun n => (v.recordOf? store n).map (n, ·) :=
  List.filterMap_cons_some (congrArg (Option.map (name, ·)) h)

theorem lookup_records (h : v.verify store root = .ok found) {name : String} {record : Record} :
    found.records.lookup name = some record ↔
      v.Finds store root (.loaded name) ∧ v.recordOf? store name = some record := by
  obtain ⟨-, -, -, -, loaded, hloaded, hrecords⟩ := verify_eq_ok h
  rw [hrecords, lookup_filterMap, hloaded]

/-- The record of an image that was read. -/
theorem exists_record (h : v.verify store root = .ok found) {name : String} {image : Image}
    (hloaded : v.Finds store root (.loaded name))
    (himage : store.image v.suite name = .ok (some image)) :
    ∃ record, found.records.lookup name = some record ∧ record.image = image := by
  obtain ⟨data, hdata, hread⟩ := Store.image_eq_ok.1 himage
  obtain ⟨info, hprobe, hparse⟩ := PartitionInfo.readImage_eq_some.1 hread
  exact ⟨⟨image, info.footer⟩, (lookup_records h).2 ⟨hloaded, recordOf?_eq_some.2
    ⟨data, info, hdata, hprobe, hparse, rfl⟩⟩, rfl⟩

/-- The image of a record is the one in the partition. -/
theorem image_of_record (h : v.verify store root = .ok found) {name : String} {record : Record}
    (hrecord : found.records.lookup name = some record) :
    store.image v.suite name = .ok (some record.image) := by
  obtain ⟨data, info, hdata, hprobe, hparse, -⟩ :=
    recordOf?_eq_some.1 ((lookup_records h).1 hrecord).2
  exact Store.image_eq_ok.2 ⟨data, hdata, PartitionInfo.readImage_eq_some.2 ⟨info, hprobe, hparse⟩⟩

/-- A descriptor that is visited was checked, and all of what it gives was found. -/
theorem inspect_of_visits (h : v.verify store root = .ok found) {p : Pending}
    (hvisits : v.Visits store root p) :
    ∃ g, v.inspect store p = .ok g ∧ ∀ x, g.Holds x → v.Finds store root x := by
  obtain ⟨-, hinspected, -⟩ := verify_eq_ok h
  obtain ⟨g, hg⟩ := hinspected p hvisits
  exact ⟨g, hg, fun x hx => .visit hvisits hg hx⟩

/-- The images that chain descriptors lead to were read. -/
theorem loaded_of_reach (h : v.verify store root = .ok found) {name : String} {image : Image}
    (hreach : store.Reach v.suite root name)
    (himage : store.image v.suite name = .ok (some image)) :
    v.Finds store root (.loaded name) := by
  cases hreach with
  | root => exact .enter himage .loaded
  | @chain holder image' d hreach hholder hd =>
    obtain ⟨index, hindex⟩ := List.getElem?_of_mem hd
    have hvisits : v.Visits store root ⟨holder, index, .chain d⟩ :=
      ⟨holder, image', hreach, hholder, Pending.mem_ofImage.2 ⟨rfl, hindex⟩⟩
    obtain ⟨g, hg, hfinds⟩ := inspect_of_visits h hvisits
    obtain ⟨target, htarget, hholds⟩ := holds_inspect_chain rfl hg
    obtain rfl := Outcome.ok_unique himage htarget
    exact hfinds _ ((hholds _).2 (.inr .loaded))

/-- The record of the image that holds a visited descriptor. -/
theorem record_of_visits (h : v.verify store root = .ok found) {p : Pending}
    (hvisits : v.Visits store root p) : ∃ first, found.records.lookup p.holder = some first ∧
      store.Reach v.suite root p.holder ∧
      first.image.descriptors[p.index]? = some p.descriptor := by
  obtain ⟨name, image, hreach, himage, hmem⟩ := hvisits
  obtain ⟨rfl, hindex⟩ := Pending.mem_ofImage.1 hmem
  obtain ⟨first, hfirst, rfl⟩ := exists_record h (loaded_of_reach h hreach himage) himage
  exact ⟨first, hfirst, hreach, hindex⟩

/-- The key of an image that was read is in range. -/
theorem inRange_of_image {name : String} {image : Image} {key : PublicKey}
    (himage : store.image v.suite name = .ok (some image)) (hkey : image.publicKey = some key) :
    key.InRange := by
  obtain ⟨data, -, hread⟩ := Store.image_eq_ok.1 himage
  obtain ⟨info, -, hparse⟩ := PartitionInfo.readImage_eq_some.1 hread
  exact Image.publicKey_inRange_of_parse hparse hkey

/-- Images that were read are in range, since partitions are not longer than anything. -/
theorem inRange_of_record (h : v.verify store root = .ok found)
    (hsize : ∀ name data, store.open? name = .ok data → data.length < 1 <<< 63) {name : String}
    {record : Record} (hrecord : found.records.lookup name = some record) :
    record.image.InRange := by
  obtain ⟨data, info, hdata, -, hparse, -⟩ := recordOf?_eq_some.1 ((lookup_records h).1 hrecord).2
  have hlength := hsize name data hdata
  refine Image.inRange_of_parse hparse ?_
  rw [List.length_drop]
  omega

/-- A hash that was measured has something to say: it does so, or an issue was reported. -/
theorem measured_of_take
    (hvalid : ∀ name, ¬v.Finds store root (.issue (.invalidPartitionData name)))
    (hissues : ∀ issue, issue ∈ found.issues ↔ v.Finds store root (.issue issue))
    {holder : String} {first : Record} {i : Nat} {d : HashDescriptor} {data : Bytes}
    {m : Option Measurement} (hfirst : found.records.lookup holder = some first)
    (hd : first.image.descriptors[i]? = some (.hash d))
    (hdata : store.open? d.partitionName = .ok data)
    (htake : Measurement.take v.suite store v.chunkSize d (d.sizeIn data) = .ok m)
    (hfinds : ∀ x, MeasureFinds holder i d m x → v.Finds store root x) :
    ∃ taken, m = some taken ∧ (v.plan store root found).measured holder i taken := by
  cases m with
  | none => exact absurd (hfinds _ .unknown) (hvalid holder)
  | some taken =>
    refine ⟨taken, rfl, first, d, hfirst, hd, ⟨data, hdata, htake⟩, ?_⟩
    -- Either the hash says this already, or the check has reported that it does not.
    cases hagrees : taken.agrees d with
    | true => exact .inl rfl
    | false => exact .inr ((hissues _).2 (hfinds _ (.stale hagrees)))

/-- A hash that is visited has something to say. If the partition that it names has a footer, the
last hash that the partition keeps of itself has something to say, too. -/
theorem measured_of_visits (h : v.verify store root = .ok found)
    (hvalid : ∀ name, .invalidPartitionData name ∉ found.issues) {p : Pending} {d : HashDescriptor}
    (hvisits : v.Visits store root p) (hp : p.descriptor = .hash d) :
    ∃ data m, store.open? d.partitionName = .ok data ∧
      (v.plan store root found).measured p.holder p.index m ∧
      ∀ footer, Footed data footer → ∃ record index e m',
        found.records.lookup d.partitionName = some record ∧
        record.image.LastHash d.partitionName index e ∧
        (v.plan store root found).measured d.partitionName index m' := by
  obtain ⟨-, -, hissues, -⟩ := verify_eq_ok h
  have hnone : ∀ name, ¬v.Finds store root (.issue (.invalidPartitionData name)) :=
    fun name hfinds => hvalid name ((hissues _).2 hfinds)
  obtain ⟨g, hg, hfound⟩ := inspect_of_visits h hvisits
  have hfinds {x : Finding} (hx : HashFinds v store p d x) : v.Finds store root x :=
    hfound x ((holds_inspect_hash hp hg x).2 (.inr hx))
  obtain ⟨first, hfirst, -, hindex⟩ := record_of_visits h hvisits
  rw [hp] at hindex
  obtain ⟨data, hdata, hinfo, hmeasurable⟩ := exists_measurable hp hg
  -- Each way in which nothing can be measured would have been reported as invalid data.
  cases hfooter : (PartitionInfo.probe data).bind (·.footer) with
  | none =>
    have hsizeIn := HashDescriptor.sizeIn_of_bare hfooter d
    obtain ⟨m, hm⟩ := (measurable_of_bare hfooter).1 hmeasurable
    rw [← hsizeIn] at hm
    obtain ⟨taken, rfl, hmeasured⟩ := measured_of_take hnone hissues hfirst hindex hdata hm
      fun x hx => hfinds (.bare hinfo hfooter (hsizeIn ▸ hm) hx)
    refine ⟨data, taken, hdata, hmeasured, fun footer hfooted => ?_⟩
    exact absurd (hfooter.symm.trans (PartitionInfo.probe_eq_footer.2 hfooted)) (by simp)
  | some footer =>
    have hsizeIn := HashDescriptor.sizeIn_of_footed hfooter
    obtain ⟨target, htarget, hall⟩ := (measurable_of_footed hfooter).1 hmeasurable
    cases target with
    | none => exact absurd (hfinds (.unreadable hinfo hfooter htarget)) (hnone _)
    | some target =>
      obtain ⟨record, hrecord, rfl⟩ :=
        exists_record h (hfinds (.loaded hinfo hfooter htarget)) htarget
      cases hlast : lastHash? record.image d.partitionName with
      | none => exact absurd (hfinds (.missing hinfo hfooter htarget hlast)) (hnone _)
      | some last =>
        obtain ⟨index, e⟩ := last
        -- The embedded hash is measured first, and the outer one whatever comes of that.
        obtain ⟨m', hm', hsome⟩ := hall record.image index e rfl hlast
        have hlastHash := lastHash?_eq_some.1 hlast
        obtain ⟨hat, hname, -⟩ := Image.lastHash_iff.1 hlastHash
        rw [← hsizeIn e] at hm'
        obtain ⟨taken', rfl, hmeasured'⟩ :=
          measured_of_take hnone hissues hrecord hat (hname ▸ hdata) hm'
            fun x hx => hfinds (.embedded hinfo hfooter htarget hlast (hsizeIn e ▸ hm') hx)
        obtain ⟨m, hm⟩ := hsome rfl
        rw [← hsizeIn d] at hm
        obtain ⟨taken, rfl, hmeasured⟩ := measured_of_take hnone hissues hfirst hindex hdata hm
          fun x hx => hfinds
            (.outer hinfo hfooter htarget hlast (hsizeIn e ▸ hm') (hsizeIn d ▸ hm) hx)
        exact ⟨data, taken, hdata, hmeasured, fun _ _ =>
          ⟨record, index, e, taken', hrecord, hlastHash, hmeasured'⟩⟩

/-- A hash that was reported does not say what was measured. -/
theorem measured_of_mismatch (h : v.verify store root = .ok found) {p : String} {index size : Int}
    {digest : Bytes} (hmem : .hashMismatch p index size digest ∈ found.issues) :
    ∃ (i : Nat) (m : Measurement), index = i ∧ size = m.size ∧ digest = m.digest ∧
      (v.plan store root found).measured p i m := by
  obtain ⟨-, -, hissues, -⟩ := verify_eq_ok h
  -- Whoever reports the issue has taken the measurement over the size that the plan asks for.
  have hmeasured {holder : String} {first : Record} {i : Nat} {d : HashDescriptor} {size : Int}
      {info : Option PartitionInfo} {m : Measurement}
      (hfirst : found.records.lookup holder = some first)
      (hd : first.image.descriptors[i]? = some (.hash d))
      (hinfo : store.info d.partitionName = .ok info)
      (hsize : size = match info.bind (·.footer) with
        | none => d.imageSize
        | some footer => footer.originalImageSize)
      (htake : Measurement.take v.suite store v.chunkSize d size = .ok (some m))
      (hmem : .hashMismatch holder i m.size m.digest ∈ found.issues) :
      (v.plan store root found).measured holder i m := by
    obtain ⟨data, hdata, hprobe⟩ := Outcome.bind_eq_ok.1 hinfo
    obtain rfl := Except.ok.inj hprobe
    subst hsize
    exact ⟨first, d, hfirst, hd, ⟨data, hdata, htake⟩, .inr hmem⟩
  -- Only the check of a hash reports such an issue, about that hash or about the embedded one.
  rcases finds_cases ((hissues _).1 hmem) with ⟨image, -, hfinds⟩ | ⟨q, d, hvisits, hq, hfinds⟩ |
    ⟨q, d, image, -, -, -, hfinds⟩
  · cases hfinds
  · obtain ⟨first, hfirst, -, hindex⟩ := record_of_visits h hvisits
    rw [hq] at hindex
    obtain ⟨g, hg, hfound⟩ := inspect_of_visits h hvisits
    rcases hfinds with href | hfinds
    · cases href
    · cases hfinds with
      | bare hinfo hfooter htake hx =>
        cases hx with
        | stale _ =>
          refine ⟨q.index, _, rfl, rfl, rfl, hmeasured hfirst hindex hinfo ?_ htake hmem⟩
          rw [hfooter]
      | embedded hinfo hfooter htarget hlast htake hx =>
        cases hx with
        | stale _ =>
          have hloaded := hfound _ ((holds_inspect_hash hq hg _).2
            (.inr (.loaded hinfo hfooter htarget)))
          obtain ⟨record, hrecord, rfl⟩ := exists_record h hloaded htarget
          obtain ⟨hat, hname, -⟩ := Image.lastHash_iff.1 (lastHash?_eq_some.1 hlast)
          refine ⟨_, _, rfl, rfl, rfl, hmeasured hrecord hat (hname ▸ hinfo) ?_ htake hmem⟩
          rw [hfooter]
      | outer hinfo hfooter htarget hlast _ htake hx =>
        cases hx with
        | stale _ =>
          refine ⟨q.index, _, rfl, rfl, rfl, hmeasured hfirst hindex hinfo ?_ htake hmem⟩
          rw [hfooter]
  · rcases hfinds with href | hfinds
    · cases href
    · cases hfinds

/-- A chain descriptor that is visited leads to a readable image, as far as no issue was
reported. -/
theorem target_of_chain (h : v.verify store root = .ok found)
    (hvalid : ∀ name, .invalidPartitionData name ∉ found.issues) {p : String} {image : Image}
    {i : Nat} {d : ChainDescriptor} (hreach : store.Reach v.suite root p)
    (himage : store.image v.suite p = .ok (some image))
    (hd : image.descriptors[i]? = some (.chain d)) :
    ∃ target, store.image v.suite d.partitionName = .ok (some target) ∧
      ∀ x, ChainFinds ⟨p, i, .chain d⟩ d (some target) x → v.Finds store root x := by
  obtain ⟨-, -, hissues, -⟩ := verify_eq_ok h
  have hvisits : v.Visits store root ⟨p, i, .chain d⟩ :=
    ⟨p, image, hreach, himage, Pending.mem_ofImage.2 ⟨rfl, hd⟩⟩
  obtain ⟨g, hg, hfound⟩ := inspect_of_visits h hvisits
  obtain ⟨target, htarget, hholds⟩ := holds_inspect_chain rfl hg
  -- An image that cannot be read would have been reported as invalid data.
  cases target with
  | none =>
    exact absurd ((hissues _).2 (hfound _ ((hholds _).2 (.inr .unreadable)))) (hvalid _)
  | some target => exact ⟨target, htarget, fun x hx => hfound x ((hholds x).2 (.inr hx))⟩

/-- A key that was reported is the one that the image embeds. -/
theorem chained_of_mismatch (h : v.verify store root = .ok found) {p : String} {index : Int}
    {key : Option PublicKey} (hmem : .publicKeyMismatch p index key ∈ found.issues) :
    ∃ (i : Nat) (t : String) (target : Image) (k : PublicKey), index = i ∧
      (v.plan store root found).chained p i t ∧ store.image v.suite t = .ok (some target) ∧
      target.publicKey = key ∧ key = some k := by
  obtain ⟨-, -, hissues, -⟩ := verify_eq_ok h
  rcases entered_or_chained ((hissues _).1 hmem) nofun nofun with ⟨image, -, hfinds⟩ |
    ⟨q, d, image, hvisits, hq, himage, hfinds⟩
  · cases hfinds
  · cases hfinds with
    | @otherKey target hkey _ =>
      obtain ⟨k, hk⟩ := Option.isSome_iff_exists.1 hkey
      obtain ⟨first, hfirst, hreach, hindex⟩ := record_of_visits h hvisits
      rw [hq] at hindex
      exact ⟨q.index, d.partitionName, target, k, rfl,
        ⟨first.image, d, hreach, image_of_record h hfirst, hindex, rfl⟩, himage, rfl, hk⟩

/-- The plan of a verification is sound. -/
theorem plan_sound (h : v.verify store root = .ok found) : (v.plan store root found).Sound where
  embedded hfirst hvalid := by
    obtain ⟨key, hkey⟩ := publicKey_of_signatureValid (image_of_record h hfirst) hvalid
    rw [hkey]
    rfl
  measured_unique := by
    -- Two measurements for one descriptor are taken of one partition over one size.
    rintro p i m m' ⟨first, d, hfirst, hd, hm, -⟩ ⟨first', d', hfirst', hd', hm', -⟩
    obtain rfl := Option.some.inj (hfirst.symm.trans hfirst')
    obtain rfl := Descriptor.hash.inj (Option.some.inj (hd.symm.trans hd'))
    exact hm.unique hm'
  chained_unique := by
    rintro p i t t' ⟨image, d, -, himage, hd, rfl⟩ ⟨image', d', -, himage', hd', rfl⟩
    obtain rfl := Outcome.ok_some_unique himage himage'
    obtain rfl := Descriptor.chain.inj (Option.some.inj (hd.symm.trans hd'))
    rfl
  descriptor := by
    rintro p i t ⟨image, d, hreach, himage, hd, rfl⟩
    obtain ⟨first, hfirst, rfl⟩ := exists_record h (loaded_of_reach h hreach himage) himage
    exact ⟨first, d, hfirst, hd⟩
  reference := by
    rintro p i t ⟨image, d, hreach, himage, hd, rfl⟩
    have hmem : (⟨p, i, .chain d⟩ : Pending) ∈ Pending.ofImage p image :=
      Pending.mem_ofImage.2 ⟨rfl, hd⟩
    exact (mem_references_iff h).2 ⟨_, _, ⟨p, image, hreach, himage, hmem⟩, rfl, rfl⟩
  chained := by
    intro r hr
    obtain ⟨q, t, hvisits, htarget, rfl⟩ := (mem_references_iff h).1 hr
    refine ⟨q.index, rfl, fun first d hfirst hd => ?_⟩
    -- The reference was noted for the descriptor that the record has at its index.
    obtain ⟨first', hfirst', hreach, hindex⟩ := record_of_visits h hvisits
    obtain rfl := Option.some.inj (hfirst.symm.trans hfirst')
    rw [← Option.some.inj (hd.symm.trans hindex)] at htarget
    exact ⟨first.image, d, hreach, image_of_record h hfirst, hd, Option.some.inj htarget⟩

/-- What was measured fits the fields of a hash, since partitions are not longer than anything. -/
theorem plan_bounded (h : v.verify store root = .ok found)
    (hsize : ∀ name data, store.open? name = .ok data → data.length < 1 <<< 63) :
    (v.plan store root found).Bounded where
  measured_size := by
    rintro p i m ⟨first, d, hfirst, hd, hm, -⟩
    exact (hm.inRange ((inRange_of_record h hsize hfirst).descriptors _
      (List.mem_of_getElem? hd)) hsize).1
  measured_digest := by
    rintro p i m ⟨first, d, hfirst, hd, hm, -⟩
    exact (hm.inRange ((inRange_of_record h hsize hfirst).descriptors _
      (List.mem_of_getElem? hd)) hsize).2

/-- At the start of a repair all issues that were found wait, and nothing is changed. -/
theorem ofVerification_eq (found : Verification) : State.ofVerification found =
    ⟨found.records, found.references, found.issues.foldl Findings.noteIn [], [], []⟩ :=
  State.foldl_add _ _

theorem mem_queue_ofVerification {issue : Issue} :
    issue ∈ (State.ofVerification found).queue ↔ issue ∈ found.issues := by
  rw [ofVerification_eq, Findings.mem_foldl_noteIn]
  exact ⟨fun hor => hor.resolve_left List.not_mem_nil, .inr⟩

/-- Hashes that do not say what was measured were reported. -/
theorem hashesDue_ofVerification :
    HashesDue (v.plan store root found) (State.ofVerification found) := by
  rintro p i m ⟨first, d, hfirst, hd, -, hagrees | hmismatch⟩
  · obtain ⟨hsame, hdigest⟩ := Measurement.agrees_iff.1 hagrees
    rw [ofVerification_eq]
    exact .inr ⟨first, d, hfirst, hd, hsame.symm, hdigest.symm⟩
  · exact .inl (mem_queue_ofVerification.2 hmismatch)

/-- Keys of chain descriptors that are not the ones of the images were reported. -/
theorem dueKey_ofVerification (h : v.verify store root = .ok found)
    (hvalid : ∀ name, .invalidPartitionData name ∉ found.issues) {p t : String} {i : Nat}
    (hchained : (v.plan store root found).chained p i t) {holder target : Record}
    {d : ChainDescriptor} (hholder : found.records.lookup p = some holder)
    (hd : holder.image.descriptors[i]? = some (.chain d))
    (htarget : found.records.lookup t = some target) :
    dueKey p i d.publicKey (State.ofVerification found).queue =
      target.image.publicKey.or d.publicKey := by
  obtain ⟨-, -, hissues, -⟩ := verify_eq_ok h
  obtain ⟨image, d', hreach, himage, hd', rfl⟩ := hchained
  obtain rfl := Outcome.ok_some_unique (image_of_record h hholder) himage
  obtain rfl := Descriptor.chain.inj (Option.some.inj (hd.symm.trans hd'))
  obtain ⟨target', htarget', hfinds⟩ := target_of_chain h hvalid hreach himage hd
  obtain rfl := Outcome.ok_some_unique (image_of_record h htarget) htarget'
  -- All issues about the descriptor have the key of the image.
  have hembedded {k : Option PublicKey}
      (hk : .publicKeyMismatch p i k ∈ (State.ofVerification found).queue) :
      target.image.publicKey = k ∧ k.isSome := by
    obtain ⟨i', t', embedded, key, hindex, hchained, hembedded, rfl, hkey⟩ :=
      chained_of_mismatch h (mem_queue_ofVerification.1 hk)
    obtain rfl := Int.ofNat_inj.1 hindex
    obtain ⟨image', d', -, himage', hd'', rfl⟩ := hchained
    obtain rfl := Outcome.ok_some_unique himage himage'
    obtain rfl := Descriptor.chain.inj (Option.some.inj (hd.symm.trans hd''))
    obtain rfl := Outcome.ok_some_unique htarget' hembedded
    exact ⟨rfl, Option.isSome_iff_exists.2 ⟨key, hkey⟩⟩
  cases hkey : target.image.publicKey with
  | none =>
    refine dueKey_of_apart ?_
    rintro issue hissue k rfl
    obtain ⟨hnone, hsome⟩ := hembedded hissue
    rw [← hnone, hkey] at hsome
    cases hsome
  | some key =>
    -- There is such an issue unless the descriptor has the key already.
    rw [Option.some_or]
    refine dueKey_eq (fun k hk => (hembedded hk).1.symm.trans hkey) ?_
    by_cases hdeclared : d.publicKey = some key
    · exact .inl hdeclared
    · rw [← hkey] at hdeclared ⊢
      have hother := hfinds _ (.otherKey (by rw [hkey]; rfl) (Ne.symm hdeclared))
      exact .inr (mem_queue_ofVerification.2 ((hissues _).2 hother))

/-- Chain descriptors of other partitions are due the keys that the images embed. -/
theorem keysDue_ofVerification (h : v.verify store root = .ok found)
    (hvalid : ∀ name, .invalidPartitionData name ∉ found.issues) :
    KeysDue (v.plan store root found) (State.ofVerification found) := by
  intro p i t hchained _ holder d target hholder hd htarget
  rw [ofVerification_eq] at hholder htarget
  rw [dueKey_ofVerification h hvalid hchained hholder hd htarget]
  cases target.image.publicKey with
  | none => exact .inr rfl
  | some key => exact .inl rfl

/-- Chain descriptors of their own partitions are due the keys that these embed as they are. -/
theorem ownKeysDue_ofVerification (h : v.verify store root = .ok found)
    (hvalid : ∀ name, .invalidPartitionData name ∉ found.issues) :
    OwnKeysDue (v.plan store root found) (State.ofVerification found) := by
  intro p i hchained holder d hholder hd
  rw [ofVerification_eq] at hholder
  exact ⟨holder, d, hholder, hd, dueKey_ofVerification h hvalid hchained hholder hd hholder⟩

/-- Keys that were reported are the ones of the images. -/
theorem staleKeysEmbedded_ofVerification (h : v.verify store root = .ok found) :
    StaleKeysEmbedded (v.plan store root found) (State.ofVerification found) := by
  intro p index key hwaits
  obtain ⟨i, t, target, k, rfl, hchained, himage, rfl, hk⟩ :=
    chained_of_mismatch h (mem_queue_ofVerification.1 hwaits)
  have hrange := inRange_of_image himage hk
  refine ⟨i, t, k, rfl, hchained, hk, hrange, ?_⟩
  intro _ record hrecord
  rw [ofVerification_eq] at hrecord
  rw [Outcome.ok_some_unique (image_of_record h hrecord) himage]

/-- An image that a chain descriptor names was reported if it does not verify. -/
theorem invalidSignature_of_chain (h : v.verify store root = .ok found)
    (hvalid : ∀ name, .invalidPartitionData name ∉ found.issues) {p : String} {image : Image}
    {i : Nat} {d : ChainDescriptor} {record : Record} (hreach : store.Reach v.suite root p)
    (himage : store.image v.suite p = .ok (some image))
    (hd : image.descriptors[i]? = some (.chain d))
    (hrecord : found.records.lookup d.partitionName = some record)
    (hunsigned : record.image.signatureValid = false) :
    .invalidSignature d.partitionName ∈ found.issues := by
  obtain ⟨-, -, hissues, -⟩ := verify_eq_ok h
  obtain ⟨target, htarget, hfinds⟩ := target_of_chain h hvalid hreach himage hd
  obtain rfl := Outcome.ok_some_unique (image_of_record h hrecord) htarget
  exact (hissues _).2 (hfinds _ (.unsigned hunsigned))

/-- Images that have to verify and do not were reported. -/
theorem signaturesDue_ofVerification (h : v.verify store root = .ok found)
    (hvalid : ∀ name, .invalidPartitionData name ∉ found.issues) :
    SignaturesDue (v.plan store root found) (State.ofVerification found) := by
  obtain ⟨-, -, hissues, -⟩ := verify_eq_ok h
  intro name record hreach hrecord hneeds
  rw [mem_queue_ofVerification]
  rw [ofVerification_eq] at hrecord ⊢
  cases hsigned : record.image.signatureValid with
  | true => exact .inr (.inr ⟨rfl, rfl⟩)
  | false =>
    refine .inr (.inl ?_)
    rcases hneeds with hkey | ⟨p, i, image, d, hreach', hholder, hd, rfl⟩
    -- The root has to be signed if it embeds a key, the others because a chain names them.
    · cases hreach with
      | root => exact (hissues _).2 (.enter (image_of_record h hrecord) (.unsigned hkey hsigned))
      | chain hreach' hholder hd =>
        obtain ⟨i, hi⟩ := List.getElem?_of_mem hd
        exact invalidSignature_of_chain h hvalid hreach' hholder hi hrecord hsigned
    · exact invalidSignature_of_chain h hvalid hreach' hholder hd hrecord hsigned

/-- Whatever is found by a verification whose repair was worked off can be mended. -/
theorem valid_of_drain {means : Means} {limit : Nat} {s : State}
    (h : (State.ofVerification found).drain means limit = .ok s) (name : String) :
    .invalidPartitionData name ∉ found.issues := by
  intro hmem
  refine State.invalidPartitionData_notMem_of_drain h name ?_
  exact mem_queue_ofVerification.2 hmem

/-- The invariant holds at the start of a repair, if nothing was reported that no repair mends. -/
theorem invariant_ofVerification (h : v.verify store root = .ok found)
    (hvalid : ∀ name, .invalidPartitionData name ∉ found.issues) :
    Invariant (v.plan store root found) (State.ofVerification found) where
  record {name record} hrecord := by
    rw [ofVerification_eq] at hrecord
    exact ⟨record, hrecord, rfl, rfl, rfl, fun _ => rfl⟩
  present {name first} hfirst := by
    rw [ofVerification_eq]
    exact ⟨first, hfirst⟩
  nodup := by
    rw [ofVerification_eq]
    exact List.nodup_nil
  references := by rw [ofVerification_eq]; rfl
  signer {name pair} hpair := by
    rw [ofVerification_eq] at hpair
    cases hpair
  queue := by
    rw [ofVerification_eq]
    exact Findings.nodup_foldl_noteIn List.nodup_nil _
  hashes := hashesDue_ofVerification
  mismatches hwaits := measured_of_mismatch h (mem_queue_ofVerification.1 hwaits)
  keys := keysDue_ofVerification h hvalid
  ownKeys := ownKeysDue_ofVerification h hvalid
  staleKeys := staleKeysEmbedded_ofVerification h
  signatures := signaturesDue_ofVerification h hvalid

end Records

end Verifier

end VerifiedBoot
