import VerifiedBoot.Proofs.Repair.Extent
import VerifiedBoot.Proofs.Walk.Termination

/-!
# The snapshot of a verification

What a verification that returns hands on to a repair: the references are those of all images that
chain descriptors lead to, the records are these images and the ones that hash descriptors made it
read, and no issue is in it twice. `Findings.Distinct` is what each step of a walk keeps.
-/

namespace VerifiedBoot

namespace Findings

/-- Whether nothing was noted twice. -/
structure Distinct (f : Findings) : Prop where
  loaded : f.loaded.Nodup
  issues : f.issues.Nodup
  references : f.references.Nodup

namespace Distinct

variable {f : Findings}

/-- An issue is not reported twice. -/
theorem report (h : f.Distinct) (issue : Issue) : (f.report issue).Distinct := by
  rw [report_eq]
  exact ⟨h.loaded, nodup_noteIn h.issues issue, h.references⟩

theorem reportIf (h : f.Distinct) (condition : Bool) (issue : Issue) :
    (f.reportIf condition issue).Distinct := by
  cases condition with
  | false => exact h
  | true => exact h.report issue

theorem load (h : f.Distinct) (name : String) : (f.load name).Distinct := by
  rw [load_eq]
  exact ⟨nodup_noteIn h.loaded name, h.issues, h.references⟩

theorem refer (h : f.Distinct) (p : Pending) (target : String) : (f.refer p target).Distinct := by
  rw [refer_eq]
  exact ⟨h.loaded, h.issues, nodup_noteIn h.references _⟩

end Distinct

end Findings

namespace Verifier

variable {v : Verifier} {store : Store} {root : String} {found : Verification}
variable {f f' : Findings}

/-- A measurement notes nothing twice. -/
theorem distinct_checkHash {holder : String} {index : Nat} {d : HashDescriptor} {size : Int}
    {checked : Bool} (hf : f.Distinct)
    (h : v.checkHash store holder index d size f = .ok (checked, f')) : f'.Distinct := by
  obtain ⟨m, -, h⟩ := Outcome.bind_eq_ok.1 h
  cases m with
  | none =>
    obtain ⟨-, rfl⟩ := Prod.mk.inj (Except.ok.inj h)
    exact hf.report _
  | some m =>
    obtain ⟨-, rfl⟩ := Prod.mk.inj (Except.ok.inj h)
    exact hf.reportIf _ _

/-- The check of a hash descriptor notes nothing twice. -/
theorem distinct_checkHashDescriptor {p : Pending} {d : HashDescriptor} (hf : f.Distinct)
    (h : v.checkHashDescriptor store p d f = .ok f') : f'.Distinct := by
  have hrefer := hf.refer p d.partitionName
  obtain ⟨info, -, h₁⟩ := Outcome.bind_eq_ok.1 h
  -- The cases are the ways through the check; each of them adds by `report`, `refer` and `load`
  -- alone.
  cases hfooter : info.bind (·.footer) with
  | none =>
    simp only [hfooter] at h₁
    obtain ⟨⟨checked, g⟩, hcheck, h₂⟩ := Outcome.bind_eq_ok.1 h₁
    obtain rfl := Except.ok.inj h₂
    exact distinct_checkHash hrefer hcheck
  | some footer =>
    simp only [hfooter] at h₁
    obtain ⟨image, -, h₂⟩ := Outcome.bind_eq_ok.1 h₁
    cases image with
    | none =>
      obtain rfl := Except.ok.inj h₂
      exact hrefer.report _
    | some image =>
      have hload := hrefer.load d.partitionName
      cases hlast : lastHash? image d.partitionName with
      | none =>
        simp only [hlast] at h₂
        obtain rfl := Except.ok.inj h₂
        exact hload.report _
      | some last =>
        simp only [hlast] at h₂
        obtain ⟨⟨checked, g⟩, hcheck, h₃⟩ := Outcome.bind_eq_ok.1 h₂
        have hinner := distinct_checkHash hload hcheck
        cases checked with
        | false =>
          obtain rfl := Except.ok.inj h₃
          exact hinner
        | true =>
          obtain ⟨⟨checked, g'⟩, hcheck', h₄⟩ := Outcome.bind_eq_ok.1 h₃
          obtain rfl := Except.ok.inj h₄
          exact distinct_checkHash hinner hcheck'

/-- The check of a chain descriptor notes nothing twice. -/
theorem distinct_checkChainDescriptor {p : Pending} {d : ChainDescriptor} {readable : Bool}
    (hf : f.Distinct) (h : v.checkChainDescriptor store p d f = .ok (readable, f')) :
    f'.Distinct := by
  have hrefer := hf.refer p d.partitionName
  obtain ⟨image, -, h⟩ := Outcome.bind_eq_ok.1 h
  cases image with
  | none =>
    obtain ⟨-, rfl⟩ := Prod.mk.inj (Except.ok.inj h)
    exact hrefer.report _
  | some image =>
    obtain ⟨-, rfl⟩ := Prod.mk.inj (Except.ok.inj h)
    exact ((hrefer.load _).reportIf _ _).reportIf _ _

/-- To enter a partition notes nothing twice. -/
theorem distinct_enter {name : String} {next : List Pending} (hf : f.Distinct)
    (h : v.enter store name f = .ok (next, f')) : f'.Distinct := by
  obtain ⟨image, -, h⟩ := Outcome.bind_eq_ok.1 h
  cases image with
  | none =>
    obtain ⟨-, rfl⟩ := Prod.mk.inj (Except.ok.inj h)
    exact hf.report _
  | some image =>
    obtain ⟨-, rfl⟩ := Prod.mk.inj (Except.ok.inj h)
    exact (hf.load _).reportIf _ _

/-- No step notes anything twice. -/
theorem Step.distinct {s t : Journey} (h : v.Step store s t) (hs : s.findings.Distinct) :
    t.findings.Distinct := by
  cases h with
  | hash _ hcheck => exact distinct_checkHashDescriptor hs hcheck
  | unreadable _ hcheck | known _ hcheck _ => exact distinct_checkChainDescriptor hs hcheck
  | enter _ hcheck _ henter =>
    exact distinct_enter (distinct_checkChainDescriptor hs hcheck) henter
  | other => exact hs

/-- A walk notes nothing twice. -/
theorem Steps.distinct {n : Nat} {s t : Journey} (h : v.Steps store n s t)
    (hs : s.findings.Distinct) : t.findings.Distinct := by
  induction h with
  | refl => exact hs
  | head hstep _ ih => exact ih (hstep.distinct hs)

section Outcome

variable (v store root)

/-- Where a walk starts: the root was entered. -/
def Starts (s : Journey) : Prop :=
  s.entered = [root] ∧ v.enter store root Findings.empty = .ok (s.agenda, s.findings)

/-- What is handed on of the findings of a walk. -/
def snapshot (f : Findings) : Verification where
  root
  records := f.loaded.filterMap fun name => (v.recordOf? store name).map (name, ·)
  issues := f.issues
  references := f.references

end Outcome

/-- A verification that could enter the root is the run of a walk to its end. -/
theorem exists_run {s : Journey} (hs : v.Starts store root s) :
    ∃ n t outcome, v.Steps store n s t ∧ v.Ends store t outcome ∧
      v.verify store root = v.snapshot store root <$> outcome := by
  obtain ⟨entered, agenda, f⟩ := s
  obtain ⟨rfl, henter⟩ := hs
  have hunvisited : ∀ name, name ∈ without store.names root ↔
      name ∈ store.names ∧ name ∉ [root] := by
    intro name
    rw [without, List.mem_filter, decide_eq_true_iff, List.mem_singleton]
  obtain ⟨n, t, hsteps, hends⟩ := @exists_steps v store _ agenda f [root] hunvisited
  refine ⟨n, t, _, hsteps, hends, ?_⟩
  rw [verify, show v.enter store root Findings.empty = .ok (agenda, f) from henter]
  cases hwalk : v.walk store (without store.names root) agenda f with
  | error e => simp only [bind, Except.bind, hwalk]; rfl
  | ok f' => simp only [bind, Except.bind, hwalk]; rfl

/-- What a verification notes it does not note twice. -/
theorem distinct_of_verify (h : v.verify store root = .ok found) :
    ∃ f : Findings, f.Distinct ∧ found = v.snapshot store root f := by
  obtain ⟨⟨agenda, f⟩, henter, -⟩ := Outcome.bind_eq_ok.1 h
  have hstarts : v.Starts store root ⟨[root], agenda, f⟩ := ⟨rfl, henter⟩
  obtain ⟨n, t, outcome, hsteps, hends, hverify⟩ := exists_run hstarts
  obtain ⟨f', rfl, rfl⟩ := Outcome.map_eq_ok.1 (hverify.symm.trans h)
  have hempty : Findings.empty.Distinct := ⟨List.nodup_nil, List.nodup_nil, List.nodup_nil⟩
  have hdistinct := hsteps.distinct (distinct_enter hempty henter)
  rw [(findings_of_ends hends).2] at hdistinct
  exact ⟨f', hdistinct, rfl⟩

/-- The names under which something is recorded are among those that were loaded, in their
order. -/
theorem keys_sublist (f : String → Option Record) (names : List String) :
    ((names.filterMap fun name => (f name).map (name, ·)).map (·.1)).Sublist names := by
  induction names with
  | nil => exact .slnil
  | cons name names ih =>
    cases hf : f name with
    | none =>
      rw [List.filterMap_cons_none (by rw [hf]; rfl)]
      exact ih.cons name
    | some record =>
      rw [List.filterMap_cons_some (by rw [hf]; rfl), List.map_cons]
      exact ih.cons_cons name

variable (v store root) in
/-- The partitions whose images a verification reads: those that chain descriptors lead to, and
those with a footer that hash descriptors of these name. -/
inductive Reads : String → Prop
  | reached {name : String} : store.Reach v.suite root name → Reads name
  | hashed {holder : String} {image : Image} {d : HashDescriptor} {data : Bytes} {footer : Footer} :
    store.Reach v.suite root holder → store.image v.suite holder = .ok (some image) →
    .hash d ∈ image.descriptors → store.open? d.partitionName = .ok data → Footed data footer →
    Reads d.partitionName

/-- A partition has a footer if one is found in it. -/
theorem footed_of_info {name : String} {info : Option PartitionInfo} {footer : Footer}
    (hinfo : store.info name = .ok info) (hfooter : info.bind (·.footer) = some footer) :
    ∃ data, store.open? name = .ok data ∧ Footed data footer := by
  obtain ⟨data, hdata, hprobe⟩ := Outcome.bind_eq_ok.1 hinfo
  obtain rfl := Except.ok.inj hprobe
  exact ⟨data, hdata, PartitionInfo.probe_eq_footer.1 hfooter⟩

/-- The images that were found are those of the partitions that are read. -/
theorem finds_loaded_iff (h : v.verify store root = .ok found) {name : String} {image : Image}
    (himage : store.image v.suite name = .ok (some image)) :
    v.Finds store root (.loaded name) ↔ v.Reads store root name := by
  constructor
  · intro hfinds
    -- An image is loaded as the root, for a hash of a partition with a footer, or for a chain
    -- descriptor.
    rcases finds_cases hfinds with ⟨_, -, hx⟩ |
      ⟨p, d, ⟨holder, outer, hreach, houter, hmem⟩, hp, hx⟩ |
      ⟨p, d, _, ⟨holder, outer, hreach, houter, hmem⟩, hp, -, hx⟩
    · cases hx with
      | loaded => exact .reached .root
    · have hd := List.mem_of_getElem? (Pending.mem_ofImage.1 hmem).2
      rw [hp] at hd
      rcases hx with href | hx
      · cases href
      · cases hx with
        | loaded hinfo hfooter _ =>
          obtain ⟨data, hdata, hfooted⟩ := footed_of_info hinfo hfooter
          exact .hashed hreach houter hd hdata hfooted
        | bare _ _ _ hx | embedded _ _ _ _ _ hx | outer _ _ _ _ _ _ hx => cases hx
    · have hd := List.mem_of_getElem? (Pending.mem_ofImage.1 hmem).2
      rw [hp] at hd
      rcases hx with href | hx
      · cases href
      · cases hx with
        | loaded => exact .reached (hreach.chain houter hd)
  · intro hreads
    cases hreads with
    | reached hreach => exact loaded_of_reach h hreach himage
    | @hashed holder outer d data footer hreach houter hd hdata hfooted =>
      obtain ⟨i, hi⟩ := List.getElem?_of_mem hd
      have hvisits : v.Visits store root ⟨holder, i, .hash d⟩ :=
        ⟨holder, outer, hreach, houter, Pending.mem_ofImage.2 ⟨rfl, hi⟩⟩
      obtain ⟨g, hg, hfound⟩ := inspect_of_visits h hvisits
      have hinfo : store.info d.partitionName = .ok (PartitionInfo.probe data) :=
        Outcome.bind_eq_ok.2 ⟨data, hdata, rfl⟩
      have hloaded := HashFinds.loaded (p := ⟨holder, i, .hash d⟩) hinfo
        (PartitionInfo.probe_eq_footer.2 hfooted) himage
      exact hfound _ ((holds_inspect_hash rfl hg _).2 (.inr hloaded))

/-- **A verification ends, with the snapshot of all that it leads to.** No walk from the root has
more steps than there are descriptors in the store, and the outcome is that of the walk that goes on
to its end. A verification that returns has noted every reference of the images that chain
descriptors lead to, has a record of each image that it had to read, and has no issue twice. -/
theorem verify_closure (v : Verifier) (store : Store) (root : String) :
    (∀ s, v.Starts store root s →
      (∀ n t, v.Steps store n s t → n ≤ (store.allDescriptors v.suite).length) ∧
      ∃ n t outcome, v.Steps store n s t ∧ v.Ends store t outcome ∧
        v.verify store root = v.snapshot store root <$> outcome) ∧
    (∀ e, v.enter store root Findings.empty = .error e → v.verify store root = .error e) ∧
    ∀ found, v.verify store root = .ok found →
      found.root = root ∧
      (∀ r, r ∈ found.references ↔ ∃ (i : Nat) (image : Image) (d : Descriptor),
        store.Reach v.suite root r.holder ∧ store.image v.suite r.holder = .ok (some image) ∧
        r.index = i ∧ image.descriptors[i]? = some d ∧ d.target? = some r.partition) ∧
      (found.records.map (·.1)).Nodup ∧
      (∀ name record, found.records.lookup name = some record ↔ v.Reads store root name ∧
        ∃ data info, store.open? name = .ok data ∧ PartitionInfo.probe data = some info ∧
          Image.parse v.suite (data.drop info.vbmetaOffset.toNat) = .ok record.image ∧
          record.footer = info.footer) ∧
      found.issues.Nodup := by
  refine ⟨fun s hs => ⟨fun n t hsteps => ?_, exists_run hs⟩, fun e henter => ?_, fun found h => ?_⟩
  · obtain ⟨entered, agenda, f⟩ := s
    obtain ⟨rfl, henter⟩ := hs
    exact hsteps.le_allDescriptors henter
  · rw [verify, henter]
    rfl
  · obtain ⟨f, hdistinct, rfl⟩ := distinct_of_verify h
    refine ⟨rfl, fun r => ?_, ?_, fun name record => ?_, hdistinct.issues⟩
    · rw [mem_references_iff h]
      constructor
      · rintro ⟨p, t, ⟨holder, image, hreach, himage, hmem⟩, htarget, rfl⟩
        obtain ⟨rfl, hd⟩ := Pending.mem_ofImage.1 hmem
        exact ⟨p.index, image, p.descriptor, hreach, himage, rfl, hd, htarget⟩
      · obtain ⟨partition, holder, index⟩ := r
        rintro ⟨i, image, d, hreach, himage, rfl, hd, htarget⟩
        exact ⟨⟨holder, i, d⟩, partition,
          ⟨holder, image, hreach, himage, Pending.mem_ofImage.2 ⟨rfl, hd⟩⟩, htarget, rfl⟩
    -- The records are looked up for the partitions that were loaded, each of them once.
    · exact hdistinct.loaded.sublist (keys_sublist _ _)
    · rw [lookup_records h, recordOf?_eq_some]
      refine and_congr_left ?_
      rintro ⟨data, info, hdata, hprobe, hparse, -⟩
      exact finds_loaded_iff h (Store.image_eq_ok.2
        ⟨data, hdata, PartitionInfo.readImage_eq_some.2 ⟨info, hprobe, hparse⟩⟩)

/-- The verification of the store with a chain descriptor ends after one step, with that one
reference. -/
theorem verify_closure_chainStore :
    verify ⟨.standard, defaultChunkSize⟩ chainStore "vbmeta" = .ok chainFound ∧
      ∀ r, r ∈ chainFound.references ↔ ∃ (i : Nat) (image : Image) (d : Descriptor),
        chainStore.Reach .standard "vbmeta" r.holder ∧
        chainStore.image .standard r.holder = .ok (some image) ∧
        r.index = i ∧ image.descriptors[i]? = some d ∧ d.target? = some r.partition :=
  ⟨verify_chainStore, ((verify_closure ⟨.standard, defaultChunkSize⟩ chainStore "vbmeta").2.2 _
    verify_chainStore).2.1⟩

end Verifier

end VerifiedBoot
