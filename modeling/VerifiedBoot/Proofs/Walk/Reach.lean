import VerifiedBoot.Proofs.Walk.Checks

/-!
# What a verification visits

A verification visits every descriptor of every image that chain descriptors lead to from the root,
on a graph of whatever shape, and it finds what each of these descriptors gives on its own, and
nothing else. It returns if and only if the root can be opened and each of them can be checked.

`Verifier.Scheduled` is the invariant of the walk: what is on the agenda, and what a chain
descriptor leads to as long as its partition was not entered yet.
-/

namespace VerifiedBoot

/-- The partitions that chain descriptors lead to from a root. -/
inductive Store.Reach (store : Store) (suite : Suite) (root : String) : String → Prop
  | root : Reach store suite root root
  | chain {name : String} {image : Image} {d : ChainDescriptor} :
    Reach store suite root name → store.image suite name = .ok (some image) →
    .chain d ∈ image.descriptors → Reach store suite root d.partitionName

namespace Pending

/-- The descriptors of an image are checked where they stand. -/
theorem mem_ofImage {holder : String} {image : Image} {p : Pending} :
    p ∈ ofImage holder image ↔
      p.holder = holder ∧ image.descriptors[p.index]? = some p.descriptor := by
  obtain ⟨name, index, d⟩ := p
  simp only [ofImage, List.mem_map, Prod.exists, mk.injEq, List.mem_zipIdx_iff_getElem?]
  constructor
  · rintro ⟨d, i, hd, rfl, rfl, rfl⟩
    exact ⟨rfl, hd⟩
  · rintro ⟨rfl, hd⟩
    exact ⟨d, index, hd, rfl, rfl, rfl⟩

end Pending

namespace Verifier

variable (v : Verifier) (store : Store)

/-- The descriptors of the images that chain descriptors lead to. -/
def Visits (root : String) (p : Pending) : Prop :=
  ∃ name image, store.Reach v.suite root name ∧ store.image v.suite name = .ok (some image) ∧
    p ∈ Pending.ofImage name image

/-- The descriptors that a walk still comes to. -/
inductive Scheduled (unvisited : List String) (agenda : List Pending) : Pending → Prop
  | here {p : Pending} : p ∈ agenda → Scheduled unvisited agenda p
  | enter {p q : Pending} {d : ChainDescriptor} {image : Image} :
    Scheduled unvisited agenda p → p.descriptor = .chain d → d.partitionName ∈ unvisited →
    store.image v.suite d.partitionName = .ok (some image) →
    q ∈ Pending.ofImage d.partitionName image → Scheduled unvisited agenda q

variable {v store}

/-- Fewer partitions to enter and a shorter agenda lead to no more descriptors. -/
theorem Scheduled.mono {unvisited unvisited' : List String} {agenda agenda' : List Pending}
    {p : Pending} (h : v.Scheduled store unvisited agenda p) (hsub : unvisited ⊆ unvisited')
    (hagenda : ∀ q ∈ agenda, v.Scheduled store unvisited' agenda' q) :
    v.Scheduled store unvisited' agenda' p := by
  induction h with
  | here hp => exact hagenda _ hp
  | enter _ hd hmem himage hq ih => exact .enter ih hd (hsub hmem) himage hq

/-- A descriptor that leads nowhere is the only one that goes with it. -/
theorem scheduled_cons_of_leaf {unvisited : List String} {agenda : List Pending} {p q : Pending}
    (hleaf : ∀ d image, p.descriptor = .chain d → d.partitionName ∈ unvisited →
      store.image v.suite d.partitionName ≠ .ok (some image)) :
    v.Scheduled store unvisited (p :: agenda) q ↔ q = p ∨ v.Scheduled store unvisited agenda q := by
  constructor
  · intro h
    induction h with
    | here hq =>
      rcases List.mem_cons.1 hq with rfl | hq
      · exact .inl rfl
      · exact .inr (.here hq)
    | @enter r q d image _ hd hmem himage hq ih =>
      rcases ih with rfl | ih
      · exact absurd himage (hleaf d image hd hmem)
      · exact .inr (.enter ih hd hmem himage hq)
  · rintro (rfl | h)
    · exact .here List.mem_cons_self
    · exact h.mono (List.Subset.refl _) fun q hq => .here (List.mem_cons_of_mem _ hq)

/-- A chain descriptor that leads to a partition for the first time puts the descriptors of its
image in front. -/
theorem scheduled_cons_of_chain {unvisited : List String} {agenda : List Pending} {p q : Pending}
    {d : ChainDescriptor} {image : Image} (hp : p.descriptor = .chain d)
    (hmem : d.partitionName ∈ unvisited)
    (himage : store.image v.suite d.partitionName = .ok (some image)) :
    v.Scheduled store unvisited (p :: agenda) q ↔ q = p ∨
      v.Scheduled store (without unvisited d.partitionName)
        (Pending.ofImage d.partitionName image ++ agenda) q := by
  constructor
  · intro h
    induction h with
    | here hq =>
      rcases List.mem_cons.1 hq with rfl | hq
      · exact .inl rfl
      · exact .inr (.here (List.mem_append_right _ hq))
    | @enter r q d' image' _ hd' hmem' himage' hq ih =>
      by_cases hname : d'.partitionName = d.partitionName
      · -- The image is the one that is put in front now.
        rw [hname] at himage' hq
        obtain rfl : image = image' := by simpa [himage] using himage'
        exact .inr (.here (List.mem_append_left _ hq))
      · rcases ih with rfl | ih
        · obtain rfl : d = d' := by simpa [hp] using hd'
          exact absurd rfl hname
        · have hleft : d'.partitionName ∈ without unvisited d.partitionName :=
            List.mem_filter.2 ⟨hmem', by simpa using hname⟩
          exact .inr (.enter ih hd' hleft himage' hq)
  · have hself : v.Scheduled store unvisited (p :: agenda) p := .here List.mem_cons_self
    rintro (rfl | h)
    · exact hself
    · refine h.mono (fun name h => (List.mem_filter.1 h).1) fun q hq => ?_
      rcases List.mem_append.1 hq with hq | hq
      · exact .enter hself hp hmem himage hq
      · exact .here (List.mem_cons_of_mem _ hq)

/-- To enter a partition after the chain descriptor that leads to it finds nothing more. -/
theorem enterFinds_of_chain {p : Pending} {d : ChainDescriptor} {g : Findings} {image : Image}
    (hp : p.descriptor = .chain d) (hg : v.inspect store p = .ok g)
    (himage : store.image v.suite d.partitionName = .ok (some image)) {x : Finding}
    (h : EnterFinds d.partitionName (some image) x) : g.Holds x := by
  obtain ⟨image', himage', hholds⟩ := holds_inspect_chain hp hg
  obtain rfl := Outcome.ok_unique himage himage'
  refine (hholds x).2 (.inr ?_)
  cases h with
  | loaded => exact .loaded
  | unsigned _ hvalid => exact .unsigned hvalid

variable (v store) in
/-- What a walk leads to: each scheduled descriptor was checked, and what each of them gives was
added. -/
structure Walked (unvisited : List String) (agenda : List Pending) (f f' : Findings) : Prop where
  inspected : ∀ p, v.Scheduled store unvisited agenda p → ∃ g, v.inspect store p = .ok g
  holds : ∀ x, f'.Holds x ↔ f.Holds x ∨
    ∃ p g, v.Scheduled store unvisited agenda p ∧ v.inspect store p = .ok g ∧ g.Holds x

/-- One step: a descriptor is checked, and the walk goes on with what it leads to. -/
theorem Walked.cons {unvisited unvisited' : List String} {agenda agenda' : List Pending}
    {p : Pending} {f f₁ f' g : Findings}
    (hscheduled : ∀ q, v.Scheduled store unvisited (p :: agenda) q ↔
      q = p ∨ v.Scheduled store unvisited' agenda' q)
    (hg : v.inspect store p = .ok g) (hadded : ∀ x, f₁.Holds x ↔ f.Holds x ∨ g.Holds x)
    (h : v.Walked store unvisited' agenda' f₁ f') :
    v.Walked store unvisited (p :: agenda) f f' where
  inspected q hq := by
    rcases (hscheduled q).1 hq with rfl | hq
    · exact ⟨g, hg⟩
    · exact h.inspected q hq
  -- What the step found comes before the findings of the rest, which no step takes back.
  holds x := by
    rw [h.holds, hadded, or_assoc]
    refine or_congr_right ⟨?_, ?_⟩
    · rintro (hx | ⟨q, g', hq, hg', hx⟩)
      · exact ⟨p, g, (hscheduled p).2 (.inl rfl), hg, hx⟩
      · exact ⟨q, g', (hscheduled q).2 (.inr hq), hg', hx⟩
    · rintro ⟨q, g', hq, hg', hx⟩
      rcases (hscheduled q).1 hq with rfl | hq
      · obtain rfl := Outcome.ok_unique hg hg'
        exact .inl hx
      · exact .inr ⟨q, g', hq, hg', hx⟩

/-- A descriptor that leads nowhere adds what it gives on its own. -/
theorem Walked.leaf {unvisited : List String} {agenda : List Pending} {p : Pending}
    {f f₁ f' g : Findings}
    (hleaf : ∀ d image, p.descriptor = .chain d → d.partitionName ∈ unvisited →
      store.image v.suite d.partitionName ≠ .ok (some image))
    (hg : v.inspect store p = .ok g) (hmerge : f.merge g = f₁)
    (h : v.Walked store unvisited agenda f₁ f') : v.Walked store unvisited (p :: agenda) f f' := by
  refine h.cons (fun q => scheduled_cons_of_leaf hleaf) hg fun x => ?_
  rw [← hmerge, Findings.holds_merge]

/-- **The run lemma of the walk.** -/
theorem walked_of_walk {unvisited : List String} {agenda : List Pending} {f f' : Findings}
    (h : v.walk store unvisited agenda f = .ok f') : v.Walked store unvisited agenda f f' := by
  revert h
  -- The cases are those of the walk: a hash, and a chain descriptor that leads to a partition that
  -- is entered, to one that was entered before or to none.
  fun_induction Verifier.walk v store unvisited agenda f with
  | case1 unvisited f =>
    intro h
    obtain rfl := Except.ok.inj h
    have hnone (p : Pending) : ¬v.Scheduled store unvisited [] p := by
      intro hp
      induction hp with
      | here hp => exact absurd hp List.not_mem_nil
      | enter _ _ _ _ _ ih => exact ih
    exact ⟨fun p hp => absurd hp (hnone p), fun x =>
      ⟨.inl, fun hx => hx.elim id fun ⟨p, _, hp, _⟩ => absurd hp (hnone p)⟩⟩
  | case2 => exact nofun
  | case3 unvisited f p rest d hd f₁ hcheck ih =>
    intro h
    obtain ⟨g, hg, hmerge⟩ := (v.checkHashDescriptor_eq_ok store hd).1 hcheck
    refine (ih h).leaf (fun d' _ hd' => ?_) hg hmerge
    exact absurd (hd.symm.trans hd') (by simp)
  | case4 => exact nofun
  | case5 => exact nofun
  | case6 unvisited f p rest d hd f₁ hmem next f₂ henter hcheck ih =>
    intro h
    obtain ⟨g, hg, hmerge⟩ := (v.exists_checkChainDescriptor store hd).1 ⟨true, hcheck⟩
    obtain ⟨image, himage, hsome⟩ := v.readable_of_checkChainDescriptor store hcheck
    obtain ⟨image, rfl⟩ := Option.isSome_iff_exists.1 hsome
    obtain ⟨image', himage', rfl, hentered⟩ := holds_enter henter
    obtain rfl := Outcome.ok_unique himage himage'
    -- What entering the partition adds was added by the check of the chain descriptor.
    refine (ih h).cons (fun q => scheduled_cons_of_chain hd hmem himage) hg fun x => ?_
    rw [hentered, ← hmerge, Findings.holds_merge, or_assoc]
    refine or_congr_right ⟨?_, .inl⟩
    rintro (hx | hx)
    · exact hx
    · exact enterFinds_of_chain hd hg himage hx
  | case7 unvisited f p rest d hd f₁ hmem hcheck ih =>
    intro h
    obtain ⟨g, hg, hmerge⟩ := (v.exists_checkChainDescriptor store hd).1 ⟨true, hcheck⟩
    refine (ih h).leaf (fun d' _ hd' hmem' => ?_) hg hmerge
    obtain rfl : d = d' := by simpa [hd] using hd'
    exact absurd hmem' hmem
  | case8 unvisited f p rest d hd readable f₁ hcheck hread ih =>
    intro h
    obtain ⟨g, hg, hmerge⟩ := (v.exists_checkChainDescriptor store hd).1 ⟨readable, hcheck⟩
    obtain ⟨image, himage, hnone⟩ := v.readable_of_checkChainDescriptor store hcheck
    refine (ih h).leaf (fun d' image' hd' _ himage' => ?_) hg hmerge
    obtain rfl : d = d' := by simpa [hd] using hd'
    obtain rfl := Outcome.ok_unique himage himage'
    exact hread hnone.symm
  | case9 unvisited f p rest hhash hchain ih =>
    intro h
    exact (ih h).leaf (fun d' _ hd' => absurd hd' (hchain d')) (inspect_other hhash hchain)
      (Findings.merge_empty f)

/-- A walk returns if each scheduled descriptor can be checked. -/
theorem exists_walk {unvisited : List String} {agenda : List Pending} {f : Findings}
    (h : ∀ p, v.Scheduled store unvisited agenda p → ∃ g, v.inspect store p = .ok g) :
    ∃ f', v.walk store unvisited agenda f = .ok f' := by
  -- In the cases with an error a scheduled descriptor could not be checked after all.
  fun_induction Verifier.walk v store unvisited agenda f with
  | case1 unvisited f => exact ⟨f, rfl⟩
  | case2 unvisited f p rest d hd e hcheck =>
    obtain ⟨g, hg⟩ := h p (.here List.mem_cons_self)
    have hok : v.checkHashDescriptor store p d f = .ok (Findings.merge f g) :=
      (v.checkHashDescriptor_eq_ok store hd).2 ⟨g, hg, rfl⟩
    exact absurd (hcheck.symm.trans hok) (by simp)
  | case3 unvisited f p rest d hd f₁ hcheck ih =>
    exact ih fun q hq => h q (hq.mono (List.Subset.refl _) fun q hq => .here (.tail p hq))
  | case4 unvisited f p rest d hd e hcheck =>
    obtain ⟨g, hg⟩ := h p (.here List.mem_cons_self)
    obtain ⟨readable, hok⟩ := (v.exists_checkChainDescriptor store hd).2 ⟨g, hg, rfl⟩
    exact absurd (hcheck.symm.trans hok) (by simp)
  | case5 unvisited f p rest d hd f₁ hmem e henter hcheck =>
    obtain ⟨image, himage, -⟩ := v.readable_of_checkChainDescriptor store hcheck
    unfold enter at henter
    rw [himage] at henter
    cases image <;> cases henter
  | case6 unvisited f p rest d hd f₁ hmem next f₂ henter hcheck ih =>
    obtain ⟨image, himage, hsome⟩ := v.readable_of_checkChainDescriptor store hcheck
    obtain ⟨image, rfl⟩ := Option.isSome_iff_exists.1 hsome
    obtain ⟨image', himage', rfl, -⟩ := holds_enter henter
    obtain rfl := Outcome.ok_unique himage himage'
    exact ih fun q hq => h q ((scheduled_cons_of_chain hd hmem himage).2 (.inr hq))
  | case7 unvisited f p rest d hd f₁ hmem hcheck ih =>
    exact ih fun q hq => h q (hq.mono (List.Subset.refl _) fun q hq => .here (.tail p hq))
  | case8 unvisited f p rest d hd readable f₁ hcheck hread ih =>
    exact ih fun q hq => h q (hq.mono (List.Subset.refl _) fun q hq => .here (.tail p hq))
  | case9 unvisited f p rest hhash hchain ih =>
    exact ih fun q hq => h q (hq.mono (List.Subset.refl _) fun q hq => .here (.tail p hq))

section Steps

variable {unvisited : List String} {rest next : List Pending} {f f₁ f₂ : Findings} {p : Pending}

/-- Behind a hash that was checked, the walk goes on with what was found. -/
theorem walk_of_hash {d : HashDescriptor} (hd : p.descriptor = .hash d)
    (hcheck : v.checkHashDescriptor store p d f = .ok f₁) :
    v.walk store unvisited (p :: rest) f = v.walk store unvisited rest f₁ := by
  rw [walk, hd]
  simp only
  rw [hcheck]

/-- Behind a chain descriptor, the walk goes on in the partition that it names, if this was not
entered before. -/
theorem walk_of_chain {d : ChainDescriptor} (hd : p.descriptor = .chain d)
    (hcheck : v.checkChainDescriptor store p d f = .ok (true, f₁))
    (hleft : d.partitionName ∈ unvisited)
    (henter : v.enter store d.partitionName f₁ = .ok (next, f₂)) :
    v.walk store unvisited (p :: rest) f =
      v.walk store (without unvisited d.partitionName) (next ++ rest) f₂ := by
  rw [walk, hd]
  simp only
  rw [hcheck]
  simp only
  rw [if_pos trivial, if_pos hleft, henter]

/-- A partition that was entered before is not entered again. -/
theorem walk_of_chain_entered {d : ChainDescriptor} (hd : p.descriptor = .chain d)
    (hcheck : v.checkChainDescriptor store p d f = .ok (true, f₁))
    (hentered : d.partitionName ∉ unvisited) :
    v.walk store unvisited (p :: rest) f = v.walk store unvisited rest f₁ := by
  rw [walk, hd]
  simp only
  rw [hcheck]
  simp only
  rw [if_pos trivial, if_neg hentered]

/-- Other descriptors are passed over. -/
theorem walk_of_other (hhash : ∀ d, p.descriptor ≠ .hash d)
    (hchain : ∀ d, p.descriptor ≠ .chain d) :
    v.walk store unvisited (p :: rest) f = v.walk store unvisited rest f := by
  rw [walk]
  split
  · next d hd => exact absurd hd (hhash d)
  · next d hd => exact absurd hd (hchain d)
  · rfl

theorem walk_nil : v.walk store unvisited [] f = .ok f := by
  rw [walk]

end Steps

theorem mem_names_of_image {name : String} {image : Option Image}
    (h : store.image v.suite name = .ok image) : name ∈ store.names := by
  obtain ⟨data, hdata, -⟩ := Outcome.bind_eq_ok.1 h
  exact Store.mem_names_of_open hdata

/-- From the agenda of the root, a walk comes to what chain descriptors lead to. -/
theorem scheduled_root {root : String} {image : Option Image}
    (himage : store.image v.suite root = .ok image) (p : Pending) :
    v.Scheduled store (without store.names root) (image.elim [] (Pending.ofImage root)) p ↔
      v.Visits store root p := by
  constructor
  · intro h
    induction h with
    | here hp =>
      cases image with
      | none => exact absurd hp List.not_mem_nil
      | some image => exact ⟨root, image, .root, himage, hp⟩
    | @enter q p d image' _ hd _ himage' hp ih =>
      obtain ⟨name, holder, hreach, hholder, hq⟩ := ih
      have hmem : .chain d ∈ holder.descriptors := by
        rw [← hd]
        exact List.mem_of_getElem? (Pending.mem_ofImage.1 hq).2
      exact ⟨d.partitionName, image', hreach.chain hholder hmem, himage', hp⟩
  · rintro ⟨name, holder, hreach, hholder, hp⟩
    -- Every partition but the root is entered through a chain descriptor of one that is scheduled.
    induction hreach generalizing holder p with
    | root =>
      obtain rfl := Outcome.ok_unique himage hholder
      exact .here hp
    | @chain name image' d _ himage' hmem ih =>
      by_cases hname : d.partitionName = root
      · rw [hname] at hholder hp
        obtain rfl := Outcome.ok_unique himage hholder
        exact .here hp
      · obtain ⟨index, hindex⟩ := List.getElem?_of_mem hmem
        have hq : (⟨name, index, .chain d⟩ : Pending) ∈ Pending.ofImage name image' :=
          Pending.mem_ofImage.2 ⟨rfl, hindex⟩
        have hleft : d.partitionName ∈ without store.names root :=
          List.mem_filter.2 ⟨mem_names_of_image hholder, by simpa using hname⟩
        exact .enter (ih _ _ himage' hq) rfl hleft hholder hp

variable (v store) in
/-- Everything that there is to find from a root. -/
inductive Finds (root : String) : Finding → Prop
  | enter {image : Option Image} {x : Finding} : store.image v.suite root = .ok image →
    EnterFinds root image x → Finds root x
  | visit {p : Pending} {g : Findings} {x : Finding} : v.Visits store root p →
    v.inspect store p = .ok g → g.Holds x → Finds root x

/-- **What a verification finds.** If it returns, the root could be opened, each descriptor that
chain descriptors lead to was checked, and the issues and references are what was there to find. -/
theorem verify_eq_ok {root : String} {found : Verification}
    (h : v.verify store root = .ok found) :
    (∃ image, store.image v.suite root = .ok image) ∧
      (∀ p, v.Visits store root p → ∃ g, v.inspect store p = .ok g) ∧
      (∀ issue, issue ∈ found.issues ↔ v.Finds store root (.issue issue)) ∧
      (∀ reference, reference ∈ found.references ↔ v.Finds store root (.reference reference)) ∧
      ∃ loaded : List String, (∀ name, name ∈ loaded ↔ v.Finds store root (.loaded name)) ∧
        found.records = loaded.filterMap fun name => (v.recordOf? store name).map (name, ·) := by
  obtain ⟨⟨agenda, f⟩, henter, h₁⟩ := Outcome.bind_eq_ok.1 h
  obtain ⟨f', hwalk, h₂⟩ := Outcome.bind_eq_ok.1 h₁
  obtain rfl := Except.ok.inj h₂
  obtain ⟨image, himage, rfl, hentered⟩ := holds_enter henter
  have hwalked := walked_of_walk hwalk
  -- Nothing was found before the root was entered, and the walk added the rest.
  have hfinds (x : Finding) : f'.Holds x ↔ v.Finds store root x := by
    rw [hwalked.holds, hentered]
    constructor
    · rintro ((hx | hx) | ⟨p, g, hp, hg, hx⟩)
      · exact absurd hx (Findings.not_holds_empty x)
      · exact .enter himage hx
      · exact .visit ((scheduled_root himage p).1 hp) hg hx
    · rintro (⟨himage', hx⟩ | ⟨hp, hg, hx⟩)
      · obtain rfl := Outcome.ok_unique himage himage'
        exact .inl (.inr hx)
      · exact .inr ⟨_, _, (scheduled_root himage _).2 hp, hg, hx⟩
  exact ⟨⟨image, himage⟩, fun p hp => hwalked.inspected p ((scheduled_root himage p).2 hp),
    fun issue => hfinds (.issue issue), fun reference => hfinds (.reference reference), f'.loaded,
    fun name => hfinds (.loaded name), rfl⟩

/-- A verification returns if the root can be opened and each descriptor can be checked. -/
theorem exists_verify {root : String} {image : Option Image}
    (himage : store.image v.suite root = .ok image)
    (h : ∀ p, v.Visits store root p → ∃ g, v.inspect store p = .ok g) :
    ∃ found, v.verify store root = .ok found := by
  have henter : ∃ next f, v.enter store root Findings.empty = .ok (next, f) := by
    unfold enter
    rw [himage]
    cases image <;> exact ⟨_, _, rfl⟩
  obtain ⟨next, f, henter⟩ := henter
  obtain ⟨image', himage', rfl, -⟩ := holds_enter henter
  obtain rfl := Outcome.ok_unique himage himage'
  obtain ⟨f', hwalk⟩ := @exists_walk v store (without store.names root) _ f fun p hp =>
    h p ((scheduled_root himage p).1 hp)
  exact ⟨_, Outcome.bind_eq_ok.2 ⟨_, henter, Outcome.bind_eq_ok.2 ⟨f', hwalk, rfl⟩⟩⟩

/-- Whatever is found is found by entering the root, or by a hash or a chain descriptor. -/
theorem finds_cases {root : String} {x : Finding} (h : v.Finds store root x) :
    (∃ image, store.image v.suite root = .ok image ∧ EnterFinds root image x) ∨
      (∃ p d, v.Visits store root p ∧ p.descriptor = .hash d ∧
        (x = .reference ⟨d.partitionName, p.holder, p.index⟩ ∨ HashFinds v store p d x)) ∨
      ∃ p d image, v.Visits store root p ∧ p.descriptor = .chain d ∧
        store.image v.suite d.partitionName = .ok image ∧
        (x = .reference ⟨d.partitionName, p.holder, p.index⟩ ∨ ChainFinds p d image x) := by
  cases h with
  | enter himage hfinds => exact .inl ⟨_, himage, hfinds⟩
  | @visit p g _ hvisits hg hholds =>
    cases hp : p.descriptor with
    | hash d => exact .inr (.inl ⟨p, d, hvisits, hp, (holds_inspect_hash hp hg x).1 hholds⟩)
    | chain d =>
      obtain ⟨image, himage, hiff⟩ := holds_inspect_chain hp hg
      exact .inr (.inr ⟨p, d, image, hvisits, hp, himage, (hiff x).1 hholds⟩)
    | hashtree _ | property _ | cmdline _ | unknown _ =>
      have htarget : p.descriptor.target? = none := by
        rw [hp]
        rfl
      exact absurd hholds (not_holds_inspect htarget hg x)

/-- An issue of another kind than those of hash descriptors is found by entering the root or by a
chain descriptor. -/
theorem entered_or_chained {root : String} {issue : Issue} (h : v.Finds store root (.issue issue))
    (hdata : ∀ name, issue ≠ .invalidPartitionData name)
    (hhash : ∀ holder index size digest, issue ≠ .hashMismatch holder index size digest) :
    (∃ image, store.image v.suite root = .ok image ∧ EnterFinds root image (.issue issue)) ∨
      ∃ p d image, v.Visits store root p ∧ p.descriptor = .chain d ∧
        store.image v.suite d.partitionName = .ok image ∧ ChainFinds p d image (.issue issue) := by
  rcases finds_cases h with hentered | ⟨p, d, -, -, href | hfinds⟩ |
    ⟨p, d, image, hvisits, hp, himage, href | hfinds⟩
  · exact .inl hentered
  · cases href
  · rcases hfinds.issue_cases with ⟨name, rfl⟩ | ⟨holder, index, size, digest, rfl⟩
    · exact absurd rfl (hdata name)
    · exact absurd rfl (hhash holder index size digest)
  · cases href
  · exact .inr ⟨p, d, image, hvisits, hp, himage, hfinds⟩

/-- The references are the visited descriptors that vouch for a partition. -/
theorem mem_references_iff {root : String} {found : Verification}
    (h : v.verify store root = .ok found) {r : Reference} :
    r ∈ found.references ↔ ∃ p t, v.Visits store root p ∧ p.descriptor.target? = some t ∧
      r = ⟨t, p.holder, p.index⟩ := by
  obtain ⟨-, hinspected, -, hreferences, -⟩ := verify_eq_ok h
  rw [hreferences]
  constructor
  · intro hfinds
    -- Only checking a hash or a chain descriptor leaves a reference, and each exactly its own.
    rcases finds_cases hfinds with ⟨image, -, hx⟩ | ⟨p, d, hvisits, hp, hx⟩ |
      ⟨p, d, image, hvisits, hp, -, hx⟩
    · cases hx
    · rcases hx with href | hx
      · exact ⟨p, _, hvisits, by rw [hp]; rfl, Finding.reference.inj href⟩
      · cases hx with
        | bare _ _ _ hx | embedded _ _ _ _ _ hx | outer _ _ _ _ _ _ hx => cases hx
    · rcases hx with href | hx
      · exact ⟨p, _, hvisits, by rw [hp]; rfl, Finding.reference.inj href⟩
      · cases hx
  · rintro ⟨p, t, hvisits, htarget, rfl⟩
    obtain ⟨g, hg⟩ := hinspected p hvisits
    refine .visit hvisits hg ?_
    cases hp : p.descriptor with
    | hash d =>
      rw [hp] at htarget
      obtain rfl := Option.some.inj htarget
      exact (holds_inspect_hash hp hg _).2 (.inl rfl)
    | chain d =>
      rw [hp] at htarget
      obtain rfl := Option.some.inj htarget
      obtain ⟨image, -, hiff⟩ := holds_inspect_chain hp hg
      exact (hiff _).2 (.inl rfl)
    | hashtree _ | property _ | cmdline _ | unknown _ =>
      rw [hp] at htarget
      cases htarget

end Verifier

end VerifiedBoot
