import Mathlib.Data.List.Flatten
import VerifiedBoot.Proofs.Walk.Reach

/-!
# A verification ends

A walk step by step. All that a step knows of the past are the names of the partitions that were
entered, so nothing in a step says that there is an end to it: the descriptors that it puts on the
agenda come from other partitions, and these may lead back to where the walk came from.

There is an end because a store is finite. Every step takes a descriptor off the agenda, and those
that are put there are all descriptors of one partition that was not entered before. So no walk has
more steps than there are descriptors in the store, on a graph of whatever shape.
-/

namespace VerifiedBoot

/-- The descriptors of the image of a partition, if there is one. -/
def Store.descriptorsOf (store : Store) (suite : Suite) (name : String) : List Pending :=
  match store.image suite name with
  | .ok (some image) => Pending.ofImage name image
  | _ => []

/-- The descriptors of all images of a store. -/
def Store.allDescriptors (store : Store) (suite : Suite) : List Pending :=
  store.names.flatMap (store.descriptorsOf suite)

/-- A walk under way: the partitions that were entered, what is on the agenda, and what was found
so far. -/
structure Journey where
  entered : List String
  agenda : List Pending
  findings : Findings

namespace Verifier

section Relations

variable (v : Verifier) (store : Store)

/-- One step of a walk. -/
inductive Step : Journey → Journey → Prop
  | hash {entered : List String} {p : Pending} {rest : List Pending} {f f' : Findings}
    {d : HashDescriptor} : p.descriptor = .hash d → v.checkHashDescriptor store p d f = .ok f' →
    Step ⟨entered, p :: rest, f⟩ ⟨entered, rest, f'⟩
  | unreadable {entered : List String} {p : Pending} {rest : List Pending} {f f' : Findings}
    {d : ChainDescriptor} : p.descriptor = .chain d →
    v.checkChainDescriptor store p d f = .ok (false, f') →
    Step ⟨entered, p :: rest, f⟩ ⟨entered, rest, f'⟩
  | known {entered : List String} {p : Pending} {rest : List Pending} {f f' : Findings}
    {d : ChainDescriptor} : p.descriptor = .chain d →
    v.checkChainDescriptor store p d f = .ok (true, f') → d.partitionName ∈ entered →
    Step ⟨entered, p :: rest, f⟩ ⟨entered, rest, f'⟩
  | enter {entered : List String} {p : Pending} {rest next : List Pending} {f f₁ f' : Findings}
    {d : ChainDescriptor} : p.descriptor = .chain d →
    v.checkChainDescriptor store p d f = .ok (true, f₁) → d.partitionName ∉ entered →
    v.enter store d.partitionName f₁ = .ok (next, f') →
    Step ⟨entered, p :: rest, f⟩ ⟨d.partitionName :: entered, next ++ rest, f'⟩
  | other {entered : List String} {p : Pending} {rest : List Pending} {f : Findings} :
    (∀ d, p.descriptor ≠ .hash d) → (∀ d, p.descriptor ≠ .chain d) →
    Step ⟨entered, p :: rest, f⟩ ⟨entered, rest, f⟩

/-- A number of steps, one after the other. -/
inductive Steps : Nat → Journey → Journey → Prop
  | refl (s : Journey) : Steps 0 s s
  | head {n : Nat} {s t u : Journey} : Step v store s t → Steps n t u → Steps (n + 1) s u

/-- How a walk comes to an end: nothing is left on the agenda, or a check fails. -/
inductive Ends : Journey → Except Error Findings → Prop
  | done {entered : List String} {f : Findings} : Ends ⟨entered, [], f⟩ (.ok f)
  | hash {entered : List String} {p : Pending} {rest : List Pending} {f : Findings}
    {d : HashDescriptor} {e : Error} : p.descriptor = .hash d →
    v.checkHashDescriptor store p d f = .error e → Ends ⟨entered, p :: rest, f⟩ (.error e)
  | chain {entered : List String} {p : Pending} {rest : List Pending} {f : Findings}
    {d : ChainDescriptor} {e : Error} : p.descriptor = .chain d →
    v.checkChainDescriptor store p d f = .error e → Ends ⟨entered, p :: rest, f⟩ (.error e)
  | enter {entered : List String} {p : Pending} {rest : List Pending} {f f₁ : Findings}
    {d : ChainDescriptor} {e : Error} : p.descriptor = .chain d →
    v.checkChainDescriptor store p d f = .ok (true, f₁) → d.partitionName ∉ entered →
    v.enter store d.partitionName f₁ = .error e → Ends ⟨entered, p :: rest, f⟩ (.error e)

end Relations

variable {v : Verifier} {store : Store}

/-- To leave a member out of a list leaves out what comes of it. -/
theorem length_flatMap_filter_ne {α β : Type} [DecidableEq α] {xs : List α} {x : α} (hx : x ∈ xs)
    (f : α → List β) :
    ((xs.filter (· ≠ x)).flatMap f).length + (f x).length ≤ (xs.flatMap f).length := by
  induction xs with
  | nil => cases hx
  | cons y ys ih =>
    rw [List.flatMap_cons, List.length_append]
    by_cases hy : y = x
    · subst hy
      have hfilter : ((ys.filter (· ≠ y)).flatMap f).length ≤ (ys.flatMap f).length :=
        (List.filter_sublist.flatMap f).length_le
      rw [List.filter_cons_of_neg (by simp)]
      omega
    · have hrest := ih ((List.mem_cons.1 hx).resolve_left (Ne.symm hy))
      rw [List.filter_cons_of_pos (by simpa using hy), List.flatMap_cons, List.length_append]
      omega

variable (v store) in
/-- How many steps there may be: one for each descriptor on the agenda and for each one of the
partitions not entered yet. -/
def stepsLeft (s : Journey) : Nat :=
  s.agenda.length +
    ((store.names.filter (· ∉ s.entered)).flatMap (store.descriptorsOf v.suite)).length

/-- To enter a partition puts descriptors on the agenda that were counted before. -/
theorem stepsLeft_enter {entered : List String} {rest next : List Pending} {name : String}
    {f f' g : Findings} (hname : name ∉ entered) (h : v.enter store name f = .ok (next, f')) :
    v.stepsLeft store ⟨name :: entered, next ++ rest, f'⟩ ≤
      v.stepsLeft store ⟨entered, rest, g⟩ := by
  obtain ⟨image, himage, rfl, -⟩ := holds_enter h
  have hdescriptors : store.descriptorsOf v.suite name = image.elim [] (Pending.ofImage name) := by
    unfold Store.descriptorsOf
    rw [himage]
    cases image <;> rfl
  have hmem : name ∈ store.names.filter (· ∉ entered) :=
    List.mem_filter.2 ⟨mem_names_of_image himage, by simpa using hname⟩
  have hleft : store.names.filter (· ∉ name :: entered) =
      (store.names.filter (· ∉ entered)).filter (· ≠ name) := by
    rw [List.filter_filter]
    refine List.filter_congr fun other _ => ?_
    simp [not_or]
  have hcount := length_flatMap_filter_ne hmem (store.descriptorsOf v.suite)
  rw [hdescriptors] at hcount
  unfold stepsLeft
  simp only [hleft, List.length_append]
  omega

/-- Each step leaves fewer of them. -/
theorem Step.stepsLeft_lt {s t : Journey} (h : v.Step store s t) :
    v.stepsLeft store t < v.stepsLeft store s := by
  have hpop {entered : List String} {p : Pending} {rest : List Pending} {f f' : Findings} :
      v.stepsLeft store ⟨entered, rest, f'⟩ < v.stepsLeft store ⟨entered, p :: rest, f⟩ := by
    unfold stepsLeft
    simp only [List.length_cons]
    omega
  cases h with
  | hash | unreadable | known | other => exact hpop
  | @enter _ _ _ _ f _ _ _ _ _ hname henter =>
    exact Nat.lt_of_le_of_lt (stepsLeft_enter (g := f) hname henter) hpop

/-- So there is a bound to their number. -/
theorem Steps.le_stepsLeft {n : Nat} {s t : Journey} (h : v.Steps store n s t) :
    n + v.stepsLeft store t ≤ v.stepsLeft store s := by
  induction h with
  | refl s => omega
  | head hstep _ ih =>
    have hlt := hstep.stepsLeft_lt
    omega

/-- From the root there are no more steps than descriptors in the store. -/
theorem Steps.le_allDescriptors {root : String} {agenda : List Pending} {f : Findings} {n : Nat}
    {t : Journey} (henter : v.enter store root Findings.empty = .ok (agenda, f))
    (h : v.Steps store n ⟨[root], agenda, f⟩ t) : n ≤ (store.allDescriptors v.suite).length := by
  have hstart := @stepsLeft_enter v store [] [] agenda root _ f f List.not_mem_nil henter
  have hall : v.stepsLeft store ⟨[], [], f⟩ = (store.allDescriptors v.suite).length := by
    have hnames : store.names.filter (· ∉ ([] : List String)) = store.names :=
      List.filter_eq_self.2 fun name _ => decide_eq_true List.not_mem_nil
    simp only [stepsLeft, Store.allDescriptors, hnames, List.length_nil, Nat.zero_add]
  rw [List.append_nil, hall] at hstart
  have hle := h.le_stepsLeft
  omega

/-- A walk is the run of its steps to the end. -/
theorem exists_steps {unvisited : List String} {agenda : List Pending} {f : Findings}
    {entered : List String}
    (hunvisited : ∀ name, name ∈ unvisited ↔ name ∈ store.names ∧ name ∉ entered) :
    ∃ n t, v.Steps store n ⟨entered, agenda, f⟩ t ∧
      v.Ends store t (v.walk store unvisited agenda f) := by
  -- Those not visited yet are those of the store that were not entered.
  fun_induction Verifier.walk v store unvisited agenda f generalizing entered with
  | case1 unvisited f => exact ⟨0, _, .refl _, .done⟩
  | case2 unvisited f p rest d hd e hcheck => exact ⟨0, _, .refl _, .hash hd hcheck⟩
  | case3 unvisited f p rest d hd f₁ hcheck ih =>
    obtain ⟨n, t, hsteps, hends⟩ := ih hunvisited
    exact ⟨n + 1, t, .head (.hash hd hcheck) hsteps, hends⟩
  | case4 unvisited f p rest d hd e hcheck => exact ⟨0, _, .refl _, .chain hd hcheck⟩
  | case5 unvisited f p rest d hd f₁ hmem e henter hcheck =>
    exact ⟨0, _, .refl _, .enter hd hcheck ((hunvisited _).1 hmem).2 henter⟩
  | case6 unvisited f p rest d hd f₁ hmem next f₂ henter hcheck ih =>
    have hwithout : ∀ name, name ∈ without unvisited d.partitionName ↔
        name ∈ store.names ∧ name ∉ d.partitionName :: entered := by
      intro name
      rw [without, List.mem_filter, hunvisited, List.mem_cons, not_or, decide_eq_true_iff,
        and_assoc, and_comm (a := name ∉ entered)]
    obtain ⟨n, t, hsteps, hends⟩ := ih hwithout
    exact ⟨n + 1, t, .head (.enter hd hcheck ((hunvisited _).1 hmem).2 henter) hsteps, hends⟩
  | case7 unvisited f p rest d hd f₁ hmem hcheck ih =>
    obtain ⟨image, himage, -⟩ := v.readable_of_checkChainDescriptor store hcheck
    have hentered : d.partitionName ∈ entered := by
      by_contra hnot
      exact hmem ((hunvisited _).2 ⟨mem_names_of_image himage, hnot⟩)
    obtain ⟨n, t, hsteps, hends⟩ := ih hunvisited
    exact ⟨n + 1, t, .head (.known hd hcheck hentered) hsteps, hends⟩
  | case8 unvisited f p rest d hd readable f₁ hcheck hread ih =>
    obtain rfl := Bool.not_eq_true _ ▸ hread
    obtain ⟨n, t, hsteps, hends⟩ := ih hunvisited
    exact ⟨n + 1, t, .head (.unreadable hd hcheck) hsteps, hends⟩
  | case9 unvisited f p rest hhash hchain ih =>
    obtain ⟨n, t, hsteps, hends⟩ := ih hunvisited
    exact ⟨n + 1, t, .head (.other hhash hchain) hsteps, hends⟩

/-- A walk that ends well has come to the end of its agenda. -/
theorem findings_of_ends {t : Journey} {f : Findings} (h : v.Ends store t (.ok f)) :
    t.agenda = [] ∧ t.findings = f := by
  cases h
  exact ⟨rfl, rfl⟩

end Verifier

end VerifiedBoot
