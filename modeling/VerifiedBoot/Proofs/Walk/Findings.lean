import Mathlib.Tactic.Common
import VerifiedBoot.Proofs.Outcome
import VerifiedBoot.Walk.Basic

/-!
# Findings of one descriptor

A check adds to the findings that it is given, and looks at them only so as not to note anything
twice. So what it adds is what it finds on its own: checking on top of some findings is checking on
top of none, and merging. `Verifier.inspect` is what a single descriptor gives on its own.
-/

namespace VerifiedBoot

/-- Anything that findings may hold. -/
inductive Finding where
  | loaded (name : String)
  | issue (issue : Issue)
  | reference (reference : Reference)
  deriving DecidableEq, Repr

namespace Findings

/-- Whether something was found. -/
def Holds (f : Findings) : Finding → Prop
  | .loaded name => name ∈ f.loaded
  | .issue issue => issue ∈ f.issues
  | .reference reference => reference ∈ f.references

/-- Nothing is found in no findings. -/
theorem not_holds_empty (x : Finding) : ¬empty.Holds x := by
  cases x <;> exact List.not_mem_nil

/-- The findings of both, those of the first one in front. -/
def merge (f g : Findings) : Findings where
  loaded := f.loaded ++ g.loaded.filter (· ∉ f.loaded)
  issues := f.issues ++ g.issues.filter (· ∉ f.issues)
  references := f.references ++ g.references.filter (· ∉ f.references)

section Lists

variable {α : Type} [DecidableEq α]

/-- A list with an element at its end, unless it has the element already. -/
def noteIn (a : List α) (x : α) : List α :=
  if x ∈ a then a else a ++ [x]

/-- Whatever is in one of two lists is in them together. -/
theorem mem_append_filter {a b : List α} {x : α} :
    x ∈ a ++ b.filter (· ∉ a) ↔ x ∈ a ∨ x ∈ b := by
  simp only [List.mem_append, List.mem_filter, decide_eq_true_eq]
  constructor
  · rintro (h | h)
    · exact .inl h
    · exact .inr h.1
  · intro h
    by_cases ha : x ∈ a
    · exact .inl ha
    · exact .inr ⟨h.resolve_left ha, ha⟩

/-- To note an element in two lists together is to note it in the second of them. -/
theorem noteIn_append_filter (a b : List α) (x : α) :
    noteIn (a ++ b.filter (· ∉ a)) x = a ++ (noteIn b x).filter (· ∉ a) := by
  unfold noteIn
  by_cases hb : x ∈ b
  · rw [if_pos (mem_append_filter.2 (.inr hb)), if_pos hb]
  · by_cases ha : x ∈ a
    · rw [if_pos (mem_append_filter.2 (.inl ha)), if_neg hb]
      simp [List.filter_append, ha]
    · rw [if_neg (fun h => (mem_append_filter.1 h).elim ha hb), if_neg hb]
      simp [List.filter_append, ha]

/-- What is noted is there, beside what was there before. -/
theorem mem_noteIn {a : List α} {x y : α} : y ∈ noteIn a x ↔ y ∈ a ∨ y = x := by
  unfold noteIn
  split
  · next h =>
    constructor
    · exact .inl
    · rintro (hy | rfl)
      · exact hy
      · exact h
  · rw [List.mem_append, List.mem_singleton]

end Lists

theorem holds_merge {f g : Findings} {x : Finding} :
    (f.merge g).Holds x ↔ f.Holds x ∨ g.Holds x := by
  cases x <;> exact mem_append_filter

@[simp] theorem merge_empty (f : Findings) : f.merge empty = f := by
  simp [merge, empty]

theorem report_eq (f : Findings) (issue : Issue) :
    f.report issue = { f with issues := noteIn f.issues issue } := by
  unfold report noteIn
  split <;> rfl

theorem load_eq (f : Findings) (name : String) :
    f.load name = { f with loaded := noteIn f.loaded name } := by
  unfold load noteIn
  split <;> rfl

/-- To refer to a partition is to note the reference. -/
theorem refer_eq (f : Findings) (p : Pending) (target : String) :
    f.refer p target =
      { f with references := noteIn f.references ⟨target, p.holder, p.index⟩ } := by
  unfold refer noteIn
  simp only
  split <;> rfl

/-- To report an issue to merged findings is to report it to the second of them. -/
theorem report_merge (f g : Findings) (issue : Issue) :
    (f.merge g).report issue = f.merge (g.report issue) := by
  simp only [report_eq, merge, noteIn_append_filter]

theorem reportIf_merge (f g : Findings) (condition : Bool) (issue : Issue) :
    (f.merge g).reportIf condition issue = f.merge (g.reportIf condition issue) := by
  cases condition with
  | false => rfl
  | true => exact report_merge f g issue

theorem load_merge (f g : Findings) (name : String) :
    (f.merge g).load name = f.merge (g.load name) := by
  simp only [load_eq, merge, noteIn_append_filter]

theorem refer_merge (f g : Findings) (p : Pending) (target : String) :
    (f.merge g).refer p target = f.merge (g.refer p target) := by
  simp only [refer_eq, merge, noteIn_append_filter]

theorem holds_report {f : Findings} {issue : Issue} {x : Finding} :
    (f.report issue).Holds x ↔ f.Holds x ∨ x = .issue issue := by
  rw [report_eq]
  cases x <;> simp [Holds, mem_noteIn]

theorem holds_reportIf {f : Findings} {condition : Bool} {issue : Issue} {x : Finding} :
    (f.reportIf condition issue).Holds x ↔ f.Holds x ∨ condition = true ∧ x = .issue issue := by
  cases condition with
  | false => simp [reportIf]
  | true => simp [reportIf, holds_report]

theorem holds_load {f : Findings} {name : String} {x : Finding} :
    (f.load name).Holds x ↔ f.Holds x ∨ x = .loaded name := by
  rw [load_eq]
  cases x <;> simp [Holds, mem_noteIn]

theorem holds_refer {f : Findings} {p : Pending} {target : String} {x : Finding} :
    (f.refer p target).Holds x ↔ f.Holds x ∨ x = .reference ⟨target, p.holder, p.index⟩ := by
  rw [refer_eq]
  cases x <;> simp [Holds, mem_noteIn]

end Findings

namespace Verifier

variable (v : Verifier) (store : Store)

/-- What a measurement adds does not depend on what was found before. -/
theorem checkHash_merge (holder : String) (index : Nat) (d : HashDescriptor) (size : Int)
    (f g : Findings) :
    v.checkHash store holder index d size (f.merge g) =
      (fun r => (r.1, f.merge r.2)) <$> v.checkHash store holder index d size g := by
  unfold checkHash
  cases Measurement.take v.suite store v.chunkSize d size with
  | error e => rfl
  | ok measured =>
    cases measured with
    | none => exact congrArg Except.ok (congrArg (Prod.mk false) (Findings.report_merge ..))
    | some m => exact congrArg Except.ok (congrArg (Prod.mk true) (Findings.reportIf_merge ..))

/-- What the check of a hash descriptor adds does not depend on what was found before. -/
theorem checkHashDescriptor_merge (p : Pending) (d : HashDescriptor) (f g : Findings) :
    v.checkHashDescriptor store p d (f.merge g) =
      f.merge <$> v.checkHashDescriptor store p d g := by
  -- Along every branch the findings are only handed on, so what was there before stays in front.
  unfold checkHashDescriptor
  simp only [Findings.refer_merge]
  cases store.info d.partitionName with
  | error e => rfl
  | ok info =>
    simp only [bind, Except.bind]
    cases info.bind (·.footer) with
    | none =>
      simp only [checkHash_merge]
      cases v.checkHash store p.holder p.index d d.imageSize (g.refer p d.partitionName) <;> rfl
    | some footer =>
      cases store.image v.suite d.partitionName with
      | error e => rfl
      | ok image =>
        cases image with
        | none => exact congrArg Except.ok (Findings.report_merge ..)
        | some image =>
          simp only [Findings.load_merge]
          cases lastHash? image d.partitionName with
          | none => exact congrArg Except.ok (Findings.report_merge ..)
          | some found =>
            simp only [checkHash_merge]
            cases v.checkHash store d.partitionName found.1 found.2 footer.originalImageSize
              ((g.refer p d.partitionName).load d.partitionName) with
            | error e => rfl
            | ok inner =>
              obtain ⟨checked, h⟩ := inner
              cases checked with
              | false => rfl
              | true =>
                simp only [Functor.map, Except.map, checkHash_merge, if_true]
                cases v.checkHash store p.holder p.index d footer.originalImageSize h <;> rfl

/-- What the check of a chain descriptor adds does not depend on what was found before. -/
theorem checkChainDescriptor_merge (p : Pending) (d : ChainDescriptor) (f g : Findings) :
    v.checkChainDescriptor store p d (f.merge g) =
      (fun r => (r.1, f.merge r.2)) <$> v.checkChainDescriptor store p d g := by
  unfold checkChainDescriptor
  simp only [Findings.refer_merge]
  cases store.image v.suite d.partitionName with
  | error e => rfl
  | ok image =>
    cases image with
    | none => exact congrArg Except.ok (congrArg (Prod.mk false) (Findings.report_merge ..))
    | some image =>
      simp only [bind, Except.bind, Findings.load_merge, Findings.reportIf_merge]
      rfl

/-- What a single descriptor gives on its own. -/
def inspect (p : Pending) : Except Error Findings :=
  match p.descriptor with
  | .hash d => v.checkHashDescriptor store p d Findings.empty
  | .chain d => (·.2) <$> v.checkChainDescriptor store p d Findings.empty
  | _ => .ok Findings.empty

/-- A hash descriptor adds what it gives on its own. -/
theorem checkHashDescriptor_eq_ok {p : Pending} {d : HashDescriptor} {f f' : Findings}
    (hp : p.descriptor = .hash d) :
    v.checkHashDescriptor store p d f = .ok f' ↔
      ∃ g, v.inspect store p = .ok g ∧ f.merge g = f' := by
  have h := v.checkHashDescriptor_merge store p d f Findings.empty
  rw [Findings.merge_empty] at h
  rw [h, Outcome.map_eq_ok, inspect, hp]

/-- A chain descriptor adds what it gives on its own. -/
theorem exists_checkChainDescriptor {p : Pending} {d : ChainDescriptor} {f f' : Findings}
    (hp : p.descriptor = .chain d) :
    (∃ readable, v.checkChainDescriptor store p d f = .ok (readable, f')) ↔
      ∃ g, v.inspect store p = .ok g ∧ f.merge g = f' := by
  have hmerge := v.checkChainDescriptor_merge store p d f Findings.empty
  rw [Findings.merge_empty] at hmerge
  simp only [hmerge, inspect, hp, Outcome.map_eq_ok]
  constructor
  · rintro ⟨readable, ⟨found, g⟩, hg, h⟩
    exact ⟨g, ⟨_, hg, rfl⟩, congrArg Prod.snd h⟩
  · rintro ⟨g, ⟨⟨readable, g⟩, hg, rfl⟩, rfl⟩
    exact ⟨readable, _, hg, rfl⟩

/-- There is something to go on with after a chain descriptor that names a readable image. -/
theorem readable_of_checkChainDescriptor {p : Pending} {d : ChainDescriptor} {f f' : Findings}
    {readable : Bool} (h : v.checkChainDescriptor store p d f = .ok (readable, f')) :
    ∃ image, store.image v.suite d.partitionName = .ok image ∧ image.isSome = readable := by
  obtain ⟨image, himage, h⟩ := Outcome.bind_eq_ok.1 h
  cases image with
  | none => exact ⟨none, himage, congrArg Prod.fst (Except.ok.inj h)⟩
  | some image => exact ⟨some image, himage, congrArg Prod.fst (Except.ok.inj h)⟩

end Verifier

end VerifiedBoot
