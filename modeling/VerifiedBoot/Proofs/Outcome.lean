import VerifiedBoot.Error

/-!
# What success means

Every operation that can fail is a sequence of steps and guards. The lemmas here take a sequence
that succeeded apart into its steps, and put one together from steps that succeed, so that no later
proof has to unfold the sequencing itself.
-/

namespace VerifiedBoot

namespace Outcome

variable {α β : Type}

/-- A sequence succeeds exactly when each step succeeds in turn. -/
theorem bind_eq_ok {x : Except Error α} {f : α → Except Error β} {b : β} :
    (x >>= f) = .ok b ↔ ∃ a, x = .ok a ∧ f a = .ok b := by
  cases x with
  | error e => exact ⟨nofun, fun ⟨_, h, _⟩ => nomatch h⟩
  | ok a => exact ⟨fun h => ⟨a, rfl, h⟩, fun ⟨_, rfl, h⟩ => h⟩

/-- A guard is passed exactly when its condition does not hold. -/
theorem guard_eq_ok {c : Prop} [Decidable c] {e : Error} {next : PUnit → Except Error β} {b : β} :
    (if c then throw e >>= next else next ⟨⟩) = .ok b ↔ ¬c ∧ next ⟨⟩ = .ok b := by
  by_cases hc : c
  · rw [if_pos hc]
    exact ⟨nofun, fun h => absurd hc h.1⟩
  · rw [if_neg hc]
    exact ⟨fun h => ⟨hc, h⟩, fun h => h.2⟩

/-- A step that succeeds has one value. -/
theorem ok_unique {x : Except Error α} {a b : α} (ha : x = .ok a) (hb : x = .ok b) : a = b :=
  Except.ok.inj (ha.symm.trans hb)

theorem ok_some_unique {x : Except Error (Option α)} {a b : α} (ha : x = .ok (some a))
    (hb : x = .ok (some b)) : a = b :=
  Option.some.inj (ok_unique ha hb)

theorem exists_error_iff {x : Except Error α} : (∃ e, x = .error e) ↔ ¬∃ a, x = .ok a := by
  cases x with
  | error e => exact ⟨fun _ => nofun, fun _ => ⟨e, rfl⟩⟩
  | ok a => exact ⟨nofun, fun h => absurd ⟨a, rfl⟩ h⟩

theorem map_eq_ok {x : Except Error α} {f : α → β} {b : β} :
    (f <$> x) = .ok b ↔ ∃ a, x = .ok a ∧ f a = b := by
  cases x with
  | error e => exact ⟨nofun, fun ⟨_, h, _⟩ => nomatch h⟩
  | ok a => exact ⟨fun h => ⟨a, rfl, Except.ok.inj h⟩, fun ⟨_, rfl, h⟩ => congrArg Except.ok h⟩

/-- A sequence fails at the first step that fails. -/
theorem bind_eq_error {x : Except Error α} {f : α → Except Error β} {e : Error} :
    (x >>= f) = .error e ↔ x = .error e ∨ ∃ a, x = .ok a ∧ f a = .error e := by
  cases x with
  | error e' =>
    constructor
    · exact fun h => .inl (congrArg Except.error (Except.error.inj h))
    · rintro (h | ⟨_, h, _⟩)
      · exact congrArg Except.error (Except.error.inj h)
      · cases h
  | ok a => exact ⟨fun h => .inr ⟨a, rfl, h⟩, fun h => h.elim nofun fun ⟨_, rfl, h⟩ => h⟩

/-- To apply a function to the value of a step does not make it fail. -/
theorem map_eq_error {x : Except Error α} {f : α → β} {e : Error} :
    (f <$> x) = .error e ↔ x = .error e := by
  cases x with
  | error e' => exact ⟨fun h => congrArg Except.error (Except.error.inj h),
      fun h => congrArg Except.error (Except.error.inj h)⟩
  | ok a => exact ⟨nofun, nofun⟩

/-- What a list is taken to, step by step, is what its members are taken to. -/
theorem mem_mapM {xs : List α} {f : α → Except Error β} {ys : List β} (h : xs.mapM f = .ok ys)
    {y : β} : y ∈ ys ↔ ∃ x ∈ xs, f x = .ok y := by
  induction xs generalizing ys with
  | nil =>
    obtain rfl := Except.ok.inj h
    simp
  | cons x xs ih =>
    rw [List.mapM_cons] at h
    obtain ⟨z, hz, h₁⟩ := bind_eq_ok.1 h
    obtain ⟨zs, hzs, h₂⟩ := bind_eq_ok.1 h₁
    obtain rfl := Except.ok.inj h₂
    rw [List.mem_cons, ih hzs]
    constructor
    · rintro (rfl | ⟨x', hx', hy⟩)
      · exact ⟨x, List.mem_cons_self, hz⟩
      · exact ⟨x', List.mem_cons_of_mem _ hx', hy⟩
    · rintro ⟨x', hx', hy⟩
      rcases List.mem_cons.1 hx' with rfl | hx'
      · exact .inl (ok_unique hy hz)
      · exact .inr ⟨x', hx', hy⟩

/-- Every member of a list is taken to something, if the list is. -/
theorem exists_of_mapM {xs : List α} {f : α → Except Error β} {ys : List β}
    (h : xs.mapM f = .ok ys) {x : α} (hx : x ∈ xs) : ∃ y ∈ ys, f x = .ok y := by
  suffices hsome : ∃ y, f x = .ok y by
    obtain ⟨y, hy⟩ := hsome
    exact ⟨y, (mem_mapM h).2 ⟨x, hx, hy⟩, hy⟩
  induction xs generalizing ys with
  | nil => cases hx
  | cons z xs ih =>
    rw [List.mapM_cons] at h
    obtain ⟨y, hy, h₁⟩ := bind_eq_ok.1 h
    obtain ⟨zs, hzs, -⟩ := bind_eq_ok.1 h₁
    rcases List.mem_cons.1 hx with rfl | hx
    · exact ⟨y, hy⟩
    · exact ih hzs hx

/-- What each member of a list can be taken to, the list can be taken to. -/
theorem exists_mapM {xs : List α} {f : α → Except Error β}
    (h : ∀ x ∈ xs, ∃ y, f x = .ok y) : ∃ ys, xs.mapM f = .ok ys := by
  induction xs with
  | nil => exact ⟨[], rfl⟩
  | cons x xs ih =>
    obtain ⟨y, hy⟩ := h x List.mem_cons_self
    obtain ⟨ys, hys⟩ := ih fun x hx => h x (List.mem_cons_of_mem _ hx)
    refine ⟨y :: ys, ?_⟩
    rw [List.mapM_cons]
    exact bind_eq_ok.2 ⟨y, hy, bind_eq_ok.2 ⟨ys, hys, rfl⟩⟩

/-- What a list is taken to, step by step, has in each place what its place in the list had. -/
theorem map_eq_of_mapM {γ : Type} {xs : List α} {f : α → Except Error β} {ys : List β} {k : α → γ}
    {g : β → γ} (h : xs.mapM f = .ok ys) (hf : ∀ x y, f x = .ok y → g y = k x) :
    ys.map g = xs.map k := by
  induction xs generalizing ys with
  | nil =>
    obtain rfl := Except.ok.inj h
    rfl
  | cons x xs ih =>
    rw [List.mapM_cons] at h
    obtain ⟨z, hz, h₁⟩ := bind_eq_ok.1 h
    obtain ⟨zs, hzs, h₂⟩ := bind_eq_ok.1 h₁
    obtain rfl := Except.ok.inj h₂
    rw [List.map_cons, List.map_cons, hf x z hz, ih hzs]

theorem toOption_eq_some {x : Except Error α} {a : α} : x.toOption = some a ↔ x = .ok a := by
  cases x with
  | error e => exact ⟨nofun, nofun⟩
  | ok b => exact ⟨fun h => congrArg Except.ok (Option.some.inj h),
      fun h => congrArg some (Except.ok.inj h)⟩

/-- What is true of the value of an outcome says that there is one. -/
theorem exists_of_map {x : Except Error α} {p : α → Bool}
    (h : (x.map p).toOption = some true) : ∃ a, x = .ok a ∧ p a = true := by
  cases x with
  | error e => cases h
  | ok a => exact ⟨a, rfl, Option.some.inj h⟩

/-- An outcome that is no error has a value, beside what is left behind. -/
theorem exists_of_toBool {x : Except Error α × β} (h : x.1.toBool = true) :
    ∃ a b, x = (.ok a, b) := by
  obtain ⟨outcome, b⟩ := x
  cases outcome with
  | error e => cases h
  | ok a => exact ⟨a, b, rfl⟩

end Outcome

end VerifiedBoot
