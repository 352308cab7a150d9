import Mathlib.Tactic.Common
import VerifiedBoot.Command.FileTree
import VerifiedBoot.Proofs.Outcome

/-!
# Writing to a file that is there

A path that can be followed leads to the place that its plain form names, and a plain path is its
own plain form. So what is written to a path from which something was read replaces it, and every
other path reads as before: directories stay where they are, and so do files.
-/

namespace VerifiedBoot

namespace Path

/-- A path has a component, if only an empty one. -/
theorem components_ne_nil (text : List Char) : components text ≠ [] := by
  fun_induction components text with
  | case1 | case2 | case3 | case4 => exact List.cons_ne_nil _ _

/-- Components hold no slash. -/
theorem slash_not_mem_of_mem_components {text component : List Char}
    (h : component ∈ components text) : '/' ∉ component := by
  fun_induction components text generalizing component with
  | case1 =>
    obtain rfl := List.mem_singleton.1 h
    exact List.not_mem_nil
  | case2 rest ih =>
    rcases List.mem_cons.1 h with rfl | h
    · exact List.not_mem_nil
    · exact ih h
  | case3 c rest hc hrest ih => exact absurd hrest (components_ne_nil rest)
  | case4 c rest hc first others hrest ih =>
    rw [hrest] at ih
    rcases List.mem_cons.1 h with rfl | h
    · rw [List.mem_cons, not_or]
      exact ⟨Ne.symm hc, ih List.mem_cons_self⟩
    · exact ih (List.mem_cons_of_mem _ h)

/-- A character that is no slash goes to the first component. -/
theorem components_cons {c : Char} (hc : c ≠ '/') {rest component : List Char}
    {others : List (List Char)} (h : components rest = component :: others) :
    components (c :: rest) = (c :: component) :: others := by
  rw [components]
  · rw [h]
  · exact hc

/-- A text without a slash is one component. -/
theorem components_of_not_mem {text : List Char} (h : '/' ∉ text) : components text = [text] := by
  induction text with
  | nil => rfl
  | cons c rest ih =>
    rw [List.mem_cons, not_or] at h
    exact components_cons (Ne.symm h.1) (ih h.2)

/-- A slash ends the first component. -/
theorem components_append {component : List Char} (h : '/' ∉ component) (rest : List Char) :
    components (component ++ '/' :: rest) = component :: components rest := by
  induction component with
  | nil => rfl
  | cons c component ih =>
    rw [List.mem_cons, not_or] at h
    exact components_cons (Ne.symm h.1) (ih h.2)

/-- Components that were put together come apart again. -/
theorem components_intercalate {parts : List (List Char)} (hne : parts ≠ [])
    (h : ∀ part ∈ parts, '/' ∉ part) : components (List.intercalate ['/'] parts) = parts := by
  induction parts with
  | nil => exact absurd rfl hne
  | cons part rest ih =>
    rw [List.forall_mem_cons] at h
    cases rest with
    | nil =>
      rw [List.intercalate_singleton]
      exact components_of_not_mem h.1
    | cons next others =>
      rw [List.intercalate_cons_cons, List.append_assoc, List.singleton_append,
        components_append h.1, ih (List.cons_ne_nil _ _) h.2]

end Path

namespace Trail

/-- Whether the components that lead to a place, last one first, are those of a plain path. -/
def IsPlain (absolute : Bool) : List (List Char) → Prop
  | [] => True
  | component :: above =>
    component ≠ [] ∧ component ≠ ['.'] ∧ '/' ∉ component ∧
      (component = ['.', '.'] → absolute = false ∧ ∀ other ∈ above, other = ['.', '.']) ∧
      IsPlain absolute above

/-- No component of a plain path is empty or holds a slash. -/
theorem IsPlain.forall_mem {absolute : Bool} {above : List (List Char)}
    (h : IsPlain absolute above) : ∀ component ∈ above, component ≠ [] ∧ '/' ∉ component := by
  induction above with
  | nil => exact fun component hmem => absurd hmem List.not_mem_nil
  | cons component above ih =>
    obtain ⟨hempty, -, hslash, -, habove⟩ := h
    exact List.forall_mem_cons.2 ⟨⟨hempty, hslash⟩, ih habove⟩

/-- The components that lead to a place lead there one after the other. -/
theorem IsPlain.foldl_push {absolute : Bool} {above : List (List Char)}
    (h : IsPlain absolute above) : above.reverse.foldl push ⟨absolute, []⟩ = ⟨absolute, above⟩ := by
  induction above with
  | nil => rfl
  | cons component above ih =>
    obtain ⟨hempty, hdot, -, hup, habove⟩ := h
    rw [List.reverse_cons, List.foldl_append, ih habove, List.foldl_cons, List.foldl_nil, push,
      if_neg (not_or.2 ⟨hempty, hdot⟩)]
    -- A component that leads up stays only where nothing but such components is above it.
    by_cases hdots : component = ['.', '.']
    · obtain ⟨rfl, hall⟩ := hup hdots
      rw [if_pos hdots]
      cases above with
      | nil => rfl
      | cons last others =>
        have hlast : last = component := (hall last List.mem_cons_self).trans hdots.symm
        simp only [hlast, if_pos]
    · rw [if_neg hdots]

/-- One more component leaves a plain path. -/
theorem IsPlain.push {trail : Trail} (h : IsPlain trail.absolute trail.above)
    {component : List Char} (hslash : '/' ∉ component) :
    (trail.push component).absolute = trail.absolute ∧
      IsPlain trail.absolute (trail.push component).above := by
  unfold Trail.push
  split
  · exact ⟨rfl, h⟩
  · next hneither =>
    obtain ⟨hempty, hdot⟩ := not_or.1 hneither
    split
    -- A component that leads up takes back the last one, unless there is none or that leads up too.
    -- At the top of an absolute path it does nothing.
    · next hdots =>
      obtain ⟨absolute, above⟩ := trail
      cases above with
      | nil =>
        cases absolute with
        | true => exact ⟨rfl, trivial⟩
        | false =>
          refine ⟨rfl, hempty, hdot, hslash, fun _ => ⟨rfl, ?_⟩, trivial⟩
          exact fun other hmem => absurd hmem List.not_mem_nil
      | cons last others =>
        obtain ⟨-, -, -, hup, hothers⟩ := id h
        refine ⟨rfl, ?_⟩
        simp only
        split
        · next hlast =>
          obtain ⟨habsolute, hall⟩ := hup (hlast.trans hdots)
          refine ⟨hempty, hdot, hslash, fun _ => ⟨habsolute, ?_⟩, h⟩
          exact List.forall_mem_cons.2 ⟨hlast.trans hdots, hall⟩
        · exact hothers
    · next hdots => exact ⟨rfl, hempty, hdot, hslash, fun h => absurd h hdots, h⟩

/-- The components of a plain path that is not counted from the root. -/
theorem IsPlain.components_intercalate {absolute : Bool} {above : List (List Char)}
    (h : IsPlain absolute above) (hne : above ≠ []) :
    Path.components (List.intercalate ['/'] above.reverse) = above.reverse := by
  refine Path.components_intercalate (by simpa using hne) fun part hpart => ?_
  exact (h.forall_mem part (List.mem_reverse.1 hpart)).2

/-- A plain path begins with a slash if it is counted from the root. -/
theorem IsPlain.isAbsolute_plain {trail : Trail} (h : IsPlain trail.absolute trail.above) :
    Path.isAbsolute trail.plain = trail.absolute := by
  obtain ⟨absolute, above⟩ := trail
  rw [Path.isAbsolute, plain, String.toList_ofList]
  cases absolute with
  | true => rfl
  | false =>
    rw [if_neg (by simp), List.nil_append, decide_eq_false_iff_not]
    intro hhead
    obtain ⟨rest, htext⟩ := List.head?_eq_some_iff.1 hhead
    by_cases hne : above = []
    · simp [hne] at htext
    · -- A slash at the head would end an empty component.
      have hcomponents := h.components_intercalate hne
      rw [htext, Path.components] at hcomponents
      have hempty : [] ∈ above := List.mem_reverse.1 (hcomponents ▸ List.mem_cons_self)
      exact (h.forall_mem [] hempty).1 rfl

@[simp] theorem push_nil (trail : Trail) : trail.push [] = trail :=
  if_pos (.inl rfl)

/-- The components of a plain path lead to its place. -/
theorem IsPlain.foldl_components {trail : Trail} (h : IsPlain trail.absolute trail.above) :
    (Path.components trail.plain.toList).foldl Trail.push (Path.start trail.plain) = trail := by
  have hfoldl := h.foldl_push
  rw [Path.start, h.isAbsolute_plain]
  obtain ⟨absolute, above⟩ := trail
  rw [plain, String.toList_ofList]
  by_cases hne : above = []
  · cases absolute <;> simp [hne, Path.components]
  · have hcomponents := h.components_intercalate hne
    cases absolute with
    | false =>
      rw [if_neg (by simp), List.nil_append, hcomponents]
      exact hfoldl
    | true =>
      rw [if_pos rfl, List.singleton_append, Path.components, hcomponents, List.foldl_cons,
        push_nil]
      exact hfoldl

/-- A plain path is its own plain form. -/
theorem IsPlain.normalize_plain {trail : Trail} (h : IsPlain trail.absolute trail.above) :
    Path.normalize trail.plain = trail.plain :=
  congrArg plain h.foldl_components

/-- Components lead to places with plain paths. -/
theorem isPlain_foldl {components : List (List Char)} (hslash : ∀ c ∈ components, '/' ∉ c)
    {trail : Trail} (h : IsPlain trail.absolute trail.above) :
    IsPlain (components.foldl Trail.push trail).absolute
      (components.foldl Trail.push trail).above := by
  induction components generalizing trail with
  | nil => exact h
  | cons component rest ih =>
    rw [List.forall_mem_cons] at hslash
    obtain ⟨habsolute, hplain⟩ := h.push hslash.1
    rw [← habsolute] at hplain
    exact ih hslash.2 hplain

end Trail

theorem Path.normalize_normalize (path : String) : normalize (normalize path) = normalize path :=
  Trail.IsPlain.normalize_plain
    (Trail.isPlain_foldl (fun _ => slash_not_mem_of_mem_components) trivial)

namespace FileTree

variable {tree tree' : FileTree} {path : String} {data old : Bytes}

/-- A step goes from a directory to one of its components. -/
theorem step_eq_ok {trail next : Trail} {component : List Char}
    (h : tree.step path trail component = .ok next) :
    tree.look trail = .folder ∧ next = trail.push component := by
  unfold step at h
  split at h
  · cases h
  · cases h
  · next hfolder =>
    split at h
    · cases h
    · exact ⟨hfolder, (Except.ok.inj h).symm⟩

/-- A path that can be followed is followed component by component. -/
theorem walk_eq_ok {trail : Trail} (h : tree.walk path = .ok trail) :
    (Path.components path.toList).foldlM (tree.step path) (Path.start path) = .ok trail := by
  obtain ⟨⟨⟩, -, h₁⟩ := Outcome.bind_eq_ok.1 h
  split at h₁
  · obtain ⟨_, h₂, -⟩ := Outcome.bind_eq_ok.1 h₁
    cases h₂
  · exact h₁

/-- Steps lead to the place that their components name. -/
theorem foldl_push_of_foldlM {components : List (List Char)} {start trail : Trail}
    (h : components.foldlM (tree.step path) start = .ok trail) :
    components.foldl Trail.push start = trail := by
  induction components generalizing start with
  | nil => exact Except.ok.inj h
  | cons component rest ih =>
    rw [List.foldlM_cons] at h
    obtain ⟨next, hstep, hrest⟩ := Outcome.bind_eq_ok.1 h
    rw [List.foldl_cons, ← (step_eq_ok hstep).2]
    exact ih hrest

/-- A path that can be followed leads to the place that its plain form names. -/
theorem plain_of_walk {trail : Trail} (h : tree.walk path = .ok trail) :
    trail.plain = Path.normalize path :=
  congrArg Trail.plain (foldl_push_of_foldlM (walk_eq_ok h)).symm

/-- There is a file at a place if it stands under its path. -/
theorem look_eq_file {trail : Trail} :
    tree.look trail = .file data ↔ tree.files.lookup trail.plain = some data := by
  unfold look
  cases tree.files.lookup trail.plain with
  | some found => rw [Place.file.injEq, Option.some.injEq]
  | none =>
    simp only
    split <;> exact ⟨nofun, nofun⟩

/-- What is read from a path stands under its plain form. -/
theorem lookup_of_read (h : tree.read path = .ok data) :
    tree.files.lookup (Path.normalize path) = some data := by
  obtain ⟨trail, hwalk, h₁⟩ := Outcome.bind_eq_ok.1 h
  rw [← plain_of_walk hwalk, ← look_eq_file]
  cases hlook : tree.look trail with
  | file found =>
    rw [hlook] at h₁
    exact congrArg Place.file (Except.ok.inj h₁)
  | folder | nothing =>
    rw [hlook] at h₁
    cases h₁

/-- To a path that was read a file can be written, and it is put under its plain form. -/
theorem write_of_read (h : tree.read path = .ok old) (data : Bytes) :
    tree.write path data = .ok (tree.put (Path.normalize path) data) := by
  have hfile := lookup_of_read h
  obtain ⟨trail, hwalk, -⟩ := Outcome.bind_eq_ok.1 h
  rw [← plain_of_walk hwalk] at hfile ⊢
  refine Outcome.bind_eq_ok.2 ⟨trail, hwalk, ?_⟩
  rw [look_eq_file.2 hfile]
  rfl

section put

variable {key : String} (hkey : Path.normalize key = key)
  (hfile : (tree.files.lookup key).isSome)

include hkey hfile

/-- A file that is replaced has the same directories around it. -/
theorem isFolder_put (plain : String) :
    (tree.put key data).isFolder plain = tree.isFolder plain := by
  have hany : (Entries.assign tree.files key data).any
      (fun file => (Path.within? plain file.1).isSome) =
        tree.files.any fun file => (Path.within? plain file.1).isSome := by
    have hkeys := Entries.keys_assign_of_mem (Entries.isSome_lookup_iff.1 hfile) data
    have hall := congrArg (List.any · fun name => (Path.within? plain name).isSome) hkeys
    rwa [List.any_map, List.any_map] at hall
  rw [isFolder, isFolder, put, hkey]
  exact congrArg (_ || ·) hany

/-- A file that is replaced is a file as before, and other places are as they were. -/
theorem look_put (trail : Trail) : (tree.put key data).look trail =
    match tree.look trail with
    | .file found => .file (if trail.plain = key then data else found)
    | place => place := by
  rw [look, look, isFolder_put hkey hfile, put, hkey]
  by_cases hplain : trail.plain = key
  · obtain ⟨found, hfound⟩ := Option.isSome_iff_exists.1 hfile
    rw [hplain, Entries.lookup_assign_self, hfound]
    simp only [if_pos]
  · rw [Entries.lookup_assign_of_ne hplain]
    cases tree.files.lookup trail.plain with
    | some found => simp only [if_neg hplain]
    | none =>
      simp only
      split <;> rfl

/-- The same paths can be followed. -/
theorem walk_put (path : String) : (tree.put key data).walk path = tree.walk path := by
  have hstep : (tree.put key data).step path = tree.step path := by
    funext trail component
    rw [step, step, look_put hkey hfile]
    cases tree.look trail <;> rfl
  rw [walk, walk, hstep]

/-- Another file is read as before. -/
theorem read_put (path : String) : (tree.put key data).read path =
    (tree.read path).map fun found => if Path.normalize path = key then data else found := by
  rw [read, read, walk_put hkey hfile]
  cases hwalk : tree.walk path with
  | error e => rfl
  | ok trail =>
    simp only [bind, Except.bind]
    rw [look_put hkey hfile, plain_of_walk hwalk]
    cases tree.look trail <;> rfl

end put

/-- **What is written replaces what was read**, and every other file is read as before. -/
theorem read_write (h : tree.read path = .ok old) (hwrite : tree.write path data = .ok tree')
    (other : String) : tree'.read other = (tree.read other).map fun found =>
      if Path.normalize other = Path.normalize path then data else found := by
  obtain rfl := Outcome.ok_unique (write_of_read h data) hwrite
  exact read_put (Path.normalize_normalize path) (Option.isSome_iff_exists.2 ⟨_, lookup_of_read h⟩)
    other

theorem read_write_self (h : tree.read path = .ok old) (hwrite : tree.write path data = .ok tree') :
    tree'.read path = .ok data := by
  rw [read_write h hwrite, h, Except.map, if_pos rfl]

/-- What is written leaves other files alone. -/
theorem read_write_of_ne (h : tree.read path = .ok old) (hwrite : tree.write path data = .ok tree')
    {other : String} (hne : Path.normalize other ≠ Path.normalize path) :
    tree'.read other = tree.read other := by
  rw [read_write h hwrite]
  cases tree.read other with
  | error e => rfl
  | ok found => rw [Except.map, if_neg hne]

/-- To write what was read changes nothing. -/
theorem read_write_same (h : tree.read path = .ok data) (hwrite : tree.write path data = .ok tree')
    (other : String) : tree'.read other = tree.read other := by
  rw [read_write h hwrite other]
  cases hread : tree.read other with
  | error e => rfl
  | ok found =>
    by_cases hsame : Path.normalize other = Path.normalize path
    · have hfound := lookup_of_read hread
      rw [hsame, lookup_of_read h] at hfound
      rw [Except.map, if_pos hsame, Option.some.inj hfound]
    · rw [Except.map, if_neg hsame]

end FileTree

end VerifiedBoot
