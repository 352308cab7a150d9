import VerifiedBoot.Proofs.Command.FileTree

/-!
# What stays in its place

Files are written and directories are made beside those that are there. A directory stays one, and a
file keeps its bytes unless it is the one that is written: what was read from a path is read from it
afterwards.

Two paths lead to one file only if they end in the same component. A path whose last component is
empty, a dot or two dots leads to a directory.
-/

namespace VerifiedBoot

namespace FileTree

variable {tree tree' : FileTree} {path other : String} {trail : Trail} {data found : Bytes}

/-! ### Paths that can still be followed -/

/-- Whether every directory of a tree is one of another, too. -/
def KeepsFolders (tree tree' : FileTree) : Prop :=
  ∀ trail : Trail, Trail.IsPlain trail.absolute trail.above → tree.look trail = .folder →
    tree'.look trail = .folder

/-- Where directories stay, the same steps can be taken. -/
theorem KeepsFolders.foldlM_step (h : KeepsFolders tree tree') {components : List (List Char)}
    (hslash : ∀ c ∈ components, '/' ∉ c) {start : Trail}
    (hplain : Trail.IsPlain start.absolute start.above)
    (hsteps : components.foldlM (tree.step path) start = .ok trail) :
    components.foldlM (tree'.step path) start = .ok trail := by
  induction components generalizing start with
  | nil => exact hsteps
  | cons component rest ih =>
    rw [List.forall_mem_cons] at hslash
    rw [List.foldlM_cons] at hsteps ⊢
    obtain ⟨next, hstep, hrest⟩ := Outcome.bind_eq_ok.1 hsteps
    obtain ⟨hfolder, rfl⟩ := step_eq_ok hstep
    obtain ⟨habsolute, habove⟩ := hplain.push hslash.1
    rw [← habsolute] at habove
    refine Outcome.bind_eq_ok.2 ⟨_, ?_, ih hslash.2 habove hrest⟩
    -- A step looks at nothing but the directory that it starts from.
    rw [← hstep, step, step, h _ hplain hfolder, hfolder]

/-- Where directories stay, the same paths can be followed. -/
theorem KeepsFolders.walk (h : KeepsFolders tree tree') (hwalk : tree.walk path = .ok trail) :
    tree'.walk path = .ok trail := by
  have hstart : Trail.IsPlain (Path.start path).absolute (Path.start path).above := trivial
  have hsteps :=
    h.foldlM_step (fun _ => Path.slash_not_mem_of_mem_components) hstart (walk_eq_ok hwalk)
  obtain ⟨⟨⟩, hpiece, h₁⟩ := Outcome.bind_eq_ok.1 hwalk
  refine Outcome.bind_eq_ok.2 ⟨⟨⟩, hpiece, ?_⟩
  split at h₁
  · obtain ⟨_, h₂, -⟩ := Outcome.bind_eq_ok.1 h₁
    cases h₂
  · next hempty =>
    rw [if_neg hempty]
    exact hsteps

/-- A file is read at the end of its path. -/
theorem read_eq_ok : tree.read path = .ok data ↔
    ∃ trail, tree.walk path = .ok trail ∧ tree.look trail = .file data := by
  refine Outcome.bind_eq_ok.trans (exists_congr fun trail => and_congr_right fun _ => ?_)
  cases tree.look trail with
  | file found => exact ⟨fun h => congrArg Place.file (Except.ok.inj h), fun h => by cases h; rfl⟩
  | folder | nothing => exact ⟨nofun, nofun⟩

/-- Where directories stay, a file is read whose place holds it. -/
theorem KeepsFolders.read (h : KeepsFolders tree tree') (hread : tree.read path = .ok data)
    (hfile : tree'.files.lookup (Path.normalize path) = some found) :
    tree'.read path = .ok found := by
  obtain ⟨trail, hwalk, -⟩ := read_eq_ok.1 hread
  rw [← plain_of_walk hwalk] at hfile
  exact read_eq_ok.2 ⟨trail, h.walk hwalk, look_eq_file.2 hfile⟩

/-- There is a directory at a place where no file stands under its path, if it is above all paths or
if a directory was made there or something is in it. -/
theorem look_eq_folder : tree.look trail = .folder ↔ tree.files.lookup trail.plain = none ∧
    (trail.isOutside || tree.isFolder trail.plain) = true := by
  unfold look
  cases tree.files.lookup trail.plain with
  | some found => exact ⟨nofun, nofun⟩
  | none =>
    simp only [true_and]
    split
    · next h => exact iff_of_true rfl h
    · next h => exact iff_of_false nofun h

/-! ### Writing -/

/-- Whether a tree has the same files as another, and all of its directories. -/
structure Grows (tree tree' : FileTree) : Prop where
  files : tree'.files = tree.files
  folders : ∀ folder ∈ tree.folders, folder ∈ tree'.folders

theorem Grows.refl (tree : FileTree) : Grows tree tree :=
  ⟨rfl, fun _ => id⟩

theorem Grows.trans {tree'' : FileTree} (h : Grows tree tree') (h' : Grows tree' tree'') :
    Grows tree tree'' :=
  ⟨h'.files.trans h.files, fun folder hfolder => h'.folders folder (h.folders folder hfolder)⟩

/-- Directories that are added leave the others where they are. -/
theorem Grows.keepsFolders (h : Grows tree tree') : KeepsFolders tree tree' := by
  intro trail _ hfolder
  obtain ⟨hnone, hfound⟩ := look_eq_folder.1 hfolder
  refine look_eq_folder.2 ⟨by rw [h.files, hnone], ?_⟩
  simp only [isFolder, Bool.or_eq_true, List.any_eq_true, List.contains_iff_mem, h.files]
    at hfound ⊢
  refine hfound.imp_right fun hwithin => hwithin.imp_left (Or.imp (h.folders _) ?_)
  rintro ⟨folder, hfolder, hinside⟩
  exact ⟨folder, h.folders folder hfolder, hinside⟩

theorem Grows.read (h : Grows tree tree') (hread : tree.read path = .ok data) :
    tree'.read path = .ok data := by
  refine h.keepsFolders.read hread ?_
  rw [h.files, lookup_of_read hread]

/-- Whether all places on the way to a place are directories. -/
def Reached (tree : FileTree) (trail : Trail) : Prop :=
  ∀ above, above <:+ trail.above → above ≠ trail.above →
    tree.look ⟨trail.absolute, above⟩ = .folder

/-- A directory and all places on the way to it are on the way to what is within it. -/
theorem Reached.cons (h : Reached tree trail) (hfolder : tree.look trail = .folder)
    (component : List Char) : Reached tree { trail with above := component :: trail.above } := by
  intro above hsuffix hne
  rcases List.suffix_cons_iff.1 hsuffix with rfl | habove
  · exact absurd rfl hne
  · by_cases hsame : above = trail.above
    · rw [hsame]
      exact hfolder
    · exact h above habove hsame

/-- A step stays on directories. Where it leaves them, it ends in its component. -/
theorem Reached.step {next : Trail} {component : List Char} (h : Reached tree trail)
    (hstep : tree.step path trail component = .ok next) : Reached tree next ∧
      (tree.look next ≠ .folder → next.above.head? = some component) := by
  obtain ⟨hfolder, rfl⟩ := step_eq_ok hstep
  unfold Trail.push
  split
  · exact ⟨h, fun hne => absurd hfolder hne⟩
  · split
    · next hdots =>
      obtain ⟨absolute, above⟩ := trail
      cases above with
      | nil =>
        cases absolute with
        | true => exact ⟨h, fun hne => absurd hfolder hne⟩
        | false => exact ⟨h.cons hfolder component, fun _ => rfl⟩
      | cons last others =>
        simp only
        split
        · exact ⟨h.cons hfolder component, fun _ => rfl⟩
        · -- The place above is on the way, so it is a directory.
          have hothers : others <:+ last :: others := List.suffix_cons last others
          have hshorter : others ≠ last :: others := (List.cons_ne_self last others).symm
          refine ⟨fun above hsuffix hne => h above (hsuffix.trans hothers) ?_,
            fun hne => absurd (h others hothers hshorter) hne⟩
          rintro rfl
          exact Nat.not_succ_le_self _ hsuffix.length_le
    · exact ⟨h.cons hfolder component, fun _ => rfl⟩

/-- Steps that leave the directories end in the last component. -/
theorem Reached.foldlM_step {components : List (List Char)} {start : Trail}
    (h : Reached tree start) (hcomponents : components ≠ [])
    (hsteps : components.foldlM (tree.step path) start = .ok trail)
    (hne : tree.look trail ≠ .folder) :
    trail.above.head? = some (components.getLastD []) := by
  induction components generalizing start with
  | nil => exact absurd rfl hcomponents
  | cons component rest ih =>
    rw [List.foldlM_cons] at hsteps
    obtain ⟨next, hstep, hrest⟩ := Outcome.bind_eq_ok.1 hsteps
    obtain ⟨hnext, hhead⟩ := h.step hstep
    cases rest with
    | nil =>
      obtain rfl := Except.ok.inj hrest
      exact hhead hne
    | cons second others => exact ih hnext (List.cons_ne_nil _ _) hrest

end FileTree

end VerifiedBoot
