import VerifiedBoot.Proofs.Command.Session
import VerifiedBoot.Proofs.Fault
import VerifiedBoot.Proofs.Partition.Rewrite

/-!
# Writing requests to their files

Requests are written one after the other, each to the file of its partition, and what was written
stays if a later one is turned down. What is turned down itself changes nothing: a domain error
comes before the first byte of a request is written.
-/

namespace VerifiedBoot

namespace Request

variable {suite : Suite} {request : Request} {file : Bytes} {alignment : Int} {e : Error}
  {w : Written}

/-- An image that is turned down leaves the file as it was. -/
theorem file_of_writeBare_eq_error (h : request.writeBare suite file alignment = (.error e, w)) :
    w.file = file := by
  unfold writeBare at h
  split at h
  · obtain ⟨-, rfl⟩ := Prod.mk.inj h
    rfl
  · cases h

/-- An image with a footer that is turned down leaves the file as it was. Only where the footer
cannot be encoded is the image written already. -/
theorem file_of_writeFooted_eq_error {footer : Footer} {size : Nat}
    (h : request.writeFooted suite footer file size alignment = (.error e, w))
    (hdomain : e.isDomain = true) : w.file = file := by
  -- The three refusals before the image is written leave the file. After it only the footer can
  -- fail, and packing one never fails with a domain error.
  simp only [writeFooted] at h
  split at h
  · obtain ⟨-, rfl⟩ := Prod.mk.inj h
    rfl
  · split at h
    · obtain ⟨-, rfl⟩ := Prod.mk.inj h
      rfl
    · split at h
      · obtain ⟨-, rfl⟩ := Prod.mk.inj h
        rfl
      · split at h
        · next hencode =>
          obtain ⟨he, -⟩ := Prod.mk.inj h
          rw [← Except.error.inj he] at hdomain
          exact absurd hencode ((Layout.pack_faultAtWorst _ _).ne_error hdomain)
        · cases h

/-- A request that is turned down leaves the file as it was. -/
theorem file_of_applyInPlace_eq_error
    (h : request.applyInPlace suite file alignment = (.error e, w)) (hdomain : e.isDomain = true) :
    w.file = file := by
  unfold applyInPlace at h
  split at h
  · exact file_of_writeBare_eq_error h
  · exact file_of_writeFooted_eq_error h hdomain

end Request

namespace Session

variable {suite : Suite} {pattern : Pattern} {alignment : Option Int} {request : Request}
  {requests : List Request} {s s' : RunState} {tree tree' : FileTree} {e : Error}

/-- A missing alignment does not turn a request down. -/
theorem file_of_withAlignment_eq_error {file : Bytes} {w : Written}
    (h : withAlignment alignment (request.applyInPlace suite file) = (.error e, w))
    (hdomain : e.isDomain = true) : w.file = file := by
  unfold withAlignment at h
  split at h
  · exact Request.file_of_applyInPlace_eq_error h hdomain
  · split at h
    · obtain ⟨he, -⟩ := Prod.mk.inj h
      rw [← Except.error.inj he] at hdomain
      cases hdomain
    · exact Request.file_of_applyInPlace_eq_error h hdomain

variable (suite pattern alignment) in
/-- Whether requests lead from a tree of files to another: one after the other, each is applied to
the file of its partition and replaces it, and no other file changes. -/
inductive Applied : List Request → FileTree → FileTree → Prop
  | nil {tree tree' : FileTree} : (∀ path, tree'.read path = tree.read path) → Applied [] tree tree'
  | cons {request : Request} {rest : List Request} {path : String} {file : Bytes} {w : Written}
    {tree tree₁ tree' : FileTree} :
    pattern.pathFor request.partition = .ok path → tree.read path = .ok file →
    withAlignment alignment (request.applyInPlace suite file) = (.ok (), w) →
    (∀ other, tree₁.read other = (tree.read other).map fun found =>
      if Path.normalize other = Path.normalize path then w.file else found) →
    Applied rest tree₁ tree' → Applied (request :: rest) tree tree'

variable (suite pattern alignment) in
/-- Whether a request is turned down: its partition has no file that can be read, or it cannot be
applied to this file. -/
def TurnsDown (request : Request) (tree : FileTree) (e : Error) : Prop :=
  pattern.pathFor request.partition = .error e ∨
  ∃ path, pattern.pathFor request.partition = .ok path ∧
    (tree.read path = .error e ∨ ∃ file w, tree.read path = .ok file ∧
      withAlignment alignment (request.applyInPlace suite file) = (.error e, w))

/-- Files of other partitions are read as before. -/
theorem Applied.read_of_other (h : Applied suite pattern alignment requests tree tree')
    {other : String} (hother : ∀ request ∈ requests, ∀ path,
      pattern.pathFor request.partition = .ok path → Path.normalize other ≠ Path.normalize path) :
    tree'.read other = tree.read other := by
  induction h with
  | nil hsame => exact hsame other
  | @cons request rest path file w tree tree₁ tree' hpath _ _ hwritten _ ih =>
    rw [List.forall_mem_cons] at hother
    rw [ih hother.2, hwritten other]
    cases tree.read other with
    | error e => rfl
    | ok found => rw [Except.map, if_neg (hother.1 path hpath)]

/-- What writing a request comes to: a file that was read gets what the request makes of it. -/
theorem outcome_writeBack {path : String} {file : Bytes}
    (hpath : pattern.pathFor request.partition = .ok path) (hread : s.tree.read path = .ok file) :
    (writeBack suite pattern alignment request).outcome s =
      ((withAlignment alignment (request.applyInPlace suite file)).1,
        ⟨s.tree.put (Path.normalize path)
          (withAlignment alignment (request.applyInPlace suite file)).2.file,
          s.output ++ s!"Rewriting partition {request.partition}\n"⟩) := by
  rw [writeBack, outcome_bind_ok (outcome_print _ s), outcome_ofExcept_bind hpath,
    outcome_readFile_bind hread]
  exact (outcome_writeFile_bind (FileTree.write_of_read hread _) _ _).trans (outcome_ofExcept _ _)

/-- A request whose partition has no file is turned down, and nothing is written. -/
theorem tree_of_writeBack {result : Except Error Unit}
    (h : (writeBack suite pattern alignment request).outcome s = (result, s')) :
    (s'.tree = s.tree ∧
      ∃ e, result = .error e ∧ TurnsDown suite pattern alignment request s.tree e) ∨
    ∃ path file, pattern.pathFor request.partition = .ok path ∧ s.tree.read path = .ok file := by
  rw [writeBack, outcome_bind_ok (outcome_print _ s), outcome_bind, outcome_ofExcept] at h
  cases hpath : pattern.pathFor request.partition with
  | error e =>
    rw [hpath] at h
    obtain ⟨rfl, rfl⟩ := Prod.mk.inj h
    exact .inl ⟨rfl, e, rfl, .inl hpath⟩
  | ok path =>
    rw [hpath] at h
    simp only at h
    rw [outcome_bind, outcome_readFile] at h
    cases hread : s.tree.read path with
    | ok file => exact .inr ⟨path, file, rfl, hread⟩
    | error e =>
      rw [hread] at h
      obtain ⟨rfl, rfl⟩ := Prod.mk.inj h
      exact .inl ⟨rfl, e, rfl, .inr ⟨path, hpath, .inl hread⟩⟩

/-- A request that was written leads to the tree that is left, as a first step. -/
theorem applied_of_writeBack {rest : List Request}
    (h : (writeBack suite pattern alignment request).outcome s = (.ok (), s'))
    (hrest : Applied suite pattern alignment rest s'.tree tree') :
    Applied suite pattern alignment (request :: rest) s.tree tree' := by
  rcases tree_of_writeBack h with ⟨-, e, he, -⟩ | ⟨path, file, hpath, hread⟩
  · cases he
  · have houtcome := @outcome_writeBack suite pattern alignment _ _ _ _ hpath hread
    obtain ⟨hok, rfl⟩ := Prod.mk.inj (houtcome.symm.trans h)
    refine .cons hpath hread (Prod.ext hok rfl) ?_ hrest
    exact FileTree.read_write hread (FileTree.write_of_read hread _)

/-- A request that cannot be written is turned down, and changes nothing. -/
theorem turnsDown_of_writeBack
    (h : (writeBack suite pattern alignment request).outcome s = (.error e, s'))
    (hdomain : e.isDomain = true) : TurnsDown suite pattern alignment request s.tree e ∧
      ∀ path, s'.tree.read path = s.tree.read path := by
  rcases tree_of_writeBack h with ⟨hsame, e', he, hdown⟩ | ⟨path, file, hpath, hread⟩
  · obtain rfl := Except.error.inj he
    exact ⟨hdown, fun path => by rw [hsame]⟩
  · have houtcome := @outcome_writeBack suite pattern alignment _ _ _ _ hpath hread
    obtain ⟨hfailed, rfl⟩ := Prod.mk.inj (houtcome.symm.trans h)
    have hrun : withAlignment alignment (request.applyInPlace suite file) = (.error e, _) :=
      Prod.ext hfailed rfl
    rw [file_of_withAlignment_eq_error hrun hdomain]
    exact ⟨.inr ⟨path, hpath, .inr ⟨file, _, hread, hrun⟩⟩,
      FileTree.read_write_same hread (FileTree.write_of_read hread _)⟩

/-- Whether a request is turned down depends on what is read only. -/
theorem TurnsDown.of_read (h : TurnsDown suite pattern alignment request tree e)
    (hsame : ∀ path, tree'.read path = tree.read path) :
    TurnsDown suite pattern alignment request tree' e := by
  unfold TurnsDown at h ⊢
  simp only [hsame]
  exact h

/-- Requests that are written in turn are applied up to the first one that is turned down, or all
of them. -/
theorem applied_of_forM {result : Except Error Unit}
    (h : (requests.forM (writeBack suite pattern alignment)).outcome s = (result, s'))
    (hdomain : ∀ e, result = .error e → e.isDomain = true) :
    ∃ done, Applied suite pattern alignment done s.tree s'.tree ∧
      (result = .ok () ∧ done = requests ∨ ∃ e next, result = .error e ∧
        done ++ [next] <+: requests ∧ TurnsDown suite pattern alignment next s'.tree e) := by
  induction requests generalizing s with
  | nil =>
    obtain ⟨rfl, rfl⟩ := Prod.mk.inj h
    exact ⟨[], .nil fun _ => rfl, .inl ⟨rfl, rfl⟩⟩
  | cons request rest ih =>
    rw [List.forM, outcome_bind] at h
    cases hfirst : (writeBack suite pattern alignment request).outcome s with
    | mk first s₁ =>
      rw [hfirst] at h
      cases first with
      | error e =>
        obtain ⟨rfl, rfl⟩ := Prod.mk.inj h
        -- The one that is turned down changes nothing, so the tree it was turned down on is the one
        -- left behind.
        obtain ⟨hdown, hsame⟩ := turnsDown_of_writeBack hfirst (hdomain e rfl)
        exact ⟨[], .nil hsame, .inr ⟨e, request, rfl, List.prefix_append [request] rest,
          hdown.of_read hsame⟩⟩
      | ok =>
        obtain ⟨done, happlied, hended⟩ := ih h
        refine ⟨request :: done, applied_of_writeBack hfirst happlied, ?_⟩
        refine hended.imp (fun ⟨hok, hall⟩ => ⟨hok, congrArg _ hall⟩) ?_
        rintro ⟨e, next, he, hnext, hdown⟩
        exact ⟨e, next, he, List.cons_prefix_cons.2 ⟨rfl, hnext⟩, hdown⟩

end Session

end VerifiedBoot
