import VerifiedBoot.Proofs.Command.WriteBack
import VerifiedBoot.Proofs.Repair.Clean
import VerifiedBoot.Proofs.Repair.Extent

/-!
# Repairs in place that end early

A repair in place first finds out which requests it comes to, and then writes them in turn. If it
ends with a complaint, then the files that are left are those of the requests up to some point, and
all others are as they were. Nothing is undone: requests that were written before one that is
turned down stay.
-/

namespace VerifiedBoot

namespace Session

variable {suite : Suite} {pattern : Pattern} {alignment : Option Int} {s s' : RunState} {e : Error}

variable (suite) in
/-- Whether a repair of the files comes to requests, with what a verification finds from a root, and
with the keys in a directory. -/
def ComesTo (generate : Nat → Except Error KeyPair) (tree : FileTree) (pattern : Pattern)
    (root directory : String) (limit : Option Int) (requests : List Request) : Prop :=
  ∃ found files pairs,
    Verifier.verify ⟨suite, Verifier.defaultChunkSize⟩ (storeOf suite tree pattern root) root =
      .ok found ∧
    tree.list directory = .ok files ∧ KeyPair.ofFiles files = .ok pairs ∧
    withLimit limit (Repair.rebuild ⟨Keyring.ofList pairs, generate⟩ found) = .ok requests

variable (suite) in
/-- What a repair does with the requests that it came to: they are written in place, and the files
are verified once more, or copies are written to another directory. -/
def carryOut (pattern : Pattern) (text root : String) (alignment : Option Int)
    (requests : List Request) : Option String → Session Nat
  | none => do
    requests.forM (writeBack suite pattern alignment)
    return exitCode (← verify suite pattern root false)
  | some outputDir => do
    let copies ← copyPattern text outputDir
    requests.forM (copy suite pattern copies alignment)
    return 0

/-- A repair that comes to requests goes on with these. -/
theorem outcome_fix {generate : Nat → Except Error KeyPair} {text root directory shown : String}
    {limit : Option Int} {found : Verification} {files : List (String × Bytes)}
    {pairs : List KeyPair} {requests : List Request} (outputDir : Option String)
    (hpattern : Pattern.ofString text = .ok pattern)
    (hverify : Verifier.verify ⟨suite, Verifier.defaultChunkSize⟩
      (storeOf suite s.tree pattern root) root = .ok found)
    (hreport : found.report false = .ok shown) (hissues : found.issues.isEmpty = false)
    (hlist : s.tree.list directory = .ok files) (hpairs : KeyPair.ofFiles files = .ok pairs)
    (hrequests : withLimit limit (Repair.rebuild ⟨Keyring.ofList pairs, generate⟩ found) =
      .ok requests) :
    (fix suite generate (some root) text (some directory) outputDir alignment limit).outcome s =
      (carryOut suite pattern text root alignment requests outputDir).outcome
        { s with output := s.output ++ shown } := by
  rw [fix, outcome_ofExcept_bind hpattern, outcome_bind_ok (outcome_demand _ root s),
    outcome_bind_ok (outcome_verify hverify hreport), hissues, if_neg Bool.false_ne_true,
    outcome_bind_ok (outcome_get _), outcome_bind_ok (outcome_demand _ directory _),
    outcome_ofExcept_bind hlist, outcome_ofExcept_bind hpairs, outcome_ofExcept_bind hrequests]
  cases outputDir <;> rfl

/-- A repair leaves the files alone, up to the requests that it comes to. -/
theorem fix_cases (generate : Nat → Except Error KeyPair) (root keys outputDir : Option String)
    (text : String) (alignment limit : Option Int) (s : RunState) :
    ((fix suite generate root text keys outputDir alignment limit).outcome s).2.tree = s.tree ∨
      ∃ pattern start directory requests s₁,
        Pattern.ofString text = .ok pattern ∧ root = some start ∧ keys = some directory ∧
        ComesTo suite generate s.tree pattern start directory limit requests ∧ s₁.tree = s.tree ∧
        (fix suite generate root text keys outputDir alignment limit).outcome s =
          (carryOut suite pattern text start alignment requests outputDir).outcome s₁ := by
  -- Eight steps come before the requests are carried out. Each one either ends the repair with the
  -- files as they were, or goes on with them as they were.
  unfold fix
  rcases (keepsTree_ofExcept _).bind_outcome _ s with hsame | ⟨pattern, s₁, hpattern, hs₁, h₁⟩
  · exact .inl hsame
  rw [h₁]
  rcases (keepsTree_demand _ _).bind_outcome _ s₁ with hsame | ⟨start, s₂, hstart, hs₂, h₂⟩
  · exact .inl (hsame.trans hs₁)
  rw [h₂, ← hs₁, ← hs₂]
  rcases (keepsTree_verify _ _ _ _).bind_outcome _ s₂ with hsame | ⟨found, s₃, hfound, hs₃, h₃⟩
  · exact .inl hsame
  rw [h₃]
  split
  · exact .inl hs₃
  rcases keepsTree_get.bind_outcome _ s₃ with hsame | ⟨state, s₄, hget, hs₄, h₄⟩
  · exact .inl (hsame.trans hs₃)
  rw [h₄]
  rcases (keepsTree_demand _ _).bind_outcome _ s₄ with hsame | ⟨directory, s₅, hkeys, hs₅, h₅⟩
  · exact .inl (hsame.trans (hs₄.trans hs₃))
  rw [h₅]
  rcases (keepsTree_ofExcept _).bind_outcome _ s₅ with hsame | ⟨files, s₆, hfiles, hs₆, h₆⟩
  · exact .inl (hsame.trans (hs₅.trans (hs₄.trans hs₃)))
  rw [h₆]
  have hs := hs₆.trans (hs₅.trans (hs₄.trans hs₃))
  rcases (keepsTree_ofExcept _).bind_outcome _ s₆ with hsame | ⟨pairs, s₇, hpairs, hs₇, h₇⟩
  · exact .inl (hsame.trans hs)
  rw [h₇]
  rcases (keepsTree_ofExcept _).bind_outcome _ s₇ with hsame | ⟨requests, s₈, hrequests, hs₈, h₈⟩
  · exact .inl (hsame.trans (hs₇.trans hs))
  rw [h₈]
  obtain ⟨hstate, -⟩ := Prod.mk.inj hget
  obtain rfl := Except.ok.inj hstate
  have hlist := eq_ok_of_ofExcept hfiles
  rw [hs₃] at hlist
  refine .inr ⟨pattern, start, directory, requests, s₈, eq_ok_of_ofExcept hpattern,
    eq_some_of_demand hstart, eq_some_of_demand hkeys,
    ⟨found, files, pairs, verify_of_outcome hfound, hlist, eq_ok_of_ofExcept hpairs,
      eq_ok_of_ofExcept hrequests⟩, hs₈.trans (hs₇.trans hs), ?_⟩
  cases outputDir <;> rfl

/-- A repair in place that is turned down wrote nothing, or it applied the requests that it came to,
all of them or those before the one that was turned down. -/
theorem applied_of_fix_eq_error {generate : Nat → Except Error KeyPair} {root keys : Option String}
    {text : String} {limit : Option Int}
    (h : (fix suite generate root text keys none alignment limit).outcome s = (.error e, s'))
    (hdomain : e.isDomain = true) :
    s'.tree = s.tree ∨ ∃ pattern start directory requests done,
      Pattern.ofString text = .ok pattern ∧ root = some start ∧ keys = some directory ∧
      ComesTo suite generate s.tree pattern start directory limit requests ∧
      Applied suite pattern alignment done s.tree s'.tree ∧
      (done = requests ∨ ∃ next, done ++ [next] <+: requests ∧
        TurnsDown suite pattern alignment next s'.tree e) := by
  have hcases := @fix_cases suite generate root keys none text alignment limit s
  rw [h] at hcases
  refine hcases.imp_right ?_
  rintro ⟨pattern, start, directory, requests, s₁, hpattern, hroot, hkeys, hcomes, hs₁, h₁⟩
  suffices hdone : ∃ done, Applied suite pattern alignment done s₁.tree s'.tree ∧
      (done = requests ∨ ∃ next, done ++ [next] <+: requests ∧
        TurnsDown suite pattern alignment next s'.tree e) by
    obtain ⟨done, happlied, hended⟩ := hdone
    rw [hs₁] at happlied
    exact ⟨pattern, start, directory, requests, done, hpattern, hroot, hkeys, hcomes, happlied,
      hended⟩
  rcases bind_eq_error.1 h₁.symm with hfailed | ⟨_, s₂, hwritten, h₂⟩
  · obtain ⟨done, happlied, ⟨hok, -⟩ | ⟨e', next, he, hnext, hdown⟩⟩ :=
      applied_of_forM hfailed fun e' he => Except.error.inj he ▸ hdomain
    · cases hok
    · obtain rfl := Except.error.inj he
      exact ⟨done, happlied, .inr ⟨next, hnext, hdown⟩⟩
  -- What fails behind the requests is the second verification, which changes nothing.
  · have hkept : s'.tree = s₂.tree := by
      have hverify : KeepsTree (verify suite pattern start false >>= fun found =>
          pure (exitCode found)) := (keepsTree_verify _ _ _ _).bind fun _ _ => rfl
      have hverified := hverify s₂
      rwa [h₂] at hverified
    obtain ⟨done, happlied, ⟨-, hall⟩ | ⟨e', next, he, -⟩⟩ := applied_of_forM hwritten nofun
    · rw [hkept]
      exact ⟨done, happlied, .inl hall⟩
    · cases he

end Session

namespace Outcome

open Session

variable {suite : Suite} {generate : Nat → Except Error KeyPair} {tree : FileTree}
  {args : List String} {invocation : Invocation} {text : String} {keys : Option String}
  {alignment limit : Option Int} {e : Error}

/-- A session that ends with a complaint failed with a domain error. -/
theorem outcome_of_complaint {session : Session Nat}
    (h : (ofSession session tree).complaint = some e) :
    session.outcome ⟨tree, ""⟩ = (.error e, (ofSession session tree).state) ∧
      e.isDomain = true := by
  unfold ofSession at h ⊢
  cases hended : StateT.run (ExceptT.run session) ⟨tree, ""⟩ with
  | mk result state =>
    rw [hended] at h
    cases result with
    | ok code => cases h
    | error e' =>
      simp only at h ⊢
      split at h
      · next hdomain =>
        obtain rfl := Option.some.inj h
        rw [if_pos hdomain]
        exact ⟨hended, hdomain⟩
      · cases h

/-- A session that fails with a domain error ends with a complaint. -/
theorem ofSession_of_outcome {session : Session Nat} {state : RunState}
    (h : session.outcome ⟨tree, ""⟩ = (.error e, state)) (hdomain : e.isDomain = true) :
    ofSession session tree = ⟨.ok 1, some e, state⟩ := by
  unfold ofSession
  rw [show StateT.run (ExceptT.run session) ⟨tree, ""⟩ = (.error e, state) from h]
  exact if_pos hdomain

/-- **What a repair in place leaves behind when it ends with a complaint.** Either no file changed,
or the requests that it came to were applied, all of them or those before the one that the complaint
is about. No other file changed, and so not that of the request that was turned down. -/
theorem applied_of_complaint (hparse : Invocation.parse args = .ok invocation)
    (hcommand : invocation.command = .fix text keys none alignment limit)
    (hcomplaint : (ofArguments suite generate tree args).complaint = some e) :
    (ofArguments suite generate tree args).state.tree = tree ∨
    ∃ pattern root directory requests done,
      Pattern.ofString text = .ok pattern ∧ invocation.root = some root ∧ keys = some directory ∧
      ComesTo suite generate tree pattern root directory limit requests ∧
      Applied suite pattern alignment done tree (ofArguments suite generate tree args).state.tree ∧
      (done = requests ∨ ∃ next, done ++ [next] <+: requests ∧ TurnsDown suite pattern alignment
        next (ofArguments suite generate tree args).state.tree e) ∧
      ∀ path, (∀ request ∈ done, ∀ own, pattern.pathFor request.partition = .ok own →
          Path.normalize path ≠ Path.normalize own) →
        (ofArguments suite generate tree args).state.tree.read path = tree.read path := by
  have hsession : ofArguments suite generate tree args =
      ofSession (fix suite generate invocation.root text keys none alignment limit) tree := by
    unfold ofArguments
    rw [hparse]
    simp only [perform, hcommand]
  rw [hsession] at hcomplaint ⊢
  obtain ⟨houtcome, hdomain⟩ := outcome_of_complaint hcomplaint
  refine (applied_of_fix_eq_error houtcome hdomain).imp_right ?_
  rintro ⟨pattern, root, directory, requests, done, hpattern, hroot, hkeys, hcomes, happlied,
    hended⟩
  exact ⟨pattern, root, directory, requests, done, hpattern, hroot, hkeys, hcomes, happlied,
    hended, fun path hother => happlied.read_of_other hother⟩

end Outcome

/-! ### Files of which only the first is written -/

namespace Session

open Verifier

/-- A record of an unknown kind whose body does not fill whole groups of eight bytes. -/
def unevenRecord : Bytes :=
  Bytes.bigEndian 8 9 ++ (Bytes.bigEndian 8 4 ++ [1, 1, 1, 1])

/-- An image with this record. It can be read, but not be written again. -/
def unevenImage : Image :=
  { Image.empty with descriptors := [.unknown ⟨some 9, [1, 1, 1, 1]⟩] }

/-- The bytes of this image. -/
def unevenBlob : Bytes :=
  (Image.unsignedHeader Header.empty 20).encode.toOption.getD [] ++ Bytes.padTo 64 unevenRecord

/-- An unsigned image with a hash that is not true, which chains the other one. -/
def leadingImage : Image :=
  { Image.empty with descriptors := [.hash staleHash, .chain bareChain] }

/-- The bytes of this image. -/
def leadingBlob : Bytes :=
  (leadingImage.encodeUnsigned .standard 64).1.toOption.getD []

/-- Files with the two images, and an empty directory of keys. -/
def unevenTree : FileTree :=
  ⟨[("vbmeta.img", leadingBlob), ("boot.img", unevenBlob)], ["keys"]⟩

/-- The pattern of the files. -/
def unevenPattern : Pattern :=
  ⟨[], ".img".toList, []⟩

/-- The partitions in the files. -/
def unevenStore : Store :=
  ⟨[("vbmeta", leadingBlob), ("boot", unevenBlob)], absence unevenTree unevenPattern⟩

/-- The digest that the hash should have. -/
def unevenDigest : Bytes :=
  Digest.Sha256.sha256 (9 :: unevenBlob.take 5)

/-- What is found in the files: the hash is not true, and the second image is not signed. -/
def unevenFound : Verification where
  root := "vbmeta"
  records := [
    ("vbmeta", ⟨Image.unsignedImage leadingImage 240, none⟩),
    ("boot", ⟨Image.unsignedImage unevenImage 20, none⟩)]
  issues := [.hashMismatch "vbmeta" 0 5 unevenDigest, .invalidSignature "boot"]
  references := [⟨"boot", "vbmeta", 0⟩, ⟨"boot", "vbmeta", 1⟩]

/-- Both images are read from their bytes. -/
theorem parse_unevenTree :
    Image.parse .standard leadingBlob = .ok (Image.unsignedImage leadingImage 240) ∧
    Image.parse .standard unevenBlob = .ok (Image.unsignedImage unevenImage 20) := by
  have hrange : leadingImage.InRange := by
    refine Image.inRange_of_descriptors (List.forall_mem_cons.2 ⟨inRange_staleHash, ?_⟩)
    exact List.forall_mem_singleton.2 inRange_bareChain
  refine ⟨Image.parse_getD_encodeUnsigned (by decide +kernel) (by decide +kernel) hrange
    (by decide), ?_⟩
  -- The record of the second image is not one that is written, so it is read step by step.
  have hok : (Image.unsignedHeader Header.empty 20).encode.toBool = true := by decide +kernel
  cases hhead : (Image.unsignedHeader Header.empty 20).encode with
  | error e =>
    rw [hhead] at hok
    cases hok
  | ok head =>
    have hdecode := @Image.decode_unsignedHeader Image.empty 20 head
      (Image.inRange_of_descriptors (List.forall_mem_nil _)) hhead (by decide)
    have hsize : Descriptor.recordSize unevenRecord = .ok 20 := by decide +kernel
    have hrecord : Descriptor.decode unevenRecord = .ok (.unknown ⟨some 9, [1, 1, 1, 1]⟩) := by
      decide +kernel
    have hall : Descriptor.decodeAll unevenRecord = .ok unevenImage.descriptors := by
      rw [Descriptor.decodeAll_of_recordSize (by decide) hsize,
        List.take_of_length_le (by decide), List.drop_of_length_le (by decide), hrecord,
        Descriptor.decodeAll_of_short (by decide)]
      rfl
    have hparse := @Image.parse_unsigned .standard unevenImage head unevenRecord
      (Header.length_of_encode hhead) hdecode hall []
    rw [List.append_nil] at hparse
    rw [unevenBlob, hhead]
    exact hparse

/-- The partitions that a verification can come upon are those of the two files. -/
theorem storeOf_unevenTree :
    storeOf .standard unevenTree unevenPattern "vbmeta" = unevenStore := by
  obtain ⟨hleading, huneven⟩ := parse_unevenTree
  have hmentioned : mentioned .standard unevenTree = ["boot", "boot"] := by
    rw [mentioned, unevenTree, List.flatMap_cons, List.flatMap_cons,
      PartitionInfo.readImage_of_parse hleading, PartitionInfo.readImage_of_parse huneven]
    rfl
  have hnames : ["vbmeta", "boot", "boot"].eraseDups = ["vbmeta", "boot"] := rfl
  rw [storeOf, hmentioned, hnames]
  rfl

/-- The verification of the files finds the two issues. -/
theorem verify_unevenStore :
    Verifier.verify ⟨.standard, defaultChunkSize⟩ unevenStore "vbmeta" = .ok unevenFound := by
  have hopen : unevenStore.open? "vbmeta" = .ok leadingBlob := rfl
  have hopen' : unevenStore.open? "boot" = .ok unevenBlob := rfl
  obtain ⟨hparse, hparse'⟩ := parse_unevenTree
  have himage' := Store.image_of_parse hopen' hparse'
  have hrecord := @recordOf?_of_parse ⟨.standard, defaultChunkSize⟩ _ _ _ _ hopen hparse
  have hrecord' := @recordOf?_of_parse ⟨.standard, defaultChunkSize⟩ _ _ _ _ hopen' hparse'
  have hagrees : Measurement.agrees ⟨5, unevenDigest⟩ staleHash = false := by
    have hdiffers : unevenDigest ≠ staleHash.digest :=
      List.ne_nil_of_length_eq_add_one (Digest.Sha256.length_sha256 _)
    rw [Measurement.agrees, decide_eq_false hdiffers, Bool.and_false]
  have htake : Measurement.take .standard unevenStore defaultChunkSize staleHash 5 =
      .ok (some ⟨5, unevenDigest⟩) := by
    have hbody : (Bytes.padTo 64 unevenRecord).length = 64 := rfl
    have hlength : (5 : Int) ≤ unevenBlob.length := by
      rw [unevenBlob, List.length_append, hbody]
      omega
    rw [@Measurement.take_of_plain .standard unevenStore defaultChunkSize staleHash unevenBlob _
      (by decide) hopen' rfl, Measurement.ofData, Int.min_eq_left hlength,
      Measurement.payload_of_nonneg (by decide)]
    rfl
  have hcheck : checkHashDescriptor ⟨.standard, defaultChunkSize⟩ unevenStore
      ⟨"vbmeta", 0, .hash staleHash⟩ staleHash ⟨["vbmeta"], [], []⟩ =
        .ok ⟨["vbmeta"], [.hashMismatch "vbmeta" 0 5 unevenDigest], [⟨"boot", "vbmeta", 0⟩]⟩ :=
    @checkHashDescriptor_of_bare ⟨.standard, defaultChunkSize⟩ unevenStore _ _ _ _
      ⟨5, unevenDigest⟩ hopen' (PartitionInfo.footer_of_signature (Image.take_of_parse hparse'))
      htake hagrees
  have hcheck' : checkChainDescriptor ⟨.standard, defaultChunkSize⟩ unevenStore
      ⟨"vbmeta", 1, .chain bareChain⟩ bareChain
        ⟨["vbmeta"], [.hashMismatch "vbmeta" 0 5 unevenDigest], [⟨"boot", "vbmeta", 0⟩]⟩ =
        .ok (true, ⟨["vbmeta", "boot"], unevenFound.issues, unevenFound.references⟩) :=
    Outcome.bind_eq_ok.2 ⟨_, himage', rfl⟩
  have henter : enter ⟨.standard, defaultChunkSize⟩ unevenStore "boot"
      ⟨["vbmeta", "boot"], unevenFound.issues, unevenFound.references⟩ =
        .ok ([⟨"boot", 0, .unknown ⟨some 9, [1, 1, 1, 1]⟩⟩],
          ⟨["vbmeta", "boot"], unevenFound.issues, unevenFound.references⟩) :=
    Outcome.bind_eq_ok.2 ⟨_, himage', rfl⟩
  refine Outcome.bind_eq_ok.2
    ⟨([⟨"vbmeta", 0, .hash staleHash⟩, ⟨"vbmeta", 1, .chain bareChain⟩], ⟨["vbmeta"], [], []⟩),
      Outcome.bind_eq_ok.2 ⟨_, Store.image_of_parse hopen hparse, rfl⟩,
      Outcome.bind_eq_ok.2
        ⟨⟨["vbmeta", "boot"], unevenFound.issues, unevenFound.references⟩, ?_, ?_⟩⟩
  · have hleft : bareChain.partitionName ∈ without unevenStore.names "vbmeta" := by decide
    rw [walk_of_hash rfl hcheck, walk_of_chain rfl hcheck' hleft henter]
    exact (walk_of_other (fun d hd => by cases hd) (fun d hd => by cases hd)).trans walk_nil
  · rw [records_cons hrecord, records_cons hrecord']
    rfl

/-- Whether these are requests for the two files, the first of which can be written and changes its
file, while the second one is turned down. -/
def areUneven : List Request → Bool
  | [first, second] =>
    match first.applyInPlace .standard leadingBlob 4096,
      second.applyInPlace .standard unevenBlob 4096 with
    | (.ok (), written), (.error e, _) =>
      first.partition = "vbmeta" && second.partition = "boot" && written.file ≠ leadingBlob &&
        e = .refused (.unalignedBody 4)
    | _, _ => false
  | _ => false

/-- The repair comes to two such requests. -/
theorem exists_rebuild_unevenFound : ∃ first second written left,
    withLimit (some Repair.defaultLimit)
      (Repair.rebuild ⟨Keyring.ofList [], KeyPair.fresh freshKeys⟩ unevenFound) =
        .ok [first, second] ∧
    first.partition = "vbmeta" ∧ second.partition = "boot" ∧
    first.applyInPlace .standard leadingBlob 4096 = (.ok (), written) ∧
    written.file ≠ leadingBlob ∧
    second.applyInPlace .standard unevenBlob 4096 =
      (.error (.refused (.unalignedBody 4)), left) := by
  have hbool : ((Repair.rebuild ⟨Keyring.ofList [], KeyPair.fresh freshKeys⟩ unevenFound
      Repair.defaultLimit).map areUneven).toOption = some true := by
    decide +kernel
  obtain ⟨requests, hrebuild, huneven⟩ := Outcome.exists_of_map hbool
  unfold areUneven at huneven
  split at huneven
  · next first second =>
    split at huneven
    · next written e left hwritten hrefused =>
      simp only [Bool.and_eq_true, decide_eq_true_eq] at huneven
      obtain ⟨⟨⟨hfirst, hsecond⟩, hchanged⟩, rfl⟩ := huneven
      exact ⟨first, second, written, left, hrebuild, hfirst, hsecond, hwritten, hchanged, hrefused⟩
    · cases huneven
  · cases huneven

/-- To write the requests changes the file of the first one, and ends at the second one. -/
theorem outcome_forM_unevenTree {first second : Request} {written left : Written} {output : String}
    (hfirst : first.partition = "vbmeta") (hsecond : second.partition = "boot")
    (hwritten : first.applyInPlace .standard leadingBlob 4096 = (.ok (), written))
    (hrefused : second.applyInPlace .standard unevenBlob 4096 =
      (.error (.refused (.unalignedBody 4)), left)) :
    ∃ state, ([first, second].forM (writeBack .standard unevenPattern (some 4096))).outcome
        ⟨unevenTree, output⟩ = (.error (.refused (.unalignedBody 4)), state) ∧
      state.tree.read "vbmeta.img" = .ok written.file := by
  have hpath : unevenPattern.pathFor first.partition = .ok "vbmeta.img" := by
    rw [hfirst]
    rfl
  have hpath' : unevenPattern.pathFor second.partition = .ok "boot.img" := by
    rw [hsecond]
    rfl
  have hread : unevenTree.read "vbmeta.img" = .ok leadingBlob := rfl
  have hwrite := FileTree.write_of_read hread written.file
  have hother : Path.normalize "boot.img" ≠ Path.normalize "vbmeta.img" := by decide
  have hread' : (unevenTree.put (Path.normalize "vbmeta.img") written.file).read "boot.img" =
      .ok unevenBlob :=
    FileTree.read_write_of_ne hread hwrite hother
  have hwrite' := FileTree.write_of_read hread' left.file
  -- The first request is written in full before the second one, whose image has an uneven body, is
  -- looked at.
  have hdone := @outcome_writeBack .standard unevenPattern (some 4096) _ ⟨unevenTree, output⟩ _ _
    hpath hread
  rw [withAlignment, hwritten] at hdone
  have hstopped := @outcome_writeBack .standard unevenPattern (some 4096) _
    ⟨_, output ++ s!"Rewriting partition {first.partition}\n"⟩ _ _ hpath' hread'
  rw [withAlignment, hrefused] at hstopped
  refine ⟨_, bind_eq_error.2 (.inr ⟨_, _, hdone, bind_eq_error.2 (.inl hstopped)⟩), ?_⟩
  exact (FileTree.read_write_of_ne hread' hwrite' hother.symm).trans
    (FileTree.read_write_self hread hwrite)

/-- The repair of the files goes on with the requests that it comes to. -/
theorem outcome_fix_unevenTree {requests : List Request} (outputDir : Option String)
    (hrebuild : withLimit (some Repair.defaultLimit) (Repair.rebuild
      ⟨Keyring.ofList [], KeyPair.fresh freshKeys⟩ unevenFound) = .ok requests) :
    ∃ output, (fix .standard (KeyPair.fresh freshKeys) (some "vbmeta") "\x7bname\x7d.img"
        (some "keys") outputDir (some 4096) (some Repair.defaultLimit)).outcome ⟨unevenTree, ""⟩ =
      (carryOut .standard unevenPattern "\x7bname\x7d.img" "vbmeta" (some 4096) requests
        outputDir).outcome ⟨unevenTree, output⟩ := by
  have hpattern : Pattern.ofString "\x7bname\x7d.img" = .ok unevenPattern := rfl
  obtain ⟨text, hreport⟩ : ∃ text, unevenFound.report false = .ok text := by
    refine Verification.exists_report ?_ ?_
    · simp only [unevenFound, List.forall_mem_cons]
      exact ⟨⟨.unsigned, rfl⟩, ⟨.unsigned, rfl⟩, List.forall_mem_nil _⟩
    · simp only [unevenFound, List.forall_mem_cons]
      exact ⟨Issue.exists_toText nofun, Issue.exists_toText nofun, List.forall_mem_nil _⟩
  have hverify : Verifier.verify ⟨.standard, defaultChunkSize⟩
      (storeOf .standard unevenTree unevenPattern "vbmeta") "vbmeta" = .ok unevenFound := by
    rw [storeOf_unevenTree]
    exact verify_unevenStore
  have hlist : unevenTree.list "keys" = .ok [] := rfl
  have hpairs : KeyPair.ofFiles [] = .ok [] := by
    rw [KeyPair.ofFiles, List.mergeSort_nil]
    rfl
  exact ⟨_, @outcome_fix .standard unevenPattern (some 4096) ⟨unevenTree, ""⟩ _ _ _ _ _ _ _ _ _ _
    outputDir hpattern hverify hreport rfl hlist hpairs hrebuild⟩

/-- The repair in place writes the first image, and ends at the second one. -/
theorem outcome_fix_in_place_unevenTree : ∃ state,
    (fix .standard (KeyPair.fresh freshKeys) (some "vbmeta") "\x7bname\x7d.img" (some "keys") none
      (some 4096) (some Repair.defaultLimit)).outcome ⟨unevenTree, ""⟩ =
        (.error (.refused (.unalignedBody 4)), state) ∧
      state.tree.read "vbmeta.img" ≠ .ok leadingBlob := by
  obtain ⟨first, second, written, left, hrebuild, hfirst, hsecond, hwritten, hchanged, hrefused⟩ :=
    exists_rebuild_unevenFound
  obtain ⟨output, houtcome⟩ := outcome_fix_unevenTree none hrebuild
  obtain ⟨state, hstate, hread⟩ :=
    @outcome_forM_unevenTree _ _ _ _ output hfirst hsecond hwritten hrefused
  refine ⟨state, ?_, fun hsame => hchanged (Except.ok.inj (hread.symm.trans hsame))⟩
  rw [houtcome]
  exact bind_eq_error.2 (.inl hstate)

end Session

namespace Outcome

open Session

/-- The command line that repairs the two files. -/
def unevenArguments : List String :=
  ["fix", "\x7bname\x7d.img", "keys"]

/-- What the command line asks for. -/
def unevenInvocation : Invocation :=
  ⟨some "vbmeta",
    .fix "\x7bname\x7d.img" (some "keys") none (some 4096) (some Repair.defaultLimit)⟩

/-- The run ends with a complaint about the second file, and the first one has changed. -/
theorem complaint_unevenTree :
    Invocation.parse unevenArguments = .ok unevenInvocation ∧
    (ofArguments .standard (KeyPair.fresh Verifier.freshKeys) unevenTree
      unevenArguments).complaint = some (.refused (.unalignedBody 4)) ∧
    (ofArguments .standard (KeyPair.fresh Verifier.freshKeys) unevenTree
      unevenArguments).state.tree.read "vbmeta.img" ≠ .ok leadingBlob := by
  have hparse : Invocation.parse unevenArguments = .ok unevenInvocation := rfl
  obtain ⟨state, houtcome, hread⟩ := outcome_fix_in_place_unevenTree
  have hended : ofArguments .standard (KeyPair.fresh Verifier.freshKeys) unevenTree
      unevenArguments = ⟨.ok 1, some (.refused (.unalignedBody 4)), state⟩ := by
    unfold ofArguments
    rw [hparse]
    exact ofSession_of_outcome houtcome rfl
  rw [hended]
  exact ⟨hparse, rfl, hread⟩

/-- Nothing is undone: the first file has changed when the run ends. -/
theorem changed_of_complaint :
    ¬∀ (tree : FileTree) (args : List String) (root keys : Option String) (text : String)
        (alignment : Int) (limit : Option Int) (e : Error),
      Invocation.parse args = .ok ⟨root, .fix text keys none (some alignment) limit⟩ →
      1 ≤ alignment →
      (ofArguments .standard (KeyPair.fresh Verifier.freshKeys) tree args).complaint = some e →
      ∀ path, (ofArguments .standard (KeyPair.fresh Verifier.freshKeys) tree
        args).state.tree.read path = tree.read path := by
  intro hunchanged
  obtain ⟨hparse, hcomplaint, hchanged⟩ := complaint_unevenTree
  exact hchanged (hunchanged unevenTree unevenArguments _ _ _ _ _ _ hparse (by decide) hcomplaint
    "vbmeta.img")

/-- Of the requests that the repair of the two files comes to, at least one was applied. -/
theorem applied_of_complaint_unevenTree :
    (Invocation.parse unevenArguments = .ok unevenInvocation ∧
      (ofArguments .standard (KeyPair.fresh Verifier.freshKeys) unevenTree
        unevenArguments).complaint = some (.refused (.unalignedBody 4))) ∧
    ∃ pattern requests done,
      ComesTo .standard (KeyPair.fresh Verifier.freshKeys) unevenTree pattern "vbmeta" "keys"
        (some Repair.defaultLimit) requests ∧ done ≠ [] ∧
      Applied .standard pattern (some 4096) done unevenTree (ofArguments .standard
        (KeyPair.fresh Verifier.freshKeys) unevenTree unevenArguments).state.tree ∧
      (done = requests ∨ ∃ next, done ++ [next] <+: requests) := by
  obtain ⟨hparse, hcomplaint, hchanged⟩ := complaint_unevenTree
  refine ⟨⟨hparse, hcomplaint⟩, ?_⟩
  rcases applied_of_complaint hparse rfl hcomplaint with hsame |
    ⟨pattern, root, directory, requests, done, -, hroot, hkeys, hcomes, happlied, hended, -⟩
  · rw [hsame] at hchanged
    exact absurd rfl hchanged
  · obtain rfl := Option.some.inj hroot
    obtain rfl := Option.some.inj hkeys
    refine ⟨pattern, requests, done, hcomes, ?_, happlied,
      hended.imp_right fun ⟨next, hnext, _⟩ => ⟨next, hnext⟩⟩
    rintro rfl
    cases happlied with
    | nil hsame => exact hchanged (hsame "vbmeta.img")

end Outcome

end VerifiedBoot
