import VerifiedBoot.Proofs.Command.Pattern

/-!
# Where the paths of partitions lead

Names of partitions come from untrusted data, and are put in place of every placeholder of a
pattern. A name holds no slash, so a path has the components of its pattern, each with the name in
it. It leads out of the directory of the pattern only if a component becomes two dots.

No name holds two dots in a row. They can still be formed by a name that is a single dot, together
with a dot of the pattern or with another copy of the name. The components where that happens are
listed in `climbing`; in all others two dots are those of the pattern.

* `components_substitute`: a path component by component.
* `substitute_eq_dots`: the components that become two dots.
* `pathFor_contained`, `pathFor_inj`: a path leads where its pattern does, and tells the name.
-/

namespace VerifiedBoot

namespace Pattern

variable {text name : List Char}

/-! ### Patterns and names -/

/-- A text has more than one piece exactly if it holds a placeholder. -/
theorem one_lt_length_pieces_iff : 1 < (pieces text).length ↔ placeholder.toList <:+: text := by
  induction text using placeholder_induction with
  | nil => exact iff_of_false (by decide) (by decide)
  | hole rest ih =>
    have hpieces : 0 < (pieces rest).length := List.length_pos_iff.2 (pieces_ne_nil rest)
    rw [pieces_hole, List.length_cons]
    exact iff_of_true (by omega) (List.prefix_append _ _).isInfix
  | char c rest h ih =>
    rw [List.infix_cons_iff, or_iff_right h, ← ih]
    cases hrest : pieces rest with
    | nil => exact absurd hrest (pieces_ne_nil rest)
    | cons piece others => rw [pieces_char h hrest, List.length_cons, List.length_cons]

/-- The texts that are patterns are those that hold a placeholder. -/
theorem exists_ofString_iff {text : String} :
    (∃ pattern, ofString text = .ok pattern) ↔ placeholder.toList <:+: text.toList := by
  rw [← one_lt_length_pieces_iff]
  unfold ofString
  split
  · next first second others hpieces =>
    rw [hpieces]
    exact iff_of_true ⟨_, rfl⟩ (by simp)
  · next hfew =>
    refine iff_of_false (fun ⟨pattern, h⟩ => nomatch h) fun hopen => ?_
    obtain ⟨first, second, others, hpieces⟩ := exists_pieces hopen
    exact hfew first second others hpieces

/-- Two dots in a row are found wherever they are. -/
theorem hasDots_iff : hasDots name = true ↔ ['.', '.'] <:+: name := by
  fun_induction hasDots name with
  | case1 rest => exact iff_of_true rfl (List.prefix_append ['.', '.'] rest).isInfix
  | case2 c rest h ih =>
    rw [ih, List.infix_cons_iff, or_iff_right]
    rintro ⟨behind, hbehind⟩
    obtain ⟨rfl, rfl⟩ := List.cons.inj hbehind
    exact h behind rfl rfl
  | case3 => exact iff_of_false Bool.false_ne_true (by decide)

/-- What a name may be. -/
theorem isName_iff : isName name = true ↔ name ≠ [] ∧ '/' ∉ name ∧ '\\' ∉ name ∧ '\x00' ∉ name ∧
    ¬['.', '.'] <:+: name := by
  rw [← hasDots_iff]
  simp [isName, and_assoc]

/-- A partition has a path exactly if its name may be put into one. -/
theorem exists_pathFor_iff {pattern : Pattern} {name : String} :
    (∃ path, pattern.pathFor name = .ok path) ↔ isName name.toList = true := by
  unfold pathFor
  split
  · next hname => exact iff_of_true ⟨_, rfl⟩ hname
  · next hname => exact iff_of_false (fun ⟨path, h⟩ => nomatch h) hname

/-! ### Component by component -/

/-- A name without a slash is put into each component by itself. -/
theorem components_substitute (hname : '/' ∉ name) (text : List Char) :
    Path.components (substitute text name) =
      (Path.components text).map fun component => substitute component name := by
  by_cases hslash : '/' ∈ text
  · obtain ⟨front, back, rfl, hfront⟩ := List.eq_append_cons_of_mem hslash
    have hfilled : '/' ∉ substitute front name := fun h => (mem_substitute h).elim hfront hname
    rw [substitute_append_slash, Path.components_append hfilled, Path.components_append hfront,
      List.map_cons, components_substitute hname back]
  · have hfilled : '/' ∉ substitute text name := fun h => (mem_substitute h).elim hslash hname
    rw [Path.components_of_not_mem hfilled, Path.components_of_not_mem hslash]
    rfl
termination_by text.length

/-! ### Components that become two dots -/

/-- The components that a name of a single dot turns into two dots. -/
def climbing : List (List Char) :=
  ['.' :: placeholder.toList, placeholder.toList ++ ['.'],
    placeholder.toList ++ placeholder.toList]

/-- What begins with a placeholder does not begin with a dot. -/
theorem hole_ne_dot (rest behind : List Char) : placeholder.toList ++ rest ≠ '.' :: behind :=
  fun h => absurd (List.cons.inj h).1 (by decide)

/-- With a name only the empty text becomes empty. -/
theorem substitute_eq_nil (hname : name ≠ []) : substitute text name = [] ↔ text = [] := by
  induction text using placeholder_induction with
  | nil => exact iff_of_true rfl rfl
  | hole rest _ =>
    rw [substitute_hole]
    exact iff_of_false (fun h => hname (List.append_eq_nil_iff.1 h).1) (List.cons_ne_nil _ _)
  | char c rest h _ =>
    rw [substitute_char h]
    exact iff_of_false (List.cons_ne_nil _ _) (List.cons_ne_nil _ _)

/-- The texts that become a single dot. -/
theorem substitute_eq_dot (hname : name ≠ []) : substitute text name = ['.'] ↔
    text = ['.'] ∨ name = ['.'] ∧ text = placeholder.toList := by
  induction text using placeholder_induction with
  | nil => exact iff_of_false nofun (by rintro (⟨⟨⟩⟩ | ⟨-, ⟨⟩⟩))
  | hole rest _ =>
    rw [substitute_hole, List.append_eq_singleton_iff, substitute_eq_nil hname,
      or_iff_right fun h => hname h.1, or_iff_right (hole_ne_dot rest []),
      List.append_right_eq_self]
  | char c rest h _ =>
    rw [substitute_char h, List.cons_eq_cons, List.cons_eq_cons, substitute_eq_nil hname]
    refine (or_iff_left ?_).symm
    rintro ⟨-, htext⟩
    exact h (htext ▸ List.prefix_rfl)

/-- The texts that become two dots under a name that is not two dots itself. -/
theorem substitute_eq_dots (hname : name ≠ []) (hdots : name ≠ ['.', '.']) :
    substitute text name = ['.', '.'] ↔
      text = ['.', '.'] ∨ name = ['.'] ∧ text ∈ climbing := by
  constructor
  · intro h
    induction text using placeholder_induction with
    | nil => cases h
    | hole rest _ =>
      rw [substitute_hole] at h
      rcases List.append_eq_cons_iff.1 h with ⟨hnil, -⟩ | ⟨more, hfirst, hsecond⟩
      · exact absurd hnil hname
      · -- The second dot is that of the rest, as the name does not have both.
        rcases List.append_eq_singleton_iff.1 hsecond.symm with ⟨rfl, hrest⟩ | ⟨rfl, -⟩
        · refine .inr ⟨hfirst, ?_⟩
          rcases (substitute_eq_dot hname).1 hrest with rfl | ⟨-, rfl⟩
          · exact List.mem_cons_of_mem _ List.mem_cons_self
          · exact List.mem_cons_of_mem _ (List.mem_cons_of_mem _ List.mem_cons_self)
        · exact absurd hfirst hdots
    | char c rest hc _ =>
      rw [substitute_char hc] at h
      obtain ⟨rfl, hrest⟩ := List.cons.inj h
      rcases (substitute_eq_dot hname).1 hrest with rfl | ⟨hdot, rfl⟩
      · exact .inl rfl
      · exact .inr ⟨hdot, List.mem_cons_self⟩
  · rintro (rfl | ⟨rfl, h⟩)
    · rfl
    · simp only [climbing, List.mem_cons, List.not_mem_nil, or_false] at h
      rcases h with rfl | rfl | rfl <;> rfl

/-! ### Paths -/

/-- **A path leads where its pattern does, but for two dots that a single dot makes.** Every text
with a placeholder is a pattern. The names with a path are those that are not empty and hold no
slash, no backslash, no NUL and no two dots in a row. A path has as many components as its pattern,
and a component is two dots exactly if that of the pattern is, or if the name is a single dot and
the component of the pattern is a dot beside a placeholder or two placeholders. -/
theorem pathFor_contained {text : String} (hopen : placeholder.toList <:+: text.toList) :
    ∃ pattern, ofString text = .ok pattern ∧
      (∀ name : String, (∃ path, pattern.pathFor name = .ok path) ↔ name.toList ≠ [] ∧
        '/' ∉ name.toList ∧ '\\' ∉ name.toList ∧ '\x00' ∉ name.toList ∧
        ¬['.', '.'] <:+: name.toList) ∧
      ∀ name path, pattern.pathFor name = .ok path →
        (Path.components path.toList).length = (Path.components text.toList).length ∧
        ∀ i : Nat, (Path.components path.toList)[i]? = some ['.', '.'] ↔
          (Path.components text.toList)[i]? = some ['.', '.'] ∨ name = "." ∧
            ∃ component ∈ climbing, (Path.components text.toList)[i]? = some component := by
  obtain ⟨pattern, hpattern⟩ := exists_ofString_iff.2 hopen
  refine ⟨pattern, hpattern, fun name => exists_pathFor_iff.trans isName_iff, ?_⟩
  intro name path hpath
  obtain ⟨hname, -, -, -, hdots⟩ := isName_iff.1 (exists_pathFor_iff.1 ⟨path, hpath⟩)
  obtain ⟨hfilled, hslash⟩ := pathFor_eq_ok hpattern hpath
  rw [hfilled, components_substitute hslash]
  refine ⟨List.length_map .., fun i => ?_⟩
  rw [List.getElem?_map, Option.map_eq_some_iff]
  have htwo : name.toList ≠ ['.', '.'] := fun h => hdots (h ▸ List.infix_rfl)
  have hone : name.toList = ['.'] ↔ name = "." := by
    rw [← String.toList_inj]
    rfl
  simp only [substitute_eq_dots hname htwo, hone]
  constructor
  · rintro ⟨component, hcomponent, rfl | ⟨hdot, hclimbing⟩⟩
    · exact .inl hcomponent
    · exact .inr ⟨hdot, component, hclimbing, hcomponent⟩
  · rintro (hcomponent | ⟨hdot, component, hclimbing, hcomponent⟩)
    · exact ⟨_, hcomponent, .inl rfl⟩
    · exact ⟨component, hcomponent, .inr ⟨hdot, hclimbing⟩⟩

/-- A pattern whose placeholder has a dot in front of it, in a directory of its own. -/
def hiddenPattern : String :=
  "images/.\x7bname\x7d/vbmeta.img"

/-- The name that is a single dot has a path, which leads out of the directory of the pattern. An
ordinary name does not. -/
theorem pathFor_contained_hiddenPattern :
    placeholder.toList <:+: hiddenPattern.toList ∧
    (Path.components hiddenPattern.toList)[1]? ≠ some ['.', '.'] ∧
    ∃ pattern, ofString hiddenPattern = .ok pattern ∧
      (∃ path, pattern.pathFor "." = .ok path ∧
        (Path.components path.toList)[1]? = some ['.', '.']) ∧
      ∃ path, pattern.pathFor "boot" = .ok path ∧
        (Path.components path.toList)[1]? ≠ some ['.', '.'] := by
  have hopen : placeholder.toList <:+: hiddenPattern.toList :=
    ⟨"images/.".toList, "/vbmeta.img".toList, rfl⟩
  have hordinary : (Path.components hiddenPattern.toList)[1]? ≠ some ['.', '.'] := by decide
  obtain ⟨pattern, hpattern, haccepted, hcomponents⟩ := pathFor_contained hopen
  obtain ⟨path, hpath⟩ := (haccepted ".").2 (by decide)
  obtain ⟨path', hpath'⟩ := (haccepted "boot").2 (by decide)
  refine ⟨hopen, hordinary, pattern, hpattern, ⟨path, hpath, ?_⟩, path', hpath', ?_⟩
  · refine ((hcomponents _ _ hpath).2 1).2 (.inr ⟨rfl, '.' :: placeholder.toList, ?_, rfl⟩)
    exact List.mem_cons_self
  · rw [Ne, (hcomponents _ _ hpath').2 1, not_or]
    exact ⟨hordinary, fun h => absurd h.1 (by decide)⟩

/-- **Two partitions have two paths.** The path of a partition tells its name, however often and
wherever the name stands in it. -/
theorem pathFor_inj {text a b p q : String} {pattern : Pattern}
    (hpattern : ofString text = .ok pattern) (ha : pattern.pathFor a = .ok p)
    (hb : pattern.pathFor b = .ok q) : p = q ↔ a = b := by
  have hopen := one_lt_length_pieces_iff.2 (exists_ofString_iff.1 ⟨pattern, hpattern⟩)
  have hfirst := (pathFor_eq_ok hpattern ha).1
  have hsecond := (pathFor_eq_ok hpattern hb).1
  rw [← String.toList_inj, hfirst, hsecond, ← String.toList_inj]
  exact ⟨substitute_inj hopen, fun h => by rw [h]⟩

/-- A name that is the placeholder itself has another path than an ordinary name. -/
theorem pathFor_inj_placeholder : ∃ pattern p q,
    ofString "\x7bname\x7d.\x7bname\x7d" = .ok pattern ∧
    pattern.pathFor "\x7bname\x7d" = .ok p ∧ pattern.pathFor "boot" = .ok q ∧ p ≠ q := by
  have hpattern : ofString "\x7bname\x7d.\x7bname\x7d" = .ok ⟨[], ['.'], [[]]⟩ := rfl
  have hnested : Pattern.pathFor ⟨[], ['.'], [[]]⟩ "\x7bname\x7d" =
      .ok "\x7bname\x7d.\x7bname\x7d" := rfl
  have hplain : Pattern.pathFor ⟨[], ['.'], [[]]⟩ "boot" = .ok "boot.boot" := rfl
  refine ⟨_, _, _, hpattern, hnested, hplain, fun h => ?_⟩
  exact absurd ((pathFor_inj hpattern hnested hplain).1 h) (by decide)

end Pattern

end VerifiedBoot
