import VerifiedBoot.Partition.Pattern
import VerifiedBoot.Proofs.Command.FileTree

/-!
# The last component of a partition's path

The path of a partition is the text of its pattern with the name in place of each placeholder. Names
and placeholders hold no slash, so the name is put into each component of the pattern by itself. The
last component of the path, in particular, is that of the pattern with the name in it. If it has a
placeholder, then it tells the name.
-/

namespace VerifiedBoot

namespace Path

end Path

namespace Pattern

theorem pieces_ne_nil (text : List Char) : pieces text ≠ [] := by
  fun_induction pieces text with
  | case1 | case2 | case3 | case4 => exact List.cons_ne_nil _ _

/-- A text is empty, or it begins with a placeholder, or with a character that begins none. -/
@[elab_as_elim] theorem placeholder_induction {motive : List Char → Prop} (nil : motive [])
    (hole : ∀ rest, motive rest → motive (placeholder.toList ++ rest))
    (char : ∀ c rest, ¬placeholder.toList <+: c :: rest → motive rest → motive (c :: rest))
    (text : List Char) : motive text := by
  have hbegins {c : Char} {rest : List Char}
      (h : ∀ behind, c = '{' → rest = 'n' :: 'a' :: 'm' :: 'e' :: '}' :: behind → False) :
      ¬placeholder.toList <+: c :: rest := by
    rintro ⟨behind, hbehind⟩
    obtain ⟨hc, hrest⟩ := List.cons.inj hbehind
    exact h behind hc.symm hrest.symm
  fun_induction pieces text with
  | case1 rest ih => exact hole rest ih
  | case2 c rest h _ ih => exact char c rest (hbegins h) ih
  | case3 c rest h _ _ _ ih => exact char c rest (hbegins h) ih
  | case4 => exact nil

/-- A placeholder ends an empty piece. -/
theorem pieces_hole (rest : List Char) : pieces (placeholder.toList ++ rest) = [] :: pieces rest :=
  rfl

/-- Any other character goes to the first piece. -/
theorem pieces_char {c : Char} {rest piece : List Char} {others : List (List Char)}
    (h : ¬placeholder.toList <+: c :: rest) (hrest : pieces rest = piece :: others) :
    pieces (c :: rest) = (c :: piece) :: others := by
  rw [pieces]
  · rw [hrest]
  · rintro behind rfl rfl
    exact h ⟨behind, rfl⟩

/-- A text with a name in place of each placeholder. -/
def substitute (text name : List Char) : List Char :=
  List.intercalate name (pieces text)

variable {text name : List Char}

/-- A placeholder gives way to the name. -/
theorem substitute_hole (rest name : List Char) :
    substitute (placeholder.toList ++ rest) name = name ++ substitute rest name := by
  unfold substitute
  rw [pieces_hole]
  cases hrest : pieces rest with
  | nil => exact absurd hrest (pieces_ne_nil rest)
  | cons piece others => rw [List.intercalate_cons_cons, List.nil_append]

/-- Any other character stays. -/
theorem substitute_char {c : Char} {rest : List Char} (h : ¬placeholder.toList <+: c :: rest)
    (name : List Char) : substitute (c :: rest) name = c :: substitute rest name := by
  unfold substitute
  cases hrest : pieces rest with
  | nil => exact absurd hrest (pieces_ne_nil rest)
  | cons piece others =>
    rw [pieces_char h hrest]
    cases others with
    | nil => rw [List.intercalate_singleton, List.intercalate_singleton]
    | cons =>
      rw [List.intercalate_cons_cons, List.intercalate_cons_cons]
      rfl

/-- A slash is kept, and what is before it is filled apart from what is behind it. -/
theorem substitute_append_slash (front back name : List Char) :
    substitute (front ++ '/' :: back) name =
      substitute front name ++ '/' :: substitute back name := by
  induction front using placeholder_induction with
  | nil =>
    refine substitute_char ?_ name
    rintro ⟨behind, hbehind⟩
    exact absurd (List.cons.inj hbehind).1 (by decide)
  | hole rest ih =>
    rw [List.append_assoc, substitute_hole, substitute_hole, ih, List.append_assoc]
  | char c rest h ih =>
    rw [List.cons_append, substitute_char h, substitute_char, ih, List.cons_append]
    -- A placeholder that is longer than the text before the slash would hold the slash.
    intro hprefix
    rcases List.prefix_or_prefix_of_prefix hprefix (List.prefix_append (c :: rest) ('/' :: back))
      with hshort | ⟨behind, hbehind⟩
    · exact h hshort
    · rw [← hbehind, ← List.cons_append, List.prefix_append_right_inj] at hprefix
      cases behind with
      | nil =>
        rw [List.append_nil] at hbehind
        exact h ⟨[], by rw [List.append_nil, hbehind]⟩
      | cons c' behind =>
        obtain rfl : c' = '/' := (List.cons_prefix_cons.1 hprefix).1
        have hslash : '/' ∈ placeholder.toList := by
          rw [← hbehind]
          exact List.mem_append_right _ List.mem_cons_self
        exact absurd hslash (by decide)

/-- What stands in a filled text stood in the text or in the name. -/
theorem mem_substitute {c : Char} (h : c ∈ substitute text name) : c ∈ text ∨ c ∈ name := by
  induction text using placeholder_induction with
  | nil => cases h
  | hole rest ih =>
    rw [substitute_hole, List.mem_append] at h
    rcases h with h | h
    · exact .inr h
    · exact (ih h).imp_left (List.mem_append_right _)
  | char first rest hfirst ih =>
    rw [substitute_char hfirst, List.mem_cons] at h
    rcases h with rfl | h
    · exact .inl List.mem_cons_self
    · exact (ih h).imp_left (List.mem_cons_of_mem _)

/-- The length of pieces with a name between each two of them. -/
theorem length_intercalate (name first : List Char) (others : List (List Char)) :
    (List.intercalate name (first :: others)).length =
      first.length + others.flatten.length + others.length * name.length := by
  induction others generalizing first with
  | nil => simp [List.intercalate_singleton]
  | cons second others ih =>
    rw [List.intercalate_cons_cons, List.length_append, List.length_append, ih, List.flatten_cons,
      List.length_append, List.length_cons, Nat.succ_mul]
    omega

/-- A text with a placeholder has a piece before and one behind it. -/
theorem exists_pieces (hopen : 1 < (pieces text).length) :
    ∃ first second others, pieces text = first :: second :: others := by
  match hpieces : pieces text with
  | [] => exact absurd hpieces (pieces_ne_nil text)
  | [piece] =>
    rw [hpieces] at hopen
    exact absurd hopen (Nat.lt_irrefl 1)
  | first :: second :: others => exact ⟨first, second, others, rfl⟩

/-- A text with a placeholder tells the name that was put into it. -/
theorem substitute_inj {other : List Char} (hopen : 1 < (pieces text).length)
    (h : substitute text name = substitute text other) : name = other := by
  obtain ⟨first, second, others, hpieces⟩ := exists_pieces hopen
  unfold substitute at h
  rw [hpieces] at h
  have hsize : (others.length + 1) * name.length = (others.length + 1) * other.length := by
    have hlength := congrArg List.length h
    rw [length_intercalate, length_intercalate] at hlength
    exact Nat.add_left_cancel hlength
  have hlength : name.length = other.length :=
    Nat.eq_of_mul_eq_mul_left (Nat.succ_pos _) hsize
  rw [List.intercalate_cons_cons, List.intercalate_cons_cons, List.append_assoc,
    List.append_assoc, List.append_cancel_left_eq] at h
  exact (List.append_inj h hlength).1

/-- The path of a partition is the text of the pattern with the name in it, which has no slash. -/
theorem pathFor_eq_ok {text name path : String} {pattern : Pattern}
    (hpattern : ofString text = .ok pattern) (h : pattern.pathFor name = .ok path) :
    path.toList = substitute text.toList name.toList ∧ '/' ∉ name.toList := by
  unfold ofString at hpattern
  split at hpattern
  · next first second others hpieces =>
    obtain rfl := Except.ok.inj hpattern
    unfold pathFor at h
    split at h
    · next hname =>
      rw [← Except.ok.inj h, String.toList_ofList]
      refine ⟨by rw [substitute, hpieces, fill], fun hslash => ?_⟩
      simp [isName, hslash] at hname
    · cases h
  · cases hpattern

end Pattern

end VerifiedBoot
