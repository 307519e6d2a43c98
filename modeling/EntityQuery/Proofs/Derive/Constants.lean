import EntityQuery.Proofs.Derive.Attributes

set_option autoImplicit false

namespace EntityQuery.Derive

open Text

-- The words of a name. They are set apart by underscores, and a capital that follows a small letter
-- or a digit begins a new one.
def words : List Char → List (List Char)
  | [] => [[]]
  | c :: cs =>
    if c = '_' then [] :: words cs
    else if !c.isUpper && cs.head?.any Char.isUpper then [c] :: words cs
    else (words cs).modifyHead (c :: ·)

theorem words_ne_nil (cs : List Char) : words cs ≠ [] := by
  induction cs with
  | nil => exact List.cons_ne_nil _ _
  | cons c cs ih =>
    rw [words]
    split
    next => exact List.cons_ne_nil _ _
    next =>
      split
      next => exact List.cons_ne_nil _ _
      next => simpa using ih

theorem not_mem_of_mem_words {cs word : List Char} (member : word ∈ words cs) : '_' ∉ word := by
  induction cs generalizing word with
  | nil => simp_all [words]
  | cons c cs ih =>
    rw [words] at member
    split at member
    next =>
      rcases List.mem_cons.1 member with rfl | later
      · exact List.not_mem_nil
      · exact ih later
    next other =>
      split at member
      next =>
        rcases List.mem_cons.1 member with rfl | later
        · simpa using Ne.symm other
        · exact ih later
      next =>
        cases rest : words cs with
        | nil => exact absurd rest (words_ne_nil cs)
        | cons first more =>
          rw [rest] at member ih
          rcases List.mem_cons.1 member with rfl | later
          · simpa [Ne.symm other] using ih (.head more)
          · exact ih (.tail first later)

theorem screaming_true (cs : List Char) : screaming true cs =
    (if cs.head?.any Char.isUpper then ['_'] else []) ++ screaming false cs := by
  cases cs with
  | nil => rfl
  | cons c cs => cases capital : c.isUpper <;> simp [screaming_cons, capital]

theorem intercalate_modifyHead (sep : List Char) (c : Char) {ws : List (List Char)} (some_word : ws ≠ []) :
    List.intercalate sep ((ws.modifyHead (c :: ·)).map (List.map Char.toUpper)) =
      c.toUpper :: List.intercalate sep (ws.map (List.map Char.toUpper)) := by
  cases ws with
  | nil => exact absurd rfl some_word
  | cons first rest =>
    rw [List.modifyHead_cons, List.map_cons, List.map_cons, List.map_cons, List.intercalate_cons_cons_left]

theorem screaming_eq_intercalate (cs : List Char) :
    screaming false cs = List.intercalate ['_'] ((words cs).map (List.map Char.toUpper)) := by
  induction cs with
  | nil => rfl
  | cons c cs ih =>
    have more : (words cs).map (List.map Char.toUpper) ≠ [] := by simpa using words_ne_nil cs
    rw [screaming_cons, words]
    by_cases underscore : c = '_'
    next =>
      rw [if_pos underscore, List.map_cons, List.intercalate_cons_of_ne_nil more, ← ih, underscore]
      rfl
    next =>
      have mark : (c != '_') = true := by simpa using underscore
      rw [if_neg underscore, Bool.and_false, mark, Bool.and_true]
      cases capital : c.isUpper with
      | true => simp [intercalate_modifyHead _ _ (words_ne_nil cs), ih]
      | false =>
        rw [Bool.not_false, screaming_true]
        cases starts : cs.head?.any Char.isUpper with
        | true => simp [List.intercalate_cons_of_ne_nil more, ih]
        | false => simp [intercalate_modifyHead _ _ (words_ne_nil cs), ih]

def SameWords (cs ds : List Char) : Prop :=
  (words cs).map lower = (words ds).map lower

instance (cs ds : List Char) : Decidable (SameWords cs ds) :=
  inferInstanceAs (Decidable (_ = _))

theorem map_eq_map_iff {α β γ : Type} {f : α → β} {g : α → γ} (same : ∀ a b, f a = f b ↔ g a = g b)
    {as bs : List α} : as.map f = bs.map f ↔ as.map g = bs.map g := by
  have each {δ : Type} (h : α → δ) : as.map h = bs.map h ↔ List.Forall₂ (fun a b => h a = h b) as bs := by
    rw [← List.forall₂_eq_eq_eq, List.forall₂_map_left_iff, List.forall₂_map_right_iff]
  rw [each, each]
  simp only [same]

theorem map_toUpper_eq_iff (cs ds : List Char) :
    cs.map Char.toUpper = ds.map Char.toUpper ↔ lower cs = lower ds :=
  map_eq_map_iff toUpper_eq_iff

theorem splitOn_screaming (cs : List Char) :
    List.splitOn '_' (screaming false cs) = (words cs).map (List.map Char.toUpper) := by
  rw [screaming_eq_intercalate]
  refine List.splitOn_intercalate '_' (fun word member underscore => ?_) (by simpa using words_ne_nil cs)
  obtain ⟨word, inside, rfl⟩ := List.mem_map.1 member
  obtain ⟨c, letter, same⟩ := List.mem_map.1 underscore
  rw [toUpper_eq_underscore_iff] at same
  rw [same] at letter
  exact not_mem_of_mem_words inside letter

theorem screaming_eq_iff (cs ds : List Char) :
    screaming false cs = screaming false ds ↔ SameWords cs ds := by
  rw [SameWords, ← map_eq_map_iff map_toUpper_eq_iff, ← splitOn_screaming, ← splitOn_screaming]
  constructor
  · exact congrArg _
  · intro same
    have joined := congrArg (List.intercalate ['_']) same
    rwa [List.intercalate_splitOn, List.intercalate_splitOn] at joined

theorem constant_eq_iff (m n : DerivedMember) :
    m.constant = n.constant ↔ SameWords m.name.toList n.name.toList := by
  rw [DerivedMember.constant, DerivedMember.constant, String.ofList_inj, screaming_eq_iff]

theorem screaming_of_small {afterSmall : Bool} {cs : List Char} (small : ∀ c ∈ cs, c.isUpper = false) :
    screaming afterSmall cs = cs.map Char.toUpper := by
  induction cs generalizing afterSmall with
  | nil => rfl
  | cons c cs ih =>
    rw [List.forall_mem_cons] at small
    rw [screaming_cons, small.1, ih small.2]
    rfl

-- Without capitals each underscore can still be seen in the constant.
theorem eq_of_sameWords {cs ds : List Char} (small : ∀ c ∈ cs, c.isUpper = false)
    (small' : ∀ d ∈ ds, d.isUpper = false) (same : SameWords cs ds) : cs = ds := by
  have kept {cs : List Char} (small : ∀ c ∈ cs, c.isUpper = false) : lower cs = cs :=
    (List.map_congr_left fun c member => Char.toLower_eq_of_not_isUpper (by simp [small c member])).trans
      (List.map_id cs)
  rw [← screaming_eq_iff, screaming_of_small small, screaming_of_small small', map_toUpper_eq_iff,
    kept small, kept small'] at same
  exact same

/-- Every constant of a derived type can have its name. Two members have one constant exactly if their names
have the same words, so that names without capitals have constants of their own. -/
theorem constants_distinct_iff {d : Declaration} {out : Derived} (derived : derive d = .ok out) :
    (∀ m ∈ out.members, isConstantName m.constant.toList = true ∧
      ∀ c ∈ m.constant.toList, c.isLower = false) ∧
    (∀ m ∈ out.members, ∀ n ∈ out.members,
      m.constant = n.constant ↔ SameWords m.name.toList n.name.toList) ∧
    ((out.members.map DerivedMember.constant).Nodup ↔
      out.members.Pairwise fun m n => ¬SameWords m.name.toList n.name.toList) ∧
    ((∀ m ∈ out.members, ∀ c ∈ m.name.toList, c.isUpper = false) →
      (out.members.map DerivedMember.constant).Nodup) := by
  obtain ⟨distinct, named⟩ := wellNamed_of_derive derived
  have nodup : (out.members.map DerivedMember.constant).Nodup ↔
      out.members.Pairwise fun m n => ¬SameWords m.name.toList n.name.toList := by
    rw [List.Nodup, List.pairwise_map]
    simp only [ne_eq, constant_eq_iff]
  refine ⟨fun m member => ?_, fun m _ n _ => constant_eq_iff m n, nodup, fun small => nodup.2 ?_⟩
  · have named := (isMemberName_iff _).2 (named m member)
    rw [isMemberName, Bool.and_eq_true] at named
    rw [DerivedMember.constant, String.toList_ofList]
    exact ⟨named.2, fun c inside => not_isLower_of_mem_screaming inside⟩
  · rw [List.Nodup, List.pairwise_map] at distinct
    refine distinct.imp_of_mem fun {m n} first second other same => other ?_
    exact String.toList_inj.1 (eq_of_sameWords (small m first) (small n second) same)

def point (casing : Casing) (names : List String) : Declaration :=
  ⟨"Point", false, [⟨"sift", [.assign "rename_all" (.string casing.ruleName)]⟩],
    .named (names.map fun name => ⟨name, .number .int32, []⟩)⟩

theorem constants_distinct_iff_point : ∃ out, derive (point .camel ["x_1", "y2_z", "a_bC"]) = .ok out ∧
    out.members.map DerivedMember.constant = ["X1", "Y2_Z", "A_BC"] ∧
    (∀ m ∈ out.members, isConstantName m.constant.toList = true) ∧
    out.members.Pairwise (fun m n => ¬SameWords m.name.toList n.name.toList) ∧
    (out.members.map DerivedMember.constant).Nodup := by
  let members : List DerivedMember := [⟨"x1", "x_1", .number .int32, []⟩,
    ⟨"y2Z", "y2_z", .number .int32, []⟩, ⟨"aBC", "a_bC", .number .int32, []⟩]
  have derived : derive (point .camel ["x_1", "y2_z", "a_bC"]) = .ok ⟨"Point", "Point", members⟩ := rfl
  obtain ⟨spelled, -, nodup, -⟩ := constants_distinct_iff derived
  have apart : members.Pairwise fun m n => ¬SameWords m.name.toList n.name.toList := by decide
  exact ⟨_, derived, rfl, fun m member => (spelled m member).1, apart, nodup.2 apart⟩

-- Names that differ by where their words begin, or by nothing but case and underscores, are
-- accepted, though they have one constant.
theorem constants_collide :
    (∃ out, derive (point .camel ["a_bc", "a_b_c"]) = .ok out ∧
      out.members.map DerivedMember.name = ["aBc", "aBC"] ∧
      out.members.map DerivedMember.constant = ["A_BC", "A_BC"]) ∧
    ∃ out, derive (point .snake ["fooBar", "foo_bar"]) = .ok out ∧
      out.members.map DerivedMember.constant = ["FOO_BAR", "FOO_BAR"] :=
  ⟨⟨_, rfl, rfl, rfl⟩, _, rfl, rfl⟩

end EntityQuery.Derive
