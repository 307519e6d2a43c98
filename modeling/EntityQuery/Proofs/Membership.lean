import EntityQuery.Proofs.Comparison

set_option autoImplicit false

namespace EntityQuery

open Resolving (exists_map_ok_iff ok_of_map)

namespace Clause

variable {p : Path} {op : Operator} {c : Catalog} {v : Operand} {vs : List Operand} {x : Value}

theorem compile_membership (asked : op.isMembership = true) (scalar : p.kind.isScalar = true)
    (vs : List Operand) : compile p op (.list vs) =
      (fun ws => ⟨p, op, .list ws, .member ws op.isNegated⟩) <$>
        vs.mapM fun v => v.coerce p.kind true := by
  rw [compile_eq, prepare_of_isMembership asked, if_pos scalar, ← Operand.coerceAll_eq_mapM]
  cases items : Operand.coerceAll vs p.kind with
  | error e => simp [Operand.coerceMembers?, items]
  | ok ws => simp [Operand.coerceMembers?, items]

def Equals (p : Path) (v : Operand) (x : Value) : Prop :=
  ∃ d, compile p .equal v = .ok d ∧ d.accepts x = true

theorem equals_iff (scalar : p.kind.isScalar = true) (present : x ≠ .null) :
    Equals p v x ↔ ∃ w, v.coerce p.kind p.nullable = .ok w ∧ w.agrees x = true := by
  rw [Equals, compile_equality (.inl rfl) scalar]
  cases v.coerce p.kind p.nullable with
  | error e => simp
  | ok w => simp [accepts_equality present, Operator.isNegated]

-- Nothing is refused for being null, so that an item is refused just where equality with it is.
theorem compiles_iff (asked : op.isMembership = true) (scalar : p.kind.isScalar = true) :
    (∃ d, compile p op (.list vs) = .ok d) ↔ ∀ v ∈ vs, ∃ d, compile p .equal v = .ok d := by
  rw [compile_membership asked scalar, exists_map_ok_iff, exists_mapM_ok_iff]
  refine forall₂_congr fun v _ => ?_
  rw [compile_equality (.inl rfl) scalar, exists_map_ok_iff]
  by_cases kind : p.kind = .bool
  next =>
    have total (nullable : Bool) := Operand.exists_coerce (.inr kind) v nullable
    exact iff_of_true (total true) (total p.nullable)
  next => rw [Operand.coerce_nullable (.inl kind) true p.nullable]

theorem agrees_item_iff (scalar : p.kind.isScalar = true) (given : v.isNull = false)
    (present : x ≠ .null) : (∃ w, v.coerce p.kind true = .ok w ∧ w.agrees x = true) ↔
      (p.kind = .bool → v.isBlank = false) ∧ Equals p v x := by
  rw [equals_iff scalar present]
  by_cases blank : p.kind = .bool ∧ v.isBlank = true
  -- As an item such text is null, which equals no value that is given.
  next =>
    obtain ⟨kind, blank⟩ := blank
    have null : Operand.null.agrees x = false := by cases x <;> first | rfl | contradiction
    simp [kind, Operand.coerce_blank given blank, null, blank]
  next =>
    have solid : p.kind = .bool → v.isBlank = false := by simpa using blank
    rw [Operand.coerce_nullable (by tauto) true p.nullable]
    exact (and_iff_right solid).symm

theorem accepts_items_iff (asked : op.isMembership = true) (scalar : p.kind.isScalar = true)
    (given : ∀ v ∈ vs, v.isNull = false) {d : Clause} (compiled : compile p op (.list vs) = .ok d)
    (present : x ≠ .null) : d.accepts x = true ↔
      ((∃ v ∈ vs, (p.kind = .bool → v.isBlank = false) ∧ Equals p v x) ↔ op.isNegated = false) := by
  rw [compile_membership asked scalar] at compiled
  obtain ⟨ws, items, rfl⟩ := ok_of_map compiled
  have found : ws.any (·.agrees x) = true ↔
      ∃ v ∈ vs, (p.kind = .bool → v.isBlank = false) ∧ Equals p v x := by
    simp only [List.any_eq_true, mem_iff_of_mapM items]
    constructor
    · rintro ⟨w, ⟨v, member, coerced⟩, same⟩
      exact ⟨v, member, (agrees_item_iff scalar (given v member) present).1 ⟨w, coerced, same⟩⟩
    · rintro ⟨v, member, equals⟩
      obtain ⟨w, coerced, same⟩ := (agrees_item_iff scalar (given v member) present).2 equals
      exact ⟨w, ⟨v, member, coerced⟩, same⟩
  rw [← found]
  simp only [accepts, Value.isNull_eq_false_iff.2 present]
  cases op.isNegated <;> simp

structure Disjoins (c : Catalog) (p : Path) (vs : List Operand) : Prop where
  compiles : (∃ d, compile p .contains (.list vs) = .ok d) ↔ ∀ v ∈ vs, ∃ d, compile p .equal v = .ok d
  contains {d : Clause} {x : Value} (compiled : compile p .contains (.list vs) = .ok d)
    (conforms : x.Conforms c p.kind p.nullable) (present : x ≠ .null) :
    d.accepts x = true ↔ ∃ v ∈ vs, Equals p v x
  excludes {d : Clause} {x : Value} (compiled : compile p .notContains (.list vs) = .ok d)
    (conforms : x.Conforms c p.kind p.nullable) (present : x ≠ .null) :
    d.accepts x = true ↔ ¬∃ v ∈ vs, Equals p v x

theorem isBlank_of_equals (scalar : p.kind.isScalar = true) (given : v.isNull = false)
    (present : x ≠ .null) (equals : Equals p v x) (may : ¬(p.kind = .bool ∧ p.nullable = false)) :
    p.kind = .bool → v.isBlank = false := by
  intro kind
  have nullable : p.nullable = true := by simpa [kind] using may
  by_contra blank
  obtain ⟨w, coerced, same⟩ := (equals_iff scalar present).1 equals
  rw [kind, nullable, Operand.coerce_blank given (by simpa using blank)] at coerced
  cases coerced
  cases x with
  | null => contradiction
  | _ => cases same

theorem not_disjoins_of_never (kind : p.kind = .bool) (never : p.nullable = false) :
    ¬Disjoins c p [.string ""] := by
  intro disjoins
  have scalar : p.kind.isScalar = true := by rw [kind]; rfl
  have present : Value.bool false ≠ .null := nofun
  have equals : Equals p (.string "") (.bool false) := by
    rw [equals_iff scalar present, kind, never]
    exact ⟨.bool false, rfl, rfl⟩
  obtain ⟨d, compiled⟩ : ∃ d, compile p .contains (.list [.string ""]) = .ok d := by
    obtain ⟨d, equal, -⟩ := equals
    exact disjoins.compiles.2 (List.forall_mem_singleton.2 ⟨d, equal⟩)
  have accepted : d.accepts (.bool false) = true :=
    (disjoins.contains compiled (kind ▸ .bool) present).2 ⟨_, .head _, equals⟩
  have given : ∀ v ∈ [Operand.string ""], v.isNull = false := List.forall_mem_singleton.2 rfl
  have found := (accepts_items_iff rfl scalar given compiled present).1 accepted
  obtain ⟨v, member, shown, -⟩ := found.2 rfl
  cases List.mem_singleton.1 member
  cases shown kind

/-- Membership compiles where equality with each of the items does, and decides like a disjunction of
those equalities, were it not for blank text on booleans, which it never finds. So it is that
disjunction for all lists of operands unless the field is a boolean that may not be null. -/
theorem accepts_member (scalar : p.kind.isScalar = true) (c : Catalog) :
    (∀ vs : List Operand, (∀ v ∈ vs, v ≠ .null) → ∀ op : Operator, op.isMembership = true →
      ((∃ d, compile p op (.list vs) = .ok d) ↔ ∀ v ∈ vs, ∃ d, compile p .equal v = .ok d) ∧
      ∀ d, compile p op (.list vs) = .ok d → ∀ x : Value, x ≠ .null → (d.accepts x = true ↔
        ((∃ v ∈ vs, (p.kind = .bool → v.isBlank = false) ∧ Equals p v x) ↔ op.isNegated = false))) ∧
    ((∀ vs : List Operand, (∀ v ∈ vs, v ≠ .null) → Disjoins c p vs) ↔
      ¬(p.kind = .bool ∧ p.nullable = false)) := by
  have solid {vs : List Operand} (given : ∀ v ∈ vs, v ≠ .null) : ∀ v ∈ vs, v.isNull = false :=
    fun v member => Operand.isNull_eq_false_iff.2 (given v member)
  refine ⟨fun vs given op asked => ⟨compiles_iff asked scalar, fun d compiled x present => ?_⟩, ?_⟩
  · exact accepts_items_iff asked scalar (solid given) compiled present
  · constructor
    · rintro disjoins ⟨kind, never⟩
      exact not_disjoins_of_never kind never (disjoins _ (by simp))
    · intro may vs given
      have found {x : Value} (present : x ≠ .null) :
          (∃ v ∈ vs, (p.kind = .bool → v.isBlank = false) ∧ Equals p v x) ↔
            ∃ v ∈ vs, Equals p v x := by
        refine exists_congr fun v => and_congr_right fun member => ?_
        refine and_iff_right_of_imp fun equals => ?_
        exact isBlank_of_equals scalar (solid given v member) present equals may
      refine ⟨compiles_iff rfl scalar, fun compiled _ present => ?_, fun compiled _ present => ?_⟩
      · rw [accepts_items_iff rfl scalar (solid given) compiled present, found present]
        simp [Operator.isNegated]
      · rw [accepts_items_iff rfl scalar (solid given) compiled present, found present]
        simp [Operator.isNegated]

theorem accepts_member_ages :
    let age : Path := ⟨"age", [.member "age"], .number .uint32, false⟩
    let ages : List Operand := [.string "36", .number (.int 7), .string ""]
    (∃ d, compile age .notContains (.list ages) = .ok d ∧
      (d.accepts (.number (.uint 36)) = true ↔
        ¬∃ v ∈ ages, (age.kind = .bool → v.isBlank = false) ∧ Equals age v (.number (.uint 36)))) ∧
      Disjoins .people age ages := by
  intro age ages
  have given : ∀ v ∈ ages, v ≠ .null := by simp [ages]
  obtain ⟨d, compiled⟩ : ∃ d, compile age .notContains (.list ages) = .ok d := ⟨_, rfl⟩
  obtain ⟨exactly, law⟩ := @accepts_member age rfl .people
  have decides := (exactly ages given .notContains rfl).2 d compiled (.number (.uint 36)) nofun
  refine ⟨⟨d, compiled, ?_⟩, law.2 (by simp [age]) ages given⟩
  simpa [Operator.isNegated] using decides

-- A boolean that is never null is compared with null, though equality reads the same text as false.
theorem accepts_member_blank :
    let active : Path := ⟨"active", [.member "active"], .bool, false⟩
    ∃ c d, compile active .contains (.list [.string ""]) = .ok c ∧
      compile active .equal (.string "") = .ok d ∧
      (Value.bool false).Conforms .people active.kind active.nullable ∧
      c.render = "active IN (NULL)".toList ∧ d.render = "active = false".toList ∧
      c.accepts (.bool false) = false ∧ d.accepts (.bool false) = true :=
  ⟨_, _, rfl, rfl, .bool, by decide, by decide, rfl, rfl⟩

end Clause

end EntityQuery
