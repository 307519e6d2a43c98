import EntityQuery.Proofs.Coercion
import EntityQuery.Proofs.Compile
import EntityQuery.Proofs.Selector.Conformance

set_option autoImplicit false

namespace EntityQuery

def Kind.isOrdered : Kind → Bool
  | string | number _ | date => true
  | _ => false

theorem Kind.isScalar_of_isOrdered {k : Kind} (ordered : k.isOrdered = true) : k.isScalar = true := by
  cases k <;> first | rfl | cases ordered

theorem Kind.ne_bool_of_isOrdered {k : Kind} (ordered : k.isOrdered = true) : k ≠ .bool := by
  rintro rfl
  cases ordered

def Operator.comparisons : List Operator :=
  [.lessThan, .equal, .greaterThan, .lessThanOrEqual, .greaterThanOrEqual]

def Operand.isNaN : Operand → Bool
  | number n => n.isNaN
  | _ => false

namespace Value

def isNaN : Value → Bool
  | number n => n.isNaN
  | _ => false

def operand? : Value → Option Operand
  | string s => some (.string s)
  | number n => some (.number n)
  | bool b => some (.bool b)
  | date d => some (.date d)
  | _ => none

end Value

theorem Number.compare_eq_none_iff (a b : Number) :
    a.compare b = none ↔ (a.isNaN || b.isNaN) = true := by
  have floating (x y : Binary64) : x.compare y = none ↔ (x.isNaN || y.isNaN) = true := by
    cases x <;> cases y <;> simp [Binary64.compare, Binary64.position, Binary64.isNaN]
  cases a <;> cases b <;> simp [compare, whole?, isNaN, floating, toBinary64] <;>
    simp [Binary64.ofInt, Binary64.isNaN]

namespace Clause

variable {p : Path} {op : Operator} {c : Catalog} {k : Kind} {nullable : Bool} {v : Value}
  {w : Operand}

theorem compile_equality (asked : op = .equal ∨ op = .notEqual) (scalar : p.kind.isScalar = true)
    (raw : Operand) : compile p op raw = (fun w => ⟨p, op, w,
      if w.isNull then .null op.isNegated else .equal op.isNegated⟩) <$>
        raw.coerce p.kind p.nullable := by
  rw [compile_eq, prepare_of_equality asked]
  cases raw.coerce p.kind p.nullable with
  | error e => rfl
  | ok w =>
    simp only [bind, Except.bind, Except.map_ok]
    by_cases null : w.isNull = true
    next => simp only [null, if_true]; rfl
    next =>
      cases kind : p.kind with
      | entity r => rw [kind] at scalar; cases scalar
      | _ => simp only [null, if_false, Bool.false_eq_true]; rfl

-- What equality with null decides on other values is what it decides where they differ.
theorem accepts_equality (present : v ≠ .null) (negate : Bool) :
    accepts ⟨p, op, w, if w.isNull then .null negate else .equal negate⟩ v =
      (w.agrees v != negate) := by
  have shown := Value.isNull_eq_false_iff.2 present
  by_cases null : w.isNull = true
  next =>
    have differs : w.agrees v = false := by
      rw [Operand.eq_null_of_isNull null]
      cases v <;> first | rfl | contradiction
    simp [accepts, null, shown, differs]
  next => simp [accepts, null, shown]

theorem compile_ordering (asked : op.isOrdering = true) (ordered : p.kind.isOrdered = true)
    {raw : Operand} (given : raw.isNull = false) :
    compile p op raw = (fun w => ⟨p, op, w, .order⟩) <$> raw.coerce p.kind p.nullable := by
  have solid := Kind.ne_bool_of_isOrdered ordered
  rw [compile_eq, prepare_of_isOrdering asked, Operand.coerce_nullable (.inl solid) false p.nullable]
  cases coerced : raw.coerce p.kind p.nullable with
  | error e => cases kind : p.kind <;> first | rfl | (rw [kind] at ordered; cases ordered)
  | ok w =>
    have kept (k : Kind) : nonNull w k = .ok w := by
      simp [nonNull, Operand.isNull_of_coerce solid given coerced]
    cases kind : p.kind with
    | string | number n | date => simp only [bind, Except.bind, kept]; rfl
    | _ => rw [kind] at ordered; cases ordered

def comparing (p : Path) (op : Operator) (w : Operand) : Clause :=
  ⟨p, op, w, if op.isOrdering then .order else .equal op.isNegated⟩

theorem compile_comparison (compares : op ∈ Operator.comparisons) (ordered : p.kind.isOrdered = true)
    {raw : Operand} (given : raw.isNull = false) :
    compile p op raw = comparing p op <$> raw.coerce p.kind p.nullable := by
  have ordering (asked : op.isOrdering = true) :
      compile p op raw = comparing p op <$> raw.coerce p.kind p.nullable := by
    have order : comparing p op = fun w => ⟨p, op, w, .order⟩ := by simp [funext_iff, comparing, asked]
    rw [order, compile_ordering asked ordered given]
  simp only [Operator.comparisons, List.mem_cons, List.not_mem_nil, or_false] at compares
  rcases compares with rfl | rfl | rfl | rfl | rfl
  -- Equality has a test of its own, as long as its operand does not come to null.
  case inr.inl =>
    rw [compile_equality (.inl rfl) (Kind.isScalar_of_isOrdered ordered)]
    cases coerced : raw.coerce p.kind p.nullable with
    | error e => rfl
    | ok w =>
      have present := Operand.isNull_of_coerce (Kind.ne_bool_of_isOrdered ordered) given coerced
      simp [present, comparing, Operator.isOrdering]
  all_goals exact ordering rfl

inductive Comparable : Value → Operand → Prop where
  | string (s t : String) : Comparable (.string s) (.string t)
  | number (m n : Number) : Comparable (.number m) (.number n)
  | date (d e : Calendar.DateTime) : Comparable (.date d) (.date e)

theorem comparable_of_conforms (ordered : k.isOrdered = true) (conforms : v.Conforms c k nullable)
    (present : v ≠ .null) (fits : w.isOf k = true) : Comparable v w := by
  cases conforms with
  | null => contradiction
  | string => cases w <;> cases fits; exact .string _ _
  | number => cases w <;> cases fits; exact .number _ _
  | date => cases w <;> cases fits; exact .date _ _
  | bool | list | entity => cases ordered

theorem agrees_eq_order (comparable : Comparable v w) :
    w.agrees v = (orderAgainst v w == some .eq) := by
  cases comparable with
  | string s t =>
    rw [Bool.eq_iff_iff]
    simp [Operand.agrees, orderAgainst, eq_comm (a := t)]
  | number m n => rfl
  | date d e =>
    rw [Bool.eq_iff_iff]
    simp [Operand.agrees, orderAgainst, Calendar.DateTime.compare_eq_iff, eq_comm (a := e)]

theorem orderAgainst_eq_none_iff (comparable : Comparable v w) :
    orderAgainst v w = none ↔ (v.isNaN || w.isNaN) = true := by
  cases comparable with
  | string s t => simp [orderAgainst, Value.isNaN, Operand.isNaN]
  | number m n => exact m.compare_eq_none_iff n
  | date d e => simp [orderAgainst, Value.isNaN, Operand.isNaN]

theorem accepts_comparing (compares : op ∈ Operator.comparisons) (comparable : Comparable v w) :
    (comparing p op w).accepts v = ((orderAgainst v w).map op.holdsFor).getD false := by
  simp only [Operator.comparisons, List.mem_cons, List.not_mem_nil, or_false] at compares
  rcases compares with rfl | rfl | rfl | rfl | rfl
  case inr.inl =>
    have present : v.isNull = false := by cases comparable <;> rfl
    simp only [comparing, accepts, Operator.isOrdering, Operator.isNegated, present,
      agrees_eq_order comparable]
    cases orderAgainst v w with
    | none => rfl
    | some r => cases r <;> rfl
  all_goals rfl

structure Trichotomous (clause : Operator → Clause) (v : Value) (unordered : Bool) : Prop where
  one : [.lessThan, .equal, .greaterThan].countP (fun op => (clause op).accepts v) =
    if unordered then 0 else 1
  atLeast : (clause .greaterThanOrEqual).accepts v =
    ((clause .greaterThan).accepts v || (clause .equal).accepts v)
  atMost : (clause .lessThanOrEqual).accepts v =
    ((clause .lessThan).accepts v || (clause .equal).accepts v)

theorem trichotomous (comparable : Comparable v w) :
    Trichotomous (fun op => comparing p op w) v (v.isNaN || w.isNaN) := by
  have each (op : Operator) (compares : op ∈ Operator.comparisons) :=
    accepts_comparing (p := p) compares comparable
  have unordered := orderAgainst_eq_none_iff comparable
  constructor
  all_goals simp only [List.countP_cons, List.countP_nil, each .lessThan (by decide),
    each .equal (by decide), each .greaterThan (by decide), each .lessThanOrEqual (by decide),
    each .greaterThanOrEqual (by decide)]
  case one =>
    cases outcome : orderAgainst v w with
    | none =>
      rw [if_pos (unordered.1 outcome)]
      rfl
    | some r =>
      have ordered : ¬(v.isNaN || w.isNaN) = true := by simp [← unordered, outcome]
      rw [if_neg ordered]
      cases r <;> rfl
  case atLeast | atMost =>
    cases orderAgainst v w with
    | none => rfl
    | some r => cases r <;> rfl

theorem exists_operand {x : Value} (ordered : k.isOrdered = true) (conforms : x.Conforms c k nullable)
    (present : x ≠ .null) : ∃ w, x.operand? = some w ∧ w.isOf k = true ∧ w.isNull = false := by
  cases conforms with
  | null => contradiction
  | string | number | date => exact ⟨_, rfl, rfl, rfl⟩
  | bool | list | entity => cases ordered

theorem compare_eq_orderAgainst {x : Value} (comparable : Comparable v w) (said : x.operand? = some w)
    (number : v.isNaN = false) (number' : x.isNaN = false) : v.compare x = orderAgainst v w := by
  cases comparable with
  | string | date => cases x <;> cases said; rfl
  | number m n =>
    cases x <;> cases said
    simp only [Value.isNaN] at number number'
    simp only [Value.compare, number, number', orderAgainst]

/-- Equality and the ordering operators compile alike, or refuse an operand in the same words, and their
clauses are trichotomous. With another field value as operand they say how sorting orders the two. -/
theorem accepts_comparison (ordered : p.kind.isOrdered = true) (c : Catalog) :
    (∀ raw : Operand, raw ≠ .null →
      (∃ e, ∀ op ∈ Operator.comparisons, compile p op raw = .error e) ∨
      ∃ (w : Operand) (clause : Operator → Clause), raw.coerce p.kind p.nullable = .ok w ∧
        (∀ op ∈ Operator.comparisons, compile p op raw = .ok (clause op)) ∧
        ∀ (v : Value) (nullable : Bool), v.Conforms c p.kind nullable → v ≠ .null →
          Trichotomous clause v (v.isNaN || w.isNaN)) ∧
    ∀ (v x : Value) (nullable : Bool), v.Conforms c p.kind nullable → x.Conforms c p.kind nullable →
      v ≠ .null → x ≠ .null → v.isNaN = false → x.isNaN = false →
        ∃ w lt eq gt, x.operand? = some w ∧ compile p .lessThan w = .ok lt ∧
          compile p .equal w = .ok eq ∧ compile p .greaterThan w = .ok gt ∧
          (lt.accepts v = true ↔ v.compare x = some .lt) ∧
          (eq.accepts v = true ↔ v.compare x = some .eq) ∧
          (gt.accepts v = true ↔ v.compare x = some .gt) := by
  constructor
  · intro raw given
    have given := Operand.isNull_eq_false_iff.2 given
    have compiled (op : Operator) (compares : op ∈ Operator.comparisons) :=
      compile_comparison compares ordered given
    cases coerced : raw.coerce p.kind p.nullable with
    | error e => exact .inl ⟨e, fun op compares => by rw [compiled op compares, coerced]; rfl⟩
    | ok w =>
      have present := Operand.isNull_of_coerce (Kind.ne_bool_of_isOrdered ordered) given coerced
      have fits : w.isOf p.kind = true :=
        (Operand.isOf_of_coerce coerced).resolve_left (by simp [present])
      refine .inr ⟨w, fun op => comparing p op w, rfl, fun op compares => ?_, ?_⟩
      · rw [compiled op compares, coerced]
        rfl
      · intro v nullable conforms shown
        exact trichotomous (comparable_of_conforms ordered conforms shown fits)
  · intro v x nullable conforms conforms' shown shown' number number'
    obtain ⟨w, said, fits, present⟩ := exists_operand ordered conforms' shown'
    have comparable := comparable_of_conforms ordered conforms shown fits
    have compiled (op : Operator) (compares : op ∈ Operator.comparisons) :
        compile p op w = .ok (comparing p op w) := by
      rw [compile_comparison compares ordered present, Operand.coerce_of_isOf fits]
      rfl
    have each (op : Operator) (compares : op ∈ Operator.comparisons) :=
      accepts_comparing (p := p) compares comparable
    refine ⟨w, _, _, _, said, compiled _ (by decide), compiled _ (by decide),
      compiled _ (by decide), ?_⟩
    rw [each .lessThan (by decide), each .equal (by decide), each .greaterThan (by decide),
      compare_eq_orderAgainst comparable said number number']
    cases orderAgainst v w with
    | none => simp
    | some r => cases r <;> simp [Operator.holdsFor]

theorem accepts_comparison_score :
    let score : Path := ⟨"score", [.member "score"], .number .float64, true⟩
    let forty : Value := .number (.float (.ofInt 40))
    let one : Value := .number (.float (.ofInt 1))
    (∃ clause : Operator → Clause,
      (∀ op ∈ Operator.comparisons, compile score op (.number (.int 36)) = .ok (clause op)) ∧
        Trichotomous clause forty false ∧ Trichotomous clause (.number (.float .nan)) true) ∧
      ∃ w gt, one.operand? = some w ∧ compile score .greaterThan w = .ok gt ∧
        (gt.accepts forty = true ↔ forty.compare one = some .gt) := by
  intro score forty one
  have float (x : Binary64) : (Value.number (.float x)).Conforms .people score.kind true := .number rfl
  obtain ⟨alike, sorted⟩ := @accepts_comparison score rfl .people
  constructor
  · rcases alike (.number (.int 36)) (by simp) with ⟨e, failed⟩ | ⟨w, clause, coerced, compiled, law⟩
    · cases failed .equal (by decide)
    · cases coerced
      exact ⟨clause, compiled, law _ _ (float _) (by simp [forty]), law _ _ (float _) (by simp)⟩
  · obtain ⟨w, -, -, gt, said, -, -, greater, -, -, decides⟩ :=
      sorted forty one true (float _) (float _) (by simp [forty]) (by simp [one]) rfl rfl
    exact ⟨w, gt, said, greater, decides⟩

end Clause

end EntityQuery
