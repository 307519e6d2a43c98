import EntityQuery.Proofs.Comparison
import EntityQuery.Proofs.Numeric.Order
import EntityQuery.Proofs.Sorting

set_option autoImplicit false

namespace EntityQuery

theorem Number.Conflates.greater {m n y : Number} (conflated : y.Conflates m n) :
    m.compare n = some .gt ∨ n.compare m = some .gt := by
  cases conflated with
  | intro hm hn same =>
    rw [compare_of_whole? hm hn, compare_of_whole? hn hm, Option.some.injEq, Option.some.injEq,
      compare_gt_iff_gt, compare_gt_iff_gt]
    exact same.1.symm.lt_or_gt

namespace Value

inductive IsNumeric : Value → Prop where
  | null : IsNumeric null
  | number (n : Number) : IsNumeric (number n)

inductive Conflates : Value → Value → Value → Prop where
  | number {y m n : Number} (conflated : y.Conflates m n) : Conflates (number y) (number m) (number n)

variable {a b d : Value}

theorem Conflates.symm (conflated : b.Conflates a d) : b.Conflates d a := by
  cases conflated with
  | number conflated => exact .number conflated.symm

theorem compare_ordered {m n : Number} (hm : m.isNaN = false) (hn : n.isNaN = false) :
    (number m).compare (number n) = m.compare n := by
  simp only [compare, hm, hn]

theorem Conflates.greater (conflated : b.Conflates a d) :
    a.compare d = some .gt ∨ d.compare a = some .gt := by
  cases conflated with
  | number conflated =>
    obtain ⟨hm, -, hn⟩ := conflated.isNaN
    rw [compare_ordered hm hn, compare_ordered hn hm]
    exact conflated.greater

def word? (v : Value) : Option Int :=
  v.number?.bind Number.whole?

theorem Conflates.large (conflated : b.Conflates a d) :
    ∃ i j, a.word? = some i ∧ d.word? = some j ∧ i ≠ j ∧ 2 ^ 53 ≤ i.natAbs ∧ 2 ^ 53 ≤ j.natAbs := by
  cases conflated with
  | number conflated =>
    cases conflated with
    | @intro x m n i j hm hn same => exact ⟨i, j, hm, hn, same.1, same.large⟩

theorem exists_compare (ha : a.IsNumeric) (hb : b.IsNumeric) : ∃ o, a.compare b = some o := by
  cases ha <;> cases hb
  case number.number m n =>
    cases hm : m.isNaN <;> cases hn : n.isNaN <;> simp only [compare, hm, hn]
    case false.false =>
      apply Option.ne_none_iff_exists'.1
      simp [m.compare_eq_none_iff n, hm, hn]
    all_goals exact ⟨_, rfl⟩
  all_goals exact ⟨_, rfl⟩

theorem between_iff (ha : a.IsNumeric) (hb : b.IsNumeric) (hd : d.IsNumeric)
    (greater : a.compare d = some .gt) :
    a.compare b ≠ some .gt ∧ b.compare d ≠ some .gt ↔ b.Conflates a d := by
  constructor
  · rintro ⟨first, second⟩
    cases ha <;> cases hd <;> cases hb
    case number.number.number m n y =>
      cases hm : m.isNaN <;> cases hn : n.isNaN <;> cases hy : y.isNaN <;>
        simp only [compare, hm, hn, hy] at greater first second
      case false.false.false =>
        exact .number ((Number.between_iff hm hy hn greater).1 ⟨first, second⟩)
      all_goals simp at greater first second
    all_goals simp [compare] at greater first second
  · intro conflated
    cases conflated with
    | number conflated =>
      obtain ⟨hm, hy, hn⟩ := conflated.isNaN
      rw [compare_ordered hm hy, compare_ordered hy hn]
      simp [conflated.ties]

end Value

namespace Comparator

theorem compare_single (k : SortKey) (a b : Entity) : compare ⟨[k]⟩ a b = k.compare a b := by
  simp [compare, Ordering.then_eq]

end Comparator

namespace SortKey

variable {k : SortKey} {a b d : Entity}

theorem compare_ne_gt_iff (ha : (k.path.get a).IsNumeric) (hb : (k.path.get b).IsNumeric) :
    k.compare a b ≠ .gt ↔ match k.direction with
      | .ascending => (k.path.get a).compare (k.path.get b) ≠ some .gt
      | .descending => (k.path.get b).compare (k.path.get a) ≠ some .gt := by
  obtain ⟨o, known⟩ := Value.exists_compare ha hb
  have reverse := Value.compare_swap (k.path.get a) (k.path.get b)
  rw [known] at reverse
  simp only [compare, known]
  cases k.direction with
  | ascending => simp [Direction.apply]
  | descending =>
    rw [reverse]
    cases o <;> simp [Direction.apply]

def Separates (k : SortKey) (items : List Entity) : Prop :=
  ∀ a ∈ items, ∀ b ∈ items, ∀ d ∈ items, ¬(k.path.get b).Conflates (k.path.get a) (k.path.get d)

end SortKey

namespace Comparator

variable {k : SortKey} {items : List Entity}

theorem transitiveOn_iff_separates (numeric : ∀ e ∈ items, (k.path.get e).IsNumeric) :
    (Comparator.mk [k]).TransitiveOn (· ∈ items) ↔ k.Separates items := by
  have notAfter (a b : Entity) (ha : a ∈ items) (hb : b ∈ items) :=
    SortKey.compare_ne_gt_iff (numeric a ha) (numeric b hb)
  constructor
  · intro trans a ha b hb d hd conflated
    have refuted (a d : Entity) (ha : a ∈ items) (hd : d ∈ items)
        (conflated : (k.path.get b).Conflates (k.path.get a) (k.path.get d))
        (greater : (k.path.get a).compare (k.path.get d) = some .gt) : False := by
      obtain ⟨first, second⟩ :=
        (Value.between_iff (numeric a ha) (numeric b hb) (numeric d hd) greater).2 conflated
      have forward := trans a b d ha hb hd
      have backward := trans d b a hd hb ha
      simp only [compare_single, notAfter _ _ ha hb, notAfter _ _ hb hd, notAfter _ _ ha hd,
        notAfter _ _ hd hb, notAfter _ _ hb ha, notAfter _ _ hd ha] at forward backward
      cases direction : k.direction with
      | ascending =>
        simp only [direction] at forward
        exact forward first second greater
      | descending =>
        simp only [direction] at backward
        exact backward second first greater
    rcases conflated.greater with greater | greater
    · exact refuted a d ha hd conflated greater
    · exact refuted d a hd ha conflated.symm greater
  · intro apart a b d ha hb hd first second
    rw [compare_single] at first second ⊢
    rw [notAfter _ _ ha hb] at first
    rw [notAfter _ _ hb hd] at second
    rw [notAfter _ _ ha hd]
    cases direction : k.direction with
    | ascending =>
      simp only [direction] at first second ⊢
      intro greater
      exact apart a ha b hb d hd
        ((Value.between_iff (numeric a ha) (numeric b hb) (numeric d hd) greater).1 ⟨first, second⟩)
    | descending =>
      simp only [direction] at first second ⊢
      intro greater
      exact apart d hd b hb a ha
        ((Value.between_iff (numeric d hd) (numeric b hb) (numeric a ha) greater).1 ⟨second, first⟩)

/-- Null and numbers of all representations are compared, and the other way round in reverse. Of three, the
outer two are in the wrong order and no neighbours are, exactly where two different words, both of
`2 ^ 53` or more, are rounded to the number between them. A column is preordered if and only if it has no
such words, and then what it is sorted to is the only stable arrangement. -/
theorem numeric_column {a b d : Value} (ha : a.IsNumeric) (hb : b.IsNumeric) (hd : d.IsNumeric) :
    (∃ o, a.compare b = some o ∧ b.compare a = some o.swap) ∧
    (a.compare d = some .gt →
      (a.compare b ≠ some .gt ∧ b.compare d ≠ some .gt ↔ b.Conflates a d)) ∧
    (b.Conflates a d → ∃ i j, a.word? = some i ∧ d.word? = some j ∧ i ≠ j ∧
      2 ^ 53 ≤ i.natAbs ∧ 2 ^ 53 ≤ j.natAbs) ∧
    ∀ (k : SortKey) (items : List Entity), (∀ e ∈ items, (k.path.get e).IsNumeric) →
      ((Comparator.mk [k]).TransitiveOn (· ∈ items) ↔ k.Separates items) ∧
      (k.Separates items → ∀ out, StablySorted ⟨[k]⟩ items out ↔ out = sorted ⟨[k]⟩ items) := by
  refine ⟨?_, Value.between_iff ha hb hd, Value.Conflates.large, fun k items numeric => ?_⟩
  · obtain ⟨o, known⟩ := Value.exists_compare ha hb
    exact ⟨o, known, by rw [Value.compare_swap, known]; rfl⟩
  · have transitive := transitiveOn_iff_separates numeric
    exact ⟨transitive, fun apart out => stablySorted_iff (transitive.2 apart) fun e member => member⟩

theorem numeric_column_mixed :
    let k : SortKey := ⟨⟨"share", [.member "share"], .number .float64, true⟩, .ascending⟩
    let holding (v : Value) : Entity := ⟨0, fun _ => v⟩
    let none := holding .null
    let three := holding (.number (.int 3))
    let two := holding (.number (.float (.ofInt 2)))
    let unknown := holding (.number (.float .nan))
    k.Separates [unknown, three, none, two] ∧
      (∀ out, StablySorted ⟨[k]⟩ [unknown, three, none, two] out ↔ out = [none, two, three, unknown]) ∧
      Value.Conflates (.number (.float (.ofInt 9007199254740992))) (.number (.int 9007199254740993))
        (.number (.int 9007199254740992)) := by
  intro k holding none three two unknown
  have numeric : ∀ e ∈ [unknown, three, none, two], (k.path.get e).IsNumeric := by
    simp only [List.forall_mem_cons]
    exact ⟨.number _, .number _, .null, .number _, List.forall_mem_nil _⟩
  have small : ∀ e ∈ [unknown, three, none, two], ∀ i, (k.path.get e).word? = some i →
      i.natAbs < 2 ^ 53 := by
    simp only [List.forall_mem_cons]
    exact ⟨by rintro i ⟨⟩, by rintro i ⟨⟩; decide, by rintro i ⟨⟩, by rintro i ⟨⟩, List.forall_mem_nil _⟩
  have apart : k.Separates [unknown, three, none, two] := by
    intro a ha b hb d hd conflated
    obtain ⟨i, -, word, -, -, least, -⟩ := conflated.large
    exact absurd (small a ha i word) (not_lt.2 least)
  obtain ⟨-, between, -, columns⟩ := numeric_column (.number (.int 9007199254740993))
    (.number (.float (.ofInt 9007199254740992))) (.number (.int 9007199254740992))
  exact ⟨apart, (columns k _ numeric).2 apart, (between (by decide)).1 ⟨by decide, by decide⟩⟩

-- Two words and the number between them that both are rounded to: each ties with the next, but the
-- last belongs before the first. So there is no order of the three, and sorting leaves them as they
-- are.
theorem numeric_column_conflated :
    let k : SortKey := ⟨⟨"share", [.member "share"], .number .float64, true⟩, .ascending⟩
    let a : Value := .number (.int 9007199254740993)
    let b : Value := .number (.float (.ofInt 9007199254740992))
    let d : Value := .number (.int 9007199254740992)
    let items : List Entity := [⟨0, fun _ => a⟩, ⟨1, fun _ => b⟩, ⟨2, fun _ => d⟩]
    a.IsNumeric ∧ b.IsNumeric ∧ d.IsNumeric ∧ a.compare b = some .eq ∧ b.compare d = some .eq ∧
      a.compare d = some .gt ∧
      ¬(sorted ⟨[k]⟩ items).Pairwise fun e f => compare ⟨[k]⟩ e f ≠ .gt := by
  intro k a b d items
  refine ⟨.number _, .number _, .number _, by decide, by decide, by decide, by decide⟩

end Comparator

end EntityQuery
