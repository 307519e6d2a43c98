import EntityQuery.Coercion
import EntityQuery.Proofs.Calendar.RoundTrip
import EntityQuery.Proofs.Operand
import EntityQuery.Proofs.Resolving

set_option autoImplicit false

namespace EntityQuery.Operand

open Calendar (DateTime)
open Text
open Resolving (map_eq_error_iff ok_of_bind)

theorem coerceAll_of_allOf {vs : List Operand} {k : Kind} (fits : allOf vs k = true) :
    coerceAll vs k = .ok vs := by
  induction vs with
  | nil => rfl
  | cons v vs ih =>
    simp only [allOf, Bool.and_eq_true] at fits
    have first : v.coerce k true = .ok v := by
      unfold coerce
      rw [if_pos fits.1]
    simp only [coerceAll, first, ih fits.2]
    rfl

-- Lists are brought to a kind item by item, also where they are of the kind already.
theorem coerce_list (vs : List Operand) (k : Kind) (nullable : Bool) :
    (list vs).coerce (.collection k) nullable = list <$> coerceAll vs k := by
  unfold coerce
  split
  next fits =>
    rw [coerceAll_of_allOf (by simpa [isNull, isOf] using fits)]
    rfl
  next => simp

theorem read_text {d : DateTime} (returns : d.Returns) :
    normalizeDigits d.text.toList = d.render ∧ DateTime.read d.render = some d := by
  rw [DateTime.text, String.toList_ofList, DateTime.read_render returns.1,
    DateTime.shown_eq_self_iff.2 returns.2]
  exact ⟨DateTime.normalizeDigits_render returns.1, rfl⟩

mutual

theorem coerce_stored {v : Operand} (dated : v.Dated) (k : Kind) (nullable : Bool) :
    canonical <$> v.stored.coerce k nullable = canonical <$> v.coerce k nullable := by
  match v with
  | .null | .string _ | .bool _ => rfl
  | .number n =>
    have text := text_stored (.number n)
    have plain := plainText_stored (.number n)
    simp only [stored] at text plain
    cases k <;> simp [stored, coerce, isNull, isOf, refused, canonical, text, plain]
  | .date d =>
    obtain ⟨normal, read⟩ := read_text dated
    have text := text_stored (.date d)
    simp only [stored] at text
    cases k <;> simp [stored, coerce, isNull, isOf, refused, plainText, text, normal, read]
    rfl
  | .list vs =>
    have text := text_stored (.list vs)
    have plain := plainText_stored (.list vs)
    simp only [stored] at text plain
    cases k with
    | collection k =>
      have items : canonicalAll <$> coerceAll (storedAll vs) k = canonicalAll <$> coerceAll vs k :=
        coerceAll_stored dated k
      have inside (x : Except Error (List Operand)) :
          canonical <$> list <$> x = list <$> canonicalAll <$> x := by
        simp [Functor.map_map, canonical]
      rw [stored, coerce_list, coerce_list, inside, inside, items]
    | _ => simp [stored, coerce, isNull, isOf, refused, canonical, text, plain]

theorem coerceAll_stored {vs : List Operand} (dated : AllDates DateTime.Returns vs) (k : Kind) :
    canonicalAll <$> coerceAll (storedAll vs) k = canonicalAll <$> coerceAll vs k := by
  match vs with
  | [] => rfl
  | v :: vs =>
    have first := coerce_stored dated.1 k true
    have rest := coerceAll_stored dated.2 k
    have split (w : Operand) (ws : List Operand) : canonicalAll <$> coerceAll (w :: ws) k =
        do return (← canonical <$> w.coerce k true) :: (← canonicalAll <$> coerceAll ws k) := by
      simp [coerceAll, canonicalAll]
    rw [storedAll, split, split, first, rest]

end

theorem isOf_coerceBool (nullable : Bool) (text : String) :
    (coerceBool nullable text).isNull = true ∨ (coerceBool nullable text).isOf .bool = true := by
  simp only [coerceBool]
  split
  next => exact .inl rfl
  next => exact .inr rfl

mutual

theorem isOf_of_coerce {v w : Operand} {k : Kind} {nullable : Bool}
    (coerced : v.coerce k nullable = .ok w) : w.isNull = true ∨ w.isOf k = true := by
  unfold coerce at coerced
  split at coerced
  next fits =>
    cases coerced
    simpa using fits
  next =>
    split at coerced
    next => cases coerced
    next => cases coerced; exact .inr rfl
    next => cases coerced; exact .inr rfl
    next => cases coerced; exact isOf_coerceBool nullable _
    next =>
      split at coerced <;> cases coerced
      exact .inr rfl
    next element vs _ =>
      obtain ⟨ws, items, rest⟩ := ok_of_bind coerced
      cases rest
      exact .inr (allOf_of_coerceAll items)
    next => cases coerced

theorem allOf_of_coerceAll {vs ws : List Operand} {k : Kind}
    (coerced : coerceAll vs k = .ok ws) : allOf ws k = true := by
  match vs with
  | [] =>
    cases coerced
    rfl
  | v :: vs =>
    obtain ⟨w, first, coerced⟩ := ok_of_bind coerced
    obtain ⟨ws, others, rest⟩ := ok_of_bind coerced
    cases rest
    simpa [allOf, allOf_of_coerceAll others] using isOf_of_coerce first

end

theorem coerce_of_fits {v : Operand} {k : Kind} (fits : v.isNull = true ∨ v.isOf k = true)
    (nullable : Bool) : v.coerce k nullable = .ok v := by
  unfold coerce
  exact if_pos (by simpa using fits)

def isBlank (v : Operand) : Bool :=
  (trim v.plainText.toList).isEmpty

-- Whether null is allowed matters to nothing but blank text that is read as a boolean.
theorem coerce_nullable {v : Operand} {k : Kind} (solid : k ≠ .bool ∨ v.isBlank = false)
    (nullable nullable' : Bool) : v.coerce k nullable = v.coerce k nullable' := by
  unfold coerce
  split
  next => rfl
  next =>
    cases k with
    | bool =>
      have shown : (trim v.plainText.toList).isEmpty = false := solid.resolve_left (absurd rfl)
      simp [coerceBool, shown]
    | string | collection _ => cases v <;> rfl
    | number _ | date | entity _ => rfl

theorem eq_of_coerce_error {v : Operand} {k : Kind} {nullable : Bool} {e : Error}
    (scalar : k.isScalar = true) (failed : v.coerce k nullable = .error e) :
    e = .coercion v.text k.name := by
  unfold coerce at failed
  split at failed
  next => cases failed
  next =>
    split at failed
    next => cases failed; rfl
    next => cases failed
    next => cases failed
    next => cases failed
    next => split at failed <;> cases failed; rfl
    next => cases scalar
    next => cases failed; rfl

theorem coerceAll_eq_mapM (vs : List Operand) (k : Kind) :
    coerceAll vs k = vs.mapM fun v => v.coerce k true := by
  induction vs with
  | nil => rfl
  | cons v vs ih => rw [coerceAll, ih, List.mapM_cons]

theorem exists_of_coerceAll_error {vs : List Operand} {k : Kind} {e : Error}
    (failed : coerceAll vs k = .error e) : ∃ v ∈ vs, v.coerce k true = .error e :=
  exists_of_mapM_error (coerceAll_eq_mapM vs k ▸ failed)

inductive Inhabits : Operand → Kind → Prop where
  | null {k : Kind} : Inhabits null k
  | string {s : String} : Inhabits (string s) .string
  | number {n : Number} {k : NumberKind} : Inhabits (number n) (.number k)
  | bool {b : Bool} : Inhabits (bool b) .bool
  | date {d : DateTime} : Inhabits (date d) .date
  | list {items : List Operand} {element : Kind} (each : ∀ v ∈ items, Inhabits v element) :
      Inhabits (list items) (.collection element)

theorem eq_null_of_isNull {v : Operand} (blank : v.isNull = true) : v = null := by
  cases v with
  | null => rfl
  | _ => cases blank

theorem isNull_eq_false_iff {v : Operand} : v.isNull = false ↔ v ≠ null := by
  cases v <;> simp [isNull]

theorem isNull_of_coerce {v w : Operand} {k : Kind} {nullable : Bool} (solid : k ≠ .bool)
    (given : v.isNull = false) (coerced : v.coerce k nullable = .ok w) : w.isNull = false := by
  unfold coerce at coerced
  split at coerced
  next => cases coerced; exact given
  next =>
    split at coerced
    next => cases coerced
    next => cases coerced; rfl
    next => cases coerced; rfl
    next => contradiction
    next => split at coerced <;> cases coerced; rfl
    next =>
      obtain ⟨ws, -, rest⟩ := ok_of_bind coerced
      cases rest
      rfl
    next => cases coerced

theorem coerce_blank {v : Operand} (given : v.isNull = false) (blank : v.isBlank = true)
    (nullable : Bool) : v.coerce .bool nullable = .ok (if nullable then null else bool false) := by
  have shown : trim v.plainText.toList = [] := List.isEmpty_iff.1 blank
  have foreign : v.isOf .bool = false := by
    cases v with
    | bool b => cases b <;> exact absurd blank (by decide)
    | _ => rfl
  unfold coerce
  cases nullable <;> simp [given, foreign, coerceBool, shown, Text.lower]

mutual

theorem inhabits_of_isOf {v : Operand} {k : Kind} (fits : v.isOf k = true) : v.Inhabits k := by
  match v, k with
  | .string _, .string => exact .string
  | .number _, .number _ => exact .number
  | .bool _, .bool => exact .bool
  | .date _, .date => exact .date
  | .list _, .collection _ => exact .list (inhabits_of_allOf fits)

theorem inhabits_of_allOf {vs : List Operand} {k : Kind} (fits : allOf vs k = true) :
    ∀ v ∈ vs, v.Inhabits k := by
  match vs with
  | [] => exact nofun
  | v :: vs =>
    simp only [allOf, Bool.and_eq_true, Bool.or_eq_true] at fits
    refine List.forall_mem_cons.2 ⟨?_, inhabits_of_allOf fits.2⟩
    rcases fits.1 with blank | fits
    · exact eq_null_of_isNull blank ▸ .null
    · exact inhabits_of_isOf fits

end

theorem exists_coerce {k : Kind} (total : k.isNumeric = true ∨ k = .bool) (v : Operand)
    (nullable : Bool) : ∃ w, v.coerce k nullable = .ok w := by
  unfold coerce
  split
  next => exact ⟨_, rfl⟩
  next =>
    cases k with
    | number n => exact ⟨_, rfl⟩
    | bool => exact ⟨_, rfl⟩
    | string | date | collection _ | entity _ => simp [Kind.isNumeric] at total

/-- What coercion gives is of the kind, and coercing it again keeps it. Numbers and booleans are never
refused. A list is coerced item by item, also where it is of the kind already, and refused in the
words of the first item that is. -/
theorem coerce_settles :
    (∀ (v w : Operand) (k : Kind) (nullable : Bool), v.coerce k nullable = .ok w →
      w.Inhabits k ∧ ∀ again, w.coerce k again = .ok w) ∧
    (∀ (v : Operand) (k : Kind) (nullable : Bool), k.isNumeric = true ∨ k = .bool →
      ∃ w, v.coerce k nullable = .ok w) ∧
    ∀ (vs : List Operand) (element : Kind) (nullable : Bool),
      (list vs).coerce (.collection element) nullable =
        list <$> vs.mapM (fun v => v.coerce element true) ∧
      ∀ e, (list vs).coerce (.collection element) nullable = .error e ↔
        ∃ before v after, vs = before ++ v :: after ∧
          (∀ u ∈ before, ∃ w, u.coerce element true = .ok w) ∧ v.coerce element true = .error e := by
  refine ⟨fun v w k nullable coerced => ?_, fun v k nullable total => exists_coerce total v nullable,
    fun vs element nullable => ?_⟩
  · have fits := isOf_of_coerce coerced
    refine ⟨?_, coerce_of_fits fits⟩
    rcases fits with blank | fits
    · exact eq_null_of_isNull blank ▸ .null
    · exact inhabits_of_isOf fits
  · have each := coerce_list vs element nullable
    rw [coerceAll_eq_mapM] at each
    exact ⟨each, fun e => by rw [each, map_eq_error_iff, mapM_eq_error_iff]⟩

theorem coerce_settles_nested :
    let grid : Kind := .collection (.collection (.number .int32))
    let given := list [list [string "۱,۲۰۰", null, number (.uint 7)], null]
    let kept := list [list [number (.int 1200), null, number (.uint 7)], null]
    given.coerce grid false = .ok kept ∧ kept.Inhabits grid ∧ kept.coerce grid true = .ok kept ∧
      (∃ w, given.coerce .bool true = .ok w) ∧
      (list [null, string "soon", bool true]).coerce (.collection .date) false =
        .error (.coercion "\"soon\"" "date") := by
  intro grid given kept
  have coerced : given.coerce grid false = .ok kept := by rfl
  obtain ⟨settled, total, each⟩ := coerce_settles
  obtain ⟨inhabits, again⟩ := settled given kept grid false coerced
  refine ⟨coerced, inhabits, again true, total given .bool true (.inr rfl), ?_⟩
  refine ((each _ .date false).2 _).2 ⟨[null], string "soon", [bool true], rfl, ?_, rfl⟩
  exact List.forall_mem_singleton.2 ⟨null, rfl⟩

end EntityQuery.Operand
