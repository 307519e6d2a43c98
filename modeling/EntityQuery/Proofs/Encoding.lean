import EntityQuery.Proofs.Stored

set_option autoImplicit false

namespace EntityQuery.Operand

open Calendar (DateTime)

mutual

def scalars : Operand → List Operand
  | list items => scalarsOf items
  | v => [v]

def scalarsOf : List Operand → List Operand
  | [] => []
  | v :: vs => v.scalars ++ scalarsOf vs

end

mutual

def nesting : Operand → Nat
  | list items => nestingOf items + 1
  | _ => 0

def nestingOf : List Operand → Nat
  | [] => 0
  | v :: vs => max v.nesting (nestingOf vs)

end

theorem nesting_coerceBool (nullable : Bool) (text : String) :
    (coerceBool nullable text).nesting = 0 := by
  simp only [coerceBool]
  split <;> rfl

mutual

theorem nesting_of_coerce {v w : Operand} {k : Kind} {nullable : Bool}
    (coerced : v.coerce k nullable = .ok w) : w.nesting ≤ v.nesting := by
  unfold coerce at coerced
  split at coerced
  next =>
    cases coerced
    exact le_rfl
  next =>
    split at coerced
    next => cases coerced
    next =>
      cases coerced
      exact Nat.zero_le _
    next =>
      cases coerced
      exact Nat.zero_le _
    next =>
      cases coerced
      rw [nesting_coerceBool]
      exact Nat.zero_le _
    next =>
      split at coerced <;> cases coerced
      exact Nat.zero_le _
    next element vs _ =>
      obtain ⟨ws, items, rest⟩ := Resolving.ok_of_bind coerced
      cases rest
      exact Nat.succ_le_succ (nestingOf_of_coerceAll items)
    next => cases coerced

theorem nestingOf_of_coerceAll {vs ws : List Operand} {k : Kind}
    (coerced : coerceAll vs k = .ok ws) : nestingOf ws ≤ nestingOf vs := by
  match vs with
  | [] =>
    cases coerced
    exact le_rfl
  | v :: vs =>
    obtain ⟨w, first, coerced⟩ := Resolving.ok_of_bind coerced
    obtain ⟨ws, others, rest⟩ := Resolving.ok_of_bind coerced
    cases rest
    exact max_le_max (nesting_of_coerce first) (nestingOf_of_coerceAll others)

end

theorem error_iff_of_number (n : Number) : (∃ e, (number n).json? = .error e) ↔
    ∃ x, number (.float x) ∈ (number n).scalars ∧ x.isFinite = false := by
  cases n with
  | int n | uint n => simp [json?, scalars]
  | float x => cases finite : x.isFinite <;> simp [json?, scalars, finite]

mutual

theorem json?_error_iff (v : Operand) : (∃ e, v.json? = .error e) ↔
    ∃ x, number (.float x) ∈ v.scalars ∧ x.isFinite = false := by
  match v with
  | .number n => exact error_iff_of_number n
  | .list vs =>
    rw [scalars, ← jsonAll?_error_iff vs, json?]
    cases jsonAll? vs <;> simp [bind, Except.bind, pure, Except.pure]
  | .null | .string _ | .bool _ | .date _ => simp [json?, scalars]

theorem jsonAll?_error_iff (vs : List Operand) : (∃ e, jsonAll? vs = .error e) ↔
    ∃ x, number (.float x) ∈ scalarsOf vs ∧ x.isFinite = false := by
  match vs with
  | [] => simp [jsonAll?, scalarsOf]
  | v :: vs =>
    have first := json?_error_iff v
    have rest := jsonAll?_error_iff vs
    simp only [scalarsOf, List.mem_append, or_and_right, exists_or, ← first, ← rest, jsonAll?]
    cases v.json? <;> cases jsonAll? vs <;> simp [bind, Except.bind, pure, Except.pure]

end

theorem text?_error_iff (v : Operand) : (∃ e, v.text? = .error e) ↔
    ∃ x, number (.float x) ∈ v.scalars ∧ x.isFinite = false := by
  rw [← json?_error_iff, text?]
  cases v.json? <;> simp [bind, Except.bind, pure, Except.pure]

theorem text_of_text? {v : Operand} {s : String} (written : v.text? = .ok s) : s = v.text := by
  unfold text? at written
  cases json : v.json? with
  | error e => rw [json] at written; cases written
  | ok j =>
    rw [json] at written
    cases written
    rw [text, json_of_json? json]

mutual

theorem fits_json_iff (v : Operand) (room : Nat) : v.json.fits room = true ↔ v.nesting ≤ room := by
  match v with
  | .list vs =>
    simp only [json, Json.fits, nesting, Bool.and_eq_true, bne_iff_ne, fits_jsonAll_iff vs]
    omega
  | .number n =>
    have plain : (numberJson n).fits room = true := by
      unfold numberJson
      repeat' split
      all_goals rfl
    simp [json, plain, nesting]
  | .null | .string _ | .bool _ | .date _ => simp [json, Json.fits, nesting]

theorem fits_jsonAll_iff (vs : List Operand) (room : Nat) :
    Json.itemsFit room (jsonAll vs) = true ↔ nestingOf vs ≤ room := by
  match vs with
  | [] => simp [jsonAll, Json.itemsFit, nestingOf]
  | v :: vs =>
    simp only [jsonAll, Json.itemsFit, nestingOf, Bool.and_eq_true, fits_json_iff v,
      fits_jsonAll_iff vs, max_le_iff]

end

mutual

theorem scalars_stored (v : Operand) : v.stored.scalars = v.scalars.map stored := by
  match v with
  | .list vs => exact scalarsOf_storedAll vs
  | .null | .string _ | .number _ | .bool _ | .date _ => rfl

theorem scalarsOf_storedAll (vs : List Operand) :
    scalarsOf (storedAll vs) = (scalarsOf vs).map stored := by
  match vs with
  | [] => rfl
  | v :: vs => simp [storedAll, scalarsOf, scalars_stored v, scalarsOf_storedAll vs]

end

theorem text?_stored {v : Operand} {s : String} (written : v.text? = .ok s) :
    v.stored.text? = .ok s := by
  cases stored : v.stored.text? with
  | ok t => rw [text_of_text? stored, text_of_text? written, text_stored]
  | error e =>
    obtain ⟨x, member, infinite⟩ := v.stored.text?_error_iff.1 ⟨e, stored⟩
    rw [scalars_stored, List.mem_map] at member
    obtain ⟨w, inside, came⟩ := member
    have same : w = number (.float x) := by
      cases w with
      | number n =>
        rcases n.canonical_cases with kept | ⟨m, i, rfl, signed, -⟩
        · rwa [Operand.stored, kept] at came
        · simp [Operand.stored, signed] at came
      | null | string | bool | date | list => cases came
    obtain ⟨e, failed⟩ := v.text?_error_iff.2 ⟨x, same ▸ inside, infinite⟩
    cases written.symm.trans failed

mutual

theorem stored_of_dateless {v : Operand} (dateless : ∀ d, date d ∉ v.scalars) :
    v.stored = v.canonical := by
  match v with
  | .list vs => simp [stored, canonical, storedAll_of_dateless dateless]
  | .date d => simp [scalars] at dateless
  | .null | .string _ | .number _ | .bool _ => rfl

theorem storedAll_of_dateless {vs : List Operand} (dateless : ∀ d, date d ∉ scalarsOf vs) :
    storedAll vs = canonicalAll vs := by
  match vs with
  | [] => rfl
  | v :: vs =>
    simp only [scalarsOf, List.mem_append, not_or, forall_and] at dateless
    rw [storedAll, canonicalAll, stored_of_dateless dateless.1, storedAll_of_dateless dateless.2]

end

/-- An operand has a text if and only if no number in it is infinite or NaN, and then it is the text
that messages show. The stored operand has the same text, and is what is read back from it as long as
lists nest at most 127 deep. Without dates it equals the same field values. -/
theorem ofText_encoded (v : Operand) :
    ((∃ e, v.text? = .error e) ↔ ∃ x, number (.float x) ∈ v.scalars ∧ x.isFinite = false) ∧
    ((∀ x, number (.float x) ∈ v.scalars → x.isFinite = true) →
      ∃ s, v.text? = .ok s ∧ s = v.text ∧ v.stored.text? = .ok s ∧
        ofText s = if v.nesting ≤ 127 then .ok v.stored else .error .json) ∧
    ((∀ d, date d ∉ v.scalars) → ∀ x, v.stored.agrees x = v.agrees x) := by
  refine ⟨v.text?_error_iff, fun finite => ?_, fun dateless x => ?_⟩
  · cases written : v.text? with
    | error e =>
      obtain ⟨x, member, infinite⟩ := v.text?_error_iff.1 ⟨e, written⟩
      rw [finite x member] at infinite
      cases infinite
    | ok s =>
      refine ⟨s, rfl, text_of_text? written, text?_stored written, ?_⟩
      simp only [ofText_written written, fits_json_iff, Json.maxDepth]
  · rw [stored_of_dateless dateless, agrees_canonical]

theorem ofText_encoded_nested :
    let d : DateTime := ⟨⟨2024, 3, 5, by decide, by decide⟩, .midnight⟩
    let zero : Binary64 := .signed true 0 (Nat.zero_le _)
    let words := [number (.uint 7), number (.uint 9223372036854775808)]
    let v := list [list words, string "a\"b", number (.float zero), date d]
    (∀ x, number (.float x) ∈ v.scalars → x.isFinite = true) ∧
      v.text? = .ok v.text ∧
      ofText v.text = .ok (list [list [number (.int 7), number (.uint 9223372036854775808)],
        string "a\"b", number (.float zero), string d.text]) ∧
      (∀ d, date d ∉ (list words).scalars) ∧
      ∀ x, (list words).stored.agrees x = (list words).agrees x := by
  intro d zero words v
  have finite : ∀ x, number (.float x) ∈ v.scalars → x.isFinite = true := by
    intro x member
    obtain rfl : x = zero := by simpa [v, words, scalars, scalarsOf] using member
    decide
  have dateless : ∀ d, date d ∉ (list words).scalars := by simp [words, scalars, scalarsOf]
  obtain ⟨s, written, rfl, -, read⟩ := v.ofText_encoded.2.1 finite
  exact ⟨finite, written, read.trans (if_pos (by decide)), dateless,
    (list words).ofText_encoded.2.2 dateless⟩

end EntityQuery.Operand
