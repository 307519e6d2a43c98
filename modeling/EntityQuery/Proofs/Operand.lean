import EntityQuery.Operand
import EntityQuery.Proofs.Calendar.RoundTrip
import EntityQuery.Proofs.Json.RoundTrip

set_option autoImplicit false

namespace EntityQuery.Operand

open Calendar (DateTime)

mutual

def stored : Operand → Operand
  | number n => number n.canonical
  | date d => string d.text
  | list items => list (storedAll items)
  | v => v

def storedAll : List Operand → List Operand
  | [] => []
  | v :: vs => v.stored :: storedAll vs

end

mutual

def canonical : Operand → Operand
  | number n => number n.canonical
  | list items => list (canonicalAll items)
  | v => v

def canonicalAll : List Operand → List Operand
  | [] => []
  | v :: vs => v.canonical :: canonicalAll vs

end

mutual

def Dates (p : DateTime → Prop) : Operand → Prop
  | date d => p d
  | list items => AllDates p items
  | _ => True

def AllDates (p : DateTime → Prop) : List Operand → Prop
  | [] => True
  | v :: vs => v.Dates p ∧ AllDates p vs

end

def Dated (v : Operand) : Prop :=
  v.Dates DateTime.Returns

mutual

def shown : Operand → Operand
  | date d => date d.shown
  | list items => list (shownAll items)
  | v => v

def shownAll : List Operand → List Operand
  | [] => []
  | v :: vs => v.shown :: shownAll vs

end

mutual

@[simp] theorem stored_shown (v : Operand) : v.shown.stored = v.stored := by
  match v with
  | .date d => simp [shown, stored, DateTime.text, d.render_shown]
  | .list vs => simp [shown, stored, storedAll_shown vs]
  | .null | .string _ | .bool _ | .number _ => rfl

theorem storedAll_shown (vs : List Operand) : storedAll (shownAll vs) = storedAll vs := by
  match vs with
  | [] => rfl
  | v :: vs => simp [shownAll, storedAll, stored_shown v, storedAll_shown vs]

end

mutual

theorem dated_shown (v : Operand) (years : v.Dates DateTime.FourDigits) : v.shown.Dated := by
  match v with
  | .date d => exact ⟨years, d.time.regular_shown⟩
  | .list vs => exact allDates_shown vs years
  | .null | .string _ | .bool _ | .number _ => trivial

theorem allDates_shown (vs : List Operand) (years : AllDates DateTime.FourDigits vs) :
    AllDates DateTime.Returns (shownAll vs) := by
  match vs with
  | [] => trivial
  | v :: vs => exact ⟨dated_shown v years.1, allDates_shown vs years.2⟩

end

mutual

theorem shown_eq_self_iff (v : Operand) : v.shown = v ↔ v.Dates fun d => d.time.Regular := by
  match v with
  | .date d => simp [shown, Dates, DateTime.shown_eq_self_iff]
  | .list vs => simp [shown, Dates, shownAll_eq_self_iff vs]
  | .null | .string _ | .bool _ | .number _ => simp [shown, Dates]

theorem shownAll_eq_self_iff (vs : List Operand) :
    shownAll vs = vs ↔ AllDates (fun d => d.time.Regular) vs := by
  match vs with
  | [] => simp [shownAll, AllDates]
  | v :: vs => simp [shownAll, AllDates, shown_eq_self_iff v, shownAll_eq_self_iff vs]

end

theorem numberJson_canonical (n : Number) : numberJson n.canonical = (numberJson n).canonical := by
  rcases n.canonical_cases with same | ⟨m, i, rfl, signed, _⟩
  · cases n with
    | float x =>
      rw [same, numberJson]
      split <;> simp [Json.canonical, same]
    | int | uint => simp [numberJson, Json.canonical, same]
  · simp [signed, numberJson, Json.canonical]

mutual

theorem json_stored (v : Operand) : v.stored.json = v.json.canonical := by
  match v with
  | .number n => exact numberJson_canonical n
  | .list vs => simp [stored, json, Json.canonical, jsonAll_stored vs]
  | .null | .string _ | .bool _ | .date _ => rfl

theorem jsonAll_stored (vs : List Operand) :
    jsonAll (storedAll vs) = Json.canonicalItems (jsonAll vs) := by
  match vs with
  | [] => rfl
  | v :: vs => simp [storedAll, jsonAll, Json.canonicalItems, json_stored v, jsonAll_stored vs]

end

mutual

theorem json_canonical (v : Operand) : v.canonical.json = v.json.canonical := by
  match v with
  | .number n => exact numberJson_canonical n
  | .list vs => simp [canonical, json, Json.canonical, jsonAll_canonical vs]
  | .null | .string _ | .bool _ | .date _ => rfl

theorem jsonAll_canonical (vs : List Operand) :
    jsonAll (canonicalAll vs) = Json.canonicalItems (jsonAll vs) := by
  match vs with
  | [] => rfl
  | v :: vs =>
    simp [canonicalAll, jsonAll, Json.canonicalItems, json_canonical v, jsonAll_canonical vs]

end

@[simp] theorem text_stored (v : Operand) : v.stored.text = v.text := by
  simp [text, json_stored]

@[simp] theorem text_canonical (v : Operand) : v.canonical.text = v.text := by
  simp [text, json_canonical]

@[simp] theorem plainText_stored (v : Operand) : v.stored.plainText = v.plainText := by
  cases v with
  | list items => exact text_stored (list items)
  | number n => exact n.text_canonical
  | _ => rfl

@[simp] theorem plainText_canonical (v : Operand) : v.canonical.plainText = v.plainText := by
  cases v with
  | list items => exact text_canonical (list items)
  | number n => exact n.text_canonical
  | _ => rfl

@[simp] theorem isNull_canonical (v : Operand) : v.canonical.isNull = v.isNull := by
  cases v <;> rfl

theorem json?_list_inv {vs : List Operand} {j : Json} (written : (list vs).json? = .ok j) :
    ∃ js, jsonAll? vs = .ok js ∧ j = .array js := by
  simp only [json?] at written
  cases items : jsonAll? vs with
  | error e => rw [items] at written; cases written
  | ok js => rw [items] at written; cases written; exact ⟨js, rfl, rfl⟩

theorem jsonAll?_cons_inv {v : Operand} {vs : List Operand} {js : List Json}
    (written : jsonAll? (v :: vs) = .ok js) :
    ∃ i is, v.json? = .ok i ∧ jsonAll? vs = .ok is ∧ js = i :: is := by
  simp only [jsonAll?] at written
  cases first : v.json? with
  | error e => rw [first] at written; cases written
  | ok i =>
    cases rest : jsonAll? vs with
    | error e => rw [first, rest] at written; cases written
    | ok is => rw [first, rest] at written; cases written; exact ⟨i, is, rfl, rfl, rfl⟩

theorem json?_number_inv {n : Number} {j : Json} (written : (number n).json? = .ok j) :
    n.IsFinite ∧ j = .number n := by
  cases n with
  | int n => cases written; exact ⟨trivial, rfl⟩
  | uint n => cases written; exact ⟨trivial, rfl⟩
  | float x =>
    simp only [json?] at written
    split at written
    next finite => cases written; exact ⟨finite, rfl⟩
    next => cases written

mutual

theorem exact_of_json? {v : Operand} {j : Json} (written : v.json? = .ok j) : j.Exact := by
  match v with
  | .number n =>
    obtain ⟨finite, rfl⟩ := json?_number_inv written
    exact finite
  | .list vs =>
    obtain ⟨js, items, rfl⟩ := json?_list_inv written
    exact itemsExact_of_jsonAll? items
  | .null | .string _ | .bool _ | .date _ => cases written; trivial

theorem itemsExact_of_jsonAll? {vs : List Operand} {js : List Json}
    (written : jsonAll? vs = .ok js) : Json.ItemsExact js := by
  match vs with
  | [] => cases written; trivial
  | v :: vs =>
    obtain ⟨i, is, first, rest, rfl⟩ := jsonAll?_cons_inv written
    exact ⟨exact_of_json? first, itemsExact_of_jsonAll? rest⟩

end

mutual

theorem ofJson_canonical {v : Operand} {j : Json} (written : v.json? = .ok j) :
    ofJson j.canonical = .ok v.stored := by
  match v with
  | .number n =>
    obtain ⟨_, rfl⟩ := json?_number_inv written
    rfl
  | .list vs =>
    obtain ⟨js, items, rfl⟩ := json?_list_inv written
    simp [Json.canonical, ofJson, ofJsonAll_canonical items, stored]
  | .null | .string _ | .bool _ | .date _ => cases written; rfl

theorem ofJsonAll_canonical {vs : List Operand} {js : List Json}
    (written : jsonAll? vs = .ok js) :
    ofJsonAll (Json.canonicalItems js) = .ok (storedAll vs) := by
  match vs with
  | [] => cases written; rfl
  | v :: vs =>
    obtain ⟨i, is, first, rest, rfl⟩ := jsonAll?_cons_inv written
    simp only [Json.canonicalItems, ofJsonAll, ofJson_canonical first, ofJsonAll_canonical rest,
      storedAll]
    rfl

end

theorem ofText_written {v : Operand} {s : String} (written : v.text? = .ok s) :
    ofText s = if v.json.fits Json.maxDepth then .ok v.stored else .error .json := by
  unfold text? at written
  cases json : v.json? with
  | error e => rw [json] at written; cases written
  | ok j =>
    rw [json] at written
    cases written
    have exact := exact_of_json? json
    have shown : (Text.trim j.text.toList).isEmpty = false := by
      simpa using Json.trim_text_ne_nil exact
    rw [json_of_json? json]
    cases fits : j.fits Json.maxDepth <;>
      simp [ofText, shown, Json.parse_text exact, fits, ofJson_canonical json]

theorem ofText_text? {v : Operand} {s : String} (written : v.text? = .ok s)
    (fits : v.json.fits Json.maxDepth = true) : ofText s = .ok v.stored := by
  rw [ofText_written written, if_pos fits]

end EntityQuery.Operand
