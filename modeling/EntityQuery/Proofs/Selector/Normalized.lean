import EntityQuery.Proofs.Text
import EntityQuery.Selector

set_option autoImplicit false

namespace EntityQuery

open Text

theorem isBlank_dot : isBlank '.' = false := by decide

namespace Selector

theorem not_mem_of_mem_splitOn {a : Char} {cs part : List Char} (h : part ∈ cs.splitOn a) :
    a ∉ part := by
  induction cs generalizing part with
  | nil => simp_all [List.splitOn_nil]
  | cons c cs ih =>
    rw [List.splitOn_cons_eq_if_modifyHead] at h
    split at h
    · rcases List.mem_cons.1 h with rfl | h
      · simp
      · exact ih h
    · rename_i different
      cases parts : cs.splitOn a with
      | nil => simp [parts] at h
      | cons first rest =>
        rw [parts] at h ih
        rcases List.mem_cons.1 h with rfl | h
        · have absent := ih (List.mem_cons_self ..)
          have : a ≠ c := fun same => different (by simp [same])
          simp [this, absent]
        · exact ih (List.mem_cons_of_mem _ h)

theorem segments_ne_nil (selector : String) : segments selector ≠ [] := by
  simp [segments, List.splitOn_ne_nil]

theorem trim_of_mem_segments {selector : String} {part : List Char}
    (h : part ∈ segments selector) : trim part = part := by
  obtain ⟨raw, -, rfl⟩ := List.mem_map.1 h
  exact trim_trim raw

theorem dot_not_mem_of_mem_segments {selector : String} {part : List Char}
    (h : part ∈ segments selector) : '.' ∉ part := by
  obtain ⟨raw, member, rfl⟩ := List.mem_map.1 h
  exact fun dot => not_mem_of_mem_splitOn member ((trim_sublist raw).subset dot)

theorem head_intercalate {parts : List (List Char)} (trimmed : ∀ part ∈ parts, trim part = part) :
    ∀ c ∈ (['.'].intercalate parts).head?, isBlank c = false := by
  match parts with
  | [] => simp
  | [part] =>
    rw [List.intercalate_singleton, ← trimmed part (by simp)]
    exact head_trim part
  | [] :: part :: rest => simp [isBlank_dot]
  | (c :: cs) :: part :: rest =>
    have := head_trim (c :: cs)
    rw [trimmed _ (by simp)] at this
    simpa using this

theorem last_intercalate {parts : List (List Char)} (trimmed : ∀ part ∈ parts, trim part = part) :
    ∀ c ∈ (['.'].intercalate parts).getLast?, isBlank c = false := by
  induction parts with
  | nil => simp
  | cons part rest ih =>
    have later := ih fun p h => trimmed p (List.mem_cons_of_mem _ h)
    cases rest with
    | nil =>
      rw [List.intercalate_singleton, ← trimmed part (by simp)]
      exact last_trim part
    | cons next rest =>
      rw [List.intercalate_cons_cons]
      intro c h
      have last : (['.'].intercalate (next :: rest)).getLast?.getD '.' = c := by
        simpa [List.getLast?_append, List.getLast?_cons] using h
      cases known : (['.'].intercalate (next :: rest)).getLast? with
      | none => simpa [known, ← last] using isBlank_dot
      | some d =>
        simp only [known, Option.getD_some] at last
        exact later c (by simp [known, last])

theorem trim_join (selector : String) :
    trim (normalized selector).toList = ['.'].intercalate (segments selector) := by
  have trimmed := fun part (h : part ∈ segments selector) => trim_of_mem_segments h
  simpa [normalized, join] using
    trim_eq_self (head_intercalate trimmed) (last_intercalate trimmed)

theorem segments_normalized (selector : String) :
    segments (normalized selector) = segments selector := by
  have trimmed := fun part (h : part ∈ segments selector) => trim_of_mem_segments h
  rw [segments, trim_join, List.splitOn_intercalate '.'
    (fun _ h => dot_not_mem_of_mem_segments h) (segments_ne_nil selector)]
  exact (List.map_congr_left trimmed).trans (List.map_id _)

@[simp] theorem normalized_normalized (selector : String) :
    normalized (normalized selector) = normalized selector := by
  rw [normalized, segments_normalized, normalized]

theorem intercalate_eq_nil {parts : List (List Char)}
    (h : ['.'].intercalate parts = []) : parts = [] ∨ parts = [[]] := by
  match parts with
  | [] => simp
  | [part] => simpa using h
  | _ :: _ :: _ => simp at h

theorem trim_normalized_eq_nil (selector : String) :
    trim (normalized selector).toList = [] ↔ trim selector.toList = [] := by
  rw [trim_join]
  constructor
  · intro empty
    rcases intercalate_eq_nil empty with none | single
    · exact absurd none (segments_ne_nil selector)
    · -- The only segment is blank, so the text has no dot and is blank itself.
      obtain ⟨raw, split, blank⟩ := List.map_eq_singleton_iff.1 single
      have whole : ['.'].intercalate ((trim selector.toList).splitOn '.') = trim selector.toList :=
        List.intercalate_splitOn '.'
      rw [split, List.intercalate_singleton] at whole
      rw [← trim_trim, ← whole, blank]
  · intro blank
    have : trim [] = [] := by decide
    simp [segments, blank, this]

theorem resolve_normalized (t : EntityType) (selector : String) :
    resolve t (normalized selector) = resolve t selector := by
  have blank : (trim (normalized selector).toList).isEmpty = (trim selector.toList).isEmpty := by
    rw [Bool.eq_iff_iff, List.isEmpty_iff, List.isEmpty_iff, trim_normalized_eq_nil]
  rw [resolve, resolve, blank, segments_normalized, normalized_normalized]

end Selector

end EntityQuery
