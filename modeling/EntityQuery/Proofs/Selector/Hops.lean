import EntityQuery.Selector

set_option autoImplicit false

namespace EntityQuery

def IsIdentifier (cs : List Char) : Prop :=
  ∃ first rest, cs = first :: rest ∧ (first.isAlpha = true ∨ first = '_') ∧
    ∀ c ∈ rest, c.isAlphanum = true ∨ c = '_'

namespace Segment

def text (s : Segment) : List Char :=
  s.name ++ if s.isCall then ['(', ')'] else []

theorem isName_iff (cs : List Char) : isName cs = true ↔ IsIdentifier cs := by
  cases cs with
  | nil => simp [isName, IsIdentifier]
  | cons c cs =>
    simp only [isName, isHead, isTail, Bool.and_eq_true, Bool.or_eq_true, decide_eq_true_eq,
      List.all_eq_true]
    constructor
    · rintro ⟨head, tail⟩
      exact ⟨c, cs, rfl, head, tail⟩
    · rintro ⟨first, rest, same, head, tail⟩
      cases same
      exact ⟨head, tail⟩

theorem isTail_of_isIdentifier {cs : List Char} (named : IsIdentifier cs) :
    ∀ c ∈ cs, isTail c = true := by
  obtain ⟨first, rest, rfl, head, tail⟩ := named
  simp only [isTail, Char.isAlphanum, Bool.or_eq_true, decide_eq_true_eq, List.mem_cons]
    at head tail ⊢
  rintro c (rfl | member)
  · exact head.imp_left .inl
  · exact tail c member

theorem not_isSuffixOf_of_isName {cs : List Char} (name : isName cs = true) :
    ['(', ')'].isSuffixOf cs = false := by
  rw [Bool.eq_false_iff, ne_eq, List.isSuffixOf_iff_suffix]
  rintro ⟨front, rfl⟩
  have closing : isTail ')' = true :=
    isTail_of_isIdentifier ((isName_iff _).1 name) ')' (by simp)
  exact absurd closing (by decide)

theorem read_eq_some_iff {cs : List Char} {s : Segment} :
    read cs = some s ↔ IsIdentifier s.name ∧ cs = s.text := by
  rw [← isName_iff]
  constructor
  · intro found
    cases called : ['(', ')'].isSuffixOf cs with
    | true =>
      simp only [read, called, if_true, Option.ite_none_right_eq_some] at found
      obtain ⟨name, same⟩ := found
      cases same
      obtain ⟨front, rfl⟩ := List.isSuffixOf_iff_suffix.1 called
      exact ⟨name, by simp [text]⟩
    | false =>
      simp only [read, called, Option.ite_none_right_eq_some] at found
      obtain ⟨name, same⟩ := found
      cases same
      exact ⟨name, by simp [text]⟩
  · rintro ⟨name, rfl⟩
    obtain ⟨cs, call⟩ := s
    cases call with
    | true =>
      have called : ['(', ')'].isSuffixOf (cs ++ ['(', ')']) = true :=
        List.isSuffixOf_iff_suffix.2 (List.suffix_append _ _)
      simp [read, text, called, name]
    | false => simp [read, text, not_isSuffixOf_of_isName name, name]

end Segment

def Member.segment (m : Member) : Segment :=
  ⟨m.name.toList, m.access == .method⟩

inductive Hop where
  | member (m : Member)
  | count
  | any

namespace Hop

def step : Hop → Step
  | member m => .member m.name
  | count => .count
  | any => .any

def kind : Hop → Kind
  | member m => m.kind
  | count => .number .uint64
  | any => .bool

def nullable : Hop → Bool
  | member m => m.nullable
  | count | any => false

end Hop

def Kind.typeName (c : Catalog) : Kind → String
  | .entity r => (c.schema r).name
  | k => k.name

namespace Selector

inductive Takes (c : Catalog) : Kind → List Char → Hop → Prop where
  | member {r : SchemaRef} {m : Member} {before after : List Member}
      (declared : (c.schema r).members = before ++ m :: after)
      (first : ∀ other ∈ before, other.name ≠ m.name) (named : IsIdentifier m.name.toList) :
      Takes c (.entity r) m.segment.text (.member m)
  | count {element : Kind} : Takes c (.collection element) "Count()".toList .count
  | any {element : Kind} : Takes c (.collection element) "Any()".toList .any

inductive Breaks (c : Catalog) (selector : String) (k : Kind) (part : List Char) : Error → Prop where
  | malformed (form : ∀ s : Segment, IsIdentifier s.name → part ≠ s.text) :
      Breaks c selector k part (.malformedSelector selector)
  | unknown {s : Segment} (named : IsIdentifier s.name) (form : part = s.text)
      (strays : ∀ h, ¬Takes c k part h) :
      Breaks c selector k part (.unknownMember selector (String.ofList part) (k.typeName c))

variable {c : Catalog} {selector : String} {k : Kind} {part : List Char}

theorem member?_eq_some_iff {s : Schema} {name : String} {m : Member} :
    s.member? name = some m ↔ m.name = name ∧ ∃ before after, s.members = before ++ m :: after ∧
      ∀ other ∈ before, other.name ≠ m.name := by
  simp only [Schema.member?, List.find?_eq_some_iff_append, beq_iff_eq, Bool.not_eq_true',
    beq_eq_false_iff_ne]
  constructor <;> rintro ⟨rfl, found⟩ <;> exact ⟨rfl, found⟩

theorem select_of_takes {h : Hop} (taken : Takes c k part h) :
    select c selector k part = .ok (h.step, h.kind, h.nullable) := by
  cases taken with
  | @member r m before after declared first named =>
    have read : Segment.read m.segment.text = some m.segment :=
      Segment.read_eq_some_iff.2 ⟨named, rfl⟩
    have found : (c.schema r).member? m.name = some m :=
      member?_eq_some_iff.2 ⟨rfl, before, after, declared, first⟩
    have name : String.ofList m.segment.name = m.name := String.ofList_toList
    have called : m.segment.isCall = (m.access == .method) := rfl
    simp [select, read, name, found, called, Hop.step, Hop.kind, Hop.nullable]
  | count => rfl
  | any => rfl

theorem exists_takes {next : Step × Kind × Bool} (selected : select c selector k part = .ok next) :
    ∃ h, Takes c k part h ∧ next = (h.step, h.kind, h.nullable) := by
  unfold select at selected
  split at selected
  next => cases selected
  next s read =>
    obtain ⟨named, rfl⟩ := Segment.read_eq_some_iff.1 read
    obtain ⟨cs, call⟩ := s
    cases k with
    | entity r =>
      simp only at selected
      split at selected
      next m found =>
        split at selected
        next called =>
          cases selected
          obtain ⟨name, before, after, declared, first⟩ := member?_eq_some_iff.1 found
          have spelled : (⟨cs, call⟩ : Segment) = m.segment := by
            simp [Member.segment, name, called]
          rw [spelled] at named ⊢
          exact ⟨.member m, .member declared first named, rfl⟩
        next => cases selected
      next => cases selected
    | collection element =>
      have spelled {name : String} (called : call = true ∧ String.ofList cs = name) :
          Segment.text ⟨cs, call⟩ = name.toList ++ ['(', ')'] := by
        simp [Segment.text, called.1, ← called.2]
      simp only at selected
      split at selected
      next called =>
        cases selected
        rw [spelled called]
        exact ⟨.count, .count, rfl⟩
      next =>
        split at selected
        next called =>
          cases selected
          rw [spelled called]
          exact ⟨.any, .any, rfl⟩
        next => cases selected
    | string | number _ | bool | date => cases selected

theorem breaks_of_select {e : Error} (refused : select c selector k part = .error e) :
    Breaks c selector k part e := by
  have strays (h : Hop) : ¬Takes c k part h := by
    intro taken
    rw [select_of_takes taken] at refused
    cases refused
  cases read : Segment.read part with
  | none =>
    simp only [select, read, Except.error.injEq] at refused
    rw [← refused]
    refine .malformed fun s named form => ?_
    rw [Segment.read_eq_some_iff.2 ⟨named, form⟩] at read
    cases read
  | some s =>
    obtain ⟨named, form⟩ := Segment.read_eq_some_iff.1 read
    have reason : e = .unknownMember selector (String.ofList part) (k.typeName c) := by
      cases k with
      | entity r =>
        simp only [select, read] at refused
        split at refused
        next =>
          split at refused
          next => cases refused
          next => exact (Except.error.inj refused).symm
        next => exact (Except.error.inj refused).symm
      | collection element =>
        simp only [select, read] at refused
        split at refused
        next => cases refused
        next =>
          split at refused
          next => cases refused
          next => exact (Except.error.inj refused).symm
      | string | number _ | bool | date =>
        simp only [select, read, Except.error.injEq] at refused
        exact refused.symm
    rw [reason]
    exact .unknown named form strays

theorem select_eq_error_iff {e : Error} :
    select c selector k part = .error e ↔ Breaks c selector k part e := by
  refine ⟨breaks_of_select, fun breaks => ?_⟩
  cases selected : select c selector k part with
  | ok next =>
    obtain ⟨h, taken, -⟩ := exists_takes selected
    cases breaks with
    | malformed form =>
      cases taken with
      | member _ _ named => exact absurd rfl (form _ named)
      | count => exact absurd rfl (form ⟨"Count".toList, true⟩ ((Segment.isName_iff _).1 rfl))
      | any => exact absurd rfl (form ⟨"Any".toList, true⟩ ((Segment.isName_iff _).1 rfl))
    | unknown _ _ strays => exact absurd taken (strays h)
  | error e' =>
    cases breaks with
    | malformed form =>
      cases breaks_of_select selected with
      | malformed => rfl
      | unknown named same => exact absurd same (form _ named)
    | unknown named same =>
      cases breaks_of_select selected with
      | malformed form => exact absurd same (form _ named)
      | unknown => rfl

end Selector

end EntityQuery
