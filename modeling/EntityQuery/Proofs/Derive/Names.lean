import EntityQuery.Derive
import EntityQuery.Proofs.Letters
import EntityQuery.Proofs.Selector.Hops

set_option autoImplicit false

namespace EntityQuery

open Text

namespace Derive

theorem isSegmentName_iff (cs : List Char) : isSegmentName cs = true ↔ IsIdentifier cs := by
  rw [← Segment.isName_iff]
  rfl

theorem toUpper_eq_underscore_iff (c : Char) : c.toUpper = '_' ↔ c = '_' := by
  have same : c.toUpper = '_'.toUpper ↔ c = '_'.toLower ∨ c = '_'.toUpper := by
    rw [toUpper_eq_iff, toLower_eq_iff]
  simpa using same

-- What comes in front of a character is all that depends on the character before it.
theorem screaming_cons (afterSmall : Bool) (c : Char) (cs : List Char) :
    screaming afterSmall (c :: cs) = (if c.isUpper && afterSmall then ['_'] else []) ++
      c.toUpper :: screaming (!c.isUpper && c != '_') cs := by
  rw [screaming]
  by_cases capital : c.isUpper = true
  next =>
    have kept : c.toUpper = c := Char.toUpper_eq_of_not_isLower (Char.not_isLower_of_isUpper capital)
    cases afterSmall <;> simp [capital, kept]
  next =>
    by_cases underscore : c = '_'
    next => simp [underscore]
    next =>
      have small : (c != '_') = true := by simpa using underscore
      simp [capital, underscore, small]

theorem screaming_eq_nil_iff {afterSmall : Bool} {cs : List Char} :
    screaming afterSmall cs = [] ↔ cs = [] := by
  cases cs with
  | nil => simp [screaming]
  | cons c cs => simp [screaming_cons]

theorem mem_screaming {afterSmall : Bool} {cs : List Char} {d : Char}
    (member : d ∈ screaming afterSmall cs) : d = '_' ∨ ∃ c ∈ cs, d = c.toUpper := by
  induction cs generalizing afterSmall with
  | nil => cases member
  | cons c cs ih =>
    rw [screaming_cons, List.mem_append, List.mem_cons] at member
    rcases member with mark | rfl | later
    · left
      split at mark
      next => simpa using mark
      next => cases mark
    · exact .inr ⟨c, .head cs, rfl⟩
    · exact (ih later).imp_right fun ⟨c, member, same⟩ => ⟨c, .tail _ member, same⟩

theorem not_isLower_of_mem_screaming {afterSmall : Bool} {cs : List Char} {d : Char}
    (member : d ∈ screaming afterSmall cs) : d.isLower = false := by
  rcases mem_screaming member with rfl | ⟨c, -, rfl⟩
  · rfl
  · exact Char.isLower_toUpper_eq_false c

theorem isNameHead_toUpper (c : Char) : isNameHead c.toUpper = isNameHead c := by
  simp [isNameHead, toUpper_eq_underscore_iff]

theorem isNameTail_toUpper (c : Char) : isNameTail c.toUpper = isNameTail c := by
  by_cases small : c.isLower = true
  next =>
    have letter : c.isAlpha = true := by simp [Char.isAlpha, small]
    simp [isNameTail, Char.isAlphanum, letter]
  next => rw [Char.toUpper_eq_of_not_isLower small]

theorem isSegmentName_screaming {cs : List Char} (named : isSegmentName cs = true) :
    isSegmentName (screaming false cs) = true := by
  cases cs with
  | nil => cases named
  | cons c cs =>
    simp only [isSegmentName, Bool.and_eq_true, List.all_eq_true] at named
    have tail : ∀ d ∈ screaming (!c.isUpper && c != '_') cs, isNameTail d = true := by
      intro d member
      rcases mem_screaming member with rfl | ⟨c, inside, rfl⟩
      · rfl
      · rw [isNameTail_toUpper]
        exact named.2 c inside
    rw [screaming_cons, Bool.and_false]
    simpa [isSegmentName, isNameHead_toUpper, named.1] using tail

theorem screaming_eq_underscore_iff {cs : List Char} : screaming false cs = ['_'] ↔ cs = ['_'] := by
  cases cs with
  | nil => simp [screaming]
  | cons c cs => simp [screaming_cons, screaming_eq_nil_iff, toUpper_eq_underscore_iff]

theorem exists_isLower_of_reserved : ∀ word ∈ reservedWords, ∃ c ∈ word.toList, c.isLower = true := by
  have each : reservedWords.all (fun word => word.toList.any Char.isLower) = true := by decide
  simpa using each

theorem isMemberName_iff (cs : List Char) : isMemberName cs = true ↔ IsIdentifier cs ∧ cs ≠ ['_'] := by
  have free : String.ofList (screaming false cs) ∉ reservedWords := by
    intro reserved
    obtain ⟨d, member, small⟩ := exists_isLower_of_reserved _ reserved
    rw [String.toList_ofList] at member
    rw [not_isLower_of_mem_screaming member] at small
    cases small
  simp only [isMemberName, isConstantName, Bool.and_eq_true, isSegmentName_iff, bne_iff_ne, ne_eq,
    screaming_eq_underscore_iff, Bool.not_eq_true', List.contains_eq_mem, decide_eq_false_iff_not, free,
    not_false_eq_true, and_true]
  constructor
  · rintro ⟨named, -, more⟩
    exact ⟨named, more⟩
  · rintro ⟨named, more⟩
    exact ⟨named, (isSegmentName_iff _).1 (isSegmentName_screaming ((isSegmentName_iff cs).2 named)), more⟩

end Derive

end EntityQuery
