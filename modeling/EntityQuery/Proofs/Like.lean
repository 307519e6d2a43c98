import EntityQuery.Clause.Like

set_option autoImplicit false

namespace EntityQuery.Like

def Mode.Occurs (mode : Mode) (needle text : List Char) : Prop :=
  match mode with
  | anywhere => needle <:+: text
  | atStart => needle <+: text
  | atEnd => needle <:+ text

namespace Mode

variable {needle text : List Char}

theorem finds_iff (mode : Mode) : mode.finds needle text = true ↔ mode.Occurs needle text := by
  cases mode with
  | anywhere => exact Text.occursIn_iff needle text
  | atStart => exact List.isPrefixOf_iff_prefix
  | atEnd => exact List.isSuffixOf_iff_suffix

theorem occurs_self (mode : Mode) (text : List Char) : mode.Occurs text text := by
  cases mode with
  | anywhere => exact List.infix_rfl
  | atStart => exact List.prefix_rfl
  | atEnd => exact List.suffix_rfl

theorem Occurs.sublist {mode : Mode} (found : mode.Occurs needle text) : needle.Sublist text := by
  cases mode with
  | anywhere => exact List.IsInfix.sublist found
  | atStart => exact List.IsPrefix.sublist found
  | atEnd => exact List.IsSuffix.sublist found

end Mode

inductive Matches (declared : Bool) : List Char → List Char → Prop where
  | done : Matches declared [] []
  | run (skipped : List Char) {pattern text : List Char} (rest : Matches declared pattern text) :
      Matches declared ('%' :: pattern) (skipped ++ text)
  | any (c : Char) {pattern text : List Char} (rest : Matches declared pattern text) :
      Matches declared ('_' :: pattern) (c :: text)
  | escaped (escapes : declared = true) (c : Char) {pattern text : List Char}
      (rest : Matches declared pattern text) : Matches declared (escapeMark :: c :: pattern) (c :: text)
  | plain {c : Char} (tame : c ≠ '%' ∧ c ≠ '_') (shown : declared = true → c ≠ escapeMark)
      {pattern text : List Char} (rest : Matches declared pattern text) :
      Matches declared (c :: pattern) (c :: text)

variable {declared : Bool} {needle pattern text : List Char}

theorem matches_nil_iff : Matches declared [] text ↔ text = [] := by
  constructor
  · rintro ⟨⟩
    rfl
  · rintro rfl
    exact .done

theorem matches_run_iff : Matches declared ('%' :: pattern) text ↔
    ∃ skipped rest, text = skipped ++ rest ∧ Matches declared pattern rest := by
  constructor
  · intro found
    cases found with
    | run skipped rest => exact ⟨skipped, _, rfl, rest⟩
    | plain tame => exact absurd rfl tame.1
  · rintro ⟨skipped, rest, rfl, found⟩
    exact .run skipped found

theorem matches_char_iff {c : Char} (escapes : isSpecial c = true → declared = true) :
    Matches declared ((if isSpecial c then [escapeMark, c] else [c]) ++ pattern) text ↔
      ∃ rest, text = c :: rest ∧ Matches declared pattern rest := by
  split
  next special =>
    constructor
    · intro found
      cases found with
      | escaped _ _ rest => exact ⟨_, rfl, rest⟩
      | plain _ shown => exact absurd rfl (shown (escapes special))
    · rintro ⟨rest, rfl, found⟩
      exact .escaped (escapes special) c found
  next ordinary =>
    simp only [isSpecial, Bool.or_eq_true, decide_eq_true_eq, not_or] at ordinary
    obtain ⟨⟨mark, percent⟩, low⟩ := ordinary
    constructor
    · intro found
      cases found with
      | run => exact absurd rfl percent
      | any => exact absurd rfl low
      | escaped => exact absurd rfl mark
      | plain _ _ rest => exact ⟨_, rfl, rest⟩
    · rintro ⟨rest, rfl, found⟩
      exact .plain ⟨percent, low⟩ (fun _ => mark) found

theorem matches_escape_iff (escapes : ∀ c ∈ needle, isSpecial c = true → declared = true) :
    Matches declared (escape needle ++ pattern) text ↔
      ∃ rest, text = needle ++ rest ∧ Matches declared pattern rest := by
  induction needle generalizing text with
  | nil => simp [escape]
  | cons c needle ih =>
    obtain ⟨first, more⟩ := List.forall_mem_cons.1 escapes
    have parts : escape (c :: needle) ++ pattern =
        (if isSpecial c then [escapeMark, c] else [c]) ++ (escape needle ++ pattern) := by
      simp [escape]
    rw [parts, matches_char_iff first]
    constructor
    · rintro ⟨after, rfl, found⟩
      obtain ⟨rest, rfl, ends⟩ := (ih more).1 found
      exact ⟨rest, rfl, ends⟩
    · rintro ⟨rest, rfl, found⟩
      exact ⟨needle ++ rest, rfl, (ih more).2 ⟨rest, rfl, found⟩⟩

theorem length_escape (needle : List Char) :
    (escape needle).length = needle.length + needle.countP isSpecial := by
  induction needle with
  | nil => rfl
  | cons c needle ih =>
    simp only [escape] at ih
    by_cases special : isSpecial c = true <;> simp [escape, special, ih] <;> omega

theorem declaresEscape_eq (needle : List Char) : declaresEscape needle = needle.any isSpecial := by
  rw [declaresEscape, length_escape, Bool.eq_iff_iff]
  simp

theorem Mode.matches_pattern_iff (mode : Mode) (needle text : List Char) :
    Matches (declaresEscape needle) (mode.pattern needle) text ↔ mode.Occurs needle text := by
  have escapes : ∀ c ∈ needle, isSpecial c = true → declaresEscape needle = true :=
    fun c member special => declaresEscape_eq needle ▸ List.any_eq_true.2 ⟨c, member, special⟩
  generalize declaresEscape needle = declared at escapes
  have tail (rest : List Char) : Matches declared ['%'] rest :=
    matches_run_iff.2 ⟨rest, [], (List.append_nil rest).symm, .done⟩
  have last {text : List Char} : Matches declared (escape needle) text ↔ text = needle := by
    have whole : Matches declared (escape needle ++ []) text ↔ _ := matches_escape_iff escapes
    simpa [matches_nil_iff] using whole
  cases mode with
  | anywhere =>
    constructor
    · intro found
      obtain ⟨before, rest, rfl, ends⟩ := matches_run_iff.1 found
      obtain ⟨after, rfl, -⟩ := (matches_escape_iff escapes).1 ends
      exact ⟨before, after, List.append_assoc ..⟩
    · rintro ⟨before, after, rfl⟩
      rw [List.append_assoc]
      exact .run before ((matches_escape_iff escapes).2 ⟨after, rfl, tail after⟩)
  | atStart =>
    constructor
    · intro found
      obtain ⟨after, rfl, -⟩ := (matches_escape_iff escapes).1 found
      exact ⟨after, rfl⟩
    · rintro ⟨after, rfl⟩
      exact (matches_escape_iff escapes).2 ⟨after, rfl, tail after⟩
  | atEnd =>
    constructor
    · intro found
      obtain ⟨before, rest, rfl, ends⟩ := matches_run_iff.1 found
      exact ⟨before, by rw [last.1 ends]⟩
    · rintro ⟨before, rfl⟩
      exact .run before (last.2 rfl)

end EntityQuery.Like
