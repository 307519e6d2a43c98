import Mathlib.Data.List.Infix
import EntityQuery.Proofs.Searching
import EntityQuery.Proofs.Selector.Segments

set_option autoImplicit false

namespace EntityQuery

open Text

namespace Like

variable {declared : Bool} {pattern text : List Char}

theorem matches_any_iff : Matches declared ('_' :: pattern) text ↔
    ∃ c rest, text = c :: rest ∧ Matches declared pattern rest := by
  constructor
  · intro found
    cases found with
    | any c rest => exact ⟨c, _, rfl, rest⟩
    | plain tame => exact absurd rfl tame.2
  · rintro ⟨c, rest, rfl, found⟩
    exact .any c found

theorem matches_escaped_iff (escapes : declared = true) : Matches declared (escapeMark :: pattern) text ↔
    ∃ c pattern' rest, pattern = c :: pattern' ∧ text = c :: rest ∧ Matches declared pattern' rest := by
  constructor
  · intro found
    cases found with
    | escaped _ c rest => exact ⟨c, _, _, rfl, rfl, rest⟩
    | plain _ shown => exact absurd rfl (shown escapes)
  · rintro ⟨c, pattern', rest, rfl, rfl, found⟩
    exact .escaped escapes c found

theorem matches_plain_iff {c : Char} (tame : c ≠ '%' ∧ c ≠ '_')
    (shown : declared = true → c ≠ escapeMark) : Matches declared (c :: pattern) text ↔
      ∃ rest, text = c :: rest ∧ Matches declared pattern rest := by
  constructor
  · intro found
    cases found with
    | run => exact absurd rfl tame.1
    | any => exact absurd rfl tame.2
    | escaped escapes => exact absurd rfl (shown escapes)
    | plain _ _ rest => exact ⟨_, rfl, rest⟩
  · rintro ⟨rest, rfl, found⟩
    exact .plain tame shown found

-- Decides on a pattern from left to right, behind an escape character or not. Where `%` stands,
-- every rest of the text is tried.
def fitsFrom (declared : Bool) : Bool → List Char → List Char → Bool
  | escaped, [], text => !escaped && text.isEmpty
  | true, c :: pattern, text => text.head? == some c && fitsFrom declared false pattern text.tail
  | false, c :: pattern, text =>
    if c = '%' then text.tails.any (fitsFrom declared false pattern)
    else if c = '_' then !text.isEmpty && fitsFrom declared false pattern text.tail
    else if declared && c = escapeMark then fitsFrom declared true pattern text
    else text.head? == some c && fitsFrom declared false pattern text.tail

def fits (declared : Bool) (pattern text : List Char) : Bool :=
  fitsFrom declared false pattern text

theorem head?_and_tail {p : List Char → Bool} {c : Char} :
    (text.head? == some c && p text.tail) = true ↔ ∃ rest, text = c :: rest ∧ p rest = true := by
  cases text with
  | nil => simp
  | cons d text =>
    simp only [List.head?_cons, List.tail_cons, Bool.and_eq_true, beq_iff_eq, Option.some.injEq]
    constructor
    · rintro ⟨rfl, found⟩
      exact ⟨text, rfl, found⟩
    · rintro ⟨rest, same, found⟩
      cases same
      exact ⟨rfl, found⟩

theorem nonempty_and_tail {p : List Char → Bool} : (!text.isEmpty && p text.tail) = true ↔
    ∃ c rest, text = c :: rest ∧ p rest = true := by
  cases text with
  | nil => simp
  | cons d text =>
    constructor
    · exact fun found => ⟨d, text, rfl, found⟩
    · rintro ⟨c, rest, same, found⟩
      cases same
      exact found

theorem any_tails {p : List Char → Bool} : text.tails.any p = true ↔
    ∃ skipped rest, text = skipped ++ rest ∧ p rest = true := by
  simp only [List.any_eq_true, List.mem_tails]
  constructor
  · rintro ⟨rest, ⟨skipped, rfl⟩, found⟩
    exact ⟨skipped, rest, rfl, found⟩
  · rintro ⟨skipped, rest, rfl, found⟩
    exact ⟨rest, ⟨skipped, rfl⟩, found⟩

-- Behind an escape character the rest of the pattern is a character that stands for itself.
theorem fitsFrom_iff (pattern text : List Char) :
    (fitsFrom declared false pattern text = true ↔ Matches declared pattern text) ∧
      (fitsFrom declared true pattern text = true ↔ ∃ c pattern' rest,
        pattern = c :: pattern' ∧ text = c :: rest ∧ Matches declared pattern' rest) := by
  induction pattern generalizing text with
  | nil => simp [fitsFrom, matches_nil_iff]
  | cons c pattern ih =>
    constructor
    · by_cases run : c = '%'
      · rw [run, matches_run_iff]
        simp only [fitsFrom, if_true, any_tails, (ih _).1]
      by_cases any : c = '_'
      · rw [any, matches_any_iff]
        simp only [fitsFrom, if_true, Char.reduceEq, if_false, nonempty_and_tail, (ih _).1]
      cases escapes : declared && decide (c = escapeMark) with
      | true =>
        simp only [fitsFrom, run, any, escapes, if_false, if_true, (ih _).2]
        simp only [Bool.and_eq_true, decide_eq_true_eq] at escapes
        rw [escapes.2, matches_escaped_iff escapes.1]
      | false =>
        simp only [fitsFrom, run, any, escapes, if_false, Bool.false_eq_true, head?_and_tail, (ih _).1]
        rw [matches_plain_iff ⟨run, any⟩]
        simpa using escapes
    · simp only [fitsFrom, head?_and_tail, (ih _).1, List.cons.injEq]
      constructor
      · rintro ⟨rest, rfl, found⟩
        exact ⟨c, pattern, rest, ⟨rfl, rfl⟩, rfl, found⟩
      · rintro ⟨_, _, rest, ⟨rfl, rfl⟩, rfl, found⟩
        exact ⟨rest, rfl, found⟩

theorem fits_iff {declared : Bool} {pattern text : List Char} :
    fits declared pattern text = true ↔ Matches declared pattern text :=
  (fitsFrom_iff pattern text).1

example : fits true "%50\\%%".toList "save 50% now".toList = true ∧
    fits true "%50\\%%".toList "5000".toList = false ∧
      fits false "a\\b_".toList "a\\bc".toList = true := by
  decide

def unquote : List Char → Option (List Char × List Char)
  | [] => none
  | '\x27' :: '\x27' :: cs => (unquote cs).map fun (text, rest) => ('\x27' :: text, rest)
  | '\x27' :: cs => some ([], cs)
  | c :: cs => (unquote cs).map fun (text, rest) => (c :: text, rest)

def stated? (condition : List Char) : Option (Bool × List Char) := do
  let (pattern, rest) ← unquote ((condition.dropWhile (· != '\x27')).drop 1)
  if rest = [] then some (false, pattern)
  else if rest = " ESCAPE '\\'".toList then some (true, pattern)
  else none

theorem unquote_double {rest : List Char} (ends : rest.head? ≠ some '\x27') (cs : List Char) :
    unquote (double '\x27' cs ++ '\x27' :: rest) = some (cs, rest) := by
  induction cs with
  | nil =>
    cases rest with
    | nil => rfl
    | cons c rest =>
      have other : c ≠ '\x27' := by simpa using ends
      simp [double, unquote, other]
  | cons c cs ih =>
    by_cases quote : c = '\x27'
    · rw [quote]
      simpa [double, unquote] using ih
    · simpa [double, unquote, quote] using ih

theorem stated?_eq {front : List Char} (unquoted : '\x27' ∉ front) (pattern : List Char)
    (declared : Bool) : stated? (front ++ Clause.literal pattern ++
      if declared then " ESCAPE '\\'".toList else []) = some (declared, pattern) := by
  have before : ∀ c ∈ front, (c != '\x27') = true := by
    intro c member
    rw [bne_iff_ne]
    rintro rfl
    exact unquoted member
  have opened (rest : List Char) : ((front ++ Clause.literal pattern ++ rest).dropWhile
      (· != '\x27')).drop 1 = double '\x27' pattern ++ '\x27' :: rest := by
    rw [List.append_assoc, List.dropWhile_append_of_pos before]
    simp [Clause.literal]
  rw [stated?, opened, unquote_double]
  · cases declared <;> rfl
  · cases declared <;> decide

end Like

namespace Selector

theorem eq_dot_or_mem_of_mem_intercalate {ps : List (List Char)} {c : Char}
    (member : c ∈ ['.'].intercalate ps) : c = '.' ∨ ∃ part ∈ ps, c ∈ part := by
  induction ps with
  | nil => cases member
  | cons part rest ih =>
    cases rest with
    | nil => exact .inr ⟨part, .head _, by simpa using member⟩
    | cons next rest =>
      rw [List.intercalate_cons_cons, List.mem_append, List.mem_append] at member
      rcases member with (here | dot) | later
      · exact .inr ⟨part, .head _, here⟩
      · exact .inl (List.mem_singleton.1 dot)
      · obtain dot | ⟨part', inside, here⟩ := ih later
        · exact .inl dot
        · exact .inr ⟨part', .tail _ inside, here⟩

-- Resolved selectors are made of names, parentheses and dots.
theorem quote_not_mem_of_resolve {t : EntityType} {selector : String} {p : Path}
    (resolved : resolve t selector = .ok p) : '\x27' ∉ p.selector.toList := by
  obtain ⟨named, each⟩ := resolve_inv resolved
  rw [named, normalized, join, String.toList_ofList]
  intro quote
  obtain dot | ⟨part, member, inside⟩ := eq_dot_or_mem_of_mem_intercalate quote
  · cases dot
  · obtain ⟨s, read, -⟩ := each part member
    obtain ⟨name, rfl⟩ := Segment.read_eq_some_iff.1 read
    rcases List.mem_append.1 inside with inName | inCall
    · exact absurd (Segment.isTail_of_isIdentifier name _ inName) (by decide)
    · split at inCall <;> simp at inCall

end Selector

namespace Clause

variable {p : Path} {op : Operator}

theorem compile_text_inv (asked : op.isText = true) {v : Operand} {c : Clause}
    (compiled : compile p op v = .ok c) : ∃ w numeric,
      c = ⟨p, op, w, .text (textMode op) w.plainText numeric op.isNegated⟩ := by
  rw [compile_eq] at compiled
  obtain ⟨x, prepared, rfl⟩ := Resolving.ok_of_map compiled
  rw [prepare_of_isText asked] at prepared
  split at prepared
  next =>
    obtain ⟨_, -, prepared⟩ := Resolving.ok_of_bind prepared
    obtain ⟨w, -, done⟩ := Resolving.ok_of_bind prepared
    cases done
    exact ⟨w, _, rfl⟩
  next =>
    obtain ⟨_, -, prepared⟩ := Resolving.ok_of_bind prepared
    obtain ⟨w, -, done⟩ := Resolving.ok_of_bind prepared
    cases done
    exact ⟨w, _, rfl⟩
  next => cases prepared

theorem quote_not_mem_renderSearched {selector : List Char} (unquoted : '\x27' ∉ selector)
    (mode : Like.Mode) (numeric : Bool) : '\x27' ∉ renderSearched mode numeric selector := by
  cases numeric with
  | false => exact unquoted
  | true => cases mode <;> simp [renderSearched, unquoted]

theorem quote_not_mem_symbol (op : Operator) : '\x27' ∉ op.symbol.toList := by
  cases op <;> decide

theorem stated?_render (unquoted : '\x27' ∉ p.selector.toList) (op : Operator) (v : Operand)
    (mode : Like.Mode) (needle : String) (numeric negate : Bool) :
    Like.stated? (render ⟨p, op, v, .text mode needle numeric negate⟩) =
      some (Like.declaresEscape needle.toList, mode.pattern needle.toList) := by
  have front : '\x27' ∉ renderSearched mode numeric p.selector.toList ++
      ' ' :: op.symbol.toList ++ [' '] := by
    simp [quote_not_mem_renderSearched unquoted, quote_not_mem_symbol]
  rw [← Like.stated?_eq front]
  simp only [render, List.append_assoc, List.cons_append, List.nil_append]

/-- The pattern in the text of a condition on a resolved field stands for exactly the texts that the
operator, if it is not negated, asks for with the plain text of the operand, and a matcher that tries
every run finds it in just these; the escape character counts as one exactly if it is declared. On a
string field every string is an operand, and is its own plain text. -/
theorem rendered_pattern {t : EntityType} {selector : String}
    (resolved : Selector.resolve t selector = .ok p) (asked : op.isText = true) :
    (∀ v c, compile p op v = .ok c → ∃ declared pattern,
      Like.stated? c.render = some (declared, pattern) ∧
        ∀ text, (Like.Matches declared pattern text ↔
            op.positive.Asks c.operand.plainText.toList text) ∧
          (Like.fits declared pattern text = true ↔
            op.positive.Asks c.operand.plainText.toList text)) ∧
    (p.kind = .string →
      ∀ n : String, ∃ c, compile p op (.string n) = .ok c ∧ c.operand.plainText = n) := by
  constructor
  · intro v c compiled
    obtain ⟨w, numeric, rfl⟩ := compile_text_inv asked compiled
    have selected := Selector.quote_not_mem_of_resolve resolved
    have stated := stated?_render selected op w (textMode op) w.plainText numeric op.isNegated
    refine ⟨_, _, stated, fun text => ?_⟩
    have asks : op.positive.Asks w.plainText.toList text ↔
        (textMode op).Occurs w.plainText.toList text := by
      cases op <;> first | rfl | cases asked
    rw [Like.fits_iff, Like.Mode.matches_pattern_iff, asks]
    exact ⟨Iff.rfl, Iff.rfl⟩
  · exact fun kind n => ⟨_, compile_string kind asked n, rfl⟩

theorem rendered_pattern_backslash : ∃ p c,
    Selector.resolve .person "home.city" = .ok p ∧
      compile p .notEndsWith (.string "50%'_\\") = .ok c ∧
      c.render = "home.city NOT LIKE '%50\\%''\\_\\\\' ESCAPE '\\'".toList ∧
      ∃ declared pattern, Like.stated? c.render = some (declared, pattern) ∧
        ∀ text, (Like.Matches declared pattern text ↔ "50%'_\\".toList <:+ text) ∧
          (Like.fits declared pattern text = true ↔ "50%'_\\".toList <:+ text) := by
  obtain ⟨p, resolved⟩ : ∃ p, Selector.resolve .person "home.city" = .ok p := ⟨_, rfl⟩
  have asked : Operator.notEndsWith.isText = true := rfl
  obtain ⟨denotes, every⟩ := rendered_pattern resolved asked
  have kind : p.kind = .string := by
    cases resolved
    rfl
  obtain ⟨c, compiled, operand⟩ := every kind "50%'_\\"
  obtain ⟨declared, pattern, stated, stands⟩ := denotes _ c compiled
  rw [operand] at stands
  refine ⟨p, c, resolved, compiled, ?_, declared, pattern, stated, stands⟩
  cases resolved
  cases compiled
  decide

end Clause

end EntityQuery
