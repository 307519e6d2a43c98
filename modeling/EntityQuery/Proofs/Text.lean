import Mathlib.Data.List.TakeWhile
import Mathlib.Tactic.Ring
import EntityQuery.Text.Blank
import EntityQuery.Text.Digits

set_option autoImplicit false

namespace EntityQuery.Text

theorem last_trimEnd (cs : List Char) : ∀ c ∈ (trimEnd cs).getLast?, isBlank c = false := by
  simpa [trimEnd] using head_trimStart cs.reverse

theorem trimEnd_eq_self {cs : List Char} (h : ∀ c ∈ cs.getLast?, isBlank c = false) :
    trimEnd cs = cs := by
  rw [trimEnd, trimStart_eq_self (by simpa using h), List.reverse_reverse]

theorem trim_eq_self {cs : List Char} (first : ∀ c ∈ cs.head?, isBlank c = false)
    (last : ∀ c ∈ cs.getLast?, isBlank c = false) : trim cs = cs := by
  rw [trim, trimStart_eq_self first, trimEnd_eq_self last]

theorem trimEnd_cons (c : Char) (cs : List Char) :
    trimEnd (c :: cs) = if trimEnd cs = [] ∧ isBlank c = true then [] else c :: trimEnd cs := by
  by_cases blank : trimStart cs.reverse = []
  · have none : (List.dropWhile isBlank cs.reverse).isEmpty = true := by
      simpa [trimStart] using blank
    by_cases first : isBlank c = true <;>
      simp [trimEnd, trimStart, List.dropWhile_append, first, List.isEmpty_iff.1 none]
  · have some : (List.dropWhile isBlank cs.reverse).isEmpty = false := by
      simpa [trimStart] using blank
    simp [trimEnd, trimStart, List.dropWhile_append, some, List.isEmpty_eq_false_iff.1 some]

theorem trimEnd_cons_congr {cs ds : List Char} (same : trimEnd cs = trimEnd ds) (c : Char) :
    trimEnd (c :: cs) = trimEnd (c :: ds) := by
  rw [trimEnd_cons, trimEnd_cons, same]

theorem trimStart_cons_blank {c : Char} (blank : isBlank c = true) (cs : List Char) :
    trimStart (c :: cs) = trimStart cs :=
  List.dropWhile_cons_of_pos blank

theorem trimStart_trimEnd (cs : List Char) : trimStart (trimEnd cs) = trim cs := by
  induction cs with
  | nil => rfl
  | cons c cs ih =>
    cases blank : isBlank c with
    | true =>
      rw [trim, trimStart_cons_blank blank, ← trim, ← ih, trimEnd_cons]
      split
      next none => rw [none.1]
      next => exact trimStart_cons_blank blank _
    | false =>
      have kept : trimStart (c :: cs) = c :: cs := trimStart_eq_self (by simpa using blank)
      rw [trim, kept, trimEnd_cons, if_neg (by simp [blank])]
      exact trimStart_eq_self (by simpa using blank)

theorem trim_sublist (cs : List Char) : (trim cs).Sublist cs :=
  (trimEnd_isPrefix _).sublist.trans (List.dropWhile_sublist _)

theorem mem_trim {c : Char} {cs : List Char} (member : c ∈ cs) (shown : isBlank c = false) :
    c ∈ trim cs := by
  have kept {ds : List Char} (member : c ∈ ds) : c ∈ trimStart ds := by
    rw [← List.takeWhile_append_dropWhile (p := isBlank) (l := ds), List.mem_append] at member
    refine member.resolve_left fun blank => ?_
    rw [List.mem_takeWhile_imp blank] at shown
    cases shown
  exact List.mem_reverse.2 (kept (List.mem_reverse.2 (kept member)))

theorem head_trim (cs : List Char) : ∀ c ∈ (trim cs).head?, isBlank c = false := by
  rw [← trimStart_trim]
  exact head_trimStart _

theorem last_trim (cs : List Char) : ∀ c ∈ (trim cs).getLast?, isBlank c = false :=
  last_trimEnd _

theorem isBlank_of_isDigit {c : Char} (digit : c.isDigit = true) : isBlank c = false := by
  obtain ⟨least, most⟩ := Char.isDigit_iff_toNat.1 digit
  simp only [Char.reduceToNat] at least most
  simp [isBlank, blankRanges]
  omega

theorem trim_cons_ne_nil {c : Char} (shown : isBlank c = false) (cs : List Char) :
    trim (c :: cs) ≠ [] := by
  intro blank
  have last := last_trim (c :: cs)
  have all : ∀ d ∈ (c :: cs).reverse, isBlank d = true := by
    rw [trim, trimStart_eq_self (by simpa using shown), trimEnd, List.reverse_eq_nil_iff] at blank
    exact List.dropWhile_eq_nil_iff.1 blank
  have first := all c (by simp)
  rw [shown] at first
  cases first

theorem head?_trim (cs : List Char) : (trim cs).head? = cs.find? fun c => !isBlank c := by
  have first : cs.find? (fun c => !isBlank c) = (trimStart cs).head? := by
    simp [List.find?_eq_head?_dropWhile_not, trimStart]
  rw [first]
  cases start : trimStart cs with
  | nil =>
    rw [trim, start]
    rfl
  | cons c rest =>
    have shown : isBlank c = false := head_trimStart cs c (by simp [start])
    have begins := trim_cons_ne_nil shown rest
    have front := trimEnd_isPrefix (c :: rest)
    rw [trim, trimStart_eq_self (by simpa using shown)] at begins
    obtain ⟨d, ds, first⟩ := List.exists_cons_of_ne_nil begins
    rw [first, List.cons_prefix_cons] at front
    rw [trim, start, first, front.1]
    rfl

theorem filter_trim {p : Char → Bool} (blank : ∀ c, isBlank c = true → p c = false) (cs : List Char) :
    (trim cs).filter p = cs.filter p := by
  have start (ds : List Char) : (trimStart ds).filter p = ds.filter p := by
    have none : (ds.takeWhile isBlank).filter p = [] :=
      List.filter_eq_nil_iff.2 fun c member => by simp [blank c (List.mem_takeWhile_imp member)]
    have parts := congrArg (List.filter p) (List.takeWhile_append_dropWhile (p := isBlank) (l := ds))
    rwa [List.filter_append, none] at parts
  rw [trim, trimEnd, List.filter_reverse, start, ← List.filter_reverse, List.reverse_reverse, start]

theorem ne_of_isDigit {c d : Char} (digit : c.isDigit = true) (other : d.isDigit = false) : c ≠ d := by
  rintro rfl
  rw [digit] at other
  cases other

theorem digitsOf_bounds {n : Nat} (nonzero : n ≠ 0) :
    10 ^ ((digitsOf n).length - 1) ≤ n ∧ n < 10 ^ (digitsOf n).length := by
  have some : 0 < (digitsOf n).length := Nat.length_toDigits_pos
  constructor
  next =>
    by_cases single : (digitsOf n).length = 1
    next => simpa [single] using Nat.one_le_iff_ne_zero.2 nonzero
    next =>
      by_contra less
      have short := (Nat.length_toDigits_le_iff (by decide) (by omega)).2 (not_le.1 less)
      rw [digitsOf] at short some
      omega
  next => exact (Nat.length_toDigits_le_iff (by decide) some).1 (le_refl _)

theorem isDigit_of_mem_digitsOf {n : Nat} {c : Char} (member : c ∈ digitsOf n) : c.isDigit = true :=
  Nat.isDigit_of_mem_toDigits (by decide) (by decide) member

theorem digitsOf_ne_nil (n : Nat) : digitsOf n ≠ [] :=
  Nat.toDigits_ne_nil

theorem natOf_append (ds es : List Char) : natOf (ds ++ es) = 10 ^ es.length * natOf ds + natOf es := by
  rw [natOf, Nat.ofDigitChars_append, Nat.ofDigitChars_eq_ofDigitChars_zero]
  rfl

theorem natOf_lt {ds : List Char} (digits : ∀ c ∈ ds, c.isDigit = true) :
    natOf ds < 10 ^ ds.length := by
  induction ds with
  | nil => decide
  | cons c ds ih =>
    have rest := ih fun d member => digits d (.tail c member)
    have first := (Char.isDigit_iff_toNat.1 (digits c (.head ds))).2
    have single : natOf [c] ≤ 9 := by
      simp only [natOf, Nat.ofDigitChars_cons, Nat.ofDigitChars_nil]
      simp only [Char.reduceToNat] at first ⊢
      omega
    have all := natOf_append [c] ds
    rw [List.singleton_append] at all
    rw [all, List.length_cons, Nat.pow_succ]
    have scaled := Nat.mul_le_mul_left (10 ^ ds.length) single
    omega

theorem natOf_zeros_append (k : Nat) (ds : List Char) :
    natOf (List.replicate k '0' ++ ds) = natOf ds := by
  simp [natOf, Nat.ofDigitChars_append]

theorem signed_natOf (i : Int) :
    (if decide (i < 0) = true then -(natOf (digitsOf i.natAbs) : Int)
      else natOf (digitsOf i.natAbs)) = i := by
  rw [natOf_digitsOf]
  by_cases below : i < 0
  · rw [decide_eq_true below, if_pos rfl]
    omega
  · rw [decide_eq_false below, if_neg (by decide)]
    omega

theorem head?_digitsOf {n : Nat} (nonzero : n ≠ 0) : (digitsOf n).head? ≠ some '0' := by
  have small : ∀ k < 10, k ≠ 0 → Nat.digitChar k ≠ '0' := by decide
  induction n using Nat.strongRecOn with
  | ind n ih =>
    rw [digitsOf, Nat.toDigits_eq_if (by decide)]
    split
    next less => simpa using small n less nonzero
    next more =>
      have before := ih (n / 10) (by omega) (by omega)
      obtain ⟨c, cs, first⟩ := List.exists_cons_of_ne_nil (digitsOf_ne_nil (n / 10))
      rw [digitsOf] at before first
      simpa [first] using before

theorem digitRun?_append {ds rest : List Char} (nonempty : ds ≠ [])
    (digits : ∀ c ∈ ds, c.isDigit = true) (ends : ∀ c ∈ rest.head?, c.isDigit = false) :
    digitRun? (ds ++ rest) = some (ds, rest) := by
  have run : (ds ++ rest).takeWhile Char.isDigit = ds := by
    rw [List.takeWhile_append_of_pos digits]
    cases rest with
    | nil => simp
    | cons c rest => simp [ends c (by simp)]
  have after : (ds ++ rest).dropWhile Char.isDigit = rest := by
    rw [List.dropWhile_append_of_pos digits]
    cases rest with
    | nil => rfl
    | cons c rest => simp [ends c (by simp)]
  simp [digitRun?, run, after, nonempty]

theorem spanSign_unsigned {cs : List Char} (minus : '-' ∉ cs) (plus : '+' ∉ cs) :
    spanSign cs = (false, cs) := by
  unfold spanSign
  split
  next => exact absurd (.head _) minus
  next => exact absurd (.head _) plus
  next => rfl

theorem spanSign_digits {ds : List Char} (digits : ∀ c ∈ ds, c.isDigit = true) :
    spanSign ds = (false, ds) := by
  have apart {c : Char} (other : c.isDigit = false) : c ∉ ds := fun member =>
    ne_of_isDigit (digits c member) other rfl
  exact spanSign_unsigned (apart rfl) (apart rfl)

theorem isDigit_of_mem_padded {width n : Nat} {c : Char} (member : c ∈ padded width n) :
    c.isDigit = true := by
  rcases List.mem_append.1 member with zero | digit
  · rw [(List.mem_replicate.1 zero).2]
    decide
  · exact isDigit_of_mem_digitsOf digit

theorem length_padded {width n : Nat} (positive : 0 < width) (fits : n < 10 ^ width) :
    (padded width n).length = width := by
  have short := (Nat.length_toDigits_le_iff (by decide) positive).2 fits
  simp only [padded, List.length_append, List.length_replicate, digitsOf]
  omega

theorem toAsciiDigit_eq_self {c : Char} (low : c.toNat < 0x660) : toAsciiDigit c = c := by
  have none : (localZeros.find? fun z => z ≤ c.toNat && c.toNat ≤ z + 9) = none := by
    simp [localZeros]
    omega
  simp [toAsciiDigit, none]

theorem normalizeDigits_eq_self {cs : List Char} (plain : ∀ c ∈ cs, c ≠ ',' ∧ c.toNat < 0x660) :
    normalizeDigits cs = cs := by
  have kept : cs.filter (· != ',') = cs := by
    rw [List.filter_eq_self]
    exact fun c member => by simpa using (plain c member).1
  have unchanged : ∀ c ∈ cs, toAsciiDigit c = c := fun c member => toAsciiDigit_eq_self (plain c member).2
  rw [normalizeDigits, kept, List.map_congr_left unchanged, List.map_id']

end EntityQuery.Text
