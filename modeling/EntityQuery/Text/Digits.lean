set_option autoImplicit false

namespace EntityQuery.Text

def natOf (ds : List Char) : Nat :=
  Nat.ofDigitChars 10 ds 0

def digitsOf (n : Nat) : List Char :=
  Nat.toDigits 10 n

@[simp] theorem natOf_digitsOf (n : Nat) : natOf (digitsOf n) = n :=
  Nat.ofDigitChars_ten_toDigits

def padded (width n : Nat) : List Char :=
  List.replicate (width - (digitsOf n).length) '0' ++ digitsOf n

@[simp] theorem natOf_padded (width n : Nat) : natOf (padded width n) = n := by
  rw [natOf, padded, Nat.ofDigitChars_append, Nat.ofDigitChars_replicate_zero, Nat.mul_zero]
  exact natOf_digitsOf n

def spanDigits (most : Nat) (cs : List Char) : List Char × List Char :=
  let run := (cs.take most).takeWhile Char.isDigit
  (run, cs.drop run.length)

def digitRun? (cs : List Char) : Option (List Char × List Char) :=
  if (cs.takeWhile Char.isDigit).isEmpty then none
  else some (cs.takeWhile Char.isDigit, cs.dropWhile Char.isDigit)

theorem length_of_digitRun? {cs ds rest : List Char} (h : digitRun? cs = some (ds, rest)) :
    rest.length < cs.length := by
  unfold digitRun? at h
  split at h
  · simp at h
  · rename_i hne
    cases h
    cases cs with
    | nil => simp at hne
    | cons c cs =>
      have hc : c.isDigit = true := by
        by_cases hc : c.isDigit = true
        · exact hc
        · simp [hc] at hne
      rw [List.dropWhile_cons_of_pos hc]
      exact Nat.lt_succ_of_le (List.dropWhile_sublist _).length_le

def spanSign : List Char → Bool × List Char
  | '-' :: cs => (true, cs)
  | '+' :: cs => (false, cs)
  | cs => (false, cs)

theorem length_spanSign (cs : List Char) : (spanSign cs).2.length ≤ cs.length := by
  unfold spanSign
  split <;> simp

-- The digits that stand for `0` in the scripts read: extended Arabic-Indic and Arabic-Indic.
def localZeros : List Nat := [0x06F0, 0x0660]

def toAsciiDigit (c : Char) : Char :=
  match localZeros.find? fun z => z ≤ c.toNat && c.toNat ≤ z + 9 with
  | some z => Char.ofNat ('0'.toNat + (c.toNat - z))
  | none => c

def normalizeDigits (cs : List Char) : List Char :=
  (cs.filter (· != ',')).map toAsciiDigit

end EntityQuery.Text
