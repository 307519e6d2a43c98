set_option autoImplicit false

namespace EntityQuery.Text

def blankRanges : List (Nat × Nat) :=
  [(0x09, 0x0D), (0x20, 0x20), (0x85, 0x85), (0xA0, 0xA0), (0x1680, 0x1680), (0x2000, 0x200A),
   (0x2028, 0x2029), (0x202F, 0x202F), (0x205F, 0x205F), (0x3000, 0x3000)]

def isBlank (c : Char) : Bool :=
  blankRanges.any fun r => r.1 ≤ c.toNat && c.toNat ≤ r.2

def trimStart (cs : List Char) : List Char :=
  cs.dropWhile isBlank

def trimEnd (cs : List Char) : List Char :=
  (trimStart cs.reverse).reverse

def trim (cs : List Char) : List Char :=
  trimEnd (trimStart cs)

theorem head_trimStart (cs : List Char) : ∀ c ∈ (trimStart cs).head?, isBlank c = false := by
  induction cs with
  | nil => simp [trimStart]
  | cons c cs ih =>
    by_cases h : isBlank c
    · simpa [trimStart, h] using ih
    · simp [trimStart, h]

theorem trimStart_eq_self {cs : List Char} (h : ∀ c ∈ cs.head?, isBlank c = false) :
    trimStart cs = cs := by
  cases cs with
  | nil => rfl
  | cons c cs => simp [trimStart, h c (by simp)]

@[simp] theorem trimStart_trimStart (cs : List Char) : trimStart (trimStart cs) = trimStart cs :=
  trimStart_eq_self (head_trimStart cs)

@[simp] theorem trimEnd_trimEnd (cs : List Char) : trimEnd (trimEnd cs) = trimEnd cs := by
  simp [trimEnd]

theorem trimEnd_isPrefix (cs : List Char) : trimEnd cs <+: cs := by
  have h : trimStart cs.reverse <:+ cs.reverse := List.dropWhile_suffix _
  simpa [trimEnd] using List.reverse_prefix.2 h

@[simp] theorem trimStart_trim (cs : List Char) : trimStart (trim cs) = trim cs := by
  apply trimStart_eq_self
  intro c h
  -- What is trimmed at the end begins as what is trimmed at the start does.
  obtain ⟨rest, e⟩ := trimEnd_isPrefix (trimStart cs)
  apply head_trimStart cs
  rw [← e]
  cases h' : trimEnd (trimStart cs) with
  | nil => simp [trim, h'] at h
  | cons d ds => simpa [trim, h'] using h

@[simp] theorem trim_trim (cs : List Char) : trim (trim cs) = trim cs := by
  rw [trim, trimStart_trim]
  simp [trim]

def trimmed (s : String) : String :=
  String.ofList (trim s.toList)

end EntityQuery.Text
