import EntityQuery.FullText
import EntityQuery.Proofs.Encoding
import EntityQuery.Proofs.Letters
import EntityQuery.Proofs.Membership
import EntityQuery.Proofs.Searching

set_option autoImplicit false

namespace EntityQuery

open Text

namespace Operand

-- The string stands at a place of the operand: the place tells which item of each list to look
-- into.
inductive Holds (s : String) : List Nat → Operand → Prop where
  | here : Holds s [] (.string s)
  | item {i : Nat} {place : List Nat} {items : List Operand} {v : Operand}
      (found : items[i]? = some v) (inside : Holds s place v) : Holds s (i :: place) (.list items)

end Operand

def Kind.strings : Nat → Kind
  | 0 => .string
  | depth + 1 => .collection (strings depth)

namespace Operand

variable {s : String} {place : List Nat} {v w : Operand}

theorem exists_coerce_string_iff {nullable : Bool} :
    (∃ w, v.coerce .string nullable = .ok w) ↔ ∀ ws, v ≠ list ws := by
  cases v <;> simp [coerce, isNull, isOf, refused]

theorem getElem?_of_coerceAll {vs ws : List Operand} {k : Kind} (coerced : coerceAll vs k = .ok ws)
    {i : Nat} (found : vs[i]? = some v) : ∃ w, ws[i]? = some w ∧ v.coerce k true = .ok w := by
  induction vs generalizing ws i with
  | nil => cases found
  | cons first vs ih =>
    obtain ⟨w, single, coerced⟩ := Resolving.ok_of_bind coerced
    obtain ⟨ws, others, kept⟩ := Resolving.ok_of_bind coerced
    cases kept
    cases i with
    | zero =>
      cases found
      exact ⟨w, rfl, single⟩
    | succ i => exact ih others found

theorem Holds.coerce (holds : Holds s place v) {nullable : Bool}
    (coerced : v.coerce (.strings place.length) nullable = .ok w) : Holds s place w := by
  induction holds generalizing w nullable with
  | here =>
    rw [coerce_of_isOf rfl] at coerced
    cases coerced
    exact .here
  | @item i place items v found inside ih =>
    rw [List.length_cons, Kind.strings, coerce_list] at coerced
    obtain ⟨ws, items, rfl⟩ := Resolving.ok_of_map coerced
    obtain ⟨w, kept, coerced⟩ := getElem?_of_coerceAll items found
    exact .item kept (ih coerced)

theorem getElem?_storedAll (vs : List Operand) (i : Nat) :
    (storedAll vs)[i]? = vs[i]?.map stored := by
  induction vs generalizing i with
  | nil => rfl
  | cons v vs ih => cases i <;> simp [storedAll, ih]

theorem Holds.stored (holds : Holds s place v) : Holds s place v.stored := by
  induction holds with
  | here => exact .here
  | @item i place items v found inside ih =>
    refine .item (v := v.stored) ?_ ih
    rw [getElem?_storedAll, found]
    rfl

theorem fits_of_inhabits {k : Kind} (inhabits : v.Inhabits k) : v.isNull = true ∨ v.isOf k = true := by
  induction inhabits with
  | null => exact .inl rfl
  | string | number | bool | date => exact .inr rfl
  | @list items element each ih =>
    right
    have all : ∀ vs : List Operand, (∀ v ∈ vs, v.isNull = true ∨ v.isOf element = true) →
        allOf vs element = true := by
      intro vs fits
      induction vs with
      | nil => rfl
      | cons v vs ih =>
        rw [allOf, ih fun w member => fits w (.tail v member)]
        simpa using fits v (.head vs)
    exact all items ih

theorem coerce_of_inhabits {k : Kind} (inhabits : v.Inhabits k) (nullable : Bool) :
    v.coerce k nullable = .ok v :=
  coerce_of_fits (fits_of_inhabits inhabits) nullable

end Operand

namespace Clause

-- What is compiled from a string for a string field holds the string as it is given, as the operand
-- and as what text operators look for. Membership holds it in its place among the other items, of
-- which none but a list keeps it from compiling.
structure Carries (p : Path) (op : Operator) (s : String) : Prop where
  equality (asked : op = .equal ∨ op = .notEqual) :
    compile p op (.string s) = .ok ⟨p, op, .string s, .equal op.isNegated⟩
  ordering (asked : op.isOrdering = true) :
    compile p op (.string s) = .ok ⟨p, op, .string s, .order⟩
  text (asked : op.isText = true) :
    compile p op (.string s) = .ok ⟨p, op, .string s, .text (textMode op) s false op.isNegated⟩
  member (asked : op.isMembership = true) {vs : List Operand} {i : Nat} (given : vs[i]? = some (.string s))
      {c : Clause} (compiled : compile p op (.list vs) = .ok c) :
    ∃ ws, c = ⟨p, op, .list ws, .member ws op.isNegated⟩ ∧ ws[i]? = some (.string s)
  compiles (asked : op.isMembership = true) (vs : List Operand) :
    (∃ c, compile p op (.list vs) = .ok c) ↔ ∀ ws, Operand.list ws ∉ vs

theorem carries {p : Path} (kind : p.kind = .string) (op : Operator) (s : String) : Carries p op s where
  equality asked := by
    rw [compile_equality asked (by rw [kind]; rfl), kind, Operand.coerce_of_isOf rfl]
    rfl
  ordering asked := by
    rw [compile_ordering asked (by rw [kind]; rfl) rfl, kind, Operand.coerce_of_isOf rfl]
    rfl
  text asked := compile_string kind asked s
  member := by
    intro asked vs i given c compiled
    rw [compile_membership asked (by rw [kind]; rfl), ← Operand.coerceAll_eq_mapM, kind] at compiled
    obtain ⟨ws, items, rfl⟩ := Resolving.ok_of_map compiled
    obtain ⟨w, kept, coerced⟩ := Operand.getElem?_of_coerceAll items given
    rw [Operand.coerce_of_isOf rfl] at coerced
    cases coerced
    exact ⟨ws, rfl, kept⟩
  compiles asked vs := by
    rw [compile_membership asked (by rw [kind]; rfl), Resolving.exists_map_ok_iff,
      exists_mapM_ok_iff, kind]
    simp only [Operand.exists_coerce_string_iff]
    constructor
    · intro each ws member
      exact each _ member ws rfl
    · rintro none v member ws rfl
      exact none ws member

end Clause

namespace FullText

-- By induction on the text; the characters to come have to fill the bytes that are left.
theorem splitBytes?_eq_some_iff {n : Nat} {cs front rest : List Char} :
    splitBytes? n cs = some (front, rest) ↔ cs = front ++ rest ∧ byteLength front = n := by
  have some_byte (c : Char) (cs : List Char) : 0 < byteLength (c :: cs) := by
    rw [byteLength]
    exact Nat.add_pos_left c.utf8Size_pos _
  induction cs generalizing n front with
  | nil =>
    cases n <;> cases front <;> simp [splitBytes?, byteLength, eq_comm]
  | cons c cs ih =>
    cases n with
    | zero =>
      cases front with
      | nil => simp [splitBytes?, byteLength, eq_comm]
      | cons d front => simp [splitBytes?, (some_byte d front).ne']
    | succ n =>
      rw [splitBytes?]
      by_cases fits : c.utf8Size ≤ n + 1
      next =>
        cases front with
        | nil => simp [fits, byteLength]
        | cons d front =>
          simp only [fits, if_true, Option.map_eq_some_iff, Prod.exists, Prod.mk.injEq, List.cons.injEq,
            List.cons_append, byteLength]
          constructor
          · rintro ⟨front, rest, found, ⟨rfl, rfl⟩, rfl⟩
            obtain ⟨rfl, filled⟩ := ih.1 found
            exact ⟨⟨rfl, rfl⟩, by omega⟩
          · rintro ⟨⟨rfl, rfl⟩, filled⟩
            exact ⟨front, rest, ih.2 ⟨rfl, by omega⟩, ⟨rfl, rfl⟩, rfl⟩
      next =>
        cases front with
        | nil => simp [fits, byteLength]
        | cons d front =>
          simp only [fits, if_false, List.cons_append, List.cons.injEq, byteLength, reduceCtorEq, false_iff]
          rintro ⟨⟨rfl, -⟩, filled⟩
          omega

theorem byteLength_lower (cs : List Char) : byteLength (lower cs) = byteLength cs := by
  induction cs with
  | nil => rfl
  | cons c cs ih => rw [lower, List.map_cons, byteLength, byteLength, utf8Size_toLower, ← lower, ih]

def IsMarker (cs : List Char) : Prop :=
  List.Forall₂ (fun c d => c = d.toLower ∨ c = d.toUpper) cs marker

theorem isMarker_iff (cs : List Char) : IsMarker cs ↔ lower cs = lower marker := by
  simp only [IsMarker, lower, ← toLower_eq_iff]
  rw [← List.forall₂_eq_eq_eq, List.forall₂_map_left_iff, List.forall₂_map_right_iff]

theorem unparenthesized_eq_some_iff {cs inner : List Char} :
    unparenthesized cs = some inner ↔ cs = '(' :: inner ++ [')'] := by
  unfold unparenthesized
  split
  next cs =>
    rw [Option.ite_none_right_eq_some, Option.some.injEq, List.getLast?_eq_some_iff, List.cons_append,
      List.cons.injEq]
    constructor
    · rintro ⟨⟨front, rfl⟩, rfl⟩
      exact ⟨rfl, by rw [List.dropLast_concat]⟩
    · rintro ⟨-, rfl⟩
      exact ⟨⟨inner, rfl⟩, List.dropLast_concat⟩
  next other =>
    constructor
    · rintro ⟨⟩
    · intro same
      exact absurd same (other _)

theorem strip_eq_some_iff {text term : String} : strip text = some term ↔
    ∃ m, IsMarker m ∧ trim text.toList = '(' :: m ++ term.toList ++ [')'] := by
  simp only [strip, Option.bind_eq_bind, Option.bind_eq_some_iff, unparenthesized_eq_some_iff, Prod.exists,
    splitBytes?_eq_some_iff, Option.ite_none_right_eq_some, Option.some.injEq, isMarker_iff]
  constructor
  · rintro ⟨inner, shown, front, rest, ⟨rfl, -⟩, marked, rfl⟩
    exact ⟨front, marked, by simpa using shown⟩
  · rintro ⟨m, marked, shown⟩
    have filled : byteLength m = byteLength marker := by
      rw [← byteLength_lower, marked, byteLength_lower]
    exact ⟨m ++ term.toList, by simpa using shown, m, term.toList, ⟨rfl, filled⟩, marked,
      String.ofList_toList⟩

theorem trim_infix (cs : List Char) : trim cs <:+: cs := by
  have front : trim cs <+: trimStart cs := trimEnd_isPrefix _
  exact front.isInfix.trans (List.dropWhile_suffix _).isInfix

theorem isMarked_of_strip {text term : String} (stripped : strip text = some term) :
    isMarked text = true := by
  obtain ⟨m, marked, shown⟩ := strip_eq_some_iff.1 stripped
  have whole := trim_infix text.toList
  rw [shown] at whole
  have inside : m <:+: text.toList := List.IsInfix.trans ⟨['('], term.toList ++ [')'], by simp⟩ whole
  rw [isMarked, occursIn_iff, ← (isMarker_iff m).1 marked]
  exact inside.map Char.toLower

theorem trim_padded {before after : List Char} (cs : List Char) (blank : ∀ c ∈ before, isBlank c = true)
    (blank' : ∀ c ∈ after, isBlank c = true) : trim (before ++ cs ++ after) = trim cs := by
  have front : trimStart (before ++ (cs ++ after)) = trimStart (cs ++ after) :=
    List.dropWhile_append_of_pos blank
  have back : trimEnd (cs ++ after) = trimEnd cs := by
    rw [trimEnd, List.reverse_append, trimStart, List.dropWhile_append_of_pos (by simpa using blank')]
    rfl
  rw [List.append_assoc, trim, front, ← trim, ← trimStart_trimEnd, back, trimStart_trimEnd]

theorem strip_padded {before m after : List Char} (blank : ∀ c ∈ before, isBlank c = true)
    (blank' : ∀ c ∈ after, isBlank c = true) (marked : IsMarker m) (term : String) :
    strip (String.ofList (before ++ ('(' :: m ++ term.toList ++ [')']) ++ after)) = some term := by
  rw [strip_eq_some_iff]
  refine ⟨m, marked, ?_⟩
  rw [String.toList_ofList, trim_padded _ blank blank']
  refine trim_eq_self (by simp [isBlank, blankRanges]) ?_
  rw [List.getLast?_concat]
  simp [isBlank, blankRanges]

theorem strip_wrap (term : String) : strip (wrap term) = some term := by
  have itself : IsMarker marker := (isMarker_iff marker).2 rfl
  have stripped := @strip_padded [] marker [] (by simp) (by simp) itself term
  simpa [wrap] using stripped

/-- A wrapped term is kept as it is wherever it is an operand: by coercion to strings and to nested lists of
strings, by its own text, and by the clauses of string fields. Stripping gives the term back, with any
white space around it and the marker in any case, and from no text but these. -/
theorem wrap_survives (term : String) :
    (∀ {place : List Nat} {v w : Operand} {nullable : Bool}, v.Holds (wrap term) place →
      v.coerce (.strings place.length) nullable = .ok w → w.Holds (wrap term) place) ∧
    (∀ {depth : Nat} {v : Operand}, v.Inhabits (.strings depth) →
      ∀ nullable, v.coerce (.strings depth) nullable = .ok v) ∧
    (∃ s, (Operand.string (wrap term)).text? = .ok s ∧ Operand.ofText s = .ok (.string (wrap term))) ∧
    (∀ {place : List Nat} {v : Operand} {s : String}, v.Holds (wrap term) place → v.text? = .ok s →
      v.nesting ≤ 127 → ∃ w, Operand.ofText s = .ok w ∧ w.Holds (wrap term) place) ∧
    (∀ {p : Path}, p.kind = .string → ∀ op, Clause.Carries p op (wrap term)) ∧
    isMarked (wrap term) = true ∧ strip (wrap term) = some term ∧
    (∀ {before m after : List Char}, (∀ c ∈ before, isBlank c = true) → (∀ c ∈ after, isBlank c = true) →
      IsMarker m → strip (String.ofList (before ++ ('(' :: m ++ term.toList ++ [')']) ++ after)) =
        some term) ∧
    ∀ text u : String, (strip text = some u ↔
        ∃ m, IsMarker m ∧ trim text.toList = '(' :: m ++ u.toList ++ [')']) ∧
      (strip text = some u → isMarked text = true) := by
  have decoded {v : Operand} {s : String} (written : v.text? = .ok s) (shallow : v.nesting ≤ 127) :
      Operand.ofText s = .ok v.stored := by
    rw [Operand.ofText_written written, if_pos]
    exact (v.fits_json_iff _).2 shallow
  have own := decoded (v := .string (wrap term)) rfl (Nat.zero_le _)
  exact ⟨fun holds coerced => holds.coerce coerced,
    fun fits nullable => Operand.coerce_of_inhabits fits nullable, ⟨_, rfl, own⟩,
    fun holds written shallow => ⟨_, decoded written shallow, holds.stored⟩,
    fun kind op => Clause.carries kind op _, isMarked_of_strip (strip_wrap term), strip_wrap term,
    fun blank blank' marked => strip_padded blank blank' marked term,
    fun text u => ⟨strip_eq_some_iff, isMarked_of_strip⟩⟩

theorem wrap_survives_listed :
    let term := "۱,۲ (\"a\")"
    let marked := Operand.string (wrap term)
    let given : Operand := .list [.list [.string "b"], .list [.number (.int 7), marked]]
    let kept : Operand := .list [.list [.string "b"], .list [.string "7", marked]]
    given.Holds (wrap term) [1, 1] ∧ given.coerce (.strings 2) false = .ok kept ∧
      kept.Holds (wrap term) [1, 1] ∧ kept.Inhabits (.strings 2) ∧
      kept.coerce (.strings 2) true = .ok kept ∧ (∃ s, given.text? = .ok s ∧
        ∃ w, Operand.ofText s = .ok w ∧ w.Holds (wrap term) [1, 1]) ∧
      Clause.Carries (.own "name" .string) .notLike (wrap term) ∧
      strip " (-FULLTEXTSearchInterceptor-۱,۲ (\"a\"))\n" = some term := by
  intro term marked given kept
  obtain ⟨coerced, unchanged, -, decoded, clauses, -, -, padded, -⟩ := wrap_survives term
  have holds : given.Holds (wrap term) [1, 1] := .item rfl (.item rfl .here)
  have result : given.coerce (.strings 2) false = .ok kept := by rfl
  have inhabits : kept.Inhabits (.strings 2) := Operand.inhabits_of_isOf rfl
  refine ⟨holds, result, coerced holds result, inhabits, unchanged inhabits true,
    ⟨_, rfl, decoded holds rfl (by decide)⟩, clauses rfl .notLike, ?_⟩
  have spelled : " (-FULLTEXTSearchInterceptor-۱,۲ (\"a\"))\n" = String.ofList ([' '] ++
      ('(' :: "-FULLTEXTSearchInterceptor-".toList ++ "۱,۲ (\"a\")".toList ++ [')']) ++ ['\n']) := by rfl
  rw [spelled]
  exact padded (List.all_eq_true.1 (by decide)) (List.all_eq_true.1 (by decide))
    ((isMarker_iff _).2 (by decide))

end FullText

end EntityQuery
