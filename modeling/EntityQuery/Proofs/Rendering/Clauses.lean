import EntityQuery.Proofs.Numeric.Numeral
import EntityQuery.Proofs.Rendering.Reader
import EntityQuery.Proofs.Selector.Segments
import EntityQuery.Proofs.Text

set_option autoImplicit false

namespace EntityQuery

open Text

mutual

def Operand.literals : Operand → List (List Char)
  | .string s => [s.toList]
  | .date d => [d.render]
  | .list items => literalsOf items
  | .null | .number _ | .bool _ => []

def Operand.literalsOf : List Operand → List (List Char)
  | [] => []
  | v :: vs => v.literals ++ literalsOf vs

end

def Clause.literals (c : Clause) : List (List Char) :=
  match c.test with
  | .null _ => []
  | .text mode needle _ _ => mode.pattern needle.toList ::
    if Like.declaresEscape needle.toList then [[Like.escapeMark]] else []
  | .equal _ | .member .. | .order => c.operand.literals

def Catalog.WithoutJoints (c : Catalog) : Prop :=
  ∀ r, ∀ m ∈ (c.schema r).members, sameName "AND" m.name = false ∧ sameName "OR" m.name = false

namespace Rendering

def joint? (word : List Char) : Option Combinator :=
  if lower word = "and".toList then some .and
  else if lower word = "or".toList then some .or
  else none

mutual

def Item.literals : Item → List (List Char)
  | .literal cs => [cs]
  | .group items => literalsOf items
  | .word _ | .mark _ => []

def literalsOf : List Item → List (List Char)
  | [] => []
  | i :: items => i.literals ++ literalsOf items

end

mutual

def Item.isPlain : Item → Bool
  | .word cs => (joint? cs).isNone
  | .group items => allPlain items
  | .literal _ | .mark _ => true

def allPlain : List Item → Bool
  | [] => true
  | i :: items => i.isPlain && allPlain items

end

theorem literalsOf_append (items more : List Item) :
    literalsOf (items ++ more) = literalsOf items ++ literalsOf more := by
  induction items with
  | nil => rfl
  | cons i items ih => simp [literalsOf, ih]

theorem allPlain_iff (items : List Item) : allPlain items = true ↔ ∀ i ∈ items, i.isPlain = true := by
  induction items with
  | nil => simp [allPlain]
  | cons i items ih => simp [allPlain, ih]

theorem allPlain_append (items more : List Item) :
    allPlain (items ++ more) = (allPlain items && allPlain more) := by
  induction items with
  | nil => rfl
  | cons i items ih => simp [allPlain, ih, Bool.and_assoc]

structure Fragment (cs : List Char) (items : List Item) (texts : List (List Char)) : Prop where
  reads : Reads cs items
  plain : allPlain items = true
  literals : literalsOf items = texts

def Item.isSpace : Item → Bool
  | .mark c => c == ' '
  | .word _ | .literal _ | .group _ => false

def Ends (items : List Item) : Prop :=
  ∃ front last, items = front ++ [last] ∧ last.isSpace = false

structure Phrase (cs : List Char) (items : List Item) (texts : List (List Char)) : Prop
    extends Fragment cs items texts where
  opens : ∃ cs rest, items = .word cs :: rest
  ends : Ends items

theorem Ends.word (cs : List Char) : Ends [.word cs] :=
  ⟨[], _, rfl, rfl⟩

theorem Ends.literal (cs : List Char) : Ends [.literal cs] :=
  ⟨[], _, rfl, rfl⟩

theorem Ends.group (items : List Item) : Ends [.group items] :=
  ⟨[], _, rfl, rfl⟩

theorem Ends.append {more : List Item} (ends : Ends more) (items : List Item) :
    Ends (items ++ more) := by
  obtain ⟨front, last, rfl, shown⟩ := ends
  exact ⟨items ++ front, last, (List.append_assoc ..).symm, shown⟩

namespace Fragment

variable {cs ds : List Char} {items more : List Item} {texts others : List (List Char)}

theorem append (first : Fragment cs items texts) (apart : Apart items.reverse)
    (next : Fragment ds more others) : Fragment (cs ++ ds) (items ++ more) (texts ++ others) where
  reads := first.reads.append apart next.reads
  plain := by rw [allPlain_append, first.plain, next.plain]; rfl
  literals := by rw [literalsOf_append, first.literals, next.literals]

theorem mark (first : Fragment cs items texts) {c : Char} (ordinary : isOrdinary c = true)
    (outside : Segment.isTail c = false) : Fragment (cs ++ [c]) (items ++ [.mark c]) texts where
  reads := first.reads.mark ordinary outside
  plain := by rw [allPlain_append, first.plain]; rfl
  literals := by rw [literalsOf_append, first.literals]; exact List.append_nil _

theorem group (first : Fragment cs items texts) (inside : Fragment ds more others) :
    Fragment (cs ++ '(' :: ds ++ [')']) (items ++ [.group more]) (texts ++ others) where
  reads := first.reads.group inside.reads
  plain := by simp [allPlain_append, first.plain, allPlain, Item.isPlain, inside.plain]
  literals := by simp [literalsOf_append, first.literals, literalsOf, Item.literals, inside.literals]

theorem nil : Fragment [] [] [] :=
  ⟨.nil, rfl, rfl⟩

theorem literal (cs : List Char) : Fragment (Clause.literal cs) [.literal cs] [cs] :=
  ⟨.literal cs, rfl, rfl⟩

theorem spaced (first : Fragment cs items texts) (next : Fragment ds more others) :
    Fragment (cs ++ ' ' :: ds) (items ++ .mark ' ' :: more) (texts ++ others) := by
  have blank := first.mark (c := ' ') (by decide) (by decide)
  simpa using blank.append (by simp [Apart]) next

end Fragment

theorem Ends.cons {items : List Item} (ends : Ends items) (i : Item) : Ends (i :: items) :=
  ends.append [i]

theorem Phrase.spaced {cs ds : List Char} {items more : List Item} {texts others : List (List Char)}
    (first : Phrase cs items texts) (next : Fragment ds more others) (ends : Ends more) :
    Phrase (cs ++ ' ' :: ds) (items ++ .mark ' ' :: more) (texts ++ others) := by
  obtain ⟨w, rest, rfl⟩ := first.opens
  exact ⟨first.toFragment.spaced next, ⟨w, _, rfl⟩, (ends.cons _).append _⟩

def isTerm (w : List Char) : Bool :=
  !w.isEmpty && w.all Segment.isTail && (joint? w).isNone

theorem Phrase.word {w : List Char} (term : isTerm w = true) : Phrase w [.word w] [] := by
  simp only [isTerm, Bool.and_eq_true, Bool.not_eq_true', List.isEmpty_eq_false_iff,
    List.all_eq_true] at term
  obtain ⟨⟨nonempty, tail⟩, plain⟩ := term
  exact ⟨⟨.word nonempty tail, by simpa [allPlain, Item.isPlain] using plain, rfl⟩, ⟨w, [], rfl⟩,
    .word w⟩

def SpelledFrom (cs : List Char) (i : Item) : Prop :=
  (∃ w, w ⊆ cs ∧ i = .word w) ∨ ∃ c ∈ cs, i = .mark c

theorem spelledFrom_put {cs : List Char} {c : Char} (known : c ∈ cs) {items : List Item}
    (before : ∀ i ∈ items, SpelledFrom cs i) : ∀ i ∈ Reader.put c items, SpelledFrom cs i := by
  have mark : SpelledFrom cs (.mark c) := .inr ⟨c, known, rfl⟩
  have fresh : SpelledFrom cs (if Segment.isTail c then .word [c] else .mark c) := by
    split
    next => exact .inl ⟨[c], by simpa using known, rfl⟩
    next => exact mark
  match items with
  | .word w :: items =>
    obtain ⟨first, rest⟩ := List.forall_mem_cons.1 before
    cases tail : Segment.isTail c with
    | false =>
      rw [Reader.put_mark tail]
      exact List.forall_mem_cons.2 ⟨mark, before⟩
    | true =>
      have inside : w ⊆ cs := by
        rcases first with ⟨w', inside, same⟩ | ⟨d, -, same⟩
        · cases same
          exact inside
        · cases same
      have longer : w ++ [c] ⊆ cs := List.append_subset.2 ⟨inside, by simpa using known⟩
      simp only [Reader.put, tail, if_true]
      exact List.forall_mem_cons.2 ⟨.inl ⟨w ++ [c], longer, rfl⟩, rest⟩
  | [] | .literal _ :: _ | .mark _ :: _ | .group _ :: _ =>
    exact List.forall_mem_cons.2 ⟨fresh, before⟩

theorem spelledFrom_of_mem {cs : List Char} : ∀ i ∈ spell cs, SpelledFrom cs i := by
  have go (ds : List Char) (known : ds ⊆ cs) (items : List Item)
      (before : ∀ i ∈ items, SpelledFrom cs i) :
      ∀ i ∈ ds.foldl (fun items c => Reader.put c items) items, SpelledFrom cs i := by
    induction ds generalizing items with
    | nil => exact before
    | cons d ds ih =>
      obtain ⟨first, rest⟩ := List.cons_subset.1 known
      exact ih rest _ (spelledFrom_put first before)
  intro i member
  exact go cs (List.Subset.refl cs) [] nofun i (List.mem_reverse.1 member)

theorem literalsOf_spell (cs : List Char) : literalsOf (spell cs) = [] := by
  have none (items : List Item) (spelled : ∀ i ∈ items, SpelledFrom cs i) :
      literalsOf items = [] := by
    induction items with
    | nil => rfl
    | cons i items ih =>
      obtain ⟨first, rest⟩ := List.forall_mem_cons.1 spelled
      rw [literalsOf, ih rest]
      rcases first with ⟨w, -, rfl⟩ | ⟨c, -, rfl⟩ <;> rfl
  exact none _ spelledFrom_of_mem

theorem Fragment.spelled {cs : List Char} (ordinary : ∀ c ∈ cs, isOrdinary c = true)
    (plain : allPlain (spell cs) = true) : Fragment cs (spell cs) [] :=
  ⟨.spelled ordinary, plain, literalsOf_spell cs⟩

def isNeutral (c : Char) : Bool :=
  isOrdinary c && c != ' ' && c.toLower != 'd' && c.toLower != 'r'

theorem joint?_of_neutral {w : List Char} (neutral : ∀ c ∈ w, isNeutral c = true) :
    joint? w = none := by
  have absent (d : Char) (other : ∀ c, isNeutral c = true → c.toLower ≠ d) : d ∉ lower w := by
    intro member
    obtain ⟨c, inside, same⟩ := List.mem_map.1 member
    exact other c (neutral c inside) same
  have noD : 'd' ∉ lower w := absent 'd' fun c neutral => by
    simp only [isNeutral, Bool.and_eq_true, bne_iff_ne] at neutral
    exact neutral.1.2
  have noR : 'r' ∉ lower w := absent 'r' fun c neutral => by
    simp only [isNeutral, Bool.and_eq_true, bne_iff_ne] at neutral
    exact neutral.2
  have notAnd : lower w ≠ "and".toList := fun same => noD (by rw [same]; decide)
  have notOr : lower w ≠ "or".toList := fun same => noR (by rw [same]; decide)
  rw [joint?, if_neg notAnd, if_neg notOr]

theorem Fragment.neutral {cs : List Char} (neutral : ∀ c ∈ cs, isNeutral c = true) :
    Fragment cs (spell cs) [] := by
  have ordinary : ∀ c ∈ cs, isOrdinary c = true := by
    intro c member
    have known := neutral c member
    simp only [isNeutral, Bool.and_eq_true] at known
    exact known.1.1.1
  refine .spelled ordinary ((allPlain_iff _).2 fun i member => ?_)
  rcases spelledFrom_of_mem i member with ⟨w, inside, rfl⟩ | ⟨c, -, rfl⟩
  · simp [Item.isPlain, joint?_of_neutral fun c here => neutral c (inside here)]
  · rfl

theorem ends_of_neutral {cs : List Char} (nonempty : cs ≠ [])
    (neutral : ∀ c ∈ cs, isNeutral c = true) : Ends (spell cs) := by
  have shown : spell cs ≠ [] := by
    intro empty
    have text := (Fragment.neutral neutral).reads.textOf_eq
    rw [empty] at text
    exact nonempty text.symm
  refine ⟨_, _, (List.dropLast_concat_getLast shown).symm, ?_⟩
  rcases spelledFrom_of_mem _ (List.getLast_mem shown) with ⟨w, -, word⟩ | ⟨c, member, mark⟩
  · rw [word]
    rfl
  · have known := neutral c member
    simp only [isNeutral, Bool.and_eq_true, bne_iff_ne] at known
    rw [mark]
    exact beq_eq_false_iff_ne.2 known.1.1.2

theorem isNeutral_of_isDigit {c : Char} (digit : c.isDigit = true) : isNeutral c = true := by
  have other (d : Char) (none : d.isDigit = false) : c ≠ d := ne_of_isDigit digit none
  have small : c.toLower = c := by
    unfold Char.toLower
    split
    next upper =>
      have capital : 65 ≤ c.toNat := UInt32.le_iff_toNat_le.1 upper.1
      have most := (Char.isDigit_iff_toNat.1 digit).2
      simp only [Char.reduceToNat] at most
      omega
    next => rfl
  simp [isNeutral, isOrdinary, small, other '\x27' rfl, other '(' rfl, other ')' rfl,
    other ' ' rfl, other 'd' rfl, other 'r' rfl]

theorem neutral_number (n : Number) : ∀ c ∈ n.render, isNeutral c = true :=
  n.render_chars (fun _ digit => isNeutral_of_isDigit digit) (by decide)

mutual

theorem fragment_operand (v : Operand) :
    ∃ items, Fragment (Clause.renderOperand v) items v.literals ∧ Ends items := by
  have word (w : List Char) (term : isTerm w = true) : ∃ items, Fragment w items [] ∧ Ends items :=
    ⟨_, (Phrase.word term).toFragment, .word w⟩
  match v with
  | .null => exact word "NULL".toList (by decide)
  | .string s => exact ⟨_, .literal s.toList, .literal _⟩
  | .date d => exact ⟨_, .literal d.render, .literal _⟩
  | .number n =>
    have neutral := neutral_number n
    exact ⟨_, .neutral neutral, ends_of_neutral n.render_ne_nil neutral⟩
  | .bool true => exact word "true".toList (by decide)
  | .bool false => exact word "false".toList (by decide)
  | .list vs =>
    obtain ⟨items, inside⟩ := fragment_operands vs
    exact ⟨_, Fragment.nil.group inside, .group _⟩

theorem fragment_operands (vs : List Operand) :
    ∃ items, Fragment (Clause.renderOperands vs) items (Operand.literalsOf vs) := by
  match vs with
  | [] => exact ⟨[], .nil⟩
  | [v] =>
    obtain ⟨items, single, -⟩ := fragment_operand v
    exact ⟨items, by simpa [Clause.renderOperands, Operand.literalsOf] using single⟩
  | v :: w :: vs =>
    obtain ⟨items, first, -⟩ := fragment_operand v
    obtain ⟨more, rest⟩ := fragment_operands (w :: vs)
    have comma := first.mark (c := ',') (by decide) (by decide)
    exact ⟨_, by simpa [Clause.renderOperands, Operand.literalsOf] using comma.spaced rest⟩

end

theorem fragment_symbol (op : Operator) : Fragment op.symbol.toList (spell op.symbol.toList) [] := by
  have ordinary : op.symbol.toList.all isOrdinary = true := by cases op <;> rfl
  have plain : allPlain (spell op.symbol.toList) = true := by cases op <;> decide +kernel
  exact .spelled (List.all_eq_true.1 ordinary) plain

theorem phrase_segment {cs : List Char} {s : Segment} (read : Segment.read cs = some s)
    (joins : joint? s.name = none) : ∃ items, Phrase cs items [] := by
  obtain ⟨name, rfl⟩ := Segment.read_eq_some_iff.1 read
  obtain ⟨w, call⟩ := s
  have nonempty : w ≠ [] := by
    rintro rfl
    obtain ⟨first, rest, same, -⟩ := name
    cases same
  have tail : w.all Segment.isTail = true :=
    List.all_eq_true.2 (Segment.isTail_of_isIdentifier name)
  have term : isTerm w = true := by
    simp only at joins
    simp [isTerm, nonempty, tail, joins]
  have word := Phrase.word term
  cases call with
  | true =>
    exact ⟨[.word w, .group []], by simpa [Segment.text] using word.toFragment.group .nil, ⟨w, _, rfl⟩,
      (Ends.group _).cons _⟩
  | false => exact ⟨[.word w], by simpa [Segment.text] using word⟩

theorem phrase_selector {parts : List (List Char)} (nonempty : parts ≠ [])
    (each : ∀ part ∈ parts, ∃ items, Phrase part items []) :
    ∃ items, Phrase (List.intercalate ['.'] parts) items [] := by
  induction parts with
  | nil => exact absurd rfl nonempty
  | cons part rest ih =>
    obtain ⟨⟨items, first⟩, others⟩ := List.forall_mem_cons.1 each
    cases rest with
    | nil => exact ⟨items, by simpa using first⟩
    | cons next rest =>
      obtain ⟨more, later⟩ := ih (List.cons_ne_nil next rest) others
      obtain ⟨w, front, rfl⟩ := first.opens
      have dot := first.toFragment.mark (c := '.') (by decide) (by decide)
      have both := dot.append (by simp [Apart]) later.toFragment
      rw [List.intercalate_cons_cons]
      exact ⟨_, both, ⟨w, _, rfl⟩, later.ends.append _⟩

theorem joint?_of_offers {c : Catalog} (names : c.WithoutJoints) {w : List Char}
    (offered : c.Offers (String.ofList w)) : joint? w = none := by
  rcases offered with ⟨r, m, member, name⟩ | count | any
  · obtain ⟨notAnd, notOr⟩ := names r m member
    have capitals : lower "AND".toList = "and".toList ∧ lower "OR".toList = "or".toList := by decide
    simp only [name, sameName, String.toList_ofList, capitals, beq_eq_false_iff_ne] at notAnd notOr
    rw [joint?, if_neg (Ne.symm notAnd), if_neg (Ne.symm notOr)]
  · obtain rfl : w = "Count".toList := by rw [← count, String.toList_ofList]
    decide
  · obtain rfl : w = "Any".toList := by rw [← any, String.toList_ofList]
    decide

theorem phrase_path {t : EntityType} (names : t.catalog.WithoutJoints) {selector : String} {p : Path}
    (resolved : Selector.resolve t selector = .ok p) :
    ∃ items, Phrase p.selector.toList items [] := by
  obtain ⟨named, segments⟩ := Selector.resolve_inv resolved
  rw [named, Selector.normalized, Selector.join, String.toList_ofList]
  refine phrase_selector (Selector.segments_ne_nil selector) fun part member => ?_
  obtain ⟨s, read, offered⟩ := segments part member
  exact phrase_segment read (joint?_of_offers names offered)

theorem phrase_searched {cs : List Char} {items : List Item} (selector : Phrase cs items [])
    (mode : Like.Mode) (numeric : Bool) :
    ∃ more, Phrase (Clause.renderSearched mode numeric cs) more [] := by
  cases numeric with
  | false => exact ⟨items, selector⟩
  | true =>
    have text := (Phrase.word (w := "STR".toList) (by decide)).toFragment.group selector.toFragment
    have trims (w : List Char) (term : isTerm w = true) :
        Phrase (w ++ '(' :: ("STR".toList ++ '(' :: cs ++ [')']) ++ [')'])
          [.word w, .group [.word "STR".toList, .group items]] [] :=
      ⟨(Phrase.word term).toFragment.group text, ⟨w, _, rfl⟩, (Ends.group _).cons _⟩
    cases mode with
    | anywhere =>
      have trimmed := trims "TRIM".toList (by decide)
      exact ⟨_, by simpa [Clause.renderSearched] using trimmed⟩
    | atStart =>
      have trimmed := trims "LTRIM".toList (by decide)
      exact ⟨_, by simpa [Clause.renderSearched] using trimmed⟩
    | atEnd =>
      have trimmed := trims "RTRIM".toList (by decide)
      exact ⟨_, by simpa [Clause.renderSearched] using trimmed⟩

theorem fragment_escape :
    Fragment "ESCAPE '\\'".toList [.word "ESCAPE".toList, .mark ' ', .literal [Like.escapeMark]]
      [[Like.escapeMark]] :=
  (Phrase.word (w := "ESCAPE".toList) (by decide)).toFragment.spaced (.literal [Like.escapeMark])

theorem phrase_clause {c : Clause} {items : List Item}
    (selector : Phrase c.path.selector.toList items []) :
    ∃ more, Phrase c.render more c.literals := by
  have symbol := fragment_symbol c.op
  cases test : c.test with
  | null negate =>
    have is := Phrase.word (w := "IS".toList) (by decide)
    have not := Phrase.word (w := "NOT".toList) (by decide)
    have null := Phrase.word (w := "NULL".toList) (by decide)
    have tested := selector.spaced is.toFragment is.ends
    cases negate with
    | false =>
      have onNull := tested.spaced null.toFragment null.ends
      exact ⟨_, by simpa [Clause.render, Clause.literals, test] using onNull⟩
    | true =>
      have negated := tested.spaced not.toFragment not.ends
      have onNull := negated.spaced null.toFragment null.ends
      exact ⟨_, by simpa [Clause.render, Clause.literals, test] using onNull⟩
  | text mode needle numeric negate =>
    obtain ⟨more, searched⟩ := phrase_searched selector mode numeric
    have pattern := Fragment.literal (mode.pattern needle.toList)
    have compared := searched.spaced (symbol.spaced pattern)
      (((Ends.literal _).cons _).append _)
    cases declared : Like.declaresEscape needle.toList with
    | false =>
      exact ⟨_, by simpa [Clause.render, Clause.literals, test, declared] using compared⟩
    | true =>
      have escaped := compared.spaced fragment_escape
        (((Ends.literal _).cons _).cons _)
      exact ⟨_, by simpa [Clause.render, Clause.literals, test, declared] using escaped⟩
  | equal | member | order =>
    obtain ⟨more, operand, ends⟩ := fragment_operand c.operand
    have compared := selector.spaced (symbol.spaced operand) ((ends.cons _).append _)
    exact ⟨_, by simpa [Clause.render, Clause.literals, test] using compared⟩

end Rendering

end EntityQuery
