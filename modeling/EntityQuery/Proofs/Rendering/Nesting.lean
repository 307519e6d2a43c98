import Mathlib.Data.List.DropRight
import EntityQuery.Proofs.Rendering.Clauses
import EntityQuery.Proofs.Walk

/-!
How conditions are nested, read from their text. Words that join conditions stand between the parts
of a group, or of the whole text, and a group that has such words is a part by itself. So reading
the text of a compiled filter gives its conjunctions and disjunctions back, and its clauses in order.
-/

set_option autoImplicit false

namespace EntityQuery

inductive Outline where
  | text (cs : List Char)
  | all (parts : List Outline)
  | any (parts : List Outline)
  deriving Inhabited

mutual

def Filter.outline : Filter → Outline
  | .const b => .text (Filter.const b).render
  | .clause c => .text c.render
  | .all parts => .all (outlinesOf parts)
  | .any parts => .any (outlinesOf parts)

def Filter.outlinesOf : List Filter → List Outline
  | [] => []
  | f :: fs => f.outline :: outlinesOf fs

end

namespace Rendering

def Item.joint? : Item → Option Combinator
  | .word cs => Rendering.joint? cs
  | _ => none

def mixed (items : List Item) : Bool :=
  items.any (·.joint? == some .and) && items.any (·.joint? == some .or)

mutual

def Item.isUnmixed : Item → Bool
  | .group items => !mixed items && allUnmixed items
  | .word _ | .literal _ | .mark _ => true

def allUnmixed : List Item → Bool
  | [] => true
  | i :: items => i.isUnmixed && allUnmixed items

end

def strip {α : Type} (blank : α → Bool) (items : List α) : List α :=
  (items.dropWhile blank).rdropWhile blank

def part : List (Item × Outline) → Outline
  | [(_, o)] => o
  | items => .text (textOf (items.map Prod.fst))

def parts (items : List (Item × Outline)) : List Outline :=
  (items.splitOnP fun i => i.1.joint?.isSome).map fun piece => part (strip (·.1.isSpace) piece)

def joined? (items : List (Item × Outline)) : Option Outline :=
  match (items.map Prod.fst).findSome? Item.joint? with
  | some .and => some (.all (parts items))
  | some .or => some (.any (parts items))
  | _ => none

mutual

-- A group without joints belongs to a clause.
def Item.outline : Item → Outline
  | .group items => (joined? (outlined items)).getD (.text ('(' :: textOf items ++ [')']))
  | .word cs => .text cs
  | .literal cs => .text (Clause.literal cs)
  | .mark c => .text [c]

def outlined : List Item → List (Item × Outline)
  | [] => []
  | i :: items => (i, i.outline) :: outlined items

end

def outline (items : List Item) : Outline :=
  (joined? (outlined items)).getD (part (strip (·.1.isSpace) (outlined items)))

theorem outlined_eq_map (items : List Item) : outlined items = items.map fun i => (i, i.outline) := by
  induction items with
  | nil => rfl
  | cons i items ih => simp [outlined, ih]

theorem fst_outlined (items : List Item) : (outlined items).map Prod.fst = items := by
  simp [outlined_eq_map, Function.comp_def]

theorem outlined_append (items more : List Item) :
    outlined (items ++ more) = outlined items ++ outlined more := by
  simp [outlined_eq_map]

theorem allUnmixed_append (items more : List Item) :
    allUnmixed (items ++ more) = (allUnmixed items && allUnmixed more) := by
  induction items with
  | nil => rfl
  | cons i items ih => simp [allUnmixed, ih, Bool.and_assoc]

theorem strip_eq {α : Type} {blank : α → Bool} {items : List α} {space : α}
    (isSpace : blank space = true) (starts : ∃ a rest, items = a :: rest ∧ blank a = false)
    (ends : ∃ front a, items = front ++ [a] ∧ blank a = false) (n m : Nat) :
    strip blank (List.replicate n space ++ items ++ List.replicate m space) = items := by
  have spaces (k : Nat) : ∀ a ∈ List.replicate k space, blank a = true :=
    fun a member => (List.mem_replicate.1 member).2 ▸ isSpace
  have left : (items ++ List.replicate m space).dropWhile blank =
      items ++ List.replicate m space := by
    obtain ⟨a, rest, rfl, shown⟩ := starts
    simp [shown]
  have right : items.reverse.dropWhile blank = items.reverse := by
    obtain ⟨front, a, rfl, shown⟩ := ends
    simp [shown]
  rw [strip, List.append_assoc, List.dropWhile_append_of_pos (spaces n), left, List.rdropWhile,
    List.reverse_append, List.reverse_replicate, List.dropWhile_append_of_pos (spaces m), right,
    List.reverse_reverse]

theorem joint?_of_isPlain {i : Item} (plain : i.isPlain = true) : i.joint? = none := by
  cases i with
  | word cs => simpa [Item.isPlain, Item.joint?] using plain
  | _ => rfl

theorem not_mixed {items : List Item} {c : Combinator}
    (only : ∀ i ∈ items, i.joint? = none ∨ i.joint? = some c) : mixed items = false := by
  have absent (d : Combinator) (other : d ≠ c) : (items.any fun i => i.joint? == some d) = false := by
    rw [List.any_eq_false]
    intro i member
    rcases only i member with none | some
    · simp [none]
    · simpa [some] using other.symm
  cases c with
  | and => rw [mixed, absent .or (by decide), Bool.and_false]
  | or | none => rw [mixed, absent .and (by decide), Bool.false_and]

mutual

theorem isUnmixed_of_isPlain {i : Item} (plain : i.isPlain = true) : i.isUnmixed = true := by
  match i with
  | .group items =>
    have single : mixed items = false :=
      not_mixed (c := .none) fun i member => .inl (joint?_of_isPlain ((allPlain_iff _).1 plain i member))
    rw [Item.isUnmixed, single, allUnmixed_of_allPlain plain]
    rfl
  | .word _ | .literal _ | .mark _ => rfl

theorem allUnmixed_of_allPlain {items : List Item} (plain : allPlain items = true) :
    allUnmixed items = true := by
  match items with
  | [] => rfl
  | i :: items =>
    simp only [allPlain, Bool.and_eq_true] at plain
    simp [allUnmixed, isUnmixed_of_isPlain plain.1, allUnmixed_of_allPlain plain.2]

end

def blanks (n : Nat) : List Item :=
  List.replicate n (.mark ' ')

theorem joint?_of_mem_blanks {n : Nat} {i : Item} (member : i ∈ blanks n) : i.joint? = none := by
  rw [(List.mem_replicate.1 member).2]
  rfl

structure Spoken (cs : List Char) (items : List Item) (texts : List (List Char)) (o : Outline) :
    Prop where
  reads : Reads cs items
  literals : literalsOf items = texts
  unmixed : allUnmixed items = true
  unjoined : ∀ i ∈ items, i.joint? = none
  starts : ∃ first rest, items = first :: rest ∧ first.isSpace = false
  ends : Ends items
  part_eq : part (outlined items) = o

structure Listed (c : Combinator) (cs : List Char) (items : List Item) (texts : List (List Char))
    (os : List Outline) : Prop where
  reads : Reads cs items
  literals : literalsOf items = texts
  unmixed : allUnmixed items = true
  only : ∀ i ∈ items, i.joint? = none ∨ i.joint? = some c
  parts_eq : ∀ n, parts (outlined (blanks n ++ items)) = os
  joined : 1 < os.length → items.findSome? Item.joint? = some c

structure Sentence (cs : List Char) (items : List Item) (texts : List (List Char)) (o : Outline) :
    Prop where
  reads : Reads cs items
  literals : literalsOf items = texts
  unmixed : (Item.group items).isUnmixed = true
  outline_eq : outline items = o

variable {cs ds : List Char} {items more : List Item} {texts others : List (List Char)} {o : Outline}
  {os : List Outline} {c : Combinator}

theorem Phrase.spoken (phrase : Phrase cs items texts) : Spoken cs items texts (.text cs) where
  reads := phrase.reads
  literals := phrase.literals
  unmixed := allUnmixed_of_allPlain phrase.plain
  unjoined i member := joint?_of_isPlain ((allPlain_iff _).1 phrase.plain i member)
  starts := by
    obtain ⟨w, rest, same⟩ := phrase.opens
    exact ⟨_, rest, same, rfl⟩
  ends := phrase.ends
  part_eq := by
    have text := phrase.reads.textOf_eq
    obtain ⟨w, rest, rfl⟩ := phrase.opens
    cases rest with
    | nil =>
      rw [← text]
      simp [outlined, part, Item.outline, textOf, Item.text]
    | cons i rest =>
      rw [← text, ← fst_outlined (.word w :: i :: rest)]
      simp [outlined, part, fst_outlined]

theorem findSome?_of_unjoined (unjoined : ∀ i ∈ items, i.joint? = none) :
    items.findSome? Item.joint? = none :=
  List.findSome?_eq_none_iff.2 unjoined

theorem Spoken.unsplit (spoken : Spoken cs items texts o) (n m : Nat) :
    ∀ a ∈ outlined (blanks n ++ items ++ blanks m), a.1.joint?.isSome = false := by
  rw [outlined_eq_map, List.forall_mem_map]
  intro i member
  have none : i.joint? = none := by
    simp only [List.mem_append] at member
    rcases member with (before | inside) | behind
    · exact joint?_of_mem_blanks before
    · exact spoken.unjoined i inside
    · exact joint?_of_mem_blanks behind
  rw [none]
  rfl

theorem Spoken.part_strip (spoken : Spoken cs items texts o) (n m : Nat) :
    part (strip (·.1.isSpace) (outlined (blanks n ++ items ++ blanks m))) = o := by
  have spaces (k : Nat) : outlined (blanks k) = List.replicate k (.mark ' ', .text [' ']) := by
    simp [outlined_eq_map, blanks, Item.outline]
  have starts : ∃ a rest, outlined items = a :: rest ∧ a.1.isSpace = false := by
    obtain ⟨first, rest, same, shown⟩ := spoken.starts
    exact ⟨(first, first.outline), outlined rest, by rw [same]; rfl, shown⟩
  have ends : ∃ front a, outlined items = front ++ [a] ∧ a.1.isSpace = false := by
    obtain ⟨front, last, same, shown⟩ := spoken.ends
    exact ⟨outlined front, (last, last.outline), by rw [same, outlined_append]; rfl, shown⟩
  rw [outlined_append, outlined_append, spaces, spaces, strip_eq rfl starts ends, spoken.part_eq]

theorem Spoken.sentence (spoken : Spoken cs items texts o) : Sentence cs items texts o where
  reads := spoken.reads
  literals := spoken.literals
  unmixed := by
    have single : mixed items = false :=
      not_mixed (c := .none) fun i member => .inl (spoken.unjoined i member)
    rw [Item.isUnmixed, single, spoken.unmixed]
    rfl
  outline_eq := by
    have none : joined? (outlined items) = none := by
      rw [joined?, fst_outlined, findSome?_of_unjoined spoken.unjoined]
    have alone := spoken.part_strip 0 0
    rw [outline, none]
    simpa [blanks] using alone

theorem Spoken.listed (spoken : Spoken cs items texts o) (c : Combinator) :
    Listed c cs items texts [o] where
  reads := spoken.reads
  literals := spoken.literals
  unmixed := spoken.unmixed
  only i member := .inl (spoken.unjoined i member)
  parts_eq n := by
    have whole := spoken.part_strip n 0
    have unsplit := spoken.unsplit n 0
    simp only [blanks, List.replicate_zero, List.append_nil] at whole unsplit
    rw [parts, blanks, List.splitOnP_eq_singleton unsplit, List.map_singleton, whole]
  joined several := absurd several (by simp)

theorem Spoken.cons (first : Spoken cs items texts o) (rest : Listed c ds more others os)
    {w : List Char} (nonempty : w ≠ []) (tail : w.all Segment.isTail = true)
    (joins : Rendering.joint? w = some c) :
    Listed c (cs ++ (' ' :: w ++ [' ']) ++ ds) (items ++ .mark ' ' :: .word w :: .mark ' ' :: more)
      (texts ++ others) (o :: os) where
  reads := by
    have space := first.reads.mark (c := ' ') (by decide) (by decide)
    have word := space.append (by simp [Apart]) (.word nonempty (List.all_eq_true.1 tail))
    have spaced := word.mark (c := ' ') (by decide) (by decide)
    simpa using spaced.append (by simp [Apart]) rest.reads
  literals := by
    simp [literalsOf_append, first.literals, literalsOf, Item.literals, rest.literals]
  unmixed := by simp [allUnmixed_append, first.unmixed, allUnmixed, Item.isUnmixed, rest.unmixed]
  only i member := by
    simp only [List.mem_append, List.mem_cons] at member
    rcases member with inside | rfl | rfl | rfl | later
    · exact .inl (first.unjoined i inside)
    · exact .inl rfl
    · exact .inr joins
    · exact .inl rfl
    · exact rest.only i later
  parts_eq n := by
    have joint : Item.joint? (.word w) = some c := joins
    have split : outlined (blanks n ++ (items ++ .mark ' ' :: .word w :: .mark ' ' :: more)) =
        outlined (blanks n ++ items ++ blanks 1) ++
          (.word w, .text w) :: outlined (blanks 1 ++ more) := by
      simp [outlined_append, blanks, outlined, Item.outline]
    rw [split, parts, List.splitOnP_append_cons_of_forall_mem (first.unsplit n 1) _
      (by rw [joint]; rfl), List.map_cons, first.part_strip n 1]
    exact congrArg (o :: ·) (rest.parts_eq 1)
  joined several := by
    have joint : Item.joint? (.word w) = some c := joins
    have mark : Item.joint? (.mark ' ') = none := rfl
    rw [List.findSome?_append, findSome?_of_unjoined first.unjoined]
    simp [mark, joint]

theorem Listed.sentence (listed : Listed c cs items texts os) (several : 1 < os.length)
    (form : c = .and ∧ o = .all os ∨ c = .or ∧ o = .any os) :
    joined? (outlined items) = some o ∧ Sentence cs items texts o := by
  have found := listed.joined several
  have whole : parts (outlined items) = os := listed.parts_eq 0
  have joined : joined? (outlined items) = some o := by
    rw [joined?, fst_outlined, found]
    rcases form with ⟨rfl, rfl⟩ | ⟨rfl, rfl⟩ <;> simp only [whole]
  refine ⟨joined, listed.reads, listed.literals, ?_, ?_⟩
  · rw [Item.isUnmixed, not_mixed listed.only, listed.unmixed]
    rfl
  · rw [outline, joined]
    rfl

theorem Sentence.spoken (sentence : Sentence cs items texts o)
    (joined : joined? (outlined items) = some o) :
    Spoken ('(' :: cs ++ [')']) [.group items] texts o where
  reads := Reads.nil.group sentence.reads
  literals := by simp [literalsOf, Item.literals, sentence.literals]
  unmixed := by simp [allUnmixed, sentence.unmixed]
  unjoined := List.forall_mem_singleton.2 rfl
  starts := ⟨_, [], rfl, rfl⟩
  ends := .group items
  part_eq := by simp [outlined, part, Item.outline, joined]

end Rendering

open Rendering

namespace Filter

inductive Proper (good : Clause → Prop) : Filter → Prop where
  | const (b : Bool) : Proper good (const b)
  | clause {c : Clause} (known : good c) : Proper good (clause c)
  | all {parts : List Filter} (several : 1 < parts.length) (inside : ∀ f ∈ parts, Proper good f) :
      Proper good (all parts)
  | any {parts : List Filter} (several : 1 < parts.length) (inside : ∀ f ∈ parts, Proper good f) :
      Proper good (any parts)

def texts (f : Filter) : List (List Char) :=
  f.clauses.flatMap Clause.literals

theorem length_outlinesOf (fs : List Filter) : (outlinesOf fs).length = fs.length := by
  induction fs with
  | nil => rfl
  | cons f fs ih => simp [outlinesOf, ih]

def Separates (separator : String) (c : Combinator) : Prop :=
  ∃ w, separator.toList = ' ' :: w ++ [' '] ∧ w ≠ [] ∧ w.all Segment.isTail = true ∧
    Rendering.joint? w = some c

theorem separates_and : Separates " AND " .and :=
  ⟨"AND".toList, by decide, by decide, by decide, by decide⟩

theorem separates_or : Separates " OR " .or :=
  ⟨"OR".toList, by decide, by decide, by decide, by decide⟩

theorem exists_listed {c : Combinator} {separator : String} (separates : Separates separator c)
    {f : Filter} {fs : List Filter}
    (each : ∀ g ∈ f :: fs, ∃ items, Spoken (g.enclose g.render) items g.texts g.outline) :
    ∃ items, Listed c (renderParts separator (f :: fs)) items
      ((clausesOf (f :: fs)).flatMap Clause.literals) (outlinesOf (f :: fs)) := by
  induction fs generalizing f with
  | nil =>
    obtain ⟨items, single⟩ := each f (.head _)
    exact ⟨items, by simpa [clausesOf, renderParts, outlinesOf, texts] using single.listed c⟩
  | cons g fs ih =>
    obtain ⟨items, first⟩ := each f (.head _)
    obtain ⟨more, rest⟩ := ih fun h member => each h (.tail _ member)
    obtain ⟨w, spaced, nonempty, tail, joins⟩ := separates
    have both := first.cons rest nonempty tail joins
    rw [← spaced] at both
    rw [clausesOf, List.flatMap_append]
    exact ⟨_, both⟩

variable {good : Clause → Prop} {f : Filter}

theorem Proper.exists_sentence (phrases : ∀ c, good c → ∃ items, Phrase c.render items c.literals)
    (proper : f.Proper good) :
    (∃ items, Spoken (f.enclose f.render) items f.texts f.outline) ∧
      ∃ items, Sentence f.render items f.texts f.outline := by
  induction proper with
  | const b =>
    have spoken : ∃ items, Spoken (Filter.const b).render items [] (.text (Filter.const b).render) := by
      cases b with
      | true => exact ⟨_, (Phrase.word (w := "TRUE".toList) (by decide)).spoken⟩
      | false => exact ⟨_, (Phrase.word (w := "FALSE".toList) (by decide)).spoken⟩
    obtain ⟨items, spoken⟩ := spoken
    exact ⟨⟨items, spoken⟩, items, spoken.sentence⟩
  | @clause c known =>
    obtain ⟨items, phrase⟩ := phrases c known
    have texts : (Filter.clause c).texts = c.literals := by simp [Filter.texts, clauses]
    rw [texts]
    exact ⟨⟨items, phrase.spoken⟩, items, phrase.spoken.sentence⟩
  | @all parts several inside ih =>
    obtain ⟨g, gs, rfl⟩ := List.exists_cons_of_length_pos (Nat.lt_of_succ_lt several)
    obtain ⟨items, listed⟩ := exists_listed separates_and fun h member => (ih h member).1
    obtain ⟨joined, sentence⟩ := listed.sentence (by rwa [length_outlinesOf]) (.inl ⟨rfl, rfl⟩)
    exact ⟨⟨_, sentence.spoken joined⟩, items, sentence⟩
  | @any parts several inside ih =>
    obtain ⟨g, gs, rfl⟩ := List.exists_cons_of_length_pos (Nat.lt_of_succ_lt several)
    obtain ⟨items, listed⟩ := exists_listed separates_or fun h member => (ih h member).1
    obtain ⟨joined, sentence⟩ := listed.sentence (by rwa [length_outlinesOf]) (.inr ⟨rfl, rfl⟩)
    exact ⟨⟨_, sentence.spoken joined⟩, items, sentence⟩

theorem proper_join {g : Filter} (before : f.Proper good) (part : g.Proper good) (c : Combinator) :
    (Plan.join c f g).Proper good := by
  have both : ∀ h ∈ [f, g], h.Proper good := by simp [before, part]
  cases c with
  | none => exact before
  | and =>
    cases before with
    | all several inside =>
      refine .all (by simp; omega) (List.forall_mem_append.2 ⟨inside, ?_⟩)
      exact List.forall_mem_singleton.2 part
    | _ => exact .all (by simp) both
  | or =>
    cases before with
    | any several inside =>
      refine .any (by simp; omega) (List.forall_mem_append.2 ⟨inside, ?_⟩)
      exact List.forall_mem_singleton.2 part
    | _ => exact .any (by simp) both

end Filter

namespace Plan

variable {good : Clause → Prop}

mutual

theorem proper_filter {q : Plan Filter} (members : ∀ f ∈ q.members, f.Proper good) :
    q.filter.Proper good := by
  match q with
  | node own parts =>
    exact proper_joinParts (members own (.head _)) fun f below => members f (.tail _ below)

theorem proper_joinParts {before : Filter} {parts : List (Combinator × Plan Filter)}
    (first : before.Proper good) (members : ∀ f ∈ membersOf parts, f.Proper good) :
    (joinParts before parts).Proper good := by
  match parts with
  | [] => exact first
  | (c, p) :: parts =>
    have part := proper_filter fun f inside => members f (List.mem_append_left _ inside)
    have joined : (join c before p.filter).Proper good := Filter.proper_join first part c
    rw [joinParts]
    exact proper_joinParts joined fun f later => members f (List.mem_append_right _ later)

end

end Plan

theorem Node.proper_condition {t : EntityType} {n : Node} {f : Filter}
    (compiled : n.condition t = .ok f) :
    f.Proper fun c => ∃ selector, Selector.resolve t selector = .ok c.path := by
  cases kind : n.isSentinel with
  | true =>
    rw [condition_of_sentinel kind] at compiled
    obtain ⟨b, -, rfl⟩ := Resolving.ok_of_map compiled
    exact .const b
  | false =>
    rw [condition_of_leaf kind] at compiled
    obtain ⟨p, resolved, compiled⟩ := Resolving.ok_of_bind compiled
    obtain ⟨c, made, rfl⟩ := Resolving.ok_of_map compiled
    rw [Clause.compile_eq] at made
    obtain ⟨x, -, rfl⟩ := Resolving.ok_of_map made
    exact .clause ⟨n.selector, resolved⟩

theorem Node.proper_compiled {t : EntityType} {strategy : MergeStrategy} {root : Node} {f : Filter}
    (compiled : root.compiled t strategy = .ok f) :
    f.Proper fun c => ∃ selector, Selector.resolve t selector = .ok c.path := by
  obtain ⟨q, mapped, rfl⟩ := Resolving.ok_of_map compiled
  refine Plan.proper_filter fun g member => ?_
  have members := Plan.members_mapM (condition t) (Plan.ofTree strategy root)
  rw [mapped] at members
  obtain ⟨n, -, made⟩ := (mem_iff_of_mapM members.symm g).1 member
  exact proper_condition made

/-- The text of a compiled filter is read back, whatever its operands are: its literals are the texts
of the operands, in order, nothing of them stands outside, no group joins conditions both ways, and
the conjunctions, the disjunctions and the clauses in them are those of the filter. -/
theorem Node.read_of_compile {t : EntityType} {k : PathCache} (reached : k.Reachable t.catalog)
    (names : t.catalog.WithoutJoints) {options : CompileOptions} {root : Node} {f : Filter}
    (compiled : (root.compile t options).answer k = .ok f) :
    ∃ items, read f.text.toList = some items ∧ textOf items = f.text.toList ∧
      literalsOf items = f.clauses.flatMap Clause.literals ∧
      (Item.group items).isUnmixed = true ∧ outline items = f.outline := by
  have result : root.compiled t options.mergeStrategy = .ok f :=
    ((root.answers_compile t options).answer_eq reached).symm.trans compiled
  have phrases (c : Clause) (known : ∃ selector, Selector.resolve t selector = .ok c.path) :
      ∃ items, Phrase c.render items c.literals := by
    obtain ⟨selector, resolved⟩ := known
    obtain ⟨items, phrase⟩ := phrase_path names resolved
    exact phrase_clause phrase
  obtain ⟨-, items, sentence⟩ := (proper_compiled result).exists_sentence phrases
  rw [Filter.text, String.toList_ofList]
  exact ⟨items, sentence.reads.read_eq, sentence.reads.textOf_eq, sentence.literals,
    sentence.unmixed, sentence.outline_eq⟩

theorem withoutJoints_people : Catalog.people.WithoutJoints := by
  intro r
  simp only [Catalog.people]
  split <;> decide

def Node.quoting : Node :=
  ⟨⟨0⟩, "name", .notEqual, .string "') OR ('' = '", .and,
    [.leaf ⟨1⟩ "tags.Count()" .contains (.list [.number (.uint 1), .null]) .or,
      ⟨⟨2⟩, "boss.name", .like, .string "50%'", .or,
        [.leaf ⟨3⟩ "age" .startsWith (.number (.uint 3)) .or]⟩]⟩

theorem Node.read_of_compile_quoting : ∃ f items,
    (quoting.compile .person {}).answer .empty = .ok f ∧ read f.text.toList = some items ∧
      textOf items = f.text.toList ∧
      literalsOf items = ["') OR ('' = '".toList, "%50\\%'%".toList, "\\".toList, "3%".toList] ∧
      (Item.group items).isUnmixed = true ∧ outline items = f.outline := by
  obtain ⟨f, compiled⟩ : ∃ f, (quoting.compile .person {}).answer .empty = .ok f := ⟨_, rfl⟩
  obtain ⟨items, done, text, literals, unmixed, nested⟩ :=
    read_of_compile .empty withoutJoints_people compiled
  refine ⟨f, items, compiled, done, text, literals.trans ?_, unmixed, nested⟩
  cases compiled
  rfl

end EntityQuery
