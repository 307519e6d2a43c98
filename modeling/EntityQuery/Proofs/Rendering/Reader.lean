import EntityQuery.Clause

/-!
Reading the text of conditions from left to right. A quote opens a literal, and within a literal a
doubled quote stands for one; outside of literals parentheses group what is between them. Nothing of
a text is lost when it is read.
-/

set_option autoImplicit false

namespace EntityQuery.Rendering

inductive Item where
  | word (cs : List Char)
  | literal (cs : List Char)
  | mark (c : Char)
  | group (items : List Item)
  deriving Inhabited

mutual

def Item.text : Item → List Char
  | .word cs => cs
  | .literal cs => Clause.literal cs
  | .mark c => [c]
  | .group items => '(' :: textOf items ++ [')']

def textOf : List Item → List Char
  | [] => []
  | i :: items => i.text ++ textOf items

end

structure Reader where
  -- The literal that is open.
  literal : Option (List Char)
  -- The items of the innermost group that is open, the last one first.
  items : List Item
  outer : List (List Item)

namespace Reader

def put (c : Char) : List Item → List Item
  | .word cs :: items =>
    if Segment.isTail c then .word (cs ++ [c]) :: items else .mark c :: .word cs :: items
  | items => (if Segment.isTail c then .word [c] else .mark c) :: items

-- A quote right after a literal belongs to it, and opens it again.
def quote (outer : List (List Item)) : List Item → Reader
  | .literal cs :: items => ⟨some (cs ++ ['\x27']), items, outer⟩
  | items => ⟨some [], items, outer⟩

def step (r : Reader) (c : Char) : Option Reader :=
  match r.literal with
  | some cs =>
    if c = '\x27' then some ⟨none, .literal cs :: r.items, r.outer⟩
    else some ⟨some (cs ++ [c]), r.items, r.outer⟩
  | none =>
    if c = '\x27' then some (quote r.outer r.items)
    else if c = '(' then some ⟨none, [], r.items :: r.outer⟩
    else if c = ')' then
      match r.outer with
      | [] => none
      | before :: outer => some ⟨none, .group r.items.reverse :: before, outer⟩
    else some ⟨none, put c r.items, r.outer⟩

def done? : Reader → Option (List Item)
  | ⟨none, items, []⟩ => some items.reverse
  | _ => none

end Reader

def read (cs : List Char) : Option (List Item) :=
  cs.foldlM Reader.step ⟨none, [], []⟩ >>= Reader.done?

theorem textOf_append (items more : List Item) : textOf (items ++ more) = textOf items ++ textOf more := by
  induction items with
  | nil => rfl
  | cons i items ih => simp [textOf, ih]

theorem textOf_snoc (items : List Item) (i : Item) : textOf (items ++ [i]) = textOf items ++ i.text := by
  simp [textOf_append, textOf]

namespace Reader

def textBefore : List (List Item) → List Char
  | [] => []
  | items :: outer => textBefore outer ++ textOf items.reverse ++ ['(']

def textOpen : Option (List Char) → List Char
  | none => []
  | some cs => '\x27' :: Text.double '\x27' cs

def text (r : Reader) : List Char :=
  textBefore r.outer ++ textOf r.items.reverse ++ textOpen r.literal

theorem text_put (c : Char) (items : List Item) :
    textOf (put c items).reverse = textOf items.reverse ++ [c] := by
  have fresh (items : List Item) :
      textOf ((if Segment.isTail c then .word [c] else .mark c) :: items).reverse =
        textOf items.reverse ++ [c] := by
    rw [List.reverse_cons, textOf_snoc]
    split <;> rfl
  match items with
  | .word cs :: items =>
    by_cases tail : Segment.isTail c <;> simp [put, tail, textOf_append, textOf, Item.text]
  | [] | .literal _ :: _ | .mark _ :: _ | .group _ :: _ => exact fresh _

theorem text_quote (outer : List (List Item)) (items : List Item) :
    (quote outer items).text = textBefore outer ++ textOf items.reverse ++ ['\x27'] := by
  match items with
  | .literal cs :: items =>
    simp [quote, text, textOpen, textOf_snoc, Item.text, Clause.literal, Text.double]
  | [] | .word _ :: _ | .mark _ :: _ | .group _ :: _ => simp [quote, text, textOpen, Text.double]

theorem text_step {r next : Reader} {c : Char} (stepped : r.step c = some next) :
    next.text = r.text ++ [c] := by
  obtain ⟨literal, items, outer⟩ := r
  cases literal with
  | some cs =>
    simp only [step] at stepped
    split at stepped <;> cases stepped
    next closed => simp [text, textOpen, textOf_snoc, Item.text, Clause.literal, closed]
    next other => simp [text, textOpen, Text.double, other]
  | none =>
    simp only [step] at stepped
    split at stepped
    next quoted =>
      cases stepped
      rw [text_quote]
      simp [text, textOpen, quoted]
    next =>
      split at stepped
      next opened =>
        cases stepped
        simp [text, textOpen, textBefore, textOf, opened]
      next =>
        split at stepped
        next closed =>
          cases outer with
          | nil => cases stepped
          | cons before outer =>
            cases stepped
            simp [text, textOpen, textBefore, textOf_snoc, Item.text, closed]
        next =>
          cases stepped
          simp [text, textOpen, text_put]

theorem text_foldlM {r last : Reader} {cs : List Char} (run : cs.foldlM step r = some last) :
    last.text = r.text ++ cs := by
  induction cs generalizing r with
  | nil =>
    cases run
    simp
  | cons c cs ih =>
    rw [List.foldlM_cons] at run
    obtain ⟨next, stepped, run⟩ := Option.bind_eq_some_iff.1 run
    rw [ih run, text_step stepped]
    simp

end Reader

theorem textOf_read {cs : List Char} {items : List Item} (done : read cs = some items) :
    textOf items = cs := by
  obtain ⟨⟨literal, last, outer⟩, run, closed⟩ := Option.bind_eq_some_iff.1 done
  have text := Reader.text_foldlM run
  cases literal with
  | some cs => cases closed
  | none =>
    cases outer with
    | cons before outer => cases closed
    | nil =>
      cases closed
      simpa [Reader.text, Reader.textBefore, Reader.textOpen, textOf] using text

-- Where the next item does not merge with what is there: at the start, and after a mark.
def Apart : List Item → Prop
  | [] | .mark _ :: _ => True
  | _ => False

def isOrdinary (c : Char) : Bool :=
  c != '\x27' && c != '(' && c != ')'

theorem isOrdinary_of_isTail {c : Char} (tail : Segment.isTail c = true) : isOrdinary c = true := by
  have quote : Segment.isTail '\x27' = false := by decide
  have opening : Segment.isTail '(' = false := by decide
  have closing : Segment.isTail ')' = false := by decide
  have other (d : Char) (outside : Segment.isTail d = false) : c ≠ d := by
    rintro rfl
    rw [tail] at outside
    cases outside
  simp [isOrdinary, other _ quote, other _ opening, other _ closing]

namespace Reader

theorem step_ordinary {c : Char} (ordinary : isOrdinary c = true) (items : List Item)
    (outer : List (List Item)) :
    step ⟨none, items, outer⟩ c = some ⟨none, put c items, outer⟩ := by
  simp only [isOrdinary, Bool.and_eq_true, bne_iff_ne] at ordinary
  simp [step, ordinary.1.1, ordinary.1.2, ordinary.2]

theorem put_mark {c : Char} (outside : Segment.isTail c = false) (items : List Item) :
    put c items = .mark c :: items := by
  unfold put
  split <;> simp [outside]

theorem put_append {before : List Item} (apart : Apart before) (c : Char) (items : List Item) :
    put c (items ++ before) = put c items ++ before := by
  match items with
  | .word cs :: items => by_cases tail : Segment.isTail c <;> simp [put, tail]
  | .literal _ :: _ | .mark _ :: _ | .group _ :: _ => rfl
  | [] =>
    match before with
    | [] | .mark _ :: _ => rfl

end Reader

def spell (cs : List Char) : List Item :=
  (cs.foldl (fun items c => Reader.put c items) []).reverse

def Reads (cs : List Char) (items : List Item) : Prop :=
  ∀ before outer, Apart before →
    cs.foldlM Reader.step ⟨none, before, outer⟩ = some ⟨none, items.reverse ++ before, outer⟩

namespace Reads

variable {cs ds : List Char} {items more : List Item}

theorem read_eq (reads : Reads cs items) : read cs = some items := by
  rw [read, reads [] [] trivial]
  simp [Reader.done?]

theorem textOf_eq (reads : Reads cs items) : textOf items = cs :=
  textOf_read reads.read_eq

theorem nil : Reads [] [] :=
  fun _ _ _ => rfl

theorem append (first : Reads cs items) (apart : Apart items.reverse) (next : Reads ds more) :
    Reads (cs ++ ds) (items ++ more) := by
  intro before outer start
  have here : Apart (items.reverse ++ before) := by
    cases last : items.reverse with
    | nil => exact start
    | cons i rest =>
      rw [last] at apart
      cases i <;> exact apart
  rw [List.foldlM_append, first before outer start]
  simpa using next _ outer here

theorem mark (first : Reads cs items) {c : Char} (ordinary : isOrdinary c = true)
    (outside : Segment.isTail c = false) : Reads (cs ++ [c]) (items ++ [.mark c]) := by
  intro before outer start
  rw [List.foldlM_append, first before outer start]
  simp [Reader.step_ordinary ordinary, Reader.put_mark outside]

theorem group (first : Reads cs items) (inside : Reads ds more) :
    Reads (cs ++ '(' :: ds ++ [')']) (items ++ [.group more]) := by
  intro before outer start
  have within := inside [] ((items.reverse ++ before) :: outer) trivial
  rw [List.append_assoc, List.foldlM_append, first before outer start]
  simp [Reader.step, within]

theorem literal (cs : List Char) : Reads (Clause.literal cs) [.literal cs] := by
  intro before outer start
  have opened : Reader.quote outer before = ⟨some [], before, outer⟩ := by
    match before with
    | [] | .mark _ :: _ => rfl
  have doubled (ds es : List Char) :
      (Text.double '\x27' es).foldlM Reader.step ⟨some ds, before, outer⟩ =
        some ⟨some (ds ++ es), before, outer⟩ := by
    induction es generalizing ds with
    | nil => simp [Text.double]
    | cons e es ih =>
      have rest := ih (ds ++ [e])
      rw [List.append_assoc] at rest
      by_cases quote : e = '\x27'
      · rw [quote] at rest ⊢
        simpa [Text.double, Reader.step, Reader.quote] using rest
      · simpa [Text.double, Reader.step, quote] using rest
  rw [Clause.literal, List.foldlM_append, List.foldlM_cons]
  simp [Reader.step, opened, doubled [] cs]

theorem spelled {cs : List Char} (ordinary : ∀ c ∈ cs, isOrdinary c = true) :
    Reads cs (spell cs) := by
  intro before outer start
  have run (items : List Item) : cs.foldlM Reader.step ⟨none, items ++ before, outer⟩ =
      some ⟨none, cs.foldl (fun items c => Reader.put c items) items ++ before, outer⟩ := by
    induction cs generalizing items with
    | nil => rfl
    | cons c cs ih =>
      obtain ⟨first, rest⟩ := List.forall_mem_cons.1 ordinary
      rw [List.foldlM_cons, Reader.step_ordinary first, Reader.put_append start]
      exact ih rest _
  rw [spell, List.reverse_reverse]
  exact run []

theorem word {cs : List Char} (nonempty : cs ≠ []) (tail : ∀ c ∈ cs, Segment.isTail c = true) :
    Reads cs [.word cs] := by
  have go (ds es : List Char) (tail : ∀ c ∈ es, Segment.isTail c = true) :
      es.foldl (fun items c => Reader.put c items) [.word ds] = [.word (ds ++ es)] := by
    induction es generalizing ds with
    | nil => simp
    | cons e es ih =>
      obtain ⟨first, rest⟩ := List.forall_mem_cons.1 tail
      simpa [Reader.put, first] using ih (ds ++ [e]) rest
  obtain ⟨c, rest, rfl⟩ := List.exists_cons_of_ne_nil nonempty
  obtain ⟨first, others⟩ := List.forall_mem_cons.1 tail
  have start : Reader.put c [] = [.word [c]] := by simp [Reader.put, first]
  have spelling : spell (c :: rest) = [.word (c :: rest)] := by
    rw [spell, List.foldl_cons, start, go [c] rest others]
    rfl
  rw [← spelling]
  exact spelled fun d member => isOrdinary_of_isTail (tail d member)

end Reads

end EntityQuery.Rendering
