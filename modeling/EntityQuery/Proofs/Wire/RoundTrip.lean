import EntityQuery.Proofs.Stored
import EntityQuery.Wire.Request

set_option autoImplicit false

namespace EntityQuery

open Wire

namespace Uuid

theorem length_hexDigits (width n : Nat) : (hexDigits width n).length = width := by
  induction width generalizing n with
  | zero => rfl
  | succ width ih => simp [hexDigits, ih]

theorem hexDigits_digit (width n : Nat) :
    ∀ c ∈ hexDigits width n, ∃ k < 16, c = Nat.digitChar k := by
  induction width generalizing n with
  | zero => simp [hexDigits]
  | succ width ih =>
    have last : ∃ k < 16, Nat.digitChar (n % 16) = Nat.digitChar k :=
      ⟨n % 16, Nat.mod_lt n (by decide), rfl⟩
    rw [hexDigits, List.forall_mem_append]
    exact ⟨ih (n / 16), by simpa using last⟩

theorem natOfHex?_hexDigits (width n : Nat) :
    natOfHex? (hexDigits width n) = some (n % 16 ^ width) := by
  induction width generalizing n with
  | zero => simp [hexDigits, natOfHex?, Nat.mod_one]
  | succ width ih =>
    have digit := Json.hexValue?_hexDigit (n % 16) (Nat.mod_lt n (by decide))
    have value : 16 * (n / 16 % 16 ^ width) + n % 16 = n % 16 ^ (width + 1) := by
      rw [Nat.pow_succ', Nat.mod_mul, Nat.add_comm]
    simp only [natOfHex?] at ih
    simp only [Json.hexDigit] at digit
    simp [natOfHex?, hexDigits, ih, digit, value]

theorem filter_hyphenated {ds : List Char} (digits : ∀ c ∈ ds, c ≠ '-') :
    (hyphenated ds).filter (· != '-') = ds := by
  have kept {es : List Char} (inside : es ⊆ ds) : es.filter (· != '-') = es := by
    rw [List.filter_eq_self]
    exact fun c member => by simpa using digits c (inside member)
  have part (k l : Nat) : ((ds.drop k).take l).filter (· != '-') = (ds.drop k).take l :=
    kept fun c member => List.mem_of_mem_drop (List.mem_of_mem_take member)
  have join (k l : Nat) : (ds.drop k).take l ++ ds.drop (k + l) = ds.drop k := by
    rw [← List.drop_drop, List.take_append_drop]
  have first := kept (List.take_subset 8 ds)
  have last := kept (List.drop_subset 20 ds)
  simp only [hyphenated, List.filter_append, List.filter_cons, first, last, part]
  simp only [bne_self_eq_false, Bool.false_eq_true, if_false, List.append_assoc, join 16 4, join 12 4,
    join 8 4, List.take_append_drop]

theorem ofText?_text (u : Uuid) : ofText? u.text = some u := by
  let ds := hexDigits 32 u.value.toNat
  have digits := hexDigits_digit 32 u.value.toNat
  have length : ds.length = 32 := length_hexDigits 32 _
  have plain : ∀ c ∈ ds, c ≠ '-' ∧ c ≠ '\x7b' ∧ c ≠ 'u' := by
    have all : ∀ k < 16, Nat.digitChar k ≠ '-' ∧ Nat.digitChar k ≠ '\x7b' ∧ Nat.digitChar k ≠ 'u' := by
      decide
    intro c member
    obtain ⟨k, small, rfl⟩ := digits c member
    exact all k small
  -- A text that begins with a digit is read as digits alone, or else with its hyphens.
  have value : ofDigits? ds = some u := by
    have bound : u.value.toNat % 16 ^ 32 = u.value.toNat := Nat.mod_eq_of_lt u.value.isLt
    rw [ofDigits?, if_pos length, natOfHex?_hexDigits, bound]
    simp
  have hyphens : ofHyphenated? (hyphenated ds) = some u := by
    rw [ofHyphenated?, filter_hyphenated fun c member => (plain c member).1]
    simp [value]
  have long : ofDigits? (hyphenated ds) = none := by
    rw [ofDigits?, if_neg]
    simp [hyphenated, length]
  obtain ⟨c, cs, first⟩ : ∃ c cs, ds = c :: cs := by
    apply List.exists_cons_of_ne_nil
    rintro empty
    simp [empty] at length
  obtain ⟨rest, begins⟩ : ∃ rest, hyphenated ds = c :: rest :=
    ⟨_, by simp [hyphenated, first]; rfl⟩
  have head := plain c (by simp [first])
  rw [ofText?, text, String.toList_ofList, begins]
  rw [begins] at hyphens long
  split
  next same => exact absurd (List.cons.inj same).1 head.2.1
  next same => exact absurd (List.cons.inj same).1 head.2.2
  next => simp [long, hyphens]

end Uuid

namespace Json

theorem record?_object {names : List String} (distinct : names.Nodup) {ms : List (String × Json)}
    (keys : (ms.map Prod.fst).Sublist names) : (object ms).record? names = some ms := by
  have kept : ms.filter (fun m => names.contains m.1) = ms := by
    rw [List.filter_eq_self]
    intro m member
    simpa using keys.subset (List.mem_map_of_mem member)
  simp only [record?, fieldsOf?, kept, distinct.sublist keys, if_true]

theorem canonicalItems_eq_map (js : List Json) : canonicalItems js = js.map canonical := by
  induction js with
  | nil => rfl
  | cons j js ih => simp [canonicalItems, ih]

theorem canonicalMembers_eq_map (ms : List (String × Json)) :
    canonicalMembers ms = ms.map fun m => (m.1, m.2.canonical) := by
  induction ms with
  | nil => rfl
  | cons m ms ih => simp [canonicalMembers, ih]

theorem keys_canonicalMembers (ms : List (String × Json)) :
    (canonicalMembers ms).map Prod.fst = ms.map Prod.fst := by
  simp [canonicalMembers_eq_map]

theorem lookup_canonicalMembers (ms : List (String × Json)) (k : String) :
    (canonicalMembers ms).lookup k = (ms.lookup k).map canonical := by
  induction ms with
  | nil => rfl
  | cons m ms ih =>
    obtain ⟨l, j⟩ := m
    simp only [canonicalMembers, List.lookup_cons, ih]
    split <;> rfl

theorem membersExact_append (ms ns : List (String × Json)) :
    MembersExact (ms ++ ns) ↔ MembersExact ms ∧ MembersExact ns := by
  induction ms with
  | nil => simp [MembersExact]
  | cons m ms ih => simp [MembersExact, ih, and_assoc]

theorem fits_array {room : Nat} {js : List Json} (fits : (array js).fits room = true) :
    room ≠ 0 ∧ ∀ j ∈ js, j.fits (room - 1) = true := by
  simp only [Json.fits, Bool.and_eq_true, bne_iff_ne] at fits
  refine ⟨fits.1, ?_⟩
  replace fits := fits.2
  induction js with
  | nil => simp
  | cons j js ih =>
    simp only [itemsFit, Bool.and_eq_true] at fits
    exact List.forall_mem_cons.2 ⟨fits.1, ih fits.2⟩

theorem fits_object {room : Nat} {ms : List (String × Json)} (fits : (object ms).fits room = true) :
    room ≠ 0 ∧ ∀ k j, ms.lookup k = some j → j.fits (room - 1) = true := by
  simp only [Json.fits, Bool.and_eq_true, bne_iff_ne] at fits
  refine ⟨fits.1, ?_⟩
  replace fits := fits.2
  induction ms with
  | nil => simp
  | cons m ms ih =>
    obtain ⟨l, i⟩ := m
    simp only [membersFit, Bool.and_eq_true] at fits
    intro k j found
    rw [List.lookup_cons] at found
    split at found
    next =>
      cases found
      exact fits.1
    next => exact ih fits.2 k j found

end Json

namespace Wire

variable {α : Type}

theorem items?_map {read : Nat → Json → Option α} {write : α → Json} {as : List α} {room : Nat}
    (fits : (Json.array (as.map write)).fits room = true)
    (back : ∀ a ∈ as, (write a).fits (room - 1) = true → read (room - 1) (write a) = some a) :
    items? room read (.array (as.map write)) = some as := by
  obtain ⟨outer, each⟩ := Json.fits_array fits
  simp only [items?, outer, if_false]
  clear fits
  induction as with
  | nil => rfl
  | cons a as ih =>
    simp only [List.map_cons, List.forall_mem_cons] at back each
    have first := back.1 each.1
    have rest := ih back.2 each.2
    rw [List.map_cons, List.mapM_cons, first, rest]
    rfl

theorem nullable_eq {fields : List (String × Json)} {name : String} {read : Json → Option α}
    {write : α → Json} {a : Option α} (found : fields.lookup name = a.map write)
    (shown : ∀ x, write x ≠ .null) (back : ∀ x ∈ a, read (write x) = some x) :
    nullable fields name read = some a := by
  cases a with
  | none => simp [nullable, found]
  | some x =>
    have value := back x rfl
    rw [nullable, found, Option.map_some]
    split
    next null => exact absurd (Option.some.inj null) (shown x)
    next none => cases none
    next some => cases some; rw [value]; rfl

end Wire

namespace Node

def wire (n : Node) (stored : String) (js : List Json) : Json :=
  .object
    [("id", .string n.id.text), ("selectorPath", .string n.selector),
     ("operator", .string n.op.name), ("serializedValue", .string stored),
     ("nextLogicalOperator", .string n.next.name), ("children", .array js)]

theorem json?_inv {n : Node} {j : Json} (written : n.json? = .ok j) : ∃ stored js,
    n.operand.text? = .ok stored ∧ jsonAll? n.children = .ok js ∧ j = n.wire stored js := by
  obtain ⟨id, selector, op, operand, next, children⟩ := n
  simp only [json?] at written
  cases text : operand.text? with
  | error e => rw [text] at written; cases written
  | ok stored =>
    cases below : jsonAll? children with
    | error e => rw [text, below] at written; cases written
    | ok js => rw [text, below] at written; cases written; exact ⟨stored, js, rfl, rfl, rfl⟩

theorem jsonAll?_cons_inv {n : Node} {ns : List Node} {js : List Json}
    (written : jsonAll? (n :: ns) = .ok js) :
    ∃ i is, n.json? = .ok i ∧ jsonAll? ns = .ok is ∧ js = i :: is := by
  simp only [jsonAll?] at written
  cases first : n.json? with
  | error e => rw [first] at written; cases written
  | ok i =>
    cases rest : jsonAll? ns with
    | error e => rw [first, rest] at written; cases written
    | ok is => rw [first, rest] at written; cases written; exact ⟨i, is, rfl, rfl, rfl⟩

theorem canonical_wire (n : Node) (stored : String) (js : List Json) :
    (n.wire stored js).canonical = n.wire stored (Json.canonicalItems js) := by
  simp [wire, Json.canonical, Json.canonicalMembers]

theorem room_of_fits {n : Node} {stored : String} {js : List Json} {room : Nat}
    (fits : (n.wire stored js).fits room = true) :
    ∃ below, room = below + 2 ∧ ∀ j ∈ js, j.fits below = true := by
  obtain ⟨outer, members⟩ := Json.fits_object fits
  obtain ⟨inner, items⟩ := Json.fits_array (members "children" (.array js) rfl)
  exact ⟨room - 2, by omega, items⟩

-- What is read first is the operand, then the children, with one level less for their array.
theorem run_read_wire (n : Node) (stored : String) (js : List Json) (room : Nat) (s : IdSupply) :
    (read (room + 1) (n.wire stored js)).run s =
      (Operand.ofText stored).toOption.bind fun v =>
        ((readAll room (.array js)).run s).map fun (children, s) =>
          (⟨n.id, n.selector, n.op, v, n.next, children⟩, s) := by
  have fields : (n.wire stored js).record? fieldNames = some
      [("id", .string n.id.text), ("selectorPath", .string n.selector),
       ("operator", .string n.op.name), ("serializedValue", .string stored),
       ("nextLogicalOperator", .string n.next.name), ("children", .array js)] :=
    Json.record?_object (by decide) (.refl _)
  have op := Operator.ofName?_name n.op
  have next := Combinator.ofName?_name n.next
  have id := n.id.ofText?_text
  rw [read]
  cases operand : Operand.ofText stored <;>
    simp [fields, List.lookup_cons, Wire.readId, Wire.optional, Wire.required,
      Wire.readOperator, Wire.readCombinator, Wire.named, Json.string?, Operand.ofWire?, id, op, next,
      operand, Except.toOption]

theorem read_wire {n : Node} {stored : String} {v : Operand}
    (operand : Operand.ofText stored = .ok v) {room : Nat} {js : List Json} {s : IdSupply}
    {children : List Node} (below : (js.mapM (read room)).run s = some (children, s)) :
    (read (room + 2) (n.wire stored js)).run s =
      some (⟨n.id, n.selector, n.op, v, n.next, children⟩, s) := by
  rw [run_read_wire, operand, readAll, below]
  rfl

mutual

theorem exact_of_json? {n : Node} {j : Json} (written : n.json? = .ok j) : j.Exact := by
  match n with
  | ⟨id, selector, op, operand, next, children⟩ =>
    obtain ⟨stored, js, _, below, rfl⟩ := json?_inv written
    have items := itemsExact_of_jsonAll? below
    simpa [wire, Json.Exact, Json.MembersExact] using items

theorem itemsExact_of_jsonAll? {ns : List Node} {js : List Json} (written : jsonAll? ns = .ok js) :
    Json.ItemsExact js := by
  match ns with
  | [] => cases written; trivial
  | n :: ns =>
    obtain ⟨i, is, first, rest, rfl⟩ := jsonAll?_cons_inv written
    exact ⟨exact_of_json? first, itemsExact_of_jsonAll? rest⟩

end

mutual

theorem read_json? {n : Node} {j : Json} (written : n.json? = .ok j) {room : Nat}
    (fits : j.fits room = true) (shallow : ∀ v ∈ n.operands, v.json.fits Json.maxDepth = true)
    (s : IdSupply) : (read room j.canonical).run s = some (n.stored, s) := by
  match n with
  | ⟨id, selector, op, operand, next, children⟩ =>
    obtain ⟨stored, js, text, items, rfl⟩ := json?_inv written
    simp only [operands, List.forall_mem_cons] at shallow
    -- A level of the tree takes an object and the array of its children.
    obtain ⟨below, rfl, inside⟩ := room_of_fits fits
    have children := mapM_read_jsonAll? items inside shallow.2 s
    rw [canonical_wire]
    exact read_wire (Operand.ofText_text? text shallow.1) children

theorem mapM_read_jsonAll? {ns : List Node} {js : List Json} (written : jsonAll? ns = .ok js)
    {room : Nat} (fits : ∀ j ∈ js, j.fits room = true)
    (shallow : ∀ v ∈ operandsOf ns, v.json.fits Json.maxDepth = true) (s : IdSupply) :
    ((Json.canonicalItems js).mapM (read room)).run s = some (storedAll ns, s) := by
  match ns with
  | [] => cases written; rfl
  | n :: ns =>
    obtain ⟨i, is, first, rest, rfl⟩ := jsonAll?_cons_inv written
    simp only [operandsOf, List.forall_mem_append] at shallow
    simp only [List.forall_mem_cons] at fits
    have head := read_json? first fits.1 shallow.1 s
    have tail := mapM_read_jsonAll? rest fits.2 shallow.2 s
    simp [Json.canonicalItems, List.mapM_cons, head, tail, storedAll]

end

end Node

namespace Criteria

def stored (c : Criteria) : Criteria :=
  { c with tree := c.tree.stored }

theorem json?_inv {c : Criteria} {j : Json} (written : c.json? = .ok j) :
    ∃ tree, c.tree.json? = .ok tree ∧ j = .object
      [("id", .string c.id.text), ("entityTypeName", .string c.entityTypeName), ("tree", tree)] := by
  unfold json? at written
  cases inner : c.tree.json? with
  | error e => rw [inner] at written; cases written
  | ok tree => rw [inner] at written; cases written; exact ⟨tree, rfl, rfl⟩

theorem exact_of_json? {c : Criteria} {j : Json} (written : c.json? = .ok j) : j.Exact := by
  obtain ⟨tree, inner, rfl⟩ := json?_inv written
  exact ⟨trivial, trivial, Node.exact_of_json? inner, trivial⟩

theorem run_read_wire (c : Criteria) (tree : Json) (room : Nat) (s : IdSupply) :
    (read (room + 1) (.object [("id", .string c.id.text),
        ("entityTypeName", .string c.entityTypeName), ("tree", tree)])).run s =
      ((Node.read room tree).run s).map fun (n, s) => (⟨c.id, c.entityTypeName, n⟩, s) := by
  have fields : (Json.object
      [("id", .string c.id.text), ("entityTypeName", .string c.entityTypeName),
       ("tree", tree)]).record? ["id", "entityTypeName", "tree"] = some
      [("id", .string c.id.text), ("entityTypeName", .string c.entityTypeName), ("tree", tree)] :=
    Json.record?_object (by decide) (.refl _)
  have id := c.id.ofText?_text
  simp [read, fields?, fields, required, readId, Json.string?, List.lookup_cons, id]

theorem read_json? {c : Criteria} {j : Json} (written : c.json? = .ok j) {room : Nat}
    (fits : j.fits room = true) (shallow : ∀ v ∈ c.tree.operands, v.json.fits Json.maxDepth = true)
    (s : IdSupply) : (read room j.canonical).run s = some (c.stored, s) := by
  obtain ⟨tree, inner, rfl⟩ := json?_inv written
  obtain ⟨outer, members⟩ := Json.fits_object fits
  cases room with
  | zero => exact absurd rfl outer
  | succ room =>
    have node : (Node.read room tree.canonical).run s = some (c.tree.stored, s) :=
      Node.read_json? inner (members "tree" tree rfl) shallow s
    simp [Json.canonical, Json.canonicalMembers, run_read_wire, node, stored]

theorem ofText_text {c : Criteria} {j : Json} (written : c.json? = .ok j)
    (fits : j.fits Json.maxDepth = true)
    (shallow : ∀ v ∈ c.tree.operands, v.json.fits Json.maxDepth = true) (s : IdSupply) :
    (ofText j.text).run s = some (c.stored, s) := by
  have parsed := Json.parse_text (exact_of_json? written)
  have back := read_json? written fits shallow s
  simp [ofText, parsed, back]

end Criteria

namespace SortSpec

theorem canonical_json (s : SortSpec) : s.json.canonical = s.json := by
  have items : (s.map SortItem.json).map Json.canonical = s.map SortItem.json := by
    rw [List.map_map]
    rfl
  rw [json, Json.canonical, Json.canonicalItems_eq_map, items]

theorem exact_json (s : SortSpec) : s.json.Exact := by
  unfold json Json.Exact
  induction s with
  | nil => trivial
  | cons i s ih => exact ⟨⟨trivial, trivial, trivial⟩, ih⟩

theorem read_json {s : SortSpec} {room : Nat} (fits : s.json.fits room = true) :
    read room s.json = some s := by
  refine items?_map fits fun i _ fits => ?_
  obtain ⟨outer, _⟩ := Json.fits_object fits
  have fields : i.json.record? ["selectorPath", "direction"] = some
      [("selectorPath", .string i.selector), ("direction", .string i.direction.name)] :=
    Json.record?_object (by decide) (.refl _)
  have direction := Direction.ofName?_name i.direction
  simp [SortItem.read, fields?, outer, fields, required, Wire.optional, readDirection, named,
    Json.string?, List.lookup_cons, direction]

end SortSpec

namespace Pagination

theorem read_json {p : Pagination} {room : Nat} (fits : p.json.fits room = true) :
    read room p.json.canonical = some p := by
  obtain ⟨outer, _⟩ := Json.fits_object fits
  have fields : p.json.canonical.record? ["pageNumber", "itemsPerPage"] = some
      [("pageNumber", .number (Number.canonical (.uint p.pageNumber))),
       ("itemsPerPage", .number (Number.canonical (.uint p.itemsPerPage)))] :=
    Json.record?_object (by decide) (.refl _)
  have word (n : UInt64) : (Json.number (Number.canonical (.uint n))).nat? = some n.toNat := by
    rcases (Number.uint n).canonical_cases with same | ⟨m, i, same, signed, value⟩
    · rw [same]
      rfl
    · cases same
      rw [signed]
      simp [Json.nat?, value]
  simp [read, fields?, outer, fields, required, List.lookup_cons, word]

end Pagination

namespace QueryRequest

def stored (r : QueryRequest) : QueryRequest :=
  { r with criteria := r.criteria.stored }

def members (r : QueryRequest) (criteria : Json) : List (String × Json) :=
  [("criteria", criteria)]
    ++ (r.sort.map fun s => ("sort", s.json)).toList
    ++ (r.pagination.map fun p => ("pagination", p.json)).toList
    ++ if r.includes.isEmpty then [] else [("includes", .array (r.includes.map .string))]

theorem json?_inv {r : QueryRequest} {j : Json} (written : r.json? = .ok j) :
    ∃ criteria, r.criteria.json? = .ok criteria ∧ j = .object (r.members criteria) := by
  unfold json? at written
  cases inner : r.criteria.json? with
  | error e => rw [inner] at written; cases written
  | ok criteria => rw [inner] at written; cases written; exact ⟨criteria, rfl, rfl⟩

theorem keys_members (r : QueryRequest) (criteria : Json) :
    ((r.members criteria).map Prod.fst).Sublist ["criteria", "sort", "pagination", "includes"] := by
  obtain ⟨c, sort, pagination, includes⟩ := r
  cases sort <;> cases pagination <;> cases includes <;> exact (List.isSublist_iff_sublist.1 rfl)

theorem lookup_members (r : QueryRequest) (criteria : Json) :
    (r.members criteria).lookup "criteria" = some criteria ∧
      (r.members criteria).lookup "sort" = r.sort.map SortSpec.json ∧
      (r.members criteria).lookup "pagination" = r.pagination.map Pagination.json ∧
      (r.members criteria).lookup "includes" =
        if r.includes.isEmpty then none else some (.array (r.includes.map .string)) := by
  obtain ⟨c, sort, pagination, includes⟩ := r
  cases sort <;> cases pagination <;> cases includes <;> exact ⟨rfl, rfl, rfl, rfl⟩

variable {r : QueryRequest} {criteria : Json} {room : Nat}

theorem lookup_fields (r : QueryRequest) (criteria : Json) (name : String) :
    (Json.canonicalMembers (r.members criteria)).lookup name =
      ((r.members criteria).lookup name).map Json.canonical :=
  Json.lookup_canonicalMembers _ name

theorem read_sort (below : ∀ k j, (r.members criteria).lookup k = some j → j.fits room = true) :
    nullable (Json.canonicalMembers (r.members criteria)) "sort" (SortSpec.read room) =
      some r.sort := by
  obtain ⟨_, order, _, _⟩ := lookup_members r criteria
  have found : (Json.canonicalMembers (r.members criteria)).lookup "sort" =
      r.sort.map SortSpec.json := by
    rw [lookup_fields, order, Option.map_map]
    exact congrArg (r.sort.map ·) (funext SortSpec.canonical_json)
  refine nullable_eq found nofun fun spec given => ?_
  exact SortSpec.read_json (below "sort" spec.json (by rw [order, given]; rfl))

theorem read_pagination
    (below : ∀ k j, (r.members criteria).lookup k = some j → j.fits room = true) :
    nullable (Json.canonicalMembers (r.members criteria)) "pagination" (Pagination.read room) =
      some r.pagination := by
  obtain ⟨_, _, page, _⟩ := lookup_members r criteria
  have found : (Json.canonicalMembers (r.members criteria)).lookup "pagination" =
      r.pagination.map fun p => p.json.canonical := by
    rw [lookup_fields, page, Option.map_map]
    rfl
  refine nullable_eq found nofun fun p given => ?_
  exact Pagination.read_json (below "pagination" p.json (by rw [page, given]; rfl))

theorem read_includes
    (below : ∀ k j, (r.members criteria).lookup k = some j → j.fits room = true) :
    Wire.optional (Json.canonicalMembers (r.members criteria)) "includes" []
      (items? room fun _ => Json.string?) = some r.includes := by
  obtain ⟨_, _, _, paths⟩ := lookup_members r criteria
  rw [Wire.optional, lookup_fields, paths]
  by_cases empty : r.includes.isEmpty = true
  next =>
    rw [if_pos empty, List.isEmpty_iff.1 empty]
    rfl
  next =>
    have fits := below "includes" (.array (r.includes.map .string)) (by rw [paths, if_neg empty])
    have strings : (r.includes.map Json.string).map Json.canonical = r.includes.map .string := by
      rw [List.map_map]
      rfl
    rw [if_neg empty, Option.map_some, Json.canonical, Json.canonicalItems_eq_map, strings]
    exact items?_map fits fun _ _ _ => rfl

theorem read_json? {j : Json} (written : r.json? = .ok j) (fits : j.fits room = true)
    (shallow : ∀ v ∈ r.criteria.tree.operands, v.json.fits Json.maxDepth = true) (s : IdSupply) :
    (read room j.canonical).run s = some (r.stored, s) := by
  obtain ⟨criteria, inner, rfl⟩ := json?_inv written
  obtain ⟨outer, below⟩ := Json.fits_object fits
  have first := (lookup_members r criteria).1
  have fields : (Json.object (r.members criteria)).canonical.record?
      ["criteria", "sort", "pagination", "includes"] =
        some (Json.canonicalMembers (r.members criteria)) := by
    refine Json.record?_object (by decide) ?_
    rw [Json.keys_canonicalMembers]
    exact r.keys_members criteria
  have conditions := Criteria.read_json? inner (below _ _ first) shallow s
  rw [read]
  simp [fields?, outer, fields, lookup_fields, first, conditions, read_sort below,
    read_pagination below, read_includes below, stored]

theorem exact_of_json? {j : Json} (written : r.json? = .ok j) : j.Exact := by
  obtain ⟨criteria, inner, rfl⟩ := json?_inv written
  have first := Criteria.exact_of_json? inner
  have order : Json.MembersExact (r.sort.map fun s => ("sort", s.json)).toList := by
    cases r.sort with
    | none => trivial
    | some s => exact ⟨s.exact_json, trivial⟩
  have page : Json.MembersExact (r.pagination.map fun p => ("pagination", p.json)).toList := by
    cases r.pagination with
    | none => trivial
    | some p => exact ⟨⟨trivial, trivial, trivial⟩, trivial⟩
  have strings : Json.ItemsExact (r.includes.map .string) := by
    induction r.includes with
    | nil => trivial
    | cons path rest ih => exact ⟨trivial, ih⟩
  simp only [members, Json.Exact, Json.membersExact_append]
  refine ⟨⟨⟨⟨first, trivial⟩, order⟩, page⟩, ?_⟩
  split
  next => trivial
  next => exact ⟨strings, trivial⟩

theorem ofText_text {j : Json} (written : r.json? = .ok j)
    (fits : j.fits Json.maxDepth = true)
    (shallow : ∀ v ∈ r.criteria.tree.operands, v.json.fits Json.maxDepth = true) (s : IdSupply) :
    (ofText j.text).run s = some (r.stored, s) := by
  have parsed := Json.parse_text (exact_of_json? written)
  have back := read_json? written fits shallow s
  simp [ofText, parsed, back]

end QueryRequest

end EntityQuery
