import EntityQuery.Proofs.Appending
import EntityQuery.Proofs.Building
import EntityQuery.Proofs.Encoding
import EntityQuery.Proofs.Wire.Decisions

/-!
How deep trees may be that are read again. A level of a tree takes an object and an array, and the
criteria take one object more, so that 63 levels fit where arrays and objects nest at most 127 deep.
Nothing keeps calls from building deeper trees, and these are written all the same.
-/

set_option autoImplicit false

namespace EntityQuery

theorem Drawing.some_of_bind {α β : Type} {x : Drawing α} {f : α → Drawing β} {s : IdSupply}
    {r : β × IdSupply} (h : (x >>= f).run s = some r) :
    ∃ a s', x.run s = some (a, s') ∧ (f a).run s' = some r := by
  rw [StateT.run_bind] at h
  obtain ⟨⟨a, s'⟩, first, rest⟩ := Option.bind_eq_some_iff.1 h
  exact ⟨a, s', first, rest⟩

namespace Node

mutual

def levels : Node → Nat
  | ⟨_, _, _, _, _, children⟩ => levelsOf children + 1

def levelsOf : List Node → Nat
  | [] => 0
  | n :: ns => max n.levels (levelsOf ns)

end

theorem levels_eq (n : Node) : n.levels = levelsOf n.children + 1 := by
  cases n
  rfl

theorem levelsOf_append (ns ms : List Node) :
    levelsOf (ns ++ ms) = max (levelsOf ns) (levelsOf ms) := by
  induction ns with
  | nil => simp [levelsOf]
  | cons n ns ih => simp [levelsOf, ih, max_assoc]

theorem levels_push (a b : Node) (op : Combinator) :
    (a.push op b).levels = max a.levels (b.levels + 1) := by
  simp only [levels_eq, push, levelsOf_append, levelsOf]
  omega

theorem operands_eq (n : Node) : n.operands = n.operand :: operandsOf n.children := by
  cases n
  rfl

theorem operandsOf_append (ns ms : List Node) :
    operandsOf (ns ++ ms) = operandsOf ns ++ operandsOf ms := by
  induction ns with
  | nil => rfl
  | cons n ns ih => simp [operandsOf, ih]

theorem operands_push (a b : Node) (op : Combinator) :
    (a.push op b).operands = a.operands ++ b.operands := by
  rw [operands_eq a, operands_eq (a.push op b)]
  simp [push, operandsOf_append, operandsOf]

mutual

@[simp] theorem count_stored (n : Node) : n.stored.count = n.count := by
  match n with
  | ⟨id, selector, op, operand, next, children⟩ =>
    simp only [stored, count, countAll_storedAll children]

theorem countAll_storedAll (ns : List Node) : countAll (storedAll ns) = countAll ns := by
  match ns with
  | [] => rfl
  | n :: ns => simp only [storedAll, countAll, count_stored n, countAll_storedAll ns]

end

mutual

theorem exists_json?_iff (n : Node) :
    (∃ j, n.json? = .ok j) ↔ ∀ v ∈ n.operands, ∃ s, v.text? = .ok s := by
  match n with
  | ⟨id, selector, op, operand, next, children⟩ =>
    rw [operands, List.forall_mem_cons, ← exists_jsonAll?_iff children, json?]
    cases operand.text? <;> cases jsonAll? children <;>
      simp [bind, Except.bind, pure, Except.pure]

theorem exists_jsonAll?_iff (ns : List Node) :
    (∃ js, jsonAll? ns = .ok js) ↔ ∀ v ∈ operandsOf ns, ∃ s, v.text? = .ok s := by
  match ns with
  | [] => simp [jsonAll?, operandsOf]
  | n :: ns =>
    rw [operandsOf, List.forall_mem_append, ← exists_json?_iff n, ← exists_jsonAll?_iff ns,
      jsonAll?]
    cases n.json? <;> cases jsonAll? ns <;> simp [bind, Except.bind, pure, Except.pure]

end

theorem fits_wire (n : Node) (stored : String) (js : List Json) (room : Nat) :
    (n.wire stored js).fits room = true ↔ 2 ≤ room ∧ Json.itemsFit (room - 2) js = true := by
  simp only [wire, Json.fits, Json.membersFit, Bool.true_and, Bool.and_true, Bool.and_eq_true,
    bne_iff_ne, Nat.sub_sub, ← and_assoc, and_congr_left_iff]
  omega

mutual

theorem fits_json?_iff {n : Node} {j : Json} (written : n.json? = .ok j) (room : Nat) :
    j.fits room = true ↔ 2 * n.levels ≤ room := by
  match n with
  | ⟨id, selector, op, operand, next, children⟩ =>
    obtain ⟨stored, js, -, (items : jsonAll? children = .ok js), rfl⟩ := json?_inv written
    rw [fits_wire, itemsFit_jsonAll?_iff items, levels]
    omega

theorem itemsFit_jsonAll?_iff {ns : List Node} {js : List Json} (written : jsonAll? ns = .ok js)
    (room : Nat) : Json.itemsFit room js = true ↔ 2 * levelsOf ns ≤ room := by
  match ns with
  | [] =>
    cases written
    simp [Json.itemsFit, levelsOf]
  | n :: ns =>
    obtain ⟨i, is, first, rest, rfl⟩ := jsonAll?_cons_inv written
    rw [Json.itemsFit, Bool.and_eq_true, fits_json?_iff first, itemsFit_jsonAll?_iff rest, levelsOf]
    omega

end

theorem read_wire_inv {n : Node} {stored : String} {js : List Json} {room : Nat} {s : IdSupply}
    {r : Node × IdSupply} (text : n.operand.text? = .ok stored)
    (back : (read room (n.wire stored js)).run s = some r) :
    n.operand.nesting ≤ Json.maxDepth ∧
      ∃ below, room = below + 2 ∧ ∃ r, (js.mapM (read below)).run s = some r := by
  cases room with
  | zero =>
    rw [read] at back
    cases back
  | succ room =>
    rw [run_read_wire] at back
    obtain ⟨v, own, back⟩ := Option.bind_eq_some_iff.1 back
    obtain ⟨r, below, -⟩ := Option.map_eq_some_iff.1 back
    constructor
    · rw [← Operand.fits_json_iff]
      by_contra deep
      rw [Operand.ofText_written text, if_neg deep] at own
      cases own
    · cases room with
      | zero =>
        rw [readAll] at below
        · cases below
        · rintro _ _ ⟨⟩
      | succ room =>
        rw [readAll] at below
        exact ⟨room, rfl, r, below⟩

mutual

theorem legible_of_read {n : Node} {j : Json} (written : n.json? = .ok j) {room : Nat}
    {s : IdSupply} {r : Node × IdSupply} (back : (read room j.canonical).run s = some r) :
    2 * n.levels ≤ room ∧ ∀ v ∈ n.operands, v.nesting ≤ Json.maxDepth := by
  match n with
  | ⟨id, selector, op, operand, next, children⟩ =>
    obtain ⟨stored, js, text, (items : jsonAll? children = .ok js), rfl⟩ := json?_inv written
    rw [canonical_wire] at back
    obtain ⟨own, below, rfl, r, inside⟩ := read_wire_inv text back
    obtain ⟨levels, shallow⟩ := legible_of_mapM_read items inside
    rw [Node.levels, operands, List.forall_mem_cons]
    exact ⟨by omega, own, shallow⟩

theorem legible_of_mapM_read {ns : List Node} {js : List Json} (written : jsonAll? ns = .ok js)
    {room : Nat} {s : IdSupply} {r : List Node × IdSupply}
    (back : ((Json.canonicalItems js).mapM (read room)).run s = some r) :
    2 * levelsOf ns ≤ room ∧ ∀ v ∈ operandsOf ns, v.nesting ≤ Json.maxDepth := by
  match ns with
  | [] => simp [levelsOf, operandsOf]
  | n :: ns =>
    obtain ⟨i, is, first, rest, rfl⟩ := jsonAll?_cons_inv written
    rw [Json.canonicalItems, List.mapM_cons] at back
    obtain ⟨_, _, here, back⟩ := Drawing.some_of_bind back
    obtain ⟨_, _, after, -⟩ := Drawing.some_of_bind back
    obtain ⟨levels, shallow⟩ := legible_of_read first here
    obtain ⟨levels', shallow'⟩ := legible_of_mapM_read rest after
    rw [levelsOf, operandsOf, List.forall_mem_append]
    exact ⟨by omega, shallow, shallow'⟩

end

end Node

namespace Criteria

variable {c : Criteria}

theorem exists_text?_iff (c : Criteria) :
    (∃ text, c.text? = .ok text) ↔ ∀ v ∈ c.tree.operands, ∃ s, v.text? = .ok s := by
  rw [← Node.exists_json?_iff, text?, json?]
  cases c.tree.json? <;> simp [bind, Except.bind, pure, Except.pure]

theorem fits_json?_iff {j : Json} (written : c.json? = .ok j) (room : Nat) :
    j.fits room = true ↔ 2 * c.tree.levels + 1 ≤ room := by
  obtain ⟨tree, inner, rfl⟩ := json?_inv written
  simp only [Json.fits, Json.membersFit, Node.fits_json?_iff inner, Bool.true_and, Bool.and_true,
    Bool.and_eq_true, bne_iff_ne]
  omega

theorem legible_of_read {j : Json} (written : c.json? = .ok j) {room : Nat} {s : IdSupply}
    {r : Criteria × IdSupply} (back : (read room j.canonical).run s = some r) :
    2 * c.tree.levels + 1 ≤ room ∧ ∀ v ∈ c.tree.operands, v.nesting ≤ Json.maxDepth := by
  obtain ⟨tree, inner, rfl⟩ := json?_inv written
  cases room with
  | zero => cases back
  | succ room =>
    simp only [Json.canonical, Json.canonicalMembers, run_read_wire] at back
    obtain ⟨r, below, -⟩ := Option.map_eq_some_iff.1 back
    obtain ⟨levels, shallow⟩ := Node.legible_of_read inner below
    exact ⟨Nat.succ_le_succ levels, shallow⟩

theorem run_ofText_text {text : String} (written : c.text? = .ok text) (s : IdSupply) :
    (ofText text).run s =
      if c.tree.levels ≤ 63 ∧ ∀ v ∈ c.tree.operands, v.nesting ≤ 127 then some (c.stored, s)
      else none := by
  obtain ⟨j, json, rfl⟩ := text?_inv written
  split
  next legible =>
    have fits : j.fits Json.maxDepth = true := by
      rw [fits_json?_iff json, Json.maxDepth]
      omega
    exact ofText_text json fits (fun v member => (v.fits_json_iff _).2 (legible.2 v member)) s
  next illegible =>
    have parsed := Json.parse_text (exact_of_json? json)
    have reads : (ofText j.text).run s = (read Json.maxDepth j.canonical).run s := by
      simp [ofText, parsed]
    rw [reads]
    cases back : (read Json.maxDepth j.canonical).run s with
    | none => rfl
    | some r =>
      obtain ⟨levels, shallow⟩ := legible_of_read json back
      rw [Json.maxDepth] at levels shallow
      exact absurd ⟨by omega, shallow⟩ illegible

end Criteria

inductive Assembly where
  | constant (id nodeId : Uuid) (accept : Bool)
  | leaf (before : Assembly) (x : LeafCall)
  | splice (before inner : Assembly) (next : Combinator)

namespace Assembly

def build (t : EntityType) : Assembly → Resolving Criteria
  | constant id nodeId accept => pure (.ofTree t id (.sentinel nodeId accept))
  | leaf before x => do x.appendTo t (← before.build t)
  | splice before inner next => do
    let c ← before.build t
    c.appendCriteria (← inner.build t) next

def levels : Assembly → Nat
  | constant .. => 1
  | leaf before _ => max before.levels 2
  | splice before inner _ => max before.levels (inner.levels + 1)

def calls : Assembly → List LeafCall
  | constant .. => []
  | leaf before x => before.calls ++ [x]
  | splice before inner _ => before.calls ++ inner.calls

inductive Makes : Assembly → Node → Prop where
  | constant (id nodeId : Uuid) (accept : Bool) :
      Makes (.constant id nodeId accept) (.sentinel nodeId accept)
  | leaf {before : Assembly} {m : Node} {x : LeafCall} {p : Path} {v : Operand}
      (made : Makes before m) (kept : Criteria.leafOperand p x.op x.operand = .ok v) :
      Makes (.leaf before x) (m.push x.next (.leaf x.id (Text.trimmed x.selector) x.op v x.next))
  | splice {before inner : Assembly} {m n : Node} (next : Combinator) (made : Makes before m)
      (apart : Makes inner n) : Makes (.splice before inner next) (m.push next n)

variable {t : EntityType} {a : Assembly} {c : Criteria} {k : PathCache} {n : Node}

theorem makes_of_build (built : (a.build t).answer k = .ok c) : a.Makes c.tree := by
  induction a generalizing c k with
  | constant id nodeId accept =>
    cases built
    exact .constant id nodeId accept
  | leaf before x ih =>
    obtain ⟨d, k', made, appended⟩ := Resolving.ok_of_answer_bind built
    obtain ⟨p, v, kept, rfl⟩ := Criteria.push_of_appendLeaf appended
    exact .leaf (ih made) kept
  | splice before inner next ih ihInner =>
    obtain ⟨d, k', made, rest⟩ := Resolving.ok_of_answer_bind built
    obtain ⟨e, k'', apart, spliced⟩ := Resolving.ok_of_answer_bind rest
    rw [Criteria.appendCriteria_inv spliced]
    exact .splice next (ih made) (ihInner apart)

theorem Makes.levels_eq (made : a.Makes n) : n.levels = a.levels := by
  induction made with
  | constant => rfl
  | leaf made kept ih =>
    rw [Node.levels_push, ih]
    rfl
  | splice next made apart ih ihApart =>
    rw [Node.levels_push, ih, ihApart]
    rfl

theorem nesting_of_leafOperand {p : Path} {op : Operator} {v w : Operand}
    (kept : Criteria.leafOperand p op v = .ok w) : w.nesting ≤ v.nesting := by
  unfold Criteria.leafOperand at kept
  split at kept
  next =>
    cases kept
    exact le_rfl
  next => exact Operand.nesting_of_coerce kept

theorem Makes.shallow {depth : Nat} (made : a.Makes n)
    (shallow : ∀ x ∈ a.calls, x.operand.nesting ≤ depth) :
    ∀ v ∈ n.operands, v.nesting ≤ depth := by
  induction made with
  | constant id nodeId accept => exact List.forall_mem_singleton.2 (Nat.zero_le depth)
  | leaf made kept ih =>
    rw [calls, List.forall_mem_append, List.forall_mem_singleton] at shallow
    rw [Node.operands_push, List.forall_mem_append]
    have own := (nesting_of_leafOperand kept).trans shallow.2
    exact ⟨ih shallow.1, List.forall_mem_singleton.2 own⟩
  | splice next made apart ih ihApart =>
    rw [calls, List.forall_mem_append] at shallow
    rw [Node.operands_push, List.forall_mem_append]
    exact ⟨ih shallow.1, ihApart shallow.2⟩

/-- Criteria that are built and written are read again if and only if the calls stack at most 63
levels and lists nest at most 127 deep in the operands, as they do if no call has a deeper one. What
is read has the same id, type name and number of nodes. -/
theorem ofText_built {text : String} (built : (a.build t).answer k = .ok c)
    (written : c.text? = .ok text) (s : IdSupply) :
    (a.levels ≤ 63 ∧ (∀ v ∈ c.tree.operands, v.nesting ≤ 127) →
      ∃ d, (Criteria.ofText text).run s = some (d, s) ∧ d.id = c.id ∧
        d.entityTypeName = c.entityTypeName ∧ d.tree.count = c.tree.count) ∧
    ((63 < a.levels ∨ ∃ v ∈ c.tree.operands, 127 < v.nesting) →
      (Criteria.ofText text).run s = none) ∧
    ((∀ x ∈ a.calls, x.operand.nesting ≤ 127) → ∀ v ∈ c.tree.operands, v.nesting ≤ 127) := by
  have made := makes_of_build built
  rw [Criteria.run_ofText_text written, made.levels_eq]
  refine ⟨fun legible => ?_, fun deep => if_neg ?_, made.shallow⟩
  · exact ⟨c.stored, if_pos legible, rfl, rfl, c.tree.count_stored⟩
  · rintro ⟨levels, shallow⟩
    rcases deep with deep | ⟨v, member, deep⟩
    · omega
    · exact absurd (shallow v member) (by omega)

def grouped : Assembly :=
  .splice
    (.leaf (.constant ⟨1⟩ ⟨2⟩ true)
      ⟨⟨3⟩, .and, "age", .contains, .list [.number (.int 36), .list [.null]]⟩)
    (.leaf (.constant ⟨4⟩ ⟨5⟩ false) ⟨⟨6⟩, .or, " boss . name ", .equal, .string "Ada"⟩) .or

theorem ofText_built_grouped : ∃ c text d, (grouped.build .person).answer .empty = .ok c ∧
    c.text? = .ok text ∧ grouped.levels = 3 ∧ (∀ x ∈ grouped.calls, x.operand.nesting ≤ 127) ∧
    (∀ v ∈ c.tree.operands, v.nesting ≤ 127) ∧
    (Criteria.ofText text).run ⟨⟨7⟩⟩ = some (d, ⟨⟨7⟩⟩) ∧ d.id = ⟨1⟩ ∧
    d.entityTypeName = "Person" ∧ d.tree.count = 4 := by
  obtain ⟨c, built⟩ : ∃ c, (grouped.build .person).answer .empty = .ok c := ⟨_, rfl⟩
  obtain ⟨text, written⟩ : ∃ text, c.text? = .ok text := by
    cases built
    exact ⟨_, rfl⟩
  have given : ∀ x ∈ grouped.calls, x.operand.nesting ≤ 127 := by decide
  obtain ⟨reads, -, kept⟩ := ofText_built built written ⟨⟨7⟩⟩
  obtain ⟨d, read, id, name, count⟩ := reads ⟨by decide, kept given⟩
  refine ⟨c, text, d, built, written, rfl, given, kept given, read, id.trans ?_, name.trans ?_,
    count.trans ?_⟩
  all_goals
    cases built
    rfl

def tower : Nat → Assembly
  | 0 => .constant ⟨0⟩ ⟨1⟩ true
  | n + 1 =>
    .splice (.constant ⟨.ofNat 128 (2 * n + 2)⟩ ⟨.ofNat 128 (2 * n + 3)⟩ true) (tower n) .and

theorem levels_tower (n : Nat) : (tower n).levels = n + 1 := by
  induction n with
  | zero => rfl
  | succ n ih =>
    rw [tower, levels, levels, ih]
    omega

theorem build_tower (t : EntityType) (n : Nat) (k : PathCache) :
    ∃ c, ((tower n).build t).answer k = .ok c ∧ c.entityTypeName = t.name ∧
      ∀ v ∈ c.tree.operands, v = .bool true := by
  induction n with
  | zero => exact ⟨_, rfl, rfl, List.forall_mem_singleton.2 rfl⟩
  | succ n ih =>
    obtain ⟨c, built, name, constant⟩ := ih
    let root : Criteria :=
      .ofTree t ⟨.ofNat 128 (2 * n + 2)⟩ (.sentinel ⟨.ofNat 128 (2 * n + 3)⟩ true)
    have spliced : root.appendCriteria c .and = .ok (root.push .and c.tree) := if_pos name
    have step : ((tower (n + 1)).build t).answer k =
        Resolving.answer ((tower n).build t >>= fun c => root.appendCriteria c .and) k := rfl
    refine ⟨root.push .and c.tree, ?_, rfl, ?_⟩
    · rw [step, Resolving.answer, Resolving.run_bind, Resolving.run_eq, built]
      exact spliced
    · rw [Criteria.tree_push, Node.operands_push, List.forall_mem_append]
      exact ⟨List.forall_mem_singleton.2 rfl, constant⟩

-- One level too many: what was spliced 63 times is written and can not be read.
theorem ofText_tower : ∃ c text, ((tower 63).build .person).answer .empty = .ok c ∧
    c.text? = .ok text ∧ ∀ s, (Criteria.ofText text).run s = none := by
  obtain ⟨c, built, -, constant⟩ := build_tower .person 63 .empty
  obtain ⟨text, written⟩ : ∃ text, c.text? = .ok text := by
    rw [Criteria.exists_text?_iff]
    intro v member
    rw [constant v member]
    exact ⟨_, rfl⟩
  refine ⟨c, text, built, written, fun s => ?_⟩
  rw [Criteria.run_ofText_text written, (makes_of_build built).levels_eq, levels_tower]
  exact if_neg fun legible => absurd legible.1 (by decide)

end Assembly

end EntityQuery
