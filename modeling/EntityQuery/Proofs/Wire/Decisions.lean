import EntityQuery.Proofs.Request
import EntityQuery.Proofs.Wire.RoundTrip

set_option autoImplicit false

namespace EntityQuery

open Calendar (DateTime)
open Resolving

inductive Agree {α : Type} (R : α → α → Prop) : Except Error α → Except Error α → Prop where
  | error (e : Error) : Agree R (.error e) (.error e)
  | ok {a b : α} (related : R a b) : Agree R (.ok a) (.ok b)

theorem Agree.of_map {α β : Type} {R : α → α → Prop} {f : α → β}
    (related : ∀ a b, f a = f b → R a b) {x y : Except Error α} (same : f <$> x = f <$> y) :
    Agree R x y := by
  cases x with
  | error e =>
    cases y with
    | error e' => cases same; exact .error e
    | ok b => cases same
  | ok a =>
    cases y with
    | error e => cases same
    | ok b => exact .ok (related a b (Except.ok.inj same))

theorem Agree.exists_ok {α : Type} {R : α → α → Prop} {x : Except Error α} {b : α}
    (agree : Agree R x (.ok b)) : ∃ a, x = .ok a ∧ R a b := by
  cases agree with
  | ok related => exact ⟨_, rfl, related⟩

namespace Filter

structure Alike (f g : Filter) : Prop where
  text : f.text = g.text
  accepts : ∀ e, f.accepts e = g.accepts e

theorem alike_of_canonical {f g : Filter} (same : f.canonical = g.canonical) : f.Alike g where
  text := by rw [← f.text_canonical, same, g.text_canonical]
  accepts e := by rw [← f.accepts_canonical e, same, g.accepts_canonical e]

theorem Alike.filter {f g : Filter} (alike : f.Alike g) (items : List Entity) :
    f.filter items = g.filter items := by
  rw [Filter.filter, funext alike.accepts, Filter.filter]

end Filter

namespace Criteria

-- Criteria whose text can be read: arrays and objects nest at most 127 deep in it and in the text
-- of every operand, and all dates have years of four digits.
structure Readable (c : Criteria) : Prop where
  nested : ∀ j, c.json? = .ok j → j.fits Json.maxDepth = true
  shallow : ∀ v ∈ c.tree.operands, v.json.fits Json.maxDepth = true
  years : ∀ v ∈ c.tree.operands, v.Dates DateTime.FourDigits

-- No date has a leap second inside a minute.
def Regular (c : Criteria) : Prop :=
  ∀ v ∈ c.tree.operands, v.Dates fun d => d.time.Regular

def shown (c : Criteria) : Criteria :=
  { c with tree := c.tree.shown }

theorem dated_shown {c : Criteria} (years : ∀ v ∈ c.tree.operands, v.Dates DateTime.FourDigits) :
    ∀ v ∈ c.shown.tree.operands, v.Dated := by
  rw [shown, c.tree.operands_shown, List.forall_mem_map]
  exact fun v member => Operand.dated_shown v (years v member)

theorem Regular.shown_eq {c : Criteria} (regular : c.Regular) : c.shown = c := by
  rw [shown, Node.shown_eq_self fun v member => (Operand.shown_eq_self_iff v).2 (regular v member)]

-- Criteria with the same ids that compile alike, whatever was resolved before.
structure Alike (c d : Criteria) : Prop where
  id : c.id = d.id
  entityTypeName : c.entityTypeName = d.entityTypeName
  ids : c.tree.ids = d.tree.ids
  compile (t : EntityType) (options : CompileOptions) (k l : PathCache) :
    k.Reachable t.catalog → l.Reachable t.catalog →
      Agree Filter.Alike ((c.compile t options).answer k) ((d.compile t options).answer l)

theorem alike_stored {c : Criteria} (dated : ∀ v ∈ c.tree.operands, v.Dated) :
    c.stored.Alike c where
  id := rfl
  entityTypeName := rfl
  ids := c.tree.ids_stored
  compile t options k l reached reached' := by
    rw [compile, compile, (Node.answers_compile t options _).answer_eq reached,
      (Node.answers_compile t options _).answer_eq reached']
    exact .of_map (fun _ _ => Filter.alike_of_canonical)
      (Node.compiled_stored t options.mergeStrategy dated)

theorem alike_shown {c : Criteria} (years : ∀ v ∈ c.tree.operands, v.Dates DateTime.FourDigits) :
    c.stored.Alike c.shown := by
  have same : c.shown.stored = c.stored := by simp [shown, stored]
  exact same ▸ alike_stored (dated_shown years)

theorem text?_inv {c : Criteria} {text : String} (written : c.text? = .ok text) :
    ∃ j, c.json? = .ok j ∧ text = j.text := by
  unfold text? at written
  split at written
  next j json => exact ⟨j, json, (Except.ok.inj written).symm⟩
  next => cases written

end Criteria

namespace QueryRequest

structure Readable (r : QueryRequest) : Prop where
  nested : ∀ j, r.json? = .ok j → j.fits Json.maxDepth = true
  shallow : ∀ v ∈ r.criteria.tree.operands, v.json.fits Json.maxDepth = true
  years : ∀ v ∈ r.criteria.tree.operands, v.Dates DateTime.FourDigits

def shown (r : QueryRequest) : QueryRequest :=
  { r with criteria := r.criteria.shown }

-- Requests with the same parts, but for their criteria, which compile alike. From every list they
-- select the same entities in the same order, or fail alike. The identities of the entities may be
-- their positions in the list.
structure Alike (r q : QueryRequest) : Prop where
  criteria : r.criteria.Alike q.criteria
  sort : r.sort = q.sort
  pagination : r.pagination = q.pagination
  includes : r.includes = q.includes
  compile (t : EntityType) (k l : PathCache) : k.Reachable t.catalog → l.Reachable t.catalog →
    Agree (fun a b => a.1.Alike b.1 ∧ a.2 = b.2) ((r.compile t).answer k) ((q.compile t).answer l)
  select (t : EntityType) (items : List Entity) (k l : PathCache) :
    k.Reachable t.catalog → l.Reachable t.catalog →
      (r.select t items).answer k = (q.select t items).answer l
  selectPage (t : EntityType) (items : List Entity) (k l : PathCache) :
    k.Reachable t.catalog → l.Reachable t.catalog →
      (r.selectPage t items).answer k = (q.selectPage t items).answer l

theorem compiled_stored (t : EntityType) {r : QueryRequest}
    (dated : ∀ v ∈ r.criteria.tree.operands, v.Dated) :
    (fun a => (a.1.canonical, a.2)) <$> r.stored.compiled t =
      (fun a => (a.1.canonical, a.2)) <$> r.compiled t := by
  have filters := Node.compiled_stored t .rootForSubtrees dated
  unfold compiled
  -- Included paths and sort keys are the same on both sides; the filters are only alike.
  refine map_bind_congr (w := id) rfl fun _ _ _ => ?_
  refine map_bind_congr filters fun f g same => ?_
  refine map_bind_congr (w := id) rfl fun c d order => ?_
  rw [show c = d from order]
  exact congrArg (fun f => Except.ok (f, d)) same

theorem selected_stored (t : EntityType) {r : QueryRequest}
    (dated : ∀ v ∈ r.criteria.tree.operands, v.Dated) (items : List Entity) :
    r.stored.selected t items = r.selected t items := by
  have arranged (a : Filter × Option Comparator) :
      arrange items (a.1.canonical, a.2) = arrange items a := by
    obtain ⟨f, comparator⟩ := a
    have accepted : f.canonical.filter items = f.filter items :=
      Filter.Alike.filter ⟨f.text_canonical, fun e => f.accepts_canonical e⟩ items
    cases comparator <;> simp only [arrange, accepted]
  have same := congrArg (arrange items <$> ·) (compiled_stored t dated)
  simpa only [selected, Functor.map_map, arranged] using same

theorem alike_stored {r : QueryRequest} (dated : ∀ v ∈ r.criteria.tree.operands, v.Dated) :
    r.stored.Alike r where
  criteria := Criteria.alike_stored dated
  sort := rfl
  pagination := rfl
  includes := rfl
  compile t k l reached reached' := by
    rw [(answers_compile t _).answer_eq reached, (answers_compile t _).answer_eq reached']
    refine .of_map (fun a b same => ?_) (compiled_stored t dated)
    exact ⟨Filter.alike_of_canonical (congrArg Prod.fst same), congrArg (fun p => p.2) same⟩
  select t items k l reached reached' := by
    rw [(answers_select t _ items).answer_eq reached, (answers_select t _ items).answer_eq reached',
      selected_stored t dated items]
  selectPage t items k l reached reached' := by
    have page : r.stored.selectedPage t items = r.selectedPage t items := by
      unfold selectedPage
      rw [selected_stored t dated items]
      rfl
    rw [(answers_selectPage t _ items).answer_eq reached,
      (answers_selectPage t _ items).answer_eq reached', page]

theorem alike_shown {r : QueryRequest}
    (years : ∀ v ∈ r.criteria.tree.operands, v.Dates DateTime.FourDigits) :
    r.stored.Alike r.shown := by
  have same : r.shown.stored = r.stored := by
    simp [shown, stored, Criteria.shown, Criteria.stored]
  exact same ▸ alike_stored (Criteria.dated_shown years)

theorem text?_inv {r : QueryRequest} {text : String} (written : r.text? = .ok text) :
    ∃ j, r.json? = .ok j ∧ text = j.text := by
  unfold text? at written
  split at written
  next j json => exact ⟨j, json, (Except.ok.inj written).symm⟩
  next => cases written

end QueryRequest

namespace Wire

/-- What has a text comes back from it with the same ids and parts, and decides like the original with its
dates as the text shows them: like the original itself unless some date has a leap second inside a minute. -/
theorem reads_alike (c : Criteria) (r : QueryRequest) (text : String) (s : IdSupply) :
    (c.Readable → c.text? = .ok text →
      ∃ d, (Criteria.ofText text).run s = some (d, s) ∧ d.tree.ids = c.tree.ids ∧ d.Alike c.shown ∧
        (c.Regular → d.Alike c)) ∧
    (r.Readable → r.text? = .ok text →
      ∃ q, (QueryRequest.ofText text).run s = some (q, s) ∧ q.criteria.tree.ids = r.criteria.tree.ids ∧
        q.Alike r.shown ∧ (r.criteria.Regular → q.Alike r)) := by
  constructor
  · intro readable written
    obtain ⟨j, json, rfl⟩ := Criteria.text?_inv written
    have alike := Criteria.alike_shown readable.years
    have read := Criteria.ofText_text json (readable.nested j json) readable.shallow s
    refine ⟨c.stored, read, c.tree.ids_stored, alike, fun regular => ?_⟩
    rwa [regular.shown_eq] at alike
  · intro readable written
    obtain ⟨j, json, rfl⟩ := QueryRequest.text?_inv written
    have alike := QueryRequest.alike_shown readable.years
    have read := QueryRequest.ofText_text json (readable.nested j json) readable.shallow s
    refine ⟨r.stored, read, r.criteria.tree.ids_stored, alike, fun regular => ?_⟩
    rwa [QueryRequest.shown, regular.shown_eq] at alike

def sample.date : DateTime :=
  ⟨⟨2016, 12, 31, by decide, by decide⟩,
    ⟨23, 59, 59, 1500000000, by decide, by decide, by decide, by decide⟩⟩

-- People by a list of ages, a leap second and a word, none of which comes back as it was.
def sample : QueryRequest where
  criteria := .ofTree .person ⟨1⟩
    ⟨⟨2⟩, "", .none, .number (.uint 1), .or,
      [.leaf ⟨3⟩ "age" .contains (.list [.number (.uint 36), .string "7"]) .and,
       ⟨⟨4⟩, "born", .lessThan, .date sample.date, .and,
        [.leaf ⟨5⟩ "age" .notEqual (.number (.uint 7)) .or]⟩]⟩
  sort := some [⟨"name", .descending⟩]
  pagination := some ⟨1, 10⟩
  includes := ["boss"]

theorem reads_alike_sample : ∃ text text' d q,
    sample.criteria.text? = .ok text ∧ sample.text? = .ok text' ∧
    (Criteria.ofText text).run ⟨⟨6⟩⟩ = some (d, ⟨⟨6⟩⟩) ∧ d.Alike sample.criteria ∧
    (QueryRequest.ofText text').run ⟨⟨6⟩⟩ = some (q, ⟨⟨6⟩⟩) ∧ q.Alike sample := by
  have shallow : ∀ v ∈ sample.criteria.tree.operands, v.json.fits Json.maxDepth = true := by
    simp [sample, Criteria.ofTree, Node.operands, Node.operandsOf, Node.leaf, Operand.json,
      Operand.jsonAll, Operand.numberJson, Json.fits, Json.itemsFit, Json.maxDepth]
  have dates {p : DateTime → Prop} (holds : p sample.date) :
      ∀ v ∈ sample.criteria.tree.operands, v.Dates p := by
    simp [sample, Criteria.ofTree, Node.operands, Node.operandsOf, Node.leaf, Operand.Dates,
      Operand.AllDates, holds]
  have years := dates (p := DateTime.FourDigits) (by decide)
  have criteria : sample.criteria.Readable :=
    ⟨fun j json => by cases json; rfl, shallow, years⟩
  have request : sample.Readable := ⟨fun j json => by cases json; rfl, shallow, years⟩
  have regular : sample.criteria.Regular := dates (by decide)
  obtain ⟨text, written⟩ : ∃ text, sample.criteria.text? = .ok text := ⟨_, rfl⟩
  obtain ⟨text', written'⟩ : ∃ text, sample.text? = .ok text := ⟨_, rfl⟩
  obtain ⟨d, read, -, -, alike⟩ := (reads_alike _ sample text ⟨⟨6⟩⟩).1 criteria written
  obtain ⟨q, read', -, -, alike'⟩ := (reads_alike sample.criteria _ text' ⟨⟨6⟩⟩).2 request written'
  exact ⟨text, text', d, q, written, written', read, alike regular, read', alike' regular⟩

def inside : DateTime :=
  ⟨⟨2024, 1, 1, by decide, by decide⟩,
    ⟨12, 30, 30, 1500000000, by decide, by decide, by decide, by decide⟩⟩

def bornInside : Criteria :=
  .ofTree .person ⟨1⟩ (.leaf ⟨2⟩ "born" .lessThan (.date inside) .and)

def bornBetween : Entity where
  identity := 0
  member _ := .date ⟨inside.date, ⟨12, 30, 31, 200000000, by decide, by decide, by decide, by decide⟩⟩

-- The bound is written as the next second. What lies between the two is beyond it at first, and within it
-- once the criteria were read back.
theorem reads_alike_inside : ∃ text d f g, bornInside.Readable ∧ bornInside.text? = .ok text ∧
    (∀ s, (Criteria.ofText text).run s = some (d, s)) ∧
    (bornInside.compile .person {}).answer .empty = .ok f ∧
    (d.compile .person {}).answer .empty = .ok g ∧
    f.accepts bornBetween = false ∧ g.accepts bornBetween = true := by
  have shallow : ∀ v ∈ bornInside.tree.operands, v.json.fits Json.maxDepth = true :=
    List.forall_mem_singleton.2 rfl
  have years : ∀ v ∈ bornInside.tree.operands, v.Dates DateTime.FourDigits :=
    List.forall_mem_singleton.2 (show inside.FourDigits by decide)
  have readable : bornInside.Readable := ⟨fun j json => by cases json; rfl, shallow, years⟩
  obtain ⟨j, json⟩ : ∃ j, bornInside.json? = .ok j := ⟨_, rfl⟩
  have read := Criteria.ofText_text json (readable.nested j json) shallow
  have written : bornInside.text? = .ok j.text := by rw [Criteria.text?, json]
  -- What is read back decides like the criteria with the second after the leap second.
  have alike := Criteria.alike_shown years
  obtain ⟨f, compiled, accepted⟩ : ∃ f, (bornInside.shown.compile .person {}).answer .empty = .ok f ∧
      f.accepts bornBetween = true := ⟨_, rfl, rfl⟩
  have agree := alike.compile .person {} .empty .empty .empty .empty
  rw [compiled] at agree
  obtain ⟨g, compiled', same⟩ := agree.exists_ok
  exact ⟨j.text, bornInside.stored, _, g, readable, written, read, rfl, compiled', rfl,
    (same.accepts _).trans accepted⟩

end Wire

end EntityQuery
