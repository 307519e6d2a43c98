import EntityQuery.Proofs.Selector.Walks

set_option autoImplicit false

namespace EntityQuery

def NumberKind.Holds : NumberKind → Number → Prop
  | k, .int _ => k.storage = .signed
  | k, .uint _ => k.storage = .unsigned
  | k, .float _ => k.storage = .floating

-- Values of a kind. Of the members of an entity only the first one of each name counts.
inductive Value.Conforms (c : Catalog) : Value → Kind → Bool → Prop where
  | null {k : Kind} : Conforms c .null k true
  | string {s : String} {nullable : Bool} : Conforms c (.string s) .string nullable
  | number {n : Number} {k : NumberKind} {nullable : Bool} (holds : k.Holds n) :
      Conforms c (.number n) (.number k) nullable
  | bool {b : Bool} {nullable : Bool} : Conforms c (.bool b) .bool nullable
  | date {d : Calendar.DateTime} {nullable : Bool} : Conforms c (.date d) .date nullable
  | list {items : List Value} {element : Kind} {nullable : Bool}
      (each : ∀ v ∈ items, Conforms c v element true) :
      Conforms c (.list items) (.collection element) nullable
  | entity {identity : Nat} {read : String → Value} {r : SchemaRef} {nullable : Bool}
      (each : ∀ name m, (c.schema r).member? name = some m →
        Conforms c (read name) m.kind m.nullable) :
      Conforms c (.entity identity read) (.entity r) nullable

def Entity.Conforms (t : EntityType) (e : Entity) : Prop :=
  (Value.ofEntity e).Conforms t.catalog (.entity t.root) false

theorem Value.isNull_eq_false_iff {v : Value} : v.isNull = false ↔ v ≠ .null := by
  cases v <;> simp [isNull]

namespace Value.Conforms

variable {c : Catalog} {v : Value} {k : Kind}

theorem or_nullable {nullable : Bool} (h : v.Conforms c k nullable) (more : Bool) :
    v.Conforms c k (nullable || more) := by
  cases h with
  | null => exact .null
  | string => exact .string
  | number holds => exact .number holds
  | bool => exact .bool
  | date => exact .date
  | list each => exact .list each
  | entity each => exact .entity each

theorem ne_null (h : v.Conforms c k false) : v ≠ .null := by
  rintro rfl
  cases h

end Value.Conforms

@[simp] theorem Step.apply_null (s : Step) : s.apply .null = .null := by
  cases s <;> rfl

namespace Selector

variable {c : Catalog}

theorem Takes.conforms {k : Kind} {part : List Char} {h : Hop} {v : Value} {before : Bool}
    (taken : Takes c k part h) (conforms : v.Conforms c k before) :
    (h.step.apply v).Conforms c h.kind (before || h.nullable) := by
  cases taken with
  | @member r m before' after declared first named =>
    have found : (c.schema r).member? m.name = some m :=
      member?_eq_some_iff.2 ⟨rfl, before', after, declared, first⟩
    cases conforms with
    | null => exact .null
    | entity each =>
      rw [Bool.or_comm]
      exact (each m.name m found).or_nullable before
  | count =>
    cases conforms with
    | null => exact .null
    | list => exact .number rfl
  | any =>
    cases conforms with
    | null => exact .null
    | list => exact .bool

theorem Walks.conforms {k last : Kind} {ps : List (List Char)} {hops : List Hop} {v : Value}
    {before : Bool} (walks : Walks c k ps hops last) (conforms : v.Conforms c k before) :
    ((hops.map Hop.step).foldl (fun v s => s.apply v) v).Conforms c last
      (before || hops.any Hop.nullable) := by
  induction walks generalizing v before with
  | done => simpa using conforms
  | hop taken _ ih => simpa [Bool.or_assoc] using ih (taken.conforms conforms)

theorem resolve_conforms {t : EntityType} {selector : String} {p : Path} {e : Entity}
    (resolved : resolve t selector = .ok p) (conforms : e.Conforms t) :
    (p.get e).Conforms t.catalog p.kind p.nullable := by
  obtain ⟨-, -, hops, walks, steps, nullable⟩ := resolve_eq_ok_iff.1 resolved
  rw [Path.get, steps, nullable]
  simpa using walks.conforms conforms

end Selector

theorem foldl_apply_null (steps : List Step) :
    steps.foldl (fun v s => s.apply v) .null = .null := by
  induction steps with
  | nil => rfl
  | cons s steps ih => simpa using ih

namespace Path

/-- What a resolved selector reads from an entity that is as its schema says: a value of the kind
resolved to, which is null only if it may be, and is if any value on the way is. -/
theorem get_conforms {t : EntityType} {k : PathCache} (reached : k.Reachable t.catalog)
    {cached : Bool} {selector : String} {p : Path}
    (resolved : (Resolving.resolve t cached selector).answer k = .ok p)
    {e : Entity} (conforms : e.Conforms t) :
    (p.get e).Conforms t.catalog p.kind p.nullable ∧
      (p.nullable = false → p.get e ≠ .null) ∧
      ∀ before after, p.steps = before ++ after →
        before.foldl (fun v s => s.apply v) (.ofEntity e) = .null → p.get e = .null := by
  rw [(Resolving.answers_resolve t cached selector).answer_eq reached] at resolved
  have typed := Selector.resolve_conforms resolved conforms
  refine ⟨typed, fun never => ?_, fun before after split null => ?_⟩
  · rw [never] at typed
    exact typed.ne_null
  · rw [get, split, List.foldl_append, null, foldl_apply_null]

end Path

theorem Entity.ofPerson_conforms (identity : Nat) (name : String) {boss : Value}
    (superior : boss.Conforms .people (.entity ⟨0⟩) true) :
    (Entity.ofPerson identity name boss).Conforms .person := by
  refine .entity fun member m found => ?_
  have member_eq := Schema.name_of_member? found
  have declared : m ∈ (Catalog.people.schema ⟨0⟩).members := List.mem_of_find?_eq_some found
  subst member_eq
  simp only [Catalog.people, if_true, List.mem_cons, List.not_mem_nil, or_false] at declared
  rcases declared with rfl | rfl | rfl | rfl | rfl | rfl
  · exact .string
  · exact .number rfl
  · exact .date
  · refine .list fun v element => ?_
    obtain rfl | rfl : v = .string "old" ∨ v = .null := by simpa using element
    · exact .string
    · exact .null
  · exact .null
  · exact superior

theorem Path.get_conforms_person :
    let ada := Entity.ofPerson 1 "Ada" .null
    let grace := Entity.ofPerson 2 "Grace" (.ofEntity ada)
    let p : Path := ⟨"boss.tags.Count()", [.member "boss", .member "tags", .count],
      .number .uint64, true⟩
    grace.Conforms .person ∧
      (Resolving.resolve .person true " boss . tags.Count() ").answer .empty = .ok p ∧
      (p.get grace).Conforms .people (.number .uint64) true := by
  intro ada grace p
  have superior : (Value.ofEntity ada).Conforms .people (.entity ⟨0⟩) true :=
    (Entity.ofPerson_conforms 1 "Ada" .null).or_nullable true
  have conforms : grace.Conforms .person := Entity.ofPerson_conforms 2 "Grace" superior
  have resolved : (Resolving.resolve .person true " boss . tags.Count() ").answer .empty = .ok p :=
    rfl
  exact ⟨conforms, resolved, (Path.get_conforms .empty resolved conforms).1⟩

end EntityQuery
