import EntityQuery.Proofs.Selector.Walks

set_option autoImplicit false

namespace EntityQuery

-- Values of a kind that differ at most in what selectors do not read: in which entities they are,
-- and in what an entity has besides the members of its schema.
inductive Value.Alike (c : Catalog) : Kind → Value → Value → Prop where
  | same {k : Kind} {v : Value} : Alike c k v v
  | list {element : Kind} {vs ws : List Value} (long : vs.length = ws.length)
      (each : ∀ pair ∈ vs.zip ws, Alike c element pair.1 pair.2) :
      Alike c (.collection element) (.list vs) (.list ws)
  | entity {r : SchemaRef} {identity identity' : Nat} {read read' : String → Value}
      (each : ∀ m ∈ (c.schema r).members, Alike c m.kind (read m.name) (read' m.name)) :
      Alike c (.entity r) (.entity identity read) (.entity identity' read')

namespace Value.Alike

variable {c : Catalog} {k : Kind} {v w : Value}

theorem eq_of_isScalar (alike : Alike c k v w) (scalar : k.isScalar = true) : v = w := by
  cases alike with
  | same => rfl
  | list | entity => cases scalar

theorem step {part : List Char} {h : Hop} (alike : Alike c k v w) (taken : Selector.Takes c k part h) :
    Alike c h.kind (h.step.apply v) (h.step.apply w) := by
  cases taken with
  | @member r m before after declared first named =>
    cases alike with
    | same => exact .same
    | entity each =>
      refine each m ?_
      rw [declared]
      exact List.mem_append_right _ (.head _)
  | count =>
    cases alike with
    | same => exact .same
    | @list _ vs ws long =>
      have counted : Step.count.apply (.list vs) = Step.count.apply (.list ws) := by
        rw [Step.apply, Step.apply, long]
      rw [Hop.step, counted]
      exact .same
  | any =>
    cases alike with
    | same => exact .same
    | @list _ vs ws long =>
      have empty : vs.isEmpty = ws.isEmpty := by
        rw [Bool.eq_iff_iff, List.isEmpty_iff_length_eq_zero, List.isEmpty_iff_length_eq_zero, long]
      have found : Step.any.apply (.list vs) = Step.any.apply (.list ws) := by
        rw [Step.apply, Step.apply, empty]
      rw [Hop.step, found]
      exact .same

theorem walk {parts : List (List Char)} {hops : List Hop} {last : Kind} (alike : Alike c k v w)
    (walks : Selector.Walks c k parts hops last) :
    Alike c last ((hops.map Hop.step).foldl (fun v s => s.apply v) v)
      ((hops.map Hop.step).foldl (fun v s => s.apply v) w) := by
  induction walks generalizing v w with
  | done => exact alike
  | hop taken _ ih => exact ih (alike.step taken)

theorem get {t : EntityType} {e e' : Entity}
    (alike : Alike t.catalog (.entity t.root) (.ofEntity e) (.ofEntity e')) {selector : String}
    {p : Path} (resolved : Selector.resolve t selector = .ok p) :
    Alike t.catalog p.kind (p.get e) (p.get e') := by
  obtain ⟨-, -, hops, walks, steps, -⟩ := Selector.resolve_eq_ok_iff.1 resolved
  rw [Path.get, Path.get, steps]
  exact alike.walk walks

end Value.Alike

end EntityQuery
