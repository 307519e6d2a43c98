import EntityQuery.Proofs.Selector.Walks

set_option autoImplicit false

namespace EntityQuery

def Catalog.Offers (c : Catalog) (name : String) : Prop :=
  (∃ r, ∃ m ∈ (c.schema r).members, m.name = name) ∨ name = "Count" ∨ name = "Any"

namespace Selector

variable {c : Catalog}

theorem Takes.names {k : Kind} {part : List Char} {h : Hop} (taken : Takes c k part h) :
    ∃ s, Segment.read part = some s ∧ c.Offers (String.ofList s.name) := by
  cases taken with
  | @member r m before after declared first named =>
    refine ⟨m.segment, Segment.read_eq_some_iff.2 ⟨named, rfl⟩, .inl ⟨r, m, ?_, ?_⟩⟩
    · rw [declared]
      exact List.mem_append_right _ (.head _)
    · exact String.ofList_toList.symm
  | count => exact ⟨⟨"Count".toList, true⟩, rfl, .inr (.inl rfl)⟩
  | any => exact ⟨⟨"Any".toList, true⟩, rfl, .inr (.inr rfl)⟩

theorem Walks.names {k last : Kind} {ps : List (List Char)} {hops : List Hop}
    (walks : Walks c k ps hops last) :
    ∀ part ∈ ps, ∃ s, Segment.read part = some s ∧ c.Offers (String.ofList s.name) := by
  induction walks with
  | done => exact List.forall_mem_nil _
  | hop taken _ ih => exact List.forall_mem_cons.2 ⟨taken.names, ih⟩

theorem resolve_inv {t : EntityType} {selector : String} {p : Path}
    (resolved : resolve t selector = .ok p) : p.selector = normalized selector ∧
      ∀ part ∈ segments selector, ∃ s, Segment.read part = some s ∧
        t.catalog.Offers (String.ofList s.name) := by
  obtain ⟨-, named, hops, walks, -⟩ := resolve_eq_ok_iff.1 resolved
  rw [normalized, segments_eq_parts]
  exact ⟨named, walks.names⟩

theorem selector_eq_of_resolve {t u : EntityType} {selector : String} {p q : Path}
    (onT : resolve t selector = .ok p) (onU : resolve u selector = .ok q) :
    p.selector = q.selector :=
  (resolve_inv onT).1.trans (resolve_inv onU).1.symm

end Selector

end EntityQuery
