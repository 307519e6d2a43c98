import EntityQuery.Selector

set_option autoImplicit false

namespace EntityQuery

structure PathCache where
  entries : List ((SchemaRef × String) × Path)

namespace PathCache

def empty : PathCache := ⟨[]⟩

def find? (c : PathCache) (root : SchemaRef) (selector : String) : Option Path :=
  c.entries.lookup (root, selector)

def insert (c : PathCache) (root : SchemaRef) (selector : String) (p : Path) : PathCache :=
  ⟨((root, selector), p) :: c.entries⟩

@[simp] theorem find?_empty (root : SchemaRef) (selector : String) :
    empty.find? root selector = none :=
  rfl

theorem find?_insert (c : PathCache) (root root' : SchemaRef) (selector selector' : String)
    (p : Path) : (c.insert root selector p).find? root' selector' =
      if (root', selector') = (root, selector) then some p else c.find? root' selector' := by
  simp only [find?, insert, List.lookup_cons]
  by_cases h : (root', selector') = (root, selector)
  · simp [h]
  · simp [h, beq_eq_false_iff_ne.2 h]

end PathCache

-- Computations that may resolve selectors. What was resolved before a failure is kept.
abbrev Resolving := ExceptT Error (StateM PathCache)

namespace Resolving

def resolve (t : EntityType) (cached : Bool) (selector : String) : Resolving Path :=
  if cached then do
    let key := Selector.normalized selector
    match (← get).find? t.root key with
    | some p => return p
    | none =>
      let p ← Selector.resolve t key
      modify fun c => c.insert t.root key p
      return p
  else
    Selector.resolve t (Selector.normalized selector)

end Resolving

end EntityQuery
