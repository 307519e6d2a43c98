import EntityQuery.Selector.Cache

set_option autoImplicit false

namespace EntityQuery

structure SortItem where
  selector : String
  direction : Direction
  deriving DecidableEq, Repr

abbrev SortSpec := List SortItem

structure SortKey where
  path : Path
  direction : Direction

structure Comparator where
  keys : List SortKey

namespace SortSpec

def thenBy (s : SortSpec) (selector : String) : SortSpec :=
  s ++ [⟨selector, .ascending⟩]

def thenByDescending (s : SortSpec) (selector : String) : SortSpec :=
  s ++ [⟨selector, .descending⟩]

def resolveItem (t : EntityType) (i : SortItem) : Resolving SortKey := do
  let p ← Resolving.resolve t true i.selector
  if p.kind.isScalar then
    return ⟨p, i.direction⟩
  else
    throw (.unsupportedSortKey p.kind.name p.selector)

def compile (t : EntityType) (s : SortSpec) : Resolving Comparator := do
  if s.isEmpty then
    throw (.emptySort t.name)
  return ⟨← s.mapM (resolveItem t)⟩

end SortSpec

namespace SortKey

-- Values that are not ordered tie.
def compare (k : SortKey) (a b : Entity) : Ordering :=
  match Value.compare (k.path.get a) (k.path.get b) with
  | some o => k.direction.apply o
  | none => .eq

end SortKey

namespace Comparator

def compare (c : Comparator) (a b : Entity) : Ordering :=
  c.keys.foldr (fun k o => (k.compare a b).then o) .eq

-- Inserts into entities that are sorted from last to first, after those that do not come later.
def insert (c : Comparator) (e : Entity) : List Entity → List Entity
  | [] => [e]
  | f :: fs => if c.compare e f = .lt then f :: c.insert e fs else e :: f :: fs

def sorted (c : Comparator) (items : List Entity) : List Entity :=
  (items.foldl (fun before e => c.insert e before) []).reverse

theorem insert_perm (c : Comparator) (e : Entity) (es : List Entity) :
    (c.insert e es).Perm (e :: es) := by
  induction es with
  | nil => exact .refl _
  | cons f fs ih =>
    unfold insert
    split
    · exact (ih.cons f).trans (.swap e f fs)
    · exact .refl _

theorem foldl_insert_perm (c : Comparator) (items before : List Entity) :
    (items.foldl (fun before e => c.insert e before) before).Perm (before ++ items) := by
  induction items generalizing before with
  | nil => simp
  | cons e es ih =>
    refine (ih _).trans ?_
    exact ((c.insert_perm e before).append_right es).trans List.perm_middle.symm

theorem sorted_perm (c : Comparator) (items : List Entity) : (c.sorted items).Perm items :=
  (List.reverse_perm _).trans (c.foldl_insert_perm items [])

def text (c : Comparator) : String :=
  String.ofList <| List.intercalate ", ".toList <|
    c.keys.map fun k => k.path.selector.toList ++ ' ' :: k.direction.symbol.toList

end Comparator

end EntityQuery
