import Mathlib.Data.String.Basic
import EntityQuery.Proofs.Request
import EntityQuery.Proofs.Selector.Conformance

set_option autoImplicit false

namespace EntityQuery

open Calendar (DateTime)
open Std (TransCmp TransOrd)

inductive Place where
  | before (i : Int)
  | last

namespace Place

def compare : Place → Place → Ordering
  | before i, before j => Ord.compare i j
  | before _, last => .lt
  | last, before _ => .gt
  | last, last => .eq

instance : Ord Place := ⟨compare⟩

instance : TransOrd Place where
  eq_swap {p q} := by
    cases p <;> cases q
    case before.before i j => exact (Std.OrientedCmp.eq_swap : Ord.compare i j = _)
    all_goals rfl
  isLE_trans {p q r} first second := by
    cases p <;> cases q <;> cases r <;> try rfl
    case before.before.before i j l =>
      have inner (first : (Ord.compare i j).isLE) (second : (Ord.compare j l).isLE) :
          (Ord.compare i l).isLE := TransCmp.isLE_trans first second
      exact inner first second
    all_goals cases first <;> cases second

end Place

def Number.place : Number → Place
  | int n => .before n.toInt
  | uint n => .before n.toNat
  | float x =>
    match x.position with
    | some i => .before i
    | none => .last

instance : Ord DateTime := ⟨DateTime.compare⟩

instance : TransOrd DateTime := by
  have componentwise : TransCmp DateTime.compare := by
    unfold DateTime.compare
    infer_instance
  exact componentwise

instance transCmp_tie {α : Type} : TransCmp fun _ _ : α => Ordering.eq where
  eq_swap := rfl
  isLE_trans _ _ := rfl

@[simp] theorem compare_none_some {α : Type} [Ord α] (a : α) :
    Ord.compare none (some a) = .lt :=
  rfl

@[simp] theorem compare_some_some {α : Type} [Ord α] (a b : α) :
    Ord.compare (some a) (some b) = Ord.compare a b :=
  rfl

namespace Value

inductive Precedes : Value → Value → Prop where
  | null {v : Value} (present : v ≠ .null) : Precedes .null v
  | string {a b : String} (less : a < b) : Precedes (.string a) (.string b)
  | number {a b : Number} (less : a.place.compare b.place = .lt) : Precedes (.number a) (.number b)
  | bool : Precedes (.bool false) (.bool true)
  | date {a b : DateTime} (earlier : a.compare b = .lt) : Precedes (.date a) (.date b)

@[simp] theorem null_precedes_iff {v : Value} : Precedes .null v ↔ v ≠ .null :=
  ⟨fun h => by cases h; assumption, .null⟩

@[simp] theorem not_precedes_null {v : Value} : ¬v.Precedes .null := by
  intro h
  cases h
  contradiction

@[simp] theorem string_precedes_iff {a b : String} :
    Precedes (.string a) (.string b) ↔ a < b :=
  ⟨fun h => by cases h; assumption, .string⟩

@[simp] theorem number_precedes_iff {a b : Number} :
    Precedes (.number a) (.number b) ↔ a.place.compare b.place = .lt :=
  ⟨fun h => by cases h; assumption, .number⟩

@[simp] theorem date_precedes_iff {a b : DateTime} :
    Precedes (.date a) (.date b) ↔ a.compare b = .lt :=
  ⟨fun h => by cases h; assumption, .date⟩

@[simp] theorem bool_precedes_iff {a b : Bool} :
    Precedes (.bool a) (.bool b) ↔ a = false ∧ b = true :=
  ⟨fun h => by cases h; simp, fun ⟨h, h'⟩ => h ▸ h' ▸ .bool⟩

def place? (v : Value) : Option Place :=
  v.number?.map Number.place

def order : Kind → Value → Value → Ordering
  | .string => compareOn string?
  | .number _ => compareOn place?
  | .bool => compareOn bool?
  | .date => compareOn date?
  | _ => fun _ _ => .eq

instance (k : Kind) : TransCmp (order k) := by
  cases k <;> unfold order <;> infer_instance

theorem compare_number {k : NumberKind} {a b : Number} (ha : k.Holds a) (hb : k.Holds b) :
    (number a).compare (number b) = some (a.place.compare b.place) := by
  cases a with
  | int i =>
    cases b with
    | int j => rfl
    | uint | float => cases ha.symm.trans hb
  | uint i =>
    cases b with
    | uint j => rfl
    | int | float => cases ha.symm.trans hb
  | float x =>
    cases b with
    | float y => cases x <;> cases y <;> rfl
    | int | uint => cases ha.symm.trans hb

variable {c : Catalog} {k : Kind} {v w : Value} {nullable : Bool}

theorem compare_eq_order (scalar : k.isScalar = true) (hv : v.Conforms c k nullable)
    (hw : w.Conforms c k nullable) : v.compare w = some (order k v w) := by
  cases k with
  | string | bool | date => cases hv <;> cases hw <;> rfl
  | number k =>
    cases hv with
    | null => cases hw <;> rfl
    | number ha =>
      cases hw with
      | null => rfl
      | number hb => exact compare_number ha hb
  | collection | entity => cases scalar

theorem order_eq_lt (scalar : k.isScalar = true) (hv : v.Conforms c k nullable)
    (hw : w.Conforms c k nullable) : order k v w = .lt ↔ v.Precedes w := by
  cases k with
  | string =>
    cases hv <;> cases hw <;> simp [order, compareOn, string?, compare_lt_iff_lt]
  | bool =>
    cases hv <;> cases hw <;> simp [order, compareOn, bool?, compare_lt_iff_lt, Bool.lt_iff]
  | date =>
    cases hv <;> cases hw <;> simp [order, compareOn, date?, Ord.compare]
  | number k =>
    cases hv <;> cases hw <;> simp [order, compareOn, place?, number?, Ord.compare]
  | collection | entity => cases scalar

end Value

namespace SortKey

variable {t : EntityType} {k : SortKey} {a b : Entity}

def Resolved (t : EntityType) (k : SortKey) : Prop :=
  k.path.kind.isScalar = true ∧ ∃ selector, Selector.resolve t selector = .ok k.path

def Before (k : SortKey) (a b : Entity) : Prop :=
  match k.direction with
  | .ascending => (k.path.get a).Precedes (k.path.get b)
  | .descending => (k.path.get b).Precedes (k.path.get a)

def order (k : SortKey) : Entity → Entity → Ordering :=
  match k.direction with
  | .ascending => fun a b => Value.order k.path.kind (k.path.get a) (k.path.get b)
  | .descending => fun a b => Value.order k.path.kind (k.path.get b) (k.path.get a)

instance (k : SortKey) : TransCmp k.order := by
  have ascending : TransCmp fun a b => Value.order k.path.kind (k.path.get a) (k.path.get b) :=
    { eq_swap := Std.OrientedCmp.eq_swap
      isLE_trans := TransCmp.isLE_trans }
  unfold order
  cases k.direction with
  | ascending => exact ascending
  | descending => exact TransCmp.opposite

theorem compare_eq_order (resolved : k.Resolved t) (ha : a.Conforms t) (hb : b.Conforms t) :
    k.compare a b = k.order a b := by
  obtain ⟨scalar, selector, path⟩ := resolved
  have values := Value.compare_eq_order scalar (Selector.resolve_conforms path ha)
    (Selector.resolve_conforms path hb)
  rw [compare, values, order]
  cases k.direction with
  | ascending => rfl
  | descending => exact Std.OrientedCmp.eq_swap.symm

theorem order_eq_lt (resolved : k.Resolved t) (ha : a.Conforms t) (hb : b.Conforms t) :
    k.order a b = .lt ↔ k.Before a b := by
  obtain ⟨scalar, selector, path⟩ := resolved
  have va := Selector.resolve_conforms path ha
  have vb := Selector.resolve_conforms path hb
  unfold order Before
  cases k.direction with
  | ascending => exact Value.order_eq_lt scalar va vb
  | descending => exact Value.order_eq_lt scalar vb va

end SortKey

namespace Comparator

variable {t : EntityType} {a b : Entity}

def Before : List SortKey → Entity → Entity → Prop
  | [], _, _ => False
  | k :: keys, a, b => k.Before a b ∨ ¬k.Before b a ∧ Before keys a b

def order : List SortKey → Entity → Entity → Ordering
  | [] => fun _ _ => .eq
  | k :: keys => compareLex k.order (order keys)

instance (keys : List SortKey) : TransCmp (order keys) := by
  induction keys with
  | nil => exact transCmp_tie
  | cons k keys ih =>
    unfold order
    infer_instance

theorem compare_eq_order {c : Comparator} (resolved : ∀ k ∈ c.keys, k.Resolved t)
    (ha : a.Conforms t) (hb : b.Conforms t) : c.compare a b = order c.keys a b := by
  obtain ⟨keys⟩ := c
  induction keys with
  | nil => rfl
  | cons k keys ih =>
    have first := SortKey.compare_eq_order (resolved k (.head keys)) ha hb
    have rest := ih fun j member => resolved j (.tail k member)
    simp only [compare, List.foldr_cons] at rest ⊢
    rw [first, rest]
    rfl

theorem order_eq_lt {keys : List SortKey} (resolved : ∀ k ∈ keys, k.Resolved t)
    (ha : a.Conforms t) (hb : b.Conforms t) : order keys a b = .lt ↔ Before keys a b := by
  induction keys with
  | nil => exact ⟨nofun, nofun⟩
  | cons k keys ih =>
    have first := SortKey.order_eq_lt (resolved k (.head keys)) ha hb
    have reverse := SortKey.order_eq_lt (resolved k (.head keys)) hb ha
    have rest := ih fun j member => resolved j (.tail k member)
    have mirrored : k.order b a = (k.order a b).swap := Std.OrientedCmp.eq_swap
    rw [mirrored, Ordering.swap_eq_lt] at reverse
    simp only [order, compareLex, Ordering.then_eq_lt, Before, ← first, ← reverse, ← rest]
    cases k.order a b <;> simp

end Comparator

namespace SortSpec

open Resolving (ok_of_bind ok_of_map)

variable {t : EntityType}

theorem resolved_of_resolvedItem {i : SortItem} {k : SortKey}
    (resolved : resolvedItem t i = .ok k) : k.Resolved t := by
  obtain ⟨p, path, rest⟩ := ok_of_bind resolved
  split at rest
  next scalar =>
    cases rest
    exact ⟨scalar, i.selector, path⟩
  next => cases rest

theorem resolved_of_mapM {s : SortSpec} {keys : List SortKey}
    (resolved : s.mapM (resolvedItem t) = .ok keys) : ∀ k ∈ keys, k.Resolved t := by
  induction s generalizing keys with
  | nil =>
    cases resolved
    simp
  | cons i s ih =>
    rw [List.mapM_cons] at resolved
    obtain ⟨k, first, rest⟩ := ok_of_bind resolved
    obtain ⟨ks, others, rest⟩ := ok_of_bind rest
    cases rest
    exact List.forall_mem_cons.2 ⟨resolved_of_resolvedItem first, ih others⟩

theorem resolved_of_compiled {s : SortSpec} {c : Comparator} (compiled : s.compiled t = .ok c) :
    ∀ k ∈ c.keys, k.Resolved t := by
  unfold SortSpec.compiled at compiled
  split at compiled
  next => cases compiled
  next =>
    obtain ⟨keys, resolved, rfl⟩ := ok_of_map compiled
    exact resolved_of_mapM resolved

end SortSpec

end EntityQuery
