import Mathlib.Algebra.Order.Floor.Div
import EntityQuery.Proofs.Request

set_option autoImplicit false

namespace EntityQuery

namespace Pagination

variable {α : Type}

structure Partition (size : Nat) (items : List α) (count : Nat) (page : Nat → List α) : Prop where
  joined : (List.range count).flatMap (fun before => page (before + 1)) = items
  full : ∀ number, 1 ≤ number → number < count → (page number).length = size
  beyond : ∀ number, count < number → page number = []

theorem flatMap_range_take_drop (size count : Nat) (items : List α) :
    (List.range count).flatMap (fun before => (items.drop (before * size)).take size) =
      items.take (count * size) := by
  induction count with
  | zero => simp
  | succ count ih =>
    have last : items.take ((count + 1) * size) =
        items.take (count * size) ++ (items.drop (count * size)).take size := by
      rw [Nat.succ_mul, List.take_add]
    rw [List.range_succ, List.flatMap_append, ih, last]
    simp

theorem partition_take_drop {size : Nat} (positive : 0 < size) (items : List α) :
    Partition size items (items.length ⌈/⌉ size)
      (fun number => (items.drop ((number - 1) * size)).take size) where
  joined := by
    have enough : items.length ≤ size * (items.length ⌈/⌉ size) := le_smul_ceilDiv positive
    simp only [Nat.add_sub_cancel]
    rw [flatMap_range_take_drop, List.take_of_length_le (by rwa [Nat.mul_comm])]
  full number first before := by
    have more : ¬items.length ≤ size * number :=
      mt (ceilDiv_le_iff_le_mul positive).2 (by omega)
    obtain ⟨previous, rfl⟩ : ∃ previous, number = previous + 1 := ⟨number - 1, by omega⟩
    rw [Nat.mul_comm, Nat.succ_mul] at more
    rw [List.length_take, List.length_drop, Nat.add_sub_cancel]
    omega
  beyond number after := by
    have all : items.length ≤ size * (number - 1) :=
      (ceilDiv_le_iff_le_mul positive).1 (by omega)
    rw [Nat.mul_comm] at all
    simp [List.drop_of_length_le all]

-- An offset that a word does not hold is beyond every list whose length is a word.
theorem slice_eq (p : Pagination) {items : List α} (word : items.length < 2 ^ 64) :
    p.slice items =
      (items.drop ((p.pageNumber.toNat - 1) * p.itemsPerPage.toNat)).take p.itemsPerPage.toNat := by
  have bound : Nat.pow 2 64 = 2 ^ 64 := rfl
  unfold slice offset
  by_cases held : (p.pageNumber.toNat - 1) * p.itemsPerPage.toNat ≤ Nat.pow 2 64 - 1
  · rw [Nat.min_eq_left held]
  · rw [Nat.min_eq_right (by omega), List.drop_of_length_le (by omega),
      List.drop_of_length_le (by omega)]

end Pagination

namespace QueryRequest

open Resolving

def onPage (r : QueryRequest) (number size : UInt64) : QueryRequest :=
  { r with pagination := some ⟨number, size⟩ }

theorem answers_count (t : EntityType) (r : QueryRequest) (items : List Entity) :
    Answers t.catalog (r.count t items)
      ((fun f => f.count items) <$> r.criteria.tree.compiled t .rootForSubtrees) :=
  (r.criteria.tree.answers_compile t {}).map fun f => f.count items

theorem answers_pageCount (t : EntityType) (r : QueryRequest) {page : Pagination}
    (asked : r.validPage t = .ok page) (items : List Entity) :
    Answers t.catalog (r.pageCount t items)
      ((fun f => page.pageCount (f.count items)) <$>
        r.criteria.tree.compiled t .rootForSubtrees) := by
  have counted := (r.answers_count t items).map page.pageCount
  rw [Functor.map_map] at counted
  unfold pageCount
  rw [asked]
  exact counted

theorem selectedPage_eq (t : EntityType) (r : QueryRequest) (sorted : r.sort.getD [] ≠ [])
    {page : Pagination} (asked : r.validPage t = .ok page) (items : List Entity) :
    r.selectedPage t items = page.slice <$> r.selected t items := by
  have present : (r.sort.getD []).isEmpty = false := by simpa using sorted
  rw [selectedPage, present, asked]
  rfl

theorem length_arrange (items : List Entity) (f : Filter) (o : Option Comparator) :
    (arrange items (f, o)).length = f.count items := by
  cases o with
  | none => exact List.countP_eq_length_filter.symm
  | some c =>
    exact (c.sorted_perm (f.filter items)).length_eq.trans List.countP_eq_length_filter.symm

def pagePlan (t : EntityType) (r : QueryRequest) :
    Except Error (Pagination × Filter × Option Comparator) := do
  if (r.sort.getD []).isEmpty then
    throw (.sortRequired t.name)
  let page ← r.validPage t
  return (page, ← r.compiled t)

theorem selectedPage_eq_map (t : EntityType) (r : QueryRequest) (items : List Entity) :
    r.selectedPage t items =
      (fun (page, parts) => page.slice (arrange items parts)) <$> r.pagePlan t := by
  unfold selectedPage pagePlan selected
  split
  next => rfl
  next => simp

/-- Whether a request fails, and how, does not depend on the items. Where it selects something from
a list whose length is a word, the pages of any size cut that into parts, and there are as many as
the number of accepted items asks for. -/
theorem pages_partition {t : EntityType} {k : PathCache} (reached : k.Reachable t.catalog)
    (r : QueryRequest) :
    (∀ items items' e, (r.select t items).answer k = .error e ↔
      (r.select t items').answer k = .error e) ∧
    (∀ items items' e, (r.selectPage t items).answer k = .error e ↔
      (r.selectPage t items').answer k = .error e) ∧
    ∀ (size : UInt64) (items out : List Entity), r.sort.getD [] ≠ [] → size ≠ 0 →
      items.length < 2 ^ 64 → (r.select t items).answer k = .ok out →
      let count := out.length ⌈/⌉ size.toNat
      (r.count t items).answer k = .ok out.length ∧ count < 2 ^ 64 ∧
      (∀ number, number ≠ 0 → ((r.onPage number size).pageCount t items).answer k = .ok count) ∧
      ∃ page, Pagination.Partition size.toNat out count page ∧ ∀ number, number ≠ 0 →
        ((r.onPage number size).selectPage t items).answer k = .ok (page number.toNat) := by
  have select_eq (items : List Entity) := (r.answers_select t items).answer_eq reached
  have selectPage_eq (items : List Entity) := (r.answers_selectPage t items).answer_eq reached
  refine ⟨fun items items' e => ?_, fun items items' e => ?_, ?_⟩
  · rw [select_eq, select_eq, selected, selected, map_eq_error_iff, map_eq_error_iff]
  · rw [selectPage_eq, selectPage_eq, selectedPage_eq_map, selectedPage_eq_map, map_eq_error_iff,
      map_eq_error_iff]
  · intro size items out sorted nonzero word selected count
    rw [select_eq] at selected
    obtain ⟨f, o, accepted, -, rfl⟩ := selected_inv selected
    have total : (arrange items (f, o)).length = f.count items := length_arrange items f o
    have short : (arrange items (f, o)).length < 2 ^ 64 := by
      rw [total]
      exact List.countP_le_length.trans_lt word
    have positive : 0 < size.toNat :=
      Nat.pos_of_ne_zero fun zero => nonzero (UInt64.toNat_inj.1 zero)
    have valid (number : UInt64) (asked : number ≠ 0) :
        (r.onPage number size).validPage t = .ok ⟨number, size⟩ := by
      simp [validPage, onPage, Pagination.validate, asked, nonzero]
    have count_le : count ≤ (arrange items (f, o)).length :=
      (ceilDiv_le_iff_le_mul positive).2 (Nat.le_mul_of_pos_left _ positive)
    refine ⟨?_, count_le.trans_lt short, fun number asked => ?_, _,
      Pagination.partition_take_drop positive (arrange items (f, o)), fun number asked => ?_⟩
    · rw [(r.answers_count t items).answer_eq reached, accepted, total]
      rfl
    · rw [((r.onPage number size).answers_pageCount t (valid number asked) items).answer_eq reached]
      have same : (r.onPage number size).criteria = r.criteria := rfl
      rw [same, accepted, Except.map_ok, ← total]
      simp only [Pagination.pageCount, nonzero, if_false]
      rfl
    · rw [((r.onPage number size).answers_selectPage t items).answer_eq reached,
        selectedPage_eq t (r.onPage number size) sorted (valid number asked)]
      have same : (r.onPage number size).selected t items = r.selected t items := rfl
      rw [same, selected, Except.map_ok, Pagination.slice_eq _ short]

theorem pages_partition_people :
    let ada := Entity.ofPerson 1 "Ada" .null
    let grace := Entity.ofPerson 2 "Grace" .null
    let edsger := Entity.ofPerson 3 "Edsger" .null
    let r : QueryRequest := ⟨.always .person ⟨0⟩ ⟨1⟩, some [⟨"name", .descending⟩], none, []⟩
    let items := [ada, grace, edsger]
    (r.select .person items).answer .empty = .ok [grace, edsger, ada] ∧
      (r.count .person items).answer .empty = .ok 3 ∧
      ((r.onPage 1 2).pageCount .person items).answer .empty = .ok 2 ∧
      ∃ page, Pagination.Partition 2 [grace, edsger, ada] 2 page ∧ ∀ number, number ≠ 0 →
        ((r.onPage number 2).selectPage .person items).answer .empty = .ok (page number.toNat) := by
  intro ada grace edsger r items
  have selected : (r.select .person items).answer .empty = .ok [grace, edsger, ada] := rfl
  obtain ⟨counted, -, pages, page, partition, cut⟩ :=
    (pages_partition .empty r).2.2 2 items _ (by decide) (by decide) (by decide) selected
  have two : [grace, edsger, ada].length ⌈/⌉ UInt64.toNat 2 = 2 := by
    simp [Nat.ceilDiv_eq_add_pred_div]
  rw [two] at pages partition
  exact ⟨selected, counted, pages 1 (by decide), page, partition, cut⟩

end QueryRequest

end EntityQuery
