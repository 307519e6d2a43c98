import EntityQuery.Derive
import EntityQuery.Proofs.Resolving

set_option autoImplicit false

namespace EntityQuery.Derive

section Fold

variable {ε α σ : Type} {f : σ → α → Except ε σ} {Valid : α → Prop} {next : σ → α → σ}

theorem foldlM_eq_ok_iff (step : ∀ s a t, f s a = .ok t ↔ Valid a ∧ t = next s a) {as : List α}
    {s t : σ} : as.foldlM f s = .ok t ↔ (∀ a ∈ as, Valid a) ∧ t = as.foldl next s := by
  induction as generalizing s with
  | nil => simp [pure, Except.pure, eq_comm]
  | cons a as ih =>
    rw [List.foldlM_cons, List.forall_mem_cons, List.foldl_cons]
    constructor
    · intro folded
      obtain ⟨u, first, folded⟩ := Resolving.ok_of_bind folded
      obtain ⟨valid, rfl⟩ := (step s a u).1 first
      obtain ⟨others, same⟩ := ih.1 folded
      exact ⟨⟨valid, others⟩, same⟩
    · rintro ⟨⟨valid, others⟩, same⟩
      rw [(step s a _).2 ⟨valid, rfl⟩]
      exact ih.2 ⟨others, same⟩

theorem foldl_after {after : σ → List α → σ}
    (append : ∀ s as bs, after s (as ++ bs) = after (after s as) bs) (nil : ∀ s, after s [] = s)
    (as : List α) (s : σ) : as.foldl (fun s a => after s [a]) s = after s as := by
  induction as generalizing s with
  | nil => rw [List.foldl_nil, nil]
  | cons a as ih => rw [List.foldl_cons, ih, ← append, List.singleton_append]

end Fold

def allItems (attributes : List Attribute) : List Item :=
  (attributes.filter (·.path == attributeName)).flatMap Attribute.items

def laterItems (attributes : List Attribute) : List Item :=
  (attributes.filter (·.path == attributeName)).tail.flatMap Attribute.items

theorem allItems_eq (attributes : List Attribute) :
    allItems attributes = items attributes ++ laterItems attributes := by
  rw [allItems, items, laterItems, ← List.head?_filter]
  cases attributes.filter (·.path == attributeName) with
  | nil => rfl
  | cons first rest => rfl

namespace Casing

def ruleName : Casing → String
  | pascal => "PascalCase"
  | camel => "camelCase"
  | snake => "snake_case"

theorem ofName_eq_ok_iff {name : String} {casing : Casing} :
    ofName name = .ok casing ↔ name = casing.ruleName := by
  constructor
  · unfold ofName
    split <;> rintro ⟨⟩ <;> rfl
  · rintro rfl
    cases casing <;> rfl

end Casing

inductive ForType : Item → Prop where
  | rename (name : String) : ForType (.assign "rename" (.string name))
  | casing (casing : Casing) : ForType (.assign "rename_all" (.string casing.ruleName))

inductive ForField : Item → Prop where
  | skip : ForField (.name "skip")
  | rename (name : String) : ForField (.assign "rename" (.string name))

namespace Item

def renaming? : Item → Option String
  | assign "rename" (.string s) => some s
  | _ => none

def casing? : Item → Option Casing
  | assign "rename_all" (.string s) => (Casing.ofName s).toOption
  | _ => none

end Item

def lastRenaming (is : List Item) : Option String :=
  (is.filterMap Item.renaming?).getLast?

def lastCasing (is : List Item) : Option Casing :=
  (is.filterMap Item.casing?).getLast?

namespace TypeSettings

def after (s : TypeSettings) (is : List Item) : TypeSettings :=
  ⟨(lastRenaming is).or s.rename, (lastCasing is).or s.casing⟩

theorem after_append (s : TypeSettings) (is js : List Item) :
    s.after (is ++ js) = (s.after is).after js := by
  simp [after, lastRenaming, lastCasing, Option.or_assoc]

theorem add_eq_ok_iff (s : TypeSettings) (i : Item) (t : TypeSettings) :
    s.add i = .ok t ↔ ForType i ∧ t = s.after [i] := by
  constructor
  · intro added
    unfold add at added
    split at added
    next a =>
      cases a with
      | string name =>
        cases added
        exact ⟨.rename name, rfl⟩
      | other => cases added
    next a =>
      cases a with
      | string name =>
        obtain ⟨casing, named, rfl⟩ := Resolving.ok_of_map added
        obtain rfl := Casing.ofName_eq_ok_iff.1 named
        exact ⟨.casing casing, by cases casing <;> rfl⟩
      | other => cases added
    next => cases added
  · rintro ⟨valid, rfl⟩
    cases valid with
    | rename name => rfl
    | casing casing => cases casing <;> rfl

theorem foldlM_add_eq_ok_iff {is : List Item} {s t : TypeSettings} :
    is.foldlM add s = .ok t ↔ (∀ i ∈ is, ForType i) ∧ t = s.after is := by
  rw [foldlM_eq_ok_iff add_eq_ok_iff, foldl_after after_append fun _ => rfl]

end TypeSettings

namespace FieldSettings

def after (s : FieldSettings) (is : List Item) : FieldSettings :=
  ⟨s.skip || is.contains (.name "skip"), (lastRenaming is).or s.rename⟩

theorem after_append (s : FieldSettings) (is js : List Item) :
    s.after (is ++ js) = (s.after is).after js := by
  simp [after, lastRenaming, Option.or_assoc, Bool.or_assoc]

theorem add_eq_ok_iff (s : FieldSettings) (i : Item) (t : FieldSettings) :
    s.add i = .ok t ↔ ForField i ∧ t = s.after [i] := by
  constructor
  · intro added
    unfold add at added
    split at added
    next =>
      cases added
      exact ⟨.skip, by simp [after, lastRenaming, Item.renaming?]⟩
    next a =>
      cases a with
      | string name =>
        cases added
        exact ⟨.rename name, by simp [after, lastRenaming, Item.renaming?]⟩
      | other => cases added
    next => cases added
  · rintro ⟨valid, rfl⟩
    cases valid with
    | skip => simp [add, after, lastRenaming, Item.renaming?]
    | rename name => simp [add, after, lastRenaming, Item.renaming?]; rfl

theorem foldlM_add_eq_ok_iff {is : List Item} {s t : FieldSettings} :
    is.foldlM add s = .ok t ↔ (∀ i ∈ is, ForField i) ∧ t = s.after is := by
  have nil (s : FieldSettings) : s.after [] = s := by simp [after, lastRenaming]
  rw [foldlM_eq_ok_iff add_eq_ok_iff, foldl_after after_append nil]

end FieldSettings

theorem typeSettings_eq_ok_iff {as : List Attribute} {s : TypeSettings} :
    typeSettings as = .ok s ↔ (∀ i ∈ items as, ForType i) ∧ s = TypeSettings.after {} (items as) :=
  TypeSettings.foldlM_add_eq_ok_iff

theorem fieldSettings_eq_ok_iff {as : List Attribute} {s : FieldSettings} :
    fieldSettings as = .ok s ↔ (∀ i ∈ items as, ForField i) ∧ s = FieldSettings.after {} (items as) :=
  FieldSettings.foldlM_add_eq_ok_iff

end EntityQuery.Derive
