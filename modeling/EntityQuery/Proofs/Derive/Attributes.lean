import EntityQuery.Proofs.Derive.Members

set_option autoImplicit false

namespace EntityQuery.Derive

section Rewriting

variable (read : List Attribute → List Item)

-- One attribute in place of all, with the items that are read from them.
def attributed (attributes : List Attribute) : List Attribute :=
  [⟨attributeName, read attributes⟩]

def Field.attributed (f : Field) : Field :=
  { f with attributes := Derive.attributed read f.attributes }

def Shape.attributed : Shape → Shape
  | named fields => .named (fields.map (Field.attributed read))
  | unnamed => unnamed
  | other => other

def Declaration.attributed (d : Declaration) : Declaration :=
  { d with attributes := Derive.attributed read d.attributes, shape := d.shape.attributed read }

def DerivedMember.attributed (m : DerivedMember) : DerivedMember :=
  { m with field := m.field.attributed read }

def Derived.attributed (out : Derived) : Derived :=
  { out with members := out.members.map (DerivedMember.attributed read) }

end Rewriting

@[simp] theorem items_attributed (read : List Attribute → List Item) (attributes : List Attribute) :
    items (attributed read attributes) = read attributes := by
  simp [items, attributed]

@[simp] theorem allItems_attributed (read : List Attribute → List Item) (attributes : List Attribute) :
    allItems (attributed read attributes) = read attributes := by
  simp [allItems, attributed]

theorem single_attributed (read : List Attribute → List Item) (d : Declaration) :
    (d.attributed read).Single where
  type := List.length_filter_le _ _
  each := by
    intro fields shape f member
    cases given : d.shape with
    | named before =>
      rw [Declaration.attributed, given] at shape
      cases shape
      obtain ⟨f, -, rfl⟩ := List.mem_map.1 member
      exact List.length_filter_le _ _
    | unnamed | other =>
      rw [Declaration.attributed, given] at shape
      cases shape

section Commuting

variable {ε α σ : Type} {f : σ → α → Except ε σ} {g : α → α} {h : σ → σ}

theorem foldlM_map {as : List α} (step : ∀ s, ∀ a ∈ as, f (h s) (g a) = h <$> f s a) (s : σ) :
    (as.map g).foldlM f (h s) = h <$> as.foldlM f s := by
  induction as generalizing s with
  | nil => rfl
  | cons a as ih =>
    rw [List.map_cons, List.foldlM_cons, List.foldlM_cons, step s a (.head as)]
    cases f s a with
    | error e => rfl
    | ok t => exact ih (fun s a member => step s a (.tail _ member)) t

end Commuting

variable {read : List Attribute → List Item}

theorem addField_attributed {f : Field}
    (same : fieldSettings (attributed read f.attributes) = fieldSettings f.attributes) (casing : Casing)
    (before : List DerivedMember) :
    addField casing (before.map (DerivedMember.attributed read)) (f.attributed read) =
      List.map (DerivedMember.attributed read) <$> addField casing before f := by
  have any (name : String) : (before.map (DerivedMember.attributed read)).any (·.name == name) =
      before.any (·.name == name) := by
    rw [List.any_map]
    rfl
  unfold addField
  rw [Field.attributed, same]
  cases fieldSettings f.attributes with
  | error e => rfl
  | ok s =>
    simp only [any, bind, Except.bind, pure, Except.pure]
    cases s.skip with
    | true => rfl
    | false =>
      simp only [Bool.false_eq_true, if_false]
      split
      next => rfl
      next =>
        split
        next => rfl
        next => simp [DerivedMember.attributed, Field.attributed]

theorem derive_attributed {d : Declaration}
    (type : typeSettings (attributed read d.attributes) = typeSettings d.attributes)
    (each : ∀ fields, d.shape = .named fields → ∀ f ∈ fields,
      fieldSettings (attributed read f.attributes) = fieldSettings f.attributes) :
    derive (d.attributed read) = Derived.attributed read <$> derive d := by
  cases generic : d.isGeneric with
  | true =>
    have generic' : (d.attributed read).isGeneric = true := generic
    rw [derive, derive, generic, generic']
    rfl
  | false =>
    cases shape : d.shape with
    | named fields =>
      have folded (casing : Casing) : (fields.map (Field.attributed read)).foldlM (addField casing) [] =
          List.map (DerivedMember.attributed read) <$> fields.foldlM (addField casing) [] :=
        foldlM_map (fun before f member => addField_attributed (each fields shape f member) casing before) []
      have shape' : (d.attributed read).shape = .named (fields.map (Field.attributed read)) := by
        rw [Declaration.attributed, shape]
        rfl
      have attributes : (d.attributed read).attributes = attributed read d.attributes := rfl
      rw [derive_of_named generic shape, derive_of_named (d := d.attributed read) generic shape',
        attributes, type]
      cases typeSettings d.attributes with
      | error e => rfl
      | ok s =>
        simp only [folded, bind, Except.bind]
        cases fields.foldlM (addField (s.casing.getD .snake)) [] with
        | error e => rfl
        | ok ms => rfl
    | unnamed | other =>
      have shape' : (d.attributed read).shape = d.shape := by
        rw [Declaration.attributed, shape]
        rfl
      have generic' : (d.attributed read).isGeneric = false := generic
      rw [derive, derive, generic, generic', shape', shape]
      rfl

theorem foldlM_append_eq_iff {ε α σ : Type} {f : σ → α → Except ε σ} {as bs : List α} {s : σ} :
    (as ++ bs).foldlM f s = as.foldlM f s ↔ ∀ t, as.foldlM f s = .ok t → bs.foldlM f t = .ok t := by
  rw [List.foldlM_append]
  cases as.foldlM f s with
  | error e => exact iff_of_true rfl (by rintro t ⟨⟩)
  | ok t => simp [bind, Except.bind]

theorem eq_or_iff {α : Type} {o s : Option α} : s = o.or s ↔ ∀ a, o = some a → s = some a := by
  cases o <;> simp

structure TypeSettings.Repeats (s : TypeSettings) (is : List Item) : Prop where
  valid : ∀ i ∈ is, ForType i
  rename : ∀ name, lastRenaming is = some name → s.rename = some name
  casing : ∀ casing, lastCasing is = some casing → s.casing = some casing

structure FieldSettings.Repeats (s : FieldSettings) (is : List Item) : Prop where
  valid : ∀ i ∈ is, ForField i
  skip : .name "skip" ∈ is → s.skip = true
  rename : ∀ name, lastRenaming is = some name → s.rename = some name

theorem TypeSettings.repeats_iff (s : TypeSettings) (is : List Item) :
    is.foldlM add s = .ok s ↔ s.Repeats is := by
  obtain ⟨rename, casing⟩ := s
  rw [foldlM_add_eq_ok_iff, after, mk.injEq, eq_or_iff, eq_or_iff]
  constructor
  · rintro ⟨valid, rename, casing⟩
    exact ⟨valid, rename, casing⟩
  · rintro ⟨valid, rename, casing⟩
    exact ⟨valid, rename, casing⟩

theorem FieldSettings.repeats_iff (s : FieldSettings) (is : List Item) :
    is.foldlM add s = .ok s ↔ s.Repeats is := by
  obtain ⟨skip, rename⟩ := s
  have skipped : skip = (skip || is.contains (.name "skip")) ↔ (.name "skip" ∈ is → skip = true) := by
    cases skip <;> simp
  rw [foldlM_add_eq_ok_iff, after, mk.injEq, eq_or_iff, skipped]
  constructor
  · rintro ⟨valid, skip, rename⟩
    exact ⟨valid, skip, rename⟩
  · rintro ⟨valid, skip, rename⟩
    exact ⟨valid, skip, rename⟩

theorem typeSettings_gathered_iff (attributes : List Attribute) :
    typeSettings (attributed allItems attributes) = typeSettings attributes ↔
      ∀ s, typeSettings attributes = .ok s → s.Repeats (laterItems attributes) := by
  rw [typeSettings, typeSettings, items_attributed, allItems_eq, foldlM_append_eq_iff]
  simp only [TypeSettings.repeats_iff]

theorem fieldSettings_gathered_iff (attributes : List Attribute) :
    fieldSettings (attributed allItems attributes) = fieldSettings attributes ↔
      ∀ s, fieldSettings attributes = .ok s → s.Repeats (laterItems attributes) := by
  rw [fieldSettings, fieldSettings, items_attributed, allItems_eq, foldlM_append_eq_iff]
  simp only [FieldSettings.repeats_iff]

theorem derive_leading (d : Declaration) :
    derive (d.attributed items) = Derived.attributed items <$> derive d := by
  refine derive_attributed ?_ fun fields shape f member => ?_
  · rw [typeSettings, typeSettings, items_attributed]
  · rw [fieldSettings, fieldSettings, items_attributed]

theorem derivable_leading {d : Declaration} {out : Derived} (derived : derive d = .ok out) :
    ∃ fields, (d.attributed items).Derivable fields ∧
      out.attributed items = ⟨d.name, (d.attributed items).typeName,
        members (d.attributed items).casing fields⟩ := by
  refine (derive_eq_ok_iff (single_attributed items d)).1 ?_
  rw [derive_leading, derived]
  rfl

theorem wellNamed_of_derive {d : Declaration} {out : Derived} (derived : derive d = .ok out) :
    WellNamed out.members := by
  obtain ⟨fields, derivable, same⟩ := derivable_leading derived
  have rewritten : out.members.map (DerivedMember.attributed items) =
      members (d.attributed items).casing fields := congrArg Derived.members same
  constructor
  · have distinct := derivable.names.distinct
    rw [← rewritten, List.map_map] at distinct
    exact distinct
  · intro m member
    refine derivable.names.named (m.attributed items) ?_
    rw [← rewritten]
    exact List.mem_map_of_mem member

structure Declaration.Repeating (d : Declaration) : Prop where
  type : ∀ s, typeSettings d.attributes = .ok s → s.Repeats (laterItems d.attributes)
  each : ∀ fields, d.shape = .named fields → ∀ f ∈ fields, ∀ s,
    fieldSettings f.attributes = .ok s → s.Repeats (laterItems f.attributes)

theorem kept_of_derive {d : Declaration} {out : Derived} {fields : List Field}
    (derived : derive d = .ok out) (shape : d.shape = .named fields) :
    out.members.map (·.field.name) =
      (fields.filter fun f => !(items f.attributes).contains (.name "skip")).map Field.name := by
  obtain ⟨fields', derivable, same⟩ := derivable_leading derived
  have rewritten : fields.map (Field.attributed items) = fields' := by
    have shape' := derivable.shape
    rw [Declaration.attributed, shape] at shape'
    exact Shape.named.inj shape'
  have names := congrArg (fun out => out.members.map fun m => m.field.name) same
  rw [← rewritten] at names
  simpa [Derived.attributed, members, List.filter_map, Function.comp_def, DerivedMember.attributed,
    Field.attributed, Field.isSkipped] using names

/-- Of the attributes for deriving that stand in one place the first one alone has effect. What is asked in
the others is as good as asked in one attribute exactly if it only says again what the first one says; a
field is left out exactly if its first attribute says so. -/
theorem derive_first_attributes (d : Declaration) :
    derive (d.attributed items) = Derived.attributed items <$> derive d ∧
    (∀ {out : Derived} {fields : List Field}, derive d = .ok out → d.shape = .named fields →
      out.members.map (·.field.name) =
        (fields.filter fun f => !(items f.attributes).contains (.name "skip")).map Field.name) ∧
    (∀ attributes, typeSettings (attributed allItems attributes) = typeSettings attributes ↔
      ∀ s, typeSettings attributes = .ok s → s.Repeats (laterItems attributes)) ∧
    (∀ attributes, fieldSettings (attributed allItems attributes) = fieldSettings attributes ↔
      ∀ s, fieldSettings attributes = .ok s → s.Repeats (laterItems attributes)) ∧
    (d.Repeating → derive (d.attributed allItems) = Derived.attributed allItems <$> derive d) :=
  ⟨derive_leading d, kept_of_derive, typeSettings_gathered_iff, fieldSettings_gathered_iff,
    fun repeating => derive_attributed ((typeSettings_gathered_iff _).2 repeating.type)
      fun fields shape f member =>
        (fieldSettings_gathered_iff _).2 (repeating.each fields shape f member)⟩

def user (password : List Attribute) : Declaration :=
  ⟨"User", false, [], .named [⟨"id", .number .uint32, []⟩, ⟨"password", .string, password⟩]⟩

theorem derive_first_attributes_repeated :
    let d := user [⟨"sift", [.assign "rename" (.string "pw"), .name "skip"]⟩, ⟨"doc", []⟩,
      ⟨"sift", [.name "skip"]⟩]
    ∃ out, derive d = .ok out ∧ out.members.map (·.field.name) = ["id"] ∧ d.Repeating ∧
      derive (d.attributed allItems) = .ok (out.attributed allItems) := by
  intro d
  have repeating : d.Repeating := by
    refine ⟨fun s _ => (TypeSettings.repeats_iff s []).1 rfl, ?_⟩
    rintro fields ⟨⟩ f member s settled
    simp only [List.mem_cons, List.not_mem_nil, or_false] at member
    rcases member with rfl | rfl
    · exact (FieldSettings.repeats_iff s []).1 rfl
    · cases settled
      exact (FieldSettings.repeats_iff _ [.name "skip"]).1 rfl
  obtain ⟨out, derived⟩ : ∃ out, derive d = .ok out := ⟨_, rfl⟩
  obtain ⟨-, kept, -, -, gathered⟩ := derive_first_attributes d
  refine ⟨out, derived, kept derived rfl, repeating, ?_⟩
  rw [gathered repeating, derived]
  rfl

-- What further attributes ask for is lost: a password is shown though it is to be left out, and an
-- item without meaning is not refused.
theorem derive_further_attributes_lost :
    let hidden := user [⟨"sift", [.assign "rename" (.string "pw")]⟩, ⟨"sift", [.name "skip"]⟩]
    let unknown := user [⟨"sift", []⟩, ⟨"sift", [.name "hidden"]⟩]
    (∃ out, derive hidden = .ok out ∧ out.members.map DerivedMember.name = ["id", "pw"] ∧
      ∃ out', derive (hidden.attributed allItems) = .ok out' ∧
        out'.members.map DerivedMember.name = ["id"]) ∧
    (∃ out, derive unknown = .ok out) ∧
      derive (unknown.attributed allItems) = .error .unknownFieldItem :=
  ⟨⟨_, rfl, rfl, _, rfl, rfl⟩, ⟨_, rfl⟩, rfl⟩

end EntityQuery.Derive
