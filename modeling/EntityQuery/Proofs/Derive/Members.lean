import EntityQuery.Proofs.Derive.Names
import EntityQuery.Proofs.Derive.Settings
import EntityQuery.Proofs.Selector.Members
import EntityQuery.Proofs.Selector.Unread

/-!
Derived members. A declaration is derived exactly if its attributes are understood and the fields that are
not left out have distinct names that selectors can hold. Those fields are then what selectors reach, each
by its own name, and nothing else of an entity is told by what selectors read from it.
-/

set_option autoImplicit false

namespace EntityQuery.Derive

def Single (attributes : List Attribute) : Prop :=
  (attributes.filter (·.path == attributeName)).length ≤ 1

instance (attributes : List Attribute) : Decidable (Single attributes) :=
  inferInstanceAs (Decidable (_ ≤ 1))

theorem allItems_of_single {attributes : List Attribute} (single : Single attributes) :
    allItems attributes = items attributes := by
  have none : (attributes.filter (·.path == attributeName)).tail = [] := by
    rw [← List.length_eq_zero_iff, List.length_tail]
    exact Nat.sub_eq_zero_of_le single
  rw [allItems_eq, laterItems, none, List.flatMap_nil, List.append_nil]

namespace Field

def isSkipped (f : Field) : Bool :=
  (allItems f.attributes).contains (.name "skip")

def memberName (f : Field) (casing : Casing) : String :=
  (lastRenaming (allItems f.attributes)).getD (casing.apply f.name)

end Field

def members (casing : Casing) (fields : List Field) : List DerivedMember :=
  (fields.filter (!·.isSkipped)).map fun f => ⟨f.memberName casing, f⟩

structure WellNamed (ms : List DerivedMember) : Prop where
  distinct : (ms.map DerivedMember.name).Nodup
  named : ∀ m ∈ ms, IsIdentifier m.name.toList ∧ m.name.toList ≠ ['_']

namespace Declaration

def typeName (d : Declaration) : String :=
  (lastRenaming (allItems d.attributes)).getD d.name

def casing (d : Declaration) : Casing :=
  (lastCasing (allItems d.attributes)).getD .snake

structure Single (d : Declaration) : Prop where
  type : Derive.Single d.attributes
  each : ∀ fields, d.shape = .named fields → ∀ f ∈ fields, Derive.Single f.attributes

structure Derivable (d : Declaration) (fields : List Field) : Prop where
  concrete : d.isGeneric = false
  shape : d.shape = .named fields
  type : ∀ i ∈ allItems d.attributes, ForType i
  each : ∀ f ∈ fields, ∀ i ∈ allItems f.attributes, ForField i
  names : WellNamed (members d.casing fields)

end Declaration

namespace WellNamed

variable {ms more : List DerivedMember} {m : DerivedMember}

theorem nil : WellNamed [] :=
  ⟨List.nodup_nil, List.forall_mem_nil _⟩

theorem of_append (names : WellNamed (ms ++ more)) : WellNamed ms where
  distinct := by
    have distinct := names.distinct
    rw [List.map_append] at distinct
    exact distinct.of_append_left
  named m member := names.named m (List.mem_append_left _ member)

theorem append_iff (names : WellNamed ms) : WellNamed (ms ++ [m]) ↔
    m.name ∉ ms.map DerivedMember.name ∧ isMemberName m.name.toList = true := by
  rw [isMemberName_iff]
  constructor
  · rintro ⟨distinct, named⟩
    rw [List.map_append, List.nodup_append_comm] at distinct
    exact ⟨(List.nodup_cons.1 distinct).1, named m (by simp)⟩
  · rintro ⟨fresh, named⟩
    constructor
    · rw [List.map_append, List.nodup_append_comm]
      exact List.nodup_cons.2 ⟨fresh, names.distinct⟩
    · exact List.forall_mem_append.2 ⟨names.named, List.forall_mem_singleton.2 named⟩

end WellNamed

theorem members_cons (casing : Casing) (f : Field) (fields : List Field) :
    members casing (f :: fields) = members casing [f] ++ members casing fields := by
  simp [members, ← List.map_append, ← List.filter_append]

theorem fieldSettings_of_single {f : Field} (single : Single f.attributes) {s : FieldSettings} :
    fieldSettings f.attributes = .ok s ↔
      (∀ i ∈ allItems f.attributes, ForField i) ∧ s = ⟨f.isSkipped, lastRenaming (allItems f.attributes)⟩ := by
  rw [fieldSettings_eq_ok_iff, ← allItems_of_single single]
  simp [FieldSettings.after, Field.isSkipped]

theorem addField_of_valid {casing : Casing} (before : List DerivedMember) {f : Field}
    (single : Single f.attributes) (valid : ∀ i ∈ allItems f.attributes, ForField i) :
    addField casing before f =
      if f.isSkipped then .ok before
      else if before.any (·.name == f.memberName casing) then
        .error (.duplicateMember (f.memberName casing))
      else if !isMemberName (f.memberName casing).toList then
        .error (.invalidMember (f.memberName casing))
      else .ok (before ++ [⟨f.memberName casing, f⟩]) := by
  rw [addField, (fieldSettings_of_single single).2 ⟨valid, rfl⟩]
  rfl

theorem any_name_eq (before : List DerivedMember) (name : String) :
    before.any (·.name == name) = decide (name ∈ before.map DerivedMember.name) := by
  rw [Bool.eq_iff_iff]
  simp

theorem addField_eq_ok_iff {casing : Casing} {before after : List DerivedMember} {f : Field}
    (single : Single f.attributes) (names : WellNamed before) : addField casing before f = .ok after ↔
      (∀ i ∈ allItems f.attributes, ForField i) ∧
        WellNamed (before ++ members casing [f]) ∧ after = before ++ members casing [f] := by
  by_cases valid : ∀ i ∈ allItems f.attributes, ForField i
  next =>
    rw [addField_of_valid before single valid, any_name_eq, and_iff_right valid]
    cases skipped : f.isSkipped with
    | true =>
      have none : members casing [f] = [] := by simp [members, skipped]
      rw [none, List.append_nil, and_iff_right names]
      simpa using eq_comm
    | false =>
      have one : members casing [f] = [⟨f.memberName casing, f⟩] := by simp [members, skipped]
      rw [one, names.append_iff, if_neg Bool.false_ne_true]
      split
      next taken => simp [of_decide_eq_true taken]
      next free =>
        split
        next unnamed =>
          have none : isMemberName (f.memberName casing).toList = false := by simpa using unnamed
          simp [none]
        next named =>
          have both : f.memberName casing ∉ before.map DerivedMember.name ∧
              isMemberName (f.memberName casing).toList = true :=
            ⟨by simpa using free, by simpa using named⟩
          rw [and_iff_right both, Except.ok.injEq, eq_comm]
  next =>
    constructor
    · intro added
      obtain ⟨s, settled, -⟩ := Resolving.ok_of_bind added
      exact absurd ((fieldSettings_of_single single).1 settled).1 valid
    · rintro ⟨all, -⟩
      exact absurd all valid

theorem foldlM_addField_eq_ok_iff {casing : Casing} {before after : List DerivedMember}
    {fields : List Field} (single : ∀ f ∈ fields, Single f.attributes) (names : WellNamed before) :
    fields.foldlM (addField casing) before = .ok after ↔
      (∀ f ∈ fields, ∀ i ∈ allItems f.attributes, ForField i) ∧
        WellNamed (before ++ members casing fields) ∧ after = before ++ members casing fields := by
  induction fields generalizing before with
  | nil => simp [members, names, pure, Except.pure, eq_comm]
  | cons f fields ih =>
    rw [List.forall_mem_cons] at single
    rw [List.foldlM_cons, List.forall_mem_cons, members_cons, ← List.append_assoc]
    constructor
    · intro folded
      obtain ⟨next, first, folded⟩ := Resolving.ok_of_bind folded
      obtain ⟨valid, names, rfl⟩ := (addField_eq_ok_iff single.1 names).1 first
      obtain ⟨others, names, same⟩ := (ih single.2 names).1 folded
      exact ⟨⟨valid, others⟩, names, same⟩
    · rintro ⟨⟨valid, others⟩, all, same⟩
      have added := (addField_eq_ok_iff single.1 names).2 ⟨valid, all.of_append, rfl⟩
      rw [added]
      exact (ih single.2 all.of_append).2 ⟨others, all, same⟩

theorem typeSettings_of_single {d : Declaration} (single : Single d.attributes) {s : TypeSettings} :
    typeSettings d.attributes = .ok s ↔ (∀ i ∈ allItems d.attributes, ForType i) ∧
      s = ⟨lastRenaming (allItems d.attributes), lastCasing (allItems d.attributes)⟩ := by
  rw [typeSettings_eq_ok_iff, ← allItems_of_single single]
  simp [TypeSettings.after]

theorem derive_of_named {d : Declaration} {fields : List Field} (concrete : d.isGeneric = false)
    (shape : d.shape = .named fields) :
    derive d = typeSettings d.attributes >>= fun settings =>
      (fun ms => ⟨d.name, settings.rename.getD d.name, ms⟩) <$>
        fields.foldlM (addField (settings.casing.getD .snake)) [] := by
  rw [derive, concrete, shape]
  rfl

theorem derive_eq_ok_iff {d : Declaration} (single : d.Single) {out : Derived} : derive d = .ok out ↔
    ∃ fields, d.Derivable fields ∧ out = ⟨d.name, d.typeName, members d.casing fields⟩ := by
  constructor
  · intro derived
    have concrete : d.isGeneric = false := by
      cases generic : d.isGeneric with
      | false => rfl
      | true =>
        rw [derive, generic] at derived
        cases derived
    cases shape : d.shape with
    | named fields =>
      rw [derive_of_named concrete shape] at derived
      obtain ⟨s, settled, derived⟩ := Resolving.ok_of_bind derived
      obtain ⟨valid, rfl⟩ := (typeSettings_of_single single.type).1 settled
      obtain ⟨ms, folded, rfl⟩ := Resolving.ok_of_map derived
      obtain ⟨each, names, rfl⟩ :=
        (foldlM_addField_eq_ok_iff (single.each fields shape) .nil).1 folded
      exact ⟨fields, ⟨concrete, shape, valid, each, names⟩, rfl⟩
    | unnamed | other =>
      rw [derive, concrete, shape] at derived
      cases derived
  · rintro ⟨fields, derivable, rfl⟩
    have settled := (typeSettings_of_single single.type).2 ⟨derivable.type, rfl⟩
    have folded := (foldlM_addField_eq_ok_iff (single.each fields derivable.shape) .nil).2
      ⟨derivable.each, derivable.names, rfl⟩
    rw [derive_of_named derivable.concrete derivable.shape, settled]
    exact congrArg (Functor.map _) folded

namespace DerivedMember

def member (m : DerivedMember) : Member :=
  .field m.name m.field.type

def path (m : DerivedMember) : Path :=
  ⟨m.name, [.member m.name], m.field.type.kind, m.field.type.nullable⟩

end DerivedMember

section Selecting

variable {c : Catalog} {r : SchemaRef} {out : Derived}

theorem exists_split {m : DerivedMember} (names : WellNamed out.members) (member : m ∈ out.members) :
    ∃ before after, out.members = before ++ m :: after ∧ ∀ other ∈ before, other.name ≠ m.name := by
  obtain ⟨before, after, split⟩ := List.append_of_mem member
  refine ⟨before, after, split, fun other inside same => ?_⟩
  have distinct := names.distinct
  rw [split, List.map_append, List.nodup_append] at distinct
  exact distinct.2.2 _ (List.mem_map_of_mem inside) _ (List.mem_map_of_mem (.head after)) same

theorem field?_eq_some {m : DerivedMember} (names : WellNamed out.members) (member : m ∈ out.members) :
    out.field? m.name = some m.field := by
  obtain ⟨before, after, split, first⟩ := exists_split names member
  have found : out.members.find? (·.name == m.name) = some m := by
    rw [List.find?_eq_some_iff_append]
    exact ⟨beq_self_eq_true _, before, after, split, fun other inside => by simpa using first other inside⟩
  rw [Derived.field?, found]
  rfl

theorem entity_member {m : DerivedMember} (names : WellNamed out.members) (member : m ∈ out.members)
    (identity : Nat) (values : String → Value) :
    (out.entity identity values).member m.name = values m.field.name := by
  simp [Derived.entity, field?_eq_some names member]

theorem exists_declared {m : DerivedMember} (stored : c.schema r = out.schema)
    (names : WellNamed out.members) (member : m ∈ out.members) :
    ∃ before after, (c.schema r).members = before ++ m.member :: after ∧
      ∀ other ∈ before, other.name ≠ m.member.name := by
  obtain ⟨before, after, split, first⟩ := exists_split names member
  refine ⟨before.map DerivedMember.member, after.map DerivedMember.member, ?_,
    List.forall_mem_map.2 first⟩
  rw [stored, ← List.map_cons, ← List.map_append, ← split]
  rfl

theorem takes_iff (stored : c.schema r = out.schema) (names : WellNamed out.members) {part : List Char}
    {h : Hop} :
    Selector.Takes c (.entity r) part h ↔
      ∃ m ∈ out.members, part = m.name.toList ∧ h = .member m.member := by
  constructor
  · intro taken
    cases taken with
    | @member r m before after declared first name =>
      have member : m ∈ (c.schema r).members := by
        rw [declared]
        exact List.mem_append_right _ (.head _)
      rw [stored] at member
      obtain ⟨m, inside, rfl⟩ := List.mem_map.1 member
      exact ⟨m, inside, List.append_nil _, rfl⟩
  · rintro ⟨m, member, rfl, rfl⟩
    obtain ⟨before, after, declared, first⟩ := exists_declared stored names member
    have text : m.member.segment.text = m.name.toList := List.append_nil _
    rw [← text]
    exact .member declared first (names.named m member).1

theorem resolve_member {t : EntityType} (stored : t.schema = out.schema) (names : WellNamed out.members)
    {m : DerivedMember} (member : m ∈ out.members) : Selector.resolve t m.name = .ok m.path := by
  obtain ⟨before, after, declared, first⟩ := exists_declared stored names member
  exact Selector.resolve_eq_ok_iff.2 (Selector.leads_selector declared first (names.named m member).1)

theorem alike_entity (stored : c.schema r = out.schema) (names : WellNamed out.members)
    {values values' : String → Value}
    (each : ∀ m ∈ out.members, Value.Alike c m.field.type.kind (values m.field.name) (values' m.field.name))
    (identity identity' : Nat) :
    Value.Alike c (.entity r) (.ofEntity (out.entity identity values))
      (.ofEntity (out.entity identity' values')) := by
  refine .entity fun offered inside => ?_
  rw [stored] at inside
  obtain ⟨m, member, rfl⟩ := List.mem_map.1 inside
  have own := entity_member names member
  change Value.Alike c m.field.type.kind ((out.entity identity values).member m.name)
    ((out.entity identity' values').member m.name)
  rw [own, own]
  exact each m member

end Selecting

-- What selectors make of a derived type. Each member is resolved by its own name and reads the
-- field that it is made from; at an entity of the type, wherever a selector comes to it, the
-- members are all it can go on with; and what the fields that are left out hold makes no difference
-- to what is read.
structure Selectable (fields : List Field) (out : Derived) : Prop where
  own : ∀ t : EntityType, t.schema = out.schema →
    ∀ m ∈ out.members, Selector.resolve t m.name = .ok m.path
  reads : ∀ m ∈ out.members, ∀ (identity : Nat) (values : String → Value),
    m.path.get (out.entity identity values) = values m.field.name
  only : ∀ (c : Catalog) (r : SchemaRef), c.schema r = out.schema →
    ∀ part h, Selector.Takes c (.entity r) part h ↔
      ∃ m ∈ out.members, part = m.name.toList ∧ h = .member m.member
  unread : ∀ t : EntityType, t.schema = out.schema → ∀ {values values' : String → Value},
    (∀ f ∈ fields, f.isSkipped = false → Value.Alike t.catalog f.type.kind (values f.name) (values' f.name)) →
      ∀ {selector : String} {p : Path}, Selector.resolve t selector = .ok p →
        ∀ identity identity' : Nat, Value.Alike t.catalog p.kind (p.get (out.entity identity values))
          (p.get (out.entity identity' values'))

/-- With no more than one attribute for deriving in each place, a declaration is derived exactly if everything
in it is in order, and the fields that are not left out are then what selectors reach. -/
theorem derive_selectable {d : Declaration} (single : d.Single) :
    (∀ out, derive d = .ok out ↔
      ∃ fields, d.Derivable fields ∧ out = ⟨d.name, d.typeName, members d.casing fields⟩) ∧
    ∀ {out : Derived} {fields : List Field}, derive d = .ok out → d.shape = .named fields →
      Selectable fields out := by
  refine ⟨fun out => derive_eq_ok_iff single, fun {out fields} derived shape => ?_⟩
  obtain ⟨fields', derivable, rfl⟩ := (derive_eq_ok_iff single).1 derived
  obtain rfl : fields = fields' := Shape.named.inj (shape.symm.trans derivable.shape)
  have names := derivable.names
  constructor
  case own => exact fun t stored m member => resolve_member stored names member
  case reads => exact fun m member => entity_member names member
  case only => exact fun c r stored part h => takes_iff stored names
  case unread =>
    intro t stored values values' agree selector p resolved identity identity'
    refine Value.Alike.get ?_ resolved
    refine alike_entity stored names (fun m member => ?_) identity identity'
    obtain ⟨f, kept, rfl⟩ := List.mem_map.1 member
    obtain ⟨inside, shown⟩ := List.mem_filter.1 kept
    exact agree f inside (by simpa using shown)

def accountFields : List Field :=
  [⟨"r#type", .number .uint32, []⟩,
   ⟨"owner_name", .optional .string, [⟨"sift", []⟩]⟩,
   ⟨"password", .string, [⟨"sift", [.name "skip"]⟩]⟩,
   ⟨"manager", .optional (.entity ⟨0⟩), [⟨"sift", [.assign "rename" (.string "password")]⟩]⟩]

def account : Declaration :=
  ⟨"Row", false, [⟨"doc", []⟩, ⟨"sift", [.assign "rename_all" (.string "camelCase")]⟩],
    .named accountFields⟩

theorem derive_selectable_account :
    let manager : Path := ⟨"password", [.member "password"], .entity ⟨0⟩, true⟩
    ∃ out, derive account = .ok out ∧ account.Derivable accountFields ∧
      out.members.map DerivedMember.name = ["type", "ownerName", "password"] ∧
      ∀ t : EntityType, t.schema = out.schema → Selector.resolve t "password" = .ok manager ∧
        (∀ values, manager.get (out.entity 0 values) = values "manager") ∧
        ∀ secret : Value, ∀ {selector : String} {p : Path}, Selector.resolve t selector = .ok p →
          p.kind.isScalar = true → p.get (out.entity 0 fun _ => .null) =
            p.get (out.entity 0 fun name => if name = "password" then secret else .null) := by
  intro manager
  have single : account.Single := ⟨by decide, by rintro fields ⟨⟩; decide⟩
  obtain ⟨exactly, selects⟩ := derive_selectable single
  have derived : derive account = .ok ⟨"Row", "Row", members .camel accountFields⟩ := rfl
  have derivable : account.Derivable accountFields := by
    obtain ⟨fields, derivable, -⟩ := (exactly _).1 derived
    cases derivable.shape
    exact derivable
  have selectable := selects derived rfl
  have member : ⟨"password", accountFields[3]⟩ ∈ members .camel accountFields := by decide
  refine ⟨_, derived, derivable, rfl, fun t stored => ⟨selectable.own t stored _ member,
    selectable.reads _ member 0, fun secret selector p resolved scalar => ?_⟩⟩
  refine (selectable.unread t stored (fun f member shown => ?_) resolved 0 0).eq_of_isScalar scalar
  have other : f.name ≠ "password" := by
    revert f
    decide
  rw [if_neg other]
  exact .same

end EntityQuery.Derive
