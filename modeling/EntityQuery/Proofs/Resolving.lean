import EntityQuery.Proofs.Selector.Normalized
import EntityQuery.Selector.Cache

/-!
Resolving with kept paths. Every path that resolutions leave behind is what its key resolves to, so
a computation over the schemas of one catalog answers the same whatever was resolved before it.
-/

set_option autoImplicit false

namespace EntityQuery

namespace Resolving

variable {ε α β : Type}

def answer (x : Resolving α) (k : PathCache) : Except Error α :=
  (x.run k).1

def kept (x : Resolving α) (k : PathCache) : PathCache :=
  (x.run k).2

theorem run_eq (x : Resolving α) (k : PathCache) : x.run k = (x.answer k, x.kept k) :=
  rfl

theorem run_bind (x : Resolving α) (f : α → Resolving β) (k : PathCache) :
    (x >>= f).run k = match x.run k with
      | (.ok a, k) => (f a).run k
      | (.error e, k) => (.error e, k) := by
  unfold ExceptT.run
  simp only [bind, ExceptT.bind, ExceptT.mk, StateT.bind, ExceptT.bindCont]
  cases x k with
  | mk result k => cases result <;> rfl

theorem ok_of_bind {x : Except ε α} {f : α → Except ε β} {b : β} (h : x >>= f = .ok b) :
    ∃ a, x = .ok a ∧ f a = .ok b := by
  cases x with
  | error e => cases h
  | ok a => exact ⟨a, rfl, h⟩

theorem ok_of_map {x : Except ε α} {f : α → β} {b : β} (h : f <$> x = .ok b) :
    ∃ a, x = .ok a ∧ f a = b := by
  cases x with
  | error e => cases h
  | ok a => exact ⟨a, rfl, Except.ok.inj h⟩

theorem map_eq_error_iff {x : Except ε α} {f : α → β} {e : ε} :
    f <$> x = .error e ↔ x = .error e := by
  cases x with
  | error e' => simp only [Except.map_error, Except.error.injEq]
  | ok a => simp only [Except.map_ok, reduceCtorEq]

theorem exists_map_ok_iff {x : Except ε α} {f : α → β} :
    (∃ b, f <$> x = .ok b) ↔ ∃ a, x = .ok a := by
  cases x with
  | error e => simp
  | ok a => simp

theorem ok_of_answer_bind {x : Resolving α} {f : α → Resolving β} {b : β} {k : PathCache}
    (h : (x >>= f).answer k = .ok b) :
    ∃ a k', x.answer k = .ok a ∧ (f a).answer k' = .ok b := by
  rw [answer, run_bind, run_eq] at h
  cases first : x.answer k with
  | error e =>
    rw [first] at h
    cases h
  | ok a =>
    rw [first] at h
    exact ⟨a, x.kept k, rfl, h⟩

end Resolving

section Each

variable {α β : Type} {f : α → Except Error β} {as : List α}

theorem map_eq_of_mapM {bs : List β} (mapped : as.mapM f = .ok bs) : as.map f = bs.map .ok := by
  induction as generalizing bs with
  | nil =>
    cases mapped
    rfl
  | cons a rest ih =>
    rw [List.mapM_cons] at mapped
    obtain ⟨b, first, mapped⟩ := Resolving.ok_of_bind mapped
    obtain ⟨bs, others, done⟩ := Resolving.ok_of_bind mapped
    cases done
    rw [List.map_cons, List.map_cons, first, ih others]

theorem mem_iff_of_mapM {bs : List β} (mapped : as.mapM f = .ok bs) (b : β) :
    b ∈ bs ↔ ∃ a ∈ as, f a = .ok b := by
  have made : b ∈ bs ↔ .ok b ∈ as.map f := by
    rw [map_eq_of_mapM mapped]
    simp
  rw [made, List.mem_map]

theorem exists_mapM_ok_iff : (∃ bs, as.mapM f = .ok bs) ↔ ∀ a ∈ as, ∃ b, f a = .ok b := by
  induction as with
  | nil => exact ⟨fun _ => nofun, fun _ => ⟨[], rfl⟩⟩
  | cons a rest ih =>
    rw [List.forall_mem_cons, ← ih, List.mapM_cons]
    constructor
    · rintro ⟨bs, mapped⟩
      obtain ⟨b, first, mapped⟩ := Resolving.ok_of_bind mapped
      obtain ⟨bs, others, -⟩ := Resolving.ok_of_bind mapped
      exact ⟨⟨b, first⟩, ⟨bs, others⟩⟩
    · rintro ⟨⟨b, first⟩, ⟨bs, others⟩⟩
      exact ⟨b :: bs, by rw [first, others]; rfl⟩

theorem mapM_eq_error_iff {e : Error} : as.mapM f = .error e ↔
    ∃ before a after, as = before ++ a :: after ∧ (∀ b ∈ before, ∃ c, f b = .ok c) ∧
      f a = .error e := by
  constructor
  · intro failed
    induction as with
    | nil => cases failed
    | cons a rest ih =>
      rw [List.mapM_cons] at failed
      cases first : f a with
      | error e' =>
        rw [first] at failed
        cases failed
        exact ⟨[], a, rest, rfl, nofun, first⟩
      | ok b =>
        rw [first] at failed
        obtain ⟨before, a', after, rfl, passed, reason⟩ := ih (Resolving.map_eq_error_iff.1 failed)
        exact ⟨a :: before, a', after, rfl, List.forall_mem_cons.2 ⟨⟨b, first⟩, passed⟩, reason⟩
  · rintro ⟨before, a, after, rfl, passed, reason⟩
    obtain ⟨bs, mapped⟩ := exists_mapM_ok_iff.2 passed
    rw [List.mapM_append, mapped, List.mapM_cons, reason]
    rfl

theorem exists_of_mapM_error {e : Error} (failed : as.mapM f = .error e) :
    ∃ a ∈ as, f a = .error e := by
  obtain ⟨before, a, after, rfl, -, reason⟩ := mapM_eq_error_iff.1 failed
  exact ⟨a, by simp, reason⟩

end Each

inductive PathCache.Reachable (c : Catalog) : PathCache → Prop where
  | empty : Reachable c .empty
  | resolve {k : PathCache} (before : Reachable c k) (root : SchemaRef) (cached : Bool)
      (selector : String) : Reachable c ((Resolving.resolve ⟨c, root⟩ cached selector).kept k)

def PathCache.Sound (c : Catalog) (k : PathCache) : Prop :=
  ∀ root selector p, k.find? root selector = some p → Selector.resolve ⟨c, root⟩ selector = .ok p

theorem PathCache.sound_empty (c : Catalog) : PathCache.empty.Sound c := by
  simp [Sound]

theorem PathCache.Sound.insert {c : Catalog} {k : PathCache} (sound : k.Sound c)
    {root : SchemaRef} {selector : String} {p : Path}
    (resolved : Selector.resolve ⟨c, root⟩ selector = .ok p) :
    (k.insert root selector p).Sound c := by
  intro root' selector' p' found
  rw [find?_insert] at found
  split at found
  next same =>
    cases same
    exact resolved.trans (congrArg _ (Option.some.inj found))
  next => exact sound root' selector' p' found

namespace Resolving

variable {α β : Type} {c : Catalog}

theorem run_resolve_cached (t : EntityType) (selector : String) (k : PathCache) :
    (resolve t true selector).run k =
      match k.find? t.root (Selector.normalized selector) with
      | some p => (.ok p, k)
      | none =>
        match Selector.resolve t (Selector.normalized selector) with
        | .ok p => (.ok p, k.insert t.root (Selector.normalized selector) p)
        | .error e => (.error e, k) := by
  simp only [resolve, if_true]
  generalize Selector.normalized selector = key
  have current : (get : Resolving PathCache).run k = (.ok k, k) := rfl
  rw [run_bind, current]
  cases found : k.find? t.root key with
  | some p => simp only [found]; rfl
  | none =>
    simp only [found]
    generalize Selector.resolve t key = result
    cases result <;> rfl

theorem run_lift (x : Except Error α) (k : PathCache) : (liftM x : Resolving α).run k = (x, k) :=
  rfl

theorem resolve_sound {k : PathCache} (sound : k.Sound c) (root : SchemaRef) (cached : Bool)
    (selector : String) :
    (resolve ⟨c, root⟩ cached selector).answer k = Selector.resolve ⟨c, root⟩ selector ∧
      ((resolve ⟨c, root⟩ cached selector).kept k).Sound c := by
  rw [← Selector.resolve_normalized]
  cases cached with
  | false =>
    simp only [answer, kept, resolve, Bool.false_eq_true, if_false]
    exact ⟨by rw [run_lift], by rw [run_lift]; exact sound⟩
  | true =>
    simp only [answer, kept, run_resolve_cached]
    cases found : k.find? root (Selector.normalized selector) with
    | some p => exact ⟨(sound _ _ _ found).symm, sound⟩
    | none =>
      cases resolved : Selector.resolve ⟨c, root⟩ (Selector.normalized selector) with
      | ok p => exact ⟨rfl, sound.insert resolved⟩
      | error e => exact ⟨rfl, sound⟩

end Resolving

theorem PathCache.Reachable.sound {c : Catalog} {k : PathCache} (reached : Reachable c k) :
    k.Sound c := by
  induction reached with
  | empty => exact sound_empty c
  | resolve _ root cached selector ih => exact (Resolving.resolve_sound ih root cached selector).2

namespace Resolving

variable {α β : Type} {c : Catalog}

-- Whatever was resolved before, `x` answers `y`.
def Answers (c : Catalog) (x : Resolving α) (y : Except Error α) : Prop :=
  ∀ k, PathCache.Reachable c k → x.answer k = y ∧ PathCache.Reachable c (x.kept k)

theorem Answers.answer_eq {x : Resolving α} {y : Except Error α} (h : Answers c x y)
    {k : PathCache} (reached : k.Reachable c) : x.answer k = y :=
  (h k reached).1

theorem answers_resolve (t : EntityType) (cached : Bool) (selector : String) :
    Answers t.catalog (resolve t cached selector) (Selector.resolve t selector) :=
  fun _ reached => ⟨(resolve_sound reached.sound t.root cached selector).1,
    .resolve reached t.root cached selector⟩

theorem answers_lift (x : Except Error α) : Answers c (liftM x : Resolving α) x :=
  fun k reached => ⟨congrArg Prod.fst (run_lift x k), by rw [kept, run_lift]; exact reached⟩

theorem answers_pure (a : α) : Answers c (pure a : Resolving α) (pure a) :=
  fun _ reached => ⟨rfl, reached⟩

theorem answers_throw (e : Error) : Answers c (throw e : Resolving α) (throw e) :=
  fun _ reached => ⟨rfl, reached⟩

theorem Answers.bind {x : Resolving α} {y : Except Error α} {f : α → Resolving β}
    {g : α → Except Error β} (hx : Answers c x y) (hf : ∀ a, Answers c (f a) (g a)) :
    Answers c (x >>= f) (y >>= g) := by
  intro k reached
  obtain ⟨answered, after⟩ := hx k reached
  rw [answer, kept, run_bind, run_eq, answered]
  cases y with
  | error e => exact ⟨rfl, after⟩
  | ok a => exact hf a _ after

theorem Answers.map {x : Resolving α} {y : Except Error α} (hx : Answers c x y) (f : α → β) :
    Answers c (f <$> x) (f <$> y) := by
  rw [← bind_pure_comp, ← bind_pure_comp]
  exact hx.bind fun a => answers_pure (f a)

theorem Answers.mapM {f : α → Resolving β} {g : α → Except Error β}
    (h : ∀ a, Answers c (f a) (g a)) (items : List α) :
    Answers c (items.mapM f) (items.mapM g) := by
  induction items with
  | nil => exact answers_pure []
  | cons a rest ih =>
    rw [List.mapM_cons, List.mapM_cons]
    exact (h a).bind fun b => ih.bind fun bs => answers_pure (b :: bs)

end Resolving

-- People with their addresses and superiors, on whom general statements are tried.
def Catalog.people : Catalog where
  schema r :=
    if r = ⟨0⟩ then
      ⟨"Person", [.field "name" .string, .field "age" (.number .uint32), .field "born" .date,
        .field "tags" (.list .string), .field "home" (.optional (.entity ⟨1⟩)),
        .field "boss" (.optional (.entity ⟨0⟩))]⟩
    else
      ⟨"Address", [.field "city" .string]⟩

def EntityType.person : EntityType := ⟨.people, ⟨0⟩⟩

def Entity.ofPerson (identity : Nat) (name : String) (boss : Value) : Entity where
  identity := identity
  member
    | "name" => .string name
    | "age" => .number (.uint 36)
    | "born" => .date (.ofDate ⟨1970, 1, 1, by decide, by decide⟩)
    | "tags" => .list [.string "old", .null]
    | "boss" => boss
    | _ => .null

end EntityQuery
