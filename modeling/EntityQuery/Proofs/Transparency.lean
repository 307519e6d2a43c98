import EntityQuery.Proofs.Compile

set_option autoImplicit false

namespace EntityQuery

namespace Resolving

structure Call where
  root : SchemaRef
  cached : Bool
  selector : String

def Call.run (c : Catalog) (call : Call) : Resolving Path :=
  resolve ⟨c, call.root⟩ call.cached call.selector

def answerAll (c : Catalog) : List Call → PathCache → List (Except Error Path) × PathCache
  | [], k => ([], k)
  | call :: calls, k =>
    let (rest, after) := answerAll c calls ((call.run c).kept k)
    ((call.run c).answer k :: rest, after)

def Call.uncached (c : Catalog) (call : Call) : Except Error Path :=
  (resolve ⟨c, call.root⟩ false call.selector).answer .empty

variable {c : Catalog}

theorem Call.uncached_eq (call : Call) :
    call.uncached c = Selector.resolve ⟨c, call.root⟩ call.selector :=
  (answers_resolve ⟨c, call.root⟩ false call.selector).answer_eq .empty

theorem Call.answers_run (call : Call) : Answers c (call.run c) (call.uncached c) := by
  rw [uncached_eq]
  exact answers_resolve ⟨c, call.root⟩ call.cached call.selector

theorem answerAll_eq (calls : List Call) {k : PathCache} (reached : k.Reachable c) :
    (answerAll c calls k).1 = calls.map (Call.uncached c) ∧
      (answerAll c calls k).2.Reachable c := by
  induction calls generalizing k with
  | nil => exact ⟨rfl, reached⟩
  | cons call calls ih =>
    obtain ⟨answered, after⟩ := call.answers_run k reached
    obtain ⟨rest, last⟩ := ih after
    exact ⟨by simp only [answerAll, List.map_cons, answered, rest], last⟩

theorem kept_of_error (t : EntityType) (cached : Bool) (selector : String) {k : PathCache}
    {e : Error} (failed : (resolve t cached selector).answer k = .error e) :
    (resolve t cached selector).kept k = k := by
  cases cached with
  | false => exact congrArg Prod.snd (run_lift _ k)
  | true =>
    simp only [answer, kept, run_resolve_cached] at failed ⊢
    cases found : k.find? t.root (Selector.normalized selector) with
    | some p => rfl
    | none =>
      cases resolved : Selector.resolve t (Selector.normalized selector) with
      | ok p => simp [found, resolved] at failed
      | error e => rfl

/-- Every call of a run answers what it answers where nothing is kept. A failure changes nothing
that is kept, all that is kept is what its key resolves to, and a tree compiles alike with kept
paths after one run and without them after another. -/
theorem run_transparent (c : Catalog) (calls calls' : List Call) :
    let kept := (answerAll c calls .empty).2
    let kept' := (answerAll c calls' .empty).2
    (answerAll c calls .empty).1 = calls.map (Call.uncached c) ∧
      (∀ (call : Call) (e : Error),
        (call.run c).answer kept = .error e → (call.run c).kept kept = kept) ∧
      (∀ (root : SchemaRef) (selector : String) (p : Path),
        kept.find? root selector = some p → (Call.mk root false selector).uncached c = .ok p) ∧
      ∀ root strategy (tree : Node), (tree.compile ⟨c, root⟩ ⟨strategy, true⟩).answer kept =
        (tree.compile ⟨c, root⟩ ⟨strategy, false⟩).answer kept' := by
  intro kept kept'
  obtain ⟨answered, reached⟩ := answerAll_eq (c := c) calls .empty
  obtain ⟨-, reached'⟩ := answerAll_eq (c := c) calls' .empty
  refine ⟨answered, fun call e failed => ?_, fun root selector p found => ?_,
    fun root strategy tree => ?_⟩
  · exact kept_of_error ⟨c, call.root⟩ call.cached call.selector failed
  · rw [Call.uncached_eq]
    exact reached.sound root selector p found
  · have withPaths := (tree.answers_compile ⟨c, root⟩ ⟨strategy, true⟩).answer_eq reached
    have without := (tree.answers_compile ⟨c, root⟩ ⟨strategy, false⟩).answer_eq reached'
    exact withPaths.trans without.symm

theorem run_transparent_people :
    let calls : List Call := [⟨⟨0⟩, true, "home.city"⟩, ⟨⟨0⟩, true, " home . city "⟩,
      ⟨⟨1⟩, true, "home.city"⟩, ⟨⟨0⟩, false, "home..city"⟩]
    let kept := (answerAll .people calls .empty).2
    (answerAll .people calls .empty).1 = calls.map (Call.uncached .people) ∧
      kept.entries.map (·.1) = [(⟨0⟩, "home.city")] ∧
      ((Call.mk ⟨0⟩ true "home.zip").run .people).kept kept = kept ∧
      ∀ tree : Node, (tree.compile .person ⟨.childOperator, true⟩).answer kept =
        (tree.compile .person ⟨.childOperator, false⟩).answer .empty := by
  intro calls kept
  obtain ⟨answered, failed, -, compiled⟩ := run_transparent .people calls []
  exact ⟨answered, by decide, failed ⟨⟨0⟩, true, "home.zip"⟩
    (.unknownMember "home.zip" "zip" "Address") (by decide), compiled ⟨0⟩ .childOperator⟩

end Resolving

end EntityQuery
