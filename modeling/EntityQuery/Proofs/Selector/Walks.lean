import EntityQuery.Proofs.Resolving
import EntityQuery.Proofs.Selector.Hops

/-!
Selectors as walks over the schemas of a catalog. A selector resolves exactly if its parts, one after
the other, take hops from the root; otherwise the first part that takes none is the error.
-/

set_option autoImplicit false

namespace EntityQuery

open Text

namespace Selector

theorem splitOn_cons_ne {c : Char} (other : c ≠ '.') (cs : List Char) :
    List.splitOn '.' (c :: cs) = (List.splitOn '.' cs).modifyHead (c :: ·) := by
  rw [List.splitOn_cons_eq_if_modifyHead, if_neg (by simpa using other)]

theorem splitOn_cons_dot (cs : List Char) :
    List.splitOn '.' ('.' :: cs) = [] :: List.splitOn '.' cs := by
  rw [List.splitOn_cons_eq_if_modifyHead, if_pos (by rfl)]

theorem map_trim_splitOn_trimStart (cs : List Char) :
    (List.splitOn '.' (trimStart cs)).map trim = (List.splitOn '.' cs).map trim := by
  induction cs with
  | nil => rfl
  | cons c cs ih =>
    cases blank : isBlank c with
    | false => rw [trimStart_eq_self (by simpa using blank)]
    | true =>
      have other : c ≠ '.' := by
        rintro rfl
        rw [isBlank_dot] at blank
        cases blank
      rw [trimStart_cons_blank blank, ih, splitOn_cons_ne other]
      cases List.splitOn '.' cs with
      | nil => rfl
      | cons first rest => simp [trim, trimStart_cons_blank blank]

theorem map_trimEnd_modifyHead {parts parts' : List (List Char)}
    (same : parts.map trimEnd = parts'.map trimEnd) (c : Char) :
    (parts.modifyHead (c :: ·)).map trimEnd = (parts'.modifyHead (c :: ·)).map trimEnd := by
  cases parts with
  | nil =>
    rw [List.map_nil, eq_comm, List.map_eq_nil_iff] at same
    rw [same]
  | cons first rest =>
    cases parts' with
    | nil => cases same
    | cons first' rest' =>
      obtain ⟨head, tail⟩ := List.cons.inj same
      rw [List.modifyHead_cons, List.modifyHead_cons, List.map_cons, List.map_cons,
        trimEnd_cons_congr head, tail]

-- By induction on the text, since what is trimmed at its end may reach back over several characters but
-- over no dot.
theorem map_trimEnd_splitOn_trimEnd (cs : List Char) :
    (List.splitOn '.' (trimEnd cs)).map trimEnd = (List.splitOn '.' cs).map trimEnd := by
  induction cs with
  | nil => rfl
  | cons c cs ih =>
    by_cases dot : c = '.'
    · rw [dot, trimEnd_cons, if_neg (by simp [isBlank_dot]), splitOn_cons_dot, splitOn_cons_dot,
        List.map_cons, List.map_cons, ih]
    · rw [splitOn_cons_ne dot, ← map_trimEnd_modifyHead ih, ← splitOn_cons_ne dot, trimEnd_cons]
      split
      next blank =>
        have single : trimEnd [c] = [] := by rw [trimEnd_cons, if_pos ⟨rfl, blank.2⟩]
        rw [blank.1, splitOn_cons_ne dot, List.splitOn_nil, List.modifyHead_cons, List.map_singleton,
          List.map_singleton, single]
        rfl
      next => rfl

def parts (selector : String) : List (List Char) :=
  (List.splitOn '.' selector.toList).map trim

theorem segments_eq_parts (selector : String) : segments selector = parts selector := by
  have ends (cs : List Char) : (List.splitOn '.' (trimEnd cs)).map trim =
      (List.splitOn '.' cs).map trim := by
    have both := congrArg (List.map trimStart) (map_trimEnd_splitOn_trimEnd cs)
    simpa only [List.map_map, Function.comp_def, trimStart_trimEnd] using both
  rw [segments, trim, ends, map_trim_splitOn_trimStart, parts]

inductive Walks (c : Catalog) : Kind → List (List Char) → List Hop → Kind → Prop where
  | done {k : Kind} : Walks c k [] [] k
  | hop {k last : Kind} {part : List Char} {rest : List (List Char)} {h : Hop} {hops : List Hop}
      (taken : Takes c k part h) (onward : Walks c h.kind rest hops last) :
      Walks c k (part :: rest) (h :: hops) last

variable {c : Catalog}

theorem Walks.length_eq {k last : Kind} {ps : List (List Char)} {hops : List Hop}
    (walks : Walks c k ps hops last) : hops.length = ps.length := by
  induction walks with
  | done => rfl
  | hop _ _ ih => rw [List.length_cons, List.length_cons, ih]

def extended (p : Path) (hops : List Hop) (last : Kind) : Path :=
  ⟨p.selector, p.steps ++ hops.map Hop.step, last, p.nullable || hops.any Hop.nullable⟩

theorem extend_eq (p : Path) (part : List Char) : extend c p part =
    (fun next => ⟨p.selector, p.steps ++ [next.1], next.2.1, p.nullable || next.2.2⟩) <$>
      select c p.selector p.kind part :=
  bind_pure_comp _ _

theorem extend_eq_ok_iff {p q : Path} {part : List Char} : extend c p part = .ok q ↔
    ∃ h, Takes c p.kind part h ∧ q = extended p [h] h.kind := by
  constructor
  · intro onward
    rw [extend_eq] at onward
    obtain ⟨next, selected, rfl⟩ := Resolving.ok_of_map onward
    obtain ⟨h, taken, rfl⟩ := exists_takes selected
    exact ⟨h, taken, by simp [extended]⟩
  · rintro ⟨h, taken, rfl⟩
    rw [extend_eq, select_of_takes taken]
    simp [extended]

theorem extended_extended (p : Path) (h : Hop) (hops : List Hop) (last : Kind) :
    extended (extended p [h] h.kind) hops last = extended p (h :: hops) last := by
  simp [extended, Bool.or_assoc]

theorem foldlM_of_walks {k last : Kind} {ps : List (List Char)} {hops : List Hop}
    (walks : Walks c k ps hops last) {p : Path} (start : p.kind = k) :
    ps.foldlM (extend c) p = .ok (extended p hops last) := by
  induction walks generalizing p with
  | done =>
    rw [← start]
    simp [extended, pure, Except.pure]
  | @hop k last part rest h hops taken walks ih =>
    rw [← start] at taken
    have onward := ih (p := extended p [h] h.kind) rfl
    rw [extended_extended] at onward
    rw [List.foldlM_cons, extend_eq_ok_iff.2 ⟨h, taken, rfl⟩]
    exact onward

theorem exists_walks {ps : List (List Char)} {p q : Path} (walked : ps.foldlM (extend c) p = .ok q) :
    ∃ hops last, Walks c p.kind ps hops last ∧ q = extended p hops last := by
  induction ps generalizing p with
  | nil =>
    obtain rfl : p = q := Except.ok.inj walked
    exact ⟨[], p.kind, .done, by simp [extended]⟩
  | cons part rest ih =>
    rw [List.foldlM_cons] at walked
    obtain ⟨next, first, walked⟩ := Resolving.ok_of_bind walked
    obtain ⟨h, taken, rfl⟩ := extend_eq_ok_iff.1 first
    obtain ⟨hops, last, onward, rfl⟩ := ih walked
    exact ⟨h :: hops, last, .hop taken onward, extended_extended p h hops last⟩

theorem foldlM_eq_error_iff {ps : List (List Char)} {p : Path} {e : Error} :
    ps.foldlM (extend c) p = .error e ↔ ∃ before part after hops k, ps = before ++ part :: after ∧
      Walks c p.kind before hops k ∧ Breaks c p.selector k part e := by
  constructor
  · intro failed
    induction ps generalizing p with
    | nil => cases failed
    | cons part rest ih =>
      rw [List.foldlM_cons] at failed
      cases first : extend c p part with
      | error e' =>
        rw [first] at failed
        cases failed
        rw [extend_eq, Resolving.map_eq_error_iff, select_eq_error_iff] at first
        exact ⟨[], part, rest, [], p.kind, rfl, .done, first⟩
      | ok next =>
        rw [first] at failed
        obtain ⟨h, taken, rfl⟩ := extend_eq_ok_iff.1 first
        obtain ⟨before, part', after, hops, k, rfl, walks, breaks⟩ := ih failed
        exact ⟨part :: before, part', after, h :: hops, k, rfl, .hop taken walks, breaks⟩
  · rintro ⟨before, part, after, hops, k, rfl, walks, breaks⟩
    have stopped : (part :: after).foldlM (extend c) (extended p hops k) = .error e := by
      have refused : select c p.selector k part = .error e := select_eq_error_iff.2 breaks
      rw [List.foldlM_cons, extend_eq, extended, refused]
      rfl
    rw [List.foldlM_append, foldlM_of_walks walks rfl]
    exact stopped

structure Leads (t : EntityType) (selector : String) (p : Path) : Prop where
  shown : trim selector.toList ≠ []
  selector_eq : p.selector = join (parts selector)
  walks : ∃ hops, Walks t.catalog (.entity t.root) (parts selector) hops p.kind ∧
    p.steps = hops.map Hop.step ∧ p.nullable = hops.any Hop.nullable

inductive Strays (t : EntityType) (selector : String) : Error → Prop where
  | blank (empty : trim selector.toList = []) : Strays t selector .emptySelector
  | breaks {before after : List (List Char)} {part : List Char} {hops : List Hop} {k : Kind}
      {e : Error} (shown : trim selector.toList ≠ [])
      (split : parts selector = before ++ part :: after)
      (walks : Walks t.catalog (.entity t.root) before hops k)
      (stops : Breaks t.catalog (join (parts selector)) k part e) : Strays t selector e

theorem resolve_eq {t : EntityType} {selector : String} (shown : trim selector.toList ≠ []) :
    resolve t selector = (parts selector).foldlM (extend t.catalog)
      ⟨join (parts selector), [], .entity t.root, false⟩ := by
  rw [resolve, if_neg (by simpa using shown), normalized, segments_eq_parts]

theorem resolve_blank {t : EntityType} {selector : String} (blank : trim selector.toList = []) :
    resolve t selector = .error .emptySelector :=
  if_pos (by simp [blank])

theorem resolve_eq_ok_iff {t : EntityType} {selector : String} {p : Path} :
    resolve t selector = .ok p ↔ Leads t selector p := by
  constructor
  · intro resolved
    by_cases blank : trim selector.toList = []
    · rw [resolve_blank blank] at resolved
      cases resolved
    · rw [resolve_eq blank] at resolved
      obtain ⟨hops, last, walks, rfl⟩ := exists_walks resolved
      exact ⟨blank, rfl, hops, walks, List.nil_append _, Bool.false_or _⟩
  · rintro ⟨shown, selector_eq, hops, walks, steps, nullable⟩
    rw [resolve_eq shown, foldlM_of_walks walks rfl]
    obtain ⟨selector', steps', kind, nullable'⟩ := p
    simp_all [extended]

theorem resolve_eq_error_iff {t : EntityType} {selector : String} {e : Error} :
    resolve t selector = .error e ↔ Strays t selector e := by
  by_cases blank : trim selector.toList = []
  · rw [resolve_blank blank]
    constructor
    · rintro ⟨⟩
      exact .blank blank
    · intro strays
      cases strays with
      | blank => rfl
      | breaks shown => exact absurd blank shown
  · rw [resolve_eq blank, foldlM_eq_error_iff]
    constructor
    · rintro ⟨before, part, after, hops, k, split, walks, stops⟩
      exact .breaks blank split walks stops
    · intro strays
      cases strays with
      | blank empty => exact absurd empty blank
      | breaks _ split walks stops => exact ⟨_, _, _, _, _, split, walks, stops⟩

theorem resolve_congr (t : EntityType) {selector padded : String}
    (same : parts padded = parts selector) : resolve t padded = resolve t selector := by
  rw [← resolve_normalized t padded, ← resolve_normalized t selector, normalized, normalized,
    segments_eq_parts, segments_eq_parts, same]

theorem parts_join (selector : String) : parts (join (parts selector)) = parts selector := by
  rw [← segments_eq_parts, ← segments_eq_parts]
  exact segments_normalized selector

/-- A selector resolves exactly if it is a walk over the schemas, to the path that the walk makes, and
it is refused for the first part that breaks the walk. The path's own selector resolves to the path
again, and so does the selector with any other white space around its parts, whatever is kept. -/
theorem resolve_walks {t : EntityType} {k : PathCache} (reached : k.Reachable t.catalog)
    (cached : Bool) (selector : String) :
    (∀ p, (Resolving.resolve t cached selector).answer k = .ok p ↔ Leads t selector p) ∧
    (∀ e, (Resolving.resolve t cached selector).answer k = .error e ↔ Strays t selector e) ∧
    (∀ p, (Resolving.resolve t cached selector).answer k = .ok p →
      p.steps.length = (parts selector).length ∧
        (Resolving.resolve t cached p.selector).answer k = .ok p) ∧
    ∀ padded, parts padded = parts selector →
      ∀ (again : Bool) (k' : PathCache), k'.Reachable t.catalog →
        (Resolving.resolve t again padded).answer k' =
          (Resolving.resolve t cached selector).answer k := by
  have answer (again : Bool) (text : String) {k : PathCache} (reached : k.Reachable t.catalog) :
      (Resolving.resolve t again text).answer k = resolve t text :=
    (Resolving.answers_resolve t again text).answer_eq reached
  simp only [answer _ _ reached]
  refine ⟨fun p => resolve_eq_ok_iff, fun e => resolve_eq_error_iff, fun p resolved => ?_,
    fun padded same again k' reached' => ?_⟩
  · obtain ⟨-, named, hops, walks, steps, -⟩ := resolve_eq_ok_iff.1 resolved
    constructor
    · rw [steps, List.length_map, walks.length_eq]
    · have same : parts p.selector = parts selector := by rw [named, parts_join]
      rw [resolve_congr t same, resolved]
  · rw [answer again padded reached', resolve_congr t same]

-- A walk over two schemas to a collection, and walks that break: at a member that the address lacks, at
-- a method where there is a field, and at a part of no form, though nothing could follow a scalar.
theorem resolve_walks_people :
    Leads .person " boss . tags.Count() "
      ⟨"boss.tags.Count()", [.member "boss", .member "tags", .count], .number .uint64, true⟩ ∧
    Strays .person "home.zip.Count()" (.unknownMember "home.zip.Count()" "zip" "Address") ∧
    Strays .person "boss. home ()" (.malformedSelector "boss.home ()") ∧
    Strays .person "home()" (.unknownMember "home()" "home()" "Person") ∧
    Strays .person "name.1" (.malformedSelector "name.1") ∧
    (Resolving.resolve .person false "boss.\ttags .Count()").answer .empty =
      (Resolving.resolve .person true " boss . tags.Count() ").answer .empty :=
  ⟨((resolve_walks .empty true _).1 _).1 rfl, ((resolve_walks .empty true _).2.1 _).1 rfl,
    ((resolve_walks .empty true _).2.1 _).1 rfl, ((resolve_walks .empty true _).2.1 _).1 rfl,
    ((resolve_walks .empty true _).2.1 _).1 rfl,
    (resolve_walks .empty true _).2.2.2 _ (by decide) false .empty .empty⟩

end Selector

end EntityQuery
