import EntityQuery.Proofs.Letters
import EntityQuery.Proofs.Selector.Walks

set_option autoImplicit false

namespace EntityQuery

open Text

namespace Segment

variable {s : Segment}

theorem isTail_of_mem_text (named : IsIdentifier s.name) {c : Char} (member : c ∈ s.text) :
    isTail c = true ∨ c = '(' ∨ c = ')' := by
  rw [text, List.mem_append] at member
  rcases member with inside | mark
  · exact .inl (isTail_of_isIdentifier named c inside)
  · split at mark
    next => simpa using Or.inr mark
    next => cases mark

theorem isBlank_of_mem_text (named : IsIdentifier s.name) {c : Char} (member : c ∈ s.text) :
    isBlank c = false := by
  rcases isTail_of_mem_text named member with tail | rfl | rfl
  · rw [isTail, Bool.or_eq_true, decide_eq_true_eq] at tail
    rcases tail with shown | rfl
    · exact isBlank_of_isAlphanum shown
    · decide
  · decide
  · decide

theorem dot_not_mem_text (named : IsIdentifier s.name) : '.' ∉ s.text := by
  intro member
  rcases isTail_of_mem_text named member with tail | mark | mark
  · exact absurd tail (by decide)
  · cases mark
  · cases mark

theorem trim_text (named : IsIdentifier s.name) : trim s.text = s.text :=
  trim_eq_self (fun _ first => isBlank_of_mem_text named (List.mem_of_mem_head? first))
    fun _ last => isBlank_of_mem_text named (List.mem_of_mem_getLast? last)

theorem text_ne_nil (named : IsIdentifier s.name) : s.text ≠ [] := by
  obtain ⟨first, rest, spelled, -⟩ := named
  rw [text, spelled]
  exact List.cons_ne_nil _ _

end Segment

namespace Member

def selector (m : Member) : String :=
  match m.access with
  | .field => m.name
  | .method => m.name ++ "()"

theorem selector_eq (m : Member) : m.selector = String.ofList m.segment.text := by
  obtain ⟨name, kind, nullable, access⟩ := m
  cases access <;> simp [selector, segment, Segment.text]

end Member

namespace Selector

theorem parts_text {s : Segment} (named : IsIdentifier s.name) :
    parts (String.ofList s.text) = [s.text] := by
  have whole : List.splitOn '.' (['.'].intercalate [s.text]) = [s.text] := by
    refine List.splitOn_intercalate '.' ?_ (List.cons_ne_nil _ _)
    exact List.forall_mem_singleton.2 (Segment.dot_not_mem_text named)
  rw [List.intercalate_singleton] at whole
  rw [parts, String.toList_ofList, whole, List.map_singleton, Segment.trim_text named]

theorem parts_ne_nil (selector : String) : parts selector ≠ [] := by
  simp [parts, List.splitOn_ne_nil]

theorem parts_dot (outer inner : String) :
    parts (outer ++ "." ++ inner) = parts outer ++ parts inner := by
  have dot : (outer ++ "." ++ inner).toList = outer.toList ++ '.' :: inner.toList := by simp
  rw [parts, dot, List.splitOn_append_cons_self, List.map_append, parts, parts]

theorem join_concat {ps : List (List Char)} (some : ps ≠ []) (part : List Char) :
    join (ps ++ [part]) = join ps ++ "." ++ String.ofList part := by
  have spelled : ['.'].intercalate (ps ++ [part]) = ['.'].intercalate ps ++ '.' :: part := by
    induction ps with
    | nil => contradiction
    | cons first rest ih =>
      cases rest with
      | nil => simp
      | cons next rest => simpa using ih (List.cons_ne_nil _ _)
  apply String.ext
  simp [join, spelled]

theorem shown_of_mem_parts {selector : String} {part : List Char} (member : part ∈ parts selector)
    (some : part ≠ []) : trim selector.toList ≠ [] := by
  intro blank
  have none : trim [] = [] := by decide
  rw [← segments_eq_parts, segments, blank, List.splitOn_nil, List.map_singleton, none,
    List.mem_singleton] at member
  exact some member

variable {t : EntityType} {r : SchemaRef} {m : Member} {before after : List Member}

theorem Walks.append {c : Catalog} {k middle last : Kind} {ps qs : List (List Char)}
    {hops hops' : List Hop} (walks : Walks c k ps hops middle)
    (onward : Walks c middle qs hops' last) : Walks c k (ps ++ qs) (hops ++ hops') last := by
  induction walks with
  | done => exact onward
  | hop taken _ ih => exact .hop taken (ih onward)

theorem leads_member (declared : (t.catalog.schema r).members = before ++ m :: after)
    (first : ∀ other ∈ before, other.name ≠ m.name) (named : IsIdentifier m.name.toList)
    {ps : List (List Char)} {hops : List Hop}
    (walks : Walks t.catalog (.entity t.root) ps hops (.entity r))
    {selector : String} (split : parts selector = ps ++ [m.segment.text]) :
    Leads t selector ⟨join (ps ++ [m.segment.text]), hops.map Hop.step ++ [.member m.name], m.kind,
      hops.any Hop.nullable || m.nullable⟩ where
  shown := by
    have member : m.segment.text ∈ parts selector := by simp [split]
    exact shown_of_mem_parts member (Segment.text_ne_nil named)
  selector_eq := by rw [split]
  walks := by
    have last : Walks t.catalog (.entity r) [m.segment.text] [.member m] m.kind :=
      .hop (.member declared first named) .done
    refine ⟨hops ++ [.member m], ?_, ?_, ?_⟩
    · rw [split]
      exact walks.append last
    · simp [Hop.step]
    · simp [Hop.nullable]

theorem parts_selector (named : IsIdentifier m.name.toList) : parts m.selector = [m.segment.text] := by
  rw [m.selector_eq, parts_text named]

theorem leads_selector (declared : (t.catalog.schema t.root).members = before ++ m :: after)
    (first : ∀ other ∈ before, other.name ≠ m.name) (named : IsIdentifier m.name.toList) :
    Leads t m.selector ⟨m.selector, [.member m.name], m.kind, m.nullable⟩ := by
  have leads := leads_member declared first named .done (parts_selector named)
  simpa [join, m.selector_eq] using leads

/-- Every member is selected by its own selector, on its schema and behind each selector of an entity
of that schema, unless a member declared before it has its name. The path may be null if and only if
the member may, or one on the way. -/
theorem resolve_declared (declared : (t.catalog.schema r).members = before ++ m :: after)
    (first : ∀ other ∈ before, other.name ≠ m.name) (named : IsIdentifier m.name.toList)
    {k : PathCache} (reached : k.Reachable t.catalog) (cached : Bool) :
    (t.root = r → (Resolving.resolve t cached m.selector).answer k =
      .ok ⟨m.selector, [.member m.name], m.kind, m.nullable⟩) ∧
    ∀ outer p, (Resolving.resolve t cached outer).answer k = .ok p → p.kind = .entity r →
      (Resolving.resolve t cached (outer ++ "." ++ m.selector)).answer k =
        .ok ⟨p.selector ++ "." ++ m.selector, p.steps ++ [.member m.name], m.kind,
          p.nullable || m.nullable⟩ := by
  have answer (selector : String) :
      (Resolving.resolve t cached selector).answer k = resolve t selector :=
    (Resolving.answers_resolve t cached selector).answer_eq reached
  simp only [answer, resolve_eq_ok_iff]
  constructor
  · rintro rfl
    exact leads_selector declared first named
  · rintro outer p ⟨-, selector_eq, hops, walks, steps, nullable⟩ kind
    rw [kind] at walks
    have split : parts (outer ++ "." ++ m.selector) = parts outer ++ [m.segment.text] := by
      rw [parts_dot, parts_selector named]
    have leads := leads_member declared first named walks split
    rwa [join_concat (parts_ne_nil outer), ← selector_eq, ← m.selector_eq, ← steps,
      ← nullable] at leads

def orderMembers : List Member :=
  [.field "lines" (.list .string), .method "total" (.number .uint32), .field "total" .string,
    .field "previous" (.optional (.entity ⟨0⟩))]

def order : EntityType := ⟨⟨fun _ => ⟨"Order", orderMembers⟩⟩, ⟨0⟩⟩

theorem named_orderMembers : ∀ m ∈ orderMembers, IsIdentifier m.name.toList := by
  simp only [← Segment.isName_iff]
  decide

theorem resolve_declared_total :
    let total : Member := .method "total" (.number .uint32)
    let p : Path :=
      ⟨"previous.previous", [.member "previous", .member "previous"], .entity ⟨0⟩, true⟩
    (∀ other ∈ orderMembers.take 1, other.name ≠ total.name) ∧ IsIdentifier total.name.toList ∧
      (Resolving.resolve order true "total()").answer .empty =
        .ok ⟨"total()", [.member "total"], .number .uint32, false⟩ ∧
      (Resolving.resolve order true " previous . previous ").answer .empty = .ok p ∧
      (Resolving.resolve order true (" previous . previous " ++ "." ++ "total()")).answer .empty =
        .ok ⟨p.selector ++ "." ++ "total()", p.steps ++ [.member "total"], .number .uint32, true⟩ := by
  intro total p
  have first : ∀ other ∈ orderMembers.take 1, other.name ≠ total.name := by decide
  have named := named_orderMembers total (by decide)
  have declared : (order.catalog.schema ⟨0⟩).members =
      orderMembers.take 1 ++ total :: orderMembers.drop 2 := rfl
  have outer : (Resolving.resolve order true " previous . previous ").answer .empty = .ok p := rfl
  obtain ⟨own, behind⟩ := resolve_declared declared first named .empty true
  exact ⟨first, named, own rfl, outer, behind _ p outer rfl⟩

-- The field is hidden by the method of its name, and what may be null on the way counts for a
-- member that may not.
theorem resolve_declared_hidden :
    (∀ m ∈ orderMembers, IsIdentifier m.name.toList) ∧
      (orderMembers.map fun m => (m.name, m.access)).Nodup ∧
      (∃ m ∈ orderMembers, (Resolving.resolve order true m.selector).answer .empty =
        .error (.unknownMember "total" "total" "Order")) ∧
      ∃ m ∈ orderMembers, m.nullable = false ∧
        ∃ p, (Resolving.resolve order true ("previous" ++ "." ++ m.selector)).answer .empty = .ok p ∧
          p.nullable = true :=
  ⟨named_orderMembers, by decide, ⟨.field "total" .string, by decide, rfl⟩,
    .method "total" (.number .uint32), by decide, rfl, _, rfl, rfl⟩

end Selector

end EntityQuery
