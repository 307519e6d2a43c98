import EntityQuery.Plan

set_option autoImplicit false

namespace EntityQuery.Filter

mutual

def mapClauses (g : Clause → Clause) : Filter → Filter
  | const b => const b
  | clause c => clause (g c)
  | all parts => all (mapParts g parts)
  | any parts => any (mapParts g parts)

def mapParts (g : Clause → Clause) : List Filter → List Filter
  | [] => []
  | f :: fs => f.mapClauses g :: mapParts g fs

end

theorem mapParts_eq_map (g : Clause → Clause) (fs : List Filter) :
    mapParts g fs = fs.map (mapClauses g) := by
  induction fs with
  | nil => rfl
  | cons f fs ih => simp [mapParts, ih]

variable {g : Clause → Clause}

mutual

theorem accepts_mapClauses {e : Entity} (same : ∀ c, (g c).acceptsEntity e = c.acceptsEntity e)
    (f : Filter) : (f.mapClauses g).accepts e = f.accepts e := by
  match f with
  | const b => rfl
  | clause c => exact same c
  | all parts => simp only [mapClauses, accepts, allAccept_mapParts same parts]
  | any parts => simp only [mapClauses, accepts, anyAccepts_mapParts same parts]

theorem allAccept_mapParts {e : Entity} (same : ∀ c, (g c).acceptsEntity e = c.acceptsEntity e)
    (fs : List Filter) : allAccept e (mapParts g fs) = allAccept e fs := by
  match fs with
  | [] => rfl
  | f :: fs =>
    simp only [mapParts, allAccept, accepts_mapClauses same f, allAccept_mapParts same fs]

theorem anyAccepts_mapParts {e : Entity} (same : ∀ c, (g c).acceptsEntity e = c.acceptsEntity e)
    (fs : List Filter) : anyAccepts e (mapParts g fs) = anyAccepts e fs := by
  match fs with
  | [] => rfl
  | f :: fs =>
    simp only [mapParts, anyAccepts, accepts_mapClauses same f, anyAccepts_mapParts same fs]

end

theorem enclose_mapClauses (f : Filter) (cs : List Char) :
    (f.mapClauses g).enclose cs = f.enclose cs := by
  cases f <;> rfl

mutual

theorem render_mapClauses (same : ∀ c, (g c).render = c.render) (f : Filter) :
    (f.mapClauses g).render = f.render := by
  match f with
  | const b => rfl
  | clause c => simp only [mapClauses, render, same]
  | all parts => simp only [mapClauses, render, renderParts_mapParts same _ parts]
  | any parts => simp only [mapClauses, render, renderParts_mapParts same _ parts]

theorem renderParts_mapParts (same : ∀ c, (g c).render = c.render) (separator : String)
    (fs : List Filter) : renderParts separator (mapParts g fs) = renderParts separator fs := by
  match fs with
  | [] => rfl
  | [f] => simp only [mapParts, renderParts, enclose_mapClauses, render_mapClauses same f]
  | f :: h :: fs =>
    have rest := renderParts_mapParts same separator (h :: fs)
    simp only [mapParts] at rest
    simp only [mapParts, renderParts, enclose_mapClauses, render_mapClauses same f, rest]

end

theorem text_mapClauses (same : ∀ c, (g c).render = c.render) (f : Filter) :
    (f.mapClauses g).text = f.text := by
  rw [text, render_mapClauses same, text]

theorem mapClauses_join (c : Combinator) (f h : Filter) :
    (Plan.join c f h).mapClauses g = Plan.join c (f.mapClauses g) (h.mapClauses g) := by
  cases c <;> cases f <;> simp [Plan.join, and, or, mapClauses, mapParts_eq_map]

end EntityQuery.Filter
