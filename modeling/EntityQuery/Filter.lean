import EntityQuery.Clause

set_option autoImplicit false

namespace EntityQuery

inductive Filter where
  | const (b : Bool)
  | clause (c : Clause)
  | all (parts : List Filter)
  | any (parts : List Filter)

namespace Filter

mutual

def accepts (e : Entity) : Filter → Bool
  | const b => b
  | clause c => c.acceptsEntity e
  | all parts => allAccept e parts
  | any parts => anyAccepts e parts

def allAccept (e : Entity) : List Filter → Bool
  | [] => true
  | f :: fs => accepts e f && allAccept e fs

def anyAccepts (e : Entity) : List Filter → Bool
  | [] => false
  | f :: fs => accepts e f || anyAccepts e fs

end

theorem allAccept_eq_all (e : Entity) (fs : List Filter) : allAccept e fs = fs.all (accepts e) := by
  induction fs with
  | nil => simp [allAccept]
  | cons f fs ih => simp [allAccept, ih]

theorem anyAccepts_eq_any (e : Entity) (fs : List Filter) :
    anyAccepts e fs = fs.any (accepts e) := by
  induction fs with
  | nil => simp [anyAccepts]
  | cons f fs ih => simp [anyAccepts, ih]

def and : Filter → Filter → Filter
  | all parts, f => all (parts ++ [f])
  | f, g => all [f, g]

def or : Filter → Filter → Filter
  | any parts, f => any (parts ++ [f])
  | f, g => any [f, g]

@[simp] theorem accepts_and (e : Entity) (f g : Filter) :
    (f.and g).accepts e = (f.accepts e && g.accepts e) := by
  cases f <;> simp [and, accepts, allAccept_eq_all]

@[simp] theorem accepts_or (e : Entity) (f g : Filter) :
    (f.or g).accepts e = (f.accepts e || g.accepts e) := by
  cases f <;> simp [or, accepts, anyAccepts_eq_any]

mutual

def clauses : Filter → List Clause
  | const _ => []
  | clause c => [c]
  | all parts => clausesOf parts
  | any parts => clausesOf parts

def clausesOf : List Filter → List Clause
  | [] => []
  | f :: fs => f.clauses ++ clausesOf fs

end

theorem clausesOf_eq_flatMap (fs : List Filter) : clausesOf fs = fs.flatMap clauses := by
  induction fs with
  | nil => simp [clausesOf]
  | cons f fs ih => simp [clausesOf, ih]

@[simp] theorem clauses_and (f g : Filter) : (f.and g).clauses = f.clauses ++ g.clauses := by
  cases f <;> simp [and, clauses, clausesOf_eq_flatMap]

@[simp] theorem clauses_or (f g : Filter) : (f.or g).clauses = f.clauses ++ g.clauses := by
  cases f <;> simp [or, clauses, clausesOf_eq_flatMap]

def enclose : Filter → List Char → List Char
  | all _, cs | any _, cs => '(' :: cs ++ [')']
  | _, cs => cs

mutual

def render : Filter → List Char
  | const true => "TRUE".toList
  | const false => "FALSE".toList
  | clause c => c.render
  | all parts => renderParts " AND " parts
  | any parts => renderParts " OR " parts

def renderParts (separator : String) : List Filter → List Char
  | [] => []
  | [f] => f.enclose f.render
  | f :: fs => f.enclose f.render ++ separator.toList ++ renderParts separator fs

end

def text (f : Filter) : String :=
  String.ofList f.render

def filter (f : Filter) (items : List Entity) : List Entity :=
  items.filter f.accepts

def count (f : Filter) (items : List Entity) : Nat :=
  items.countP f.accepts

def acceptsAny (f : Filter) (items : List Entity) : Bool :=
  items.any f.accepts

def find? (f : Filter) (items : List Entity) : Option Entity :=
  items.find? f.accepts

end Filter

end EntityQuery
