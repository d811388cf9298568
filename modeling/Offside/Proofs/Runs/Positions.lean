import Offside.Proofs.Execution.Discipline
import Offside.Proofs.Typing.Checks

/-!
Statements by their position in a program, and what the checker knows at each of them. A name is
traced back to its declaration: the statement that declares it, a parameter of a function, or the
head of a loop.
-/

namespace Offside

/-- The way to a block: from the outermost one, in and in. Of the blocks of a condition the second
one has `branch` set. -/
inductive Path where
  | program
  | inside (outer : Path) (index : Nat) (branch : Bool)
deriving DecidableEq

structure Position where
  block : Path
  index : Nat
deriving DecidableEq

namespace Position

def next (position : Position) : Position :=
  ⟨position.block, position.index + 1⟩

/-- The beginning of a block of the statement. -/
def inner (position : Position) (branch : Bool) : Position :=
  ⟨.inside position.block position.index branch, 0⟩

end Position

/-- The statement that binds a name, and for a parameter which one it is. -/
structure Declaration where
  position : Position
  param : Option Nat
deriving DecidableEq

/-- For each level of a store, the declarations of the names on it. -/
abbrev Origins := Array (List (String × Declaration))

namespace Origins

def newLevel (o : Origins) : Origins :=
  o.push []

def bind (o : Origins) (name : String) (d : Declaration) : Origins :=
  o.modify (o.size - 1) fun table => (name, d) :: table

/-- What a statement declares on the innermost level. -/
def declare (o : Origins) (stmt : Stmt) (position : Position) : Origins :=
  match stmt.declares? with
  | none => o
  | some name => o.bind name ⟨position, none⟩

/-- The parameters of a function, from the one with number `i` on. -/
def bindParams (o : Origins) (position : Position) (i : Nat) : List Param → Origins
  | [] => o
  | p :: params => (o.bind p.name ⟨position, some i⟩).bindParams position (i + 1) params

def find? (o : Origins) (level : Nat) (name : String) : Option Declaration :=
  o[level]?.bind (·.lookup name)

variable (o : Origins)

@[simp] theorem size_newLevel : o.newLevel.size = o.size + 1 := by
  simp [newLevel]

@[simp] theorem size_bind (name : String) (d : Declaration) : (o.bind name d).size = o.size := by
  simp [bind]

theorem find?_newLevel {level : Nat} (h : level < o.size) (name : String) :
    o.newLevel.find? level name = o.find? level name := by
  unfold find? newLevel
  rw [Array.getElem?_push, if_neg (by omega)]

theorem find?_bind_self (h : 0 < o.size) (name : String) (d : Declaration) :
    (o.bind name d).find? (o.size - 1) name = some d := by
  unfold find? bind
  rw [Array.getElem?_modify, if_pos rfl, Array.getElem?_eq_getElem (by omega)]
  simp

theorem find?_bind_of_ne {level : Nat} {n name : String} (d : Declaration)
    (h : level = o.size - 1 → n ≠ name) : (o.bind name d).find? level n = o.find? level n := by
  unfold find? bind
  rw [Array.getElem?_modify]
  split
  · case isTrue hl =>
    have hb : (n == name) = false := by simpa using h hl.symm
    cases o[level]? with
    | none => rfl
    | some table => simp [List.lookup_cons, hb]
  · rfl

end Origins

/-- Where a name that is in scope comes from. -/
def Store.origin? (s : Store) (o : Origins) (name : String) : Option Declaration :=
  (s.find? name).bind fun entry => o.find? entry.1 name

/-- What the checker knows at a position: its store, where the names in it come from, the type of
the function around, and the statements from there on. -/
structure Site where
  store : Store
  origins : Origins
  returns : Option Ty
  rest : List Stmt

namespace Site

/-- Behind the statement at the position. -/
def next? (site : Site) (position : Position) : Option Site :=
  match site.rest with
  | [] => none
  | stmt :: rest =>
    match stmt.check site.store site.returns with
    | .ok s => some ⟨s, site.origins.declare stmt position, site.returns, rest⟩
    | .error _ => none

/-- In a block of the statement at the position. -/
def inner? (site : Site) (position : Position) (branch : Bool) : Option Site :=
  match site.rest, branch with
  | .define _ name params result body :: _, false =>
    match Stmt.bindFunction site.store name ⟨params, result, body⟩ with
    | .ok (_, frame) =>
      let outer := (site.origins.bind name ⟨position, none⟩).newLevel
      some ⟨frame.newLevel, (outer.bindParams position 0 params).newLevel, some result, body⟩
    | .error _ => none
  | .cond _ _ block _ :: _, false | .cond _ _ _ (some block) :: _, true
  | .while _ _ block :: _, false =>
    some ⟨site.store.newLevel, site.origins.newLevel, site.returns, block⟩
  | .for _ name range body :: _, false =>
    match Stmt.elementType site.store range with
    | .ok element =>
      match site.store.newLevel.register name (.variable ⟨element, none⟩) with
      | .ok frame =>
        let outer := site.origins.newLevel.bind name ⟨position, none⟩
        some ⟨frame.newLevel, outer.newLevel, site.returns, body⟩
      | .error _ => none
    | .error _ => none
  | _, _ => none

/-- Behind the first statements of the block. -/
def skip? (site : Site) (block : Path) : Nat → Option Site
  | 0 => some site
  | n + 1 => (site.skip? block n).bind (·.next? ⟨block, n⟩)

end Site

namespace Block

/-- What the checker knows at the beginning of a block of the program. -/
def opened? (program : Block) : Path → Option Site
  | .program => some ⟨Store.new.newLevel, #[[], []], none, program⟩
  | .inside outer index branch =>
    ((program.opened? outer).bind (·.skip? outer index)).bind (·.inner? ⟨outer, index⟩ branch)

def site? (program : Block) (position : Position) : Option Site :=
  (program.opened? position.block).bind (·.skip? position.block position.index)

variable {program : Block} {position : Position} {site : Site}

theorem site?_next (h : program.site? position = some site) :
    program.site? position.next = site.next? position := by
  unfold site? at h ⊢
  obtain ⟨start, hs, h⟩ := Option.bind_eq_some_iff.mp h
  simp only [Position.next, hs, Option.bind_some, Site.skip?, h]

theorem site?_inner (h : program.site? position = some site) (branch : Bool) :
    program.site? (position.inner branch) = site.inner? position branch := by
  unfold site? at h ⊢
  simp only [Position.inner, opened?, h, Option.bind_some, Site.skip?]
  cases site.inner? position branch <;> rfl

end Block

end Offside
