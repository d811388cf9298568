import Offside.Proofs.Scope.Renumbering
import Offside.Proofs.Typing.Checking

/-!
Statements whose lines have other numbers are checked as before, and a fault has the new number of
its line.
-/

namespace Offside

def SemanticFault.renumber (g : Nat → Nat) (fault : SemanticFault) : SemanticFault :=
  ⟨fault.cause, fault.location.map (Location.renumber g)⟩

variable (g : Nat → Nat)

theorem liftStore_map {α β : Type} (f : α → β) (r : Except StoreError α) :
    liftStore (r.map f) = mapBoth id f (liftStore r) := by
  cases r <;> rfl

namespace Stmt

theorem located_mapBoth {α β : Type} (f : α → β) (loc : Location) (r : Except SemanticError α) :
    located (loc.renumber g) (mapBoth id f r) =
      mapBoth (SemanticFault.renumber g) f (located loc r) := by
  cases r <;> rfl

theorem located_renumber {α : Type} (loc : Location) (r : Except SemanticError α) :
    located (loc.renumber g) r = mapBoth (SemanticFault.renumber g) id (located loc r) := by
  cases r <;> rfl

theorem registerVariable_renumber (s : Store) (name : String) (ty : Ty) :
    liftStore ((s.renumber g).register name (.variable ⟨ty, none⟩)) =
      mapBoth id (Store.renumber g) (liftStore (s.register name (.variable ⟨ty, none⟩))) := by
  rw [← liftStore_map]
  exact congrArg liftStore (s.register_renumber g name (.variable ⟨ty, none⟩))

theorem bindAll_renumber (s : Store) (params : List Param) :
    bindAll (s.renumber g) params = mapBoth id (Store.renumber g) (bindAll s params) := by
  induction params generalizing s with
  | nil => rfl
  | cons p params ih =>
    unfold bindAll
    rw [registerVariable_renumber]
    exact mapBoth_bind _ fun s' => ih s'

theorem bindFunction_renumber (s : Store) (name : String) (f : Function) :
    bindFunction (s.renumber g) name (f.renumber g) =
      mapBoth id (Prod.map (Store.renumber g) (Store.renumber g)) (bindFunction s name f) := by
  unfold bindFunction
  by_cases hp : (f.params.map Param.name).Nodup
  · have hp' : ((f.renumber g).params.map Param.name).Nodup := hp
    have hregister := s.register_renumber g name (.function f)
    rw [Entry.renumber] at hregister
    rw [if_pos hp, if_pos hp', hregister, liftStore_map]
    refine mapBoth_bind _ fun s' => ?_
    rw [Store.lookupFunction_renumber, liftStore_map]
    refine mapBoth_bind _ fun found => ?_
    obtain ⟨f', scope⟩ := found
    dsimp only [Function.renumber]
    rw [Store.newFrame_renumber, bindAll_renumber]
    exact mapBoth_bind _ fun frame => rfl
  · have hp' : ¬ ((f.renumber g).params.map Param.name).Nodup := hp
    rw [if_neg hp, if_neg hp']
    rfl

end Stmt

mutual

theorem Stmt.check_renumber (s : Store) (returns : Option Ty) (stmt : Stmt) :
    (stmt.renumber g).check (s.renumber g) returns =
      mapBoth (SemanticFault.renumber g) (Store.renumber g) (stmt.check s returns) := by
  have hs := s.sameTypes_renumber g
  match stmt with
  | .declare loc name ty initializer =>
    rw [Stmt.renumber, Stmt.check, Stmt.check, hs.declaredType, ← Stmt.located_mapBoth]
    exact congrArg _ (bind_mapBoth _ fun ty => Stmt.registerVariable_renumber g s name ty)
  | .define loc name params result body =>
    have hf := Stmt.bindFunction_renumber g s name ⟨params, result, body⟩
    rw [Function.renumber] at hf
    rw [Stmt.renumber, Stmt.check, Stmt.check, hf, Stmt.located_mapBoth]
    refine mapBoth_bind _ fun stores => ?_
    obtain ⟨s', frame⟩ := stores
    dsimp only [Prod.map]
    rw [Store.newLevel_renumber, Stmt.checkAll_renumber]
    exact mapBoth_bind _ fun _ => rfl
  | .expr loc e =>
    rw [Stmt.renumber, Stmt.check, Stmt.check, hs.check, Stmt.located_renumber]
    exact mapBoth_bind _ fun _ => rfl
  | .return loc value =>
    rw [Stmt.renumber, Stmt.check, Stmt.check, hs.checkReturn, Stmt.located_renumber]
    exact mapBoth_bind _ fun _ => rfl
  | .print loc e =>
    rw [Stmt.renumber, Stmt.check, Stmt.check, hs.checkPrint, Stmt.located_renumber]
    exact mapBoth_bind _ fun _ => rfl
  | .read loc target =>
    rw [Stmt.renumber, Stmt.check, Stmt.check, hs.checkRead, Stmt.located_renumber]
    exact mapBoth_bind _ fun _ => rfl
  | .cond loc condition thenBlock none =>
    rw [Stmt.renumber, Stmt.check, Stmt.check, hs.checkCondition, Stmt.located_renumber]
    refine mapBoth_bind _ fun _ => ?_
    rw [Store.newLevel_renumber, Stmt.checkAll_renumber]
    exact mapBoth_bind _ fun _ => rfl
  | .cond loc condition thenBlock (some elseBlock) =>
    rw [Stmt.renumber, Stmt.check, Stmt.check, hs.checkCondition, Stmt.located_renumber]
    refine mapBoth_bind _ fun _ => ?_
    rw [Store.newLevel_renumber, Stmt.checkAll_renumber]
    refine mapBoth_bind _ fun _ => ?_
    rw [Stmt.checkAll_renumber]
    exact mapBoth_bind _ fun _ => rfl
  | .while loc condition body =>
    rw [Stmt.renumber, Stmt.check, Stmt.check, hs.checkCondition, Stmt.located_renumber]
    refine mapBoth_bind _ fun _ => ?_
    rw [Store.newLevel_renumber, Stmt.checkAll_renumber]
    exact mapBoth_bind _ fun _ => rfl
  | .for loc name range body =>
    have hbound := bind_mapBoth (Stmt.elementType s range) fun element =>
      Stmt.registerVariable_renumber g s.newLevel name element
    rw [Stmt.renumber, Stmt.check, Stmt.check, hs.elementType, Store.newLevel_renumber, hbound,
      Stmt.located_mapBoth]
    refine mapBoth_bind _ fun frame => ?_
    rw [Store.newLevel_renumber, Stmt.checkAll_renumber]
    exact mapBoth_bind _ fun _ => rfl

theorem Stmt.checkAll_renumber (s : Store) (returns : Option Ty) (stmts : List Stmt) :
    Stmt.checkAll (s.renumber g) returns (Block.renumber g stmts) =
      mapBoth (SemanticFault.renumber g) id (Stmt.checkAll s returns stmts) := by
  match stmts with
  | [] =>
    rw [Block.renumber]
    rfl
  | stmt :: stmts =>
    rw [Block.renumber, Stmt.checkAll, Stmt.checkAll, Stmt.check_renumber s returns stmt]
    exact mapBoth_bind _ fun s' => Stmt.checkAll_renumber s' returns stmts

end

theorem Block.check_renumber (block : Block) :
    (Block.renumber g block).check = mapBoth (SemanticFault.renumber g) id block.check := by
  have hnew : Store.new.newLevel.renumber g = Store.new.newLevel := by
    rw [← Store.newLevel_renumber, Store.new_renumber]
  rw [Block.check_eq, Block.check_eq, ← Stmt.checkAll_renumber, hnew]

end Offside
