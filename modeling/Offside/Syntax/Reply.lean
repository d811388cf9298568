import Offside.SyntaxError
import Offside.Token

/-!
What comes of reading a piece of syntax from the front of a list of tokens. The type of a reply
says how many tokens can be left, so that a reader which goes on with the rest is seen to end.
-/

namespace Offside

/-- Either the piece and the tokens behind it, fewer than `n`, or a fault and the tokens from the
one at which reading stopped. -/
inductive Reply (α : Type) (n : Nat) where
  | ok (a : α) (rest : List Token) (shorter : rest.length < n)
  | error (fault : SyntaxFault) (rest : List Token)

namespace Reply

variable {α β : Type} {n : Nat}

/-- The piece is complete. -/
def found (a : α) (rest : List Token) : Reply α (rest.length + 1) :=
  .ok a rest (Nat.lt_succ_self _)

/-- Count a token that was read in front of the piece. -/
def loosen : Reply α n → Reply α (n + 1)
  | .ok a rest shorter => .ok a rest (Nat.lt_succ_of_lt shorter)
  | .error fault rest => .error fault rest

/-- Go on behind a piece that could be read. -/
def andThen (r : Reply α n)
    (next : (a : α) → (rest : List Token) → rest.length < n → Reply β (rest.length + 1)) :
    Reply β n :=
  match r with
  | .error fault rest => .error fault rest
  | .ok a rest shorter =>
    match next a rest shorter with
    | .ok b rest' shorter' => .ok b rest' (Nat.lt_of_le_of_lt (Nat.le_of_lt_succ shorter') shorter)
    | .error fault rest' => .error fault rest'

/-- The tokens at which reading goes on, after a fault too. -/
def rest : Reply α n → List Token
  | .ok _ rest _ => rest
  | .error _ rest => rest

def toExcept : Reply α n → Except SyntaxFault α
  | .ok a _ _ => .ok a
  | .error fault _ => .error fault

end Reply

namespace Token

/-- The location of the token that is read next. Tokens end with an end-of-file token, which is
never read, so there is one. -/
def here (ts : List Token) : Location :=
  match ts with
  | t :: _ => t.location
  | [] => ⟨0, 0⟩

variable {α : Type} {n : Nat}

/-- Stop at the next token. -/
def stop (cause : SyntaxError) (ts : List Token) : Reply α n :=
  .error ⟨cause, here ts⟩ ts

def missing (what : Expectation) (ts : List Token) : Reply α n :=
  stop (.expected what) ts

/-- Read one operator. -/
def expect (op : Operator) (what : Expectation) (ts : List Token) : Reply Unit ts.length :=
  match ts with
  | ⟨.operator o, loc⟩ :: rest =>
    if o = op then .found () rest else missing what (⟨.operator o, loc⟩ :: rest)
  | ts => missing what ts

def expectLineEnd (what : Expectation) (ts : List Token) : Reply Unit ts.length :=
  match ts with
  | ⟨.lineFeed, _⟩ :: rest => .found () rest
  | ts => missing what ts

def expectName (what : Expectation) (ts : List Token) : Reply String ts.length :=
  match ts with
  | ⟨.identifier name, _⟩ :: rest => .found name rest
  | ts => missing what ts

end Token

end Offside
