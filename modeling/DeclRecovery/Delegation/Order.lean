import DeclRecovery.Position.Basic

/-!
An order in which every constructor comes after the one it hands over to.

`order` explores, from each constructor in turn, those that delegate to it, and lists each one before all
that were finished earlier. When no constructor is reached from itself the targets come first; `late?` checks
that, and finds a target that does not.
-/

namespace DeclRecovery.Delegation

/-- How far an exploration has come: the constructors met, and those finished, last one first. -/
structure Visit where
  met : List CtorId := []
  finished : List CtorId := []

/-- Explores what is reached from `n` and was not met before. `fuel` bounds the depth; as many steps as there
are constructors are enough, since each one on the way is met there for the first time. -/
def explore (next : CtorId → List CtorId) : (fuel : Nat) → Visit → CtorId → Visit
  | 0, v, _ => v
  | fuel + 1, v, n =>
    if n ∈ v.met then v
    else
      let below := (next n).foldl (explore next fuel) { v with met := n :: v.met }
      { below with finished := n :: below.finished }

/-- The nodes, each before those that are reached from it. -/
def order (next : CtorId → List CtorId) (nodes : List CtorId) : List CtorId :=
  (nodes.foldl (explore next nodes.length) {}).finished

/-- The first target that does not stand before its constructor, which comes after those in `seen`. -/
def late? (target? : CtorId → Option CtorId) (seen : List CtorId) : List CtorId → Option CtorId
  | [] => none
  | n :: rest =>
    match target? n with
    | some t => if t ∈ seen then late? target? (n :: seen) rest else some t
    | none => late? target? (n :: seen) rest

end DeclRecovery.Delegation
