import DeclRecovery.Hoist.Plan

/-!
Which of the agreed slots can be hoisted together.

Initializers run in declaration order and before everything that stays in a body. So at each entry point the
hoisted stores have to be the first ones, each may read only slots that are set before it either way, and
where two of them change places they must commute. Whether a store passes depends on the others, so slots are
dropped until all pass (`settle`).
-/

namespace DeclRecovery.Hoist

/-- Whether two initializers may run in either order. -/
def commutes (a b : SlotId × Footprint) : Bool :=
  !(a.2.observable && b.2.observable) && !a.2.readsSelf && !b.2.readsSelf &&
    !decide (b.1 ∈ a.2.members) && !decide (a.1 ∈ b.2.members)

/-- The initializers that a type already has. -/
def existing (t : TypeDecl) : List (SlotId × Footprint) :=
  t.slots.zipIdx.filterMap fun (s, i) => s.initializer.map fun value => (i, value.footprint)

/-- Whether a candidate can become an initializer when those in `earlier` do and `initialized` are there
already. -/
def isClean (initialized : List (SlotId × Footprint)) (earlier : List Candidate) (c : Candidate) : Bool :=
  let before := earlier.map (fun e => (e.slot, e.footprint)) ++ initialized
  !c.footprint.readsSelf &&
    c.footprint.members.all (fun m => m < c.slot && before.any (·.1 == m)) &&
    before.all fun other => other.1 ≤ c.slot || commutes other (c.slot, c.footprint)

/-- The leading candidates that are to be hoisted and can be, after those in `earlier`. -/
def cleanRun (initialized : List (SlotId × Footprint)) (hoisted : PosSet) (earlier : List Candidate) :
    List Candidate → List Candidate
  | [] => []
  | c :: cs =>
    if c.slot ∈ hoisted ∧ isClean initialized earlier c then
      c :: cleanRun initialized hoisted (earlier ++ [c]) cs
    else []

/-- Drops the slots that cannot be hoisted at one entry point. -/
def refineAt (initialized : List (SlotId × Footprint)) (hoisted : PosSet) (e : EntryPoint) : PosSet :=
  let clean := cleanRun initialized hoisted [] e.candidates
  hoisted.filter fun slot => clean.any (·.slot == slot)

/-- Drops the slots that cannot be hoisted at some entry point. -/
def refine (initialized : List (SlotId × Footprint)) (es : List EntryPoint) (hoisted : PosSet) : PosSet :=
  es.foldl (refineAt initialized) hoisted

/-- Refines until nothing changes, `fuel` times at most. -/
def settleWithin (initialized : List (SlotId × Footprint)) (es : List EntryPoint) : (fuel : Nat) → PosSet → PosSet
  | 0, hoisted => hoisted
  | fuel + 1, hoisted =>
    let refined := refine initialized es hoisted
    if refined = hoisted then hoisted else settleWithin initialized es fuel refined

/-- The largest set of the given slots that can be hoisted together. Every round but the last drops a slot. -/
def settle (initialized : List (SlotId × Footprint)) (es : List EntryPoint) (slots : PosSet) : PosSet :=
  settleWithin initialized es slots.size slots

/-- The slots none of whose candidates reads a parameter. -/
def withoutParams (es : List EntryPoint) (slots : PosSet) : PosSet :=
  slots.filter fun slot => es.all fun e => e.candidates.all fun c => c.slot != slot || !c.readsParams

end DeclRecovery.Hoist
