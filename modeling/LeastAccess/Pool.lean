import LeastAccess.Binary64.Basic

/-!
# Worker pools

A pool makes one call for every item of a list, with a limit on the calls that are pending at the same
time. Each worker takes the next item whose turn it is, and takes another one when its call has succeeded; a
worker whose call fails takes none. An item that is missing is passed over. The results stand at the
positions of their items, whatever the order in which the calls finish; the first failure counts for the
whole pool, while the other workers go on.

The order in which calls finish is not the pool's: `settle` can be asked about any call, and answers nothing
for one that is not pending.
-/

namespace LeastAccess

/-- The number of workers: at least one, and otherwise the limit, rounded down, but not more than there are
items. No number gives no worker. -/
def workerCount (limit : Binary64) (items : Nat) : Nat :=
  match limit with
  | .nan => 0
  | .infinity false => max 1 items
  | limit => max 1 (min limit.floorNat items)

/-- The state of a pool. -/
structure Pool (α β ε : Type) where
  /-- The items that no worker has taken, with their positions. -/
  queue : List (Nat × α)
  /-- The positions of the items whose calls are pending. -/
  pending : List Nat := []
  /-- All calls so far, in order. -/
  started : List (Nat × α) := []
  results : List (Option β)
  failure? : Option ε := none

namespace Pool

variable {α β ε : Type}

/-- The items that are there, with their positions. -/
def present (items : List (Option α)) : List (Nat × α) :=
  items.zipIdx.filterMap fun (item, i) => item.map fun x => (i, x)

/-- A worker takes the next item, if there is one. -/
def take (p : Pool α β ε) : Pool α β ε :=
  match p.queue with
  | [] => p
  | (i, x) :: rest =>
    { p with queue := rest, pending := p.pending ++ [i], started := p.started ++ [(i, x)] }

/-- Several workers take an item each. -/
def takeTimes : Nat → Pool α β ε → Pool α β ε
  | 0, p => p
  | n + 1, p => takeTimes n p.take

/-- The pool after its workers have taken their first items. -/
def start (limit : Binary64) (items : List (Option α)) : Pool α β ε :=
  takeTimes (workerCount limit items.length)
    { queue := present items, results := items.map fun _ => none }

/-- A pending call ends. -/
def settle (p : Pool α β ε) (i : Nat) (outcome : Except ε β) : Option (Pool α β ε) :=
  if p.pending.contains i then
    let p := { p with pending := p.pending.erase i }
    match outcome with
    | .ok v => some { p with results := p.results.set i (some v) }.take
    | .error e => some { p with failure? := p.failure?.or (some e) }
  else none

/-- How the pool ended, once it has: with the first failure as soon as there is one, and with the results
when no call is pending. -/
def outcome? (p : Pool α β ε) : Option (Except ε (List (Option β))) :=
  match p.failure? with
  | some e => some (.error e)
  | none => if p.pending.isEmpty then some (.ok p.results) else none

end Pool

end LeastAccess
