import CommTest.Lib.FirstMin
import Mathlib.Algebra.Order.Field.Rat
import Mathlib.Data.List.Range
import Mathlib.Tactic.SplitIfs

/-!
# The correlation graph

`dgraph.cpp`: the scheduler keeps the correlations of all pairs of features in a matrix and takes
sets of weakly correlated features out of it. A feature that has been taken is marked by the
sentinel `DGINVALIDENTRY` in its row and its column. The correlations themselves are exact rationals
here; `getcorr_pair` is a parameter.

* `Dgraph` with `getcorrinfo`, `recoverdgraph`, `diminishgraphcol` and `diminishgraphrow`.
* `findset` with its two scans `minPair` and `minCandidate` and its loop `grow`. A store outside of
  a `vlist` and the `exit` of a call that asks for too much are errors of their own.
-/

set_option linter.unusedSectionVars false

namespace CommTest.Mpi

open FirstMin

/-- `DGINVALIDENTRY`. -/
def dgInvalidEntry : ℚ := 1000

/-- `MAXVARLIST`. -/
def maxVarList : Nat := 4096

/-- `struct dgraphctx`, less the fields that nothing reads; `workmem` is filled anew in every scan.
-/
structure Dgraph where
  features : Nat
  adj : Nat → Nat → ℚ
  adjcopy : Nat → Nat → ℚ

/-- `struct dispatchset`. -/
structure DispatchSet where
  vlist : Nat → Int
  num : Int

/-- How a call can end other than by returning: `exit(0)`, a store outside of an array, or (never,
as `findset_eq` shows) more turns of the loop than it was given. -/
inductive Stop
  | exit
  | overrun
  | outOfFuel
deriving Repr, DecidableEq

namespace DispatchSet

/-- All entries `-1`, as at the beginning of `findset`. -/
def empty : DispatchSet := ⟨fun _ => -1, 0⟩

/-- `vlist[idx] = v`. -/
def store (s : DispatchSet) (idx v : Int) : Except Stop DispatchSet :=
  if 0 ≤ idx ∧ idx < maxVarList then .ok { s with vlist := Function.update s.vlist idx.toNat v }
  else .error .overrun

end DispatchSet

namespace Dgraph

/-- Source: `dgraph.cpp`, `initdgraph`. -/
def initdgraph (features : Nat) : Dgraph :=
  { features := features, adj := fun _ _ => dgInvalidEntry, adjcopy := fun _ _ => 0 }

/-- The matrix is filled above the diagonal, mirrored below it, and copied. Source: `dgraph.cpp`,
`getcorrinfo`. -/
def getcorrinfo (g : Dgraph) (getcorrPair : Nat → Nat → ℚ) : Dgraph :=
  let above : Nat → Nat → ℚ := fun i j =>
    if i < j ∧ j < g.features then getcorrPair i j else g.adj i j
  let adj : Nat → Nat → ℚ := fun i j =>
    if j < i ∧ i < g.features then above j i
    else if i = j ∧ i < g.features - 1 then dgInvalidEntry
    else above i j
  { g with
      adj := adj
      adjcopy := fun i j => if i < g.features ∧ j < g.features then adj i j else g.adjcopy i j }

/-- Source: `dgraph.cpp`, `recoverdgraph`. -/
def recoverdgraph (g : Dgraph) : Dgraph :=
  { g with adj := fun i j => if i < g.features ∧ j < g.features then g.adjcopy i j else g.adj i j }

/-- Source: `dgraph.cpp`, `diminishgraphcol`. -/
def diminishgraphcol (g : Dgraph) (col : Nat) : Dgraph :=
  { g with adj := fun i j => if i < g.features ∧ j = col then dgInvalidEntry else g.adj i j }

/-- Source: `dgraph.cpp`, `diminishgraphrow`. -/
def diminishgraphrow (g : Dgraph) (row : Nat) : Dgraph :=
  { g with adj := fun i j => if i = row ∧ j < g.features then dgInvalidEntry else g.adj i j }

/-- `dgctx->adj[i][j] = DGINVALIDENTRY`. -/
def invalidate (g : Dgraph) (i j : Nat) : Dgraph :=
  { g with adj := Function.update g.adj i (Function.update (g.adj i) j dgInvalidEntry) }

/-- The pairs of the first scan of `findset`, in its order. -/
def pairs (features : Nat) : List (Nat × Nat) :=
  (List.range (features - 1)).flatMap fun i =>
    (List.range' (i + 1) (features - (i + 1))).map fun j => (i, j)

/-- The first scan of `findset`: the valid pair with the smallest absolute correlation, `1000` if
there is none. -/
def minPair (g : Dgraph) : (Nat × Nat) × ℚ :=
  firstMin (fun p => |g.adj p.1 p.2|) ((0, 0), 1000)
    ((pairs g.features).filter fun p => g.adj p.1 p.2 ≠ dgInvalidEntry)

/-- The entry of `workmem` for column `j`: the sum over the chosen rows, `1000` for a column that is
not valid in row `t`. -/
def workmem (g : Dgraph) (set : DispatchSet) (t j : Nat) : ℚ :=
  if g.adj t j = dgInvalidEntry then 1000
  else (List.range set.num.toNat).foldl (fun sum k => sum + |g.adj (set.vlist k).toNat j|) 0

/-- The second scan of `findset`; `last` is what `minp.i` was before. -/
def minCandidate (g : Dgraph) (set : DispatchSet) (last : Nat) : Nat × ℚ :=
  firstMin (g.workmem set (set.vlist 0).toNat) (last, 1000) (List.range g.features)

/-- `set->vlist[set->num] = tmpset.vlist[i]; set->num++` for the `i` from `k` below `tmpset.num`. -/
def transfer (tmpset : DispatchSet) : List Nat → DispatchSet → Except Stop DispatchSet
  | [], set => .ok set
  | i :: is, set => do
      let set ← set.store set.num (tmpset.vlist i)
      transfer tmpset is { set with num := set.num + 1 }

/-- One turn of the loop of `findset`: the graph, the set, `minp.i` and `depleteflag` behind it. The
inner loop runs for the first chosen feature only, so `tmpset` has one entry or, when the candidates
are used up, a `num` of `-1`. -/
def turn (g : Dgraph) (set : DispatchSet) (last : Nat) :
    Except Stop (Dgraph × DispatchSet × Nat × Int) := do
  let minp := g.minCandidate set last
  let tmpset ← DispatchSet.empty.store 0 minp.1
  if minp.2 = dgInvalidEntry then
    let tmpset := { tmpset with num := tmpset.num - 1 }
    let set ← transfer tmpset (List.range tmpset.num.toNat) set
    return (g, set, minp.1, -1)
  else
    let g := (g.invalidate (set.vlist 0).toNat minp.1).diminishgraphcol minp.1
    let tmpset := { tmpset with num := tmpset.num + 1 }
    let set ← transfer tmpset (List.range tmpset.num.toNat) set
    return (g, set, minp.1, 0)

/-- The loop `while(remain>0)`, whose `remain` does not change: it is left when the candidates are
used up or the set has `n` entries. -/
def grow (n : Nat) : Nat → Dgraph → DispatchSet → Nat → Except Stop (Dgraph × DispatchSet × Int)
  | 0, _, _, _ => .error .outOfFuel
  | fuel + 1, g, set, last => do
      let (g, set, last, depleteflag) ← g.turn set last
      if depleteflag = -1 then return (g, set, depleteflag)
      if (n : Int) ≤ set.num then return (g, set, depleteflag)
      grow n fuel g set last

/-- The last loop of `findset`. -/
def diminishAll (g : Dgraph) (set : DispatchSet) : Dgraph :=
  (List.range set.num.toNat).foldl
    (fun g k => (g.diminishgraphcol (set.vlist k).toNat).diminishgraphrow (set.vlist k).toNat) g

/-- The graph behind the call, the set, and what is returned.
Source: `dgraph.cpp`, `findset`. -/
def findset (g : Dgraph) (n : Nat) : Except Stop (Dgraph × DispatchSet × Int) := do
  if maxVarList < n then throw .exit
  let minp := g.minPair
  if minp.2 = 1000 then return (g, DispatchSet.empty, -1)
  let set ← DispatchSet.empty.store 0 minp.1.1
  let set ← set.store 1 minp.1.2
  let g := (g.diminishgraphcol minp.1.1).diminishgraphcol minp.1.2
  let set := { set with num := 2 }
  let g := g.invalidate minp.1.1 minp.1.2
  let (g, set, depleteflag) ←
    if 0 < n then grow n n g set minp.1.1 else .ok (g, set, (0 : Int))
  return (g.diminishAll set, set, depleteflag)

end Dgraph

end CommTest.Mpi
