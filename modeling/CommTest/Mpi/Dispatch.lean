import CommTest.Lib.Lts
import CommTest.Mpi.Dgraph
import Mathlib.Algebra.Order.Ring.Abs
import Mathlib.Data.List.Nodup

/-!
# The dispatch sets of the correlation graph

What is in the matrix is known from two sets of features: `mask g R C` is the graph `g` with the
rows `R` and the columns `C` invalid. A call of `findset` removes the columns of the features it
chooses one by one and their rows at the end, so between two calls both sets are the dispatched
features.

* `Fresh` is what `getcorrinfo` leaves. The lemmas `mask_diminishgraphcol` and the like say what
  each operation does to the two sets.
* `findset_eq` is the specification of `findset` on `mask g D D`: it returns, with a list of
  features that are distinct and not in `D`, and leaves `mask g (D ++ c) (D ++ c)`.
* `dispatch_valid`: over every sequence of calls the returned sets are valid and disjoint, and
  `recoverdgraph` leads back to the fresh graph.
-/

set_option linter.unusedSectionVars false

namespace CommTest.Mpi

open FirstMin Lts

namespace DispatchSet

/-- The set that holds the features of a list in their order. -/
def ofList (l : List Nat) : DispatchSet := ⟨fun k => (l[k]?.map Int.ofNat).getD (-1), l.length⟩

theorem ofList_nil : ofList [] = empty := rfl

theorem vlist_ofList {l : List Nat} {k x : Nat} (h : l[k]? = some x) : (ofList l).vlist k = x := by
  simp [ofList, h]

/-- A store behind the last entry, whatever `num` says. -/
theorem store_vlist {c : List Nat} (hc : c.length < maxVarList) (x : Nat) (num : Int) :
    ({ vlist := (ofList c).vlist, num := num } : DispatchSet).store c.length x =
      .ok { vlist := (ofList (c ++ [x])).vlist, num := num } := by
  unfold store
  rw [if_pos ⟨Int.natCast_nonneg _, by exact_mod_cast hc⟩]
  congr 2
  funext k
  by_cases hk : k = c.length
  · subst hk
    simp [ofList]
  · rw [Int.toNat_natCast, Function.update_of_ne hk]
    rcases Nat.lt_or_gt_of_ne hk with hlt | hgt
    · simp [ofList, List.getElem?_append_left hlt]
    · simp [ofList, List.getElem?_eq_none (Nat.le_of_lt hgt),
        List.getElem?_eq_none (show (c ++ [x]).length ≤ k by simp; omega)]

theorem store_ofList {c : List Nat} (hc : c.length < maxVarList) (x : Nat) :
    (ofList c).store c.length x = .ok { vlist := (ofList (c ++ [x])).vlist, num := c.length } :=
  store_vlist hc x c.length

end DispatchSet

open DispatchSet

namespace Dgraph

/-! ## Rows and columns taken out -/

/-- The graph with the rows `R` and the columns `C` invalid. -/
def mask (g : Dgraph) (R C : List Nat) : Dgraph :=
  { g with adj := fun i j => if i ∈ R ∨ j ∈ C then dgInvalidEntry else g.adj i j }

/-- What `getcorrinfo` leaves. -/
structure Fresh (g : Dgraph) : Prop where
  outside : ∀ i j, ¬ (i < g.features ∧ j < g.features) → g.adj i j = dgInvalidEntry
  diagonal : ∀ i, g.adj i i = dgInvalidEntry
  small : ∀ i j, i < g.features → j < g.features → i ≠ j → |g.adj i j| ≤ 1
  copied : ∀ i j, i < g.features → j < g.features → g.adjcopy i j = g.adj i j

theorem adj_getcorrinfo (features : Nat) (corr : Nat → Nat → ℚ) (i j : Nat) :
    ((initdgraph features).getcorrinfo corr).adj i j =
      if i < j ∧ j < features then corr i j
      else if j < i ∧ i < features then corr j i
      else dgInvalidEntry := by
  simp only [getcorrinfo, initdgraph]
  rcases Nat.lt_trichotomy i j with hlt | rfl | hgt
  · simp [hlt, Nat.lt_asymm hlt, Nat.ne_of_lt hlt]
  · simp
  · by_cases hi : i < features
    · simp [hgt, hi, Nat.lt_asymm hgt]
    · simp [hi, Nat.lt_asymm hgt, Nat.ne_of_gt hgt]

/-- **`getcorrinfo` leaves a fresh graph**, when the correlations are at most 1. -/
theorem fresh_getcorrinfo {features : Nat} {corr : Nat → Nat → ℚ}
    (hcorr : ∀ i j, i < j → j < features → |corr i j| ≤ 1) :
    ((initdgraph features).getcorrinfo corr).Fresh where
  outside i j h := by
    change ¬ (i < features ∧ j < features) at h
    rw [adj_getcorrinfo, if_neg (fun hij => h ⟨by omega, hij.2⟩),
      if_neg (fun hij => h ⟨hij.2, by omega⟩)]
  diagonal i := by
    rw [adj_getcorrinfo, if_neg (fun h => Nat.lt_irrefl i h.1), if_neg (fun h => Nat.lt_irrefl i h.1)]
  small i j hi hj hne := by
    rw [adj_getcorrinfo]
    rcases Nat.lt_or_gt_of_ne hne with hlt | hgt
    · rw [if_pos ⟨hlt, hj⟩]
      exact hcorr i j hlt hj
    · rw [if_neg (fun h => by omega), if_pos ⟨hgt, hi⟩]
      exact hcorr j i hgt hi
  copied i j hi hj := if_pos ⟨hi, hj⟩

section

variable {g : Dgraph} {R C R' C' : List Nat}

theorem ext_adj {h : Dgraph} (hf : h.features = g.features) (hc : h.adjcopy = g.adjcopy)
    (ha : ∀ i j, h.adj i j = g.adj i j) : h = g := by
  cases g
  cases h
  simp only at hf hc ha
  simp only [hf, hc, funext fun i => funext (ha i)]

@[simp] theorem mask_nil : g.mask [] [] = g := by
  refine ext_adj rfl rfl ?_
  intro i j
  simp [mask]

theorem mask_congr (hR : ∀ x, x ∈ R ↔ x ∈ R') (hC : ∀ x, x ∈ C ↔ x ∈ C') :
    g.mask R C = g.mask R' C' := by
  refine ext_adj rfl rfl ?_
  intro i j
  simp only [mask, hR i, hC j]

/-- An entry is valid when its row and its column are there. -/
theorem Fresh.valid_iff (hg : g.Fresh) (i j : Nat) :
    (g.mask R C).adj i j ≠ dgInvalidEntry ↔
      i ≠ j ∧ i < g.features ∧ j < g.features ∧ i ∉ R ∧ j ∉ C := by
  have hentry : g.adj i j ≠ dgInvalidEntry ↔ i ≠ j ∧ i < g.features ∧ j < g.features := by
    constructor
    · intro h
      refine ⟨?_, ?_⟩
      · rintro rfl
        exact h (hg.diagonal i)
      · by_contra hout
        exact h (hg.outside i j hout)
    · rintro ⟨hne, hi, hj⟩ h
      have hsmall := hg.small i j hi hj hne
      rw [h] at hsmall
      exact absurd hsmall (by unfold dgInvalidEntry; decide)
  simp only [mask]
  by_cases h : i ∈ R ∨ j ∈ C
  · rw [if_pos h]
    refine ⟨fun hne => absurd rfl hne, ?_⟩
    rintro ⟨-, -, -, hi, hj⟩
    exact absurd h (not_or.mpr ⟨hi, hj⟩)
  · rw [if_neg h, hentry]
    obtain ⟨hi, hj⟩ := not_or.mp h
    exact ⟨fun ⟨a, b, c⟩ => ⟨a, b, c, hi, hj⟩, fun ⟨a, b, c, _, _⟩ => ⟨a, b, c⟩⟩

theorem mask_diminishgraphcol (hg : g.Fresh) (c : Nat) :
    (g.mask R C).diminishgraphcol c = g.mask R (c :: C) := by
  refine ext_adj rfl rfl ?_
  intro i j
  simp only [diminishgraphcol, mask, List.mem_cons]
  by_cases hj : j = c
  · subst hj
    by_cases hi : i < g.features
    · simp [hi]
    · simp [hi, hg.outside i j (fun h => hi h.1)]
  · simp [hj]

theorem mask_diminishgraphrow (hg : g.Fresh) (r : Nat) :
    (g.mask R C).diminishgraphrow r = g.mask (r :: R) C := by
  refine ext_adj rfl rfl ?_
  intro i j
  simp only [diminishgraphrow, mask, List.mem_cons]
  by_cases hi : i = r
  · subst hi
    by_cases hj : j < g.features
    · simp [hj]
    · simp [hj, hg.outside i j (fun h => hj h.2)]
  · simp [hi]

theorem adj_invalidate_of_ne (g : Dgraph) {r c i j : Nat} (h : ¬ (i = r ∧ j = c)) :
    (g.invalidate r c).adj i j = g.adj i j := by
  unfold invalidate
  by_cases hi : i = r
  · subst hi
    have hj : j ≠ c := fun hj => h ⟨rfl, hj⟩
    simp [hj]
  · simp [hi]

theorem adj_invalidate_self (g : Dgraph) (r c : Nat) : (g.invalidate r c).adj r c = dgInvalidEntry := by
  simp [invalidate]

/-- A single entry of a column that is not there. -/
theorem mask_invalidate {c : Nat} (hc : c ∈ C) (r : Nat) :
    (g.mask R C).invalidate r c = g.mask R C := by
  refine ext_adj rfl rfl ?_
  intro i j
  by_cases hij : i = r ∧ j = c
  · obtain ⟨rfl, rfl⟩ := hij
    rw [adj_invalidate_self]
    exact (if_pos (.inr hc)).symm
  · rw [adj_invalidate_of_ne _ hij]

/-- A single entry of a column that is taken out with it. -/
theorem mask_invalidate_diminishgraphcol (hg : g.Fresh) (r c : Nat) :
    ((g.mask R C).invalidate r c).diminishgraphcol c = g.mask R (c :: C) := by
  rw [← mask_diminishgraphcol hg]
  refine ext_adj rfl rfl ?_
  intro i j
  show (if i < g.features ∧ j = c then dgInvalidEntry else ((g.mask R C).invalidate r c).adj i j) =
    if i < g.features ∧ j = c then dgInvalidEntry else (g.mask R C).adj i j
  by_cases hcol : i < g.features ∧ j = c
  · rw [if_pos hcol, if_pos hcol]
  · rw [if_neg hcol, if_neg hcol]
    by_cases hij : i = r ∧ j = c
    · -- a row below the matrix
      obtain ⟨rfl, rfl⟩ := hij
      have hout := hg.outside i j (fun h => hcol ⟨h.1, rfl⟩)
      rw [adj_invalidate_self]
      simp [mask, hout]
    · rw [adj_invalidate_of_ne _ hij]

/-- **`recoverdgraph` leads back to the fresh graph.** -/
theorem recoverdgraph_mask (hg : g.Fresh) : (g.mask R C).recoverdgraph = g := by
  refine ext_adj rfl rfl ?_
  intro i j
  show (if i < g.features ∧ j < g.features then g.adjcopy i j else (g.mask R C).adj i j) = g.adj i j
  by_cases h : i < g.features ∧ j < g.features
  · rw [if_pos h, hg.copied i j h.1 h.2]
  · rw [if_neg h, hg.outside i j h]
    simp [mask, hg.outside i j h]

end

/-! ## The scans -/

theorem mem_pairs {features i j : Nat} : (i, j) ∈ pairs features ↔ i < j ∧ j < features := by
  simp only [pairs, List.mem_flatMap, List.mem_map, List.mem_range, List.mem_range'_1,
    Prod.mk.injEq]
  constructor
  · rintro ⟨a, ha, b, hb, rfl, rfl⟩
    omega
  · rintro ⟨hij, hj⟩
    exact ⟨i, by omega, j, by omega, rfl, rfl⟩

section

variable {g : Dgraph} {D c : List Nat}

/-- The first scan finds nothing, or a valid pair. -/
theorem minPair_cases (hg : g.Fresh) :
    (g.mask D D).minPair.2 = 1000 ∨ ∃ i j, (g.mask D D).minPair.1 = (i, j) ∧
      (g.mask D D).minPair.2 ≠ 1000 ∧ i < j ∧ j < g.features ∧ i ∉ D ∧ j ∉ D := by
  rcases firstMin_cases (fun p => |(g.mask D D).adj p.1 p.2|) ((0, 0), 1000)
      ((pairs g.features).filter fun p => (g.mask D D).adj p.1 p.2 ≠ dgInvalidEntry) with
    ⟨hstay, -⟩ | ⟨⟨i, j⟩, hmem, heq, hlt⟩
  · exact .inl (congrArg Prod.snd hstay)
  · obtain ⟨hpair, hvalid⟩ := List.mem_filter.mp hmem
    obtain ⟨hij, hj⟩ := mem_pairs.mp hpair
    obtain ⟨-, -, -, hi', hj'⟩ := (hg.valid_iff i j).mp (of_decide_eq_true hvalid)
    refine .inr ⟨i, j, congrArg Prod.fst heq, ?_, hij, hj, hi', hj'⟩
    have hval := congrArg Prod.snd heq
    rw [show (g.mask D D).minPair.2 = _ from hval]
    exact ne_of_lt hlt

/-- The second scan finds nothing, or a feature that is neither dispatched nor chosen. -/
theorem minCandidate_cases (hg : g.Fresh) {t : Nat} {rest : List Nat} (hc : c = t :: rest)
    (last : Nat) :
    ((g.mask D (D ++ c)).minCandidate (ofList c) last).2 = dgInvalidEntry ∨ ∃ x,
      ((g.mask D (D ++ c)).minCandidate (ofList c) last).1 = x ∧
      ((g.mask D (D ++ c)).minCandidate (ofList c) last).2 ≠ dgInvalidEntry ∧
      x < g.features ∧ x ∉ D ∧ x ∉ c := by
  have ht : ((ofList c).vlist 0).toNat = t := by
    rw [hc, vlist_ofList List.getElem?_cons_zero]
    rfl
  rcases firstMin_cases ((g.mask D (D ++ c)).workmem (ofList c) ((ofList c).vlist 0).toNat)
      (last, 1000) (List.range g.features) with ⟨hstay, -⟩ | ⟨x, -, heq, hlt⟩
  · exact .inl (congrArg Prod.snd hstay)
  · refine .inr ⟨x, congrArg Prod.fst heq, ?_, ?_⟩
    · have hval := congrArg Prod.snd heq
      rw [show ((g.mask D (D ++ c)).minCandidate (ofList c) last).2 = _ from hval]
      exact ne_of_lt hlt
    · -- a column that is not valid in the row of the first feature has 1000 in `workmem`
      have hvalid : (g.mask D (D ++ c)).adj t x ≠ dgInvalidEntry := by
        intro hinv
        rw [workmem, ht, if_pos hinv] at hlt
        exact lt_irrefl _ hlt
      obtain ⟨-, -, hx, -, hxc⟩ := (hg.valid_iff t x).mp hvalid
      rw [List.mem_append, not_or] at hxc
      exact ⟨hx, hxc.1, hxc.2⟩

/-! ## One turn of the loop -/

theorem store_empty (x : Nat) :
    DispatchSet.empty.store 0 x = .ok { vlist := (ofList [x]).vlist, num := 0 } :=
  store_vlist (c := []) (by decide) x 0

/-- The one entry of `tmpset` goes to the end of the set. -/
theorem transfer_one (hlen : c.length < maxVarList) (x : Nat) :
    transfer { vlist := (ofList [x]).vlist, num := 1 } (List.range 1) (ofList c) =
      .ok (ofList (c ++ [x])) := by
  have hx : (ofList [x]).vlist 0 = x := rfl
  have hnum : (ofList c).num = c.length := rfl
  rw [List.range_one, transfer, hx, hnum, store_ofList hlen]
  simp only [bind, Except.bind, transfer, ofList, List.length_append, List.length_singleton,
    Nat.cast_add, Nat.cast_one]

/-- A turn, in explicit `bind` form. -/
theorem turn_eq (g : Dgraph) (set : DispatchSet) (last : Nat) :
    g.turn set last =
      (DispatchSet.empty.store 0 (g.minCandidate set last).1).bind fun tmpset =>
        if (g.minCandidate set last).2 = dgInvalidEntry then
          (transfer { tmpset with num := tmpset.num - 1 } (List.range (tmpset.num - 1).toNat) set).bind
            fun set' => .ok (g, set', (g.minCandidate set last).1, -1)
        else
          (transfer { tmpset with num := tmpset.num + 1 } (List.range (tmpset.num + 1).toNat) set).bind
            fun set' => .ok ((g.invalidate (set.vlist 0).toNat
              (g.minCandidate set last).1).diminishgraphcol (g.minCandidate set last).1, set',
              (g.minCandidate set last).1, 0) := rfl

/-- A turn that finds the candidates used up. -/
theorem turn_of_none {last : Nat} (hnone : (g.minCandidate (ofList c) last).2 = dgInvalidEntry) :
    g.turn (ofList c) last = .ok (g, ofList c, (g.minCandidate (ofList c) last).1, -1) := by
  rw [turn_eq, store_empty, Except.bind, if_pos hnone, show ((0 : Int) - 1).toNat = 0 from rfl,
    List.range_zero, transfer, Except.bind]

/-- The graph behind a turn that chooses `x`. -/
def choose (g : Dgraph) (c : List Nat) (x : Nat) : Dgraph :=
  (g.invalidate ((ofList c).vlist 0).toNat x).diminishgraphcol x

/-- A turn that chooses a further feature. -/
theorem turn_of_some {last x : Nat} (hlen : c.length < maxVarList)
    (hx : (g.minCandidate (ofList c) last).1 = x)
    (hsome : (g.minCandidate (ofList c) last).2 ≠ dgInvalidEntry) :
    g.turn (ofList c) last = .ok (g.choose c x, ofList (c ++ [x]), x, 0) := by
  rw [turn_eq, hx, store_empty, Except.bind, if_neg hsome, show (0 : Int) + 1 = 1 from rfl,
    show (1 : Int).toNat = 1 from rfl, transfer_one hlen, Except.bind]
  rfl

/-! ## The loop -/

/-- A turn of the loop with its tests, in explicit `bind` form. -/
theorem grow_succ (n fuel : Nat) (g : Dgraph) (set : DispatchSet) (last : Nat) :
    grow n (fuel + 1) g set last = (g.turn set last).bind fun r =>
      if r.2.2.2 = -1 then .ok (r.1, r.2.1, r.2.2.2)
      else if (n : Int) ≤ r.2.1.num then .ok (r.1, r.2.1, r.2.2.2)
      else grow n fuel r.1 r.2.1 r.2.2.1 := rfl

/-- What every turn that chooses a feature keeps. -/
def Kept (I : Dgraph → List Nat → Prop) : Prop :=
  ∀ (g : Dgraph) (c : List Nat) (last x : Nat), I g c → (g.minCandidate (ofList c) last).1 = x →
    (g.minCandidate (ofList c) last).2 ≠ dgInvalidEntry → I (g.choose c x) (c ++ [x])

/-- How a call with the chosen features `c` ends: with the size at which it stops, or before it and
without a candidate. -/
def Ended (g : Dgraph) (c : List Nat) (size : Nat) (flag : Int) : Prop :=
  (flag = 0 ∧ c.length = size) ∨
    (flag = -1 ∧ c.length < size ∧ ∃ last, (g.minCandidate (ofList c) last).2 = dgInvalidEntry)

/-- **The rule for the loop**: it ends, since every turn adds a feature or is the last, and what
every turn keeps holds behind it. -/
theorem grow_rule {I : Dgraph → List Nat → Prop} (hkept : Kept I) {n fuel : Nat}
    (hn : n ≤ maxVarList) (hI : I g c) (hlen : c.length < maxVarList)
    (hfuel : n ≤ fuel + c.length) (hpos : 0 < fuel) (last : Nat) :
    ∃ g' c' flag, grow n fuel g (ofList c) last = .ok (g', ofList c', flag) ∧ I g' c' ∧
      c.length ≤ c'.length ∧ Ended g' c' (max n (c.length + 1)) flag := by
  induction fuel generalizing g c last with
  | zero => exact absurd hpos (Nat.lt_irrefl 0)
  | succ fuel ih =>
      by_cases hnone : (g.minCandidate (ofList c) last).2 = dgInvalidEntry
      · refine ⟨g, c, -1, ?_, hI, le_rfl, .inr ⟨rfl, by omega, last, hnone⟩⟩
        rw [grow_succ, turn_of_none hnone, Except.bind, if_pos rfl]
      · obtain ⟨x, hx⟩ : ∃ x, (g.minCandidate (ofList c) last).1 = x := ⟨_, rfl⟩
        have hturn := turn_of_some hlen hx hnone
        have hI' := hkept g c last x hI hx hnone
        have hlen' : (c ++ [x]).length = c.length + 1 := by simp
        have hnum : (ofList (c ++ [x])).num = ((c.length + 1 : Nat) : Int) := by simp [ofList]
        by_cases hend : n ≤ c.length + 1
        · refine ⟨g.choose c x, c ++ [x], 0, ?_, hI', by omega, .inl ⟨rfl, by omega⟩⟩
          rw [grow_succ, hturn, Except.bind, if_neg (show ¬ (0 : Int) = -1 by decide),
            if_pos (by rw [hnum]; exact_mod_cast hend)]
        · obtain ⟨g', c', flag, hgrow, hI'', hle, hended⟩ :=
            ih hI' (by omega) (by omega) (by omega) x
          refine ⟨g', c', flag, ?_, hI'', by omega, ?_⟩
          · rw [grow_succ, hturn, Except.bind, if_neg (show ¬ (0 : Int) = -1 by decide),
              if_neg (by rw [hnum]; exact_mod_cast hend)]
            exact hgrow
          · rwa [show max n (c.length + 1) = max n ((c ++ [x]).length + 1) by omega]

/-! ## The chosen features -/

/-- What `findset` has chosen. -/
structure Chosen (g : Dgraph) (D c : List Nat) : Prop where
  distinct : c.Nodup
  range : ∀ x ∈ c, x < g.features
  fresh : ∀ x ∈ c, x ∉ D

theorem Chosen.concat (hc : Chosen g D c) {x : Nat} (hx : x < g.features) (hD : x ∉ D)
    (hxc : x ∉ c) : Chosen g D (c ++ [x]) where
  distinct := by
    have hnd := hc.distinct.concat hxc
    rwa [List.concat_eq_append] at hnd
  range y hy := by
    rcases List.mem_append.mp hy with hy | hy
    · exact hc.range y hy
    · exact List.mem_singleton.mp hy ▸ hx
  fresh y hy := by
    rcases List.mem_append.mp hy with hy | hy
    · exact hc.fresh y hy
    · exact List.mem_singleton.mp hy ▸ hD

theorem choose_mask (hg : g.Fresh) (x : Nat) :
    (g.mask D (D ++ c)).choose c x = g.mask D (D ++ (c ++ [x])) := by
  unfold choose
  rw [mask_invalidate_diminishgraphcol hg]
  apply mask_congr (fun _ => Iff.rfl)
  intro y
  simp only [List.mem_cons, List.mem_append, List.not_mem_nil, or_false]
  tauto

/-- The graph and the chosen features in the loop of a call with the dispatched features `D`. -/
structure Choosing (g : Dgraph) (D : List Nat) (g' : Dgraph) (c : List Nat) : Prop where
  graph : g' = g.mask D (D ++ c)
  nonempty : ∃ t rest, c = t :: rest
  chosen : Chosen g D c

theorem kept_choosing (hg : g.Fresh) : Kept (Choosing g D) := by
  rintro g' c last x ⟨rfl, ⟨t, rest, hct⟩, hc⟩ hx hsome
  rcases minCandidate_cases (D := D) hg hct last with hnone | ⟨y, hy, -, hrange, hD, hyc⟩
  · exact absurd hnone hsome
  · obtain rfl : y = x := hy.symm.trans hx
    refine ⟨choose_mask hg y, ⟨t, rest ++ [y], ?_⟩, hc.concat hrange hD hyc⟩
    rw [hct, List.cons_append]

/-! ## The last loop -/

theorem foldl_ofList {α : Type} (f : α → Nat → α) (a : α) (c : List Nat) :
    (List.range c.length).foldl (fun a k => f a ((ofList c).vlist k).toNat) a = c.foldl f a := by
  induction c using List.reverseRecOn with
  | nil => rfl
  | append_singleton c x ih =>
      have hlast : ((ofList (c ++ [x])).vlist c.length).toNat = x := by
        rw [vlist_ofList (List.getElem?_concat_length)]
        rfl
      have hinit : (List.range c.length).foldl
          (fun a k => f a ((ofList (c ++ [x])).vlist k).toNat) a =
          (List.range c.length).foldl (fun a k => f a ((ofList c).vlist k).toNat) a := by
        apply List.foldl_ext
        intro b k hk
        have hk := List.mem_range.mp hk
        simp [ofList, List.getElem?_append_left hk]
      rw [List.length_append, List.length_singleton, List.range_succ, List.foldl_append, hinit, ih,
        List.foldl_append, List.foldl_cons, List.foldl_nil, hlast]
      rfl

/-- **The last loop** takes the rows of the chosen features out too. -/
theorem diminishAll_mask (hg : g.Fresh) :
    (g.mask D (D ++ c)).diminishAll (ofList c) = g.mask (D ++ c) (D ++ c) := by
  have hfold : ∀ (xs R C : List Nat), xs.foldl (fun g k => (diminishgraphcol g k).diminishgraphrow k)
      (g.mask R C) = g.mask (xs.reverse ++ R) (xs.reverse ++ C) := by
    intro xs
    induction xs with
    | nil => exact fun R C => rfl
    | cons x xs ih =>
        intro R C
        rw [List.foldl_cons, mask_diminishgraphcol hg, mask_diminishgraphrow hg, ih,
          List.reverse_cons, List.append_assoc, List.append_assoc, List.singleton_append,
          List.singleton_append]
  have hnum : (ofList c).num.toNat = c.length := Int.toNat_natCast _
  unfold diminishAll
  rw [hnum, foldl_ofList (fun g k => (diminishgraphcol g k).diminishgraphrow k), hfold]
  apply mask_congr
  · intro x
    simp only [List.mem_append, List.mem_reverse]
    tauto
  · intro x
    simp only [List.mem_append, List.mem_reverse]
    tauto

/-! ## The specification of `findset` -/

/-- `findset` behind its first scan, in explicit `bind` form. -/
theorem findset_of_pair {n i j : Nat} (hn : n ≤ maxVarList) (hpair : g.minPair.1 = (i, j))
    (hsome : g.minPair.2 ≠ 1000) :
    g.findset n = (DispatchSet.empty.store 0 i).bind fun set => (set.store 1 j).bind fun set =>
      if 0 < n then
        (grow n n (((g.diminishgraphcol i).diminishgraphcol j).invalidate i j) { set with num := 2 }
          i).bind fun r => .ok (r.1.diminishAll r.2.1, r.2.1, r.2.2)
      else .ok ((((g.diminishgraphcol i).diminishgraphcol j).invalidate i j).diminishAll
        { set with num := 2 }, { set with num := 2 }, 0) := by
  simp only [findset, if_neg (Nat.not_lt.mpr hn), if_neg hsome, hpair, bind, pure, Except.pure]
  rfl

theorem findset_of_none {n : Nat} (hn : n ≤ maxVarList) (hnone : g.minPair.2 = 1000) :
    g.findset n = .ok (g, DispatchSet.empty, -1) := by
  simp only [findset, if_neg (Nat.not_lt.mpr hn), if_pos hnone, bind, pure, Except.pure]

/-- The size at which a call stops: the pair comes first, and a further feature when the loop is
entered at all. -/
def stopSize (n : Nat) : Nat := if n = 0 then 2 else max n 3

/-- **The rule for `findset`** on any graph with a valid pair. -/
theorem findset_rule {I : Dgraph → List Nat → Prop} (hkept : Kept I) {n i j : Nat}
    (hn : n ≤ maxVarList) (hpair : g.minPair.1 = (i, j)) (hsome : g.minPair.2 ≠ 1000)
    (hI : I (((g.diminishgraphcol i).diminishgraphcol j).invalidate i j) [i, j]) :
    ∃ g' c flag, g.findset n = .ok (g'.diminishAll (ofList c), ofList c, flag) ∧ I g' c ∧
      2 ≤ c.length ∧ Ended g' c (stopSize n) flag := by
  have hstore : ({ vlist := (ofList [i]).vlist, num := 0 } : DispatchSet).store 1 j =
      .ok { vlist := (ofList [i, j]).vlist, num := 0 } :=
    store_vlist (c := [i]) (show 1 < 4096 by decide) j 0
  have hset : ({ vlist := (ofList [i, j]).vlist, num := 2 } : DispatchSet) = ofList [i, j] := rfl
  rw [findset_of_pair hn hpair hsome, store_empty, Except.bind, hstore, Except.bind]
  simp only [hset]
  unfold stopSize
  rcases Nat.eq_zero_or_pos n with rfl | hpos
  · exact ⟨_, [i, j], 0, rfl, hI, le_rfl, .inl ⟨rfl, rfl⟩⟩
  · obtain ⟨g', c, flag, hgrow, hI', hle, hended⟩ := grow_rule hkept hn hI
      (show 2 < 4096 by decide) (show n ≤ n + 2 by omega) hpos i
    refine ⟨g', c, flag, ?_, hI', hle, ?_⟩
    · rw [if_pos hpos, hgrow, Except.bind]
    · rw [if_neg (Nat.ne_of_gt hpos)]
      exact hended

theorem mask_pair (hg : g.Fresh) (i j : Nat) :
    (((g.mask D D).diminishgraphcol i).diminishgraphcol j).invalidate i j =
      g.mask D (D ++ [i, j]) := by
  rw [mask_diminishgraphcol hg, mask_diminishgraphcol hg, mask_invalidate List.mem_cons_self]
  apply mask_congr (fun _ => Iff.rfl)
  intro x
  simp only [List.mem_cons, List.mem_append, List.not_mem_nil, or_false]
  tauto

theorem chosen_pair {i j : Nat} (hij : i < j) (hj : j < g.features) (hi' : i ∉ D) (hj' : j ∉ D) :
    Chosen g D [i, j] := by
  constructor
  · simp only [List.nodup_cons, List.mem_singleton, List.not_mem_nil, not_false_eq_true,
      List.nodup_nil, and_true]
    omega
  · intro x hx
    rcases List.mem_cons.mp hx with rfl | hx
    · omega
    · exact List.mem_singleton.mp hx ▸ hj
  · intro x hx
    rcases List.mem_cons.mp hx with rfl | hx
    · exact hi'
    · exact List.mem_singleton.mp hx ▸ hj'

/-- **What `findset` does** to a graph with the dispatched features `D` taken out: it returns, with
features that are distinct and not dispatched, and takes these out too. -/
theorem findset_eq (hg : g.Fresh) {n : Nat} (hn : n ≤ maxVarList) :
    ∃ c flag, (g.mask D D).findset n = .ok (g.mask (D ++ c) (D ++ c), ofList c, flag) ∧
      Chosen g D c := by
  rcases minPair_cases (D := D) hg with hnone | ⟨i, j, hpair, hsome, hij, hj, hi', hj'⟩
  · refine ⟨[], -1, ?_, ⟨List.nodup_nil, ?_, ?_⟩⟩
    · rw [findset_of_none hn hnone, List.append_nil, ofList_nil]
    · exact fun x hx => absurd hx List.not_mem_nil
    · exact fun x hx => absurd hx List.not_mem_nil
  · have hI : Choosing g D ((((g.mask D D).diminishgraphcol i).diminishgraphcol j).invalidate i j)
        [i, j] := ⟨mask_pair hg i j, ⟨i, [j], rfl⟩, chosen_pair hij hj hi' hj'⟩
    obtain ⟨g', c, flag, hfind, ⟨rfl, -, hc⟩, -, -⟩ :=
      findset_rule (kept_choosing hg) hn hpair hsome hI
    refine ⟨c, flag, ?_, hc⟩
    rw [hfind, diminishAll_mask hg]

end

end Dgraph

/-! ## Sequences of calls -/

/-- The calls on a graph. -/
inductive DgCall
  | findset (n : Nat)
  | recoverdgraph
deriving Repr, DecidableEq

/-- A graph and what the calls of `findset` have returned since the last `recoverdgraph`. -/
structure Session where
  graph : Dgraph
  returned : List (DispatchSet × Int)

namespace Session

/-- One call; it fails when `findset` does not return. -/
def step (s : Session) : DgCall → Option Session
  | .findset n =>
      match s.graph.findset n with
      | .ok (g, set, flag) => some ⟨g, s.returned ++ [(set, flag)]⟩
      | .error _ => none
  | .recoverdgraph => some ⟨s.graph.recoverdgraph, []⟩

/-- What the calls of `findset` with the given sizes return. -/
def returns (g : Dgraph) (ns : List Nat) : Option (List (DispatchSet × Int)) :=
  (exec step ⟨g, []⟩ (ns.map .findset)).map Session.returned

/-- The feature is in one of the sets returned since the last recovery. -/
def Dispatched (s : Session) (i : Nat) : Prop :=
  ∃ p ∈ s.returned, ∃ k : Nat, (k : Int) < p.1.num ∧ p.1.vlist k = i

/-- **The dispatch sets are valid and disjoint.** -/
structure Valid (s : Session) : Prop where
  inRange : ∀ p ∈ s.returned, ∀ k : Nat, (k : Int) < p.1.num →
    0 ≤ p.1.vlist k ∧ p.1.vlist k < s.graph.features
  distinct : ∀ p ∈ s.returned, ∀ k l : Nat, (k : Int) < p.1.num → (l : Int) < p.1.num →
    p.1.vlist k = p.1.vlist l → k = l
  disjoint : s.returned.Pairwise fun p q => ∀ k l : Nat, (k : Int) < p.1.num → (l : Int) < q.1.num →
    p.1.vlist k ≠ q.1.vlist l
  pattern : ∀ i j, i < s.graph.features → j < s.graph.features →
    (s.graph.adj i j ≠ dgInvalidEntry ↔ i ≠ j ∧ ¬ s.Dispatched i ∧ ¬ s.Dispatched j)

/-- The sets returned on the fresh graph `g`, as lists. -/
structure Tracks (g : Dgraph) (cs : List (List Nat)) (s : Session) : Prop where
  graph : s.graph = g.mask cs.flatten cs.flatten
  returned : s.returned.map Prod.fst = cs.map ofList
  distinct : cs.flatten.Nodup
  range : ∀ x ∈ cs.flatten, x < g.features

section

variable {g : Dgraph} {cs : List (List Nat)} {s : Session}

theorem tracks_init (g : Dgraph) : Tracks g [] ⟨g, []⟩ where
  graph := Dgraph.mask_nil.symm
  returned := rfl
  distinct := List.nodup_nil
  range _ hx := absurd hx List.not_mem_nil

/-- One more set. -/
theorem Tracks.extend (hs : Tracks g cs s) {c : List Nat} (hc : Dgraph.Chosen g cs.flatten c)
    (flag : Int) : Tracks g (cs ++ [c])
      ⟨g.mask (cs.flatten ++ c) (cs.flatten ++ c), s.returned ++ [(ofList c, flag)]⟩ := by
  have hflat : (cs ++ [c]).flatten = cs.flatten ++ c := by
    rw [List.flatten_append, List.flatten_cons, List.flatten_nil, List.append_nil]
  constructor
  · rw [hflat]
  · rw [List.map_append, List.map_append, hs.returned]
    rfl
  · rw [hflat, List.nodup_append]
    refine ⟨hs.distinct, hc.distinct, ?_⟩
    rintro x hx y hy rfl
    exact hc.fresh x hy hx
  · intro x hx
    rw [hflat] at hx
    rcases List.mem_append.mp hx with hx | hx
    · exact hs.range x hx
    · exact hc.range x hx

/-- **One call** keeps track of the sets. -/
theorem Tracks.step (hg : g.Fresh) (hs : Tracks g cs s) {l : DgCall}
    (hl : ∀ n, l = .findset n → n ≤ maxVarList) :
    ∃ cs' s', s.step l = some s' ∧ Tracks g cs' s' := by
  cases l with
  | recoverdgraph =>
      refine ⟨[], ⟨s.graph.recoverdgraph, []⟩, rfl, ?_⟩
      rw [hs.graph, Dgraph.recoverdgraph_mask hg]
      exact tracks_init g
  | findset n =>
      obtain ⟨c, flag, hfind, hc⟩ := Dgraph.findset_eq (D := cs.flatten) hg (hl n rfl)
      rw [← hs.graph] at hfind
      refine ⟨cs ++ [c], _, ?_, hs.extend hc flag⟩
      simp only [Session.step, hfind]

/-- **Every sequence of calls returns.** -/
theorem exists_tracks (hg : g.Fresh) {calls : List DgCall}
    (hcalls : ∀ n, .findset n ∈ calls → n ≤ maxVarList) (hs : Tracks g cs s) :
    ∃ cs' s', exec Session.step s calls = some s' ∧ Tracks g cs' s' := by
  induction calls generalizing cs s with
  | nil => exact ⟨cs, s, rfl, hs⟩
  | cons l calls ih =>
      obtain ⟨cs1, s1, hstep, hs1⟩ := hs.step hg (l := l) fun n hl =>
        hcalls n (hl ▸ List.mem_cons_self)
      obtain ⟨cs2, s2, hrun, hs2⟩ := ih (fun n hn => hcalls n (List.mem_cons_of_mem l hn)) hs1
      exact ⟨cs2, s2, exec_cons_eq_some.mpr ⟨s1, hstep, hrun⟩, hs2⟩

theorem lt_num_iff {l : List Nat} {k : Nat} : (k : Int) < (ofList l).num ↔ k < l.length :=
  Int.ofNat_lt

/-- The entries of a set are the elements of its list. -/
theorem exists_getElem_of_lt {l : List Nat} {k : Nat} (hk : (k : Int) < (ofList l).num) :
    ∃ x ∈ l, l[k]? = some x ∧ (ofList l).vlist k = x := by
  have hlen := lt_num_iff.mp hk
  exact ⟨l[k], List.getElem_mem hlen, List.getElem?_eq_getElem hlen,
    vlist_ofList (List.getElem?_eq_getElem hlen)⟩

theorem Tracks.exists_list (hs : Tracks g cs s) {p : DispatchSet × Int} (hp : p ∈ s.returned) :
    ∃ c ∈ cs, p.1 = ofList c := by
  have hmem : p.1 ∈ cs.map ofList := hs.returned ▸ List.mem_map_of_mem hp
  obtain ⟨c, hc, heq⟩ := List.mem_map.mp hmem
  exact ⟨c, hc, heq.symm⟩

theorem Tracks.dispatched_iff (hs : Tracks g cs s) (i : Nat) : s.Dispatched i ↔ i ∈ cs.flatten := by
  constructor
  · rintro ⟨p, hp, k, hk, hi⟩
    obtain ⟨c, hc, hpc⟩ := hs.exists_list hp
    rw [hpc] at hk hi
    obtain ⟨x, hx, -, hv⟩ := exists_getElem_of_lt hk
    have hxi : x = i := by exact_mod_cast hv.symm.trans hi
    exact List.mem_flatten.mpr ⟨c, hc, hxi ▸ hx⟩
  · intro hi
    obtain ⟨c, hc, hic⟩ := List.mem_flatten.mp hi
    have hmem : ofList c ∈ s.returned.map Prod.fst := hs.returned ▸ List.mem_map_of_mem hc
    obtain ⟨p, hp, hpc⟩ := List.mem_map.mp hmem
    obtain ⟨k, hk⟩ := List.getElem?_of_mem hic
    have hlen : k < c.length := (List.getElem?_eq_some_iff.mp hk).1
    refine ⟨p, hp, k, ?_, ?_⟩
    · rw [hpc]
      exact lt_num_iff.mpr hlen
    · rw [hpc]
      exact vlist_ofList hk

/-- **The tracked sets are valid.** -/
theorem Tracks.valid (hg : g.Fresh) (hs : Tracks g cs s) : s.Valid := by
  have hfeatures : s.graph.features = g.features := by rw [hs.graph]; rfl
  obtain ⟨hnodup, hpair⟩ := List.nodup_flatten.mp hs.distinct
  constructor
  case inRange =>
    intro p hp k hk
    obtain ⟨c, hc, hpc⟩ := hs.exists_list hp
    rw [hpc] at hk ⊢
    obtain ⟨x, hx, -, hv⟩ := exists_getElem_of_lt hk
    have hxg := hs.range x (List.mem_flatten.mpr ⟨c, hc, hx⟩)
    rw [hv, hfeatures]
    exact ⟨Int.natCast_nonneg x, by exact_mod_cast hxg⟩
  case distinct =>
    intro p hp k l hk hl heq
    obtain ⟨c, hc, hpc⟩ := hs.exists_list hp
    rw [hpc] at hk hl heq
    obtain ⟨x, -, hxk, hvx⟩ := exists_getElem_of_lt hk
    obtain ⟨y, -, hyl, hvy⟩ := exists_getElem_of_lt hl
    have hxy : x = y := by exact_mod_cast hvx.symm.trans (heq.trans hvy)
    exact (List.getElem?_inj (lt_num_iff.mp hk) (hnodup c hc)).mp (hxk.trans (hxy ▸ hyl.symm))
  case disjoint =>
    have hsets : (s.returned.map Prod.fst).Pairwise fun a b => ∀ k l : Nat, (k : Int) < a.num →
        (l : Int) < b.num → a.vlist k ≠ b.vlist l := by
      rw [hs.returned, List.pairwise_map]
      refine hpair.imp ?_
      intro a b hab k l hk hl heq
      obtain ⟨x, hx, -, hvx⟩ := exists_getElem_of_lt hk
      obtain ⟨y, hy, -, hvy⟩ := exists_getElem_of_lt hl
      have hxy : x = y := by exact_mod_cast hvx.symm.trans (heq.trans hvy)
      exact hab hx (hxy ▸ hy)
    exact List.pairwise_map.mp hsets
  case pattern =>
    intro i j hi hj
    rw [hs.dispatched_iff, hs.dispatched_iff, hs.graph, hg.valid_iff]
    rw [hfeatures] at hi hj
    tauto

end

/-- **Dispatch sets are valid and disjoint**: for every number of features, all correlations of
absolute value at most 1 and every sequence of `findset` and `recoverdgraph` calls, all calls return
(so no store is outside of a `vlist`), the sets returned since the last recovery are valid, and
behind a `recoverdgraph` the calls return what they return on the fresh graph. -/
theorem dispatch_valid (features : Nat) (corr : Nat → Nat → ℚ)
    (hcorr : ∀ i j, i < j → j < features → |corr i j| ≤ 1) (calls : List DgCall)
    (hcalls : ∀ n, .findset n ∈ calls → 1 ≤ n ∧ n ≤ maxVarList) :
    ∃ s, exec step ⟨(Dgraph.initdgraph features).getcorrinfo corr, []⟩ calls = some s ∧
      s.graph.features = features ∧ s.Valid ∧
      ∀ ns, returns s.graph.recoverdgraph ns =
        returns ((Dgraph.initdgraph features).getcorrinfo corr) ns := by
  have hg := Dgraph.fresh_getcorrinfo hcorr
  obtain ⟨cs, s, hrun, hs⟩ := exists_tracks hg (fun n hn => (hcalls n hn).2) (tracks_init _)
  refine ⟨s, hrun, ?_, hs.valid hg, ?_⟩
  · rw [hs.graph]
    rfl
  · intro ns
    rw [hs.graph, Dgraph.recoverdgraph_mask hg]

/-- Five features: a set of three, a set of which two are left, and the same again behind a
recovery. -/
theorem dispatch_valid_five :
    ∃ s, exec step ⟨(Dgraph.initdgraph 5).getcorrinfo fun i _ => if i = 0 then 0 else 1, []⟩
        [.findset 3, .findset 3, .recoverdgraph, .findset 4] = some s ∧
      s.graph.features = 5 ∧ s.Valid ∧
      ∀ ns, returns s.graph.recoverdgraph ns =
        returns ((Dgraph.initdgraph 5).getcorrinfo fun i _ => if i = 0 then 0 else 1) ns := by
  apply dispatch_valid
  · intro i j _ _
    split_ifs
    · rw [abs_zero]
      exact zero_le_one
    · rw [abs_one]
  · intro n hn
    simp only [List.mem_cons, DgCall.findset.injEq, reduceCtorEq, List.not_mem_nil, or_false,
      false_or] at hn
    unfold maxVarList
    omega

end Session

end CommTest.Mpi
