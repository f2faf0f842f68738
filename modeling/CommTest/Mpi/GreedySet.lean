import CommTest.Lib.Greedy
import CommTest.Mpi.Dispatch

/-!
# The selection of a dispatch set

What `findset` chooses and when it stops. The features are weighed by the absolute values of their
correlations; on the graph with the dispatched features taken out, the two scans find first minima,
so the chosen list is a greedy selection of the features that are left.

* `findset_size_iff`: on every graph, the size of the set and what is returned fit together exactly
  for sizes from three on, or when there is no pair.
* `minPair_greedy`, `minCandidate_greedy` and `findset_select`: the selection is greedy, and it ends
  with its size or without a candidate whose total is below the sentinel.
-/

set_option linter.unusedSectionVars false

namespace CommTest.Mpi

open FirstMin Lts Selection DispatchSet

namespace Dgraph

/-! ## The size of the set -/

/-- No pair of features has a valid entry below the start of the first scan. -/
def NoPair (g : Dgraph) : Prop :=
  ∀ i j, i < j → j < g.features → g.adj i j = dgInvalidEntry ∨ 1000 ≤ |g.adj i j|

theorem minPair_eq_iff (g : Dgraph) : g.minPair.2 = 1000 ↔ g.NoPair := by
  have hmem : ∀ i j, (i, j) ∈ (pairs g.features).filter (fun p => g.adj p.1 p.2 ≠ dgInvalidEntry) ↔
      (i < j ∧ j < g.features) ∧ g.adj i j ≠ dgInvalidEntry := by
    intro i j
    rw [List.mem_filter, mem_pairs, decide_eq_true_iff]
  rcases firstMin_cases (fun p => |g.adj p.1 p.2|) ((0, 0), 1000)
      ((pairs g.features).filter fun p => g.adj p.1 p.2 ≠ dgInvalidEntry) with
    ⟨hstay, hall⟩ | ⟨⟨i, j⟩, hij, heq, hlt⟩
  · refine ⟨fun _ i j hij hj => ?_, fun _ => congrArg Prod.snd hstay⟩
    by_cases hinv : g.adj i j = dgInvalidEntry
    · exact .inl hinv
    · exact .inr (hall (i, j) ((hmem i j).mpr ⟨⟨hij, hj⟩, hinv⟩))
  · have hval : g.minPair.2 = |g.adj i j| := congrArg Prod.snd heq
    rw [hval]
    refine ⟨fun h => absurd h (ne_of_lt hlt), fun hno => ?_⟩
    obtain ⟨⟨hlt', hj⟩, hvalid⟩ := (hmem i j).mp hij
    rcases hno i j hlt' hj with hinv | hle
    · exact absurd hinv hvalid
    · exact absurd hlt (not_lt_of_ge hle)

/-- **The size of a dispatch set**: on every graph and for every size that `findset` accepts, it
returns `0` exactly for a set of the size that was asked for, and never a larger set, if and only if
that size is at least three or there is no pair to start with. -/
theorem findset_size_iff (g : Dgraph) (n : Nat) (hpos : 1 ≤ n) (hn : n ≤ maxVarList) :
    ∃ g' set flag, g.findset n = .ok (g', set, flag) ∧
      (((flag = 0 ↔ set.num = n) ∧ set.num ≤ n) ↔ 3 ≤ n ∨ g.NoPair) := by
  by_cases hnone : g.minPair.2 = 1000
  · refine ⟨g, DispatchSet.empty, -1, findset_of_none hn hnone, ?_⟩
    have hnum : DispatchSet.empty.num = 0 := rfl
    rw [hnum]
    exact ⟨fun _ => .inr ((minPair_eq_iff g).mp hnone), fun _ => ⟨by omega, by omega⟩⟩
  · have hno : ¬ g.NoPair := fun h => hnone ((minPair_eq_iff g).mpr h)
    obtain ⟨g', c, flag, hfind, -, htwo, hended⟩ :=
      findset_rule (I := fun _ _ => True) (fun _ _ _ _ _ _ _ => trivial) hn
        (Prod.mk.eta.symm : g.minPair.1 = (g.minPair.1.1, g.minPair.1.2)) hnone trivial
    refine ⟨_, _, _, hfind, ?_⟩
    have hnum : (ofList c).num = c.length := rfl
    unfold Ended at hended
    rw [show stopSize n = max n 3 from if_neg (by omega)] at hended
    rw [hnum]
    simp only [hno, or_false]
    rcases hended with ⟨rfl, hlen⟩ | ⟨rfl, hlen, -⟩
    · refine ⟨fun ⟨_, hle⟩ => ?_, fun hthree => ⟨⟨fun _ => ?_, fun _ => rfl⟩, ?_⟩⟩
      · omega
      · omega
      · omega
    · -- a set of two that was asked for is returned as a failure
      refine ⟨fun ⟨hiff, hle⟩ => ?_, fun hthree => ⟨⟨fun h => ?_, fun _ => ?_⟩, ?_⟩⟩
      · have hne := mt hiff.mpr (show ¬ (-1 : Int) = 0 by decide)
        omega
      · exact absurd h (by decide)
      · omega
      · omega

theorem exists_findset {g : Dgraph} {n : Nat} {num flag : Int}
    (h : ((g.findset n).toOption.map fun r => (r.2.1.num, r.2.2)) = some (num, flag)) :
    ∃ g' set, g.findset n = .ok (g', set, flag) ∧ set.num = num := by
  obtain ⟨⟨g', set, flag'⟩, hr, heq⟩ := Option.map_eq_some_iff.mp h
  obtain ⟨rfl, rfl⟩ := Prod.mk.inj heq
  refine ⟨g', set, ?_, rfl⟩
  cases hfind : g.findset n with
  | error e =>
      rw [hfind] at hr
      exact absurd hr (by simp [Except.toOption])
  | ok r =>
      rw [hfind] at hr
      exact congrArg Except.ok (Option.some.inj hr)

/-- Two features and a set of one: both are chosen, and the call fails. -/
theorem findset_size_two :
    ∃ g' set flag, ((initdgraph 2).getcorrinfo fun _ _ => 0).findset 1 = .ok (g', set, flag) ∧
      ¬ ((flag = 0 ↔ set.num = (1 : Nat)) ∧ set.num ≤ (1 : Nat)) := by
  obtain ⟨g', set, hfind, hnum⟩ := exists_findset (g := (initdgraph 2).getcorrinfo fun _ _ => 0)
    (n := 1) (show _ = some ((2 : Int), (-1 : Int)) by decide +kernel)
  refine ⟨g', set, -1, hfind, ?_⟩
  rw [hnum]
  decide

/-- Three features and a set of three. -/
theorem findset_size_three :
    1 ≤ 3 ∧ 3 ≤ maxVarList ∧ ∃ g' set flag,
      ((initdgraph 3).getcorrinfo fun _ _ => 0).findset 3 = .ok (g', set, flag) ∧
      (((flag = 0 ↔ set.num = (3 : Nat)) ∧ set.num ≤ (3 : Nat)) ↔
        3 ≤ 3 ∨ ((initdgraph 3).getcorrinfo fun _ _ => 0).NoPair) :=
  ⟨by decide, by decide, findset_size_iff _ 3 (by decide) (by decide)⟩

/-! ## The scans find first minima -/

/-- The absolute values of the entries. -/
def Weighs (g : Dgraph) (w : Nat → Nat → ℚ) : Prop :=
  ∀ i j, i < g.features → j < g.features → i ≠ j → |g.adj i j| = w i j

/-- The features that are left when `D` are taken out. -/
def Left (g : Dgraph) (D : List Nat) (x : Nat) : Prop := x < g.features ∧ x ∉ D

theorem pairwise_pairs (features : Nat) :
    (pairs features).Pairwise (Prod.Lex (· < ·) (· < ·)) := by
  unfold pairs
  rw [List.pairwise_flatMap]
  constructor
  · intro i _
    rw [List.pairwise_map]
    refine (List.pairwise_lt_range' 1).imp ?_
    intro j j' hj
    exact Prod.lex_def.mpr (.inr ⟨rfl, hj⟩)
  · refine List.pairwise_lt_range.imp ?_
    intro i i' hi q hq q' hq'
    obtain ⟨j, -, rfl⟩ := List.mem_map.mp hq
    obtain ⟨j', -, rfl⟩ := List.mem_map.mp hq'
    exact Prod.lex_def.mpr (.inl hi)

section

variable {g : Dgraph} {D c : List Nat} {w : Nat → Nat → ℚ}

/-- An entry of the chosen rows, at a column that is left. -/
theorem adj_mask (hw : g.Weighs w) {R C : List Nat} {i j : Nat} (hi : i < g.features) (hiR : i ∉ R)
    (hj : j < g.features) (hjC : j ∉ C) (hne : i ≠ j) : |(g.mask R C).adj i j| = w i j := by
  rw [← hw i j hi hj hne]
  exact congrArg abs (if_neg (not_or.mpr ⟨hiR, hjC⟩))

theorem Fresh.weight_le (hg : g.Fresh) (hw : g.Weighs w) {i j : Nat} (hi : i < g.features)
    (hj : j < g.features) (hne : i ≠ j) : w i j ≤ 1 :=
  hw i j hi hj hne ▸ hg.small i j hi hj hne

/-- There is no pair when at most one feature is left. -/
theorem noPair_mask_iff (hg : g.Fresh) :
    (g.mask D D).NoPair ↔ ∀ i j, g.Left D i → g.Left D j → i = j := by
  have hlt : ∀ i j, i < j → g.Left D i → g.Left D j → ¬ (g.mask D D).NoPair := by
    rintro i j hij ⟨hi, hiD⟩ ⟨hj, hjD⟩ hno
    have hne := Nat.ne_of_lt hij
    rcases hno i j hij hj with hinv | hle
    · exact (hg.valid_iff i j).mpr ⟨hne, hi, hj, hiD, hjD⟩ hinv
    · rw [show (g.mask D D).adj i j = g.adj i j from if_neg (not_or.mpr ⟨hiD, hjD⟩)] at hle
      exact absurd (le_trans hle (hg.small i j hi hj hne)) (by decide)
  constructor
  · intro hno i j hi hj
    rcases Nat.lt_trichotomy i j with h | h | h
    · exact absurd hno (hlt i j h hi hj)
    · exact h
    · exact absurd hno (hlt j i h hj hi)
  · intro hone i j hij hj
    refine .inl ?_
    by_contra hvalid
    obtain ⟨hne, hi, -, hiD, hjD⟩ := (hg.valid_iff i j).mp hvalid
    exact hne (hone i j ⟨hi, hiD⟩ ⟨hj, hjD⟩)

/-- **The first scan** finds the first pair of smallest weight. -/
theorem minPair_greedy (hg : g.Fresh) (hw : g.Weighs w) (hpair : (g.mask D D).minPair.2 ≠ 1000) :
    ∃ i j, (g.mask D D).minPair.1 = (i, j) ∧ Greedy (g.Left D) w [i, j] := by
  have hmem : ∀ q : Nat × Nat, q ∈ (pairs g.features).filter
      (fun q => (g.mask D D).adj q.1 q.2 ≠ dgInvalidEntry) ↔
      q.1 < q.2 ∧ g.Left D q.1 ∧ g.Left D q.2 := by
    rintro ⟨i, j⟩
    rw [List.mem_filter, mem_pairs, decide_eq_true_iff, hg.valid_iff]
    unfold Left
    constructor
    · rintro ⟨⟨hij, hj⟩, -, hi, -, hiD, hjD⟩
      exact ⟨hij, ⟨hi, hiD⟩, ⟨hj, hjD⟩⟩
    · rintro ⟨hij, ⟨hi, hiD⟩, ⟨hj, hjD⟩⟩
      exact ⟨⟨hij, hj⟩, Nat.ne_of_lt hij, hi, hj, hiD, hjD⟩
  rcases firstMin_firstMinimum (f := fun q : Nat × Nat => |(g.mask D D).adj q.1 q.2|) lex_asymm
      ((0, 0), (1000 : ℚ)) ((pairwise_pairs g.features).filter
        fun q => decide ((g.mask D D).adj q.1 q.2 ≠ dgInvalidEntry)) with
    ⟨hstay, -⟩ | ⟨⟨i, j⟩, heq, -, hfirst⟩
  · exact absurd (congrArg Prod.snd hstay) hpair
  · refine ⟨i, j, congrArg Prod.fst heq, .pair (hfirst.congr hmem ?_)⟩
    rintro q ⟨hlt, ⟨hi, hiD⟩, ⟨hj, hjD⟩⟩
    exact adj_mask hw hi hiD hj hjD (Nat.ne_of_lt hlt)

/-- The sum in `workmem` for a column that is left. -/
theorem workmem_eq (hg : g.Fresh) (hw : g.Weighs w) (hc : Chosen g D c) {t x : Nat} (ht : t ∈ c)
    (hx : g.Left D x) (hxc : x ∉ c) :
    (g.mask D (D ++ c)).workmem (ofList c) t x = total w c x := by
  have hxC : x ∉ D ++ c := by
    rw [List.mem_append, not_or]
    exact ⟨hx.2, hxc⟩
  have hvalid : (g.mask D (D ++ c)).adj t x ≠ dgInvalidEntry :=
    (hg.valid_iff t x).mpr ⟨fun h => hxc (h ▸ ht), hc.range t ht, hx.1, hc.fresh t ht, hxC⟩
  have hnum : (ofList c).num.toNat = c.length := Int.toNat_natCast _
  unfold workmem total
  rw [if_neg hvalid, hnum, foldl_ofList (fun sum k => sum + |(g.mask D (D ++ c)).adj k x|),
    List.sum_eq_foldl, List.foldl_map]
  apply List.foldl_ext
  intro sum k hk
  rw [adj_mask hw (hc.range k hk) (hc.fresh k hk) hx.1 hxC (fun h => hxc (h ▸ hk))]

/-- **The second scan** finds the first feature of smallest total weight, or every total is at the
sentinel. -/
theorem minCandidate_greedy (hg : g.Fresh) (hw : g.Weighs w) (hc : Chosen g D c) {t : Nat}
    {rest : List Nat} (hct : c = t :: rest) (last : Nat) :
    (((g.mask D (D ++ c)).minCandidate (ofList c) last).2 = dgInvalidEntry ∧
      ∀ x, g.Left D x → x ∉ c → 1000 ≤ total w c x) ∨
    ∃ x, ((g.mask D (D ++ c)).minCandidate (ofList c) last).1 = x ∧
      ((g.mask D (D ++ c)).minCandidate (ofList c) last).2 ≠ dgInvalidEntry ∧
      total w c x < 1000 ∧ FirstMinimum (· < ·) (fun y => g.Left D y ∧ y ∉ c) (total w c) x := by
  have ht : ((ofList c).vlist 0).toNat = t := by
    rw [hct, vlist_ofList List.getElem?_cons_zero]
    rfl
  have htc : t ∈ c := hct ▸ List.mem_cons_self
  have hsum : ∀ x, g.Left D x ∧ x ∉ c →
      (g.mask D (D ++ c)).workmem (ofList c) ((ofList c).vlist 0).toNat x = total w c x := by
    rintro x ⟨hx, hxc⟩
    rw [ht]
    exact workmem_eq hg hw hc htc hx hxc
  rcases firstMin_firstMinimum
      (f := (g.mask D (D ++ c)).workmem (ofList c) ((ofList c).vlist 0).toNat)
      (fun _ _ => Nat.lt_asymm) (last, (1000 : ℚ))
      (List.pairwise_lt_range (n := g.features)) with
    ⟨hstay, hall⟩ | ⟨x, heq, hlt, hfirst⟩
  · refine .inl ⟨congrArg Prod.snd hstay, fun x hx hxc => ?_⟩
    rw [← hsum x ⟨hx, hxc⟩]
    exact hall x (List.mem_range.mpr hx.1)
  · -- the scan ends with a feature that is left, since the other columns have 1000
    have hleft : ∀ y, (g.mask D (D ++ c)).workmem (ofList c) ((ofList c).vlist 0).toNat y < 1000 →
        g.Left D y ∧ y ∉ c := by
      intro y hy
      have hvalid : (g.mask D (D ++ c)).adj t y ≠ dgInvalidEntry := by
        intro hinv
        rw [workmem, ht, if_pos hinv] at hy
        exact lt_irrefl _ hy
      obtain ⟨-, -, hyf, -, hyC⟩ := (hg.valid_iff t y).mp hvalid
      rw [List.mem_append, not_or] at hyC
      exact ⟨⟨hyf, hyC.1⟩, hyC.2⟩
    have hx := hleft x hlt
    refine .inr ⟨x, congrArg Prod.fst heq, ?_, hsum x hx ▸ hlt, hx, ?_, ?_⟩
    · rw [show ((g.mask D (D ++ c)).minCandidate (ofList c) last).2 = _ from congrArg Prod.snd heq]
      exact ne_of_lt hlt
    · intro y hy
      rw [← hsum x hx, ← hsum y hy]
      exact hfirst.le y (List.mem_range.mpr hy.1.1)
    · intro y hy hyx
      rw [← hsum x hx, ← hsum y hy]
      exact hfirst.first y (List.mem_range.mpr hy.1.1) hyx

/-! ## The selection -/

/-- The chosen features in the loop of a call: a greedy selection, every step of it below the
sentinel. -/
structure Selecting (g : Dgraph) (D : List Nat) (w : Nat → Nat → ℚ) (g' : Dgraph) (c : List Nat) :
    Prop where
  choosing : Choosing g D g' c
  greedy : Greedy (g.Left D) w c
  below : ∀ l x r, c = l ++ x :: r → 2 ≤ l.length → total w l x < 1000

theorem kept_selecting (hg : g.Fresh) (hw : g.Weighs w) : Kept (Selecting g D w) := by
  rintro g' c last x ⟨hc, hgreedy, hbelow⟩ hx hsome
  have hc' := kept_choosing hg g' c last x hc hx hsome
  obtain ⟨rfl, ⟨t, rest, hct⟩, hchosen⟩ := hc
  rcases minCandidate_greedy hg hw hchosen hct last with ⟨hnone, -⟩ | ⟨y, hy, -, hlt, hfirst⟩
  · exact absurd hnone hsome
  · obtain rfl : y = x := hy.symm.trans hx
    refine ⟨hc', .snoc hgreedy hfirst, ?_⟩
    intro l z r heq hlen
    rcases concat_eq_append_cons heq with ⟨rfl, rfl⟩ | ⟨r', hl⟩
    · exact hlt
    · exact hbelow l z r' hl hlen

/-- What a call returns on the graph with `D` taken out: nothing when at most one feature is left,
else a greedy selection that has its size, or behind which every total is at the sentinel. -/
inductive Selected (g : Dgraph) (D : List Nat) (w : Nat → Nat → ℚ) (n : Nat) : List Nat → Int → Prop
  | none (hone : ∀ i j, g.Left D i → g.Left D j → i = j) : Selected g D w n [] (-1)
  | full {c : List Nat} (hc : Greedy (g.Left D) w c) (hlen : c.length = stopSize n) :
      Selected g D w n c 0
  | short {c : List Nat} (hc : Greedy (g.Left D) w c) (hlen : c.length < stopSize n)
      (hend : ∀ x, g.Left D x → x ∉ c → 1000 ≤ total w c x) : Selected g D w n c (-1)

/-- **What `findset` selects.** -/
theorem findset_select (hg : g.Fresh) (hw : g.Weighs w) {n : Nat} (hn : n ≤ maxVarList) :
    ∃ c flag, (g.mask D D).findset n = .ok (g.mask (D ++ c) (D ++ c), ofList c, flag) ∧
      Chosen g D c ∧ Selected g D w n c flag ∧
      ∀ l x r, c = l ++ x :: r → 2 ≤ l.length → total w l x < 1000 := by
  by_cases hnone : (g.mask D D).minPair.2 = 1000
  · refine ⟨[], -1, ?_, ⟨List.nodup_nil, ?_, ?_⟩,
      .none ((noPair_mask_iff hg).mp ((minPair_eq_iff _).mp hnone)), ?_⟩
    · rw [findset_of_none hn hnone, List.append_nil, ofList_nil]
    · exact fun x hx => absurd hx List.not_mem_nil
    · exact fun x hx => absurd hx List.not_mem_nil
    · intro l x r heq
      exact absurd heq (by simp)
  · obtain ⟨i, j, hpair, hgreedy⟩ := minPair_greedy hg hw hnone
    have hchosen : Chosen g D [i, j] := by
      rcases minPair_cases (D := D) hg with h | ⟨i', j', hpair', -, hij, hj, hi', hj'⟩
      · exact absurd h hnone
      · obtain ⟨rfl, rfl⟩ := Prod.mk.inj (hpair'.symm.trans hpair)
        exact chosen_pair hij hj hi' hj'
    have hI : Selecting g D w
        ((((g.mask D D).diminishgraphcol i).diminishgraphcol j).invalidate i j) [i, j] := by
      refine ⟨⟨mask_pair hg i j, ⟨i, [j], rfl⟩, hchosen⟩, hgreedy, ?_⟩
      intro l x r heq hlen
      have hlen' := congrArg List.length heq
      simp only [List.length_append, List.length_cons, List.length_nil] at hlen'
      omega
    obtain ⟨g', c, flag, hfind, ⟨⟨rfl, ⟨t, rest, hct⟩, hc⟩, hgreedy', hbelow⟩, -, hended⟩ :=
      findset_rule (kept_selecting hg hw) hn hpair hnone hI
    refine ⟨c, flag, ?_, hc, ?_, hbelow⟩
    · rw [hfind, diminishAll_mask hg]
    rcases hended with ⟨rfl, hlen⟩ | ⟨rfl, hlen, last, hlast⟩
    · exact .full hgreedy' hlen
    · refine .short hgreedy' hlen ?_
      rcases minCandidate_greedy hg hw hc hct last with ⟨-, hend⟩ | ⟨x, -, hsome, -⟩
      · exact hend
      · exact absurd hlast hsome

/-- A total is at most the number of its summands. -/
theorem total_le (hg : g.Fresh) (hw : g.Weighs w) (hc : ∀ k ∈ c, g.Left D k) {x : Nat}
    (hx : g.Left D x) (hxc : x ∉ c) : total w c x ≤ c.length := by
  unfold total
  induction c with
  | nil => exact le_rfl
  | cons k c ih =>
      have hkx : k ≠ x := fun h => hxc (h ▸ List.mem_cons_self)
      have hk := hg.weight_le hw (hc k List.mem_cons_self).1 hx.1 hkx
      have hrest := ih (fun y hy => hc y (List.mem_cons_of_mem k hy))
        (fun h => hxc (List.mem_cons_of_mem k h))
      rw [List.map_cons, List.sum_cons, List.length_cons, Nat.cast_add, Nat.cast_one, add_comm]
      exact add_le_add hrest hk

/-- Up to 999 chosen features, every total is below the sentinel. -/
theorem total_lt (hg : g.Fresh) (hw : g.Weighs w) (hc : Greedy (g.Left D) w c)
    (hlen : c.length < 1000) {x : Nat} (hx : g.Left D x) (hxc : x ∉ c) : total w c x < 1000 :=
  lt_of_le_of_lt (total_le hg hw hc.mem hx hxc) (by exact_mod_cast hlen)

/-! ## Depletion -/

/-- When a call that fails leaves none of the features with `p`: it is not the case that there is
exactly one of them, and no greedy selection that is smaller than asked for has a total at the
sentinel for all the features it leaves. -/
def Depletes (p : Nat → Prop) (w : Nat → Nat → ℚ) (n : Nat) : Prop :=
  (¬ ∃! x, p x) ∧ ∀ c, Greedy p w c → c.length < n → (∃ x, p x ∧ x ∉ c) →
    ∃ x, p x ∧ x ∉ c ∧ total w c x < 1000

/-- For sizes up to 1000 only the single feature matters. -/
theorem depletes_iff_of_le (hg : g.Fresh) (hw : g.Weighs w) {n : Nat} (hn : n ≤ 1000) :
    Depletes (g.Left D) w n ↔ ¬ ∃! x, g.Left D x := by
  refine ⟨fun h => h.1, fun h => ⟨h, ?_⟩⟩
  rintro c hc hlen ⟨x, hx, hxc⟩
  exact ⟨x, hx, hxc, total_lt hg hw hc (by omega) hx hxc⟩

/-- A call that fails leaves nothing, if it depletes. -/
theorem Selected.mem_of_depletes (hg : g.Fresh) (hw : g.Weighs w) {n : Nat}
    (hsel : Selected g D w n c (-1)) (hdep : Depletes (g.Left D) w n) {x : Nat}
    (hx : g.Left D x) : x ∈ c := by
  obtain ⟨hne, hgreedy⟩ := hdep
  generalize hflag : (-1 : Int) = flag at hsel
  cases hsel with
  | none hone => exact absurd ⟨x, hx, fun y hy => hone y x hy hx⟩ hne
  | full hc hlen => exact absurd hflag (by decide)
  | short hc hlen hend =>
      by_contra hxc
      by_cases hn : c.length < n
      · obtain ⟨y, hy, hyc, hlt⟩ := hgreedy c hc hn ⟨x, hx, hxc⟩
        exact absurd hlt (not_lt_of_ge (hend y hy hyc))
      · -- a set of two when one or two were asked for
        have hsmall : c.length < 1000 := by
          unfold stopSize at hlen
          split_ifs at hlen <;> omega
        exact absurd (total_lt hg hw hc hsmall hx hxc) (not_lt_of_ge (hend x hx hxc))

/-- A call that leaves nothing when it fails depletes: the call goes through every greedy selection
that is smaller than its own. -/
theorem Selected.depletes {n : Nat} {flag : Int} (hpos : 1 ≤ n) (hsel : Selected g D w n c flag)
    (hbelow : ∀ l x r, c = l ++ x :: r → 2 ≤ l.length → total w l x < 1000)
    (hall : flag = -1 → ∀ x, g.Left D x → x ∈ c) : Depletes (g.Left D) w n := by
  have hstop : n ≤ stopSize n := by
    unfold stopSize
    split_ifs <;> omega
  have hnext : ∀ d, Greedy (g.Left D) w c → Greedy (g.Left D) w d → d.length < c.length →
      ∃ x, g.Left D x ∧ x ∉ d ∧ total w d x < 1000 := by
    intro d hc hd hlt
    obtain ⟨x, r, heq⟩ := hd.exists_append_of_lt hc hlt
    have hx := (hc.of_append heq hd.two_le_length).2.mem
    exact ⟨x, hx.1, hx.2, hbelow d x r heq hd.two_le_length⟩
  have hmany : Greedy (g.Left D) w c → ¬ ∃! x, g.Left D x := by
    rintro hc ⟨x, -, huniq⟩
    obtain ⟨i, j, hij, hi, hj⟩ := hc.exists_lt
    exact absurd ((huniq i hi).trans (huniq j hj).symm) (Nat.ne_of_lt hij)
  cases hsel with
  | none hone =>
      have hnone : ∀ x, ¬ g.Left D x := fun x hx => List.not_mem_nil (hall rfl x hx)
      refine ⟨fun ⟨x, hx, _⟩ => hnone x hx, ?_⟩
      rintro d - - ⟨x, hx, -⟩
      exact absurd hx (hnone x)
  | full hc hlen => exact ⟨hmany hc, fun d hd hlt _ => hnext d hc hd (by omega)⟩
  | short hc hlen hend =>
      refine ⟨hmany hc, ?_⟩
      rintro d hd hlt ⟨x, hx, hxd⟩
      by_cases hdc : d.length < c.length
      · exact hnext d hc hd hdc
      · -- the call ended at a beginning of this selection, with nothing left
        exact absurd (hc.subset_of_le hd (by omega) (hall rfl x hx)) hxd

end

end Dgraph

/-! ## Over the calls on a graph -/

/-- The absolute correlation of two features. -/
def absCorr (corr : Nat → Nat → ℚ) (i j : Nat) : ℚ := |corr (min i j) (max i j)|

theorem weighs_getcorrinfo (features : Nat) (corr : Nat → Nat → ℚ) :
    ((Dgraph.initdgraph features).getcorrinfo corr).Weighs (absCorr corr) := by
  intro i j hi hj hne
  change i < features at hi
  change j < features at hj
  rw [Dgraph.adj_getcorrinfo]
  unfold absCorr
  rcases Nat.lt_or_gt_of_ne hne with hlt | hgt
  · rw [if_pos ⟨hlt, hj⟩, min_eq_left (Nat.le_of_lt hlt), max_eq_right (Nat.le_of_lt hlt)]
  · rw [if_neg (fun h => by omega), if_pos ⟨hgt, hi⟩, min_eq_right (Nat.le_of_lt hgt),
      max_eq_left (Nat.le_of_lt hgt)]

namespace DispatchSet

/-- The entries of a set as a list. -/
def entries (set : DispatchSet) : List Int := (List.range set.num.toNat).map set.vlist

theorem entries_ofList (c : List Nat) : (ofList c).entries = c.map Int.ofNat := by
  apply List.ext_getElem
  · simp [entries, ofList]
  · intro k hk hk'
    have hlt : k < c.length := by simpa using hk'
    simp [entries, ofList, List.getElem?_eq_getElem hlt]

theorem entries_ofList_inj {c d : List Nat} (h : (ofList c).entries = d.map Int.ofNat) : c = d := by
  rw [entries_ofList] at h
  exact List.map_injective_iff.mpr (fun _ _ => Int.ofNat.inj) h

theorem mem_entries {set : DispatchSet} {k : Nat} (hk : (k : Int) < set.num) :
    set.vlist k ∈ set.entries :=
  List.mem_map_of_mem (List.mem_range.mpr (by omega))

end DispatchSet

namespace Session

/-- The sessions that calls lead to from the graph that `getcorrinfo` makes. -/
def Reached (features : Nat) (corr : Nat → Nat → ℚ) (s : Session) : Prop :=
  ∃ calls, exec step ⟨(Dgraph.initdgraph features).getcorrinfo corr, []⟩ calls = some s

/-- The feature is in none of the sets returned since the last recovery. -/
def Undispatched (s : Session) (x : Nat) : Prop := x < s.graph.features ∧ ¬ s.Dispatched x

section

variable {g : Dgraph} {cs : List (List Nat)} {s s' : Session}

/-- A call that asks for too much does not return. -/
theorem le_of_step {n : Nat} (h : s.step (.findset n) = some s') : n ≤ maxVarList := by
  by_contra hn
  have hexit : s.graph.findset n = .error .exit := by
    unfold Dgraph.findset
    rw [if_pos (Nat.lt_of_not_le hn)]
    rfl
  simp only [step, hexit] at h
  cases h

theorem tracks_of_exec (hg : g.Fresh) {calls : List DgCall} (hs : Tracks g cs s)
    (hrun : exec step s calls = some s') : ∃ cs', Tracks g cs' s' := by
  induction calls generalizing cs s with
  | nil =>
      cases hrun
      exact ⟨cs, hs⟩
  | cons l calls ih =>
      obtain ⟨s1, hstep, hrest⟩ := exec_cons_eq_some.mp hrun
      obtain ⟨cs1, s1', hstep', hs1⟩ := hs.step hg (l := l) (by
        rintro n rfl
        exact le_of_step hstep)
      obtain rfl : s1' = s1 := Option.some.inj (hstep'.symm.trans hstep)
      exact ih hs1 hrest

theorem Tracks.undispatched_iff (hs : Tracks g cs s) :
    s.Undispatched = g.Left cs.flatten := by
  funext x
  unfold Undispatched Dgraph.Left
  rw [hs.dispatched_iff, hs.graph]
  rfl

/-- **`findset` is the greedy selection of the weakest correlations**: for every number of features,
all correlations of absolute value at most 1, every state that calls lead to and every size from 3
to 1000, if two features are left, the chosen ones are a greedy selection among the features that
are left, and it has that size and `0` is returned, or it is all of them and `-1` is returned. -/
theorem findset_greedy (features : Nat) (corr : Nat → Nat → ℚ)
    (hcorr : ∀ i j, i < j → j < features → |corr i j| ≤ 1) (s : Session)
    (hs : Reached features corr s) (n : Nat) (hlow : 3 ≤ n) (hhigh : n ≤ 1000)
    (htwo : ∃ i j, i ≠ j ∧ s.Undispatched i ∧ s.Undispatched j) :
    ∃ g' c flag, s.graph.findset n = .ok (g', ofList c, flag) ∧
      Greedy s.Undispatched (absCorr corr) c ∧
      ((flag = 0 ∧ c.length = n) ∨
        (flag = -1 ∧ c.length < n ∧ ∀ x, s.Undispatched x → x ∈ c)) := by
  have hg := Dgraph.fresh_getcorrinfo hcorr
  have hw := weighs_getcorrinfo features corr
  obtain ⟨calls, hrun⟩ := hs
  obtain ⟨cs, hs⟩ := tracks_of_exec hg (tracks_init _) hrun
  rw [hs.undispatched_iff] at htwo ⊢
  rw [hs.graph]
  obtain ⟨c, flag, hfind, -, hsel, -⟩ := Dgraph.findset_select (D := cs.flatten) hg hw
    (show n ≤ maxVarList from le_trans hhigh (by decide))
  have hstop : Dgraph.stopSize n = n := by
    unfold Dgraph.stopSize
    rw [if_neg (by omega), max_eq_left hlow]
  refine ⟨_, c, flag, hfind, ?_⟩
  cases hsel with
  | none hone =>
      obtain ⟨i, j, hne, hi, hj⟩ := htwo
      exact absurd (hone i j hi hj) hne
  | full hc hlen => exact ⟨hc, .inl ⟨rfl, hlen.trans hstop⟩⟩
  | short hc hlen hend =>
      rw [hstop] at hlen
      refine ⟨hc, .inr ⟨rfl, hlen, fun x hx => ?_⟩⟩
      by_contra hxc
      exact absurd (Dgraph.total_lt hg hw hc (by omega) hx hxc) (not_lt_of_ge (hend x hx hxc))

/-! ## Depletion -/

/-- What a call of `findset` leaves of a tracked session. -/
theorem Tracks.findset {w : Nat → Nat → ℚ} (hg : g.Fresh) (hw : g.Weighs w) (hs : Tracks g cs s)
    {n : Nat} (hn : n ≤ maxVarList) :
    ∃ c flag s', s.step (.findset n) = some s' ∧ s'.returned = s.returned ++ [(ofList c, flag)] ∧
      Tracks g (cs ++ [c]) s' ∧ Dgraph.Selected g cs.flatten w n c flag ∧
      ∀ l x r, c = l ++ x :: r → 2 ≤ l.length → total w l x < 1000 := by
  obtain ⟨c, flag, hfind, hc, hsel, hbelow⟩ := Dgraph.findset_select (D := cs.flatten) hg hw hn
  rw [← hs.graph] at hfind
  refine ⟨c, flag, _, ?_, rfl, hs.extend hc flag, hsel, hbelow⟩
  simp only [Session.step, hfind]

/-- All features are dispatched behind a call exactly when it chose all that were left. -/
theorem Tracks.dispatched_all_iff {c : List Nat} (hs : Tracks g (cs ++ [c]) s) :
    (∀ i, i < g.features → s.Dispatched i) ↔ ∀ x, g.Left cs.flatten x → x ∈ c := by
  have hmem : ∀ x, s.Dispatched x ↔ x ∈ cs.flatten ∨ x ∈ c := by
    intro x
    rw [hs.dispatched_iff, List.flatten_append, List.mem_append, List.flatten_cons, List.flatten_nil,
      List.append_nil]
  constructor
  · rintro hall x ⟨hx, hD⟩
    exact ((hmem x).mp (hall x hx)).resolve_left hD
  · intro hall x hx
    rw [hmem]
    by_cases hD : x ∈ cs.flatten
    · exact .inl hD
    · exact .inr (hall x ⟨hx, hD⟩)

/-- **One call**: it fails with nothing left exactly when it depletes. -/
theorem Tracks.depletes_iff {w : Nat → Nat → ℚ} (hg : g.Fresh) (hw : g.Weighs w)
    (hs : Tracks g cs s) {n : Nat} (hpos : 1 ≤ n) (hn : n ≤ maxVarList) :
    ∃ c flag s', s.step (.findset n) = some s' ∧ s'.returned = s.returned ++ [(ofList c, flag)] ∧
      Tracks g (cs ++ [c]) s' ∧ (flag = 0 ∧ 2 ≤ c.length ∨ flag = -1) ∧
      ((flag = -1 → ∀ i, i < g.features → s'.Dispatched i) ↔
        Dgraph.Depletes s.Undispatched w n) := by
  obtain ⟨c, flag, s', hstep, hret, hs', hsel, hbelow⟩ := hs.findset hg hw hn
  refine ⟨c, flag, s', hstep, hret, hs', ?_, ?_⟩
  · cases hsel with
    | none hone => exact .inr rfl
    | full hc hlen => exact .inl ⟨rfl, hc.two_le_length⟩
    | short hc hlen hend => exact .inr rfl
  · rw [hs.undispatched_iff, hs'.dispatched_all_iff]
    constructor
    · exact fun hall => hsel.depletes hpos hbelow hall
    · rintro hdep rfl x hx
      exact hsel.mem_of_depletes hg hw hdep hx

theorem Tracks.length_le (hs : Tracks g cs s) : cs.flatten.length ≤ g.features := by
  rw [← List.length_range (n := g.features)]
  exact List.Nodup.length_le_of_subset hs.distinct fun x hx => List.mem_range.mpr (hs.range x hx)

/-- **Repeated calls come to one that fails**, since the others dispatch two features at least. -/
theorem Tracks.exists_failing {w : Nat → Nat → ℚ} (hg : g.Fresh) (hw : g.Weighs w)
    (hs : Tracks g cs s) {ns : Nat → Nat} (hns : ∀ k, 1 ≤ ns k ∧ ns k ≤ maxVarList) :
    ∃ k cs1 s1 c s2, exec Session.step s ((List.range k).map fun i => DgCall.findset (ns i)) =
        some s1 ∧
      (∃ rs, s1.returned = s.returned ++ rs ∧ ∀ r ∈ rs, r.2 = 0) ∧ Tracks g cs1 s1 ∧
      s1.step (.findset (ns k)) = some s2 ∧ s2.returned = s1.returned ++ [(ofList c, -1)] ∧
      Tracks g (cs1 ++ [c]) s2 ∧ ((∀ i, i < g.features → s2.Dispatched i) ↔
        Dgraph.Depletes s1.Undispatched w (ns k)) := by
  induction hm : g.features - cs.flatten.length using Nat.strongRecOn generalizing cs s ns with
  | ind m ih =>
      obtain ⟨c, flag, s', hstep, hret, hs', hflag, hiff⟩ :=
        hs.depletes_iff hg hw (hns 0).1 (hns 0).2
      rcases hflag with ⟨rfl, htwo⟩ | rfl
      · have hlen : (cs ++ [c]).flatten.length = cs.flatten.length + c.length := by simp
        have hbound := hs'.length_le
        obtain ⟨k, cs1, s1, c1, s2, hrun, ⟨rs, hrs, hzero⟩, hs1, hlast⟩ :=
          ih (g.features - (cs ++ [c]).flatten.length) (by omega) hs'
            (fun k => hns (k + 1)) rfl
        refine ⟨k + 1, cs1, s1, c1, s2, ?_, ⟨(ofList c, 0) :: rs, ?_, ?_⟩, hs1, hlast⟩
        · rw [List.range_succ_eq_map, List.map_cons, List.map_map]
          exact exec_cons_eq_some.mpr ⟨s', hstep, hrun⟩
        · rw [hrs, hret, List.append_assoc, List.singleton_append]
        · intro r hr
          rcases List.mem_cons.mp hr with rfl | hr
          · rfl
          · exact hzero r hr
      · refine ⟨0, cs, s, c, s', rfl, ⟨[], ?_, ?_⟩, hs, hstep, hret, hs', ?_⟩
        · rw [List.append_nil]
        · exact fun r hr => absurd hr List.not_mem_nil
        · rw [← hiff]
          exact ⟨fun h _ => h, fun h => h rfl⟩

end

/-- **When `findset` reports depletion**: for every number of features, all correlations of absolute
value at most 1 and every state that calls lead to, a call returns, and it returns `-1` only behind
a call that leaves no feature undispatched if and only if it depletes; for sizes up to 1000 that
says that not exactly one feature is left before it. Repeated calls come to one that returns `-1`,
and then every feature has been dispatched exactly once if and only if that call depletes. -/
theorem findset_depleted_iff (features : Nat) (corr : Nat → Nat → ℚ)
    (hcorr : ∀ i j, i < j → j < features → |corr i j| ≤ 1) (s : Session)
    (hs : Reached features corr s) :
    (∀ n, 1 ≤ n → n ≤ maxVarList → ∃ set flag s', s.step (.findset n) = some s' ∧
      s'.returned = s.returned ++ [(set, flag)] ∧
      ((flag = -1 → ∀ i, i < features → s'.Dispatched i) ↔
        Dgraph.Depletes s.Undispatched (absCorr corr) n)) ∧
    (∀ n, n ≤ 1000 → (Dgraph.Depletes s.Undispatched (absCorr corr) n ↔
      ¬ ∃! x, s.Undispatched x)) ∧
    ∀ ns : Nat → Nat, (∀ k, 1 ≤ ns k ∧ ns k ≤ maxVarList) → ∃ k s1 set s2,
      exec step s ((List.range k).map fun i => .findset (ns i)) = some s1 ∧
      (∃ rs, s1.returned = s.returned ++ rs ∧ ∀ r ∈ rs, r.2 = 0) ∧
      s1.step (.findset (ns k)) = some s2 ∧ s2.returned = s1.returned ++ [(set, -1)] ∧ s2.Valid ∧
      ((∀ i, i < features → s2.Dispatched i) ↔
        Dgraph.Depletes s1.Undispatched (absCorr corr) (ns k)) := by
  have hg := Dgraph.fresh_getcorrinfo hcorr
  have hw := weighs_getcorrinfo features corr
  obtain ⟨calls, hrun⟩ := hs
  obtain ⟨cs, hs⟩ := tracks_of_exec hg (tracks_init _) hrun
  refine ⟨?_, ?_, ?_⟩
  · intro n hpos hn
    obtain ⟨c, flag, s', hstep, hret, -, -, hiff⟩ := hs.depletes_iff hg hw hpos hn
    exact ⟨ofList c, flag, s', hstep, hret, hiff⟩
  · intro n hn
    rw [hs.undispatched_iff]
    exact Dgraph.depletes_iff_of_le hg hw hn
  · intro ns hns
    obtain ⟨k, cs1, s1, c, s2, hcalls, hzero, -, hstep, hret, hs2, hiff⟩ :=
      hs.exists_failing hg hw hns
    exact ⟨k, s1, ofList c, s2, hcalls, hzero, hstep, hret, hs2.valid hg, hiff⟩

theorem reached_init (features : Nat) (corr : Nat → Nat → ℚ) :
    Reached features corr ⟨(Dgraph.initdgraph features).getcorrinfo corr, []⟩ := ⟨[], rfl⟩

theorem undispatched_init {features x : Nat} (corr : Nat → Nat → ℚ) (hx : x < features) :
    Undispatched ⟨(Dgraph.initdgraph features).getcorrinfo corr, []⟩ x :=
  ⟨hx, fun ⟨_, hp, _⟩ => List.not_mem_nil hp⟩

/-- Correlations that are all different; the features with the large numbers have the small ones. -/
def fiveCorr (i j : Nat) : ℚ := 1 - (i + 5 * j) / 40

theorem abs_fiveCorr_le (i j : Nat) (hij : i < j) (hj : j < 5) : |fiveCorr i j| ≤ 1 := by
  have hall : ∀ j < 5, ∀ i < j, |fiveCorr i j| ≤ 1 := by decide +kernel
  exact hall j hj i hij

/-- Five features before the first call. -/
def five : Session := ⟨(Dgraph.initdgraph 5).getcorrinfo fiveCorr, []⟩

/-- A set of three of five features: the pair with the smallest correlation, and the third one. -/
theorem findset_greedy_five :
    Reached 5 fiveCorr five ∧ ∃ g', five.graph.findset 3 = .ok (g', ofList [3, 4, 2], 0) ∧
      Greedy (Undispatched five) (absCorr fiveCorr) [3, 4, 2] := by
  obtain ⟨g', c, flag, hfind, hgreedy, -⟩ := findset_greedy 5 fiveCorr abs_fiveCorr_le five
    (reached_init 5 _) 3 (by decide) (by decide)
    ⟨0, 1, by decide, undispatched_init _ (by decide), undispatched_init _ (by decide)⟩
  have hvalue : (five.graph.findset 3).toOption.map (fun r => (r.2.1.entries, r.2.2)) =
      some ([3, 4, 2], 0) := by decide +kernel
  rw [hfind] at hvalue
  obtain ⟨hset, rfl⟩ : (ofList c).entries = [3, 4, 2] ∧ flag = 0 := by
    simpa [Except.toOption] using hvalue
  obtain rfl : c = [3, 4, 2] := entries_ofList_inj (d := [3, 4, 2]) hset
  exact ⟨reached_init 5 _, g', hfind, hgreedy⟩

/-- Two calls on five features: the first one leaves two, and the second one takes them and reports
that nothing is left. -/
theorem findset_depleted_five :
    ∃ s1 s2, exec step five [.findset 3] = some s1 ∧ Reached 5 fiveCorr s1 ∧
      s1.step (.findset 3) = some s2 ∧
      s2.returned.map (fun p => (p.1.entries, p.2)) = [([3, 4, 2], 0), ([0, 1], -1)] ∧
      ∀ i, i < 5 → s2.Dispatched i := by
  obtain ⟨s1, hrun, hfirst⟩ := exists_exec step five [.findset 3]
    (fun s => s.returned.map (fun p => (p.1.entries, p.2)) = [([3, 4, 2], 0)] ∧
      s.graph.features = 5) (by decide +kernel)
  obtain ⟨hreturned, hfeatures⟩ := of_decide_eq_true hfirst
  have hreached : Reached 5 fiveCorr s1 := ⟨_, hrun⟩
  obtain ⟨hcall, hdepletes, -⟩ := findset_depleted_iff 5 fiveCorr abs_fiveCorr_le s1 hreached
  obtain ⟨set, flag, s2, hstep, hret, hiff⟩ := hcall 3 (by decide) (by decide)
  have hlast : (exec step five [.findset 3, .findset 3]).map
      (fun s => s.returned.map fun p => (p.1.entries, p.2)) =
        some [([3, 4, 2], 0), ([0, 1], -1)] := by decide +kernel
  have hrun2 : exec step five [.findset 3, .findset 3] = some s2 :=
    exec_append_eq_some.mpr ⟨s1, hrun, exec_cons_eq_some.mpr ⟨s2, hstep, rfl⟩⟩
  rw [hrun2, Option.map_some, Option.some.injEq] at hlast
  refine ⟨s1, s2, hrun, hreached, hstep, hlast, ?_⟩
  have hflag : flag = -1 := by
    rw [hret, List.map_append, hreturned] at hlast
    have hpair : set.entries = [0, 1] ∧ flag = -1 := by simpa using List.append_cancel_left hlast
    exact hpair.2
  -- two features are left before the second call
  have hleft : ∀ x, x < 5 → x ∉ [3, 4, 2] → s1.Undispatched x := by
    intro x hx hmem
    refine ⟨hfeatures ▸ hx, ?_⟩
    rintro ⟨p, hp, k, hk, hkx⟩
    have hentry : (p.1.entries, p.2) ∈ [(([3, 4, 2] : List Int), (0 : Int))] := by
      rw [← hreturned]
      exact List.mem_map_of_mem hp
    rw [List.mem_singleton, Prod.mk.injEq] at hentry
    have hx3 : (x : Int) ∈ [3, 4, 2].map Int.ofNat := by
      show (x : Int) ∈ ([3, 4, 2] : List Int)
      rw [← hentry.1, ← hkx]
      exact mem_entries hk
    exact hmem ((List.mem_map_of_injective fun _ _ => Int.ofNat.inj).mp hx3)
  refine hiff.mpr ((hdepletes 3 (by decide)).mpr ?_) hflag
  rintro ⟨x, -, huniq⟩
  have h01 := (huniq 0 (hleft 0 (by decide) (by decide))).trans
    (huniq 1 (hleft 1 (by decide) (by decide))).symm
  exact absurd h01 (by decide)

/-- A single feature: the call reports depletion, and the feature has not been dispatched. -/
theorem findset_one_feature :
    ∃ s', step ⟨(Dgraph.initdgraph 1).getcorrinfo fun _ _ => 0, []⟩ (.findset 1) = some s' ∧
      s'.returned.map Prod.snd = [-1] ∧ ¬ ∀ i, i < 1 → s'.Dispatched i := by
  have hfind := Dgraph.findset_of_none (g := (Dgraph.initdgraph 1).getcorrinfo fun _ _ => 0)
    (n := 1) (by decide) rfl
  refine ⟨⟨(Dgraph.initdgraph 1).getcorrinfo fun _ _ => 0, [(DispatchSet.empty, -1)]⟩, ?_, rfl, ?_⟩
  · simp only [step, hfind, List.nil_append]
  · intro hall
    obtain ⟨p, hp, k, hk, -⟩ := hall 0 Nat.zero_lt_one
    rw [List.mem_singleton.mp hp] at hk
    exact absurd hk (Int.not_lt.mpr (Int.natCast_nonneg k))

end Session

end CommTest.Mpi
