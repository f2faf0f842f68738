import CommTest.Lib.Decimal
import CommTest.Lib.Rounding
import CommTest.Mpi.Dgraph
import CommTest.Mpi.GetInput
import Mathlib.Algebra.Order.BigOperators.Group.List

/-!
# Snapshots of the correlation graph

`snapshotdbgraph` writes the matrix of the correlation graph into a text file, twenty digits behind
the point, and `loadsnapshot` reads such a file into the graph and its copy. An entry is an exact
rational that binary64 has (`IsDouble`); the sign of a zero is not kept here.

* `printLf` is `%2.20lf` and `atof` the way back, to the nearest binary64 number.
* `loadsnapshot` with its loops `loadRows` and `loadCols`, and `SnapshotError`, the ways out of them.
* `Restores g g'`: the entries of `g'` are those of `g`, up to the last digit of the text for an entry
  that is small, and another snapshot of `g'` changes nothing any more.
* `loadsnapshot_snapshotdbgraph`: a snapshot loads if and only if every line of it fits into the
  buffer, and the graph is restored then. `fits_of_abs_le`: the lines fit for correlations and
  sentinels up to more than a million features.
* `loadsnapshot_getcorrinfo`: the graph that is loaded is the one that was computed, when no
  correlation is small.
-/

set_option linter.unusedSectionVars false

namespace CommTest.Mpi

open Decimal Rounding Text

/-! ## The program -/

/-- `DELIM`: space, newline, comma and braces. -/
def delim (c : UInt8) : Bool := c = 32 ∨ c = 10 ∨ c = 44 ∨ c = 123 ∨ c = 125

/-- `%2.20lf`. -/
def printLf (x : ℚ) : Bytes := fixedText 20 (x < 0) (roundEven (|x| * 10 ^ 20)).toNat

/-- `atof(ptr)`, for a number that does not overflow. -/
def atof (ptr : Bytes) : ℚ := toDouble (readDecimal ptr)

/-- What the calls of `strtok(buf, DELIM)` give until they give `NULL`. -/
def strtokDelim (buf : Bytes) : List Bytes := readAll (nextToken delim) (cstr buf).length (cstr buf)

/-- How loading a snapshot ends early: the file does not open, an entry is stored outside of the
matrix, and the two assertions that all columns and all rows were there. -/
inductive SnapshotError
  | fileOpen
  | overrun
  | cols
  | rows
  deriving DecidableEq

namespace Dgraph

/-- The line of a row, up to its newline. -/
def rowText (g : Dgraph) (row : Nat) : Bytes :=
  (List.range g.features).flatMap fun col => 32 :: (printLf (g.adj row col) ++ [32])

/-- What is written into the file. Source: `dgraph.cpp`, `snapshotdbgraph`. -/
def snapshotdbgraph (g : Dgraph) : Bytes :=
  (List.range g.features).flatMap fun row => g.rowText row ++ [10]

/-- The loop over the entries of a line: how many there are, and the row. Source: `dgraph.cpp`,
`loadsnapshot`. -/
def loadCols (features row : Nat) :
    Nat → List Bytes → (Nat → ℚ) → Except SnapshotError (Nat × (Nat → ℚ))
  | col, [], cells => .ok (col, cells)
  | col, ptr :: ptrs, cells =>
      if row < features ∧ col < features then
        loadCols features row (col + 1) ptrs (Function.update cells col (atof ptr))
      else .error .overrun

/-- The loop over the lines: how many there are, and the matrix. Source: `dgraph.cpp`,
`loadsnapshot`. -/
def loadRows (features : Nat) :
    Nat → List Bytes → (Nat → Nat → ℚ) → Except SnapshotError (Nat × (Nat → Nat → ℚ))
  | row, [], adj => .ok (row, adj)
  | row, buf :: bufs, adj =>
      match loadCols features row 0 (strtokDelim buf) (adj row) with
      | .error e => .error e
      | .ok (col, cells) =>
          if col = features then loadRows features (row + 1) bufs (Function.update adj row cells)
          else .error .cols

/-- `none` is a file that does not open. Source: `dgraph.cpp`, `loadsnapshot`. -/
def loadsnapshot (g : Dgraph) (file : Option Bytes) : Except SnapshotError Dgraph :=
  let adj : Nat → Nat → ℚ := fun i j =>
    if i < g.features ∧ j < g.features then dgInvalidEntry else g.adj i j
  match file with
  | none => .error .fileOpen
  | some text =>
      match loadRows g.features 0 (fgetsAll text) adj with
      | .error e => .error e
      | .ok (row, adj) =>
          if row = g.features then
            .ok { g with
              adj := adj
              adjcopy := fun i j =>
                if i < g.features ∧ j < g.features then adj i j else g.adjcopy i j }
          else .error .rows

/-! ## The law -/

/-- Every line of the snapshot fits into the buffer, with its newline and the null behind it. -/
def Fits (g : Dgraph) : Prop := ∀ row < g.features, (g.rowText row).length + 2 ≤ linemax

/-- The entries of two graphs of the same size are the same. -/
def SameEntries (g g' : Dgraph) : Prop :=
  g'.features = g.features ∧ ∀ i < g.features, ∀ j < g.features, g'.adj i j = g.adj i j

/-- What a snapshot keeps: an entry that is not small exactly, also a sentinel, and any other up to
the last digit of the text; the copy is the matrix, and what has been loaded once is kept exactly by
every snapshot after that. -/
structure Restores (g g' : Dgraph) : Prop where
  features : g'.features = g.features
  exact : ∀ i < g.features, ∀ j < g.features, g.adj i j = 0 ∨ 1 / 2 ^ 14 ≤ |g.adj i j| →
    g'.adj i j = g.adj i j
  near : ∀ i < g.features, ∀ j < g.features, |g'.adj i j - g.adj i j| ≤ 1 / 10 ^ 20
  sentinel : ∀ i < g.features, ∀ j < g.features,
    g'.adj i j = dgInvalidEntry ↔ g.adj i j = dgInvalidEntry
  copy : ∀ i < g.features, ∀ j < g.features, g'.adjcopy i j = g'.adj i j
  again : ∀ g₁ : Dgraph, g₁.features = g.features →
    ∃ g'', g₁.loadsnapshot (some g'.snapshotdbgraph) = .ok g'' ∧ SameEntries g' g''

end Dgraph

/-! ## One entry -/

/-- The last digit of an entry. -/
def lastDigit : ℚ := 1 / 10 ^ 20

theorem lastDigit_pos : 0 < lastDigit := by norm_num [lastDigit]

theorem lastDigit_lt : lastDigit < 2 ^ (-14 - 52 : ℤ) := by norm_num [lastDigit, zpow_neg]

theorem lt_lastDigit : 2 ^ (-14 - 53 : ℤ) < lastDigit := by norm_num [lastDigit, zpow_neg]

theorem grid_lastDigit : Grid lastDigit (2 ^ (-14 : ℤ)) := ⟨6103515625000000, by norm_num [lastDigit, zpow_neg]⟩

theorem readDecimal_printLf (x : ℚ) : readDecimal (printLf x) = toGrid lastDigit x := by
  have hnonneg : 0 ≤ roundEven (|x| * 10 ^ 20) := roundEven_nonneg (by positivity)
  have hcast : (((roundEven (|x| * 10 ^ 20)).toNat : ℕ) : ℚ) = roundEven (|x| * 10 ^ 20) := by
    exact_mod_cast Int.toNat_of_nonneg hnonneg
  have habs : toGrid lastDigit |x| = roundEven (|x| * 10 ^ 20) / 10 ^ 20 := by
    rw [toGrid, lastDigit, div_div_eq_mul_div, div_one, mul_one_div]
  rw [printLf, readDecimal_fixedText, hcast, ← habs]
  by_cases hx : x < 0
  · rw [decide_eq_true hx, if_pos rfl, abs_of_neg hx, toGrid_neg]
    ring
  · rw [decide_eq_false hx, if_neg Bool.false_ne_true, abs_of_nonneg (not_lt.mp hx), one_mul]

theorem atof_printLf (x : ℚ) : atof (printLf x) = toDouble (toGrid lastDigit x) := by
  rw [atof, readDecimal_printLf]

/-- An entry as a snapshot gives it back. -/
def restored (x : ℚ) : ℚ := toDouble (toGrid lastDigit x)

theorem abs_restored_sub_le {x : ℚ} (hx : IsDouble x) : |restored x - x| ≤ 1 / 10 ^ 20 :=
  abs_toDouble_toGrid_sub_le lastDigit_pos hx

/-- An entry that is not small is given back. -/
theorem restored_eq {x : ℚ} (hx : IsDouble x) (hlarge : x = 0 ∨ 1 / 2 ^ 14 ≤ |x|) :
    restored x = x := by
  rcases hlarge with rfl | hlarge
  · have hgrid : toGrid lastDigit 0 = 0 := toGrid_of_grid lastDigit_pos ⟨0, by simp⟩
    rw [restored, hgrid, toDouble_of_isDouble hx]
  · apply toDouble_toGrid lastDigit_pos lastDigit_lt grid_lastDigit hx
    norm_num [zpow_neg] at hlarge ⊢
    exact hlarge

/-- What has been given back once is given back. -/
theorem restored_restored (x : ℚ) : restored (restored x) = restored x :=
  toDouble_toGrid_toDouble lastDigit_pos (by norm_num) lastDigit_lt lt_lastDigit grid_lastDigit
    (grid_toGrid lastDigit x)

theorem restored_nonneg {x : ℚ} (hx : 0 ≤ x) : 0 ≤ restored x :=
  toGrid_nonneg (ulp_pos _) (toGrid_nonneg lastDigit_pos hx)

/-- A sentinel is given back, and nothing else becomes one. -/
theorem restored_eq_sentinel_iff {x : ℚ} (hx : IsDouble x) :
    restored x = dgInvalidEntry ↔ x = dgInvalidEntry := by
  have hlarge : ∀ y : ℚ, 1 ≤ y → 1 / 2 ^ 14 ≤ |y| := fun y hy =>
    le_trans (by norm_num) (hy.trans (le_abs_self y))
  constructor
  · intro h
    have hnear := abs_restored_sub_le hx
    rw [h, dgInvalidEntry, abs_le] at hnear
    have hone : (1 : ℚ) ≤ x := by
      have htiny : (1 : ℚ) / 10 ^ 20 ≤ 1 := by norm_num
      linarith [hnear.2]
    rw [← restored_eq hx (.inr (hlarge x hone)), h]
  · rintro rfl
    exact restored_eq hx (.inr (hlarge _ (by norm_num [dgInvalidEntry])))

/-! ## How long the text of an entry is -/

theorem natText_zero_length : (natText 0).length = 1 := rfl

theorem length_printLf (x : ℚ) : (printLf x).length =
    (if x < 0 then 1 else 0) + ((natText ((roundEven (|x| * 10 ^ 20)).toNat / 10 ^ 20)).length + 21) := by
  unfold printLf fixedText
  rw [List.length_append, List.length_append, List.length_cons, length_padText]
  by_cases hx : x < 0 <;> simp [hx]

/-- An entry below one has one digit before the point. -/
theorem length_printLf_of_lt {x : ℚ} (hx : |x| ≤ 1 / 2) :
    (printLf x).length = (if x < 0 then 1 else 0) + 22 := by
  have hround : ((roundEven (|x| * 10 ^ 20) : ℤ) : ℚ) < 10 ^ 20 := by
    have h := abs_sub_roundEven_le (|x| * 10 ^ 20)
    have hlt : |x| * 10 ^ 20 + 1 / 2 < 10 ^ 20 := by
      have : |x| * 10 ^ 20 ≤ 1 / 2 * 10 ^ 20 := mul_le_mul_of_nonneg_right hx (by positivity)
      norm_num at this ⊢
      linarith
    have hle := neg_le_of_abs_le h
    rw [neg_le_sub_iff_le_add, add_comm] at hle
    exact lt_of_le_of_lt (by rw [add_comm]; exact hle) hlt
  have hint : roundEven (|x| * 10 ^ 20) < 10 ^ 20 := by exact_mod_cast hround
  have hzero : (roundEven (|x| * 10 ^ 20)).toNat / 10 ^ 20 = 0 := Nat.div_eq_of_lt (by omega)
  rw [length_printLf, hzero, natText_zero_length]

/-- The text of an entry does not get longer. -/
theorem length_printLf_restored_le {x : ℚ} (hx : IsDouble x) :
    (printLf (restored x)).length ≤ (printLf x).length := by
  by_cases hlarge : 1 / 2 ^ 14 ≤ |x|
  · rw [restored_eq hx (.inr hlarge)]
  have hsmall : |x| ≤ 1 / 4 := (not_le.mp hlarge).le.trans (by norm_num)
  have hnear := abs_restored_sub_le hx
  have htri := abs_sub_abs_le_abs_sub (restored x) x
  have hsmall' : |restored x| ≤ 1 / 2 := by
    have htiny : (1 : ℚ) / 10 ^ 20 ≤ 1 / 4 := by norm_num
    linarith
  rw [length_printLf_of_lt hsmall', length_printLf_of_lt (hsmall.trans (by norm_num))]
  by_cases hneg : x < 0
  · rw [if_pos hneg]
    split_ifs <;> omega
  · rw [if_neg (not_lt.mpr (restored_nonneg (not_lt.mp hneg)))]
    omega

/-! ## The text of a snapshot -/

theorem of_mem_printLf {x : ℚ} {b : UInt8} (h : b ∈ printLf x) : delim b = false ∧ b ≠ 0 := by
  have hdigit : ∀ b, isDigit b = true → delim b = false ∧ b ≠ 0 := by
    intro b hb
    simp only [isDigit, decide_eq_true_eq, UInt8.le_iff_toNat_le] at hb
    have h48 : (48 : UInt8).toNat = 48 := rfl
    have h57 : (57 : UInt8).toNat = 57 := rfl
    constructor
    · simp only [delim, decide_eq_false_iff_not, ← UInt8.toNat_inj, not_or]
      refine ⟨?_, ?_, ?_, ?_, ?_⟩ <;> simp <;> omega
    · simp only [ne_eq, ← UInt8.toNat_inj]
      simp
      omega
  rcases mem_fixedText h with h | rfl | rfl
  · exact hdigit b h
  · decide
  · decide

namespace Dgraph

variable (g : Dgraph)

theorem of_mem_rowText {row : Nat} {b : UInt8} (h : b ∈ g.rowText row) : b ≠ 10 ∧ b ≠ 0 := by
  obtain ⟨col, -, hb⟩ := List.mem_flatMap.mp h
  rcases List.mem_cons.mp hb with rfl | hb
  · decide
  rcases List.mem_append.mp hb with hb | hb
  · obtain ⟨hdelim, hzero⟩ := of_mem_printLf hb
    refine ⟨?_, hzero⟩
    rintro rfl
    exact absurd hdelim (by decide)
  · rw [List.mem_singleton.mp hb]
    decide

theorem fileLines_snapshotdbgraph :
    fileLines g.snapshotdbgraph = (List.range g.features).map fun row => g.rowText row ++ [10] := by
  have hlines : ∀ rows : List Nat, lines 10 (rows.flatMap fun row => g.rowText row ++ [10]) =
      rows.map fun row => g.rowText row ++ [10] := by
    intro rows
    induction rows with
    | nil => rfl
    | cons row rows ih =>
        rw [List.flatMap_cons, List.append_assoc, List.singleton_append,
          lines_append fun h => (g.of_mem_rowText h).1 rfl, ih, List.map_cons]
  exact hlines _

/-- The tokens of a line are the texts of its entries. -/
theorem strtokDelim_rowText (row : Nat) :
    strtokDelim (g.rowText row ++ [10]) =
      (List.range g.features).map fun col => printLf (g.adj row col) := by
  have hcstr : cstr (g.rowText row ++ [10]) = g.rowText row ++ [10] := by
    apply List.takeWhile_eq_self_iff.mpr
    intro b hb
    rcases List.mem_append.mp hb with hb | hb
    · exact decide_eq_true (g.of_mem_rowText hb).2
    · rw [List.mem_singleton.mp hb]
      decide
  have htokens : ∀ cols : List Nat, tokens delim
      ((cols.flatMap fun col => 32 :: (printLf (g.adj row col) ++ [32])) ++ [10]) =
      cols.map fun col => printLf (g.adj row col) := by
    intro cols
    induction cols with
    | nil => rfl
    | cons col cols ih =>
        have hne : printLf (g.adj row col) ≠ [] := fixedText_ne_nil _ _ _
        rw [List.flatMap_cons, List.cons_append, List.cons_append, tokens_cons_sep (by decide),
          List.append_assoc, List.append_assoc, List.singleton_append,
          tokens_run hne (fun b hb => (of_mem_printLf hb).1) (.inr ⟨32, _, by decide, rfl⟩),
          List.drop_one, List.tail_cons, ih, List.map_cons]
  rw [strtokDelim, hcstr, readAll_nextToken, rowText, htokens]

/-! ## The loops -/

theorem loadCols_ok {features row col : Nat} {ptrs : List Bytes} (cells : Nat → ℚ)
    (hrow : row < features) (hcol : col + ptrs.length ≤ features) :
    ∃ cells', loadCols features row col ptrs cells = .ok (col + ptrs.length, cells') ∧
      (∀ k t, ptrs[k]? = some t → cells' (col + k) = atof t) ∧
      ∀ k, k < col ∨ features ≤ k → cells' k = cells k := by
  induction ptrs generalizing col cells with
  | nil => exact ⟨cells, rfl, fun k t ht => absurd ht (by simp), fun _ _ => rfl⟩
  | cons ptr ptrs ih =>
      rw [List.length_cons] at hcol
      obtain ⟨cells', hload, hcells, hothers⟩ :=
        @ih (col + 1) (Function.update cells col (atof ptr)) (by omega)
      refine ⟨cells', ?_, ?_, ?_⟩
      · rw [loadCols, if_pos ⟨hrow, by omega⟩, hload, List.length_cons, Nat.add_right_comm,
          Nat.add_assoc]
      · intro k t ht
        cases k with
        | zero =>
            rw [List.getElem?_cons_zero, Option.some.injEq] at ht
            rw [Nat.add_zero, hothers col (.inl (Nat.lt_succ_self col)), Function.update_self, ht]
        | succ k =>
            rw [show col + (k + 1) = col + 1 + k by omega]
            exact hcells k t ht
      · intro k hk
        rw [hothers k (by omega), Function.update_of_ne (by omega)]

theorem loadRows_ok {features row : Nat} {bufs : List Bytes} (adj : Nat → Nat → ℚ)
    (hrow : row + bufs.length ≤ features)
    (hcols : ∀ l ∈ bufs, (strtokDelim l).length = features) :
    ∃ adj', loadRows features row bufs adj = .ok (row + bufs.length, adj') ∧
      (∀ r l, bufs[r]? = some l → ∀ k t, (strtokDelim l)[k]? = some t →
        adj' (row + r) k = atof t) ∧
      ∀ r k, r < row ∨ features ≤ r ∨ features ≤ k → adj' r k = adj r k := by
  induction bufs generalizing row adj with
  | nil => exact ⟨adj, rfl, fun r l hl => absurd hl (by simp), fun _ _ _ => rfl⟩
  | cons buf bufs ih =>
      rw [List.length_cons] at hrow
      have hlen := hcols buf List.mem_cons_self
      obtain ⟨cells, hload, hcells, hbehind⟩ := @loadCols_ok features row 0 (strtokDelim buf) (adj row)
        (by omega) (by rw [Nat.zero_add, hlen])
      obtain ⟨adj', hrest, hrows, hothers⟩ := @ih (row + 1) (Function.update adj row cells)
        (by omega) fun l hl => hcols l (List.mem_cons_of_mem _ hl)
      refine ⟨adj', ?_, ?_, ?_⟩
      · rw [loadRows, hload, Nat.zero_add, hlen]
        simp only [if_true]
        rw [hrest, List.length_cons, Nat.add_right_comm, Nat.add_assoc]
      · intro r l hl k t ht
        cases r with
        | zero =>
            rw [List.getElem?_cons_zero, Option.some.injEq] at hl
            subst hl
            have hcell := hcells k t ht
            rw [Nat.zero_add] at hcell
            rw [Nat.add_zero, hothers row k (.inl (Nat.lt_succ_self row)), Function.update_self, hcell]
        | succ r =>
            rw [show row + (r + 1) = row + 1 + r by omega]
            exact hrows r l hl k t ht
      · intro r k hr
        rw [hothers r k (by omega)]
        by_cases hrow' : r = row
        · subst hrow'
          rw [Function.update_self, hbehind k (by omega)]
        · rw [Function.update_of_ne hrow']

/-- The lines are counted. -/
theorem of_loadRows {features row row' : Nat} {bufs : List Bytes} {adj adj' : Nat → Nat → ℚ}
    (h : loadRows features row bufs adj = .ok (row', adj')) : row' = row + bufs.length := by
  induction bufs generalizing row adj with
  | nil =>
      cases h
      rfl
  | cons buf bufs ih =>
      rw [loadRows] at h
      split at h
      · cases h
      · split_ifs at h
        rw [ih h, List.length_cons, Nat.add_right_comm, Nat.add_assoc]

/-! ## The snapshot is loaded -/

variable {g}

/-- The lines fit. -/
theorem fgetsAll_snapshotdbgraph (h : g.Fits) :
    fgetsAll g.snapshotdbgraph = (List.range g.features).map fun row => g.rowText row ++ [10] := by
  rw [fgetsAll_eq, fileLines_snapshotdbgraph]
  rw [fileLines_snapshotdbgraph]
  intro l hl
  obtain ⟨row, hrow, rfl⟩ := List.mem_map.mp hl
  have hlen := h row (List.mem_range.mp hrow)
  rw [List.length_append, List.length_singleton]
  omega

/-- A file with as many lines as features has no line that is cut. -/
theorem fits_of_length (h : (fgetsAll g.snapshotdbgraph).length = g.features) : g.Fits := by
  intro row hrow
  by_contra hlong
  have hmem : g.rowText row ++ [10] ∈ lines 10 g.snapshotdbgraph := by
    rw [← fileLines, fileLines_snapshotdbgraph]
    exact List.mem_map.mpr ⟨row, List.mem_range.mpr hrow, rfl⟩
  have hcut := (@length_lines_le _ _ 10 (linemax - 1) (by decide) _ g.snapshotdbgraph
    (Nat.le_refl _)).2
    ⟨_, hmem, by rw [List.length_append, List.length_singleton]; omega⟩
  have hlines : (lines 10 g.snapshotdbgraph).length = g.features := by
    rw [← fileLines, fileLines_snapshotdbgraph, List.length_map, List.length_range]
  rw [hlines] at hcut
  exact absurd h (Nat.ne_of_gt hcut)

/-- **What loading gives**: every entry as its text gives it back, and nothing else. -/
theorem loadsnapshot_of_fits {g₀ : Dgraph} (hf : g₀.features = g.features) (h : g.Fits) :
    ∃ g', g₀.loadsnapshot (some g.snapshotdbgraph) = .ok g' ∧ g'.features = g.features ∧
      ∀ i j, (i < g.features ∧ j < g.features →
          g'.adj i j = restored (g.adj i j) ∧ g'.adjcopy i j = restored (g.adj i j)) ∧
        (¬(i < g.features ∧ j < g.features) →
          g'.adj i j = g₀.adj i j ∧ g'.adjcopy i j = g₀.adjcopy i j) := by
  have hbufs := fgetsAll_snapshotdbgraph h
  have hlen : (fgetsAll g.snapshotdbgraph).length = g.features := by
    rw [hbufs, List.length_map, List.length_range]
  have hcols : ∀ l ∈ fgetsAll g.snapshotdbgraph, (strtokDelim l).length = g.features := by
    rw [hbufs]
    intro l hl
    obtain ⟨row, -, rfl⟩ := List.mem_map.mp hl
    rw [strtokDelim_rowText, List.length_map, List.length_range]
  obtain ⟨adj, hload, hentries, hothers⟩ := @loadRows_ok g.features 0 (fgetsAll g.snapshotdbgraph)
    (fun i j => if i < g.features ∧ j < g.features then dgInvalidEntry else g₀.adj i j)
    (by rw [hlen, Nat.zero_add]) hcols
  rw [Nat.zero_add, hlen] at hload
  refine ⟨{ g₀ with
      adj := adj
      adjcopy := fun i j => if i < g.features ∧ j < g.features then adj i j else g₀.adjcopy i j },
    ?_, hf, fun i j => ⟨?_, ?_⟩⟩
  · simp only [loadsnapshot, hf, hload, if_true]
  · rintro ⟨hi, hj⟩
    have hrow : (fgetsAll g.snapshotdbgraph)[i]? = some (g.rowText i ++ [10]) := by
      rw [hbufs, List.getElem?_map, List.getElem?_range hi, Option.map_some]
    have htok : (strtokDelim (g.rowText i ++ [10]))[j]? = some (printLf (g.adj i j)) := by
      rw [strtokDelim_rowText, List.getElem?_map, List.getElem?_range hj, Option.map_some]
    have hentry := hentries i _ hrow j _ htok
    rw [Nat.zero_add, atof_printLf] at hentry
    exact ⟨hentry, (if_pos ⟨hi, hj⟩).trans hentry⟩
  · intro hout
    have hadj := hothers i j (by omega)
    rw [if_neg hout] at hadj
    exact ⟨hadj, if_neg hout⟩

/-- What loads has as many lines as features. -/
theorem length_of_loadsnapshot {g₀ g' : Dgraph} {text : Bytes}
    (h : g₀.loadsnapshot (some text) = .ok g') : (fgetsAll text).length = g₀.features := by
  unfold loadsnapshot at h
  dsimp only at h
  split at h
  · cases h
  · rename_i row adj hload
    split_ifs at h with hrow
    rw [← hrow, of_loadRows hload, Nat.zero_add]

/-- A snapshot of what has been loaded fits. -/
theorem fits_of_restored {g' : Dgraph} (hf : g'.features = g.features)
    (hd : ∀ i < g.features, ∀ j < g.features, IsDouble (g.adj i j))
    (h : ∀ i < g.features, ∀ j < g.features, g'.adj i j = restored (g.adj i j)) (hg : g.Fits) :
    g'.Fits := by
  intro row hrow
  rw [hf] at hrow
  have hle : (g'.rowText row).length ≤ (g.rowText row).length := by
    rw [rowText, rowText, List.length_flatMap, List.length_flatMap, hf]
    apply List.sum_le_sum
    intro col hcol
    have hentry := length_printLf_restored_le (hd row hrow col (List.mem_range.mp hcol))
    rw [h row hrow col (List.mem_range.mp hcol), List.length_cons, List.length_cons,
      List.length_append, List.length_append]
    omega
  exact (Nat.add_le_add_right hle 2).trans (hg row hrow)

/-- **A snapshot loads if and only if every line of it fits into the buffer, and the graph is restored
then.** -/
theorem loadsnapshot_snapshotdbgraph (g g₀ : Dgraph) (hf : g₀.features = g.features)
    (hd : ∀ i < g.features, ∀ j < g.features, IsDouble (g.adj i j)) :
    ((∃ g', g₀.loadsnapshot (some g.snapshotdbgraph) = .ok g') ↔ g.Fits) ∧
      ∀ g', g₀.loadsnapshot (some g.snapshotdbgraph) = .ok g' → Restores g g' := by
  have hfits : ∀ g', g₀.loadsnapshot (some g.snapshotdbgraph) = .ok g' → g.Fits := fun g' h =>
    fits_of_length ((length_of_loadsnapshot h).trans hf)
  refine ⟨⟨fun ⟨g', h⟩ => hfits g' h, fun h => ?_⟩, ?_⟩
  · obtain ⟨g', hload, -⟩ := loadsnapshot_of_fits hf h
    exact ⟨g', hload⟩
  · intro g' hload
    have hg := hfits g' hload
    obtain ⟨g₁, hload₁, hfeatures, hentries⟩ := loadsnapshot_of_fits hf hg
    rw [hload] at hload₁
    cases hload₁
    have hadj : ∀ i < g.features, ∀ j < g.features, g'.adj i j = restored (g.adj i j) :=
      fun i hi j hj => ((hentries i j).1 ⟨hi, hj⟩).1
    constructor
    case features => exact hfeatures
    case copy =>
      intro i hi j hj
      obtain ⟨hentry, hcopy⟩ := (hentries i j).1 ⟨hi, hj⟩
      rw [hentry, hcopy]
    case exact =>
      intro i hi j hj hlarge
      rw [hadj i hi j hj, restored_eq (hd i hi j hj) hlarge]
    case near =>
      intro i hi j hj
      rw [hadj i hi j hj]
      exact abs_restored_sub_le (hd i hi j hj)
    case sentinel =>
      intro i hi j hj
      rw [hadj i hi j hj]
      exact restored_eq_sentinel_iff (hd i hi j hj)
    case again =>
      intro g₁ hf₁
      obtain ⟨g'', hload', hfeatures', hentries'⟩ := loadsnapshot_of_fits (g := g')
        (hf₁.trans hfeatures.symm) (fits_of_restored hfeatures hd hadj hg)
      refine ⟨g'', hload', hfeatures', fun i hi j hj => ?_⟩
      rw [((hentries' i j).1 ⟨hi, hj⟩).1]
      rw [hfeatures] at hi hj
      rw [hadj i hi j hj, restored_restored]

/-- Entries up to the sentinel have at most four digits before the point. -/
theorem length_printLf_le {x : ℚ} (hx : |x| ≤ dgInvalidEntry) : (printLf x).length ≤ 26 := by
  apply length_fixedText_le (n := 3)
  have hround : ((roundEven (|x| * 10 ^ 20) : ℤ) : ℚ) ≤ 2000 * 10 ^ 20 := by
    have hle := neg_le_of_abs_le (abs_sub_roundEven_le (|x| * 10 ^ 20))
    rw [neg_le_sub_iff_le_add, add_comm] at hle
    apply le_trans hle
    have hmul : |x| * 10 ^ 20 ≤ 1000 * 10 ^ 20 := mul_le_mul_of_nonneg_right hx (by positivity)
    norm_num at hmul ⊢
    linarith
  have hint : roundEven (|x| * 10 ^ 20) ≤ 2000 * 10 ^ 20 := by exact_mod_cast hround
  rw [Nat.div_lt_iff_lt_mul (by positivity)]
  omega

/-- The lines of a graph of correlations fit. -/
theorem fits_of_abs_le (h : ∀ i < g.features, ∀ j < g.features, |g.adj i j| ≤ dgInvalidEntry)
    (hn : 28 * g.features + 2 ≤ linemax) : g.Fits := by
  intro row hrow
  have hle : (g.rowText row).length ≤ ((List.range g.features).map fun _ => 28).sum := by
    rw [rowText, List.length_flatMap]
    apply List.sum_le_sum
    intro col hcol
    have hentry := length_printLf_le (h row hrow col (List.mem_range.mp hcol))
    rw [List.length_cons, List.length_append, List.length_singleton]
    omega
  rw [List.map_const', List.sum_replicate, List.length_range, Nat.nsmul_eq_mul] at hle
  omega

/-- The entries of a graph of correlations. -/
theorem getcorrinfo_adj_cases (features : Nat) (corr : Nat → Nat → ℚ) (i j : Nat) :
    ((initdgraph features).getcorrinfo corr).adj i j = dgInvalidEntry ∨
      ∃ k l, ((initdgraph features).getcorrinfo corr).adj i j = corr k l := by
  unfold getcorrinfo initdgraph
  dsimp only
  by_cases hbelow : j < i ∧ i < features
  · rw [if_pos hbelow, if_pos hbelow]
    exact .inr ⟨j, i, rfl⟩
  rw [if_neg hbelow]
  by_cases hdiag : i = j ∧ i < features - 1
  · exact .inl (if_pos hdiag)
  rw [if_neg hdiag]
  by_cases habove : i < j ∧ j < features
  · exact .inr ⟨i, j, if_pos habove⟩
  · exact .inl (if_neg habove)

theorem abs_getcorrinfo_le {features : Nat} {corr : Nat → Nat → ℚ} (hone : ∀ i j, |corr i j| ≤ 1)
    (i j : Nat) : |((initdgraph features).getcorrinfo corr).adj i j| ≤ dgInvalidEntry := by
  rcases getcorrinfo_adj_cases features corr i j with h | ⟨k, l, h⟩
  · rw [h]
    norm_num [dgInvalidEntry]
  · rw [h]
    exact (hone k l).trans (by norm_num [dgInvalidEntry])

theorem isDouble_getcorrinfo {features : Nat} {corr : Nat → Nat → ℚ} (hd : ∀ i j, IsDouble (corr i j))
    (i j : Nat) : IsDouble (((initdgraph features).getcorrinfo corr).adj i j) := by
  rcases getcorrinfo_adj_cases features corr i j with h | ⟨k, l, h⟩
  · rw [h]
    exact ⟨1000, 0, by norm_num, by norm_num, by norm_num [dgInvalidEntry]⟩
  · rw [h]
    exact hd k l

/-- **A scheduler that loads a snapshot goes on like one that computes the graph**, when no correlation
is small. -/
theorem loadsnapshot_getcorrinfo {features : Nat} {corr : Nat → Nat → ℚ}
    (hd : ∀ i j, IsDouble (corr i j)) (hone : ∀ i j, |corr i j| ≤ 1)
    (hlarge : ∀ i j, corr i j = 0 ∨ 1 / 2 ^ 14 ≤ |corr i j|) (hn : 28 * features + 2 ≤ linemax) :
    (initdgraph features).loadsnapshot
        (some ((initdgraph features).getcorrinfo corr).snapshotdbgraph) =
      .ok ((initdgraph features).getcorrinfo corr) := by
  obtain ⟨g', hload, hfeatures, hentries⟩ := @loadsnapshot_of_fits
    ((initdgraph features).getcorrinfo corr) (initdgraph features) rfl
    (fits_of_abs_le (fun i _ j _ => abs_getcorrinfo_le hone i j) hn)
  have hkept : ∀ i j, restored (((initdgraph features).getcorrinfo corr).adj i j) =
      ((initdgraph features).getcorrinfo corr).adj i j := by
    intro i j
    apply restored_eq (isDouble_getcorrinfo hd i j)
    rcases getcorrinfo_adj_cases features corr i j with h | ⟨k, l, h⟩
    · rw [h]
      exact .inr (by norm_num [dgInvalidEntry])
    · rw [h]
      exact hlarge k l
  have hcopy : ∀ i j, ((initdgraph features).getcorrinfo corr).adjcopy i j =
      if i < features ∧ j < features then ((initdgraph features).getcorrinfo corr).adj i j else 0 :=
    fun _ _ => rfl
  have hout : ∀ i j, ¬(i < features ∧ j < features) →
      ((initdgraph features).getcorrinfo corr).adj i j = dgInvalidEntry := by
    intro i j h
    unfold getcorrinfo initdgraph
    dsimp only
    rw [if_neg (by omega), if_neg (by omega), if_neg (by omega)]
  rw [hload]
  congr 1
  obtain ⟨n, adj, adjcopy⟩ := g'
  have hadj : adj = ((initdgraph features).getcorrinfo corr).adj := by
    funext i j
    by_cases hin : i < features ∧ j < features
    · exact ((hentries i j).1 hin).1.trans (hkept i j)
    · exact ((hentries i j).2 hin).1.trans (hout i j hin).symm
  have hadjcopy : adjcopy = ((initdgraph features).getcorrinfo corr).adjcopy := by
    funext i j
    rw [hcopy]
    by_cases hin : i < features ∧ j < features
    · rw [if_pos hin]
      exact ((hentries i j).1 hin).2.trans (hkept i j)
    · rw [if_neg hin]
      exact ((hentries i j).2 hin).2
  cases hfeatures
  rw [hadj, hadjcopy]
  rfl

/-- A pair with a small correlation, which is restored up to the last digit. -/
theorem loadsnapshot_snapshotdbgraph_pair :
    ∃ g', (initdgraph 2).loadsnapshot
        (some ((initdgraph 2).getcorrinfo fun _ _ => -3 / 2 ^ 20).snapshotdbgraph) = .ok g' ∧
      Restores ((initdgraph 2).getcorrinfo fun _ _ => -3 / 2 ^ 20) g' := by
  have hd : ∀ i < 2, ∀ j < 2,
      IsDouble (((initdgraph 2).getcorrinfo fun _ _ => -3 / 2 ^ 20).adj i j) := by
    have hcorr : IsDouble (-3 / 2 ^ 20) := ⟨-3, -20, by norm_num, by norm_num, by norm_num [zpow_neg]⟩
    exact fun i _ j _ => isDouble_getcorrinfo (fun _ _ => hcorr) i j
  have hfits : ((initdgraph 2).getcorrinfo fun _ _ => -3 / 2 ^ 20).Fits :=
    fits_of_abs_le (fun i _ j _ => abs_getcorrinfo_le (fun _ _ => by norm_num [abs_le]) i j) (by decide)
  obtain ⟨hiff, hrestores⟩ := loadsnapshot_snapshotdbgraph
    ((initdgraph 2).getcorrinfo fun _ _ => -3 / 2 ^ 20) (initdgraph 2) rfl hd
  obtain ⟨g', hload⟩ := hiff.mpr hfits
  exact ⟨g', hload, hrestores g' hload⟩

end Dgraph

end CommTest.Mpi
