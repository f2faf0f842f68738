import CommTest.Mpi.GetInput
import CommTest.Mpi.Standardize

/-!
# From the files to the columns

Before the threads start, `main` calls `getinput`, which loads the files and standardises them, and
`makecm`, which makes the copy of X by columns that the correlation graph is computed from.

* `loadRow_cells`, `loadX_cells`, `loadY_cells`: every cell after the loops of `getinput`, also those
  that no token was read for; `getinput_readable` puts them together as `rawProblem`.
* `makecm_eq`: the copy is the transpose, cell for cell.
* `loadProblem` is the whole phase and `prepared` what it should end in, in terms of the texts of the
  files alone. `loadProblem_spec` says when it ends in that, and in what else it ends otherwise.
-/

set_option linter.unusedSectionVars false

namespace CommTest.Mpi

open Moments

/-! ## Every cell of the loops -/

section

variable {V : Type} (lf : Bytes → Option V)

theorem loadRow_cells {features j : Nat} {toks : List Bytes} {row row' : Nat → V}
    (h : loadRow lf features j toks row = .ok row') (k : Nat) :
    row' k = if j ≤ k then (toks[k - j]?.bind lf).getD (row k) else row k := by
  induction toks generalizing j row with
  | nil =>
      cases h
      simp
  | cons tok toks ih =>
      rw [loadRow] at h
      split_ifs at h with hfull
      rw [ih h]
      by_cases hkj : k = j
      · subst hkj
        rw [if_neg (Nat.not_succ_le_self k), sscanf_self, if_pos (Nat.le_refl k), Nat.sub_self]
        rfl
      · rw [sscanf_of_ne lf tok row hkj]
        by_cases hlt : j < k
        · obtain ⟨d, rfl⟩ := Nat.exists_eq_add_of_lt hlt
          rw [if_pos (by omega), if_pos (by omega), show j + d + 1 - (j + 1) = d by omega,
            show j + d + 1 - j = d + 1 by omega, List.getElem?_cons_succ]
        · rw [if_neg (by omega), if_neg (by omega)]

theorem loadX_cells {samples : Int32} {features i : Nat} {ls : List Bytes} {X X' : Nat → Nat → V}
    (h : loadX lf samples features i ls X = .ok X') (r k : Nat) :
    X' r k = if i ≤ r then
      ((ls[r - i]?.bind fun l => (lineTokens l)[k]?).bind lf).getD (X r k) else X r k := by
  induction ls generalizing i X with
  | nil =>
      cases h
      simp
  | cons line ls ih =>
      rw [loadX] at h
      split_ifs at h with hfull
      rw [strtokAll_eq] at h
      cases hrow : loadRow lf features 0 (lineTokens line) (X i) with
      | error e =>
          rw [hrow] at h
          cases h
      | ok row =>
          rw [hrow] at h
          rw [ih h]
          by_cases hri : r = i
          · subst hri
            rw [if_neg (Nat.not_succ_le_self r), Function.update_self, loadRow_cells lf hrow,
              if_pos (Nat.zero_le k), if_pos (Nat.le_refl r), Nat.sub_self]
            rfl
          · rw [Function.update_of_ne hri]
            by_cases hlt : i < r
            · obtain ⟨d, rfl⟩ := Nat.exists_eq_add_of_lt hlt
              rw [if_pos (by omega), if_pos (by omega), show i + d + 1 - (i + 1) = d by omega,
                show i + d + 1 - i = d + 1 by omega, List.getElem?_cons_succ]
            · rw [if_neg (by omega), if_neg (by omega)]

theorem loadY_cells {n i : Nat} {ls : List Bytes} {Y Y' : Nat → V}
    (h : loadY lf n i ls Y = .ok Y') (k : Nat) :
    Y' k = if i ≤ k ∧ k < i + n then
      ((ls[k - i]?.bind fun l => (lineTokens l).head?).bind lf).getD (Y k) else Y k := by
  induction n generalizing i ls Y with
  | zero =>
      cases h
      rw [if_neg (by omega)]
  | succ n ih =>
      cases ls with
      | nil => cases h
      | cons line ls =>
          rw [loadY, strtokAll_eq] at h
          cases hline : lineTokens line with
          | nil =>
              rw [hline] at h
              cases h
          | cons tok toks =>
              rw [hline] at h
              rw [ih h]
              by_cases hki : k = i
              · subst hki
                rw [if_neg (by omega), sscanf_self, if_pos (by omega), Nat.sub_self,
                  List.getElem?_cons_zero, Option.bind_some, hline]
                rfl
              · rw [sscanf_of_ne lf tok Y hki]
                by_cases hin : i < k ∧ k < i + (n + 1)
                · obtain ⟨d, rfl⟩ := Nat.exists_eq_add_of_lt hin.1
                  rw [if_pos (by omega), if_pos (by omega), show i + d + 1 - (i + 1) = d by omega,
                    show i + d + 1 - i = d + 1 by omega, List.getElem?_cons_succ]
                · rw [if_neg (by omega), if_neg (by omega)]

end

/-! ## What is loaded -/

/-- The files can be read to the end: the X file is not rejected, and the Y file has a line that is
not blank for each line of the X file. -/
structure Readable (xtext ytext : Bytes) : Prop where
  x : ¬ XRejected xtext
  y : ∀ l ∈ (fileLines ytext).take (fileLines xtext).length, lineTokens l ≠ []
  long : (fileLines xtext).length ≤ (fileLines ytext).length

section

variable {V : Type} [Zero V] (lf : Bytes → Option V)

/-- The value of token `j` in line `i` of the X file; zero where there is no token, or one that is
not a number. -/
def xcell (xtext : Bytes) (i j : Nat) : V :=
  (((fileLines xtext)[i]?.bind fun l => (lineTokens l)[j]?).bind lf).getD 0

/-- The value of the first token in line `i` of the Y file, among the first `n` lines. -/
def ycell (n : Nat) (ytext : Bytes) (i : Nat) : V :=
  if i < n then (((fileLines ytext)[i]?.bind fun l => (lineTokens l).head?).bind lf).getD 0 else 0

/-- The matrix and the vector in the files. -/
def rawProblem (xtext ytext : Bytes) : Problem V where
  samples := Int32.ofNat (fileLines xtext).length
  features := firstCount xtext
  X := xcell lf xtext
  Y := ycell lf (fileLines xtext).length ytext

variable {xtext ytext : Bytes} (hx : ∀ l ∈ fileLines xtext, l.length < linemax)
  (hy : ∀ l ∈ fileLines ytext, l.length < linemax)

include hx hy

/-- **`getinput` loads what is in readable files**, with zeros for what is missing in a line. -/
theorem getinput_readable (h : Readable xtext ytext) :
    getinput lf (some xtext) (some ytext) = .ok (rawProblem lf xtext ytext) := by
  obtain ⟨hrows, hcount⟩ := not_or.mp h.x
  have hlt : (fileLines xtext).length < 2 ^ 31 := Nat.lt_of_not_le hcount
  have hfits : ((0 : Nat) : Int) + (fileLines xtext).length ≤
      (Int32.ofNat (fileLines xtext).length).toInt := by
    rw [Int32.toInt_ofNat_of_lt hlt]
    omega
  obtain ⟨X, hX, -, -⟩ := loadX_ok lf (fun _ _ => (0 : V)) hfits
    fun l hl => Nat.le_of_not_lt fun hlong => hrows ⟨l, hl, hlong⟩
  obtain ⟨Y, hY, -, -⟩ := loadY_ok lf (i := 0) (fun _ => (0 : V)) h.y h.long
  have hXcell : X = xcell lf xtext := by
    funext r k
    rw [loadX_cells lf hX, if_pos (Nat.zero_le r), Nat.sub_zero]
    rfl
  have hYcell : Y = ycell lf (fileLines xtext).length ytext := by
    funext k
    rw [loadY_cells lf hY, Nat.zero_add, Nat.sub_zero]
    simp only [Nat.zero_le, true_and]
    rfl
  rw [getinput_eq lf hx hy, hX, Int32.toNatClampNeg_ofNat_of_lt hlt]
  simp only [hY, hXcell, hYcell]
  rfl

/-- Files that cannot be read to the end stop `getinput`: with a null pointer for `sscanf` if the X
file is fine and a line of the Y file that is read is blank, and in a fatal exit otherwise. -/
theorem getinput_unreadable (h : ¬ Readable xtext ytext) :
    (¬ XRejected xtext ∧ (∃ l ∈ (fileLines ytext).take (fileLines xtext).length, lineTokens l = []) ∧
      getinput lf (some xtext) (some ytext) = .error .nullToken) ∨
    ((XRejected xtext ∨
        ∀ l ∈ (fileLines ytext).take (fileLines xtext).length, lineTokens l ≠ []) ∧
      ∃ f, getinput lf (some xtext) (some ytext) = .error (.fatal f)) := by
  by_cases hrej : XRejected xtext
  · exact .inr ⟨.inl hrej, getinput_rejected lf hx hy hrej⟩
  obtain ⟨X, -, -, heq⟩ := getinput_accepted lf hx hy hrej
  by_cases hblank : ∃ l ∈ (fileLines ytext).take (fileLines xtext).length, lineTokens l = []
  · refine .inl ⟨hrej, hblank, ?_⟩
    rw [heq, loadY_null lf _ hblank]
  · have hfull : ∀ l ∈ (fileLines ytext).take (fileLines xtext).length, lineTokens l ≠ [] :=
      fun l hl hnil => hblank ⟨l, hl, hnil⟩
    have hshort : (fileLines ytext).length < (fileLines xtext).length :=
      Nat.lt_of_not_le fun hlong => h ⟨hrej, hfull, hlong⟩
    refine .inr ⟨.inr hfull, .matrixY, ?_⟩
    rw [heq, loadY_short lf _ hfull hshort]

end

/-! ## The copy by columns -/

section

variable {V : Type}

/-- The loops of `makecm`, into cells from `calloc`. Source: `getinput.cpp`, `makecm`. -/
def makecm [Zero V] (samples features : Nat) (X : Nat → Nat → V) : Nat → Nat → V :=
  (List.range samples).foldl
    (fun cmX row => (List.range features).foldl
      (fun cmX col => Function.update cmX col (Function.update (cmX col) row (X row col))) cmX)
    fun _ _ => 0

/-- A loop that writes to row `i` in each round has changed the rows it has passed. -/
theorem foldl_update_row {α : Type} (f : Nat → α → α) (n : Nat) (M : Nat → α) :
    (List.range n).foldl (fun M i => Function.update M i (f i (M i))) M =
      fun i => if i < n then f i (M i) else M i := by
  induction n with
  | zero => simp
  | succ n ih =>
      rw [List.range_succ, List.foldl_append, ih, List.foldl_cons, List.foldl_nil]
      funext i
      by_cases hi : i = n
      · subst hi
        rw [Function.update_self, if_pos (Nat.lt_succ_self i)]
        exact congrArg (f i) (if_neg (Nat.lt_irrefl i))
      · rw [Function.update_of_ne hi]
        have hlt : i < n ↔ i < n + 1 := by omega
        simp only [hlt]

/-- **The copy is the transpose**, and nothing but zeros around it. -/
theorem makecm_eq [Zero V] (samples features : Nat) (X : Nat → Nat → V) :
    makecm samples features X =
      fun col row => if row < samples ∧ col < features then X row col else 0 := by
  induction samples with
  | zero => simp [makecm]
  | succ n ih =>
      have hsucc : makecm (n + 1) features X = (List.range features).foldl
          (fun cmX col => Function.update cmX col (Function.update (cmX col) n (X n col)))
          (makecm n features X) := by
        rw [makecm, List.range_succ, List.foldl_append]
        rfl
      rw [hsucc, foldl_update_row fun col (cells : Nat → V) => Function.update cells n (X n col), ih]
      funext col row
      by_cases hcol : col < features
      · rw [if_pos hcol]
        by_cases hrow : row = n
        · subst hrow
          rw [Function.update_self, if_pos ⟨Nat.lt_succ_self row, hcol⟩]
        · rw [Function.update_of_ne hrow]
          have hlt : row < n ↔ row < n + 1 := by omega
          simp only [hlt]
      · have hout : ∀ m, ¬ (row < m ∧ col < features) := fun m h => hcol h.2
        rw [if_neg hcol, if_neg (hout (n + 1))]
        exact if_neg (hout n)

end

/-! ## The whole phase -/

/-- How the phase ends early: while loading, or in `standardizeInput`. -/
inductive InputError
  | load (e : LoadError)
  | standardize (h : Halt)
  deriving DecidableEq

/-- The fields of `problem` after `makecm`. Source: `getinput.hpp`, `problem`. -/
structure ColumnProblem (V : Type) extends Problem V where
  cmX : Nat → Nat → V

/-- `getinput` with its call of `standardizeInput`, and `makecm`. Source: `dynamic.cpp`, `main`. -/
def loadProblem {K : Type} [DivisionRing K] [DecidableEq K] (lf : Bytes → Option K) (sqrt : K → K)
    (xfile yfile : Option Bytes) : Except InputError (ColumnProblem K) :=
  match getinput lf xfile yfile with
  | .error e => .error (.load e)
  | .ok p =>
      match standardizeInput sqrt p.X p.Y p.samples.toNatClampNeg p.features with
      | .error e => .error (.standardize e)
      | .ok (X, Y) =>
          .ok ⟨⟨p.samples, p.features, X, Y⟩, makecm p.samples.toNatClampNeg p.features X⟩

/-! ## The law -/

section

variable (n : Nat)

/-- A column with a constant value other than zero. -/
def BadColumn (v : Nat → ℝ) : Prop := Constant n v ∧ ∃ i < n, v i ≠ 0

theorem average_zero (v : Nat → ℝ) : average 0 v = .error .divZero := if_pos Nat.cast_zero

/-- **How `standardizeInput` ends**, for all sizes: at a bad column, at a division by zero if Y is
constant, or with every column worked on. -/
theorem standardizeInput_cases (p : Nat) (MX : Nat → Nat → ℝ) (MY : Nat → ℝ) :
    ((∃ i < p, BadColumn n fun j => MX j i) ∧
      standardizeInput Real.sqrt MX MY n p = .error .fatal) ∨
    ((¬ ∃ i < p, BadColumn n fun j => MX j i) ∧ Constant n MY ∧
      standardizeInput Real.sqrt MX MY n p = .error .divZero) ∨
    ((¬ ∃ i < p, BadColumn n fun j => MX j i) ∧ ¬ Constant n MY ∧
      ∃ MX', mapColumns (column Real.sqrt n) p MX = .ok MX' ∧
        standardizeInput Real.sqrt MX MY n p = .ok (MX', standardised n MY)) := by
  rcases Nat.eq_zero_or_pos n with rfl | hn
  · -- with no sample the first average is a division by zero
    refine .inr (.inl ⟨?_, fun i hi => absurd hi (Nat.not_lt_zero i), ?_⟩)
    · rintro ⟨i, -, -, j, hj, -⟩
      exact Nat.not_lt_zero j hj
    · have hcol : ∀ v : Nat → ℝ, column Real.sqrt 0 v = .error .divZero := by
        intro v
        rw [column, average_zero]
        rfl
      rcases Nat.eq_zero_or_pos p with rfl | hp
      · rw [standardizeInput, standardizeY, average_zero]
        rfl
      · rw [standardizeInput, mapColumns_error (fun i _ => .inr (hcol _)) ⟨0, hp, hcol _⟩]
        rfl
  by_cases hbad : ∃ i < p, BadColumn n fun j => MX j i
  · refine .inl ⟨hbad, ?_⟩
    rw [standardizeInput, standardizeX_fatal hn hbad]
    rfl
  obtain ⟨MX', hX⟩ := standardizeX_ok hn hbad
  rcases standardizeY_cases hn MY with ⟨hconst, hY⟩ | ⟨hconst, hY⟩
  · refine .inr (.inl ⟨hbad, hconst, ?_⟩)
    rw [standardizeInput, hX, hY]
    rfl
  · refine .inr (.inr ⟨hbad, hconst, MX', hX, ?_⟩)
    rw [standardizeInput, hX, hY]
    rfl

open Classical in
/-- A column as it should be: zero, or centred and scaled. -/
noncomputable def cleanColumn (v : Nat → ℝ) : Nat → ℝ :=
  if Constant n v then fun _ => 0 else standardised n v

variable {n}

/-- A column that is not bad comes out clean, if there is nothing behind its last row. -/
theorem column_clean (hn : 1 ≤ n) {v v' : Nat → ℝ} (hrest : ∀ i, n ≤ i → v i = 0)
    (h : column Real.sqrt n v = .ok v') : v' = cleanColumn n v := by
  rcases column_cases hn v with ⟨hzero, hcol⟩ | ⟨-, -, hcol⟩ | ⟨hconst, hcol⟩
  · rw [hcol] at h
    cases h
    have hv : v = fun _ => 0 := by
      funext i
      by_cases hi : i < n
      · exact hzero i hi
      · exact hrest i (Nat.le_of_not_lt hi)
    have hconst : Constant n v := by
      intro i hi j hj
      rw [hzero i hi, hzero j hj]
    rw [cleanColumn, if_pos hconst, hv]
  · rw [hcol] at h
    cases h
  · rw [hcol] at h
    cases h
    rw [cleanColumn, if_neg hconst]

end

section

variable (lf : Bytes → Option ℝ) (xtext ytext : Bytes)

/-- The files hold a problem: they are readable, no column of X is constant and not zero, and Y is
not constant. -/
structure Usable : Prop where
  readable : Readable xtext ytext
  columns : ¬ ∃ j < firstCount xtext, BadColumn (fileLines xtext).length fun i => xcell lf xtext i j
  y : ¬ Constant (fileLines xtext).length (ycell lf (fileLines xtext).length ytext)

/-- What the phase should end in: X and Y from the files with their columns made clean, and the copy
of X by columns. -/
noncomputable def prepared : ColumnProblem ℝ where
  samples := Int32.ofNat (fileLines xtext).length
  features := firstCount xtext
  X := fun i j => cleanColumn (fileLines xtext).length (fun i => xcell lf xtext i j) i
  Y := standardised (fileLines xtext).length (ycell lf (fileLines xtext).length ytext)
  cmX := fun j => cleanColumn (fileLines xtext).length fun i => xcell lf xtext i j

end

section

variable {lf : Bytes → Option ℝ} {xtext ytext : Bytes}

/-- There is nothing behind the last line. -/
theorem xcell_of_le {i : Nat} (hi : (fileLines xtext).length ≤ i) (j : Nat) :
    xcell lf xtext i j = 0 := by
  rw [xcell, List.getElem?_eq_none hi]
  rfl

/-- There is nothing behind the last feature, if no line is longer than the first one. -/
theorem xcell_of_features (h : ¬ XRejected xtext) {j : Nat} (hj : firstCount xtext ≤ j) (i : Nat) :
    xcell lf xtext i j = 0 := by
  rw [xcell]
  cases hline : (fileLines xtext)[i]? with
  | none => rfl
  | some l =>
      have hshort : (lineTokens l).length ≤ firstCount xtext :=
        Nat.le_of_not_lt fun hlt => h (.inl ⟨l, List.mem_of_getElem? hline, hlt⟩)
      rw [Option.bind_some, List.getElem?_eq_none (Nat.le_trans hshort hj)]
      rfl

theorem standardised_of_le {n : Nat} {v : Nat → ℝ} {i : Nat} (hi : n ≤ i) :
    standardised n v i = v i := if_neg (Nat.not_lt.mpr hi)

theorem cleanColumn_zero (n : Nat) : cleanColumn n (fun _ => 0) = fun _ => 0 :=
  if_pos fun _ _ _ _ => rfl

/-- A clean column is zero behind its last row. -/
theorem cleanColumn_of_le {n : Nat} {v : Nat → ℝ} (hrest : ∀ i, n ≤ i → v i = 0) {i : Nat}
    (hi : n ≤ i) : cleanColumn n v i = 0 := by
  unfold cleanColumn
  split_ifs
  · rfl
  · rw [standardised_of_le hi, hrest i hi]

/-- A clean column was zero and is zero, or has sum 0 and sum of squares 1. -/
theorem cleanColumn_normal {n : Nat} {v : Nat → ℝ} (hn : 1 ≤ n) (hgood : ¬ BadColumn n v) :
    (∀ i < n, v i = 0 ∧ cleanColumn n v i = 0) ∨
      ∑ i ∈ Finset.range n, cleanColumn n v i = 0 ∧
        ∑ i ∈ Finset.range n, cleanColumn n v i ^ 2 = 1 := by
  by_cases hconst : Constant n v
  · left
    intro i hi
    rw [cleanColumn, if_pos hconst]
    refine ⟨?_, rfl⟩
    by_contra hne
    exact hgood ⟨hconst, i, hi, hne⟩
  · rw [cleanColumn, if_neg hconst]
    exact .inr (standardised_normal hn v hconst)

/-- Without a sample Y would be constant. -/
theorem Usable.one_le (h : Usable lf xtext ytext) : 1 ≤ (fileLines xtext).length := by
  refine Nat.one_le_iff_ne_zero.mpr fun hzero => h.y ?_
  rw [hzero]
  exact fun i hi => absurd hi (Nat.not_lt_zero i)

/-- **What comes out of usable files.** -/
theorem standardizeInput_usable (h : Usable lf xtext ytext) :
    standardizeInput Real.sqrt (xcell lf xtext) (ycell lf (fileLines xtext).length ytext)
        (fileLines xtext).length (firstCount xtext) =
      .ok ((prepared lf xtext ytext).X, (prepared lf xtext ytext).Y) := by
  have hn := h.one_le
  rcases standardizeInput_cases (fileLines xtext).length (firstCount xtext) (xcell lf xtext)
    (ycell lf (fileLines xtext).length ytext) with ⟨hbad, -⟩ | ⟨-, hconst, -⟩ | ⟨-, -, X, hX, hrun⟩
  · exact absurd hbad h.columns
  · exact absurd hconst h.y
  · obtain ⟨hdone, hbehind⟩ := mapColumns_column hX
    have hclean : X = (prepared lf xtext ytext).X := by
      funext i j
      show X i j = cleanColumn (fileLines xtext).length (fun i => xcell lf xtext i j) i
      by_cases hj : j < firstCount xtext
      · exact congrFun (column_clean hn (fun i hi => xcell_of_le hi j) (hdone j hj)) i
      · have hzero : (fun i => xcell lf xtext i j) = fun _ => 0 :=
          funext (xcell_of_features h.readable.x (Nat.le_of_not_lt hj))
        rw [hbehind j (Nat.le_of_not_lt hj), hzero, cleanColumn_zero]
        exact congrFun hzero i
    rw [hrun, hclean]
    rfl

/-- The copy of the prepared X. -/
theorem makecm_prepared (h : ¬ XRejected xtext) :
    makecm (fileLines xtext).length (firstCount xtext) (prepared lf xtext ytext).X =
      (prepared lf xtext ytext).cmX := by
  rw [makecm_eq]
  funext j i
  show (if _ then cleanColumn _ (fun i => xcell lf xtext i j) i else 0) =
    cleanColumn _ (fun i => xcell lf xtext i j) i
  split_ifs with hin
  · rfl
  · rcases not_and_or.mp hin with hi | hj
    · exact (cleanColumn_of_le (fun i hi => xcell_of_le hi j) (Nat.le_of_not_lt hi)).symm
    · have hzero : (fun i => xcell lf xtext i j) = fun _ => 0 :=
        funext (xcell_of_features h (Nat.le_of_not_lt hj))
      rw [hzero, cleanColumn_zero]

end

section

variable (lf : Bytes → Option ℝ) {xtext ytext : Bytes}
  (hx : ∀ l ∈ fileLines xtext, l.length < linemax)
  (hy : ∀ l ∈ fileLines ytext, l.length < linemax)

include hx hy

/-- With readable files the phase ends as `standardizeInput` does. -/
theorem loadProblem_readable (h : Readable xtext ytext) :
    loadProblem lf Real.sqrt (some xtext) (some ytext) =
      match standardizeInput Real.sqrt (xcell lf xtext) (ycell lf (fileLines xtext).length ytext)
          (fileLines xtext).length (firstCount xtext) with
      | .error e => .error (.standardize e)
      | .ok (X, Y) =>
          .ok ⟨⟨Int32.ofNat (fileLines xtext).length, firstCount xtext, X, Y⟩,
            makecm (fileLines xtext).length (firstCount xtext) X⟩ := by
  have hlt : (fileLines xtext).length < 2 ^ 31 := Nat.lt_of_not_le fun hle => h.x (.inr hle)
  simp only [loadProblem, getinput_readable lf hx hy h, rawProblem,
    Int32.toNatClampNeg_ofNat_of_lt hlt]
  rcases standardizeInput Real.sqrt (xcell lf xtext) (ycell lf (fileLines xtext).length ytext)
    (fileLines xtext).length (firstCount xtext) with e | ⟨X, Y⟩
  · rfl
  · rfl

theorem loadProblem_usable (h : Usable lf xtext ytext) :
    loadProblem lf Real.sqrt (some xtext) (some ytext) = .ok (prepared lf xtext ytext) := by
  rw [loadProblem_readable lf hx hy h.readable, standardizeInput_usable h]
  simp only [makecm_prepared h.readable.x]
  rfl

/-- A blank line of the Y file gives `sscanf` a null pointer. -/
theorem loadProblem_blank (hrej : ¬ XRejected xtext)
    (hblank : ∃ l ∈ (fileLines ytext).take (fileLines xtext).length, lineTokens l = []) :
    loadProblem lf Real.sqrt (some xtext) (some ytext) = .error (.load .nullToken) := by
  obtain ⟨l, hl, hnil⟩ := hblank
  rcases getinput_unreadable lf hx hy fun h => h.y l hl hnil with ⟨-, -, hrun⟩ | ⟨hrej' | hfull, -⟩
  · rw [loadProblem, hrun]
  · exact absurd hrej' hrej
  · exact absurd hnil (hfull l hl)

theorem loadProblem_constant (h : Readable xtext ytext)
    (hgood : ¬ ∃ j < firstCount xtext,
      BadColumn (fileLines xtext).length fun i => xcell lf xtext i j)
    (hconst : Constant (fileLines xtext).length (ycell lf (fileLines xtext).length ytext)) :
    loadProblem lf Real.sqrt (some xtext) (some ytext) = .error (.standardize .divZero) := by
  rcases standardizeInput_cases (fileLines xtext).length (firstCount xtext) (xcell lf xtext)
    (ycell lf (fileLines xtext).length ytext) with ⟨hbad, -⟩ | ⟨-, -, hrun⟩ | ⟨-, hvar, -⟩
  · exact absurd hbad hgood
  · rw [loadProblem_readable lf hx hy h, hrun]
  · exact absurd hconst hvar

/-- **In every other case the phase ends in a fatal exit.** -/
theorem loadProblem_cases :
    Usable lf xtext ytext ∨
    (¬ XRejected xtext ∧ ∃ l ∈ (fileLines ytext).take (fileLines xtext).length, lineTokens l = []) ∨
    (Readable xtext ytext ∧
      (¬ ∃ j < firstCount xtext, BadColumn (fileLines xtext).length fun i => xcell lf xtext i j) ∧
      Constant (fileLines xtext).length (ycell lf (fileLines xtext).length ytext)) ∨
    (∃ f, loadProblem lf Real.sqrt (some xtext) (some ytext) = .error (.load (.fatal f))) ∨
    loadProblem lf Real.sqrt (some xtext) (some ytext) = .error (.standardize .fatal) := by
  by_cases hread : Readable xtext ytext
  · rcases standardizeInput_cases (fileLines xtext).length (firstCount xtext) (xcell lf xtext)
      (ycell lf (fileLines xtext).length ytext) with
        ⟨hbad, hrun⟩ | ⟨hgood, hconst, -⟩ | ⟨hgood, hvar, -⟩
    · refine .inr (.inr (.inr (.inr ?_)))
      rw [loadProblem_readable lf hx hy hread, hrun]
    · exact .inr (.inr (.inl ⟨hread, hgood, hconst⟩))
    · exact .inl ⟨hread, hgood, hvar⟩
  · rcases getinput_unreadable lf hx hy hread with ⟨hrej, hblank, -⟩ | ⟨-, f, hrun⟩
    · exact .inr (.inl ⟨hrej, hblank⟩)
    · refine .inr (.inr (.inr (.inl ⟨f, ?_⟩)))
      rw [loadProblem, hrun]

/-- **What `main` computes on, and when it gets there.** The phase ends with a problem if and only if
the files are usable, and then with the prepared one; in it every column of the copy is zero as it
was in the file, or has sum 0 and sum of squares 1; it reads through a null pointer exactly if the X
file is fine and a line of the Y file that is read is blank; and it divides by zero exactly if the
files are fine but for a constant Y. -/
theorem loadProblem_spec :
    (∀ p, loadProblem lf Real.sqrt (some xtext) (some ytext) = .ok p ↔
      Usable lf xtext ytext ∧ p = prepared lf xtext ytext) ∧
    (∀ p, loadProblem lf Real.sqrt (some xtext) (some ytext) = .ok p → ∀ j < p.features,
      (∀ i < (fileLines xtext).length, xcell lf xtext i j = 0 ∧ p.cmX j i = 0) ∨
      ∑ i ∈ Finset.range (fileLines xtext).length, p.cmX j i = 0 ∧
        ∑ i ∈ Finset.range (fileLines xtext).length, p.cmX j i ^ 2 = 1) ∧
    (loadProblem lf Real.sqrt (some xtext) (some ytext) = .error (.load .nullToken) ↔
      ¬ XRejected xtext ∧
        ∃ l ∈ (fileLines ytext).take (fileLines xtext).length, lineTokens l = []) ∧
    (loadProblem lf Real.sqrt (some xtext) (some ytext) = .error (.standardize .divZero) ↔
      Readable xtext ytext ∧
        (¬ ∃ j < firstCount xtext, BadColumn (fileLines xtext).length fun i => xcell lf xtext i j) ∧
        Constant (fileLines xtext).length (ycell lf (fileLines xtext).length ytext)) := by
  have husable := loadProblem_usable lf hx hy
  have hblank := loadProblem_blank lf hx hy
  have hconstant := loadProblem_constant lf hx hy
  have hok : ∀ p, loadProblem lf Real.sqrt (some xtext) (some ytext) = .ok p ↔
      Usable lf xtext ytext ∧ p = prepared lf xtext ytext := by
    intro p
    constructor
    · intro hrun
      rcases loadProblem_cases lf hx hy with h | ⟨hrej, hb⟩ | ⟨hr, hg, hc⟩ | ⟨f, hf⟩ | hf
      · rw [husable h] at hrun
        exact ⟨h, (Except.ok.inj hrun).symm⟩
      · rw [hblank hrej hb] at hrun
        cases hrun
      · rw [hconstant hr hg hc] at hrun
        cases hrun
      · rw [hf] at hrun
        cases hrun
      · rw [hf] at hrun
        cases hrun
    · rintro ⟨h, rfl⟩
      exact husable h
  refine ⟨hok, ?_, ⟨?_, fun h => hblank h.1 h.2⟩, ⟨?_, fun h => hconstant h.1 h.2.1 h.2.2⟩⟩
  · intro p hrun j hj
    obtain ⟨h, rfl⟩ := (hok p).mp hrun
    have hn : 1 ≤ (fileLines xtext).length := h.one_le
    exact cleanColumn_normal hn fun hbad => h.columns ⟨j, hj, hbad⟩
  · intro hrun
    rcases loadProblem_cases lf hx hy with h | hb | ⟨hr, hg, hc⟩ | ⟨f, hf⟩ | hf
    · rw [husable h] at hrun
      cases hrun
    · exact hb
    · rw [hconstant hr hg hc] at hrun
      cases hrun
    · rw [hf] at hrun
      cases hrun
    · rw [hf] at hrun
      cases hrun
  · intro hrun
    rcases loadProblem_cases lf hx hy with h | ⟨hrej, hb⟩ | hd | ⟨f, hf⟩ | hf
    · rw [husable h] at hrun
      cases hrun
    · rw [hblank hrej hb] at hrun
      cases hrun
    · exact hd
    · rw [hf] at hrun
      cases hrun
    · rw [hf] at hrun
      cases hrun

end

/-- What `%lf` reads from a token of digits, as a real number. -/
noncomputable def realDigits (tok : Bytes) : Option ℝ := (digits tok).map fun n => (n : ℝ)

/-- One feature, `1` and `3`, and the Y file `5`, `6`: the one column is normalised. -/
theorem loadProblem_spec_pair :
    ∃ p, loadProblem realDigits Real.sqrt (some [49, 10, 51, 10]) (some [53, 10, 54, 10]) = .ok p ∧
      ∑ i ∈ Finset.range 2, p.cmX 0 i = 0 ∧ ∑ i ∈ Finset.range 2, p.cmX 0 i ^ 2 = 1 := by
  have hx : ∀ l ∈ fileLines [49, 10, 51, 10], l.length < linemax := by decide
  have hy : ∀ l ∈ fileLines [53, 10, 54, 10], l.length < linemax := by decide
  obtain ⟨hok, hcolumns, -, -⟩ := loadProblem_spec realDigits hx hy
  have husable : Usable realDigits [49, 10, 51, 10] [53, 10, 54, 10] := by
    refine ⟨⟨not_or.mpr ⟨by decide, by decide⟩, by decide, by decide⟩, ?_, ?_⟩
    · rintro ⟨j, hj, hconst, -⟩
      obtain rfl : j = 0 := Nat.lt_one_iff.mp hj
      have h : ((1 : ℕ) : ℝ) = ((3 : ℕ) : ℝ) := hconst 0 (by decide) 1 (by decide)
      norm_num at h
    · intro hconst
      have h : ((5 : ℕ) : ℝ) = ((6 : ℕ) : ℝ) := hconst 0 (by decide) 1 (by decide)
      norm_num at h
  have hrun := (hok _).mpr ⟨husable, rfl⟩
  refine ⟨_, hrun, ?_⟩
  rcases hcolumns _ hrun 0 (by decide) with hzero | hnormal
  · have h : ((1 : ℕ) : ℝ) = 0 := (hzero 0 (by decide)).1
    norm_num at h
  · exact hnormal

end CommTest.Mpi
