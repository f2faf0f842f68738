import CommTest.Lib.Text
import Mathlib.Algebra.Order.Ring.Nat
import Mathlib.Logic.Function.Basic

/-!
# Loading the input of the MPI program

`getinput` counts the samples and the features of the X file in one pass (`featurecount`), allocates
a matrix of zeros of that shape and fills it in a second pass; then it takes one value from each of
the first lines of the Y file.

* `fgets` and `strtok` are the C functions on a list of bytes; the loops of the source run over what
  they give, line by line (`fgetsAll`) and token by token (`strtokAll`). `%lf` is a parameter
  `lf : Bytes → Option V`: the value that `sscanf` converts a token to, or `none` when it converts
  nothing and leaves the cell as it was. Nothing depends on which numbers `V` these are.
* `loadRow`, `loadX`, `loadY` are the loops of `getinput`, and `LoadError` the ways out of them: the
  fatal exits, and the null pointer that `strtok` gives `sscanf` for a blank line of the Y file.
* `Loads` says that what was loaded is the matrix in the files.
* `loadX_ok`, `loadX_error` and `loadY_null`, `loadY_short`, `loadY_ok`: what the loops do, on every
  list of lines.
* `loadsExactly_iff`: `getinput` rejects the files or loads exactly what is in them if and only if
  they are `Sound`.
-/

set_option linter.unusedSectionVars false

namespace CommTest.Mpi

open Text

/-- The bytes of a file or of a string. -/
abbrev Bytes := List UInt8

/-! ## The C library -/

/-- `LINEMAX`, `2000000*20`. -/
def linemax : Nat := 40000000

/-- `DELIM2`: space, tab, newline and comma. -/
def delim2 (c : UInt8) : Bool := c = 32 ∨ c = 9 ∨ c = 10 ∨ c = 44

/-- `fgets(buf, size, stream)`: the next line, with its newline, or its first `size - 1` bytes. -/
def fgets (size : Nat) (stream : Bytes) : Option (Bytes × Bytes) := nextLine 10 (size - 1) stream

/-- What the calls of `fgets` on a file give until they give `NULL`. -/
def fgetsAll (file : Bytes) : List Bytes := readAll (fgets linemax) file.length file

/-- The string in a buffer, up to its first null. -/
def cstr (buf : Bytes) : Bytes := buf.takeWhile (· ≠ 0)

/-- `strtok(buf, DELIM2)` on a string, with what later calls go on with. -/
def strtok (s : Bytes) : Option (Bytes × Bytes) := nextToken delim2 s

/-- What the calls of `strtok` on a buffer give until they give `NULL`. -/
def strtokAll (buf : Bytes) : List Bytes := readAll strtok (cstr buf).length (cstr buf)

/-! ## The program -/

/-- The fatal exits: "feature count error", "files open failed", "input x has more samples", "input
x has more features", "Input Matrix Y is not open". -/
inductive Fatal
  | featureCount
  | filesOpen
  | moreSamples
  | moreFeatures
  | matrixY
  deriving DecidableEq

/-- How loading ends early: in a fatal exit, or with a null pointer as the string of `sscanf`. -/
inductive LoadError
  | fatal (f : Fatal)
  | nullToken
  deriving DecidableEq

/-- The fields of `problem` that `getinput` sets. Source: `getinput.hpp`, `problem`. -/
structure Problem (V : Type) where
  samples : Int32
  features : Nat
  X : Nat → Nat → V
  Y : Nat → V

/-- The number of lines, counted in an `int`, and of tokens in the first one. Source:
`getinput.cpp`, `featurecount`. -/
def featurecount (file : Option Bytes) : Except LoadError (Int32 × Nat) :=
  match file with
  | none => .error (.fatal .featureCount)
  | some text =>
      let read := fgetsAll text
      -- a file without a line leaves the zeroed buffer, which has no token
      .ok (read.foldl (fun scnt _ => scnt + 1) 0, (strtokAll (read.head?.getD [])).length)

variable {V : Type} (lf : Bytes → Option V)

/-- `sscanf(tok, "%lf", &cells[j])`. -/
def sscanf (tok : Bytes) (cells : Nat → V) (j : Nat) : Nat → V :=
  match lf tok with
  | some v => Function.update cells j v
  | none => cells

/-- The loop over the tokens of a line, from column `j` on. Source: `getinput.cpp`, `getinput`. -/
def loadRow (features : Nat) : Nat → List Bytes → (Nat → V) → Except LoadError (Nat → V)
  | _, [], row => .ok row
  | j, tok :: toks, row =>
      if features ≤ j then .error (.fatal .moreFeatures)
      else loadRow features (j + 1) toks (sscanf lf tok row j)

/-- The loop over the lines of the X file, from row `i` on. Source: `getinput.cpp`, `getinput`. -/
def loadX (samples : Int32) (features : Nat) :
    Nat → List Bytes → (Nat → Nat → V) → Except LoadError (Nat → Nat → V)
  | _, [], X => .ok X
  | i, line :: lines, X =>
      if samples.toInt ≤ i then .error (.fatal .moreSamples)
      else
        match loadRow lf features 0 (strtokAll line) (X i) with
        | .ok row => loadX samples features (i + 1) lines (Function.update X i row)
        | .error e => .error e

/-- The loop over the samples of the Y file, with `n` still to come and the next one `i`. Source:
`getinput.cpp`, `getinput`. -/
def loadY : Nat → Nat → List Bytes → (Nat → V) → Except LoadError (Nat → V)
  | 0, _, _, Y => .ok Y
  | _ + 1, _, [], _ => .error (.fatal .matrixY)
  | n + 1, i, line :: lines, Y =>
      match strtokAll line with
      | [] => .error .nullToken
      | tok :: _ => loadY n (i + 1) lines (sscanf lf tok Y i)

/-- Loading, up to the call of `standardizeInput`; `none` is a file that does not open. The cells
come from `calloc`. Source: `getinput.cpp`, `getinput`. -/
def getinput [Zero V] (xfile yfile : Option Bytes) : Except LoadError (Problem V) :=
  match xfile, yfile with
  | some xtext, some ytext =>
      match featurecount xfile with
      | .error e => .error e
      | .ok (samples, features) =>
          match loadX lf samples features 0 (fgetsAll xtext) (fun _ _ => 0) with
          | .error e => .error e
          | .ok X =>
              match loadY lf samples.toNatClampNeg 0 (fgetsAll ytext) (fun _ => 0) with
              | .error e => .error e
              | .ok Y => .ok ⟨samples, features, X, Y⟩
  | _, _ => .error (.fatal .filesOpen)

/-! ## The law -/

/-- The lines of a file, each with its newline. -/
def fileLines (text : Bytes) : List Bytes := lines 10 text

/-- The tokens of a line, separated by `DELIM2`. -/
def lineTokens (line : Bytes) : List Bytes := tokens delim2 (cstr line)

/-- What was loaded is the matrix in the files: one sample for each line of the X file, as many
tokens in each as there are features and at least one, and every cell the value of its token; one
value for each sample from the first token of its line in the Y file. -/
structure Loads (xtext ytext : Bytes) (p : Problem V) : Prop where
  samples : p.samples.toInt = (fileLines xtext).length
  features : ∀ l ∈ fileLines xtext, (lineTokens l).length = p.features
  nonblank : ∀ l ∈ fileLines xtext, lineTokens l ≠ []
  x : ∀ i l, (fileLines xtext)[i]? = some l → ∀ j t, (lineTokens l)[j]? = some t →
    lf t = some (p.X i j)
  y : ∀ i < (fileLines xtext).length, ∃ l t, (fileLines ytext)[i]? = some l ∧
    (lineTokens l).head? = some t ∧ lf t = some (p.Y i)

/-- The files are rejected, or loaded exactly; `sscanf` gets no null pointer. -/
def LoadsExactly (xtext ytext : Bytes) : Except LoadError (Problem V) → Prop
  | .ok p => Loads lf xtext ytext p
  | .error (.fatal _) => True
  | .error .nullToken => False

/-- The number of tokens in the first line of the X file. -/
def firstCount (xtext : Bytes) : Nat := (lineTokens ((fileLines xtext).head?.getD [])).length

/-- The X files that are rejected: some line has more tokens than the first one, or the lines do not
fit into an `int`. -/
def XRejected (xtext : Bytes) : Prop :=
  (∃ l ∈ fileLines xtext, firstCount xtext < (lineTokens l).length) ∨
    2 ^ 31 ≤ (fileLines xtext).length

/-- The files are complete: all the lines of the X file have as many tokens as the first one, at
least one, and all that is read is a number. -/
structure Complete (xtext ytext : Bytes) : Prop where
  rows : ∀ l ∈ fileLines xtext, (lineTokens l).length = firstCount xtext
  nonblank : ∀ l ∈ fileLines xtext, lineTokens l ≠ []
  xvalues : ∀ l ∈ fileLines xtext, ∀ t ∈ lineTokens l, (lf t).isSome
  yvalues : ∀ l ∈ (fileLines ytext).take (fileLines xtext).length, ∀ t ∈ (lineTokens l).head?,
    (lf t).isSome

/-- The files that `getinput` treats as it should: the X file is rejected; or no line of the Y file
that is read is blank, and there are too few of them or the files are complete. -/
def Sound (xtext ytext : Bytes) : Prop :=
  XRejected xtext ∨
    (∀ l ∈ (fileLines ytext).take (fileLines xtext).length, lineTokens l ≠ []) ∧
      ((fileLines ytext).length < (fileLines xtext).length ∨ Complete lf xtext ytext)

/-! ## The C library gives lines and tokens -/

theorem fgetsAll_eq {text : Bytes} (h : ∀ l ∈ fileLines text, l.length < linemax) :
    fgetsAll text = fileLines text :=
  readAll_nextLine fun l hl => Nat.le_sub_one_of_lt (h l hl)

theorem strtokAll_eq (buf : Bytes) : strtokAll buf = lineTokens buf := readAll_nextToken _

theorem foldl_count (ls : List Bytes) (c : Int32) :
    ls.foldl (fun scnt _ => scnt + 1) c = c + Int32.ofNat ls.length := by
  induction ls generalizing c with
  | nil => exact (Int32.add_zero c).symm
  | cons l ls ih =>
      rw [List.foldl_cons, ih, List.length_cons, Nat.add_comm, Int32.ofNat_add, Int32.add_assoc]
      rfl

theorem featurecount_eq {text : Bytes} (h : ∀ l ∈ fileLines text, l.length < linemax) :
    featurecount (some text) =
      .ok (Int32.ofNat (fileLines text).length, firstCount text) := by
  simp only [featurecount, fgetsAll_eq h, foldl_count, strtokAll_eq, firstCount, Int32.zero_add]

/-! ## The loops -/

theorem sscanf_self (tok : Bytes) (cells : Nat → V) (j : Nat) :
    sscanf lf tok cells j j = (lf tok).getD (cells j) := by
  unfold sscanf
  cases lf tok with
  | none => rfl
  | some v => exact Function.update_self _ _ _

theorem sscanf_of_ne (tok : Bytes) (cells : Nat → V) {j k : Nat} (h : k ≠ j) :
    sscanf lf tok cells j k = cells k := by
  unfold sscanf
  cases lf tok with
  | none => rfl
  | some v => exact Function.update_of_ne h _ _

/-- A line with no more tokens than features: each cell gets the value of its token, if there is
one. -/
theorem loadRow_ok {features j : Nat} {toks : List Bytes} (row : Nat → V)
    (h : j + toks.length ≤ features) :
    ∃ row', loadRow lf features j toks row = .ok row' ∧
      (∀ k t, toks[k]? = some t → row' (j + k) = (lf t).getD (row (j + k))) ∧
      ∀ k < j, row' k = row k := by
  induction toks generalizing j row with
  | nil => exact ⟨row, rfl, fun k t ht => absurd ht (by simp), fun _ _ => rfl⟩
  | cons tok toks ih =>
      rw [List.length_cons] at h
      obtain ⟨row', hload, hcells, hbefore⟩ := ih (j := j + 1) (sscanf lf tok row j) (by omega)
      refine ⟨row', ?_, ?_, ?_⟩
      · rw [loadRow, if_neg (by omega), hload]
      · intro k t ht
        cases k with
        | zero =>
            rw [List.getElem?_cons_zero, Option.some.injEq] at ht
            rw [Nat.add_zero, hbefore j (Nat.lt_succ_self j), sscanf_self, ht]
        | succ k =>
            have hcell := hcells k t ht
            rw [sscanf_of_ne lf tok row (by omega)] at hcell
            rw [show j + (k + 1) = j + 1 + k by omega]
            exact hcell
      · intro k hk
        rw [hbefore k (by omega), sscanf_of_ne lf tok row (by omega)]

theorem loadRow_error {features j : Nat} {toks : List Bytes} (row : Nat → V) (hj : j ≤ features)
    (h : features < j + toks.length) :
    loadRow lf features j toks row = .error (.fatal .moreFeatures) := by
  induction toks generalizing j row with
  | nil =>
      rw [List.length_nil] at h
      omega
  | cons tok toks ih =>
      rw [List.length_cons] at h
      rw [loadRow]
      by_cases hfull : features ≤ j
      · rw [if_pos hfull]
      · rw [if_neg hfull]
        exact ih (j := j + 1) _ (by omega) (by omega)

/-- The lines of the X file that fit: each cell gets the value of its token, if there is one. -/
theorem loadX_ok {samples : Int32} {features i : Nat} {ls : List Bytes} (X : Nat → Nat → V)
    (hs : (i : Int) + ls.length ≤ samples.toInt)
    (hrows : ∀ l ∈ ls, (lineTokens l).length ≤ features) :
    ∃ X', loadX lf samples features i ls X = .ok X' ∧
      (∀ r l, ls[r]? = some l → ∀ k t, (lineTokens l)[k]? = some t →
        X' (i + r) k = (lf t).getD (X (i + r) k)) ∧
      ∀ r < i, X' r = X r := by
  induction ls generalizing i X with
  | nil => exact ⟨X, rfl, fun r l hl => absurd hl (by simp), fun _ _ => rfl⟩
  | cons line ls ih =>
      rw [List.length_cons] at hs
      have hline : 0 + (lineTokens line).length ≤ features := by
        rw [Nat.zero_add]
        exact hrows line List.mem_cons_self
      obtain ⟨row, hrow, hcells, -⟩ := loadRow_ok lf (X i) hline
      obtain ⟨X', hload, hrest, hbefore⟩ := ih (i := i + 1) (Function.update X i row) (by omega)
        fun l hl => hrows l (List.mem_cons_of_mem _ hl)
      refine ⟨X', ?_, ?_, ?_⟩
      · rw [loadX, if_neg (by omega), strtokAll_eq, hrow]
        exact hload
      · intro r l hl k t ht
        cases r with
        | zero =>
            rw [List.getElem?_cons_zero, Option.some.injEq] at hl
            subst hl
            have hcell := hcells k t ht
            rw [Nat.zero_add] at hcell
            rw [Nat.add_zero, hbefore i (Nat.lt_succ_self i), Function.update_self, hcell]
        | succ r =>
            have hcell := hrest r l hl k t ht
            rw [Function.update_of_ne (by omega)] at hcell
            rw [show i + (r + 1) = i + 1 + r by omega]
            exact hcell
      · intro r hr
        rw [hbefore r (by omega), Function.update_of_ne (by omega)]

/-- A line with too many tokens, or a line too many. -/
theorem loadX_error {samples : Int32} {features i : Nat} {ls : List Bytes} (X : Nat → Nat → V)
    (h : (∃ l ∈ ls, features < (lineTokens l).length) ∨
      ls ≠ [] ∧ samples.toInt < (i : Int) + ls.length) :
    ∃ f, loadX lf samples features i ls X = .error (.fatal f) := by
  induction ls generalizing i X with
  | nil =>
      rcases h with ⟨l, hl, -⟩ | ⟨hne, -⟩
      · cases hl
      · exact absurd rfl hne
  | cons line ls ih =>
      rw [loadX]
      by_cases hfull : samples.toInt ≤ i
      · exact ⟨_, if_pos hfull⟩
      rw [if_neg hfull, strtokAll_eq]
      by_cases hline : features < 0 + (lineTokens line).length
      · rw [loadRow_error lf (X i) (Nat.zero_le _) hline]
        exact ⟨_, rfl⟩
      -- this line is loaded, so a later one is at fault
      obtain ⟨row, hrow, -⟩ := loadRow_ok lf (X i) (Nat.le_of_not_lt hline)
      rw [hrow]
      rw [Nat.zero_add] at hline
      refine ih (i := i + 1) _ ?_
      rcases h with ⟨l, hl, hlt⟩ | ⟨-, hlt⟩
      · rcases List.mem_cons.mp hl with rfl | hl
        · exact absurd hlt hline
        · exact .inl ⟨l, hl, hlt⟩
      · rw [List.length_cons] at hlt
        refine .inr ⟨?_, by omega⟩
        rintro rfl
        rw [List.length_nil] at hlt
        omega

/-- A blank line among those that are read gives `sscanf` a null pointer. -/
theorem loadY_null {n i : Nat} {ls : List Bytes} (Y : Nat → V)
    (h : ∃ l ∈ ls.take n, lineTokens l = []) : loadY lf n i ls Y = .error .nullToken := by
  induction n generalizing i ls Y with
  | zero =>
      obtain ⟨l, hl, -⟩ := h
      rw [List.take_zero] at hl
      cases hl
  | succ n ih =>
      obtain ⟨l, hl, hblank⟩ := h
      cases ls with
      | nil => cases hl
      | cons line ls =>
          rw [loadY, strtokAll_eq]
          rw [List.take_succ_cons] at hl
          cases hline : lineTokens line with
          | nil => rfl
          | cons tok toks =>
              rcases List.mem_cons.mp hl with rfl | hl
              · rw [hblank] at hline
                cases hline
              · exact ih _ ⟨l, hl, hblank⟩

/-- With no blank line, what is missing is noticed. -/
theorem loadY_short {n i : Nat} {ls : List Bytes} (Y : Nat → V)
    (hfull : ∀ l ∈ ls.take n, lineTokens l ≠ []) (h : ls.length < n) :
    loadY lf n i ls Y = .error (.fatal .matrixY) := by
  induction n generalizing i ls Y with
  | zero => exact absurd h (Nat.not_lt_zero _)
  | succ n ih =>
      cases ls with
      | nil => rfl
      | cons line ls =>
          rw [List.take_succ_cons] at hfull
          rw [loadY, strtokAll_eq]
          obtain ⟨tok, toks, htoks⟩ := List.exists_cons_of_ne_nil (hfull line List.mem_cons_self)
          rw [htoks]
          exact ih _ (fun l hl => hfull l (List.mem_cons_of_mem _ hl)) (Nat.lt_of_succ_lt_succ h)

/-- The lines of the Y file that are read: each cell gets the value of the first token, if it is
one. -/
theorem loadY_ok {n i : Nat} {ls : List Bytes} (Y : Nat → V)
    (hfull : ∀ l ∈ ls.take n, lineTokens l ≠ []) (h : n ≤ ls.length) :
    ∃ Y', loadY lf n i ls Y = .ok Y' ∧
      (∀ k < n, ∀ l t, ls[k]? = some l → (lineTokens l).head? = some t →
        Y' (i + k) = (lf t).getD (Y (i + k))) ∧
      ∀ k < i, Y' k = Y k := by
  induction n generalizing i ls Y with
  | zero => exact ⟨Y, rfl, fun k hk => absurd hk (Nat.not_lt_zero _), fun _ _ => rfl⟩
  | succ n ih =>
      cases ls with
      | nil => exact absurd h (Nat.not_succ_le_zero n)
      | cons line ls =>
          rw [List.take_succ_cons] at hfull
          obtain ⟨tok, toks, htoks⟩ := List.exists_cons_of_ne_nil (hfull line List.mem_cons_self)
          obtain ⟨Y', hload, hcells, hbefore⟩ := ih (i := i + 1) (sscanf lf tok Y i)
            (fun l hl => hfull l (List.mem_cons_of_mem _ hl)) (Nat.le_of_succ_le_succ h)
          refine ⟨Y', ?_, ?_, ?_⟩
          · rw [loadY, strtokAll_eq, htoks]
            exact hload
          · intro k hk l t hl ht
            cases k with
            | zero =>
                rw [List.getElem?_cons_zero, Option.some.injEq] at hl
                subst hl
                rw [htoks, List.head?_cons, Option.some.injEq] at ht
                rw [Nat.add_zero, hbefore i (Nat.lt_succ_self i), sscanf_self, ht]
            | succ k =>
                have hcell := hcells k (Nat.lt_of_succ_lt_succ hk) l t hl ht
                rw [sscanf_of_ne lf tok Y (by omega)] at hcell
                rw [show i + (k + 1) = i + 1 + k by omega]
                exact hcell
          · intro k hk
            rw [hbefore k (by omega), sscanf_of_ne lf tok Y (by omega)]

/-! ## Loading -/

/-- A cell that was zero holds the value of its token when the token has one. -/
theorem eq_some_of_getD [Zero V] {o : Option V} {v : V} (hsome : o.isSome) (hv : v = o.getD 0) :
    o = some v := by
  obtain ⟨w, rfl⟩ := Option.isSome_iff_exists.mp hsome
  rw [hv, Option.getD_some]

/-- What the loops have put into the cells is the matrix in the files when the files are complete.
-/
theorem loads_iff_complete [Zero V] {xtext ytext : Bytes} {samples : Int32} {X : Nat → Nat → V}
    {Y : Nat → V}
    (hX : ∀ i l, (fileLines xtext)[i]? = some l → ∀ j t, (lineTokens l)[j]? = some t →
      X i j = (lf t).getD 0)
    (hY : ∀ i < (fileLines xtext).length, ∀ l t, (fileLines ytext)[i]? = some l →
      (lineTokens l).head? = some t → Y i = (lf t).getD 0)
    (hsamples : samples.toInt = (fileLines xtext).length)
    (hfull : ∀ l ∈ (fileLines ytext).take (fileLines xtext).length, lineTokens l ≠ [])
    (hlen : (fileLines xtext).length ≤ (fileLines ytext).length) :
    Loads lf xtext ytext ⟨samples, firstCount xtext, X, Y⟩ ↔ Complete lf xtext ytext := by
  constructor
  · intro h
    refine ⟨h.features, h.nonblank, ?_, ?_⟩
    · intro l hl t ht
      obtain ⟨i, hi⟩ := List.getElem?_of_mem hl
      obtain ⟨j, hj⟩ := List.getElem?_of_mem ht
      rw [h.x i l hi j t hj]
      rfl
    · intro l hl t ht
      obtain ⟨i, hi⟩ := List.getElem?_of_mem hl
      rw [List.getElem?_take] at hi
      split_ifs at hi with hlt
      obtain ⟨l', t', hl', ht', hvalue⟩ := h.y i hlt
      rw [hi, Option.some.injEq] at hl'
      subst hl'
      rw [Option.mem_def.mp ht, Option.some.injEq] at ht'
      rw [ht', hvalue]
      rfl
  · intro h
    refine ⟨hsamples, h.rows, h.nonblank, ?_, ?_⟩
    · intro i l hl j t ht
      have hsome := h.xvalues l (List.mem_of_getElem? hl) t (List.mem_of_getElem? ht)
      exact eq_some_of_getD hsome (hX i l hl j t ht)
    · intro i hi
      obtain ⟨l, hl⟩ : ∃ l, (fileLines ytext)[i]? = some l :=
        ⟨_, List.getElem?_eq_getElem (Nat.lt_of_lt_of_le hi hlen)⟩
      have hmem : l ∈ (fileLines ytext).take (fileLines xtext).length := by
        refine List.mem_of_getElem? (i := i) ?_
        rw [List.getElem?_take, if_pos hi, hl]
      obtain ⟨t, ts, htoks⟩ := List.exists_cons_of_ne_nil (hfull l hmem)
      have hhead : (lineTokens l).head? = some t := by rw [htoks, List.head?_cons]
      exact ⟨l, t, hl, hhead, eq_some_of_getD (h.yvalues l hmem t hhead) (hY i hi l t hl hhead)⟩

section

variable [Zero V] {xtext ytext : Bytes} (hx : ∀ l ∈ fileLines xtext, l.length < linemax)
  (hy : ∀ l ∈ fileLines ytext, l.length < linemax)

include hx hy

/-- What `getinput` does, as one case after the other. -/
theorem getinput_eq :
    getinput lf (some xtext) (some ytext) =
      match loadX lf (Int32.ofNat (fileLines xtext).length) (firstCount xtext) 0 (fileLines xtext)
          (fun _ _ => 0) with
      | .error e => .error e
      | .ok X =>
          match loadY lf (Int32.ofNat (fileLines xtext).length).toNatClampNeg 0 (fileLines ytext)
              (fun _ => 0) with
          | .error e => .error e
          | .ok Y =>
              .ok ⟨Int32.ofNat (fileLines xtext).length, firstCount xtext, X, Y⟩ := by
  simp only [getinput, featurecount_eq hx, fgetsAll_eq hx, fgetsAll_eq hy]

/-- A rejected X file ends in a fatal exit. -/
theorem getinput_rejected (h : XRejected xtext) :
    ∃ f, getinput lf (some xtext) (some ytext) = .error (.fatal f) := by
  have hload : ∃ f, loadX lf (Int32.ofNat (fileLines xtext).length) (firstCount xtext) 0
      (fileLines xtext) (fun _ _ => (0 : V)) = .error (.fatal f) := by
    apply loadX_error
    rcases h with h | h
    · exact .inl h
    · have hlt := Int32.toInt_lt (Int32.ofNat (fileLines xtext).length)
      refine .inr ⟨?_, by omega⟩
      rintro hnil
      rw [hnil, List.length_nil] at h
      omega
  obtain ⟨f, hf⟩ := hload
  exact ⟨f, by rw [getinput_eq lf hx hy, hf]⟩

/-- What `getinput` does with the Y file once the X file is loaded. -/
theorem getinput_accepted (h : ¬ XRejected xtext) :
    ∃ X : Nat → Nat → V,
      (∀ i l, (fileLines xtext)[i]? = some l → ∀ j t, (lineTokens l)[j]? = some t →
        X i j = (lf t).getD 0) ∧
      (Int32.ofNat (fileLines xtext).length).toInt = (fileLines xtext).length ∧
      getinput lf (some xtext) (some ytext) =
        match loadY lf (fileLines xtext).length 0 (fileLines ytext) (fun _ => 0) with
        | .error e => .error e
        | .ok Y =>
            .ok ⟨Int32.ofNat (fileLines xtext).length, firstCount xtext, X, Y⟩ := by
  obtain ⟨hrows, hcount⟩ := not_or.mp h
  have hlt : (fileLines xtext).length < 2 ^ 31 := Nat.lt_of_not_le hcount
  have hsamples : (Int32.ofNat (fileLines xtext).length).toInt = (fileLines xtext).length :=
    Int32.toInt_ofNat_of_lt hlt
  obtain ⟨X, hX, hcells, -⟩ := loadX_ok lf (i := 0) (fun _ _ => (0 : V)) (by rw [hsamples]; omega)
    fun l hl => Nat.le_of_not_lt fun hlong => hrows ⟨l, hl, hlong⟩
  refine ⟨X, ?_, hsamples, ?_⟩
  · intro i l hl j t ht
    have hcell := hcells i l hl j t ht
    rwa [Nat.zero_add] at hcell
  · rw [getinput_eq lf hx hy, hX, Int32.toNatClampNeg_ofNat_of_lt hlt]

/-- **`getinput` loads exactly the matrix in the files, or rejects them, exactly when they are
sound**: for all texts with lines shorter than `LINEMAX`, and whatever numbers `%lf` reads. -/
theorem loadsExactly_iff :
    LoadsExactly lf xtext ytext (getinput lf (some xtext) (some ytext)) ↔
      Sound lf xtext ytext := by
  by_cases hrej : XRejected xtext
  · obtain ⟨f, hf⟩ := getinput_rejected lf hx hy hrej
    rw [hf]
    exact iff_of_true trivial (.inl hrej)
  obtain ⟨X, hX, hsamples, heq⟩ := getinput_accepted lf hx hy hrej
  by_cases hblank : ∃ l ∈ (fileLines ytext).take (fileLines xtext).length, lineTokens l = []
  · rw [heq, loadY_null lf _ hblank]
    refine iff_of_false id ?_
    rintro (h | ⟨h, -⟩)
    · exact hrej h
    · obtain ⟨l, hl, hnil⟩ := hblank
      exact h l hl hnil
  have hfull : ∀ l ∈ (fileLines ytext).take (fileLines xtext).length, lineTokens l ≠ [] :=
    fun l hl hnil => hblank ⟨l, hl, hnil⟩
  by_cases hshort : (fileLines ytext).length < (fileLines xtext).length
  · rw [heq, loadY_short lf _ hfull hshort]
    exact iff_of_true trivial (.inr ⟨hfull, .inl hshort⟩)
  obtain ⟨Y, hload, hY, -⟩ := loadY_ok lf (i := 0) (fun _ => (0 : V)) hfull
    (Nat.le_of_not_lt hshort)
  simp only [Nat.zero_add] at hY
  rw [heq, hload]
  refine (loads_iff_complete lf hX hY hsamples hfull (Nat.le_of_not_lt hshort)).trans ?_
  constructor
  · intro hcomplete
    exact .inr ⟨hfull, .inr hcomplete⟩
  · rintro (h | ⟨-, h | h⟩)
    · exact absurd h hrej
    · exact absurd h hshort
    · exact h

end

/-- What `%lf` reads from a token of digits. -/
def digits (tok : Bytes) : Option Nat :=
  match tok.takeWhile fun c => 48 ≤ c ∧ c ≤ 57 with
  | [] => none
  | ds => some (ds.foldl (fun n c => 10 * n + (c.toNat - 48)) 0)

/-- Two samples of two features, `1 2` and `3 4`, and the Y file `5`, `6`. -/
theorem loadsExactly_square :
    (∃ p, getinput digits (some [49, 32, 50, 10, 51, 32, 52, 10]) (some [53, 10, 54, 10]) = .ok p ∧
      p.X 1 0 = 3 ∧ p.Y 1 = 6) ∧
    LoadsExactly digits [49, 32, 50, 10, 51, 32, 52, 10] [53, 10, 54, 10]
      (getinput digits (some [49, 32, 50, 10, 51, 32, 52, 10]) (some [53, 10, 54, 10])) := by
  refine ⟨⟨_, rfl, rfl, rfl⟩, ?_⟩
  refine (loadsExactly_iff digits (by decide) (by decide)).mpr (.inr ⟨?_, .inr ?_⟩)
  · decide
  · exact ⟨by decide, by decide, by decide, by decide⟩

/-- A line with one token behind a line with two is loaded, with a zero in its second cell; and a
blank line in the Y file gives `sscanf` a null pointer. -/
theorem not_loadsExactly_ragged :
    (∃ p, getinput digits (some [49, 32, 50, 10, 51, 10]) (some [53, 10, 54, 10]) = .ok p ∧
      p.samples = 2 ∧ p.features = 2 ∧ p.X 1 1 = 0) ∧
    ¬ LoadsExactly digits [49, 32, 50, 10, 51, 10] [53, 10, 54, 10]
      (getinput digits (some [49, 32, 50, 10, 51, 10]) (some [53, 10, 54, 10])) ∧
    ¬ LoadsExactly digits [49, 10] [10] (getinput digits (some [49, 10]) (some [10])) := by
  refine ⟨⟨_, rfl, rfl, rfl, rfl⟩, ?_, id⟩
  intro h
  have hrow := Loads.features h [51, 10] (by decide)
  exact absurd hrow (by decide)

end CommTest.Mpi
