import CommTest.Lib.Decimal
import CommTest.Lib.Getopt
import CommTest.Mpi.Sched

/-!
# The command line

`get_options` reads the command line into the problem, the machine context and the experiment, all of
which `main` holds in static memory: what no option sets is zero.

* `getOptions` with its loop `option` over what `getopt` returns, and `Exit`, the ways it does not come
  back. `strtod` is a parameter.
* `-i` and `-e` have no colon in the option string, so `optarg` is `NULL` when `strtol` reads it.
* `getOptions_spec`: the command lines that are accepted and what they mean, and those that end in that
  null pointer.
* `config_of_getOptions` and `getOptions_config`: the configurations of the scheduler are what command
  lines give that have `-m` and `-t`.
-/

set_option linter.unusedSectionVars false

namespace CommTest.Mpi

open Decimal Getopt

/-- A word of the command line. -/
abbrev Word := List UInt8

/-- A byte of a string literal of the source. -/
def ascii (s : String) : Word := s.toList.map Char.toUInt8

/-- `"V?hd:o:m:t:l:ie"`. -/
def optstring : Word := ascii "V?hd:o:m:t:l:ie"

/-- Which options there are, and which of them take an argument. -/
def optionArgs : UInt8 → Option Bool := takesArg ':'.toUInt8 optstring

/-- The integer at the beginning of a text in base 10, within the range of a `long`. -/
def strtol (nptr : Word) : Int :=
  let t := nptr.dropWhile isSpace
  let v : Int :=
    if t.head? = some '-'.toUInt8 then -readDigits ((t.drop 1).takeWhile isDigit)
    else if t.head? = some '+'.toUInt8 then readDigits ((t.drop 1).takeWhile isDigit)
    else readDigits (t.takeWhile isDigit)
  max (-2 ^ 63) (min (2 ^ 63 - 1) v)

/-- How `get_options` ends without coming back. -/
inductive Exit
  /-- The usage is printed, `exit (EXIT_SUCCESS)`. -/
  | usage
  /-- `exit (EXIT_FAILURE)`. -/
  | failure
  /-- `strtol` reads from a null pointer. -/
  | nullArg
deriving DecidableEq

/-- What `get_options` sets; `D` is the type of `lamda`. -/
structure Options (D : Type) where
  xfile : Option Word
  yfile : Option Word
  machines : Int32
  thrdpm : Int32
  thrds : Int32
  lamda : D
  maxiter : Int32
  timelimit : Int32
  err : Int
deriving DecidableEq

def defaultMaxIter : Int32 := 10000000

def defaultMaxTimeSec : Int32 := 10000000

section

variable {D : Type} [Zero D] [LE D] [DecidableLE D] (strtod : Word → D)

/-- Static memory, and the two defaults. -/
def Options.initial : Options D where
  xfile := none
  yfile := none
  machines := 0
  thrdpm := 0
  thrds := 0
  lamda := 0
  maxiter := defaultMaxIter
  timelimit := defaultMaxTimeSec
  err := 0

/-- `optarg`, where it is read. -/
def readArg : Option Word → Except Exit Word
  | some optarg => .ok optarg
  | none => .error .nullArg

/-- `strtol (optarg, NULL, 10)` as an `int`. -/
def intArg (optarg : Word) : Int32 := Int32.ofInt (strtol optarg)

/-- The body of the loop. Source: `options.cpp`, `get_options`. -/
def option (o : Options D) : Item UInt8 → Except Exit (Options D)
  | .bad => .error .usage
  | .opt c optarg =>
      if c = 'h'.toUInt8 ∨ c = '?'.toUInt8 then .error .usage
      else if c = 'd'.toUInt8 then (readArg optarg).map fun a => { o with xfile := some a }
      else if c = 'o'.toUInt8 then (readArg optarg).map fun a => { o with yfile := some a }
      else if c = 'm'.toUInt8 then
        (readArg optarg).map fun a =>
          { o with machines := intArg a, err := if intArg a < 1 then 1 else o.err }
      else if c = 't'.toUInt8 then
        (readArg optarg).map fun a =>
          { o with thrdpm := intArg a, err := if intArg a < 1 then 1 else o.err }
      else if c = 'l'.toUInt8 then
        (readArg optarg).map fun a =>
          { o with lamda := strtod a, err := if strtod a ≤ 0 then 1 else o.err }
      else if c = 'i'.toUInt8 then
        (readArg optarg).map fun a =>
          { o with maxiter := intArg a, err := if intArg a < 1 then 1 else o.err }
      else if c = 'e'.toUInt8 then
        (readArg optarg).map fun a =>
          { o with timelimit := intArg a, err := if intArg a < 1 then 1 else o.err }
      else .ok { o with err := -1 }

/-- The words behind the name of the program. Source: `options.cpp`, `get_options`. -/
def getOptions (argv : List Word) : Except Exit (Options D) := do
  let o ← (scan optionArgs '-'.toUInt8 none argv).foldlM (option strtod) Options.initial
  let o := { o with thrds := o.machines * o.thrdpm }
  if o.err = 0 then pure o else throw .failure

/-! ## What a command line means -/

/-- An option with an argument that is accepted: a positive number where there is to be one. -/
def Accepted (i : UInt8 × Word) : Prop :=
  if i.1 = 'm'.toUInt8 ∨ i.1 = 't'.toUInt8 then 1 ≤ intArg i.2
  else if i.1 = 'l'.toUInt8 then ¬ strtod i.2 ≤ 0
  else True

/-- What an option with an argument sets. -/
def assign (o : Options D) (i : UInt8 × Word) : Options D :=
  if i.1 = 'd'.toUInt8 then { o with xfile := some i.2 }
  else if i.1 = 'o'.toUInt8 then { o with yfile := some i.2 }
  else if i.1 = 'm'.toUInt8 then { o with machines := intArg i.2 }
  else if i.1 = 't'.toUInt8 then { o with thrdpm := intArg i.2 }
  else { o with lamda := strtod i.2 }

/-- What a list of options with their arguments means: the last one of a kind counts. -/
def meaning (is : List (UInt8 × Word)) : Options D :=
  let o := is.foldl (assign strtod) Options.initial
  { o with thrds := o.machines * o.thrdpm }

instance (i : UInt8 × Word) : Decidable (Accepted strtod i) :=
  inferInstanceAs (Decidable (if i.1 = 'm'.toUInt8 ∨ i.1 = 't'.toUInt8 then 1 ≤ intArg i.2
    else if i.1 = 'l'.toUInt8 then ¬ strtod i.2 ≤ 0 else True))

/-- The options of the option string, with an argument and without. -/
theorem optionArgs_cases (c : UInt8) :
    (optionArgs c = some true →
      c = 'd'.toUInt8 ∨ c = 'o'.toUInt8 ∨ c = 'm'.toUInt8 ∨ c = 't'.toUInt8 ∨ c = 'l'.toUInt8) ∧
    (optionArgs c = some false →
      c = 'V'.toUInt8 ∨ c = '?'.toUInt8 ∨ c = 'h'.toUInt8 ∨ c = 'i'.toUInt8 ∨ c = 'e'.toUInt8) := by
  have hall : ∀ n < 256, (optionArgs (UInt8.ofNat n) = some true → UInt8.ofNat n = 'd'.toUInt8 ∨
        UInt8.ofNat n = 'o'.toUInt8 ∨ UInt8.ofNat n = 'm'.toUInt8 ∨ UInt8.ofNat n = 't'.toUInt8 ∨
        UInt8.ofNat n = 'l'.toUInt8) ∧
      (optionArgs (UInt8.ofNat n) = some false → UInt8.ofNat n = 'V'.toUInt8 ∨
        UInt8.ofNat n = '?'.toUInt8 ∨ UInt8.ofNat n = 'h'.toUInt8 ∨ UInt8.ofNat n = 'i'.toUInt8 ∨
        UInt8.ofNat n = 'e'.toUInt8) := by decide +kernel
  rw [← UInt8.ofNat_toNat (x := c)]
  exact hall c.toNat c.toNat_lt

/-- An option with an argument sets what it says, and notes an argument that is not accepted. -/
theorem option_of_arg {o : Options D} {c : UInt8} {a : Word} (hc : optionArgs c = some true) :
    option strtod o (.opt c (some a)) =
      .ok { assign strtod o (c, a) with err := if Accepted strtod (c, a) then o.err else 1 } := by
  have hrange : (if intArg a < 1 then 1 else o.err) = if 1 ≤ intArg a then o.err else 1 := by
    simp only [← Int32.not_lt, ite_not]
  rcases (optionArgs_cases c).1 hc with rfl | rfl | rfl | rfl | rfl
  · simp +decide [option, readArg, assign, Accepted, Except.map]
  · simp +decide [option, readArg, assign, Accepted, Except.map]
  · simp +decide [option, readArg, assign, Accepted, Except.map, hrange]
  · simp +decide [option, readArg, assign, Accepted, Except.map, hrange]
  · simp +decide [option, readArg, assign, Accepted, Except.map]

theorem assign_err (o : Options D) (i : UInt8 × Word) : (assign strtod o i).err = o.err := by
  unfold assign
  split_ifs <;> rfl

theorem assign_eq (o : Options D) (i : UInt8 × Word) :
    { assign strtod o i with err := o.err } = assign strtod o i := by
  rw [← assign_err strtod o i]

/-- **An option that leaves no error has an argument, which is accepted.** -/
theorem option_eq_ok {o o' : Options D} {i : Item UInt8} (hi : i.Declared optionArgs)
    (h : option strtod o i = .ok o') (herr : o'.err = 0) :
    o.err = 0 ∧ ∃ j, i = .opt j.1 (some j.2) ∧ Accepted strtod j ∧ o' = assign strtod o j := by
  cases i with
  | bad => cases h
  | opt c optarg =>
      cases optarg with
      | none =>
          rcases (optionArgs_cases c).2 hi with rfl | rfl | rfl | rfl | rfl
          · -- `-V` is taken for an option that is not recognised
            have hV : option strtod o (.opt 'V'.toUInt8 none) = .ok { o with err := -1 } := by
              simp +decide [option]
            rw [hV, Except.ok.injEq] at h
            rw [← h] at herr
            cases herr
          all_goals simp +decide [option, readArg, Except.map] at h
      | some a =>
          rw [option_of_arg strtod hi, Except.ok.injEq] at h
          by_cases hok : Accepted strtod (c, a)
          · rw [if_pos hok, assign_eq] at h
            subst h
            rw [assign_err] at herr
            exact ⟨herr, (c, a), rfl, hok, rfl⟩
          · rw [if_neg hok] at h
            rw [← h] at herr
            cases herr

/-- The options that were read in a loop without an error. -/
theorem loop_eq_ok {is : List (Item UInt8)} (his : ∀ i ∈ is, i.Declared optionArgs) {o o' : Options D}
    (h : is.foldlM (option strtod) o = .ok o') (herr : o'.err = 0) :
    o.err = 0 ∧ ∃ js : List (UInt8 × Word), is = js.map (fun j => .opt j.1 (some j.2)) ∧
      (∀ j ∈ js, Accepted strtod j) ∧ o' = js.foldl (assign strtod) o := by
  induction is generalizing o with
  | nil =>
      rw [List.foldlM_nil] at h
      cases h
      exact ⟨herr, [], rfl, by simp, rfl⟩
  | cons i is ih =>
      rw [List.foldlM_cons] at h
      cases hfirst : option strtod o i with
      | error e =>
          rw [hfirst] at h
          cases h
      | ok m =>
          rw [hfirst] at h
          obtain ⟨hm, js, rfl, hjs, hrest⟩ := ih (fun i hi => his i (List.mem_cons_of_mem _ hi)) h
          obtain ⟨ho, j, rfl, hj, rfl⟩ := option_eq_ok strtod (his i List.mem_cons_self) hfirst hm
          exact ⟨ho, j :: js, rfl, List.forall_mem_cons.mpr ⟨hj, hjs⟩, hrest⟩

/-- Options that are accepted are read. -/
theorem loop_of_accepted {js : List (UInt8 × Word)}
    (hjs : ∀ j ∈ js, optionArgs j.1 = some true ∧ Accepted strtod j) (o : Options D) :
    (js.map fun j => Item.opt j.1 (some j.2)).foldlM (option strtod) o =
      .ok (js.foldl (assign strtod) o) := by
  induction js generalizing o with
  | nil => rfl
  | cons j js ih =>
      obtain ⟨harg, hj⟩ := hjs j List.mem_cons_self
      rw [List.map_cons, List.foldlM_cons, option_of_arg strtod harg, if_pos hj, assign_eq]
      exact ih (fun j hj => hjs j (List.mem_cons_of_mem _ hj)) _

theorem foldl_assign_err (js : List (UInt8 × Word)) (o : Options D) :
    (js.foldl (assign strtod) o).err = o.err := by
  induction js generalizing o with
  | nil => rfl
  | cons j js ih => rw [List.foldl_cons, ih, assign_err]

theorem foldl_assign_limits (js : List (UInt8 × Word)) (o : Options D) :
    (js.foldl (assign strtod) o).maxiter = o.maxiter ∧
      (js.foldl (assign strtod) o).timelimit = o.timelimit := by
  induction js generalizing o with
  | nil => exact ⟨rfl, rfl⟩
  | cons j js ih =>
      have hj : (assign strtod o j).maxiter = o.maxiter ∧ (assign strtod o j).timelimit = o.timelimit := by
        unfold assign
        split_ifs <;> exact ⟨rfl, rfl⟩
      rw [List.foldl_cons, (ih _).1, (ih _).2]
      exact hj

theorem getOptions_eq_ok {argv : List Word} {o : Options D} :
    getOptions strtod argv = .ok o ↔
      ∃ o', (scan optionArgs '-'.toUInt8 none argv).foldlM (option strtod) Options.initial = .ok o' ∧
        o'.err = 0 ∧ o = { o' with thrds := o'.machines * o'.thrdpm } := by
  unfold getOptions
  cases (scan optionArgs '-'.toUInt8 none argv).foldlM (option strtod) Options.initial with
  | error e => simp [bind, Except.bind]
  | ok o' =>
      simp only [bind, Except.bind]
      split_ifs with herr
      · simp only [pure, Except.pure, Except.ok.injEq]
        constructor
        · rintro rfl
          exact ⟨o', rfl, herr, rfl⟩
        · rintro ⟨o'', rfl, -, rfl⟩
          rfl
      · constructor
        · intro h
          cases h
        · rintro ⟨o'', ho, herr', -⟩
          cases ho
          exact absurd herr' herr

theorem optionArgs_dash : optionArgs '-'.toUInt8 = none := by decide

/-- A command line is accepted when its options all have arguments that are. -/
theorem getOptions_eq_ok_iff (argv : List Word) (o : Options D) :
    getOptions strtod argv = .ok o ↔
      ∃ ps rest, argv = spell '-'.toUInt8 ps ++ rest ∧ Ends '-'.toUInt8 rest ∧
        (∀ p ∈ ps, p.Fits optionArgs '-'.toUInt8) ∧
        (∀ j ∈ ps.filterMap Piece.item, Accepted strtod j) ∧
        o = meaning strtod (ps.filterMap Piece.item) := by
  rw [getOptions_eq_ok]
  constructor
  · rintro ⟨o', hloop, herr, rfl⟩
    obtain ⟨-, js, hscan, hjs, rfl⟩ := loop_eq_ok strtod (scan_declared argv) hloop herr
    have harg : ∀ i ∈ scan optionArgs '-'.toUInt8 none argv, i.HasArg := by
      rw [hscan]
      intro i hi
      obtain ⟨j, -, rfl⟩ := List.mem_map.mp hi
      rfl
    obtain ⟨ps, rest, hargv, hps, hrest⟩ := exists_pieces argv harg
    have hitems : js.map (fun j => Item.opt j.1 (some j.2)) = items ps := by
      rw [← hscan, hargv, scan_spell optionArgs_dash hps hrest]
    have hinj : Function.Injective fun j : UInt8 × Word => Item.opt j.1 (some j.2) := by
      rintro ⟨c, a⟩ ⟨c', a'⟩ heq
      cases heq
      rfl
    obtain rfl : js = ps.filterMap Piece.item := List.map_injective_iff.mpr hinj hitems
    exact ⟨ps, rest, hargv, hrest, hps, hjs, rfl⟩
  · rintro ⟨ps, rest, rfl, hrest, hps, hjs, rfl⟩
    refine ⟨(ps.filterMap Piece.item).foldl (assign strtod) Options.initial, ?_, ?_, rfl⟩
    · rw [scan_spell optionArgs_dash hps hrest, items]
      apply loop_of_accepted
      intro j hj
      refine ⟨?_, hjs j hj⟩
      obtain ⟨p, hp, hitem⟩ := List.mem_filterMap.mp hj
      exact Piece.args_of_item (hps p hp) hitem
    · rw [foldl_assign_err]
      rfl

/-- The loop goes on behind an option. -/
def GoesOn : Item UInt8 → Prop
  | .opt c (some _) => optionArgs c = some true
  | .opt c none => c = 'V'.toUInt8
  | .bad => False

/-- How the program ends at an option that the loop does not go on behind. -/
def exitAt : Item UInt8 → Exit
  | .opt c none => if c = 'i'.toUInt8 ∨ c = 'e'.toUInt8 then .nullArg else .usage
  | _ => .usage

theorem option_of_not_goesOn (o : Options D) {i : Item UInt8} (hi : i.Declared optionArgs)
    (hstop : ¬ GoesOn i) : option strtod o i = .error (exitAt i) := by
  cases i with
  | bad => rfl
  | opt c optarg =>
      cases optarg with
      | some a => exact absurd hi hstop
      | none =>
          rcases (optionArgs_cases c).2 hi with rfl | rfl | rfl | rfl | rfl
          · exact absurd rfl hstop
          all_goals simp +decide [option, readArg, Except.map, exitAt]

theorem option_of_goesOn (o : Options D) {i : Item UInt8} (hi : GoesOn i) :
    ∃ o', option strtod o i = .ok o' := by
  cases i with
  | bad => exact absurd hi id
  | opt c optarg =>
      cases optarg with
      | some a => exact ⟨_, option_of_arg strtod hi⟩
      | none =>
          obtain rfl : c = 'V'.toUInt8 := hi
          exact ⟨{ o with err := -1 }, by simp +decide [option]⟩

/-- **The loop ends the program at the first option that it does not go on behind.** -/
theorem loop_eq_error {is : List (Item UInt8)} (his : ∀ i ∈ is, i.Declared optionArgs) {o : Options D}
    {e : Exit} : is.foldlM (option strtod) o = .error e ↔
      ∃ before i after, is = before ++ i :: after ∧ (∀ j ∈ before, GoesOn j) ∧ ¬ GoesOn i ∧
        e = exitAt i := by
  induction is generalizing o with
  | nil =>
      constructor
      · intro h
        cases h
      · rintro ⟨before, i, after, h, -⟩
        simp at h
  | cons i is ih =>
      have hi := his i List.mem_cons_self
      have hrest := fun j hj => his j (List.mem_cons_of_mem _ hj)
      rw [List.foldlM_cons]
      by_cases hgo : GoesOn i
      · obtain ⟨o', ho⟩ := option_of_goesOn strtod o hgo
        rw [ho]
        refine (ih hrest).trans ⟨?_, ?_⟩
        · rintro ⟨before, j, after, rfl, hbefore, hj⟩
          exact ⟨i :: before, j, after, rfl, List.forall_mem_cons.mpr ⟨hgo, hbefore⟩, hj⟩
        · rintro ⟨before, j, after, heq, hbefore, hj, he⟩
          cases before with
          | nil =>
              cases heq
              exact absurd hgo hj
          | cons b before =>
              cases heq
              exact ⟨before, j, after, rfl, fun k hk => hbefore k (List.mem_cons_of_mem _ hk), hj, he⟩
      · rw [option_of_not_goesOn strtod o hi hgo]
        constructor
        · intro h
          cases h
          exact ⟨[], i, is, rfl, by simp, hgo, rfl⟩
        · rintro ⟨before, j, after, heq, hbefore, hj, rfl⟩
          cases before with
          | nil =>
              cases heq
              rfl
          | cons b before =>
              cases heq
              exact absurd (hbefore _ List.mem_cons_self) hgo

/-- Of the ways out, only the one behind the loop is a failure. -/
theorem getOptions_eq_error {argv : List Word} {e : Exit} (he : e ≠ .failure) :
    getOptions strtod argv = .error e ↔
      (scan optionArgs '-'.toUInt8 none argv).foldlM (option strtod) Options.initial = .error e := by
  unfold getOptions
  cases (scan optionArgs '-'.toUInt8 none argv).foldlM (option strtod) Options.initial with
  | error e' => simp [bind, Except.bind]
  | ok o' =>
      simp only [bind, Except.bind, reduceCtorEq, iff_false]
      split_ifs
      · intro h
        cases h
      · intro h
        cases h
        exact he rfl

/-- `-i` or `-e` behind options that the loop goes on behind. -/
theorem getOptions_nullArg_iff (argv : List Word) :
    getOptions strtod argv = .error .nullArg ↔
      ∃ before c after, scan optionArgs '-'.toUInt8 none argv = before ++ .opt c none :: after ∧
        (∀ j ∈ before, GoesOn j) ∧ (c = 'i'.toUInt8 ∨ c = 'e'.toUInt8) := by
  rw [getOptions_eq_error strtod (by decide), loop_eq_error strtod (scan_declared argv)]
  constructor
  · rintro ⟨before, i, after, hscan, hbefore, -, he⟩
    match i, he with
    | .opt c none, he =>
        simp only [exitAt] at he
        split_ifs at he with hc
        exact ⟨before, c, after, hscan, hbefore, hc⟩
  · rintro ⟨before, c, after, hscan, hbefore, hc⟩
    refine ⟨before, _, after, hscan, hbefore, ?_, ?_⟩
    · rcases hc with rfl | rfl
      · exact (by decide : ¬ 'i'.toUInt8 = 'V'.toUInt8)
      · exact (by decide : ¬ 'e'.toUInt8 = 'V'.toUInt8)
    · rw [exitAt, if_pos hc]

/-- **The command lines that are accepted and what they mean, and those that end in a null pointer.**
Accepted are options in any order and any spelling, between words that are no options, up to the end or
to `--`, each with an argument that is accepted; the last one of a kind counts. The limits on iterations
and time cannot be set: the program does not survive an attempt. -/
theorem getOptions_spec (argv : List Word) :
    (∀ o, getOptions strtod argv = .ok o ↔
      ∃ ps rest, argv = spell '-'.toUInt8 ps ++ rest ∧ Ends '-'.toUInt8 rest ∧
        (∀ p ∈ ps, p.Fits optionArgs '-'.toUInt8) ∧
        (∀ j ∈ ps.filterMap Piece.item, Accepted strtod j) ∧
        o = meaning strtod (ps.filterMap Piece.item)) ∧
    (∀ o, getOptions strtod argv = .ok o →
      o.maxiter = defaultMaxIter ∧ o.timelimit = defaultMaxTimeSec) ∧
    (getOptions strtod argv = .error .nullArg ↔
      ∃ before c after, scan optionArgs '-'.toUInt8 none argv = before ++ .opt c none :: after ∧
        (∀ j ∈ before, GoesOn j) ∧ (c = 'i'.toUInt8 ∨ c = 'e'.toUInt8)) := by
  refine ⟨getOptions_eq_ok_iff strtod argv, ?_, getOptions_nullArg_iff strtod argv⟩
  intro o ho
  obtain ⟨ps, rest, -, -, -, -, rfl⟩ := (getOptions_eq_ok_iff strtod argv o).mp ho
  exact foldl_assign_limits strtod _ _

/-! ## The configuration of the scheduler -/

theorem strtol_natText {n : Nat} (h : n < 2 ^ 63) : strtol (natText n) = n := by
  obtain ⟨d, ds, hds⟩ := List.exists_cons_of_ne_nil (natText_ne_nil n)
  have hd : isDigit d = true := isDigit_of_mem_natText (n := n) (by rw [hds]; exact List.mem_cons_self)
  obtain ⟨hminus, hplus, hspace⟩ := of_isDigit hd
  have hskip : (natText n).dropWhile isSpace = natText n := by
    rw [hds, List.dropWhile_cons_of_neg (by simp [hspace])]
  have hall : (natText n).takeWhile isDigit = natText n :=
    List.takeWhile_eq_self_iff.mpr fun b hb => isDigit_of_mem_natText hb
  have hhead : (natText n).head? = some d := by rw [hds, List.head?_cons]
  have hm : ¬ some d = some '-'.toUInt8 := fun heq => hminus (Option.some.inj heq)
  have hp : ¬ some d = some '+'.toUInt8 := fun heq => hplus (Option.some.inj heq)
  simp only [strtol, hskip, hhead, if_neg hm, if_neg hp, hall, readDigits_natText]
  omega

theorem intArg_natText {n : Nat} (h : n < 2 ^ 31) (hpos : 1 ≤ n) :
    intArg (natText n) = Int32.ofNat n ∧ (1 : Int32) ≤ Int32.ofNat n := by
  constructor
  · rw [intArg, strtol_natText (by omega)]
    rfl
  · rw [Int32.le_iff_toInt_le, Int32.toInt_ofNat_of_lt h]
    exact Int.ofNat_le.mpr hpos

/-- Positive counts for which `size == machines + 1` are a configuration. -/
theorem exists_config {m t size : Int32} (hm : 1 ≤ m) (ht : 1 ≤ t) (hsize : 1 ≤ size)
    (hassert : size = m + 1) :
    ∃ cfg : Config, (cfg.machines : Int) = m.toInt ∧ (cfg.thrdpm : Int) = t.toInt ∧
      cfg.recvBound = (m * t).toInt := by
  have hone : (1 : Int32).toInt = 1 := rfl
  rw [Int32.le_iff_toInt_le, hone] at hm ht hsize
  have hmlt := m.toInt_lt
  have htlt := t.toInt_lt
  rw [hassert, Int32.toInt_add, hone] at hsize
  have hlast : m.toInt + 1 < 2 ^ 31 := by
    by_contra hover
    have hmax : m.toInt + 1 = 2 ^ 31 := by omega
    rw [hmax] at hsize
    exact absurd hsize (by decide)
  refine ⟨⟨m.toInt.toNat, t.toInt.toNat, by omega, by omega, by omega, by omega⟩, ?_, ?_, ?_⟩
  · exact Int.toNat_of_nonneg (by omega)
  · exact Int.toNat_of_nonneg (by omega)
  · have hback : ∀ {x : Int32}, 1 ≤ x.toInt → Int32.ofNat x.toInt.toNat = x := by
      intro x hx
      have hlt := x.toInt_lt
      rw [← Int32.toInt_inj, Int32.toInt_ofNat_of_lt (by omega)]
      exact Int.toNat_of_nonneg (by omega)
    show (Int32.ofNat m.toInt.toNat * Int32.ofNat t.toInt.toNat).toInt = _
    rw [hback hm, hback ht]

/-- A count is zero, where the option was not given, or positive. -/
theorem foldl_assign_counts {js : List (UInt8 × Word)} (hjs : ∀ j ∈ js, Accepted strtod j)
    {o : Options D} (ho : (o.machines = 0 ∨ 1 ≤ o.machines) ∧ (o.thrdpm = 0 ∨ 1 ≤ o.thrdpm)) :
    ((js.foldl (assign strtod) o).machines = 0 ∨ 1 ≤ (js.foldl (assign strtod) o).machines) ∧
      ((js.foldl (assign strtod) o).thrdpm = 0 ∨ 1 ≤ (js.foldl (assign strtod) o).thrdpm) := by
  induction js generalizing o with
  | nil => exact ho
  | cons j js ih =>
      have hj := hjs j List.mem_cons_self
      rw [List.foldl_cons]
      apply ih fun j hj => hjs j (List.mem_cons_of_mem _ hj)
      unfold assign
      unfold Accepted at hj
      split_ifs with hd ho' hm ht
      · exact ho
      · exact ho
      · rw [if_pos (Or.inl hm)] at hj
        exact ⟨Or.inr hj, ho.2⟩
      · rw [if_pos (Or.inr ht)] at hj
        exact ⟨ho.1, Or.inr hj⟩
      · exact ho

/-- **A command line with `-m` and `-t` that passes the assertion of `main` is a configuration of the
scheduler.** -/
theorem config_of_getOptions {argv : List Word} {o : Options D} (h : getOptions strtod argv = .ok o)
    (hm : o.machines ≠ 0) (ht : o.thrdpm ≠ 0) {size : Int32} (hsize : 1 ≤ size)
    (hassert : size = o.machines + 1) :
    ∃ cfg : Config, (cfg.machines : Int) = o.machines.toInt ∧ (cfg.thrdpm : Int) = o.thrdpm.toInt ∧
      cfg.recvBound = o.thrds.toInt := by
  obtain ⟨ps, rest, -, -, -, hps, rfl⟩ := (getOptions_eq_ok_iff strtod argv o).mp h
  obtain ⟨hmach, hthr⟩ := foldl_assign_counts strtod hps
    (o := Options.initial) ⟨Or.inl rfl, Or.inl rfl⟩
  exact exists_config (hmach.resolve_left hm) (hthr.resolve_left ht) hsize hassert

/-- **Every configuration can be given on a command line.** -/
theorem getOptions_config (cfg : Config) {x y : Word} (hx : x ≠ []) (hy : y ≠ []) :
    getOptions strtod [ascii "-d" ++ x, ascii "-o" ++ y, ascii "-m" ++ natText cfg.machines,
        ascii "-t" ++ natText cfg.thrdpm] =
      .ok { Options.initial with
        xfile := some x, yfile := some y, machines := Int32.ofNat cfg.machines,
        thrdpm := Int32.ofNat cfg.thrdpm,
        thrds := Int32.ofNat cfg.machines * Int32.ofNat cfg.thrdpm } := by
  have hmachines : cfg.machines < 2 ^ 31 := by
    have := cfg.size_lt
    omega
  obtain ⟨hm, hm1⟩ := intArg_natText hmachines cfg.one_le_machines
  obtain ⟨ht, ht1⟩ := intArg_natText cfg.thrdpm_lt cfg.one_le_thrdpm
  rw [getOptions_eq_ok_iff]
  refine ⟨[.attached 'd'.toUInt8 x, .attached 'o'.toUInt8 y,
    .attached 'm'.toUInt8 (natText cfg.machines), .attached 't'.toUInt8 (natText cfg.thrdpm)], [], rfl,
    Or.inl rfl, ?_, ?_, ?_⟩
  · simp only [List.forall_mem_cons, Piece.Fits]
    exact ⟨⟨by decide, hx⟩, ⟨by decide, hy⟩, ⟨by decide, natText_ne_nil _⟩, ⟨by decide, natText_ne_nil _⟩,
      by simp⟩
  · simp +decide [Piece.item, Accepted, hm, ht, hm1, ht1]
  · simp +decide [meaning, Piece.item, assign, hm, ht]

end

end CommTest.Mpi
