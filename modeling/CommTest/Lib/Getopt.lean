import Mathlib.Data.List.Basic

/-!
# Command lines with options of one letter

The words of a command line as the C library's `getopt` goes through them: an option stands behind a
dash, alone or with others, and its argument is the rest of the word or the next word. Words that are
no options are passed over, and `--` ends the options.

* `scan` gives what the calls of `getopt` return, in order.
* `Piece` is one option with its argument, in either spelling, or a word that is no option; `spell`
  writes pieces as words.
* `scan_declared`: what is returned agrees with the option string.
* `scan_spell` and `exists_pieces`: the command lines whose options all have arguments are those that
  `spell` writes, and `scan` reads them back.
-/

set_option linter.unusedSectionVars false

namespace Getopt

universe u

variable {α : Type u} [DecidableEq α]

/-- What one call of `getopt` returns: an option with `optarg`, or that there is no such option or its
argument is missing. -/
inductive Item (α : Type u)
  | opt (c : α) (optarg : Option (List α))
  | bad

/-- Whether `c` is an option of `optstring`, and whether it takes an argument: a colon stands behind
it. -/
def takesArg (colon : α) : List α → α → Option Bool
  | [], _ => none
  | o :: os, c =>
      if o = colon then takesArg colon os c
      else if o = c then some (os.head? = some colon)
      else takesArg colon os c

variable (args : α → Option Bool) (dash : α)

/-- The options in one word, and the one whose argument is the next word. -/
def cluster : List α → List (Item α) × Option α
  | [] => ([], none)
  | c :: cs =>
      match args c with
      | none => (.bad :: (cluster cs).1, (cluster cs).2)
      | some false => (.opt c none :: (cluster cs).1, (cluster cs).2)
      | some true => if cs = [] then ([], some c) else ([.opt c (some cs)], none)

/-- Whether a word holds options. -/
def isOption (w : List α) : Bool := w.head? = some dash ∧ w ≠ [dash]

/-- What the calls of `getopt` return for the words that are left, when the option `awaiting` still
needs its argument. -/
def scan : Option α → List (List α) → List (Item α)
  | none, [] => []
  | some _, [] => [.bad]
  | some c, w :: ws => .opt c (some w) :: scan none ws
  | none, w :: ws =>
      if w = [dash, dash] then []
      else if isOption dash w then (cluster args w.tail).1 ++ scan (cluster args w.tail).2 ws
      else scan none ws

/-! ## The command lines in which all options have arguments -/

/-- An option with its argument, or a word that is no option. -/
inductive Piece (α : Type u)
  /-- The argument is the rest of the word. -/
  | attached (c : α) (optarg : List α)
  /-- The argument is the next word. -/
  | separate (c : α) (optarg : List α)
  | operand (w : List α)

namespace Piece

/-- The words of a piece. -/
def words : Piece α → List (List α)
  | attached c optarg => [dash :: c :: optarg]
  | separate c optarg => [[dash, c], optarg]
  | operand w => [w]

/-- The option of a piece. -/
def item : Piece α → Option (α × List α)
  | attached c optarg => some (c, optarg)
  | separate c optarg => some (c, optarg)
  | operand _ => none

/-- The option of a piece takes an argument, and an argument in the same word is not empty. -/
def Fits : Piece α → Prop
  | attached c optarg => args c = some true ∧ optarg ≠ []
  | separate c _ => args c = some true
  | operand w => isOption dash w = false

end Piece

/-- The words of a command line. -/
def spell (ps : List (Piece α)) : List (List α) := ps.flatMap (Piece.words dash)

/-- The options of a command line. -/
def items (ps : List (Piece α)) : List (Item α) :=
  (ps.filterMap Piece.item).map fun o => .opt o.1 (some o.2)

/-- The options end: with the words, or at `--`. -/
def Ends (ws : List (List α)) : Prop := ws = [] ∨ ∃ rest, ws = [dash, dash] :: rest

variable {args dash}

theorem Piece.args_of_item {p : Piece α} (hp : p.Fits args dash) {i : α × List α}
    (hi : p.item = some i) : args i.1 = some true := by
  cases p with
  | attached c optarg =>
      cases hi
      exact hp.1
  | separate c optarg =>
      cases hi
      exact hp
  | operand w => cases hi

theorem isOption_cons (c : α) (cs : List α) : isOption dash (dash :: c :: cs) = true := by
  simp [isOption]

theorem scan_of_ends {ws : List (List α)} (h : Ends dash ws) : scan args dash none ws = [] := by
  rcases h with rfl | ⟨rest, rfl⟩
  · rfl
  · rw [scan, if_pos rfl]

/-- **What is spelled is read.** -/
theorem scan_spell (hdash : args dash = none) {ps : List (Piece α)}
    (hps : ∀ p ∈ ps, p.Fits args dash) {ws : List (List α)} (hws : Ends dash ws) :
    scan args dash none (spell dash ps ++ ws) = items ps := by
  induction ps with
  | nil => exact scan_of_ends hws
  | cons p ps ih =>
      have hp := hps p List.mem_cons_self
      have hrest := ih fun q hq => hps q (List.mem_cons_of_mem _ hq)
      unfold spell at hrest ⊢
      rw [List.flatMap_cons, List.append_assoc]
      cases p with
      | attached c optarg =>
          obtain ⟨harg, hne⟩ := hp
          have hword : ¬ dash :: c :: optarg = [dash, dash] := by simp [hne]
          simp only [Piece.words, List.singleton_append, scan, if_neg hword, isOption_cons, if_true,
            List.tail_cons, cluster, harg, if_neg hne, hrest]
          rfl
      | separate c optarg =>
          have harg : args c = some true := hp
          have hword : ¬ [dash, c] = [dash, dash] := by
            intro heq
            rw [List.cons.injEq, List.cons.injEq] at heq
            rw [heq.2.1, hdash] at harg
            cases harg
          simp only [Piece.words, List.cons_append, List.nil_append, scan, if_neg hword, isOption_cons,
            if_true, List.tail_cons, cluster, harg, hrest]
          rfl
      | operand w =>
          have hoperand : isOption dash w = false := hp
          have hword : ¬ w = [dash, dash] := by
            rintro rfl
            simp [isOption] at hoperand
          simp only [Piece.words, List.singleton_append, scan, if_neg hword, hoperand, hrest]
          rfl

/-- An option of the option string, with an argument exactly when it takes one. -/
def Item.Declared (args : α → Option Bool) : Item α → Prop
  | .opt c optarg => args c = some optarg.isSome
  | .bad => True

theorem cluster_declared {cs : List α} :
    (∀ i ∈ (cluster args cs).1, i.Declared args) ∧ ∀ c ∈ (cluster args cs).2, args c = some true := by
  induction cs with
  | nil => exact ⟨by simp [cluster], by simp [cluster]⟩
  | cons c cs ih =>
      unfold cluster
      split
      · exact ⟨List.forall_mem_cons.mpr ⟨trivial, ih.1⟩, ih.2⟩
      · rename_i hflag
        exact ⟨List.forall_mem_cons.mpr ⟨hflag, ih.1⟩, ih.2⟩
      · rename_i harg
        split_ifs
        · exact ⟨by simp, by simpa using harg⟩
        · exact ⟨by simpa [Item.Declared] using harg, by simp⟩

/-- `getopt` returns what the option string says. -/
theorem scan_declared (ws : List (List α)) :
    ∀ i ∈ scan args dash none ws, i.Declared args := by
  suffices hgen : ∀ awaiting : Option α, (∀ c ∈ awaiting, args c = some true) →
      ∀ i ∈ scan args dash awaiting ws, i.Declared args from hgen none (by simp)
  induction ws with
  | nil =>
      rintro (_ | c) -
      · simp [scan]
      · simp [scan, Item.Declared]
  | cons w ws ih =>
      rintro (_ | c) hc
      · rw [scan]
        obtain ⟨hhere, hnext⟩ := @cluster_declared _ _ args w.tail
        split_ifs
        · simp
        · intro i hi
          rcases List.mem_append.mp hi with hi | hi
          · exact hhere i hi
          · exact ih _ hnext i hi
        · exact ih none (by simp)
      · rw [scan]
        exact List.forall_mem_cons.mpr ⟨hc c rfl, ih none (by simp)⟩

/-- An option without a fault, and with an argument. -/
def Item.HasArg : Item α → Prop
  | .opt _ optarg => optarg.isSome = true
  | .bad => False

/-- Where no option is without argument, a word holds one option. -/
theorem cluster_of_hasArg {c : α} {cs : List α} (h : ∀ i ∈ (cluster args (c :: cs)).1, i.HasArg) :
    args c = some true := by
  unfold cluster at h
  split at h
  · exact absurd (h .bad List.mem_cons_self) id
  · exact absurd (h (.opt c none) List.mem_cons_self) (by simp [Item.HasArg])
  · assumption

/-- **What is read without a fault was spelled.** With an option that awaits its argument, the next word
is that. -/
theorem exists_pieces (ws : List (List α)) :
    (∀ i ∈ scan args dash none ws, i.HasArg) →
      ∃ ps rest, ws = spell dash ps ++ rest ∧ (∀ p ∈ ps, p.Fits args dash) ∧ Ends dash rest := by
  suffices hgen : ∀ awaiting, (∀ i ∈ scan args dash awaiting ws, i.HasArg) →
      ∃ ps rest, (∀ p ∈ ps, p.Fits args dash) ∧ Ends dash rest ∧
        match awaiting with
        | none => ws = spell dash ps ++ rest
        | some _ => ∃ w, ws = w :: (spell dash ps ++ rest) by
    intro h
    obtain ⟨ps, rest, hps, hrest, hws⟩ := hgen none h
    exact ⟨ps, rest, hws, hps, hrest⟩
  induction ws with
  | nil =>
      rintro (_ | c) h
      · exact ⟨[], [], by simp, Or.inl rfl, rfl⟩
      · exact absurd (h .bad List.mem_cons_self) id
  | cons w ws ih =>
      rintro (_ | c) h
      · rw [scan] at h
        split_ifs at h with hend hopt
        · exact ⟨[], w :: ws, by simp, Or.inr ⟨ws, by rw [hend]⟩, rfl⟩
        · -- the word starts with a dash, and more
          obtain ⟨c, cs, rfl⟩ : ∃ c cs, w = dash :: c :: cs := by
            simp only [isOption, decide_eq_true_eq] at hopt
            match w, hopt with
            | d :: c :: cs, ⟨hhead, _⟩ =>
                rw [List.head?_cons, Option.some.injEq] at hhead
                exact ⟨c, cs, by rw [hhead]⟩
            | [d], ⟨hhead, hne⟩ =>
                rw [List.head?_cons, Option.some.injEq] at hhead
                exact absurd (by rw [hhead]) hne
            | [], ⟨hhead, _⟩ => cases hhead
          rw [List.tail_cons] at h
          have harg := cluster_of_hasArg fun i hi => h i (List.mem_append_left _ hi)
          have hrest := ih _ fun i hi => h i (List.mem_append_right _ hi)
          obtain ⟨ps, rest, hps, hrest, hws⟩ := hrest
          by_cases hcs : cs = []
          · subst hcs
            simp only [cluster, harg, if_true] at hws
            obtain ⟨optarg, rfl⟩ := hws
            refine ⟨.separate c optarg :: ps, rest, ?_, hrest, rfl⟩
            exact List.forall_mem_cons.mpr ⟨harg, hps⟩
          · simp only [cluster, harg, if_neg hcs] at hws
            refine ⟨.attached c cs :: ps, rest, ?_, hrest, by rw [hws]; rfl⟩
            exact List.forall_mem_cons.mpr ⟨⟨harg, hcs⟩, hps⟩
        · obtain ⟨ps, rest, hps, hrest, hws⟩ := ih none h
          refine ⟨.operand w :: ps, rest, ?_, hrest, by rw [hws]; rfl⟩
          exact List.forall_mem_cons.mpr ⟨Bool.eq_false_iff.mpr hopt, hps⟩
      · rw [scan] at h
        obtain ⟨ps, rest, hps, hrest, hws⟩ := ih none fun i hi => h i (List.mem_cons_of_mem _ hi)
        exact ⟨ps, rest, hps, hrest, w, by rw [hws]⟩

end Getopt
