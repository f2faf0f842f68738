import Mathlib.Data.List.Basic
import Mathlib.Data.List.TakeWhile

/-!
# Lines and tokens

A text is a list of characters. A reader takes it apart piece by piece: `next` gives the first piece
and what is left, and `readAll next` repeats it.

* `readAll_eq`: when `next` gives the head of a specified list of pieces, and leaves less to read,
  `readAll` gives the list.
* `lines nl` are the lines of a text, each with its terminator; `nextLine nl k` is a reader of a
  line and at most `k` characters. `readAll_nextLine`: repeated, it gives the lines when they all
  fit, and `length_lines_le`: more pieces than lines when one of them does not.
* `tokens sep` are the maximal runs without a separator; `nextToken sep` is a reader of one token.
  `readAll_nextToken`: repeated, it gives the tokens.
-/

namespace Text

universe u v

/-! ## Reading piece by piece -/

section

variable {σ : Type u} {β : Type v}

/-- The pieces that `next` gives until it gives none, at most `n` of them. -/
def readAll (next : σ → Option (β × σ)) : Nat → σ → List β
  | 0, _ => []
  | n + 1, s =>
      match next s with
      | none => []
      | some (b, s') => b :: readAll next n s'

/-- **The reading rule**: a reader that gives the head of `pieces`, and leaves less to read, gives
all the pieces. -/
theorem readAll_eq {next : σ → Option (β × σ)} {pieces : σ → List β} (size : σ → Nat)
    (Inv : σ → Prop) (hnone : ∀ s, Inv s → next s = none → pieces s = [])
    (hsome : ∀ s b s', Inv s → next s = some (b, s') →
      pieces s = b :: pieces s' ∧ size s' < size s ∧ Inv s') {n : Nat} {s : σ} (hs : Inv s)
    (hn : size s ≤ n) : readAll next n s = pieces s := by
  induction n generalizing s with
  | zero =>
      cases hnext : next s with
      | none => rw [readAll, hnone s hs hnext]
      | some r =>
          have hlt := (hsome s r.1 r.2 hs hnext).2.1
          omega
  | succ n ih =>
      rw [readAll]
      cases hnext : next s with
      | none => rw [hnone s hs hnext]
      | some r =>
          obtain ⟨hpieces, hlt, hinv⟩ := hsome s r.1 r.2 hs hnext
          rw [hpieces, ← ih hinv (by omega)]

end

/-! ## Lines -/

section

variable {α : Type u} [DecidableEq α]

/-- The lines of a text, each with its terminator; only the last may have none. -/
def lines (nl : α) : List α → List (List α)
  | [] => []
  | c :: cs =>
      if c = nl then [c] :: lines nl cs
      else
        match lines nl cs with
        | [] => [[c]]
        | l :: ls => (c :: l) :: ls

/-- The beginning of a text up to its first terminator, and at most `k` characters of it. -/
def takeLine (nl : α) : Nat → List α → List α
  | _, [] => []
  | k, c :: cs =>
      if k = 0 then [] else if c = nl then [c] else c :: takeLine nl (k - 1) cs

/-- The first line, and the lines behind it. -/
theorem lines_cons (nl c : α) (cs : List α) :
    ∃ l, lines nl (c :: cs) = l :: lines nl ((c :: cs).drop l.length) ∧ l ≠ [] ∧
      ∀ k, l.length ≤ k → takeLine nl k (c :: cs) = l := by
  induction cs generalizing c with
  | nil =>
      refine ⟨[c], ?_, List.cons_ne_nil _ _, ?_⟩
      · by_cases hc : c = nl <;> simp [lines, hc]
      · intro k hk
        have hk0 : k ≠ 0 := Nat.one_le_iff_ne_zero.mp hk
        by_cases hc : c = nl <;> simp [takeLine, hc, hk0]
  | cons d ds ih =>
      by_cases hc : c = nl
      · refine ⟨[c], by simp [lines, hc], List.cons_ne_nil _ _, ?_⟩
        intro k hk
        have hk0 : k ≠ 0 := Nat.one_le_iff_ne_zero.mp hk
        simp [takeLine, hc, hk0]
      · obtain ⟨l, hl, -, htake⟩ := ih d
        refine ⟨c :: l, ?_, List.cons_ne_nil _ _, ?_⟩
        · rw [lines, if_neg hc, hl]
          rfl
        · intro k hk
          rw [List.length_cons] at hk
          rw [takeLine, if_neg (by omega), if_neg hc, htake (k - 1) (by omega)]

/-- **A line that fits is read whole.** -/
theorem takeLine_eq {nl : α} {k : Nat} {text : List α} (htext : text ≠ [])
    (hk : ∀ l ∈ lines nl text, l.length ≤ k) :
    lines nl text =
        takeLine nl k text :: lines nl (text.drop (takeLine nl k text).length) ∧
      takeLine nl k text ≠ [] := by
  obtain ⟨c, cs, rfl⟩ := List.exists_cons_of_ne_nil htext
  obtain ⟨l, hl, hne, htake⟩ := lines_cons nl c cs
  have hlen : l.length ≤ k := hk l (by rw [hl]; exact List.mem_cons_self)
  rw [htake k hlen]
  exact ⟨hl, hne⟩

/-- A line, or as much of it as fits into `k` characters. -/
def nextLine (nl : α) (k : Nat) (text : List α) : Option (List α × List α) :=
  if text = [] then none else some (takeLine nl k text, text.drop (takeLine nl k text).length)

/-- **Repeated reading gives the lines**, when they all fit. -/
theorem readAll_nextLine {nl : α} {k : Nat} {text : List α}
    (h : ∀ l ∈ lines nl text, l.length ≤ k) :
    readAll (nextLine nl k) text.length text = lines nl text := by
  refine readAll_eq List.length (fun text => ∀ l ∈ lines nl text, l.length ≤ k) ?_ ?_ h
    (Nat.le_refl _)
  · intro text _ hnone
    by_cases hnil : text = []
    · rw [hnil, lines]
    · rw [nextLine, if_neg hnil] at hnone
      cases hnone
  · intro text l rest hfit hsome
    by_cases hnil : text = []
    · rw [nextLine, if_pos hnil] at hsome
      cases hsome
    · rw [nextLine, if_neg hnil] at hsome
      cases hsome
      obtain ⟨hlines, hne⟩ := takeLine_eq hnil hfit
      refine ⟨hlines, ?_, ?_⟩
      · have hpos := List.length_pos_of_ne_nil hne
        have htext := List.length_pos_of_ne_nil hnil
        rw [List.length_drop]
        omega
      · intro l hl
        apply hfit
        rw [hlines]
        exact List.mem_cons_of_mem _ hl

/-- A line that has its terminator, and the lines behind it. -/
theorem lines_append {nl : α} {w : List α} (hw : nl ∉ w) (s : List α) :
    lines nl (w ++ nl :: s) = (w ++ [nl]) :: lines nl s := by
  induction w with
  | nil => rw [List.nil_append, List.nil_append, lines, if_pos rfl]
  | cons c w ih =>
      have hc : c ≠ nl := fun h => hw (h ▸ List.mem_cons_self)
      rw [List.cons_append, lines, if_neg hc, ih fun h => hw (List.mem_cons_of_mem _ h)]
      rfl

/-- What the first line of a text is made of. -/
theorem lines_eq_cons {nl c : α} {cs l : List α} {ls : List (List α)}
    (h : lines nl (c :: cs) = l :: ls) :
    l = [c] ∨ c ≠ nl ∧ ∃ l', l = c :: l' ∧ lines nl cs = l' :: ls := by
  by_cases hc : c = nl
  · rw [lines, if_pos hc] at h
    cases h
    exact .inl rfl
  · cases hcs : lines nl cs with
    | nil =>
        rw [lines, if_neg hc, hcs] at h
        cases h
        exact .inl rfl
    | cons l' ls' =>
        rw [lines, if_neg hc, hcs] at h
        cases h
        exact .inr ⟨hc, l', rfl, rfl⟩

/-- Of a line that does not fit the beginning is read, and the rest of it is a line again. -/
theorem takeLine_of_lt {nl : α} {k : Nat} {text l : List α} {ls : List (List α)}
    (h : lines nl text = l :: ls) (hk : k < l.length) :
    (takeLine nl k text).length = k ∧ lines nl (text.drop k) = l.drop k :: ls := by
  induction k generalizing text l with
  | zero => cases text <;> simp_all [takeLine]
  | succ k ih =>
      cases text with
      | nil => cases h
      | cons c cs =>
          rcases lines_eq_cons h with rfl | ⟨hc, l', rfl, hcs⟩
          · rw [List.length_singleton] at hk
            omega
          · obtain ⟨hlen, hdrop⟩ := ih hcs (by rw [List.length_cons] at hk; omega)
            rw [takeLine, if_neg (Nat.succ_ne_zero k), if_neg hc, Nat.add_sub_cancel, List.length_cons,
              hlen, List.drop_succ_cons, List.drop_succ_cons]
            exact ⟨rfl, hdrop⟩

/-- **A line that does not fit is read in more than one piece.** -/
theorem length_lines_le {nl : α} {k : Nat} (hk : 0 < k) {n : Nat} {text : List α}
    (hn : text.length ≤ n) :
    (lines nl text).length ≤ (readAll (nextLine nl k) n text).length ∧
      ((∃ l ∈ lines nl text, k < l.length) →
        (lines nl text).length < (readAll (nextLine nl k) n text).length) := by
  induction n generalizing text with
  | zero =>
      rw [List.length_eq_zero_iff.mp (Nat.le_zero.mp hn)]
      simp [lines]
  | succ n ih =>
      by_cases htext : text = []
      · subst htext
        simp [lines]
      obtain ⟨c, cs, rfl⟩ := List.exists_cons_of_ne_nil htext
      obtain ⟨l, hl, hne, htake⟩ := lines_cons nl c cs
      have hpos := List.length_pos_of_ne_nil hne
      rw [readAll, nextLine, if_neg htext]
      by_cases hfit : l.length ≤ k
      · -- the line is one piece
        obtain ⟨hle, hlt⟩ := @ih ((c :: cs).drop l.length)
          (by rw [List.length_drop]; omega)
        rw [htake k hfit, hl, List.length_cons, List.length_cons]
        refine ⟨Nat.succ_le_succ hle, ?_⟩
        rintro ⟨l', hl', hlong⟩
        rcases List.mem_cons.mp hl' with rfl | hl'
        · omega
        · exact Nat.succ_lt_succ (hlt ⟨l', hl', hlong⟩)
      · -- the rest of the line is there twice
        obtain ⟨hlen, hdrop⟩ := takeLine_of_lt hl (Nat.lt_of_not_le hfit)
        obtain ⟨hle, -⟩ := @ih ((c :: cs).drop k) (by rw [List.length_drop]; omega)
        rw [hdrop, List.length_cons] at hle
        rw [hlen, hl, List.length_cons, List.length_cons]
        exact ⟨by omega, fun _ => by omega⟩

end

/-! ## Tokens -/

section

variable {α : Type u} {sep : α → Bool}

/-- The maximal runs of characters that are not separators. -/
def tokens (sep : α → Bool) (s : List α) : List (List α) :=
  (s.splitOnP sep).filter fun t => !t.isEmpty

/-- Skip the separators, take the run up to the next one, and leave what is behind that. -/
def nextToken (sep : α → Bool) (s : List α) : Option (List α × List α) :=
  match s.dropWhile sep with
  | [] => none
  | c :: s' =>
      some ((c :: s').takeWhile fun c => !sep c, ((c :: s').dropWhile fun c => !sep c).drop 1)

theorem tokens_nil : tokens sep [] = [] := by
  simp [tokens]

theorem tokens_cons_sep {c : α} (hc : sep c = true) (s : List α) :
    tokens sep (c :: s) = tokens sep s := by
  simp [tokens, List.splitOnP_cons_eq_if_modifyHead, hc]

theorem tokens_dropWhile (s : List α) : tokens sep (s.dropWhile sep) = tokens sep s := by
  induction s with
  | nil => rfl
  | cons c s ih =>
      by_cases hc : sep c = true
      · rw [List.dropWhile_cons_of_pos hc, ih, tokens_cons_sep hc]
      · rw [List.dropWhile_cons_of_neg hc]

/-- What is left of a list where a test has failed. -/
theorem dropWhile_cases (p : α → Bool) (s : List α) :
    s.dropWhile p = [] ∨ ∃ d r, p d = false ∧ s.dropWhile p = d :: r := by
  have hhead := List.head?_dropWhile_not p s
  cases h : s.dropWhile p with
  | nil => exact .inl rfl
  | cons d r =>
      rw [h] at hhead
      exact .inr ⟨d, r, hhead, rfl⟩

/-- A run, and then nothing or a separator. -/
theorem tokens_run {w r : List α} (hw : w ≠ []) (hrun : ∀ c ∈ w, sep c = false)
    (hr : r = [] ∨ ∃ d s, sep d = true ∧ r = d :: s) :
    tokens sep (w ++ r) = w :: tokens sep (r.drop 1) := by
  have hne : w.isEmpty = false := List.isEmpty_eq_false_iff.mpr hw
  rcases hr with rfl | ⟨d, s, hd, rfl⟩
  · rw [List.append_nil, List.drop_nil, tokens_nil, tokens, List.splitOnP_eq_singleton hrun]
    simp [hne]
  · rw [tokens, List.splitOnP_append_cons_of_forall_mem hrun d hd, List.drop_one, List.tail_cons]
    simp [hne, tokens]

/-- One reading gives the first token and leaves the others. -/
theorem tokens_of_nextToken {s w rest : List α} (h : nextToken sep s = some (w, rest)) :
    tokens sep s = w :: tokens sep rest ∧ rest.length < s.length := by
  rcases dropWhile_cases sep s with hnil | ⟨c, s', hc, hs⟩
  · rw [nextToken, hnil] at h
    cases h
  · rw [nextToken, hs] at h
    cases h
    have hsplit : (c :: s').takeWhile (fun c => !sep c) ++ (c :: s').dropWhile (fun c => !sep c) =
        c :: s' := List.takeWhile_append_dropWhile
    have hwne : (c :: s').takeWhile (fun c => !sep c) ≠ [] := by
      rw [List.takeWhile_cons_of_pos (by simp [hc])]
      exact List.cons_ne_nil _ _
    have hrun : ∀ d ∈ (c :: s').takeWhile (fun c => !sep c), sep d = false := by
      intro d hd
      simpa using List.mem_takeWhile_imp hd
    have hrest : (c :: s').dropWhile (fun c => !sep c) = [] ∨
        ∃ d r, sep d = true ∧ (c :: s').dropWhile (fun c => !sep c) = d :: r := by
      rcases dropWhile_cases (fun c => !sep c) (c :: s') with hd | ⟨d, r, hd, hr⟩
      · exact .inl hd
      · exact .inr ⟨d, r, by simpa using hd, hr⟩
    constructor
    · rw [← tokens_dropWhile, hs]
      conv_lhs => rw [← hsplit]
      exact tokens_run hwne hrun hrest
    · have hlen := congrArg List.length hsplit
      have hle : (s.dropWhile sep).length ≤ s.length := List.length_dropWhile_le _ _
      have hpos := List.length_pos_of_ne_nil hwne
      rw [hs] at hle
      rw [List.length_append] at hlen
      rw [List.length_drop]
      omega

/-- **Repeated reading gives the tokens.** -/
theorem readAll_nextToken (s : List α) : readAll (nextToken sep) s.length s = tokens sep s := by
  refine readAll_eq List.length (fun _ => True) ?_ ?_ trivial (Nat.le_refl _)
  · intro s _ hnone
    rcases dropWhile_cases sep s with hnil | ⟨c, s', hc, hs⟩
    · rw [← tokens_dropWhile, hnil, tokens_nil]
    · rw [nextToken, hs] at hnone
      cases hnone
  · intro s w rest _ hsome
    obtain ⟨htokens, hlt⟩ := tokens_of_nextToken hsome
    exact ⟨htokens, hlt, trivial⟩

end

end Text
