import Mathlib.Data.List.Basic
import Mathlib.Logic.Function.Iterate

/-!
# Cyclic redundancy checks

A check of `w` bits is a register that is shifted once for every bit of the message, the low bit
first; a bit that falls out of it adds the polynomial `poly` to the register.

* `shift`, `feed`, `run`: one shift, one message bit, a message.
* `run_eq_iterate`: as long as they fit into the register, all bits of a message can be added at
  once before the shifts. This is how an implementation takes a byte at a time.
* `shift_injective`: with the highest bit of the polynomial set, a shift can be undone.
* `run_ne_of_burst`, `run_range_ne`: two messages of one length that differ only inside of `w`
  consecutive bits have different checks.
* `reflected` is the check as CRC algorithms are specified, by a polynomial, an initial register, a
  word added at the end and the reflection of the register; `reflected_eq` ties it to `run`.
-/

namespace Crc

variable {w : Nat} (poly : BitVec w)

/-- One shift of the register. -/
def shift (c : BitVec w) : BitVec w := if c.getLsbD 0 then (c >>> 1) ^^^ poly else c >>> 1

/-- A message bit as a register. -/
def bit (b : Bool) : BitVec w := if b then 1#w else 0#w

/-- One message bit goes into the register. -/
def feed (c : BitVec w) (b : Bool) : BitVec w := shift poly (c ^^^ bit b)

/-- A message goes through the register. -/
def run (c : BitVec w) (bs : List Bool) : BitVec w := bs.foldl (feed poly) c

/-- The bits of a message side by side, the first one lowest. -/
def word : List Bool → BitVec w
  | [] => 0#w
  | b :: bs => (word bs <<< 1) ^^^ bit b

@[simp] theorem run_nil (c : BitVec w) : run poly c [] = c := rfl

@[simp] theorem run_cons (c : BitVec w) (b : Bool) (bs : List Bool) :
    run poly c (b :: bs) = run poly (feed poly c b) bs := rfl

theorem run_append (c : BitVec w) (bs bs' : List Bool) :
    run poly c (bs ++ bs') = run poly (run poly c bs) bs' := by
  simp [run, List.foldl_append]

/-! ## Words -/

theorem getLsbD_bit (b : Bool) (i : Nat) :
    (bit b : BitVec w).getLsbD i = (b && decide (0 < w) && decide (i = 0)) := by
  cases b with
  | false => simp [bit]
  | true => simp [bit, BitVec.getLsbD_one]

/-- Bit `i` of the word is bit `i` of the message. -/
theorem getLsbD_word (bs : List Bool) (i : Nat) :
    (word bs : BitVec w).getLsbD i = (decide (i < w) && bs.getD i false) := by
  induction bs generalizing i with
  | nil => simp [word]
  | cons b bs ih =>
      rw [word, BitVec.getLsbD_xor, BitVec.getLsbD_shiftLeft, ih, getLsbD_bit]
      cases i with
      | zero => simp [Bool.and_comm]
      | succ i =>
          have hi : i + 1 < w → i < w := fun h => by omega
          by_cases h : i + 1 < w
          · simp [h, hi h]
          · simp [h]

/-- A message that fits into the register is known from its word. -/
theorem word_inj {bs bs' : List Bool} (hlen : bs.length = bs'.length) (hfit : bs.length ≤ w)
    (h : (word bs : BitVec w) = word bs') : bs = bs' := by
  apply List.ext_getElem hlen
  intro i hi hi'
  have hw : i < w := by omega
  have hbit : (word bs : BitVec w).getLsbD i = (word bs' : BitVec w).getLsbD i := by
    rw [h]
  rw [getLsbD_word, getLsbD_word, decide_eq_true hw, Bool.true_and, Bool.true_and] at hbit
  simpa [hi, hi'] using hbit

/-! ## Shifts -/

/-- A shift is linear. -/
theorem shift_xor (a b : BitVec w) : shift poly (a ^^^ b) = shift poly a ^^^ shift poly b := by
  have hswap : ∀ x y : BitVec w, x ^^^ y = (x ^^^ poly) ^^^ (y ^^^ poly) := by
    intro x y
    rw [BitVec.xor_comm y poly, BitVec.xor_assoc, ← BitVec.xor_assoc poly poly y, BitVec.xor_self,
      BitVec.zero_xor]
  unfold shift
  rw [BitVec.getLsbD_xor, BitVec.ushiftRight_xor_distrib]
  cases a.getLsbD 0 <;> cases b.getLsbD 0
  · simp
  · simp [BitVec.xor_assoc]
  · simp [BitVec.xor_assoc, BitVec.xor_comm poly]
  · simpa using hswap _ _

/-- A word whose highest bit is clear comes back after a shift to the left. -/
theorem shift_shiftLeft {x : BitVec w} (h : x.getLsbD (w - 1) = false) : shift poly (x <<< 1) = x := by
  have hlow : (x <<< 1).getLsbD 0 = false := by simp
  rw [shift, hlow, if_neg (by simp)]
  apply BitVec.eq_of_getLsbD_eq
  intro i hi
  rw [BitVec.getLsbD_ushiftRight, BitVec.getLsbD_shiftLeft]
  by_cases hlast : 1 + i < w
  · rw [decide_eq_true hlast]
    simp
  · have htop : i = w - 1 := by omega
    rw [decide_eq_false hlast, htop, h]
    simp

/-- **The bits of a message that fits can be added at once**, before the shifts. -/
theorem run_eq_iterate {bs : List Bool} (hfit : bs.length ≤ w) (c : BitVec w) :
    run poly c bs = (shift poly)^[bs.length] (c ^^^ word bs) := by
  induction bs generalizing c with
  | nil => simp [word]
  | cons b bs ih =>
      rw [List.length_cons] at hfit
      have hclear : (word bs : BitVec w).getLsbD (w - 1) = false := by
        have hend : bs[w - 1]? = none := List.getElem?_eq_none (by omega)
        rw [getLsbD_word, List.getD_eq_getElem?_getD, hend]
        simp
      have hstep : shift poly (c ^^^ word (b :: bs)) = feed poly c b ^^^ word bs := by
        rw [word, BitVec.xor_comm (word bs <<< 1), ← BitVec.xor_assoc, shift_xor,
          shift_shiftLeft poly hclear, feed]
      rw [run_cons, ih (by omega), List.length_cons, Function.iterate_succ_apply, hstep]

variable {poly}

/-- **A shift can be undone** when the highest bit of the polynomial is set. -/
theorem shift_injective (hpoly : poly.getLsbD (w - 1) = true) : Function.Injective (shift poly) := by
  have hzero : ∀ c : BitVec w, shift poly c = 0#w → c = 0#w := by
    intro c hc
    have hbit : ∀ i, (shift poly c).getLsbD i = false := by
      intro i
      rw [hc, BitVec.getLsbD_zero]
    unfold shift at hbit
    cases hlow : c.getLsbD 0 with
    | true =>
        -- the highest bit of the result can only be the one of the polynomial
        have htop := hbit (w - 1)
        rw [hlow, if_pos rfl, BitVec.getLsbD_xor, BitVec.getLsbD_ushiftRight, hpoly,
          BitVec.getLsbD_of_ge c _ (by omega)] at htop
        cases htop
    | false =>
        apply BitVec.eq_of_getLsbD_eq
        intro i hi
        rw [BitVec.getLsbD_zero]
        cases i with
        | zero => exact hlow
        | succ i =>
            have hi' := hbit i
            rwa [hlow, if_neg (by simp), BitVec.getLsbD_ushiftRight, Nat.add_comm] at hi'
  intro a b hab
  have hdiff : shift poly (a ^^^ b) = 0#w := by rw [shift_xor, hab, BitVec.xor_self]
  exact BitVec.xor_eq_zero_iff.mp (hzero _ hdiff)

/-- Different registers stay different. -/
theorem run_injective (hpoly : poly.getLsbD (w - 1) = true) (bs : List Bool) :
    Function.Injective fun c => run poly c bs := by
  induction bs with
  | nil => exact fun _ _ h => h
  | cons b bs ih =>
      intro c c' h
      have hfeed := shift_injective hpoly (ih h)
      simpa using hfeed

/-- **A burst is detected**: messages of one length that differ only inside of `w` consecutive bits
leave different registers. -/
theorem run_ne_of_burst (hpoly : poly.getLsbD (w - 1) = true) (c : BitVec w) (front back : List Bool)
    {bs bs' : List Bool} (hlen : bs.length = bs'.length) (hfit : bs.length ≤ w) (hne : bs ≠ bs') :
    run poly c (front ++ bs ++ back) ≠ run poly c (front ++ bs' ++ back) := by
  intro h
  rw [run_append, run_append, run_append, run_append] at h
  have hmid : run poly (run poly c front) bs = run poly (run poly c front) bs' :=
    run_injective hpoly back h
  have hfit' : bs'.length ≤ w := hlen ▸ hfit
  rw [run_eq_iterate poly hfit (run poly c front), run_eq_iterate poly hfit' (run poly c front),
    ← hlen] at hmid
  have hword := (shift_injective hpoly).iterate _ hmid
  exact hne (word_inj hlen hfit (by simpa using hword))

/-- The places below `n`, with `m` of them cut out from `lo` on. -/
theorem range_split {n lo m : Nat} (h : lo + m ≤ n) :
    List.range n = List.range' 0 lo ++ List.range' lo m ++ List.range' (lo + m) (n - (lo + m)) := by
  have hfront : List.range' 0 lo ++ List.range' lo m = List.range' 0 (lo + m) := by
    simpa using List.range'_append_1 (s := 0) (m := lo) (n := m)
  have hall := List.range'_append_1 (s := 0) (m := lo + m) (n := n - (lo + m))
  rw [Nat.zero_add, Nat.add_sub_cancel' h] at hall
  rw [hfront, hall, List.range_eq_range']

/-- A burst in a message that is given bit by bit: `f` and `g` agree on the first `n` places outside
of the `w` ones from `lo` on, and differ somewhere. -/
theorem run_range_ne (hpoly : poly.getLsbD (w - 1) = true) (c : BitVec w) {f g : Nat → Bool}
    {n lo : Nat} (hagree : ∀ k < n, k < lo ∨ lo + w ≤ k → f k = g k) (hdiff : ∃ k < n, f k ≠ g k) :
    run poly c ((List.range n).map f) ≠ run poly c ((List.range n).map g) := by
  obtain ⟨k, hk, hne⟩ := hdiff
  have hin : lo ≤ k ∧ k < lo + w := by
    by_contra hout
    exact hne (hagree k hk (by omega))
  -- the part of the message that the burst can reach
  obtain ⟨m, hm, hmw, hkm, hend⟩ :
      ∃ m, lo + m ≤ n ∧ m ≤ w ∧ k < lo + m ∧ (m = w ∨ lo + m = n) :=
    ⟨min w (n - lo), by omega, by omega, by omega, by omega⟩
  have hsame : ∀ s m' : Nat, (∀ i, s ≤ i → i < s + m' → f i = g i) →
      (List.range' s m').map f = (List.range' s m').map g := by
    intro s m' h
    apply List.map_congr_left
    intro i hi
    rw [List.mem_range'_1] at hi
    exact h i hi.1 hi.2
  have hfront := hsame 0 lo fun i _ hi => hagree i (by omega) (by omega)
  have hback := hsame (lo + m) (n - (lo + m)) fun i hi hi' => hagree i (by omega) (by omega)
  rw [range_split hm, List.map_append, List.map_append, List.map_append, List.map_append, hfront,
    hback]
  apply run_ne_of_burst hpoly
  · simp
  · simpa using hmw
  · intro hmid
    have hkmem : k ∈ List.range' lo m := List.mem_range'_1.mpr ⟨hin.1, hkm⟩
    exact hne (List.map_inj_left.mp hmid k hkmem)

/-! ## Checks as they are specified -/

variable (poly)

/-- One message bit goes into a register that is shifted to the left. -/
def feedUp (c : BitVec w) (b : Bool) : BitVec w :=
  if c.msb ^^ b then (c <<< 1) ^^^ poly else c <<< 1

/-- The check of a message with the given polynomial, initial register and final word. The bits of the
message are given in the order in which they go through, and the register is read from the other
end. -/
def reflected (init final : BitVec w) (bs : List Bool) : BitVec w :=
  (bs.foldl (feedUp poly) init).reverse ^^^ final

theorem reverse_xor (a b : BitVec w) : (a ^^^ b).reverse = a.reverse ^^^ b.reverse := by
  apply BitVec.eq_of_getLsbD_eq
  intro i _
  simp only [BitVec.getLsbD_reverse, BitVec.getLsbD_xor, BitVec.getMsbD_xor]

theorem reverse_shiftLeft_one (c : BitVec w) : (c <<< 1).reverse = c.reverse >>> 1 := by
  apply BitVec.eq_of_getLsbD_eq
  intro i hi
  rw [BitVec.getLsbD_reverse, BitVec.getMsbD_shiftLeft, BitVec.getLsbD_ushiftRight,
    BitVec.getLsbD_reverse, Nat.add_comm]

theorem bit_ushiftRight_one (b : Bool) : (bit b : BitVec w) >>> 1 = 0#w := by
  apply BitVec.eq_of_getLsbD_eq
  intro i _
  rw [BitVec.getLsbD_ushiftRight, getLsbD_bit, BitVec.getLsbD_zero]
  simp

/-- A bit goes into the reflected register at its low end. -/
theorem reverse_feedUp (c : BitVec w) (b : Bool) :
    (feedUp poly c b).reverse = feed poly.reverse c.reverse b := by
  rcases Nat.eq_zero_or_pos w with hw | hw
  · subst hw
    exact Subsingleton.elim _ _
  have hlow : (c.reverse ^^^ bit b).getLsbD 0 = (c.msb ^^ b) := by
    rw [BitVec.getLsbD_xor, getLsbD_bit, BitVec.getLsbD_reverse, BitVec.msb]
    simp [hw]
  have hshift : (c.reverse ^^^ bit b) >>> 1 = (c <<< 1).reverse := by
    rw [BitVec.ushiftRight_xor_distrib, bit_ushiftRight_one, BitVec.xor_zero, reverse_shiftLeft_one]
  unfold feed shift feedUp
  rw [hlow, hshift]
  split_ifs
  · exact reverse_xor _ _
  · rfl

/-- **The reflected check is the register that is shifted to the right**, with the polynomial from the
other end. -/
theorem reflected_eq (init final : BitVec w) (bs : List Bool) :
    reflected poly init final bs = run poly.reverse init.reverse bs ^^^ final := by
  unfold reflected
  congr 1
  induction bs generalizing init with
  | nil => rfl
  | cons b bs ih => rw [List.foldl_cons, ih, reverse_feedUp, run_cons]
end Crc
