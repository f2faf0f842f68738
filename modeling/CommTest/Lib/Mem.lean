import Mathlib.Algebra.Group.Nat.Defs
import Mathlib.Data.List.Basic

/-!
# Memory behind a pointer

What a pointer points to, as a function of the offset. It has no length of its own: a buffer of `n`
bytes is the part below `n`, and writing past it is not ruled out by the type.

* `poke m pos xs` stores `xs` from offset `pos` on, `peek m n` reads the first `n` cells.
* `poke_append`: two stores one behind the other are one.
* `peek_poke`: what was stored at the start is read back.
* `encode32` / `decode32` are the four bytes of a 32-bit word in the byte order of the host, and
  `load32` / `store32` a word of memory: `load32_store32` reads it back, and a store does not change
  what lies beside it (`load32_store32_of_disjoint`, `peek_store32_of_le`). `load32_eq_iff`: words
  are equal when their bytes are.
-/

namespace Mem

universe u

variable {α : Type u}

/-- Store `xs` from offset `pos` on. -/
def poke (m : Nat → α) (pos : Nat) (xs : List α) : Nat → α :=
  fun i => if pos ≤ i then xs[i - pos]?.getD (m i) else m i

/-- The first `n` cells. -/
def peek (m : Nat → α) (n : Nat) : List α := (List.range n).map m

@[simp] theorem length_peek (m : Nat → α) (n : Nat) : (peek m n).length = n := by
  simp [peek]

@[simp] theorem poke_nil (m : Nat → α) (pos : Nat) : poke m pos [] = m := by
  funext i
  simp [poke]

/-- A store directly behind another one. -/
theorem poke_append (m : Nat → α) (pos : Nat) (xs ys : List α) :
    poke (poke m pos xs) (pos + xs.length) ys = poke m pos (xs ++ ys) := by
  funext i
  unfold poke
  by_cases hlo : pos ≤ i
  · by_cases hhi : pos + xs.length ≤ i
    · have hout : xs.length ≤ i - pos := by omega
      have hoff : i - (pos + xs.length) = i - pos - xs.length := by omega
      rw [if_pos hhi, if_pos hlo, if_pos hlo, List.getElem?_eq_none hout, hoff,
        List.getElem?_append_right hout]
      rfl
    · have hin : i - pos < xs.length := by omega
      rw [if_neg hhi, if_pos hlo, if_pos hlo, List.getElem?_append_left hin]
  · have hhi : ¬ pos + xs.length ≤ i := by omega
    rw [if_neg hhi, if_neg hlo, if_neg hlo]

/-- What was stored at the start is read back. -/
theorem peek_poke (m : Nat → α) (xs : List α) : peek (poke m 0 xs) xs.length = xs := by
  apply List.ext_getElem
  · simp
  · intro i hi hi'
    simp [peek, poke, hi']

/-- A store leaves the cells before it alone. -/
theorem poke_of_lt (m : Nat → α) {pos i : Nat} (xs : List α) (h : i < pos) : poke m pos xs i = m i := by
  have hlo : ¬ pos ≤ i := by omega
  rw [poke, if_neg hlo]

/-- A store leaves the cells behind it alone. -/
theorem poke_of_ge (m : Nat → α) {pos i : Nat} (xs : List α) (h : pos + xs.length ≤ i) :
    poke m pos xs i = m i := by
  have hlo : pos ≤ i := by omega
  have hout : xs.length ≤ i - pos := by omega
  rw [poke, if_pos hlo, List.getElem?_eq_none hout]
  rfl

/-! ## Words -/

/-- The bytes of a 32-bit word in memory. -/
def encode32 (n : UInt32) : List UInt8 :=
  [UInt8.ofNat n.toNat, UInt8.ofNat (n.toNat / 2 ^ 8), UInt8.ofNat (n.toNat / 2 ^ 16),
    UInt8.ofNat (n.toNat / 2 ^ 24)]

/-- The 32-bit word in four bytes of memory. -/
def decode32 : List UInt8 → UInt32
  | [a, b, c, d] =>
      UInt32.ofNat (a.toNat + b.toNat * 2 ^ 8 + c.toNat * 2 ^ 16 + d.toNat * 2 ^ 24)
  | _ => 0

@[simp] theorem length_encode32 (n : UInt32) : (encode32 n).length = 4 := rfl

theorem decode32_encode32 (n : UInt32) : decode32 (encode32 n) = n := by
  apply UInt32.toNat_inj.mp
  have hn := n.toNat_lt
  simp only [decode32, encode32, UInt32.toNat_ofNat', UInt8.toNat_ofNat']
  omega

/-- The word at offset `pos`. -/
def load32 (m : Nat → UInt8) (pos : Nat) : UInt32 :=
  decode32 [m pos, m (pos + 1), m (pos + 2), m (pos + 3)]

/-- Store the word `v` at offset `pos`. -/
def store32 (m : Nat → UInt8) (pos : Nat) (v : UInt32) : Nat → UInt8 := poke m pos (encode32 v)

/-- The word that was stored is read back. -/
@[simp] theorem load32_store32 (m : Nat → UInt8) (pos : Nat) (v : UInt32) :
    load32 (store32 m pos v) pos = v := by
  have hcells : [store32 m pos v pos, store32 m pos v (pos + 1), store32 m pos v (pos + 2),
      store32 m pos v (pos + 3)] = encode32 v := by
    simp [store32, poke, encode32]
  rw [load32, hcells, decode32_encode32]

/-- A word beside the one stored is not changed. -/
theorem load32_store32_of_disjoint (m : Nat → UInt8) {pos pos' : Nat} (v : UInt32)
    (h : pos' + 4 ≤ pos ∨ pos + 4 ≤ pos') : load32 (store32 m pos v) pos' = load32 m pos' := by
  have hcell : ∀ k, k < 4 → store32 m pos v (pos' + k) = m (pos' + k) := by
    intro k hk
    rcases h with h | h
    · exact poke_of_lt m _ (by omega)
    · exact poke_of_ge m _ (by rw [length_encode32]; omega)
  have h0 := hcell 0 (by omega)
  rw [Nat.add_zero] at h0
  rw [load32, load32, h0, hcell 1 (by omega), hcell 2 (by omega), hcell 3 (by omega)]

/-- A word is known from its four bytes. -/
theorem load32_eq_iff (m m' : Nat → UInt8) (pos : Nat) :
    load32 m pos = load32 m' pos ↔ ∀ k < 4, m (pos + k) = m' (pos + k) := by
  constructor
  · intro h
    have hlt : ∀ f : Nat → UInt8, ∀ i, (f i).toNat < 256 := fun f i => (f i).toNat_lt
    have h0 := hlt m pos
    have h0' := hlt m' pos
    have h1 := hlt m (pos + 1)
    have h1' := hlt m' (pos + 1)
    have h2 := hlt m (pos + 2)
    have h2' := hlt m' (pos + 2)
    have h3 := hlt m (pos + 3)
    have h3' := hlt m' (pos + 3)
    rw [← UInt32.toNat_inj] at h
    simp only [load32, decode32, UInt32.toNat_ofNat'] at h
    intro k hk
    rw [← UInt8.toNat_inj]
    obtain rfl | rfl | rfl | rfl : k = 0 ∨ k = 1 ∨ k = 2 ∨ k = 3 := by omega
    · show (m pos).toNat = (m' pos).toNat
      omega
    · omega
    · omega
    · omega
  · intro h
    have h0 := h 0 (by omega)
    rw [Nat.add_zero] at h0
    rw [load32, load32, h0, h 1 (by omega), h 2 (by omega), h 3 (by omega)]

/-- A store behind the first `n` cells does not change them. -/
theorem peek_store32_of_le (m : Nat → UInt8) {n pos : Nat} (v : UInt32) (h : n ≤ pos) :
    peek (store32 m pos v) n = peek m n := by
  unfold peek
  apply List.map_congr_left
  intro i hi
  rw [List.mem_range] at hi
  exact poke_of_lt m _ (by omega)

end Mem
