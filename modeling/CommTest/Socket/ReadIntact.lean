import CommTest.Socket.ReadErrors

/-!
# What is in the buffer when `readn` reports success

A failing `read` takes one off the count of `readn`, and the next `read` stores over the last byte
it had.

* `stores` lists the places where a `readn` stores, also one that does not return; `stores_inside`:
  they are all inside of its buffer.
* `readn_mem`: a `readn` that returns leaves these stores, one after the other.
* `readn_intact_iff`: exactly when the buffer holds the next bytes of the stream whenever the result
  is the length.
-/

set_option linter.unusedSectionVars false

namespace CommTest.Socket

open Mem

/-! ## The stores of a readn -/

/-- The stores of the loop of `readn`, each with its offset, for as long as there are outcomes. -/
def loopStores (len : Nat) : Nat → Conn → List ReadOutcome → List (Nat × Bytes)
  | _, _, [] => []
  | readbytes, c, o :: script =>
      if readbytes < len then
        match read (len - readbytes) c o with
        | some (readmore, chunk, c') =>
            (readbytes, chunk) :: loopStores len ((readbytes + readmore) % 2 ^ 64) c' script
        | none => []
      else []

/-- The stores of `readn`. -/
def stores (len : Nat) (c : Conn) : List ReadOutcome → List (Nat × Bytes)
  | [] => []
  | o :: script =>
      match read len c o with
      | some (readbytes, chunk, c') =>
          (0, chunk) :: if readbytes = 0 then [] else loopStores len readbytes c' script
      | none => []

/-- Memory after a list of stores. -/
def storeAll (buff : Memory) (sts : List (Nat × Bytes)) : Memory :=
  sts.foldl (fun m st => poke m st.1 st.2) buff

theorem storeAll_cons (buff : Memory) (st : Nat × Bytes) (sts : List (Nat × Bytes)) :
    storeAll buff (st :: sts) = storeAll (poke buff st.1 st.2) sts := rfl

/-- A `read` stores no more than it was asked for. -/
theorem read_chunk_le {len n : Nat} {c c' : Conn} {o : ReadOutcome} {chunk : Bytes}
    (h : read len c o = some (n, chunk, c')) : chunk.length ≤ len := by
  cases o with
  | err =>
      cases h
      exact Nat.zero_le len
  | got k =>
      unfold read at h
      split_ifs at h
      · cases h
        exact Nat.zero_le len
      · cases h
        exact Nat.zero_le len
      · cases h
        rw [List.length_take]
        omega

theorem loopStores_inside {len : Nat} (script : List ReadOutcome) :
    ∀ (readbytes : Nat) (c : Conn), ∀ st ∈ loopStores len readbytes c script,
      st.1 + st.2.length ≤ len := by
  induction script with
  | nil =>
      intro readbytes c st hst
      cases hst
  | cons o script ih =>
      intro readbytes c st hst
      unfold loopStores at hst
      split_ifs at hst with hlt
      · cases hread : read (len - readbytes) c o with
        | none =>
            rw [hread] at hst
            cases hst
        | some r =>
            obtain ⟨n, chunk, c'⟩ := r
            rw [hread] at hst
            have hle := read_chunk_le hread
            rcases List.mem_cons.mp hst with rfl | hst
            · show readbytes + chunk.length ≤ len
              omega
            · exact ih _ _ st hst
      · cases hst

/-- **Every store is inside of the buffer**, whatever the outcomes of the reads are. -/
theorem stores_inside (len : Nat) (c : Conn) (script : List ReadOutcome) :
    ∀ st ∈ stores len c script, st.1 + st.2.length ≤ len := by
  intro st hst
  cases script with
  | nil => cases hst
  | cons o script =>
      cases hread : read len c o with
      | none =>
          simp only [stores, hread] at hst
          cases hst
      | some r =>
          obtain ⟨n, chunk, c'⟩ := r
          simp only [stores, hread] at hst
          have hle := read_chunk_le hread
          rcases List.mem_cons.mp hst with rfl | hst
          · rw [Nat.zero_add]
            exact hle
          · split_ifs at hst
            · cases hst
            · exact loopStores_inside script n c' st hst

theorem readLoop_mem {len : Nat} {script : List ReadOutcome} :
    ∀ {readbytes : Nat} {buff : Memory} {c : Conn} {b : ReadRes},
    readLoop len readbytes buff c script = some b →
    b.mem = storeAll buff (loopStores len readbytes c script) := by
  induction script with
  | nil =>
      intro readbytes buff c b h
      unfold readLoop at h
      split_ifs at h
      cases h
      rfl
  | cons o script ih =>
      intro readbytes buff c b h
      by_cases hlt : readbytes < len
      · cases hread : read (len - readbytes) c o with
        | none => simp only [readLoop, if_pos hlt, hread, reduceCtorEq] at h
        | some r =>
            obtain ⟨n, chunk, c'⟩ := r
            simp only [readLoop, if_pos hlt, hread] at h
            simp only [loopStores, if_pos hlt, hread]
            rw [storeAll_cons]
            exact ih h
      · rw [readLoop_done hlt] at h
        cases h
        simp only [loopStores, if_neg hlt]
        rfl

/-- **The buffer of a `readn` that returns** is what its stores leave. -/
theorem readn_mem {len : Nat} {buff : Memory} {c : Conn} {script : List ReadOutcome} {b : ReadRes}
    (h : readn len buff c script = some b) : b.mem = storeAll buff (stores len c script) := by
  cases script with
  | nil => cases h
  | cons o script =>
      cases hread : read len c o with
      | none => simp only [readn, hread, reduceCtorEq] at h
      | some r =>
          obtain ⟨n, chunk, c'⟩ := r
          simp only [readn, hread] at h
          simp only [stores, hread]
          rw [storeAll_cons]
          split_ifs at h with hzero
          · cases h
            rw [if_pos hzero]
            rfl
          · rw [if_neg hzero]
            exact readLoop_mem h

/-! ## The bytes of the stream -/

/-- The buffer holds the next `len` bytes of the stream, and these are taken from it. -/
def Received (len : Nat) (c : Conn) (b : ReadRes) : Prop :=
  peek b.mem len = c.incoming.take len ∧ b.conn.incoming = c.incoming.drop len

/-- When the result of a `readn` with its first bytes can be relied on: its length does not fit in
an `int`, or no read fails before all the bytes are in, or the failing reads get ahead of the bytes.
-/
def Intact (len avail : Nat) (script : List ReadOutcome) : Prop :=
  2 ^ 31 ≤ len ∨ Outnumbered len 0 avail script ∨ ∃ rest, afterBytes len script = some rest

theorem toInt_ne_of_le {n : Nat} (h : 2 ^ 31 ≤ n) (x : Int32) : x.toInt ≠ n := by
  have hlt := x.toInt_lt
  omega

/-- A `readn` that has counted its bytes has received them exactly when no read failed. -/
theorem received_iff {len k d : Nat} {buff : Memory} {c : Conn} {script used : List ReadOutcome}
    {b : ReadRes} (h0 : 0 < len) (hlen : len < 2 ^ 64)
    (hb : readn len buff c (.got k :: script) = some b)
    (htally : Tally len 0 c (.got k :: script) b used d) (hd : d = len + used.count .err) :
    Received len c b ↔ ∃ rest, afterBytes len (.got k :: script) = some rest := by
  have htaken := htally.taken
  constructor
  · rintro ⟨-, hleft⟩
    have hcount := congrArg List.length hleft
    rw [List.length_drop] at hcount
    refine ⟨_, htally.clean fun herr => ?_⟩
    have hpos : 0 < used.count .err := List.count_pos_iff.mpr herr
    omega
  · rintro ⟨rest, hafter⟩
    rw [readn_afterBytes h0 hlen (by omega) hafter buff] at hb
    cases hb
    have hpeek := peek_poke buff (c.incoming.take len)
    rw [List.length_take_of_le (by omega)] at hpeek
    exact ⟨hpeek, rfl⟩

/-- **When the data of a complete `readn` is intact**: for every length, every stream and every
outcome of the reads behind a first one that brings something, the stores stay inside of the buffer;
and if `readn` returns, the buffer holds the next bytes of the stream whenever the result is the
length, if and only if no read fails before they are in, or the failing reads get ahead of the
bytes, or the length does not fit in an `int`. -/
theorem readn_intact_iff (len : Nat) (h0 : 1 ≤ len) (hlen : len < 2 ^ 64) (buff : Memory) (c : Conn)
    (hne : c.incoming ≠ []) (k : Nat) (script : List ReadOutcome) :
    (∀ st ∈ stores len c (.got k :: script), st.1 + st.2.length ≤ len) ∧
    ∀ b, readn len buff c (.got k :: script) = some b →
      b.mem = storeAll buff (stores len c (.got k :: script)) ∧
      ((b.ret.toInt = len → Received len c b) ↔
        Intact len c.incoming.length (.got k :: script)) := by
  refine ⟨stores_inside len c _, fun b hb => ⟨readn_mem hb, ?_⟩⟩
  have hend : ∃ used d, Tally len 0 c (.got k :: script) b used d := by
    rw [readn_eq_readLoop h0 hne] at hb
    exact readLoop_balance hlen (Nat.zero_le len) hb
  obtain ⟨used, d, htally⟩ := hend
  unfold Intact
  by_cases hbig : 2 ^ 31 ≤ len
  · exact ⟨fun _ => .inl hbig, fun _ hret => absurd hret (toInt_ne_of_le hbig b.ret)⟩
  rcases htally.count with ⟨hret, hd, hno⟩ | ⟨hret, -, hout⟩
  · -- the count came to the length
    have hresult : b.ret.toInt = len := by
      rw [hret]
      exact Int32.toInt_ofNat_of_lt (Nat.not_le.mp hbig)
    rw [Nat.zero_add] at hd
    simp only [hbig, hno, false_or, hresult, forall_const]
    exact received_iff h0 hlen hb htally hd
  · -- the count went below 0
    refine ⟨fun _ => .inr (.inl hout), fun _ hresult => ?_⟩
    rw [hret] at hresult
    change (-1 : Int) = len at hresult
    omega

/-- Two bytes in two reads. -/
theorem readn_intact_two :
    1 ≤ 2 ∧ ∃ b, readn 2 (fun _ => 0) ⟨[7, 8, 9], false⟩ [.got 0, .got 0] = some b ∧
      ((b.ret.toInt = (2 : Nat) → Received 2 ⟨[7, 8, 9], false⟩ b) ↔ Intact 2 3 [.got 0, .got 0]) :=
  ⟨by decide, _, rfl, ((readn_intact_iff 2 (by decide) (by decide) (fun _ => 0) ⟨[7, 8, 9], false⟩
    (by decide) 0 [.got 0]).2 _ rfl).2⟩

/-- A read fails behind the first byte: the second byte of the stream is stored over the first, the
result is the length, and three bytes of the stream are gone. -/
theorem readn_overwritten :
    ∃ b, readn 2 (fun _ => 0) ⟨[7, 8, 9], false⟩ [.got 0, .err, .got 1] = some b ∧
      b.ret = 2 ∧ peek b.mem 2 = [8, 9] ∧ b.conn.incoming = [] ∧
      ¬ (b.ret.toInt = (2 : Nat) → Received 2 ⟨[7, 8, 9], false⟩ b) := by
  refine ⟨_, rfl, rfl, rfl, rfl, fun h => ?_⟩
  exact absurd (h rfl).2 (by decide)

end CommTest.Socket
