import CommTest.Socket.Framing

/-!
# The end of a connection

What `readn` and `tcp_read` do when the peer closes the connection: the stream ends and every `read`
behind its end returns 0. `readn` looks for that in its first call only.

* `readLoop_short`: the loop of `readn` never ends when the stream is too short for it.
* `readn_returns_iff`, `reading_returns_iff`: exactly when the calls return, over every way the
  stream is cut into reads.
-/

set_option linter.unusedSectionVars false

namespace CommTest.Socket

open Mem

/-- However the reads go on, as long as none fails, the call returns behind finitely many of them.
-/
def Returns {α : Type} (call : List ReadOutcome → Option α) : Prop :=
  ∀ f : Nat → Nat, ∃ n r, call ((List.range n).map fun i => .got (f i)) = some r

/-- The call returns whenever it is given enough reads. -/
theorem returns_of_enough {α : Type} {call : List ReadOutcome → Option α} {n : Nat}
    (h : ∀ ks : List Nat, n ≤ ks.length → ∃ r, call (ks.map .got) = some r) : Returns call := by
  intro f
  obtain ⟨r, hr⟩ := h ((List.range n).map f) (by simp)
  refine ⟨n, r, ?_⟩
  rw [List.map_map] at hr
  exact hr

/-- The call never returns. -/
theorem not_returns_of_none {α : Type} {call : List ReadOutcome → Option α}
    (h : ∀ ks : List Nat, call (ks.map .got) = none) : ¬ Returns call := by
  intro hret
  obtain ⟨n, r, hr⟩ := hret id
  have hnone := h ((List.range n).map id)
  rw [List.map_map] at hnone
  exact absurd (hr.symm.trans hnone) (by simp)

/-! ## A stream that is too short -/

/-- **The loop of `readn` does not end** when there are too few bytes to come and no read fails. -/
theorem readLoop_short {len : Nat} (hlen : len < 2 ^ 64) (ks : List Nat) {readbytes : Nat} {c : Conn}
    (hshort : readbytes + c.incoming.length < len) (buff : Memory) :
    readLoop len readbytes buff c (ks.map .got) = none := by
  by_contra hsome
  obtain ⟨b, hb⟩ := Option.ne_none_iff_exists'.mp hsome
  obtain ⟨used, d, htally⟩ := readLoop_balance hlen (by omega) hb
  have htaken := htally.taken
  have hcount := htally.count
  rw [List.count_eq_zero_of_not_mem (err_not_mem_used htally.split)] at hcount
  omega

/-- `readn` does not return when the stream ends inside what it reads. -/
theorem readn_short {len : Nat} (hlen : len < 2 ^ 64) {bytes : Bytes} (hne : bytes ≠ [])
    (hshort : bytes.length < len) (buff : Memory) (ks : List Nat) :
    readn len buff ⟨bytes, true⟩ (ks.map .got) = none := by
  cases ks with
  | nil => rfl
  | cons k ks =>
      have hpos : 0 < len := by omega
      have hle := chunkSize_le len k bytes.length
      have hchunk := chunkSize_pos k hpos (List.length_pos_of_ne_nil hne)
      simp only [List.map_cons, readn, read_nonempty (c := ⟨bytes, true⟩) k hpos hne,
        if_neg (Nat.pos_iff_ne_zero.mp hchunk)]
      apply readLoop_short hlen
      rw [List.length_drop]
      omega

/-- With all of it to come `readn` returns its length, also when that is 0. -/
theorem readn_whole {len : Nat} (hlen : len < 2 ^ 64) (ks : List Nat) (buff : Memory) {c : Conn}
    (hav : len ≤ c.incoming.length) :
    (∃ b, readn len buff c (ks.map .got) = some b ∧ b.ret = Int32.ofNat len) ∨
    (readn len buff c (ks.map .got) = none ∧ ks.length ≤ len) := by
  rcases Nat.eq_zero_or_pos len with rfl | hpos
  · cases ks with
    | nil => exact .inr ⟨rfl, Nat.le_refl 0⟩
    | cons k ks => exact .inl ⟨_, readn_nothing 0 (.inl rfl) buff k (ks.map .got), rfl⟩
  · rcases readn_spec hpos hlen ks buff c hav with ⟨rest, -, hb⟩ | ⟨hnone, hshort⟩
    · exact .inl ⟨_, hb, rfl⟩
    · exact .inr ⟨hnone, Nat.le_of_lt hshort⟩

/-- **When `readn` returns** on a stream that the peer has closed. -/
theorem readn_returns_iff {len : Nat} (hlen : len < 2 ^ 64) (buff : Memory) (bytes : Bytes) :
    Returns (readn len buff ⟨bytes, true⟩) ↔ len = 0 ∨ bytes = [] ∨ len ≤ bytes.length := by
  constructor
  · intro hret
    by_contra hno
    simp only [not_or, Nat.not_le] at hno
    obtain ⟨-, hne, hshort⟩ := hno
    exact not_returns_of_none (fun ks => readn_short hlen hne hshort buff ks) hret
  · intro h
    apply returns_of_enough (n := len + 1)
    intro ks hks
    by_cases hnil : bytes = []
    · cases ks with
      | nil => exact absurd hks (by simp)
      | cons k ks => exact ⟨_, readn_nothing len (.inr ⟨hnil, rfl⟩) buff k (ks.map .got)⟩
    · have hle : len ≤ bytes.length := by
        rcases h with rfl | hnil' | hle
        · exact Nat.zero_le _
        · exact absurd hnil' hnil
        · exact hle
      rcases readn_whole hlen ks buff (c := ⟨bytes, true⟩) hle with ⟨b, hb, -⟩ | ⟨-, hshort⟩
      · exact ⟨b, hb⟩
      · omega

/-! ## A message that is cut off -/

/-- The stream ends before a message, right behind its header, or not before its end. -/
def CutAtBoundary (bytes : Bytes) : Prop :=
  bytes = [] ∨ (4 ≤ bytes.length ∧ ((announced bytes).toNat = 0 ∨ bytes.length = 4 ∨
    4 + (announced bytes).toNat ≤ bytes.length))

section

variable (maxsize : UInt32) (bufs : Bufs) (junk fresh : Memory) {bytes : Bytes}

/-- `tcp_read` never returns when the stream is cut off inside a header or a message. -/
theorem tcpRead_short (hcut : ¬ CutAtBoundary bytes) (ks : List Nat) :
    tcpRead maxsize bufs junk fresh ⟨bytes, true⟩ (ks.map .got) = none := by
  unfold CutAtBoundary at hcut
  rw [not_or] at hcut
  obtain ⟨hne, hbody⟩ := hcut
  by_cases h4 : 4 ≤ bytes.length
  · rcases tcpRead_header maxsize bufs junk fresh (c := ⟨bytes, true⟩) h4 ks with
      ⟨rest, -, htcp⟩ | ⟨hnone, -⟩
    · have hsize := (announced bytes).toNat_lt
      have hlen : (bytes.drop 4).length = bytes.length - 4 := List.length_drop
      simp only [h4, true_and, not_or, Nat.not_le] at hbody
      have hnil : bytes.drop 4 ≠ [] := List.ne_nil_of_length_pos (by omega)
      have hb : readn (announced bytes).toNat (bufs.target fresh maxsize (announced bytes))
          ⟨bytes.drop 4, true⟩ (rest.map .got) = none :=
        readn_short (by omega) hnil (by omega) _ rest
      rw [htcp]
      exact congrArg (Option.map _) hb
    · exact hnone
  · have hnone := readn_short (show 4 < 2 ^ 64 by decide) hne (Nat.not_le.mp h4) junk ks
    simp only [tcpRead, hnone]

/-- `tcp_read` returns behind enough reads when the stream is not cut off there. -/
theorem tcpRead_boundary (hcut : CutAtBoundary bytes) (ks : List Nat)
    (hks : bytes.length + 5 ≤ ks.length) :
    ∃ r, tcpRead maxsize bufs junk fresh ⟨bytes, true⟩ (ks.map .got) = some r := by
  rcases hcut with rfl | ⟨h4, hbody⟩
  · cases ks with
    | nil => exact absurd hks (by simp)
    | cons k ks =>
        have hn := readn_nothing 4 (c := ⟨[], true⟩) (.inr ⟨rfl, rfl⟩) junk k (ks.map .got)
        refine ⟨⟨0, bufs, ⟨[], true⟩, ks.map .got⟩, ?_⟩
        simp only [List.map_cons, tcpRead, hn]
        rfl
  · rcases tcpRead_header maxsize bufs junk fresh (c := ⟨bytes, true⟩) h4 ks with
      ⟨rest, hwithin, htcp⟩ | ⟨-, hshort⟩
    · have hlen : (bytes.drop 4).length = bytes.length - 4 := List.length_drop
      have hcalls := hwithin.length_le
      have hsize := (announced bytes).toNat_lt
      rw [htcp]
      by_cases hnil : bytes.drop 4 = []
      · cases rest with
        | nil =>
            rw [List.length_nil] at hcalls
            omega
        | cons k rest =>
            have hb := readn_nothing (announced bytes).toNat (c := ⟨bytes.drop 4, true⟩)
              (.inr ⟨hnil, rfl⟩) (bufs.target fresh maxsize (announced bytes)) k (rest.map .got)
            exact ⟨_, congrArg (Option.map _) hb⟩
      · have hpos := List.length_pos_of_ne_nil hnil
        have hle : (announced bytes).toNat ≤ (bytes.drop 4).length := by omega
        rcases readn_whole (by omega) rest (bufs.target fresh maxsize (announced bytes))
            (c := ⟨bytes.drop 4, true⟩) hle with ⟨b, hb, -⟩ | ⟨-, hshort⟩
        · exact ⟨_, congrArg (Option.map _) hb⟩
        · omega
    · omega

end

/-- **When reading ends with the connection**: for every stream that the peer closes, every
`maxsize` and every way it is cut into reads, `tcp_read` returns behind finitely many reads if and
only if the stream ends before a message, right behind its header, or not before its end; in the
other cases it returns for none of them. A `readn` returns if and only if the stream is empty or has
all of what it reads. -/
theorem reading_returns_iff (bytes : Bytes) (maxsize : UInt32) (bufs : Bufs) (junk fresh : Memory) :
    (Returns (tcpRead maxsize bufs junk fresh ⟨bytes, true⟩) ↔ CutAtBoundary bytes) ∧
    (¬ CutAtBoundary bytes →
      ∀ ks : List Nat, tcpRead maxsize bufs junk fresh ⟨bytes, true⟩ (ks.map .got) = none) ∧
    ∀ (len : Nat) (buff : Memory), len < 2 ^ 64 →
      (Returns (readn len buff ⟨bytes, true⟩) ↔ len = 0 ∨ bytes = [] ∨ len ≤ bytes.length) := by
  refine ⟨⟨?_, ?_⟩, tcpRead_short maxsize bufs junk fresh,
    fun len buff hlen => readn_returns_iff hlen buff bytes⟩
  · intro hret
    by_contra hcut
    exact not_returns_of_none (tcpRead_short maxsize bufs junk fresh hcut) hret
  · exact fun hcut => returns_of_enough (tcpRead_boundary maxsize bufs junk fresh hcut)

/-- A reader of a stream of one byte. -/
theorem reading_returns_one_byte :
    4 < 2 ^ 64 ∧ (Returns (readn 4 (fun _ => 0) ⟨[7], true⟩) ↔
      4 = 0 ∨ ([7] : Bytes) = [] ∨ 4 ≤ ([7] : Bytes).length) :=
  ⟨by decide, (reading_returns_iff [7] 8 ⟨fun _ => 0, fun _ => 0, 0, false⟩ (fun _ => 0)
    (fun _ => 0)).2.2 4 (fun _ => 0) (by decide)⟩

/-- The peer closes behind the first byte of a header: `tcp_read` never returns. -/
theorem reading_stuck :
    ¬ Returns (tcpRead 8 ⟨fun _ => 0, fun _ => 0, 0, false⟩ (fun _ => 0) (fun _ => 0)
      ⟨[7], true⟩) := by
  refine not_returns_of_none (tcpRead_short 8 _ _ _ ?_)
  rintro (h | ⟨h4, -⟩)
  · cases h
  · exact absurd h4 (by decide)

end CommTest.Socket
