import OpenCpi.Xfer.Pio

/-!
# What a programmed transfer copies

Each byte of the destination gets its byte of the source. But when both pointers are as far behind a word, as
many bytes are copied before the words as the pointers are behind it, and not as many as are missing to the
next one: with one or three bytes the words are not aligned, and a transfer of fewer bytes than that has no
end. Nor has a transfer of more bytes or words than the counter can hold.
-/

namespace OpenCpi.Xfer

open Infra

def PioAccess.Covers (r : PioAccess) (x : Nat) : Prop := r.addr ≤ x ∧ x < r.addr + r.size

/-- The source and the destination do not overlap. -/
def PioTransfer.Apart (t : PioTransfer) : Prop :=
  t.srcVa = 0 ∨ t.srcVa + t.nbytes ≤ t.dstVa ∨ t.dstVa + t.nbytes ≤ t.srcVa

/-- **An exact copy.** -/
structure ExactCopy (t : PioTransfer) (memory : Memory) (s : PioState) : Prop where
  copied : ∀ k < t.nbytes, s.memory (t.dstVa + k) = if t.srcVa = 0 then 0 else memory (t.srcVa + k)
  frame : ∀ x, ¬(t.dstVa ≤ x ∧ x < t.dstVa + t.nbytes) → s.memory x = memory x
  written : ∀ x, (∃ r ∈ s.log, r.write ∧ r.Covers x) ↔ t.dstVa ≤ x ∧ x < t.dstVa + t.nbytes
  read : ∀ r ∈ s.log, ¬r.write → ∀ x, r.Covers x → t.srcVa ≠ 0 ∧ t.srcVa ≤ x ∧ x < t.srcVa + t.nbytes
  aligned : ∀ r ∈ s.log, r.size = 4 → r.addr % 4 = 0

/-- When a transfer is one. -/
def PioTransfer.Fine (t : PioTransfer) : Prop :=
  if t.srcVa % 4 ≠ t.dstVa % 4 then t.nbytes < 2 ^ 32
  else if 0 < t.srcVa % 4 then
    t.srcVa % 4 ≤ t.nbytes ∧ (t.srcVa % 4 = 2 ∨ t.nbytes - t.srcVa % 4 < 4) ∧
      (t.nbytes - t.srcVa % 4) / 4 < 2 ^ 32
  else t.nbytes / 4 < 2 ^ 32

instance (t : PioTransfer) : Decidable t.Fine :=
  inferInstanceAs (Decidable (ite (t.srcVa % 4 ≠ t.dstVa % 4) (t.nbytes < 2 ^ 32)
    (ite (0 < t.srcVa % 4) (t.srcVa % 4 ≤ t.nbytes ∧ (t.srcVa % 4 = 2 ∨ t.nbytes - t.srcVa % 4 < 4) ∧
      (t.nbytes - t.srcVa % 4) / 4 < 2 ^ 32) (t.nbytes / 4 < 2 ^ 32))))

variable {t : PioTransfer} {memory : Memory} {s s' : PioState} {k m size count fuel : Nat}

/-! ## One byte or word -/

/-- The first bytes of the source. -/
def PioTransfer.bytes (t : PioTransfer) (memory : Memory) (k : Nat) : List UInt8 :=
  if t.srcVa = 0 then List.replicate k 0 else readBytes memory t.srcVa k

/-- What has happened when `k` bytes are copied. -/
structure Moved (t : PioTransfer) (memory : Memory) (k : Nat) (s : PioState) : Prop where
  dst : s.dst = t.dstVa + k
  src : s.src = if t.srcVa = 0 then 0 else t.srcVa + k
  memory : s.memory = writeBytes memory t.dstVa (t.bytes memory k)
  written : ∀ x, (∃ r ∈ s.log, r.write ∧ r.Covers x) ↔ t.dstVa ≤ x ∧ x < t.dstVa + k
  read : ∀ r ∈ s.log, ¬r.write → t.srcVa ≠ 0 ∧ t.srcVa ≤ r.addr ∧ r.addr + r.size ≤ t.srcVa + k

/-- The body of the loops of a transfer. -/
def PioTransfer.move (t : PioTransfer) (size : Nat) : PioState → PioState :=
  if t.srcVa = 0 then PioState.clear size else PioState.copy size

theorem PioTransfer.bytes_length (t : PioTransfer) (memory : Memory) (k : Nat) :
    (t.bytes memory k).length = k := by
  unfold PioTransfer.bytes
  split
  · exact List.length_replicate
  · exact readBytes_length _ _ _

theorem moved_start : Moved t memory 0 ⟨t.dstVa, t.srcVa, memory, []⟩ where
  dst := rfl
  src := by
    split
    · next h => exact h
    · rfl
  memory := by
    rw [List.eq_nil_of_length_eq_zero (t.bytes_length memory 0), writeBytes_nil]
  written _ := iff_of_false (fun ⟨_, hr, _⟩ => nomatch hr) (by omega)
  read _ hr := nomatch hr

/-- The bytes that are read next are not yet overwritten. -/
theorem Moved.source (h : Moved t memory k s) (hapart : t.Apart) (hk : k + size ≤ t.nbytes) (hsrc : t.srcVa ≠ 0) :
    readBytes s.memory s.src size = readBytes memory (t.srcVa + k) size := by
  rw [h.src, if_neg hsrc, h.memory]
  refine readBytes_congr fun x hlow hhigh => ?_
  unfold writeBytes
  rw [t.bytes_length]
  refine if_neg ?_
  unfold PioTransfer.Apart at hapart
  omega

/-- The bytes that a step writes. -/
theorem Moved.append (h : Moved t memory k s) {data : List UInt8}
    (hdata : t.bytes memory (k + size) = t.bytes memory k ++ data) :
    writeBytes s.memory s.dst data = writeBytes memory t.dstVa (t.bytes memory (k + size)) := by
  rw [h.memory, h.dst, hdata, ← writeBytes_append, t.bytes_length]

/-- What a step writes comes after what is written. -/
theorem Moved.covers (h : Moved t memory k s) (x : Nat) :
    ((∃ r ∈ s.log, r.write ∧ r.Covers x) ∨ (⟨true, s.dst, size⟩ : PioAccess).Covers x) ↔
      t.dstVa ≤ x ∧ x < t.dstVa + (k + size) := by
  rw [h.written, h.dst]
  unfold PioAccess.Covers
  dsimp only
  omega

/-- **A step** copies `size` bytes more. -/
theorem Moved.move (h : Moved t memory k s) (hapart : t.Apart) (hk : k + size ≤ t.nbytes) :
    Moved t memory (k + size) (t.move size s) := by
  unfold PioTransfer.move
  split
  · next hsrc =>
    refine ⟨?_, ?_, ?_, fun x => ?_, fun r hr hread => ?_⟩
    · exact (congrArg (· + size) h.dst).trans (Nat.add_assoc _ _ _)
    · exact h.src.trans ((if_pos hsrc).trans (if_pos hsrc).symm)
    · refine h.append ?_
      rw [PioTransfer.bytes, PioTransfer.bytes, if_pos hsrc, if_pos hsrc, List.replicate_append_replicate]
    · rw [← h.covers x]
      simp [PioState.clear, or_and_right, exists_or]
    · rcases List.mem_append.mp hr with hr | hr
      · exact absurd hsrc (h.read r hr hread).1
      · rw [List.mem_singleton.mp hr] at hread
        exact absurd rfl hread
  · next hsrc =>
    refine ⟨?_, ?_, ?_, fun x => ?_, fun r hr hread => ?_⟩
    · exact (congrArg (· + size) h.dst).trans (Nat.add_assoc _ _ _)
    · rw [if_neg hsrc]
      exact (congrArg (· + size) (h.src.trans (if_neg hsrc))).trans (Nat.add_assoc _ _ _)
    · refine (congrArg (writeBytes s.memory s.dst) (h.source hapart hk hsrc)).trans (h.append ?_)
      rw [PioTransfer.bytes, PioTransfer.bytes, if_neg hsrc, if_neg hsrc, readBytes_add]
    · rw [← h.covers x]
      simp [PioState.copy, or_and_right, exists_or]
    · rcases List.mem_append.mp hr with hr | hr
      · obtain ⟨hne, hlow, hhigh⟩ := h.read r hr hread
        exact ⟨hne, hlow, by omega⟩
      · have hsource : s.src = t.srcVa + k := h.src.trans (if_neg hsrc)
        simp only [List.mem_cons, List.not_mem_nil, or_false] at hr
        rcases hr with rfl | rfl
        · exact ⟨hsrc, by dsimp only; omega, by dsimp only; omega⟩
        · exact absurd rfl hread

/-! ## Loops -/

theorem Moved.loop (h : Moved t memory k s) (hapart : t.Apart) (size count : Nat)
    (hk : k + size * count ≤ t.nbytes) :
    Moved t memory (k + size * count) ((t.move size)^[count] s) := by
  induction count with
  | zero => exact h
  | succ count ih =>
    rw [Nat.mul_succ, ← Nat.add_assoc] at hk ⊢
    rw [Function.iterate_succ_apply']
    exact (ih (by omega)).move hapart hk

theorem Moved.moveLoop_eq (h : Moved t memory k s) :
    moveLoop fuel size count s = countLoop 32 (t.move size) count fuel 0 s := by
  have hnull : s.src = 0 ↔ t.srcVa = 0 := by
    rw [h.src]
    split <;> omega
  unfold moveLoop PioTransfer.move
  rw [if_congr hnull rfl rfl]
  split <;> rfl

theorem moveLoop_eq_none (hcount : 2 ^ 32 ≤ count) : moveLoop fuel size count s = none := by
  unfold moveLoop
  split
  · exact countLoop_eq_none hcount fuel s (Nat.two_pow_pos 32)
  · exact countLoop_eq_none hcount fuel s (Nat.two_pow_pos 32)

/-- The words and the bytes that remain, without the steps. -/
def PioTransfer.words (t : PioTransfer) (m : Nat) (s : PioState) : PioState :=
  (t.move 1)^[m % 4] ((t.move 4)^[m / 4] s)

theorem Moved.moveWords_eq (h : Moved t memory k s) (hapart : t.Apart) (hm : k + m ≤ t.nbytes)
    (hcount : m / 4 < 2 ^ 32) :
    moveWords fuel m s = if m / 4 < fuel ∧ m % 4 < fuel then some (t.words m s) else none := by
  unfold moveWords
  rw [h.moveLoop_eq, countLoop_eq hcount]
  by_cases hfuel : m / 4 < fuel
  · have hwords := h.loop hapart 4 (m / 4) (by omega)
    rw [if_pos hfuel, Option.bind_some]
    by_cases hrest : m % 4 = 0
    · rw [if_neg (fun hne => hne hrest), if_pos ⟨hfuel, by omega⟩, PioTransfer.words, hrest]
      rfl
    · rw [if_pos hrest, hwords.moveLoop_eq, countLoop_eq (by omega)]
      exact if_congr (and_iff_right hfuel).symm rfl rfl
  · rw [if_neg hfuel, if_neg (fun hboth => hfuel hboth.1)]
    rfl

theorem moveWords_eq_none (hcount : 2 ^ 32 ≤ m / 4) : moveWords fuel m s = none := by
  unfold moveWords
  rw [moveLoop_eq_none hcount]
  rfl

theorem Moved.words (h : Moved t memory k s) (hapart : t.Apart) (hm : k + m ≤ t.nbytes) :
    Moved t memory (k + m) (t.words m s) := by
  have hwords := h.loop hapart 4 (m / 4) (by omega)
  have hrest := hwords.loop hapart 1 (m % 4) (by omega)
  rwa [Nat.add_assoc, Nat.one_mul, Nat.div_add_mod] at hrest

/-! ## The words -/

/-- The accesses of words are aligned. -/
def PioState.Aligned (s : PioState) : Prop := ∀ r ∈ s.log, r.size = 4 → r.addr % 4 = 0

theorem aligned_move (h : s.Aligned) (hsize : size = 4 → s.dst % 4 = 0 ∧ s.src % 4 = 0) :
    (t.move size s).Aligned := by
  intro r hr h4
  unfold PioTransfer.move at hr
  split at hr
  · rcases List.mem_append.mp hr with hr | hr
    · exact h r hr h4
    · rw [List.mem_singleton.mp hr] at h4 ⊢
      exact (hsize h4).1
  · rcases List.mem_append.mp hr with hr | hr
    · exact h r hr h4
    · simp only [List.mem_cons, List.not_mem_nil, or_false] at hr
      rcases hr with rfl | rfl
      · exact (hsize h4).2
      · exact (hsize h4).1

theorem move_pointers : (t.move size s).dst = s.dst + size ∧
    ((t.move size s).src = s.src ∨ (t.move size s).src = s.src + size) := by
  unfold PioTransfer.move
  split
  · exact ⟨rfl, Or.inl rfl⟩
  · exact ⟨rfl, Or.inr rfl⟩

theorem aligned_loop (h : s.Aligned) (hsize : size = 4 → s.dst % 4 = 0 ∧ s.src % 4 = 0) :
    ((t.move size)^[count] s).Aligned := by
  induction count generalizing s with
  | zero => exact h
  | succ count ih =>
    rw [Function.iterate_succ_apply]
    refine ih (aligned_move h hsize) fun h4 => ?_
    obtain ⟨hdst, hsrc⟩ := @move_pointers t s size
    have := hsize h4
    omega

/-- The words are aligned when the pointers are, or when there are none. -/
theorem aligned_words (h : s.Aligned) (hsize : m < 4 ∨ s.dst % 4 = 0 ∧ s.src % 4 = 0) :
    (t.words m s).Aligned := by
  refine aligned_loop ?_ (fun h4 => by omega)
  rcases hsize with hm | hptr
  · rw [Nat.div_eq_of_lt hm]
    exact h
  · exact aligned_loop h fun _ => hptr

/-- What is accessed stays in the record. -/
theorem mem_move_of_mem {r : PioAccess} (h : r ∈ s.log) : r ∈ (t.move size s).log := by
  unfold PioTransfer.move
  split
  · exact List.mem_append_left _ h
  · exact List.mem_append_left _ h

theorem mem_loop {r : PioAccess} (h : r ∈ s.log) : r ∈ ((t.move size)^[count] s).log := by
  induction count with
  | zero => exact h
  | succ count ih =>
    rw [Function.iterate_succ_apply']
    exact mem_move_of_mem ih

theorem mem_move : (⟨true, s.dst, size⟩ : PioAccess) ∈ (t.move size s).log := by
  unfold PioTransfer.move
  split
  · exact List.mem_append_right _ (List.mem_singleton_self _)
  · exact List.mem_append_right _ (List.mem_cons_of_mem _ (List.mem_singleton_self _))

/-- A first word that is not aligned. -/
theorem not_aligned_words (hm : 4 ≤ m) (hdst : s.dst % 4 ≠ 0) : ¬(t.words m s).Aligned := by
  intro h
  obtain ⟨n, hn⟩ : ∃ n, m / 4 = n + 1 := ⟨m / 4 - 1, by omega⟩
  have hfirst : (⟨true, s.dst, 4⟩ : PioAccess) ∈ (t.words m s).log := by
    rw [PioTransfer.words, hn, Function.iterate_succ_apply]
    exact mem_loop (mem_loop mem_move)
  exact hdst (h _ hfirst rfl)

/-! ## Transfers -/

/-- All bytes are copied. -/
theorem Moved.exact (h : Moved t memory t.nbytes s) (haligned : s.Aligned) : ExactCopy t memory s where
  copied k hk := by
    have hget : (t.bytes memory t.nbytes).getD k 0 = if t.srcVa = 0 then 0 else memory (t.srcVa + k) := by
      unfold PioTransfer.bytes
      split
      · rw [List.getD_replicate _ hk]
      · rw [readBytes, List.getD_eq_getElem?_getD, List.getElem?_map, List.getElem?_range hk]
        rfl
    rw [h.memory, writeBytes, t.bytes_length, if_pos (by omega), Nat.add_sub_cancel_left, hget]
  frame x hx := by
    rw [h.memory, writeBytes, t.bytes_length, if_neg hx]
  written := h.written
  read r hr hread x hx := by
    obtain ⟨hne, hlow, hhigh⟩ := h.read r hr hread
    unfold PioAccess.Covers at hx
    exact ⟨hne, by omega, by omega⟩
  aligned := haligned

theorem aligned_start : (⟨t.dstVa, t.srcVa, memory, []⟩ : PioState).Aligned := fun _ hr => nomatch hr

/-- Pointers that are not equally far behind a word: all is copied in bytes. -/
theorem transfer_bytes (hapart : t.Apart) (hal : t.srcVa % 4 ≠ t.dstVa % 4) :
    (∃ fuel s, xferPioActionTransfer fuel t memory = some s ∧ ExactCopy t memory s) ↔ t.nbytes < 2 ^ 32 := by
  unfold xferPioActionTransfer
  constructor
  · rintro ⟨fuel, s, h, -⟩
    rw [if_pos hal] at h
    by_contra hcount
    rw [moveLoop_eq_none (Nat.le_of_not_lt hcount)] at h
    cases h
  · intro hcount
    have hend := (@moved_start t memory).loop hapart 1 t.nbytes (by omega)
    rw [Nat.zero_add, Nat.one_mul] at hend
    refine ⟨t.nbytes + 1, _, ?_, hend.exact (aligned_loop aligned_start (fun h4 => by omega))⟩
    rw [if_pos hal, moved_start.moveLoop_eq, countLoop_eq hcount, if_pos (Nat.lt_succ_self _)]

/-- Aligned pointers: all is copied in words, and what remains in bytes. -/
theorem transfer_words (hapart : t.Apart) (hal : t.srcVa % 4 = t.dstVa % 4) (hzero : ¬0 < t.srcVa % 4) :
    (∃ fuel s, xferPioActionTransfer fuel t memory = some s ∧ ExactCopy t memory s) ↔
      t.nbytes / 4 < 2 ^ 32 := by
  unfold xferPioActionTransfer
  constructor
  · rintro ⟨fuel, s, h, -⟩
    by_contra hcount
    rw [if_neg (fun hne => hne hal), if_neg hzero, moveWords_eq_none (Nat.le_of_not_lt hcount)] at h
    cases h
  · intro hcount
    have hend := (@moved_start t memory).words hapart (Nat.le_of_eq (Nat.zero_add t.nbytes))
    rw [Nat.zero_add] at hend
    refine ⟨t.nbytes + 4, _, ?_, hend.exact (aligned_words aligned_start (Or.inr ⟨?_, ?_⟩))⟩
    · rw [if_neg (fun hne => hne hal), if_neg hzero, moved_start.moveWords_eq hapart (by omega) hcount,
        if_pos (by omega)]
    · dsimp only
      omega
    · dsimp only
      omega

/-- The pointers after the bytes before the words. -/
def PioTransfer.prologue (t : PioTransfer) (memory : Memory) : PioState :=
  (t.move 1)^[t.srcVa % 4] ⟨t.dstVa, t.srcVa, memory, []⟩

theorem moved_prologue (hapart : t.Apart) (hle : t.srcVa % 4 ≤ t.nbytes) :
    Moved t memory (t.srcVa % 4) (t.prologue memory) := by
  have hend := (@moved_start t memory).loop hapart 1 (t.srcVa % 4) (by omega)
  rwa [Nat.zero_add, Nat.one_mul] at hend

theorem prologue_eq (hpos : 0 < t.srcVa % 4) :
    countLoop 32 (PioState.copy 1) (t.srcVa % 4) fuel 0 ⟨t.dstVa, t.srcVa, memory, []⟩ =
      if t.srcVa % 4 < fuel then some (t.prologue memory) else none := by
  have hmove : PioState.copy 1 = t.move 1 := by
    unfold PioTransfer.move
    rw [if_neg (by omega)]
  rw [hmove]
  exact countLoop_eq (by omega) _ _

/-- **Pointers that are equally far behind a word.** -/
theorem transfer_behind (hapart : t.Apart) (hal : t.srcVa % 4 = t.dstVa % 4) (hpos : 0 < t.srcVa % 4) :
    (∃ fuel s, xferPioActionTransfer fuel t memory = some s ∧ ExactCopy t memory s) ↔
      t.srcVa % 4 ≤ t.nbytes ∧ (t.srcVa % 4 = 2 ∨ t.nbytes - t.srcVa % 4 < 4) ∧
        (t.nbytes - t.srcVa % 4) / 4 < 2 ^ 32 := by
  have hlt := t.nbytes_lt
  unfold xferPioActionTransfer
  constructor
  · rintro ⟨fuel, s, h, hexact⟩
    rw [if_neg (fun hne => hne hal), if_pos hpos, prologue_eq hpos] at h
    split at h
    · change moveWords fuel _ (t.prologue memory) = some s at h
      have hle : t.srcVa % 4 ≤ t.nbytes := by
        -- fewer bytes: the number of those that are left wraps
        by_contra hless
        rw [moveWords_eq_none (by omega)] at h
        cases h
      have hleft : (2 ^ 64 + t.nbytes - t.srcVa % 4) % 2 ^ 64 = t.nbytes - t.srcVa % 4 := by omega
      rw [hleft] at h
      have hcount : (t.nbytes - t.srcVa % 4) / 4 < 2 ^ 32 := by
        by_contra hmany
        rw [moveWords_eq_none (Nat.le_of_not_lt hmany)] at h
        cases h
      have hmid := @moved_prologue t memory hapart hle
      rw [hmid.moveWords_eq hapart (by omega) hcount] at h
      split at h
      · cases h
        refine ⟨hle, ?_, hcount⟩
        by_contra hbad
        refine not_aligned_words (by omega) ?_ hexact.aligned
        rw [hmid.dst]
        omega
      · cases h
    · cases h
  · rintro ⟨hle, hal2, hcount⟩
    have hmid := @moved_prologue t memory hapart hle
    have hleft : (2 ^ 64 + t.nbytes - t.srcVa % 4) % 2 ^ 64 = t.nbytes - t.srcVa % 4 := by omega
    have hend := hmid.words (m := t.nbytes - t.srcVa % 4) hapart (by omega)
    rw [Nat.add_sub_cancel' hle] at hend
    have hsrc : (t.prologue memory).src = t.srcVa + t.srcVa % 4 := hmid.src.trans (if_neg (by omega))
    refine ⟨t.nbytes + 4, _, ?_, hend.exact (aligned_words ?_ ?_)⟩
    · rw [if_neg (fun hne => hne hal), if_pos hpos, prologue_eq hpos, if_pos (by omega), Option.bind_some, hleft,
        hmid.moveWords_eq hapart (by omega) hcount, if_pos (by omega)]
    · exact aligned_loop aligned_start fun h4 => absurd h4 (by decide)
    · rw [hmid.dst, hsrc]
      omega

/-- **A transfer ends with an exact copy** if and only if it is fine. -/
theorem transfer_exact_iff (t : PioTransfer) (memory : Memory) (hapart : t.Apart) :
    (∃ fuel s, xferPioActionTransfer fuel t memory = some s ∧ ExactCopy t memory s) ↔ t.Fine := by
  unfold PioTransfer.Fine
  by_cases hal : t.srcVa % 4 = t.dstVa % 4
  · rw [if_neg (fun hne => hne hal)]
    by_cases hpos : 0 < t.srcVa % 4
    · rw [if_pos hpos]
      exact transfer_behind hapart hal hpos
    · rw [if_neg hpos]
      exact transfer_words hapart hal hpos
  · rw [if_pos hal]
    exact transfer_bytes hapart hal

/-- Six bytes from an address of which two are missing to a word. -/
theorem transfer_exact_six :
    (⟨2, 34, 6, by decide⟩ : PioTransfer).Apart ∧
      ∃ fuel s, xferPioActionTransfer fuel ⟨2, 34, 6, by decide⟩ UInt8.ofNat = some s ∧
        ExactCopy ⟨2, 34, 6, by decide⟩ UInt8.ofNat s :=
  ⟨Or.inr (Or.inl (by decide)),
    (transfer_exact_iff ⟨2, 34, 6, by decide⟩ UInt8.ofNat (Or.inr (Or.inl (by decide)))).mpr (by decide)⟩

/-- Eight bytes from an address that is one behind a word: a word is read from two behind it. -/
theorem transfer_unaligned :
    (⟨1, 33, 8, by decide⟩ : PioTransfer).Apart ∧
      ¬∃ fuel s, xferPioActionTransfer fuel ⟨1, 33, 8, by decide⟩ UInt8.ofNat = some s ∧
        ExactCopy ⟨1, 33, 8, by decide⟩ UInt8.ofNat s := by
  have hapart : (⟨1, 33, 8, by decide⟩ : PioTransfer).Apart := Or.inr (Or.inl (by decide))
  refine ⟨hapart, fun h => ?_⟩
  exact absurd ((transfer_behind hapart rfl (by decide)).mp h).2.1 (by decide)

end OpenCpi.Xfer
