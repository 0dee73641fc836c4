import OpenCpi.Sim.Emulate

/-!
# The emulated registers are not left

An access of `doEmulate` lies inside its object unless the address of the request is one of the last bytes
of the object or, for the administration registers, the byte behind it: the tests compare the offset with
the size and forget the four bytes of the access. A write that is too short for its type is performed with
what an earlier packet left in the buffer, and a NOP of another length fails an assertion.
-/

namespace OpenCpi.Sim

open Infra Traced

variable {s : Emulator} {length : Nat}

/-! ## What a request should do -/

/-- The size of a message, by its type. -/
def messageSize (action : Nat) : Option Nat :=
  if action = 0 then some nopSize else if action = 1 then some writeSize
  else if action = 2 then some readSize else none

/-- The length in the header is that of the packet. -/
def Matches (s : Emulator) (length : Nat) : Prop := (length + (2 ^ 64 - 2)) % 2 ^ 64 = s.number 2 2

/-- A request of a known type, with the size of its type. -/
def WellFormed (s : Emulator) (length : Nat) : Prop :=
  Matches s length ∧ messageSize s.action = some (s.number 2 2 + 2)

/-- The four bytes at the address of the request lie in one of the objects. -/
def InRange (s : Emulator) : Prop :=
  s.address + 4 ≤ adminSize ∨ configOffset ≤ s.address ∧ s.address - configOffset + 4 ≤ uuidSize

def Inside (a : MemoryAccess) : Prop := a.offset + 4 ≤ a.object.size

instance (a : MemoryAccess) : Decidable (Inside a) := inferInstanceAs (Decidable (_ ≤ _))

/-- The request is memory safe, fails no assertion, and changes nothing if it is malformed or out of range. -/
structure RequestSafe (s : Emulator) (length : Nat) : Prop where
  guarded : Guarded Inside (· = .assertion) (doEmulate length) s
  unchanged : ¬(WellFormed s length ∧ InRange s) →
    (doEmulate length s).2.2.admin = s.admin ∧ (doEmulate length s).2.2.uuid = s.uuid

/-- The word of a request, in the order of the host. -/
def Emulator.word (s : Emulator) : List UInt8 := (readBytes s.payload 12 4).reverse

/-- What `doEmulate` does not mind. -/
structure Harmless (s : Emulator) : Prop where
  nop : s.action = 0 → s.number 2 2 + 2 = nopSize
  read : s.action = 2 →
    ¬(adminSize < s.address + 4 ∧ s.address ≤ adminSize) ∧
    ¬(uuidSize < s.address - configOffset + 4 ∧ s.address < configOffset + uuidSize + 8 ∧
      configOffset ≤ s.address)
  write : s.action = 1 →
    ¬(adminSize < s.address + 4 ∧ s.address ≤ adminSize) ∧
    ¬(uuidSize < s.address - configOffset + 4 ∧ s.address < configOffset + uuidSize ∧
      configOffset ≤ s.address)
  /-- a write of another size finds its word there -/
  short : s.action = 1 → s.number 2 2 + 2 ≠ writeSize →
    (s.address + 4 ≤ adminSize → readBytes s.admin s.address 4 = s.word) ∧
    (configOffset ≤ s.address → s.address - configOffset + 4 ≤ uuidSize →
      readBytes s.uuid (s.address - configOffset) 4 = s.word)

/-! ## Words that are there already -/

theorem word_length (s : Emulator) : s.word.length = 4 := by
  rw [Emulator.word, List.length_reverse, readBytes_length]

/-! ## The types of requests -/

theorem emulateWrite_run (offset : Nat) (data : List UInt8) (s : Emulator) :
    emulateWrite offset data s =
      if offset ≤ adminSize then
        ([⟨.admin, offset, true⟩], .ok (), { s with admin := writeBytes s.admin offset data })
      else if configOffset ≤ offset ∧ offset - configOffset < uuidSize then
        ([⟨.uuid, offset - configOffset, true⟩], .ok (),
          { s with uuid := writeBytes s.uuid (offset - configOffset) data })
      else ([], .ok (), s) := by
  unfold emulateWrite
  split
  · rfl
  · split
    · next h =>
      split
      · next h' =>
        rw [if_neg fun hc => Nat.not_lt_of_le h' hc.2]
        rfl
      · next h' =>
        rw [if_pos ⟨h, Nat.lt_of_not_le h'⟩]
        rfl
    · next h =>
      rw [if_neg fun hc => h hc.1]
      rfl

theorem emulateRead_memory (offset : Nat) (s : Emulator) :
    (emulateRead offset s).2.2.admin = s.admin ∧ (emulateRead offset s).2.2.uuid = s.uuid := by
  unfold emulateRead
  split
  · exact ⟨rfl, rfl⟩
  · split
    · split <;> exact ⟨rfl, rfl⟩
    · split
      · split
        · exact ⟨rfl, rfl⟩
        · split <;> exact ⟨rfl, rfl⟩
      · exact ⟨rfl, rfl⟩

/-- The accesses of a read; it always returns. -/
theorem emulateRead_run (offset : Nat) (s : Emulator) :
    (emulateRead offset s).1 =
      (if offset ≤ adminSize then [⟨.admin, offset, false⟩]
      else if configOffset ≤ offset ∧ offset - configOffset < uuidSize + 8 then
        [⟨.uuid, offset - configOffset, false⟩]
      else []) ∧
    (emulateRead offset s).2.1 = .ok () := by
  unfold emulateRead
  split
  · exact ⟨rfl, rfl⟩
  · split
    · next h =>
      split
      · next h' =>
        rw [if_neg fun hc => Nat.not_lt_of_le h' hc.2]
        exact ⟨rfl, rfl⟩
      · next h' =>
        rw [if_pos ⟨h, Nat.lt_of_not_le h'⟩]
        exact ⟨rfl, rfl⟩
    · next h =>
      have hno : ¬(configOffset ≤ offset ∧ offset - configOffset < uuidSize + 8) := fun hc => h hc.1
      rw [if_neg hno]
      split
      · split
        · exact ⟨rfl, rfl⟩
        · split <;> exact ⟨rfl, rfl⟩
      · exact ⟨rfl, rfl⟩

/-! ## The whole request -/

theorem read_bind_run {α : Type} (f : Emulator → Emulating α) : (read >>= f) s = f s s := rfl

theorem change_bind_run {α : Type} (g : Emulator → Emulator) (f : Unit → Emulating α) :
    (change g >>= f) s = f () (g s) := rfl

theorem doEmulate_mismatch (h : ¬Matches s length) :
    doEmulate length s = ([], .ok (.error .badLength), s) := by
  unfold Matches at h
  unfold doEmulate
  rw [read_bind_run, if_pos h]
  rfl

/-- The packet once its type was set to that of a response. -/
def answering (s : Emulator) : Emulator :=
  { s with payload := writeBytes s.payload 6 [UInt8.ofNat (3 * 16 + (s.payload 6).toNat / 64 % 2 * 64)] }

/-- A step after which only the packet changes. -/
theorem answered_run {x : Emulating Unit} {t : Emulator} {offset : Nat} {data : List UInt8} {size : Nat}
    (h : (x t).2.1 = .ok ()) :
    (x >>= fun _ => setPayload offset data >>= fun _ => pure (Except.ok size) :
        Emulating (Except EmulateError Nat)) t =
      ((x t).1, .ok (.ok size), { (x t).2.2 with payload := writeBytes (x t).2.2.payload offset data }) := by
  show Traced.bind x _ t = _
  unfold Traced.bind
  rcases hx : x t with ⟨log, r, t'⟩
  rw [hx] at h
  cases h
  show (log ++ [], _) = _
  rw [List.append_nil]
  rfl

theorem doEmulate_write (h : Matches s length) (ha : s.action = 1) :
    doEmulate length s = ((emulateWrite s.address s.word (answering s)).1, .ok (.ok writeResponseSize),
      { (emulateWrite s.address s.word (answering s)).2.2 with
        payload := writeBytes (emulateWrite s.address s.word (answering s)).2.2.payload 2
          [0, UInt8.ofNat (writeResponseSize - 2)] }) := by
  unfold Matches at h
  have hreturns : (emulateWrite s.address s.word (answering s)).2.1 = .ok () := by
    rw [emulateWrite_run]
    split
    · rfl
    · split <;> rfl
  rw [← answered_run hreturns]
  unfold doEmulate
  rw [read_bind_run, if_neg (not_not_intro h)]
  rw [setPayload, change_bind_run, if_pos ha]
  rfl

theorem doEmulate_read (h : Matches s length) (ha : s.action = 2) :
    doEmulate length s = ((emulateRead s.address (answering s)).1, .ok (.ok readResponseSize),
      { (emulateRead s.address (answering s)).2.2 with
        payload := writeBytes (emulateRead s.address (answering s)).2.2.payload 2
          [0, UInt8.ofNat (readResponseSize - 2)] }) := by
  unfold Matches at h
  rw [← answered_run (emulateRead_run s.address (answering s)).2]
  unfold doEmulate
  rw [read_bind_run, if_neg (not_not_intro h)]
  rw [setPayload, change_bind_run, if_neg (by omega), if_pos ha]
  rfl

/-- A NOP or a message of another type accesses nothing. -/
theorem doEmulate_other (h : Matches s length) (hw : s.action ≠ 1) (hr : s.action ≠ 2) :
    (doEmulate length s).1 = [] ∧ (doEmulate length s).2.2.admin = s.admin ∧
      (doEmulate length s).2.2.uuid = s.uuid ∧
      ((doEmulate length s).2.1 = .error .assertion ↔ s.action = 0 ∧ s.number 2 2 + 2 ≠ nopSize) := by
  unfold Matches at h
  unfold doEmulate
  rw [read_bind_run, if_neg (not_not_intro h)]
  rw [setPayload, change_bind_run, if_neg hw, if_neg hr]
  by_cases ha : s.action = 0
  · rw [if_pos ha]
    by_cases hn : s.number 2 2 ≠ nopResponseSize - 2
    · rw [if_pos hn]
      refine ⟨rfl, rfl, rfl, iff_of_true rfl ⟨ha, fun hc => hn ?_⟩⟩
      rw [nopResponseSize]
      rw [nopSize] at hc
      omega
    · rw [if_neg hn]
      refine ⟨rfl, rfl, rfl, iff_of_false (fun hc => nomatch hc) fun hc => hc.2 ?_⟩
      rw [not_not.mp hn]
      rfl
  · rw [if_neg ha]
    exact ⟨rfl, rfl, rfl, iff_of_false (fun hc => nomatch hc) fun hc => ha hc.1⟩

/-! ## Safety -/

theorem writeBytes_word {memory : Memory} {addr : Nat} :
    writeBytes memory addr s.word = memory ↔ readBytes memory addr 4 = s.word := by
  rw [writeBytes_eq_self_iff, word_length]

/-- The accesses of a write, all of them at once. -/
theorem inside_write (offset : Nat) (data : List UInt8) (t : Emulator) :
    (∀ e ∈ (emulateWrite offset data t).1, Inside e) ↔
      ¬(adminSize < offset + 4 ∧ offset ≤ adminSize) ∧
      ¬(uuidSize < offset - configOffset + 4 ∧ offset < configOffset + uuidSize ∧ configOffset ≤ offset) := by
  have hlayout : adminSize < configOffset := by decide
  rw [emulateWrite_run]
  split
  · refine List.forall_mem_singleton.trans ?_
    show offset + 4 ≤ adminSize ↔ _
    omega
  · split
    · refine List.forall_mem_singleton.trans ?_
      show offset - configOffset + 4 ≤ uuidSize ↔ _
      omega
    · refine iff_of_true (fun _ he => nomatch he) ?_
      omega

theorem inside_read (offset : Nat) (t : Emulator) :
    (∀ e ∈ (emulateRead offset t).1, Inside e) ↔
      ¬(adminSize < offset + 4 ∧ offset ≤ adminSize) ∧
      ¬(uuidSize < offset - configOffset + 4 ∧ offset < configOffset + uuidSize + 8 ∧
        configOffset ≤ offset) := by
  have hlayout : adminSize < configOffset := by decide
  rw [(emulateRead_run offset t).1]
  split
  · refine List.forall_mem_singleton.trans ?_
    show offset + 4 ≤ adminSize ↔ _
    omega
  · split
    · refine List.forall_mem_singleton.trans ?_
      show offset - configOffset + 4 ≤ uuidSize ↔ _
      omega
    · refine iff_of_true (fun _ he => nomatch he) ?_
      omega

theorem guarded_of_returns {x : Emulating (Except EmulateError Nat)} {r : Except EmulateError Nat}
    (h : (x s).2.1 = .ok r) : Guarded Inside (· = .assertion) x s ↔ ∀ e ∈ (x s).1, Inside e := by
  refine ⟨fun hg => hg.events, fun he => ⟨he, fun e hend => ?_⟩⟩
  rw [h] at hend
  cases hend

/-- A write leaves the objects alone when it is out of range, or finds its word there. -/
theorem unchanged_write (hw : (∀ e ∈ (emulateWrite s.address s.word (answering s)).1, Inside e)) :
    ((emulateWrite s.address s.word (answering s)).2.2.admin = s.admin ∧
        (emulateWrite s.address s.word (answering s)).2.2.uuid = s.uuid) ↔
      (s.address + 4 ≤ adminSize → readBytes s.admin s.address 4 = s.word) ∧
      (configOffset ≤ s.address → s.address - configOffset + 4 ≤ uuidSize →
        readBytes s.uuid (s.address - configOffset) 4 = s.word) := by
  have hlayout : adminSize < configOffset := by decide
  obtain ⟨hadmin, huuid⟩ := (inside_write _ _ _).mp hw
  rw [emulateWrite_run]
  split
  · next ha =>
    have hin : s.address + 4 ≤ adminSize := by omega
    rw [show (answering s).admin = s.admin from rfl, show (answering s).uuid = s.uuid from rfl]
    dsimp only
    rw [writeBytes_word]
    exact ⟨fun h => ⟨fun _ => h.1, fun hc _ => absurd ha (by omega)⟩, fun h => ⟨h.1 hin, rfl⟩⟩
  · next ha =>
    split
    · next hc =>
      rw [show (answering s).admin = s.admin from rfl, show (answering s).uuid = s.uuid from rfl]
      dsimp only
      rw [writeBytes_word]
      exact ⟨fun h => ⟨fun hc' => absurd ha (by omega), fun _ _ => h.2⟩,
        fun h => ⟨rfl, h.2 hc.1 (by omega)⟩⟩
    · next hc =>
      exact iff_of_true ⟨rfl, rfl⟩ ⟨fun hc' => absurd ha (by omega), fun h1 h2 => absurd hc (by omega)⟩

theorem requestSafe_write (h : Matches s length) (ha : s.action = 1) : RequestSafe s length ↔ Harmless s := by
  have hrun := doEmulate_write h ha
  have hreturns : (doEmulate length s).2.1 = .ok (.ok writeResponseSize) := by rw [hrun]
  have hevents : (doEmulate length s).1 = (emulateWrite s.address s.word (answering s)).1 := by rw [hrun]
  have hadmin : (doEmulate length s).2.2.admin = (emulateWrite s.address s.word (answering s)).2.2.admin := by
    rw [hrun]
  have huuid : (doEmulate length s).2.2.uuid = (emulateWrite s.address s.word (answering s)).2.2.uuid := by
    rw [hrun]
  have hsize : WellFormed s length ↔ s.number 2 2 + 2 = writeSize := by
    unfold WellFormed messageSize
    rw [if_neg (by omega), if_pos ha, and_iff_right h]
    exact ⟨fun hs => (Option.some.inj hs).symm, fun hs => congrArg some hs.symm⟩
  constructor
  · rintro ⟨hguarded, hunchanged⟩
    have hin := (guarded_of_returns hreturns).mp hguarded
    rw [hevents] at hin
    rw [hadmin, huuid, unchanged_write hin, hsize] at hunchanged
    exact ⟨fun ha' => by omega, fun ha' => by omega, fun _ => (inside_write _ _ _).mp hin,
      fun _ hshort => hunchanged fun hw => hshort hw.1⟩
  · rintro ⟨-, -, hwrite, hshort⟩
    have hin := (inside_write s.address s.word (answering s)).mpr (hwrite ha)
    refine ⟨(guarded_of_returns hreturns).mpr (by rw [hevents]; exact hin), fun hbad => ?_⟩
    rw [hadmin, huuid, unchanged_write hin]
    rw [hsize] at hbad
    by_cases hs : s.number 2 2 + 2 = writeSize
    · exact ⟨fun hr => absurd ⟨hs, Or.inl hr⟩ hbad, fun hc hr => absurd ⟨hs, Or.inr ⟨hc, hr⟩⟩ hbad⟩
    · exact hshort ha hs

theorem requestSafe_read (h : Matches s length) (ha : s.action = 2) : RequestSafe s length ↔ Harmless s := by
  have hrun := doEmulate_read h ha
  have hreturns : (doEmulate length s).2.1 = .ok (.ok readResponseSize) := by rw [hrun]
  have hevents : (doEmulate length s).1 = (emulateRead s.address (answering s)).1 := by rw [hrun]
  have hmemory := emulateRead_memory s.address (answering s)
  constructor
  · rintro ⟨hguarded, -⟩
    have hin := (guarded_of_returns hreturns).mp hguarded
    rw [hevents] at hin
    exact ⟨fun ha' => by omega, fun _ => (inside_read _ _).mp hin, fun ha' => by omega, fun ha' => by omega⟩
  · rintro ⟨-, hread, -, -⟩
    refine ⟨(guarded_of_returns hreturns).mpr ?_, fun _ => ?_⟩
    · rw [hevents]
      exact (inside_read _ _).mpr (hread ha)
    · rw [hrun]
      exact hmemory

theorem requestSafe_other (h : Matches s length) (hw : s.action ≠ 1) (hr : s.action ≠ 2) :
    RequestSafe s length ↔ Harmless s := by
  obtain ⟨hevents, hadmin, huuid, hassert⟩ := doEmulate_other h hw hr
  constructor
  · rintro ⟨hguarded, -⟩
    refine ⟨fun ha => ?_, fun ha => absurd ha hr, fun ha => absurd ha hw, fun ha => absurd ha hw⟩
    refine Decidable.byContradiction fun hn => ?_
    exact hguarded.ending _ (hassert.mpr ⟨ha, hn⟩) rfl
  · rintro ⟨hnop, -, -, -⟩
    refine ⟨⟨?_, fun e he hbad => ?_⟩, fun _ => ⟨hadmin, huuid⟩⟩
    · rw [hevents]
      exact fun _ he => nomatch he
    · rw [hbad] at he
      exact (hassert.mp he).2 (hnop (hassert.mp he).1)

/-- **A request is safe** exactly when its length is not that of its header, or it is harmless. -/
theorem requestSafe_iff (s : Emulator) (length : Nat) :
    RequestSafe s length ↔ (Matches s length → Harmless s) := by
  by_cases h : Matches s length
  · refine Iff.trans ?_ (forall_prop_of_true h).symm
    by_cases hw : s.action = 1
    · exact requestSafe_write h hw
    · by_cases hr : s.action = 2
      · exact requestSafe_read h hr
      · exact requestSafe_other h hw hr
  · have hrun := doEmulate_mismatch h
    refine iff_of_true ⟨⟨?_, ?_⟩, fun _ => ?_⟩ fun hc => absurd hc h
    · rw [hrun]
      exact fun _ he => nomatch he
    · rw [hrun]
      exact fun _ he => nomatch he
    · rw [hrun]
      exact ⟨rfl, rfl⟩

/-- A write to the address 256, which is the size of the administration registers. -/
def writeBehind : Emulator where
  admin _ := 0
  uuid _ := 0
  payload := writeBytes (fun _ => 0) 0 [0, 0, 0, 14, 0, 0, 0x1f, 0, 0, 0, 1, 0, 1, 2, 3, 4]

theorem writeBehind_outside : ¬RequestSafe writeBehind 16 := by
  intro h
  have hin := h.guarded.events ⟨.admin, 256, true⟩ (by decide)
  exact absurd hin (by decide)

end OpenCpi.Sim
