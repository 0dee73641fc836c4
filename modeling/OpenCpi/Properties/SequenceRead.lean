import OpenCpi.Hdl.SequenceRead
import OpenCpi.Properties.HdlWci

/-!
# Sequences are read only where they do not fit

The test in `getPropertySequence` is the wrong way round, in both branches: a sequence that fits the buffer
of the caller throws, and one that does not is stored there. The bound holds where the function does not
get to the test, or where it throws for another reason.
-/

namespace OpenCpi.Hdl

open Infra Traced

variable {c : WciControl} {info : PropertyInfo} {host n : Nat} {reported : Reported}

/-! ## What a caller expects -/

/-- The controller once the window of `offset` is selected. -/
def WciControl.selected (offset : Nat) (c : WciControl) : WciControl :=
  if windowOf offset ≠ c.window then c.select (windowOf offset) else c

/-- The number of items in the device. -/
def countWord (c : WciControl) (info : PropertyInfo) : Nat :=
  wordOf ((c.selected info.offset).device.load (info.offset % configSize) 4)

/-- The items fit the buffer. -/
def Fitting (c : WciControl) (info : PropertyInfo) (n : Nat) : Prop :=
  countWord c info * (info.nBits / 8) ≤ n

instance (c : WciControl) (info : PropertyInfo) (n : Nat) : Decidable (Fitting c info n) :=
  inferInstanceAs (Decidable (_ ≤ _))

/-- The device reports an error. -/
def ReportsError (c : WciControl) (reported : Reported) : Prop :=
  if c.mapped then c.device.status &&& readErrors ≠ 0 else reported.count ≠ 0 ∨ reported.items ≠ 0

instance (c : WciControl) (reported : Reported) : Decidable (ReportsError c reported) :=
  inferInstanceAs (Decidable (if c.mapped then _ ≠ 0 else _ ∨ _))

/-- The assertions of `checkWindow` hold. -/
def WindowOk (c : WciControl) (offset nBytes : Nat) : Prop :=
  c.hasControl = true ∧ windowOf offset = windowOf (sizeT (offset + nBytes))

/-- The function throws or stores at most `n` bytes, and it returns when the device reports no error and the
items fit. -/
structure SequenceBounded (c : WciControl) (info : PropertyInfo) (host n : Nat) (reported : Reported) :
    Prop where
  bounded : (∃ e, (readSequence info host n reported c).2.1 = .error e) ∨
    (readSequence info host n reported c).1.flatten.length ≤ n
  returns : ¬ReportsError c reported → Fitting c info n →
    ∃ nItems, (readSequence info host n reported c).2.1 = .ok nItems

/-- The function does not get to its test, or the items do not fit and it throws. -/
def Spared (c : WciControl) (info : PropertyInfo) (n : Nat) (reported : Reported) : Prop :=
  ReportsError c reported ∨
    WindowOk c info.offset n ∧ c.mapped = true ∧ info.readError = true ∨
    ¬Fitting c info n ∧ (¬WindowOk c info.offset n ∨ itemBytes info (countWord c info) ≤ n)

/-! ## What the function does -/

theorem quietly_bind_ok {α β : Type} {m : M α} {f : α → Storing β} {a : α} {c' : WciControl}
    (h : m c = (.ok a, c')) : (quietly m >>= f) c = f a c' := by
  show Traced.bind (quietly m) f c = f a c'
  rw [Traced.bind, quietly, h]
  rfl

theorem quietly_bind_error {α β : Type} {m : M α} {f : α → Storing β} {e : Throw} {c' : WciControl}
    (h : m c = (.error e, c')) : (quietly m >>= f) c = ([], .error e, c') := by
  show Traced.bind (quietly m) f c = _
  rw [Traced.bind, quietly, h]

theorem exc_bind_ok {α β : Type} {m : M α} {f : α → M β} {a : α} {c' : WciControl}
    (h : m c = (.ok a, c')) : (m >>= f) c = f a c' := by
  show Exc.bind m f c = f a c'
  rw [Exc.bind, h]

theorem exc_bind_error {α β : Type} {m : M α} {f : α → M β} {e : Throw} {c' : WciControl}
    (h : m c = (.error e, c')) : (m >>= f) c = (.error e, c') := by
  show Exc.bind m f c = _
  rw [Exc.bind, h]

theorem exc_read_bind {α : Type} {f : WciControl → M α} : (Exc.read >>= f) c = f c c := rfl

theorem checkWindow_of_windowOk {offset nBytes : Nat} (h : WindowOk c offset nBytes) :
    checkWindow offset nBytes c = (.ok (offset % configSize), c.selected offset) := by
  unfold checkWindow
  rw [exc_read_bind, if_neg (by simp [h.1]), if_neg (not_not_intro h.2)]
  unfold WciControl.selected
  split <;> rfl

theorem checkWindow_of_not_windowOk {offset nBytes : Nat} (h : ¬WindowOk c offset nBytes) :
    checkWindow offset nBytes c = (.error .assertion, c) := by
  unfold checkWindow
  rw [exc_read_bind]
  by_cases hc : c.hasControl = false
  · rw [if_pos hc]
    rfl
  · rw [if_neg hc, if_pos fun hw => h ⟨by simpa using hc, hw⟩]
    rfl

@[simp] theorem selected_mapped (offset : Nat) : (c.selected offset).mapped = c.mapped := by
  unfold WciControl.selected
  split
  · simp only [WciControl.select]
  · rfl

theorem status_window (d : Device) (window : Nat) : ({ d with window } : Device).status = d.status := rfl

@[simp] theorem selected_status (offset : Nat) :
    (c.selected offset).device.status = c.device.status := by
  unfold WciControl.selected
  split
  · exact status_window c.device _
  · rfl

theorem reported_window (d : Device) (window : Nat) :
    ({ d with window } : Device).reported = d.reported := rfl

@[simp] theorem selected_reported (offset : Nat) :
    (c.selected offset).device.reported = c.device.reported := by
  unfold WciControl.selected
  split
  · exact reported_window c.device _
  · rfl

/-- The assertion stops everything. -/
theorem readSequence_of_not_windowOk (host : Nat) (reported : Reported) (h : ¬WindowOk c info.offset n) :
    readSequence info host n reported c = ([], .error .assertion, c) :=
  quietly_bind_error (checkWindow_of_not_windowOk h)

theorem throwIf_run {status : Nat} {e : Nat → Throw} :
    throwIf status e c = (if status ≠ 0 then .error (e status) else .ok (), c) := by
  unfold throwIf
  split <;> rfl

theorem throwIf_bind {status : Nat} {e : Nat → Throw} {f : Unit → Storing Nat} (h : status ≠ 0) :
    (quietly (throwIf status e) >>= f) c = ([], .error (e status), c) :=
  quietly_bind_error (by rw [throwIf_run, if_pos h])

theorem throwIf_zero_bind' {e : Nat → Throw} {f : Unit → Storing Nat} :
    (quietly (throwIf 0 e) >>= f) c = f () c :=
  quietly_bind_ok (by rw [throwIf_run, if_neg (by decide)])

theorem statusIf_bind' {cond : Bool} {errors : Nat} {f : Nat → Storing Nat} :
    (quietly (statusIf cond errors) >>= f) c =
      f (if cond then c.device.status &&& errors else 0) c :=
  quietly_bind_ok rfl

theorem traced_read_bind {f : WciControl → Storing Nat} : (Traced.read >>= f) c = f c c := rfl

/-- The registers of a property without errors of its own. -/
theorem readMapped_of_not_readError {offset : Nat} (h : info.readError = false) :
    readMapped info host n offset c =
      if c.device.status &&& readErrors ≠ 0 then
        ([], .error (.readError (c.device.status &&& readErrors)), c)
      else if itemBytes info (wordOf (c.device.load offset 4)) ≤ n then ([], .error .sequenceError, c)
      else ([getBytes host (offset + info.align) (itemBytes info (wordOf (c.device.load offset 4)))
          c.device], .ok (wordOf (c.device.load offset 4)), c) := by
  unfold readMapped
  rw [traced_read_bind, statusIf_bind', h]
  simp only [Bool.false_eq_true, if_false, if_true]
  rw [statusIf_bind']
  simp only [Bool.not_false, if_true, true_and]
  by_cases hs : c.device.status &&& readErrors = 0
  · rw [if_pos hs, if_neg (not_not_intro hs)]
    split <;> rfl
  · rw [if_neg hs, if_pos hs, throwIf_bind hs]

/-- An error in the register throws. -/
theorem readMapped_of_status {offset : Nat} (h : c.device.status &&& readErrors ≠ 0) :
    readMapped info host n offset c =
      ([], .error (.readError (c.device.status &&& readErrors)), c) := by
  cases hr : info.readError with
  | false => rw [readMapped_of_not_readError hr, if_pos h]
  | true =>
    unfold readMapped
    rw [traced_read_bind, statusIf_bind', hr]
    simp only [if_true]
    rw [statusIf_bind']
    simp only [Bool.not_true, Bool.false_eq_true, Bool.true_eq_false, if_false, false_and]
    rw [throwIf_bind h]

/-- Nothing is read of a property with errors of its own. -/
theorem readMapped_of_readError {offset : Nat} (hr : info.readError = true)
    (h : c.device.status &&& readErrors = 0) :
    readMapped info host n offset c = ([], .ok (wordOf (c.device.load offset 4)), c) := by
  unfold readMapped
  rw [traced_read_bind, statusIf_bind', hr]
  simp only [if_true]
  rw [statusIf_bind']
  simp only [Bool.not_true, Bool.false_eq_true, Bool.true_eq_false, if_false, false_and, h, if_true]
  rw [throwIf_zero_bind']
  rfl

theorem readAccessor_of_count {offset : Nat} (h : reported.count ≠ 0) :
    readAccessor info n offset reported c = ([], .error (.readError reported.count), c) := by
  unfold readAccessor
  rw [traced_read_bind]
  simp only [if_neg h]
  exact throwIf_bind h

theorem readAccessor_of_count_zero {offset : Nat} (h : reported.count = 0) :
    readAccessor info n offset reported c =
      if itemBytes info (wordOf (c.device.load offset 4)) ≤ n then ([], .error .sequenceError, c)
      else ([c.device.load (offset + info.align) (itemBytes info (wordOf (c.device.load offset 4)))],
        if reported.items ≠ 0 then .error (.readError reported.items)
        else .ok (wordOf (c.device.load offset 4)), c) := by
  unfold readAccessor
  rw [traced_read_bind]
  simp only [h, if_true]
  split
  · rfl
  · show Traced.bind (report _) (fun _ => _) c = _
    by_cases hi : reported.items = 0
    · rw [if_neg (not_not_intro hi), Traced.bind, report, hi]
      dsimp only
      rw [throwIf_zero_bind']
      rfl
    · rw [if_pos hi, Traced.bind, report]
      dsimp only
      rw [throwIf_bind hi]
      rfl

theorem readSequence_of_windowOk (host : Nat) (reported : Reported) (h : WindowOk c info.offset n) :
    readSequence info host n reported c =
      if c.mapped then readMapped info host n (info.offset % configSize) (c.selected info.offset)
      else readAccessor info n (info.offset % configSize) reported (c.selected info.offset) := by
  unfold readSequence
  rw [quietly_bind_ok (checkWindow_of_windowOk h), traced_read_bind, selected_mapped]
  split <;> rfl

theorem throws_of_reportsError (hw : WindowOk c info.offset n) (hr : ReportsError c reported) :
    ∃ e, (readSequence info host n reported c).2.1 = .error e := by
  rw [readSequence_of_windowOk host reported hw]
  unfold ReportsError at hr
  split at hr
  · next hm =>
    rw [if_pos hm]
    rw [readMapped_of_status (by rwa [selected_status])]
    exact ⟨_, rfl⟩
  · next hm =>
    rw [if_neg hm]
    by_cases hc : reported.count = 0
    · rw [readAccessor_of_count_zero hc]
      split
      · exact ⟨_, rfl⟩
      · rw [if_pos (hr.resolve_left (not_not_intro hc))]
        exact ⟨_, rfl⟩
    · rw [readAccessor_of_count hc]
      exact ⟨_, rfl⟩

/-- **The test is the wrong way round.** -/
theorem readSequence_of_tested (host : Nat) (hw : WindowOk c info.offset n) (hr : ¬ReportsError c reported)
    (hn : ¬(c.mapped = true ∧ info.readError = true)) :
    itemBytes info (countWord c info) ≤ n ∧
        (readSequence info host n reported c).2.1 = .error .sequenceError ∨
      n < itemBytes info (countWord c info) ∧
        (readSequence info host n reported c).2.1 = .ok (countWord c info) ∧
        (readSequence info host n reported c).1.flatten.length = itemBytes info (countWord c info) := by
  have hlen : ∀ data : List UInt8, [data].flatten.length = data.length := fun data => by simp
  have hword : wordOf ((c.selected info.offset).device.load (info.offset % configSize) 4) =
      countWord c info := rfl
  rw [readSequence_of_windowOk host reported hw]
  unfold ReportsError at hr
  split at hr
  · next hm =>
    have hfalse : info.readError = false := by simpa using fun h => hn ⟨hm, h⟩
    rw [if_pos hm, readMapped_of_not_readError hfalse, selected_status, if_neg hr, hword]
    by_cases hfit : itemBytes info (countWord c info) ≤ n
    · left
      rw [if_pos hfit]
      exact ⟨hfit, rfl⟩
    · right
      rw [if_neg hfit]
      refine ⟨by omega, rfl, ?_⟩
      rw [hlen, getBytes_eq]
      exact readBytes_length _ _ _
  · next hm =>
    simp only [ne_eq, not_or, not_not] at hr
    rw [if_neg hm, readAccessor_of_count_zero hr.1, hword]
    by_cases hfit : itemBytes info (countWord c info) ≤ n
    · left
      rw [if_pos hfit]
      exact ⟨hfit, rfl⟩
    · right
      rw [if_neg hfit, if_neg (not_not_intro hr.2)]
      refine ⟨by omega, rfl, ?_⟩
      rw [hlen]
      exact readBytes_length _ _ _

/-! ## The function without stores -/

theorem wordOf_lt : ∀ (bytes : List UInt8), wordOf bytes < 256 ^ bytes.length
  | [] => by decide
  | b :: rest => by
    have ih := wordOf_lt rest
    have hb := b.toNat_lt
    rw [wordOf, List.length_cons, Nat.pow_succ]
    omega

theorem itemBytes_of_lt {nItems : Nat} (h : nItems * (info.nBits / 8) < 2 ^ 64) :
    itemBytes info nItems = nItems * (info.nBits / 8) := Nat.mod_eq_of_lt h

theorem itemBytes_load (h : info.nBits / 8 < 2 ^ 32) (d : Device) (offset : Nat) :
    itemBytes info (wordOf (d.load offset 4)) = wordOf (d.load offset 4) * (info.nBits / 8) := by
  have hword : wordOf (d.load offset 4) < 2 ^ 32 := by
    have hlt := wordOf_lt (d.load offset 4)
    rwa [show (d.load offset 4).length = 4 from readBytes_length _ _ _] at hlt
  have hlt := Nat.mul_lt_mul'' hword h
  exact itemBytes_of_lt (by rwa [← Nat.pow_add] at hlt)

theorem throwIf_exc_bind {α : Type} {status : Nat} {e : Nat → Throw} {f : Unit → M α}
    (h : status ≠ 0) : (throwIf status e >>= f) c = (.error (e status), c) :=
  exc_bind_error (by rw [throwIf_run, if_pos h])

theorem throwIf_exc_zero {α : Type} {e : Nat → Throw} {f : Unit → M α} :
    (throwIf 0 e >>= f) c = f () c :=
  exc_bind_ok (by rw [throwIf_run, if_neg (by decide)])

theorem statusIf_exc_bind {α : Type} {cond : Bool} {errors : Nat} {f : Nat → M α} :
    (statusIf cond errors >>= f) c = f (if cond then c.device.status &&& errors else 0) c :=
  exc_bind_ok rfl

/-- What a computation that stores in the buffer returns together with the buffer. -/
def withBuffer (r : List (List UInt8) × Except Throw Nat × WciControl) :
    Except Throw (Nat × List UInt8) :=
  r.2.1.map fun nItems => (nItems, r.1.flatten)

theorem withBuffer_stored (data : List UInt8) (nItems : Nat) :
    withBuffer ([data], .ok nItems, c) = .ok (nItems, data) := by
  simp [withBuffer, Except.map]

/-- For items shorter than 2^32 bytes and a device that reports the same twice this is
`getPropertySequence`. -/
theorem getPropertySequence_eq (h : info.nBits / 8 < 2 ^ 32) :
    (getPropertySequence info host n c).1 =
      withBuffer (readSequence info host n ⟨c.device.reported, c.device.reported⟩ c) := by
  by_cases hw : WindowOk c info.offset n
  · rw [readSequence_of_windowOk host _ hw]
    unfold getPropertySequence
    rw [exc_bind_ok (checkWindow_of_windowOk hw), exc_read_bind, selected_mapped]
    have hbytes := itemBytes_load h (c.selected info.offset).device (info.offset % configSize)
    by_cases hm : c.mapped = true
    · simp only [if_pos hm]
      rw [statusIf_exc_bind, statusIf_exc_bind]
      cases hr : info.readError with
      | false =>
        rw [readMapped_of_not_readError hr, hbytes]
        simp only [Bool.false_eq_true, if_false, if_true, Bool.not_false, true_and, ne_eq, ite_not]
        split
        · split
          · rfl
          · exact (withBuffer_stored _ _).symm
        · next hs =>
          rw [throwIf_exc_bind hs]
          rfl
      | true =>
        simp only [Bool.not_true, Bool.false_eq_true, Bool.true_eq_false, if_false, if_true, false_and]
        by_cases hs : (c.selected info.offset).device.status &&& readErrors = 0
        · rw [readMapped_of_readError hr hs, hs, throwIf_exc_zero]
          rfl
        · rw [readMapped_of_status hs, throwIf_exc_bind hs]
          rfl
    · simp only [if_neg hm, selected_reported]
      by_cases hs : c.device.reported = 0
      · rw [readAccessor_of_count_zero hs, hs, throwIf_exc_zero, hbytes]
        split
        · rfl
        · rw [if_neg (not_not_intro rfl)]
          exact (withBuffer_stored _ _).symm
      · rw [readAccessor_of_count hs, throwIf_exc_bind hs]
        rfl
  · rw [readSequence_of_not_windowOk host _ hw]
    unfold getPropertySequence
    rw [exc_bind_error (checkWindow_of_not_windowOk hw)]
    rfl

/-! ## When the bound holds -/

/-- **Sequence reads are bounded** if and only if the function is spared its test, or the items do not fit
and it throws. -/
theorem sequenceBounded_iff (c : WciControl) (info : PropertyInfo) (host n : Nat) (reported : Reported) :
    SequenceBounded c info host n reported ↔ Spared c info n reported := by
  by_cases hw : WindowOk c info.offset n
  · by_cases hr : ReportsError c reported
    · exact ⟨fun _ => .inl hr, fun _ => ⟨.inl (throws_of_reportsError hw hr), fun h => absurd hr h⟩⟩
    · by_cases hn : c.mapped = true ∧ info.readError = true
      · refine ⟨fun _ => .inr (.inl ⟨hw, hn⟩), fun _ => ?_⟩
        have hs : (c.selected info.offset).device.status &&& readErrors = 0 := by
          unfold ReportsError at hr
          rw [if_pos hn.1] at hr
          rw [selected_status]
          exact not_not.mp hr
        have hrun := readSequence_of_windowOk host reported hw
        rw [if_pos hn.1, readMapped_of_readError hn.2 hs] at hrun
        refine ⟨.inr ?_, fun _ _ => ⟨_, by rw [hrun]⟩⟩
        rw [hrun]
        exact Nat.zero_le _
      · have hspared : Spared c info n reported ↔
            ¬Fitting c info n ∧ itemBytes info (countWord c info) ≤ n := by
          simp only [Spared, hr, hw, hn, not_true, true_and, false_or]
        rw [hspared]
        rcases readSequence_of_tested host hw hr hn with ⟨hfit, herr⟩ | ⟨hlt, hok, hlen⟩
        · constructor
          · intro h
            refine ⟨fun hf => ?_, hfit⟩
            obtain ⟨nItems, hok⟩ := h.returns hr hf
            rw [herr] at hok
            cases hok
          · rintro ⟨hf, -⟩
            exact ⟨.inl ⟨_, herr⟩, fun _ h => absurd h hf⟩
        · constructor
          · rintro ⟨⟨e, herr⟩ | hle, -⟩
            · rw [hok] at herr
              cases herr
            · omega
          · rintro ⟨-, hle⟩
            omega
  · have hrun := readSequence_of_not_windowOk host reported hw
    constructor
    · intro h
      by_cases hr : ReportsError c reported
      · exact .inl hr
      · refine .inr (.inr ⟨fun hf => ?_, .inl hw⟩)
        obtain ⟨nItems, hok⟩ := h.returns hr hf
        rw [hrun] at hok
        cases hok
    · intro h
      refine ⟨.inl ⟨.assertion, by rw [hrun]⟩, fun hr hf => ?_⟩
      rcases h with h | ⟨h, -⟩ | ⟨h, -⟩
      · exact absurd h hr
      · exact absurd h hw
      · exact absurd hf h

/-- A sequence of two characters behind their number. -/
def twoChars : PropertyInfo :=
  { baseType := .uChar, offset := 0, align := 4, nBits := 8, isSequence := true, isIndirect := false
    readError := false, writeError := false }

/-- Two characters throw for a buffer of eight bytes, and overrun a buffer of one byte; in memory and over
the network. -/
theorem sequence_unbounded :
    (∀ mapped, ¬SequenceBounded (created mapped (fun a => if a = 0 then 2 else 0) fun _ => 0) twoChars 0 8
      ⟨0, 0⟩) ∧
    (∀ mapped, ¬SequenceBounded (created mapped (fun a => if a = 0 then 2 else 0) fun _ => 0) twoChars 0 1
      ⟨0, 0⟩) := by
  constructor
  · rintro (_ | _) h
    · obtain ⟨nItems, hok⟩ := h.returns (by decide) (by decide)
      cases hok
    · obtain ⟨nItems, hok⟩ := h.returns (by decide) (by decide)
      cases hok
  · rintro (_ | _) h
    · rcases h.bounded with ⟨e, herr⟩ | hle
      · cases herr
      · revert hle
        decide
    · rcases h.bounded with ⟨e, herr⟩ | hle
      · cases herr
      · revert hle
        decide

end OpenCpi.Hdl
