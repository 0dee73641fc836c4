import Mathlib.Data.List.Nodup
import Mathlib.Data.Nat.Bitwise
import OpenCpi.Rcc.Dispatch

/-!
# The dispatch loop leaves out a port that is ready alone

`run` goes through the ports with `mtest < readyMask`. The test fails for the highest port of the mask when it
is the only one, and with port 31 and another one it does not fail any more, since `mtest` comes to 0. The
mask has only ports of the run condition, is 0 when there are no masks and after a timeout, and also has the
optional ports that are not connected, which then take the place of the run method.
-/

namespace OpenCpi.Rcc.Running

variable {w : Worker} {M : PortMask} {ports : List Port} {p q n : Nat} {t t' : Turn}

/-! ## What a turn is for -/

/-- The port is connected and ready. -/
def Worker.Ready (w : Worker) (p : Nat) : Prop :=
  w.connectedPorts.getLsbD p = true ∧ ∃ port, w.ports[p]? = some port ∧ port.containerPort ∧ port.ready

/-- The port is optional and not connected. -/
def Worker.Unconnected (w : Worker) (p : Nat) : Prop :=
  w.optionallyConnectedPorts.getLsbD p = true ∧ w.connectedPorts.getLsbD p = false

def HasCallBack (ports : List Port) (p : Nat) : Prop := ports[p]?.bind (·.callBack) ≠ none

/-- The port is in a mask of the run condition. -/
def Worker.InMask (w : Worker) (p : Nat) : Prop :=
  ∃ masks, w.runCondition.portMasks = some masks ∧ ∃ mask ∈ masks, mask.1.getLsbD p = true

def Worker.NoMasks (w : Worker) : Prop := w.runCondition.portMasks = none

def Worker.TimedOut (w : Worker) : Prop := w.runCondition.timeout ∧ w.expired

/-- There is something to execute. -/
def Worker.Met (w : Worker) : Prop :=
  w.NoMasks ∨ w.TimedOut ∨ ∃ masks, w.runCondition.portMasks = some masks ∧
    ∃ mask ∈ masks, ∀ p, mask.1.getLsbD p = true → w.Ready p ∨ w.Unconnected p

/-- A turn executes what it has to, and reads no port that is not there. -/
structure Proper (w : Worker) (t : Turn) : Prop where
  executes : t.calls ≠ [] ↔ w.Met
  callBacks : w.Met → ∀ p, w.Ready p → HasCallBack w.ports p → t.calls.count (.callBack p) = 1
  runs : w.Met → ((∃ timeout, .run timeout ∈ t.calls) ↔ ∀ p, w.Ready p → ¬HasCallBack w.ports p)
  indexed : ∀ p ∈ t.indexed, p < w.ports.length

/-- `run` comes to its end with a proper turn. -/
def Dispatches (w : Worker) : Prop := ∃ fuel t, w.run fuel = some t ∧ Proper w t

/-- The ports are looked at: there are masks, and there was no timeout. -/
def Worker.Awaits (w : Worker) : Prop := ¬w.NoMasks ∧ ¬w.TimedOut

/-- The port counts as ready. -/
def Worker.Counts (w : Worker) (p : Nat) : Prop := w.Ready p ∧ w.InMask p ∨ w.Unconnected p

/-- The conditions under which the loop and the ready mask do no harm. -/
structure Regular (w : Worker) : Prop where
  enabled : w.Met → w.enabled
  accompanied : w.Met → ∀ p, w.Ready p → HasCallBack w.ports p →
    w.Awaits ∧ w.InMask p ∧ ∃ q, q ≠ p ∧ w.Counts q
  run : w.Met → (∀ p, w.Ready p → ¬HasCallBack w.ports p) →
    w.hasRun ∧ (w.Awaits → ∀ p, w.Unconnected p → HasCallBack w.ports p → ∀ q, w.Counts q → q = p)
  last : w.Met → w.Awaits → w.Counts 31 → ∀ q, w.Counts q → q = 31

/-! ## Masks -/

theorem bit_and (p : Nat) (M : PortMask) : (1 : PortMask) <<< p &&& M ≠ 0 ↔ M.getLsbD p = true := by
  have htwo : (1 : PortMask) <<< p = BitVec.twoPow 32 p := rfl
  rw [htwo, BitVec.and_comm, BitVec.and_twoPow]
  cases h : M.getLsbD p with
  | false => simp
  | true =>
    have hp : p < 32 := BitVec.lt_of_getLsbD h
    refine iff_of_true (fun hz => ?_) rfl
    have hbit := congrArg (fun m : PortMask => m.getLsbD p) hz
    simp [hp] at hbit

theorem getLsbD_bit (p n : Nat) :
    ((1 : PortMask) <<< p).getLsbD n = true ↔ n < 32 ∧ p = n := by
  have htwo : (1 : PortMask) <<< p = BitVec.twoPow 32 p := rfl
  rw [htwo, BitVec.getLsbD_twoPow]
  simp only [Bool.and_eq_true, decide_eq_true_eq]
  constructor
  · rintro ⟨hp, rfl⟩
    exact ⟨hp, rfl⟩
  · rintro ⟨hn, rfl⟩
    exact ⟨hn, rfl⟩

theorem shift_bit (p : Nat) : ((1 : PortMask) <<< p) <<< 1 = (1 : PortMask) <<< (p + 1) :=
  (BitVec.shiftLeft_add 1 p 1).symm

theorem bit_lt (h : p < 32) : (1 : PortMask) <<< p < M ↔ 2 ^ p < M.toNat := by
  have htwo : (1 : PortMask) <<< p = BitVec.twoPow 32 p := rfl
  rw [htwo, BitVec.lt_def, BitVec.toNat_twoPow, Nat.mod_eq_of_lt (Nat.pow_lt_pow_right (by decide) h)]

/-- A port of a mask is below it if it is not the only one. -/
theorem pow_lt_iff (h : M.getLsbD p = true) :
    2 ^ p < M.toNat ↔ ∃ q, q ≠ p ∧ M.getLsbD q = true := by
  have hle : 2 ^ p ≤ M.toNat := Nat.ge_two_pow_of_testBit h
  constructor
  · intro hlt
    by_contra hnone
    refine (Nat.ne_of_lt hlt) (Nat.eq_of_testBit_eq fun q => ?_)
    by_cases hq : q = p
    · rw [hq, Nat.testBit_two_pow_self]
      exact h.symm
    · rw [Nat.testBit_two_pow_of_ne (Ne.symm hq)]
      by_contra hbit
      exact hnone ⟨q, hq, Bool.not_eq_false _ ▸ (Ne.symm hbit)⟩
  · rintro ⟨q, hq, hbit⟩
    refine Nat.lt_of_le_of_ne hle fun heq => ?_
    have hbit : M.toNat.testBit q = true := hbit
    rw [← heq, Nat.testBit_two_pow_of_ne (Ne.symm hq)] at hbit
    cases hbit

/-- A mask above port 31 has this port and another one. -/
theorem last_lt_iff : 2 ^ 31 < M.toNat ↔
    M.getLsbD 31 = true ∧ ∃ q, q ≠ 31 ∧ M.getLsbD q = true := by
  constructor
  · intro hlt
    have hbit : M.getLsbD 31 = true :=
      Nat.testBit_of_two_pow_le_and_two_pow_add_one_gt (Nat.le_of_lt hlt) M.isLt
    exact ⟨hbit, (pow_lt_iff hbit).mp hlt⟩
  · rintro ⟨hbit, hother⟩
    exact (pow_lt_iff hbit).mpr hother

/-! ## The ready mask -/

theorem readyLoop_bit (candidates : PortMask) : ∀ (ports : List Port) (k : Nat) (acc : PortMask),
    (readyLoop candidates ports ((1 : PortMask) <<< k) acc).getLsbD n = true ↔
      acc.getLsbD n = true ∨ k ≤ n ∧ candidates.getLsbD n = true ∧
        ∃ port, ports[n - k]? = some port ∧ port.containerPort ∧ port.ready
  | [], k, acc => by
    refine ⟨Or.inl, ?_⟩
    rintro (h | ⟨-, -, port, h, -⟩)
    · exact h
    · cases h
  | port :: ports, k, acc => by
    unfold readyLoop
    rw [shift_bit, readyLoop_bit candidates ports (k + 1)]
    have hcand : candidates &&& (1 : PortMask) <<< k ≠ 0 ↔ candidates.getLsbD k = true := by
      rw [BitVec.and_comm]
      exact bit_and k candidates
    constructor
    · rintro (h | ⟨hk, hc, p, hp, hready⟩)
      · split at h
        · next hport =>
          rw [BitVec.getLsbD_or, Bool.or_eq_true, getLsbD_bit] at h
          rcases h with h | ⟨-, rfl⟩
          · exact Or.inl h
          · refine Or.inr ⟨Nat.le_refl _, hcand.mp hport.1, port, ?_, hport.2⟩
            rw [Nat.sub_self]
            rfl
        · exact Or.inl h
      · refine Or.inr ⟨by omega, hc, p, ?_, hready⟩
        rw [show n - k = n - (k + 1) + 1 by omega]
        exact hp
    · rintro (h | ⟨hk, hc, p, hp, hready⟩)
      · refine Or.inl ?_
        split
        · rw [BitVec.getLsbD_or, h, Bool.true_or]
        · exact h
      · rcases Nat.eq_or_lt_of_le hk with rfl | hlt
        · rw [Nat.sub_self] at hp
          cases hp
          have hn : k < 32 := BitVec.lt_of_getLsbD hc
          rw [if_pos ⟨hcand.mpr hc, hready⟩, BitVec.getLsbD_or, Bool.or_eq_true]
          exact Or.inl (Or.inr ((getLsbD_bit k k).mpr ⟨hn, rfl⟩))
        · refine Or.inr ⟨hlt, hc, p, ?_, hready⟩
          rw [show n - k = n - (k + 1) + 1 by omega] at hp
          exact hp

theorem foldl_or_bit : ∀ (masks : List {mask : PortMask // mask ≠ 0}) (acc : PortMask),
    (masks.foldl (fun ss mask => ss ||| mask.1) acc).getLsbD p = true ↔
      acc.getLsbD p = true ∨ ∃ mask ∈ masks, mask.1.getLsbD p = true
  | [], acc => by simp
  | mask :: masks, acc => by
    rw [List.foldl_cons, foldl_or_bit masks, BitVec.getLsbD_or, Bool.or_eq_true]
    simp only [List.mem_cons, exists_eq_or_imp, or_assoc]

/-- `runConditionSS` has the ports of the masks. -/
theorem union_bit : w.runCondition.union.getLsbD p = true ↔ w.InMask p := by
  unfold RunCondition.union Worker.InMask
  rw [foldl_or_bit]
  cases w.runCondition.portMasks with
  | none => simp
  | some masks => simp

theorem getReadyPorts_bit : w.getReadyPorts.getLsbD p = true ↔ w.Ready p ∧ w.InMask p := by
  unfold Worker.getReadyPorts
  have hone : (1 : PortMask) = (1 : PortMask) <<< 0 := rfl
  rw [hone, readyLoop_bit, BitVec.getLsbD_and, Bool.and_eq_true, union_bit]
  simp only [Worker.Ready, Nat.zero_le, true_and, Nat.sub_zero]
  constructor
  · rintro (h | ⟨⟨hconn, hmask⟩, hport⟩)
    · cases h.symm.trans (BitVec.getLsbD_zero)
    · exact ⟨⟨hconn, hport⟩, hmask⟩
  · rintro ⟨⟨hconn, hport⟩, hmask⟩
    exact Or.inr ⟨⟨hconn, hmask⟩, hport⟩

/-- The mask has the ports that count as ready. -/
theorem readyMask_bit : w.readyMask.getLsbD p = true ↔ w.Counts p := by
  unfold Worker.readyMask Worker.Counts Worker.Unconnected
  rw [BitVec.getLsbD_or, Bool.or_eq_true, getReadyPorts_bit, BitVec.getLsbD_and, Bool.and_eq_true]
  refine or_congr Iff.rfl (and_congr_right fun h => ?_)
  have hp : p < 32 := BitVec.lt_of_getLsbD h
  simp [hp]

theorem Worker.Counts.lt (h : w.Counts p) : p < w.ports.length := by
  rcases h with ⟨⟨-, port, hport, -⟩, -⟩ | ⟨h, -⟩
  · exact (List.getElem?_eq_some_iff.mp hport).1
  · exact w.optional_lt p h

/-- A mask that is within the ready mask has ports that are ready or not connected. -/
theorem mask_ready_iff {masks : List {mask : PortMask // mask ≠ 0}} {mask : {mask : PortMask // mask ≠ 0}}
    (hmasks : w.runCondition.portMasks = some masks) (hmem : mask ∈ masks) :
    mask.1 &&& w.readyMask = mask.1 ↔ ∀ p, mask.1.getLsbD p = true → w.Ready p ∨ w.Unconnected p := by
  constructor
  · intro h p hp
    have hbit : (mask.1 &&& w.readyMask).getLsbD p = true := h.symm ▸ hp
    rw [BitVec.getLsbD_and, Bool.and_eq_true, readyMask_bit] at hbit
    exact hbit.2.imp_left And.left
  · intro h
    refine BitVec.eq_of_getLsbD_eq fun p _ => ?_
    rw [BitVec.getLsbD_and]
    cases hp : mask.1.getLsbD p with
    | false => rfl
    | true =>
      rw [Bool.true_and, readyMask_bit]
      exact (h p hp).imp_left fun hready => ⟨hready, masks, hmasks, mask, hmem, hp⟩

/-! ## Setting up -/

theorem ourMask_bit (h : n ≤ 32) (hp : (ourMask n).getLsbD p = true) : p < n := by
  unfold ourMask at hp
  rcases Nat.eq_or_lt_of_le h with rfl | hlt
  · have hzero : ~~~((-1 : PortMask) <<< (32 % 32)) = 0 := by decide
    rw [hzero] at hp
    cases hp.symm.trans BitVec.getLsbD_zero
  · rw [Nat.mod_eq_of_lt hlt] at hp
    by_contra hge
    have hp32 : p < 32 := BitVec.lt_of_getLsbD hp
    have hones : (-1 : PortMask) = BitVec.allOnes 32 := by decide
    rw [hones, BitVec.getLsbD_not, BitVec.getLsbD_shiftLeft, BitVec.getLsbD_allOnes] at hp
    rw [decide_eq_true hp32, decide_eq_false (by omega), decide_eq_true (by omega)] at hp
    cases hp

theorem bit_of_and_not {mask mask' : PortMask} (h : ~~~mask &&& mask' = 0) (hp : mask'.getLsbD p = true) :
    mask.getLsbD p = true := by
  have hp32 : p < 32 := BitVec.lt_of_getLsbD hp
  have hbit : (~~~mask &&& mask').getLsbD p = (0 : PortMask).getLsbD p := by rw [h]
  rw [BitVec.getLsbD_and, BitVec.getLsbD_not, hp, decide_eq_true hp32] at hbit
  simpa using hbit

theorem defaultRunCondition_union (n : Nat) : (defaultRunCondition n).union = ourMask n := by
  unfold defaultRunCondition RunCondition.union
  dsimp only
  split
  · next h =>
    rw [h]
    decide
  · split
    · next h => exact h.symm
    · exact BitVec.zero_or

/-- What `initializeContext` accepts: `runConditionSS` is the union of the masks, and optional ports and
masks are within the ports. -/
theorem initMasks_ok {optional : PortMask} {runCondition : Option RunCondition} {c : RunCondition}
    {ss : PortMask} (hn : n ≤ 32) (h : initMasks n optional runCondition = .ok (c, ss)) :
    ss = c.union ∧ (∀ p, optional.getLsbD p = true → p < n) ∧ ∀ p, ss.getLsbD p = true → p < n := by
  unfold initMasks at h
  split at h
  · cases h
  · next hopt =>
    have hoptional : ∀ p, optional.getLsbD p = true → p < n := fun p hp =>
      ourMask_bit hn (bit_of_and_not (not_not.mp hopt) hp)
    split at h
    · split at h
      · cases h
      · next hany =>
        cases h
        refine ⟨rfl, hoptional, fun p hp => ?_⟩
        unfold RunCondition.union at hp
        rcases (foldl_or_bit _ 0).mp hp with hz | ⟨mask, hmem, hbit⟩
        · cases hz.symm.trans BitVec.getLsbD_zero
        · refine ourMask_bit hn (bit_of_and_not ?_ hbit)
          by_contra hne
          exact hany (List.any_eq_true.mpr ⟨mask, hmem, decide_eq_true hne⟩)
    · cases h
      exact ⟨(defaultRunCondition_union n).symm, hoptional, fun p hp => ourMask_bit hn hp⟩

/-- For 32 ports the shift does nothing, and the default run condition has no mask. -/
example : defaultRunCondition 32 = ⟨some [], false⟩ := by decide

/-! ## The run condition -/

theorem evaluate_unawaited (h : ¬w.Awaits) : ∃ timeout, w.evaluate = some (0, timeout) := by
  unfold Worker.evaluate
  cases hmasks : w.runCondition.portMasks with
  | none => exact ⟨false, rfl⟩
  | some masks =>
    have htimed : w.TimedOut := by
      by_contra hnot
      refine h ⟨fun hnone => ?_, hnot⟩
      cases hmasks.symm.trans hnone
    exact ⟨true, if_pos htimed⟩

theorem evaluate_met (h : w.Awaits) (hmet : w.Met) : w.evaluate = some (w.readyMask, false) := by
  obtain hnone | htimed | ⟨masks, hmasks, mask, hmem, hall⟩ := hmet
  · exact absurd hnone h.1
  · exact absurd htimed h.2
  · unfold Worker.evaluate
    rw [hmasks]
    dsimp only
    have hmask := (mask_ready_iff hmasks hmem).mpr hall
    have hne : masks ≠ [] := List.ne_nil_of_mem hmem
    have hready : w.readyMask ≠ 0 := by
      intro hz
      rw [hz] at hmask
      exact mask.2 (hmask.symm.trans BitVec.and_zero)
    have hany : (masks.any fun mask => decide (mask.1 &&& w.readyMask = mask.1)) = true :=
      List.any_eq_true.mpr ⟨mask, hmem, decide_eq_true hmask⟩
    exact (if_neg h.2).trans ((if_neg (not_or.mpr ⟨hne, hready⟩)).trans (if_pos hany))

theorem evaluate_unmet (hmet : ¬w.Met) : w.evaluate = none := by
  unfold Worker.evaluate
  cases hmasks : w.runCondition.portMasks with
  | none => exact absurd (Or.inl hmasks) hmet
  | some masks =>
    dsimp only
    have htimed : ¬(w.runCondition.timeout ∧ w.expired) := fun ht => hmet (Or.inr (Or.inl ht))
    refine (if_neg htimed).trans ?_
    split
    · rfl
    · rw [if_neg]
      intro hany
      obtain ⟨mask, hmem, hmask⟩ := List.any_eq_true.mp hany
      refine hmet (Or.inr (Or.inr ⟨masks, hmasks, mask, hmem, ?_⟩))
      exact (mask_ready_iff hmasks hmem).mp (of_decide_eq_true hmask)

/-! ## The loop -/

/-- The ports that the loop visits. -/
def visited (M : PortMask) : List Nat :=
  (List.range 32).filter fun p => M.getLsbD p ∧ 2 ^ p < M.toNat

theorem mem_visited : p ∈ visited M ↔ M.getLsbD p = true ∧ 2 ^ p < M.toNat := by
  unfold visited
  rw [List.mem_filter, List.mem_range, decide_eq_true_iff]
  refine ⟨And.right, fun h => ⟨?_, h⟩⟩
  by_contra hge
  rw [BitVec.getLsbD_of_ge M p (by omega)] at h
  cases h.1

/-- A mask above port 31 is never passed. -/
theorem dispatchLoop_endless (h : 2 ^ 31 < M.toNat) : ∀ (fuel p : Nat) (t : Turn),
    dispatchLoop ports M fuel ((1 : PortMask) <<< p) p t = none
  | 0, _, _ => rfl
  | fuel + 1, p, t => by
    have hlt : (1 : PortMask) <<< p < M := by
      by_cases hp : p < 32
      · rw [bit_lt hp]
        exact Nat.lt_of_le_of_lt (Nat.pow_le_pow_right (by decide) (by omega)) h
      · have hzero : (1 : PortMask) <<< p = 0 :=
          BitVec.shiftLeft_eq_zero (by omega)
        rw [hzero, BitVec.lt_def]
        exact Nat.lt_of_le_of_lt (Nat.zero_le _) h
    unfold dispatchLoop
    rw [if_pos hlt, shift_bit]
    exact dispatchLoop_endless h fuel (p + 1) _

/-- Else the loop comes to its end after at most 32 turns. -/
theorem dispatchLoop_eq (h : M.toNat ≤ 2 ^ 31) : ∀ (fuel p : Nat) (t : Turn), p ≤ 31 → 31 - p < fuel →
    dispatchLoop ports M fuel ((1 : PortMask) <<< p) p t =
      some (((List.range' p (32 - p)).filter fun q => M.getLsbD q ∧ 2 ^ q < M.toNat).foldl
        (fun t q => t.visit ports q) t)
  | 0, _, _, _, hfuel => absurd hfuel (Nat.not_lt_zero _)
  | fuel + 1, p, t, hp, hfuel => by
    unfold dispatchLoop
    by_cases hlt : 2 ^ p < M.toNat
    · have hp31 : p < 31 := (Nat.pow_lt_pow_iff_right (by decide)).mp (Nat.lt_of_lt_of_le hlt h)
      rw [if_pos ((bit_lt (by omega)).mpr hlt), shift_bit, dispatchLoop_eq h fuel (p + 1) _ (by omega) (by omega),
        show 32 - p = (32 - (p + 1)) + 1 by omega, List.range'_succ]
      congr 1
      by_cases hbit : M.getLsbD p = true
      · rw [if_pos ((bit_and p M).mpr hbit), List.filter_cons_of_pos (by rw [decide_eq_true_iff]; exact ⟨hbit, hlt⟩)]
        rfl
      · rw [if_neg (fun hne => hbit ((bit_and p M).mp hne)),
          List.filter_cons_of_neg (by rw [decide_eq_true_iff]; exact fun hd => hbit hd.1)]
    · rw [if_neg (fun hb => hlt ((bit_lt (by omega)).mp hb))]
      have hnil : (List.range' p (32 - p)).filter (fun q => M.getLsbD q ∧ 2 ^ q < M.toNat) = [] := by
        refine List.filter_eq_nil_iff.mpr fun q hq hd => ?_
        have hle : p ≤ q := (List.mem_range'_1.mp hq).1
        have hpow : 2 ^ p ≤ 2 ^ q := Nat.pow_le_pow_right (by decide) hle
        exact hlt (Nat.lt_of_le_of_lt hpow (of_decide_eq_true hd).2)
      rw [hnil]
      rfl

/-- What some visits do. -/
theorem foldl_visit : ∀ (qs : List Nat) (t : Turn),
    (qs.foldl (fun t q => t.visit ports q) t).calls =
        t.calls ++ (qs.filter fun q => (ports[q]?.bind (·.callBack)).isSome).map .callBack ∧
      (qs.foldl (fun t q => t.visit ports q) t).indexed = t.indexed ++ qs ∧
      (qs.foldl (fun t q => t.visit ports q) t).executeRun =
        (t.executeRun && !qs.any fun q => (ports[q]?.bind (·.callBack)).isSome)
  | [], t => by simp
  | q :: qs, t => by
    rw [List.foldl_cons]
    obtain ⟨hcalls, hindexed, hrun⟩ := foldl_visit qs (t.visit ports q)
    rw [hcalls, hindexed, hrun]
    unfold Turn.visit
    cases hcb : ports[q]?.bind (·.callBack) with
    | none => simp [hcb]
    | some rc => simp [hcb]

/-- More turns do no harm. -/
theorem dispatchLoop_add (k : Nat) : ∀ (fuel : Nat) (mtest : PortMask) (p : Nat) (t : Turn),
    dispatchLoop ports M fuel mtest p t = some t' → dispatchLoop ports M (fuel + k) mtest p t = some t'
  | 0, _, _, _, h => nomatch h
  | fuel + 1, mtest, p, t, h => by
    rw [Nat.add_right_comm]
    unfold dispatchLoop at h ⊢
    split
    · next hlt =>
      rw [if_pos hlt] at h
      exact dispatchLoop_add k fuel _ _ _ h
    · next hge =>
      rw [if_neg hge] at h
      exact h

/-! ## A turn -/

/-- The visits for a ready mask. -/
def Worker.visits (w : Worker) (M : PortMask) : Turn :=
  (visited M).foldl (fun t q => t.visit w.ports q) ⟨[], [], true, true⟩

/-- The turn for a ready mask. -/
def Worker.turn (w : Worker) (M : PortMask) (timeout : Bool) : Turn :=
  if w.hasRun ∧ (w.visits M).executeRun then
    { w.visits M with calls := (w.visits M).calls ++ [.run timeout] }
  else w.visits M

/-- `run` when the run condition is met. -/
theorem run_iff {timeout : Bool} {P : Turn → Prop} (henabled : w.enabled = true)
    (heval : w.evaluate = some (M, timeout)) :
    (∃ fuel t, w.run fuel = some t ∧ P t) ↔ M.toNat ≤ 2 ^ 31 ∧ P (w.turn M timeout) := by
  have hrun : ∀ fuel, w.run fuel = (dispatchLoop w.ports M fuel 1 0 ⟨[], [], true, true⟩).map fun t =>
      if w.hasRun ∧ t.executeRun then { t with calls := t.calls ++ [.run timeout] } else t := by
    intro fuel
    unfold Worker.run
    rw [henabled, heval]
    rfl
  have hone : (1 : PortMask) = (1 : PortMask) <<< 0 := rfl
  constructor
  · rintro ⟨fuel, t, ht, hP⟩
    rw [hrun, Option.map_eq_some_iff] at ht
    obtain ⟨t₀, ht₀, rfl⟩ := ht
    have hle : M.toNat ≤ 2 ^ 31 := by
      by_contra hgt
      rw [hone, dispatchLoop_endless (Nat.lt_of_not_le hgt)] at ht₀
      cases ht₀
    have hmore := dispatchLoop_add 32 _ _ _ _ ht₀
    rw [hone, dispatchLoop_eq hle _ 0 _ (by omega) (by omega), Option.some.injEq] at hmore
    refine ⟨hle, ?_⟩
    unfold Worker.turn Worker.visits visited
    rw [List.range_eq_range', hmore]
    exact hP
  · rintro ⟨hle, hP⟩
    refine ⟨32, _, ?_, hP⟩
    rw [hrun, hone, dispatchLoop_eq hle 32 0 _ (by omega) (by omega), Option.map_some]
    unfold Worker.turn Worker.visits visited
    rw [List.range_eq_range']

variable {timeout : Bool}

theorem isSome_iff_hasCallBack : (ports[p]?.bind (·.callBack)).isSome = true ↔ HasCallBack ports p :=
  Option.isSome_iff_ne_none

theorem visits_calls : (w.visits M).calls =
    ((visited M).filter fun q => (w.ports[q]?.bind (·.callBack)).isSome).map .callBack :=
  (foldl_visit (visited M) _).1.trans (List.nil_append _)

theorem executeRun_iff :
    (w.visits M).executeRun = true ↔ ∀ q ∈ visited M, ¬HasCallBack w.ports q := by
  unfold Worker.visits
  rw [(foldl_visit (visited M) _).2.2, Bool.true_and, Bool.not_eq_true', List.any_eq_false]
  refine forall₂_congr fun q _ => ?_
  rw [isSome_iff_hasCallBack]

theorem turn_indexed : (w.turn M timeout).indexed = visited M := by
  have h : (w.visits M).indexed = visited M := (foldl_visit (visited M) _).2.1.trans (List.nil_append _)
  unfold Worker.turn
  split
  · exact h
  · exact h

theorem callBack_mem_visits :
    .callBack p ∈ (w.visits M).calls ↔ p ∈ visited M ∧ HasCallBack w.ports p := by
  rw [visits_calls, List.mem_map]
  constructor
  · rintro ⟨q, hq, he⟩
    cases he
    rw [List.mem_filter, isSome_iff_hasCallBack] at hq
    exact hq
  · intro h
    refine ⟨p, ?_, rfl⟩
    rw [List.mem_filter, isSome_iff_hasCallBack]
    exact h

theorem run_notMem_visits : .run timeout ∉ (w.visits M).calls := by
  rw [visits_calls, List.mem_map]
  rintro ⟨q, -, he⟩
  cases he

/-- The run method is called if there is one and no visited port has a callback. -/
theorem run_mem_turn : (∃ timeout', .run timeout' ∈ (w.turn M timeout).calls) ↔
    w.hasRun ∧ ∀ q ∈ visited M, ¬HasCallBack w.ports q := by
  unfold Worker.turn
  rw [← executeRun_iff]
  split
  · next h => exact iff_of_true ⟨timeout, List.mem_append_right _ (List.mem_singleton_self _)⟩ h
  · next h => exact iff_of_false (fun ⟨_, hmem⟩ => run_notMem_visits hmem) h

/-- A callback is called once where it is visited. -/
theorem count_callBack (h : HasCallBack w.ports p) :
    (w.turn M timeout).calls.count (.callBack p) = if p ∈ visited M then 1 else 0 := by
  have hnodup : (w.visits M).calls.Nodup := by
    rw [visits_calls]
    refine (List.Nodup.filter _ (List.nodup_range.filter _)).map fun a b he => ?_
    cases he
    rfl
  have hcount : (w.turn M timeout).calls.count (.callBack p) =
      (w.visits M).calls.count (.callBack p) := by
    unfold Worker.turn
    split
    · rw [List.count_append, List.count_eq_zero.mpr (show Call.callBack p ∉ [Call.run timeout] by simp),
        Nat.add_zero]
    · rfl
  rw [hcount, hnodup.count]
  simp only [callBack_mem_visits, h, and_true]

theorem calls_ne_nil : (w.turn M timeout).calls ≠ [] ↔
    w.hasRun ∨ ∃ q ∈ visited M, HasCallBack w.ports q := by
  constructor
  · intro hne
    by_cases hall : ∀ q ∈ visited M, ¬HasCallBack w.ports q
    · refine Or.inl ?_
      by_contra hnot
      obtain ⟨c, hc⟩ := List.exists_mem_of_ne_nil _ hne
      unfold Worker.turn at hc
      rw [if_neg (fun h => hnot h.1)] at hc
      cases c with
      | callBack p => exact hall p (callBack_mem_visits.mp hc).1 (callBack_mem_visits.mp hc).2
      | run timeout' => exact run_notMem_visits hc
    · refine Or.inr ?_
      by_contra hnone
      exact hall fun q hq hcb => hnone ⟨q, hq, hcb⟩
  · intro h hnil
    by_cases hall : ∀ q ∈ visited M, ¬HasCallBack w.ports q
    · rcases h with hrun | ⟨q, hq, hcb⟩
      · obtain ⟨timeout', hmem⟩ : ∃ timeout', .run timeout' ∈ (w.turn M timeout).calls :=
          run_mem_turn.mpr ⟨hrun, hall⟩
        rw [hnil] at hmem
        cases hmem
      · exact hall q hq hcb
    · refine hall fun q hq hcb => ?_
      have hone : (w.turn M timeout).calls.count (.callBack q) = if q ∈ visited M then 1 else 0 :=
        count_callBack hcb
      rw [hnil, if_pos hq] at hone
      cases hone

/-! ## When the loop does what it is for -/

/-- A turn is proper when the visited ports are those that have to be called. -/
theorem proper_turn_iff (hmet : w.Met) (hvisited : ∀ p ∈ visited M, p < w.ports.length) :
    Proper w (w.turn M timeout) ↔
      (∀ p, w.Ready p → HasCallBack w.ports p → p ∈ visited M) ∧
        ((∀ p, w.Ready p → ¬HasCallBack w.ports p) →
          w.hasRun ∧ ∀ q ∈ visited M, ¬HasCallBack w.ports q) := by
  constructor
  · intro h
    refine ⟨fun p hready hcb => ?_, fun hnone => run_mem_turn.mp ((h.runs hmet).mpr hnone)⟩
    have hone := h.callBacks hmet p hready hcb
    rw [count_callBack hcb] at hone
    by_contra hnot
    rw [if_neg hnot] at hone
    cases hone
  · rintro ⟨hcalled, hrun⟩
    refine ⟨iff_of_true (calls_ne_nil.mpr ?_) hmet, fun _ p hready hcb => ?_, fun _ => ⟨?_, ?_⟩, ?_⟩
    · by_cases hnone : ∀ p, w.Ready p → ¬HasCallBack w.ports p
      · exact Or.inl (hrun hnone).1
      · refine Or.inr ?_
        by_contra hnot
        exact hnone fun p hready hcb => hnot ⟨p, hcalled p hready hcb, hcb⟩
    · rw [count_callBack hcb, if_pos (hcalled p hready hcb)]
    · intro hmem p hready hcb
      exact (run_mem_turn.mp hmem).2 p (hcalled p hready hcb) hcb
    · exact fun hnone => run_mem_turn.mpr (hrun hnone)
    · rw [turn_indexed]
      exact hvisited

/-- The ports that are visited when they are looked at: those that count as ready, unless it is only one. -/
theorem mem_visited_readyMask :
    p ∈ visited w.readyMask ↔ w.Counts p ∧ ∃ q, q ≠ p ∧ w.Counts q := by
  rw [mem_visited, ← readyMask_bit]
  refine and_congr_right fun h => ?_
  simp only [pow_lt_iff h, readyMask_bit]

theorem Worker.Ready.not_unconnected (h : w.Ready p) : ¬w.Unconnected p := fun hu => by
  cases h.1.symm.trans hu.2

/-- The loop over the ready mask. -/
theorem regular_of_awaits (hmet : w.Met) (henabled : w.enabled = true) (hawaits : w.Awaits) :
    Regular w ↔ w.readyMask.toNat ≤ 2 ^ 31 ∧ Proper w (w.turn w.readyMask false) := by
  have hvisited : ∀ p ∈ visited w.readyMask, p < w.ports.length := fun p hp =>
    (mem_visited_readyMask.mp hp).1.lt
  rw [proper_turn_iff hmet hvisited, ← not_lt, last_lt_iff]
  simp only [mem_visited_readyMask, readyMask_bit]
  constructor
  · intro h
    refine ⟨?_, fun p hready hcb => ?_, fun hnone => ⟨(h.run hmet hnone).1, ?_⟩⟩
    · rintro ⟨hlast, q, hne, hq⟩
      exact hne (h.last hmet hawaits hlast q hq)
    · obtain ⟨-, hmask, hother⟩ := h.accompanied hmet p hready hcb
      exact ⟨Or.inl ⟨hready, hmask⟩, hother⟩
    · rintro q ⟨hq, r, hne, hr⟩ hcb
      rcases hq with ⟨hready, -⟩ | hunconnected
      · exact hnone q hready hcb
      · exact hne ((h.run hmet hnone).2 hawaits q hunconnected hcb r hr)
  · rintro ⟨hlast, hcalled, hrun⟩
    refine ⟨fun _ => henabled, fun _ p hready hcb => ?_, fun _ hnone => ⟨(hrun hnone).1, ?_⟩, ?_⟩
    · obtain ⟨hcounts, hother⟩ := hcalled p hready hcb
      refine ⟨hawaits, ?_, hother⟩
      rcases hcounts with ⟨-, hmask⟩ | hunconnected
      · exact hmask
      · exact absurd hunconnected hready.not_unconnected
    · intro _ p hunconnected hcb q hq
      by_contra hne
      exact (hrun hnone).2 p ⟨Or.inr hunconnected, q, hne, hq⟩ hcb
    · intro _ _ h31 q hq
      by_contra hne
      exact hlast ⟨h31, q, hne, hq⟩

/-- The loop over an empty mask. -/
theorem regular_of_not_awaits (hmet : w.Met) (henabled : w.enabled = true) (hawaits : ¬w.Awaits) :
    Regular w ↔ (0 : PortMask).toNat ≤ 2 ^ 31 ∧ Proper w (w.turn 0 timeout) := by
  have hnone : ∀ p, p ∉ visited 0 := fun p hp => by
    have hbit := (mem_visited.mp hp).1
    cases hbit.symm.trans BitVec.getLsbD_zero
  rw [proper_turn_iff hmet fun p hp => absurd hp (hnone p)]
  constructor
  · intro h
    refine ⟨Nat.zero_le _, fun p hready hcb => ?_, fun hcb => ⟨(h.run hmet hcb).1, ?_⟩⟩
    · exact absurd (h.accompanied hmet p hready hcb).1 hawaits
    · exact fun q hq => absurd hq (hnone q)
  · rintro ⟨-, hcalled, hrun⟩
    refine ⟨fun _ => henabled, fun _ p hready hcb => ?_, fun _ hcb => ⟨(hrun hcb).1, ?_⟩, ?_⟩
    · exact absurd (hcalled p hready hcb) (hnone p)
    · exact fun ha => absurd ha hawaits
    · exact fun _ ha => absurd ha hawaits

/-- **A worker executes what its run condition says exactly when** it is enabled, a ready port with a callback
is looked at and not alone, the run method is there when it is due and no optional port that is not connected
takes its place, and port 31 does not count as ready beside another port. -/
theorem dispatches_iff (w : Worker) : Dispatches w ↔ Regular w := by
  unfold Dispatches
  by_cases hmet : w.Met
  · by_cases henabled : w.enabled = true
    · by_cases hawaits : w.Awaits
      · rw [run_iff henabled (evaluate_met hawaits hmet), regular_of_awaits hmet henabled hawaits]
      · obtain ⟨timeout, heval⟩ := evaluate_unawaited hawaits
        rw [run_iff henabled heval, regular_of_not_awaits hmet henabled hawaits]
    · refine iff_of_false ?_ fun h => henabled (h.enabled hmet)
      rintro ⟨fuel, t, ht, hproper⟩
      unfold Worker.run at ht
      rw [if_pos (by simpa using henabled), Option.some.injEq] at ht
      refine hproper.executes.mpr hmet ?_
      rw [← ht]
  · refine iff_of_true ⟨0, ?_⟩ ⟨fun h => absurd h hmet, fun h => absurd h hmet, fun h => absurd h hmet,
      fun h => absurd h hmet⟩
    have hproper : ∀ enabled, Proper w ⟨[], [], false, enabled⟩ := fun enabled =>
      ⟨iff_of_false (fun h => h rfl) hmet, fun h => absurd h hmet, fun h => absurd h hmet, fun _ hp => nomatch hp⟩
    by_cases henabled : w.enabled = true
    · refine ⟨_, ?_, hproper true⟩
      unfold Worker.run
      rw [henabled, evaluate_unmet hmet]
      rfl
    · refine ⟨_, ?_, hproper false⟩
      unfold Worker.run
      rw [if_pos (by simpa using henabled)]

/-- A worker with one port, which is connected and ready and has a callback. -/
def onePort : Worker where
  ports := [⟨true, true, some .ok⟩]
  connectedPorts := 1
  optionallyConnectedPorts := 0
  runCondition := defaultRunCondition 1
  expired := false
  hasRun := true
  enabled := true
  ports_le := by decide
  optional_lt := fun n h => by cases h.symm.trans BitVec.getLsbD_zero

/-- Its run method is called, and its callback is not. -/
theorem only_port_not_called : onePort.Met ∧ onePort.Ready 0 ∧ HasCallBack onePort.ports 0 ∧
    (onePort.run 32).map (·.calls) = some [.run false] ∧ ¬Dispatches onePort := by
  have hmasks : onePort.runCondition.portMasks = some [⟨1, by decide⟩] := by decide
  have hready : onePort.Ready 0 := ⟨by decide, _, rfl, rfl, rfl⟩
  have hcb : HasCallBack onePort.ports 0 := fun h => nomatch h
  have hmet : onePort.Met := by
    refine Or.inr (Or.inr ⟨_, hmasks, _, List.mem_singleton_self _, fun p hp => Or.inl ?_⟩)
    obtain ⟨-, rfl⟩ := (getLsbD_bit 0 p).mp hp
    exact hready
  refine ⟨hmet, hready, hcb, by decide, ?_⟩
  have heval : onePort.evaluate = some (1, false) := by decide
  unfold Dispatches
  rw [run_iff rfl heval]
  rintro ⟨-, hproper⟩
  have hone := hproper.callBacks hmet 0 hready hcb
  revert hone
  decide

end OpenCpi.Rcc.Running
