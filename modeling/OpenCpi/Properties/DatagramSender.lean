import Mathlib.Algebra.GroupWithZero.Nat
import OpenCpi.Datagram.Sender
import OpenCpi.Properties.DatagramAck

/-!
# The sender counts what was released

A slot in use has a frame with a number that belongs to the slot, and no frame is released twice. The
messages of a transaction are counted when their frames are released, so that a transaction is complete
when all of them were. For this `msg` must not wrap around: a transaction needs less than 2^16 messages.
-/

namespace OpenCpi.Datagram.Sender

open Infra

variable {s s' : Services} {P : Nat}

/-! ## The property and the condition -/

/-- The messages of a posting in released frames. -/
def messagesReleased (released : List Release) (id posts : Nat) : Nat :=
  ((released.filter fun r => r.transaction = (id, posts)).map Release.msgCount).sum

/-- The frames in use are in their slots, no frame was released twice, and the messages in released frames
are those that are counted. -/
structure SlotsOk (s : Services) : Prop where
  slots : ∀ i < 256, (s.freeFrames i).isFree = false → (s.freeFrames i).frameSeq % 256 = i
  once : (s.released.map Release.uid).Nodup
  counted : ∀ id t, s.transactions id = some t →
    t.nMessagesRx = messagesReleased s.released id t.posts ∧ t.nMessagesRx ≤ t.messages.length

/-- A transaction is posted again only when it is complete. -/
def Reposts (s : Services) : Op → Prop
  | .start id => ∀ t ∈ s.transactions id, t.posts = 0 ∨ t.complete = true
  | _ => True

def Op.Small : Op → Prop
  | .create _ messages => messages.length < 2 ^ 16
  | _ => True

/-- The condition: transactions have less than 2^16 messages. -/
def Short (s : Services) (op : Op) : Prop := Reposts s op ∧ op.Small

instance (s : Services) : (op : Op) → Decidable (Reposts s op)
  | .start id => inferInstanceAs (Decidable (∀ t ∈ s.transactions id, t.posts = 0 ∨ t.complete = true))
  | .create _ _ | .turn _ | .received _ | .sendAcks | .ack _ _ | .checkAcks _ => .isTrue trivial

instance : (op : Op) → Decidable op.Small
  | .create _ messages => inferInstanceAs (Decidable (messages.length < 2 ^ 16))
  | .start _ | .turn _ | .received _ | .sendAcks | .ack _ _ | .checkAcks _ => .isTrue trivial

instance (s : Services) (op : Op) : Decidable (Short s op) := inferInstanceAs (Decidable (_ ∧ _))

/-! ## The invariant -/

/-- The messages of the last posting that were sent. -/
def Transaction.sent (t : Transaction) : Nat :=
  if t.running then t.msg else if t.posts = 0 then 0 else t.messages.length

/-- A slot in use. -/
structure Busy (s : Services) (i : Nat) (f : Frame) : Prop where
  seq : f.frameSeq = seqOf f.uid
  slot : slotOf f.frameSeq = i
  uid_lt : f.uid < s.frameCount
  fresh : ∀ r ∈ s.released, r.uid ≠ f.uid
  messages : 0 < f.msgCount
  owner : ∃ t, s.transactions f.transaction.1 = some t ∧ t.posts = f.transaction.2 ∧
    f.msgStart + f.msgCount ≤ t.messages.length

structure TransactionOk (s : Services) (id : Nat) (t : Transaction) : Prop where
  short : t.messages.length < 2 ^ 16
  msg_le : t.msg ≤ t.messages.length
  running : t.running = true → t.posts ≠ 0
  balance : t.nMessagesRx + outstanding s.freeFrames id = t.sent
  counted : t.nMessagesRx = messagesReleased s.released id t.posts

/-- An entry of a frame that was released. -/
structure Recorded (s : Services) (r : Release) : Prop where
  uid_lt : r.uid < s.frameCount
  owner : 0 < r.msgCount → ∃ t, s.transactions r.transaction.1 = some t ∧ r.transaction.2 ≤ t.posts

/-- What does not depend on the queue of acknowledgements. -/
theorem Busy.of_eq {i : Nat} {f : Frame} (h : Busy s i f) (hcount : s'.frameCount = s.frameCount)
    (hreleased : s'.released = s.released) (ht : s'.transactions = s.transactions) : Busy s' i f :=
  ⟨h.seq, h.slot, hcount ▸ h.uid_lt, hreleased ▸ h.fresh, h.messages, ht ▸ h.owner⟩

theorem TransactionOk.of_eq {id : Nat} {t : Transaction} (h : TransactionOk s id t)
    (hframes : s'.freeFrames = s.freeFrames) (hreleased : s'.released = s.released) :
    TransactionOk s' id t :=
  ⟨h.short, h.msg_le, h.running, hframes ▸ h.balance, hreleased ▸ h.counted⟩

theorem Recorded.of_eq {r : Release} (h : Recorded s r) (hcount : s'.frameCount = s.frameCount)
    (ht : s'.transactions = s.transactions) : Recorded s' r :=
  ⟨hcount ▸ h.uid_lt, ht ▸ h.owner⟩

structure Inv (s : Services) : Prop where
  seq : s.frameSeq = seqOf s.frameCount
  busy : ∀ i < 256, (s.freeFrames i).isFree = false → Busy s i (s.freeFrames i)
  transactions : ∀ id t, s.transactions id = some t → TransactionOk s id t
  recorded : ∀ r ∈ s.released, Recorded s r
  once : (s.released.map Release.uid).Nodup

theorem slotOf_eq (seq : Nat) : slotOf seq = seq % 256 := Nat.and_two_pow_sub_one_eq_mod seq 8

theorem slotOf_lt (seq : Nat) : slotOf seq < 256 := mask_lt seq

theorem sent_le {t : Transaction} (h : t.msg ≤ t.messages.length) : t.sent ≤ t.messages.length := by
  unfold Transaction.sent
  split
  · exact h
  · split
    · exact Nat.zero_le _
    · exact Nat.le_refl _

theorem messagesReleased_cons (r : Release) (released : List Release) (id posts : Nat) :
    messagesReleased (r :: released) id posts =
      (if r.transaction = (id, posts) then r.msgCount else 0) + messagesReleased released id posts := by
  unfold messagesReleased
  rw [List.filter_cons]
  by_cases h : r.transaction = (id, posts)
  · rw [if_pos (decide_eq_true h), if_pos h, List.map_cons, List.sum_cons]
  · rw [if_neg fun hc => h (of_decide_eq_true hc), if_neg h, Nat.zero_add]

/-- Entries without messages count nothing. -/
theorem messagesReleased_zero {released : List Release} {id posts : Nat}
    (h : ∀ r ∈ released, 0 < r.msgCount → r.transaction ≠ (id, posts)) :
    messagesReleased released id posts = 0 := by
  unfold messagesReleased
  refine List.sum_eq_zero fun n hn => ?_
  obtain ⟨r, hr, rfl⟩ := List.mem_map.mp hn
  obtain ⟨hmem, htr⟩ := List.mem_filter.mp hr
  by_contra hne
  exact h r hmem (Nat.pos_of_ne_zero hne) (of_decide_eq_true htr)

/-- **The invariant gives the property.** -/
theorem Inv.slotsOk (h : Inv s) : SlotsOk s where
  slots := fun i hi hbusy => by
    have hslot := (h.busy i hi hbusy).slot
    rwa [slotOf_eq] at hslot
  once := h.once
  counted := fun id t ht => by
    have hok := h.transactions id t ht
    have hle := sent_le hok.msg_le
    have hbalance := hok.balance
    exact ⟨hok.counted, by omega⟩

theorem inv_init : Inv Services.init where
  seq := rfl
  busy := fun _ _ hbusy => nomatch hbusy
  transactions := fun _ _ ht => nomatch ht
  recorded := fun _ hr => nomatch hr
  once := List.nodup_nil

/-- Nothing is outstanding for a transaction that no slot in use belongs to. -/
theorem outstanding_eq_zero {frames : Nat → Frame} {id : Nat}
    (h : ∀ i < 256, (frames i).isFree = false → (frames i).transaction.1 ≠ id) :
    outstanding frames id = 0 := by
  refine Finset.sum_eq_zero fun i hi => ?_
  unfold Frame.holds
  by_cases hbusy : (frames i).isFree = false ∧ (frames i).transaction.1 = id
  · exact absurd hbusy.2 (h i (Finset.mem_range.mp hi) hbusy.1)
  · exact if_neg hbusy

/-- A slot in use holds messages of its transaction back. -/
theorem msgCount_le_outstanding {i : Nat} (hi : i < 256)
    (hbusy : (s.freeFrames i).isFree = false) :
    (s.freeFrames i).msgCount ≤ outstanding s.freeFrames (s.freeFrames i).transaction.1 := by
  have hle := holds_le_outstanding s.freeFrames hi (s.freeFrames i).transaction.1
  have hholds : (s.freeFrames i).holds (s.freeFrames i).transaction.1 = (s.freeFrames i).msgCount :=
    if_pos ⟨hbusy, rfl⟩
  omega

/-! ## Releasing -/

/-- What a release does: nothing to a free slot; otherwise the messages are counted. -/
theorem Inv.release_eq (h : Inv s) {i : Nat} (hi : i < 256) (hs : release s i = some s') :
    s' = s ∨ ((s.freeFrames i).isFree = false ∧ ∃ t, s.transactions (s.freeFrames i).transaction.1 = some t ∧
      s' = { s with
        freeFrames := Function.update s.freeFrames i (s.freeFrames i).release
        transactions := Function.update s.transactions (s.freeFrames i).transaction.1
          (some { t with nMessagesRx := t.nMessagesRx + (s.freeFrames i).msgCount })
        released := ⟨(s.freeFrames i).uid, (s.freeFrames i).transaction, (s.freeFrames i).msgStart,
          (s.freeFrames i).msgCount⟩ :: s.released }) := by
  unfold release at hs
  by_cases hfree : (s.freeFrames i).isFree = true
  · rw [if_pos hfree] at hs
    exact Or.inl (Option.some.inj hs).symm
  · have hbusy : (s.freeFrames i).isFree = false := Bool.not_eq_true _ ▸ hfree
    have hslot := h.busy i hi hbusy
    obtain ⟨t, ht, hposts, hend⟩ := hslot.owner
    have hok := h.transactions _ t ht
    have hout := msgCount_le_outstanding hi hbusy
    have hle := sent_le hok.msg_le
    have hbalance := hok.balance
    have hshort := hok.short
    have hmod : (t.nMessagesRx + (s.freeFrames i).msgCount) % 2 ^ 32 =
        t.nMessagesRx + (s.freeFrames i).msgCount := Nat.mod_eq_of_lt (by omega)
    have hcredit : credit s (s.freeFrames i) = some { s with
        transactions := Function.update s.transactions (s.freeFrames i).transaction.1
          (some { t with nMessagesRx := t.nMessagesRx + (s.freeFrames i).msgCount }) } := by
      unfold credit
      rw [if_neg (Nat.ne_of_gt hslot.messages), ht]
      dsimp only
      rw [if_neg (Nat.not_lt.mpr hend), hmod]
    rw [if_neg hfree, hcredit] at hs
    exact Or.inr ⟨hbusy, t, ht, (Option.some.inj hs).symm⟩

/-- **A release** keeps the invariant. -/
theorem inv_release (h : Inv s) {i : Nat} (hi : i < 256) (hs : release s i = some s') : Inv s' := by
  rcases h.release_eq hi hs with rfl | ⟨hbusy, t, ht, rfl⟩
  · exact h
  have hslot := h.busy i hi hbusy
  have hok := h.transactions _ t ht
  -- the transaction of another slot in use is the same one or another one
  have howner {id : Nat} {t' : Transaction} (ht' : s.transactions id = some t') :
      ∃ t'', Function.update s.transactions (s.freeFrames i).transaction.1
        (some { t with nMessagesRx := t.nMessagesRx + (s.freeFrames i).msgCount }) id = some t'' ∧
        t''.posts = t'.posts ∧ t''.messages = t'.messages := by
    by_cases hid : id = (s.freeFrames i).transaction.1
    · subst hid
      rw [ht] at ht'
      cases ht'
      exact ⟨_, Function.update_self .., rfl, rfl⟩
    · exact ⟨t', by rw [Function.update_of_ne hid, ht'], rfl, rfl⟩
  refine ⟨h.seq, fun j hj hjbusy => ?_, fun id t' ht' => ?_, fun r hr => ?_, ?_⟩
  · have hne : j ≠ i := by
      rintro rfl
      dsimp only at hjbusy
      rw [Function.update_self] at hjbusy
      cases hjbusy
    dsimp only at hjbusy ⊢
    rw [Function.update_of_ne hne] at hjbusy ⊢
    have hold := h.busy j hj hjbusy
    refine ⟨hold.seq, hold.slot, hold.uid_lt, fun r hr => ?_, hold.messages, ?_⟩
    · rcases List.mem_cons.mp hr with rfl | hr
      · intro huid
        refine hne ?_
        rw [← hold.slot, ← hslot.slot, hold.seq, hslot.seq]
        exact congrArg (fun u => slotOf (seqOf u)) huid.symm
      · exact hold.fresh r hr
    · obtain ⟨t', ht', hposts, hend⟩ := hold.owner
      obtain ⟨t'', ht'', hposts', hmessages⟩ := howner ht'
      exact ⟨t'', ht'', hposts'.trans hposts, hmessages ▸ hend⟩
  · dsimp only at ht'
    have hout := outstanding_release s.freeFrames hi (s.freeFrames i) id
    by_cases hid : id = (s.freeFrames i).transaction.1
    · subst hid
      rw [Function.update_self] at ht'
      cases ht'
      have hholds : (s.freeFrames i).holds (s.freeFrames i).transaction.1 = (s.freeFrames i).msgCount :=
        if_pos ⟨hbusy, rfl⟩
      rw [hholds] at hout
      obtain ⟨t', ht', hposts, -⟩ := hslot.owner
      rw [ht] at ht'
      cases ht'
      refine ⟨hok.short, hok.msg_le, hok.running, ?_, ?_⟩
      · have hbalance := hok.balance
        show t.nMessagesRx + (s.freeFrames i).msgCount +
          outstanding (Function.update s.freeFrames i (s.freeFrames i).release) _ = t.sent
        omega
      · show t.nMessagesRx + (s.freeFrames i).msgCount = messagesReleased (_ :: s.released) _ t.posts
        have hsame : (s.freeFrames i).transaction = ((s.freeFrames i).transaction.1, t.posts) := by
          rw [hposts]
        rw [messagesReleased_cons, if_pos hsame, ← hok.counted]
        exact Nat.add_comm _ _
    · rw [Function.update_of_ne hid] at ht'
      have hold := h.transactions id t' ht'
      have hholds : (s.freeFrames i).holds id = 0 := if_neg fun hc => hid hc.2.symm
      rw [hholds] at hout
      refine ⟨hold.short, hold.msg_le, hold.running, ?_, ?_⟩
      · have hbalance := hold.balance
        show t'.nMessagesRx +
          outstanding (Function.update s.freeFrames i (s.freeFrames i).release) id = t'.sent
        omega
      · have hother : (s.freeFrames i).transaction ≠ (id, t'.posts) :=
          fun hc => hid (congrArg Prod.fst hc).symm
        show t'.nMessagesRx = messagesReleased (_ :: s.released) id t'.posts
        rw [messagesReleased_cons, if_neg hother, Nat.zero_add]
        exact hold.counted
  · rcases List.mem_cons.mp hr with rfl | hr
    · refine ⟨hslot.uid_lt, fun _ => ?_⟩
      obtain ⟨t', ht', hposts, -⟩ := hslot.owner
      obtain ⟨t'', ht'', hposts', -⟩ := howner ht'
      exact ⟨t'', ht'', by rw [hposts', hposts]⟩
    · have hold := h.recorded r hr
      refine ⟨hold.uid_lt, fun hcount => ?_⟩
      obtain ⟨t', ht', hposts⟩ := hold.owner hcount
      obtain ⟨t'', ht'', hposts', -⟩ := howner ht'
      exact ⟨t'', ht'', by rw [hposts']; exact hposts⟩
  · show (_ :: s.released.map Release.uid).Nodup
    refine List.nodup_cons.mpr ⟨fun hmem => ?_, h.once⟩
    obtain ⟨r, hr, huid⟩ := List.mem_map.mp hmem
    exact hslot.fresh r hr huid

theorem inv_releaseFrame (h : Inv s) {seq : Nat} (hs : releaseFrame s seq = some s') : Inv s' := by
  unfold releaseFrame at hs
  dsimp only at hs
  split at hs
  · exact inv_release h (slotOf_lt seq) hs
  · cases hs
    exact h

/-- **Acknowledgements** of any frames keep the invariant. -/
theorem inv_ack (h : Inv s) {count start : Nat} (hs : ack s count start = some s') : Inv s' := by
  unfold ack at hs
  induction count generalizing s' with
  | zero =>
    cases hs
    exact h
  | succ n ih =>
    rw [List.range_succ, List.foldlM_append] at hs
    obtain ⟨s₁, hs₁, hs₂⟩ := Option.bind_eq_some_iff.mp hs
    rw [List.foldlM_cons] at hs₂
    obtain ⟨s₂, hs₂, hs₃⟩ := Option.bind_eq_some_iff.mp hs₂
    cases hs₃
    exact inv_releaseFrame (ih hs₁) hs₂

theorem inv_post (h : Inv s) {i : Nat} (hi : i < 256) (hs : post s i = some s') : Inv s' := by
  unfold post at hs
  split at hs
  · exact inv_release h hi hs
  · cases hs
    exact h

theorem inv_checkAcks (h : Inv s) {i : Nat} (hs : checkAcks s i = some s') : Inv s' := by
  unfold checkAcks at hs
  split at hs
  · next hc => exact inv_post h (Nat.lt_succ_of_le hc.1) hs
  · cases hs
    exact h

/-! ## Sending -/

/-- The state after the next frame was taken and sent. -/
def withFrame (s : Services) (f : Frame) (acks : List Nat) : Services :=
  { s with
    freeFrames := Function.update s.freeFrames (slotOf s.frameSeq) f
    frameSeq := (s.frameSeq + 1) % 2 ^ 16
    frameCount := s.frameCount + 1
    acks }

theorem getFrame_eq {f : Frame} {s₁ : Services} (h : getFrame s = some (f, s₁)) :
    (s.freeFrames (slotOf s.frameSeq)).isFree = true ∧ f.isFree = false ∧ f.uid = s.frameCount ∧
      f.frameSeq = s.frameSeq ∧ f.msgCount = 0 ∧ ∃ acks, s₁ = withFrame s f acks := by
  unfold getFrame at h
  split at h
  · next hfree =>
    cases h
    exact ⟨hfree, rfl, rfl, rfl, rfl, _, rfl⟩
  · cases h

theorem release_taken {f : Frame} {acks : List Nat} {T : Nat → Option Transaction} (hf : f.isFree = false)
    (hcount : f.msgCount = 0) :
    post { withFrame s f acks with transactions := T } (slotOf s.frameSeq) =
      some { withFrame s f.release acks with
        transactions := T
        released := ⟨f.uid, f.transaction, f.msgStart, 0⟩ :: s.released } := by
  have hself : ({ withFrame s f acks with transactions := T } : Services).freeFrames (slotOf s.frameSeq) = f :=
    Function.update_self ..
  unfold post release credit
  rw [hself, if_pos hcount]
  dsimp only
  rw [hf, if_neg Bool.false_ne_true, if_pos hcount, Option.map_some, hcount]
  unfold withFrame
  dsimp only
  rw [Function.update_idem]

/-- What sending a frame of a transaction does. -/
theorem sendFrame_eq {id msg count : Nat} {t : Transaction} (h : sendFrame s id t msg count = some s') :
    (s.freeFrames (slotOf s.frameSeq)).isFree = true ∧ ∃ f acks, f.uid = s.frameCount ∧
      f.frameSeq = s.frameSeq ∧ f.msgStart = t.msg ∧ f.msgCount = count ∧ f.transaction = (id, t.posts) ∧
      if count = 0 then f.isFree = true ∧ s' = { withFrame s f acks with
          transactions := Function.update s.transactions id (some { t with msg })
          released := ⟨s.frameCount, (id, t.posts), t.msg, 0⟩ :: s.released }
      else f.isFree = false ∧ s' = { withFrame s f acks with
          transactions := Function.update s.transactions id (some { t with msg }) } := by
  unfold sendFrame at h
  obtain ⟨⟨⟨isFree, uid, seq, ackStart, ackCount, msgStart, msgCount, tr⟩, s₁⟩, hget, hpost⟩ :=
    Option.bind_eq_some_iff.mp h
  obtain ⟨hfree, hbusy, huid, hseq, -, acks, rfl⟩ := getFrame_eq hget
  dsimp only at hbusy huid hseq hpost
  subst hbusy huid hseq
  refine ⟨hfree, ?_⟩
  let f : Frame := ⟨false, s.frameCount, s.frameSeq, ackStart, ackCount, t.msg, count, (id, t.posts)⟩
  have hstate (g : Frame) : ({ withFrame s g acks with
      freeFrames := Function.update (withFrame s g acks).freeFrames (slotOf s.frameSeq) f
      transactions := Function.update (withFrame s g acks).transactions id (some { t with msg }) } :
        Services) =
      { withFrame s f acks with
        transactions := Function.update s.transactions id (some { t with msg }) } := by
    unfold withFrame
    dsimp only
    rw [Function.update_idem]
  have hsent : post { withFrame s f acks with
      transactions := Function.update s.transactions id (some { t with msg }) } (slotOf s.frameSeq) =
        some s' := by
    rw [← hstate ⟨false, s.frameCount, s.frameSeq, ackStart, ackCount, msgStart, msgCount, tr⟩]
    exact hpost
  by_cases hcount : count = 0
  · rw [release_taken rfl hcount] at hsent
    refine ⟨f.release, acks, rfl, rfl, rfl, rfl, rfl, ?_⟩
    rw [if_pos hcount]
    exact ⟨rfl, (Option.some.inj hsent).symm⟩
  · have hself : ({ withFrame s f acks with
        transactions := Function.update s.transactions id (some { t with msg }) } : Services).freeFrames
        (slotOf s.frameSeq) = f := Function.update_self ..
    unfold post at hsent
    rw [hself, if_neg hcount] at hsent
    refine ⟨f, acks, rfl, rfl, rfl, rfl, rfl, ?_⟩
    rw [if_neg hcount]
    exact ⟨rfl, (Option.some.inj hsent).symm⟩

theorem seqOf_succ (h : s.frameSeq = seqOf s.frameCount) :
    (s.frameSeq + 1) % 2 ^ 16 = seqOf (s.frameCount + 1) := by
  rw [h]
  unfold seqOf
  omega

/-- A frame without messages is sent. -/
theorem inv_empty (h : Inv s) (hfree : (s.freeFrames (slotOf s.frameSeq)).isFree = true) {f : Frame}
    (hf : f.isFree = true) (acks : List Nat) (tr : Nat × Nat) (msgStart : Nat) :
    Inv { withFrame s f acks with released := ⟨s.frameCount, tr, msgStart, 0⟩ :: s.released } := by
  have hfrees {i : Nat} (hbusy : (Function.update s.freeFrames (slotOf s.frameSeq) f i).isFree = false) :
      i ≠ slotOf s.frameSeq := by
    rintro rfl
    rw [Function.update_self, hf] at hbusy
    cases hbusy
  refine ⟨seqOf_succ h.seq, fun i hi hbusy => ?_, fun id t ht => ?_, fun r hr => ?_, ?_⟩
  · have hne := hfrees hbusy
    have hsame : (withFrame s f acks).freeFrames i = s.freeFrames i := Function.update_of_ne hne ..
    have hold := h.busy i hi (by rw [← hsame]; exact hbusy)
    dsimp only
    rw [hsame]
    refine ⟨hold.seq, hold.slot, Nat.lt_succ_of_lt hold.uid_lt, fun r hr => ?_, hold.messages, hold.owner⟩
    rcases List.mem_cons.mp hr with rfl | hr
    · exact Nat.ne_of_gt hold.uid_lt
    · exact hold.fresh r hr
  · have hold := h.transactions id t ht
    have hout := outstanding_update s.freeFrames (slotOf_lt s.frameSeq) f id
    have hnew : f.holds id = 0 := if_neg fun hc => by rw [hf] at hc; cases hc.1
    have hwas : (s.freeFrames (slotOf s.frameSeq)).holds id = 0 :=
      if_neg fun hc => by rw [hfree] at hc; cases hc.1
    refine ⟨hold.short, hold.msg_le, hold.running, ?_, ?_⟩
    · have hbalance := hold.balance
      show t.nMessagesRx + outstanding (Function.update s.freeFrames (slotOf s.frameSeq) f) id = t.sent
      omega
    · show t.nMessagesRx = messagesReleased (_ :: s.released) id t.posts
      rw [messagesReleased_cons, ite_self, Nat.zero_add]
      exact hold.counted
  · rcases List.mem_cons.mp hr with rfl | hr
    · exact ⟨Nat.lt_succ_self _, fun hc => absurd hc (Nat.lt_irrefl 0)⟩
    · have hold := h.recorded r hr
      exact ⟨Nat.lt_succ_of_lt hold.uid_lt, hold.owner⟩
  · refine List.nodup_cons.mpr ⟨fun hmem => ?_, h.once⟩
    obtain ⟨r, hr, huid⟩ := List.mem_map.mp hmem
    exact absurd huid (Nat.ne_of_lt (h.recorded r hr).uid_lt)

theorem inv_sendAcks (h : Inv s) (hs : sendAcks s = some s') : Inv s' := by
  unfold sendAcks at hs
  split at hs
  · cases hs
    exact h
  · obtain ⟨⟨f, s₁⟩, hget, hpost⟩ := Option.bind_eq_some_iff.mp hs
    obtain ⟨hfree, hbusy, huid, hseq, hcount, acks, rfl⟩ := getFrame_eq hget
    dsimp only at hpost
    have htaken : post (withFrame s f acks) (slotOf s.frameSeq) = some { withFrame s f.release acks with
        released := ⟨f.uid, f.transaction, f.msgStart, 0⟩ :: s.released } :=
      release_taken (T := s.transactions) hbusy hcount
    rw [hseq, htaken, huid] at hpost
    cases hpost
    exact inv_empty h hfree rfl acks _ _

/-- **A frame with messages** is sent. -/
theorem inv_sent (h : Inv s) {id count : Nat} {t : Transaction} {f : Frame} {acks : List Nat}
    (ht : s.transactions id = some t) (hrunning : t.running = true)
    (hfree : (s.freeFrames (slotOf s.frameSeq)).isFree = true) (hbusy : f.isFree = false)
    (huid : f.uid = s.frameCount) (hseq : f.frameSeq = s.frameSeq) (hstart : f.msgStart = t.msg)
    (hcount : f.msgCount = count) (htr : f.transaction = (id, t.posts)) (hpos : 0 < count)
    (hend : t.msg + count ≤ t.messages.length) :
    Inv { withFrame s f acks with
      transactions := Function.update s.transactions id (some { t with msg := t.msg + count }) } := by
  have hok := h.transactions id t ht
  have howner {id' : Nat} {t' : Transaction} (ht' : s.transactions id' = some t') :
      ∃ t'', Function.update s.transactions id (some { t with msg := t.msg + count }) id' = some t'' ∧
        t''.posts = t'.posts ∧ t''.messages = t'.messages := by
    by_cases hid : id' = id
    · subst hid
      rw [ht] at ht'
      cases ht'
      exact ⟨_, Function.update_self .., rfl, rfl⟩
    · exact ⟨t', by rw [Function.update_of_ne hid, ht'], rfl, rfl⟩
  refine ⟨seqOf_succ h.seq, fun i hi hi' => ?_, fun id' t' ht' => ?_, fun r hr => ?_, h.once⟩
  · by_cases hslot : i = slotOf s.frameSeq
    · have hself : (withFrame s f acks).freeFrames i = f := by
        rw [hslot]
        exact Function.update_self ..
      dsimp only
      rw [hself]
      refine ⟨?_, ?_, ?_, fun r hr => ?_, ?_, ?_⟩
      · rw [hseq, huid]
        exact h.seq
      · rw [hseq, hslot]
      · rw [huid]
        exact Nat.lt_succ_self _
      · rw [huid]
        exact Nat.ne_of_lt (h.recorded r hr).uid_lt
      · rw [hcount]
        exact hpos
      · rw [htr, hstart, hcount]
        exact ⟨_, Function.update_self .., rfl, hend⟩
    · have hsame : (withFrame s f acks).freeFrames i = s.freeFrames i := Function.update_of_ne hslot ..
      have hold := h.busy i hi (by rw [← hsame]; exact hi')
      dsimp only
      rw [hsame]
      obtain ⟨t', ht', hposts, hend'⟩ := hold.owner
      obtain ⟨t'', ht'', hposts', hmessages⟩ := howner ht'
      exact ⟨hold.seq, hold.slot, Nat.lt_succ_of_lt hold.uid_lt, hold.fresh, hold.messages,
        t'', ht'', hposts'.trans hposts, hmessages ▸ hend'⟩
  · have hout := outstanding_update s.freeFrames (slotOf_lt s.frameSeq) f id'
    have hwas : (s.freeFrames (slotOf s.frameSeq)).holds id' = 0 :=
      if_neg fun hc => by rw [hfree] at hc; cases hc.1
    dsimp only at ht'
    by_cases hid : id' = id
    · subst hid
      rw [Function.update_self] at ht'
      cases ht'
      have hnew : f.holds id' = count := by
        unfold Frame.holds
        rw [if_pos ⟨hbusy, by rw [htr]⟩, hcount]
      refine ⟨hok.short, hend, hok.running, ?_, hok.counted⟩
      have hbalance := hok.balance
      have hsent : t.sent = t.msg := if_pos hrunning
      have hsent' : ({ t with msg := t.msg + count } : Transaction).sent = t.msg + count := if_pos hrunning
      rw [hsent']
      show t.nMessagesRx + outstanding (Function.update s.freeFrames (slotOf s.frameSeq) f) id' = _
      omega
    · rw [Function.update_of_ne hid] at ht'
      have hold := h.transactions id' t' ht'
      have hnew : f.holds id' = 0 := if_neg fun hc => hid (by rw [← hc.2, htr])
      refine ⟨hold.short, hold.msg_le, hold.running, ?_, hold.counted⟩
      have hbalance := hold.balance
      show t'.nMessagesRx + outstanding (Function.update s.freeFrames (slotOf s.frameSeq) f) id' = t'.sent
      omega
  · have hold := h.recorded r hr
    refine ⟨Nat.lt_succ_of_lt hold.uid_lt, fun hc => ?_⟩
    obtain ⟨t', ht', hposts⟩ := hold.owner hc
    obtain ⟨t'', ht'', hposts', -⟩ := howner ht'
    exact ⟨t'', ht'', by rw [hposts']; exact hposts⟩

/-- The inner loop of `post` goes on to later messages, if `msg` does not wrap around. -/
theorem stuff_ended {t : List Message} (ht : t.length < 2 ^ 16) :
    ∀ {fuel msg left iovlen msg' iovlen' : Nat}, msg ≤ t.length →
    Post.stuff t fuel msg left iovlen = .ended msg' iovlen' →
    ∃ count, iovlen' = iovlen + 2 * count ∧ msg' = msg + count ∧ msg' ≤ t.length
  | 0, msg, left, iovlen, msg', iovlen', hmsg, h => by
    cases h
    exact ⟨0, rfl, rfl, hmsg⟩
  | fuel + 1, msg, left, iovlen, msg', iovlen', hmsg, h => by
    have hstop {msg' iovlen' : Nat} (h : Post.Stuffed.ended msg iovlen = .ended msg' iovlen') :
        ∃ count, iovlen' = iovlen + 2 * count ∧ msg' = msg + count ∧ msg' ≤ t.length := by
      cases h
      exact ⟨0, rfl, rfl, hmsg⟩
    rw [Post.stuff] at h
    split at h
    · exact hstop h
    · cases hm : t[msg]? with
      | none =>
        rw [hm] at h
        exact hstop h
      | some m =>
        obtain ⟨hlt, -⟩ := List.getElem?_eq_some_iff.mp hm
        rw [hm] at h
        dsimp only at h
        split at h
        · split at h
          · cases h
          · exact hstop h
        · split at h
          · rw [Nat.mod_eq_of_lt (by omega)] at h
            obtain ⟨count, hiov, hmsg', hle⟩ := stuff_ended ht (Nat.succ_le_of_lt hlt) h
            exact ⟨count + 1, by omega, by omega, hle⟩
          · cases h

/-- A transaction changes. -/
theorem Inv.set_transaction (h : Inv s) {id : Nat} {t : Transaction}
    (hbusy : ∀ i < 256, (s.freeFrames i).isFree = false → (s.freeFrames i).transaction.1 = id →
      t.posts = (s.freeFrames i).transaction.2 ∧
        (s.freeFrames i).msgStart + (s.freeFrames i).msgCount ≤ t.messages.length)
    (hrecorded : ∀ r ∈ s.released, 0 < r.msgCount → r.transaction.1 = id → r.transaction.2 ≤ t.posts)
    (hok : TransactionOk s id t) :
    Inv { s with transactions := Function.update s.transactions id (some t) } := by
  refine ⟨h.seq, fun i hi hi' => ?_, fun id' t' ht' => ?_, fun r hr => ?_, h.once⟩
  · have hold := h.busy i hi hi'
    refine ⟨hold.seq, hold.slot, hold.uid_lt, hold.fresh, hold.messages, ?_⟩
    dsimp only
    by_cases hid : (s.freeFrames i).transaction.1 = id
    · rw [hid]
      exact ⟨t, Function.update_self .., hbusy i hi hi' hid⟩
    · rw [Function.update_of_ne hid]
      exact hold.owner
  · dsimp only at ht'
    by_cases hid : id' = id
    · subst hid
      rw [Function.update_self] at ht'
      cases ht'
      exact ⟨hok.short, hok.msg_le, hok.running, hok.balance, hok.counted⟩
    · rw [Function.update_of_ne hid] at ht'
      have hold := h.transactions id' t' ht'
      exact ⟨hold.short, hold.msg_le, hold.running, hold.balance, hold.counted⟩
  · have hold := h.recorded r hr
    refine ⟨hold.uid_lt, fun hc => ?_⟩
    dsimp only
    by_cases hid : r.transaction.1 = id
    · rw [hid]
      exact ⟨t, Function.update_self .., hrecorded r hr hc hid⟩
    · rw [Function.update_of_ne hid]
      exact hold.owner hc

/-! ## Transactions -/

theorem inv_turn (h : Inv s) {id : Nat} (hs : turn s P id = some s') : Inv s' := by
  unfold turn at hs
  cases ht : s.transactions id with
  | none =>
    rw [ht] at hs
    cases hs
  | some t =>
    have hok := h.transactions id t ht
    rw [ht] at hs
    dsimp only at hs
    by_cases hrunning : t.running = true
    · rw [hrunning, if_neg (by decide)] at hs
      by_cases hmore : t.msg < t.messages.length
      · rw [if_pos hmore] at hs
        cases hstuff : Post.stuff t.messages (sizeSub P (frameHeaderSize + 2)) t.msg
            (sizeSub P (frameHeaderSize + 2)) 2 with
        | asserted =>
          rw [hstuff] at hs
          cases hs
        | overrun =>
          rw [hstuff] at hs
          cases hs
        | ended msg iovlen =>
          rw [hstuff] at hs
          dsimp only at hs
          obtain ⟨count, rfl, rfl, hend⟩ := stuff_ended hok.short hok.msg_le hstuff
          have hhalf : (2 + 2 * count - 2) / 2 = count := by omega
          rw [hhalf] at hs
          split at hs
          · cases hs
          · obtain ⟨hfree, f, acks, huid, hseq, hstart, hcount, htr, hsent⟩ := sendFrame_eq hs
            by_cases hzero : count = 0
            · subst hzero
              rw [if_pos rfl] at hsent
              obtain ⟨hf, rfl⟩ := hsent
              have hsame : Function.update s.transactions id (some { t with msg := t.msg + 0 }) =
                  s.transactions := by
                rw [Function.update_eq_self_iff, ht]
                rfl
              rw [hsame]
              exact inv_empty h hfree hf acks _ _
            · rw [if_neg hzero] at hsent
              obtain ⟨hbusy, rfl⟩ := hsent
              exact inv_sent h ht hrunning hfree hbusy huid hseq hstart hcount htr
                (Nat.pos_of_ne_zero hzero) hend
      · -- `post` returns
        rw [if_neg hmore] at hs
        cases hs
        refine h.set_transaction (fun i hi hbusy hid => ?_) (fun r hr hc hid => ?_) ?_
        · obtain ⟨t', ht', hposts, hend⟩ := (h.busy i hi hbusy).owner
          rw [hid, ht] at ht'
          cases ht'
          exact ⟨hposts, hend⟩
        · obtain ⟨t', ht', hposts⟩ := (h.recorded r hr).owner hc
          rw [hid, ht] at ht'
          cases ht'
          exact hposts
        · refine ⟨hok.short, hok.msg_le, (fun hc => nomatch hc), ?_, hok.counted⟩
          have hsent : t.sent = t.msg := if_pos hrunning
          have hsent' : ({ t with running := false } : Transaction).sent = t.messages.length := by
            unfold Transaction.sent
            rw [if_neg Bool.false_ne_true, if_neg (hok.running hrunning)]
          have hbalance := hok.balance
          have hle := hok.msg_le
          rw [hsent']
          show t.nMessagesRx + outstanding s.freeFrames id = t.messages.length
          omega
    · rw [if_pos (by simpa using hrunning)] at hs
      cases hs

/-- A transaction that may be posted has no messages in slots that are in use. -/
theorem Inv.start_owner (h : Inv s) {id : Nat} {t : Transaction} (ht : s.transactions id = some t)
    (hrunning : t.running = false) (hmay : t.posts = 0 ∨ t.complete = true) :
    ∀ i < 256, (s.freeFrames i).isFree = false → (s.freeFrames i).transaction.1 ≠ id := by
  intro i hi hbusy hid
  have hok := h.transactions id t ht
  have hbalance := hok.balance
  have hout := msgCount_le_outstanding hi hbusy
  have hpos := (h.busy i hi hbusy).messages
  rw [hid] at hout
  unfold Transaction.sent at hbalance
  rw [if_neg (by rw [hrunning]; decide)] at hbalance
  by_cases hposts : t.posts = 0
  · rw [if_pos hposts] at hbalance
    omega
  · have hcomplete : t.nMessagesRx = t.messages.length := beq_iff_eq.mp (hmay.resolve_left hposts)
    rw [if_neg hposts] at hbalance
    omega

theorem inv_start (h : Inv s) {id : Nat} (hmay : Reposts s (.start id)) (hs : start s id = some s') :
    Inv s' := by
  unfold start at hs
  cases ht : s.transactions id with
  | none =>
    rw [ht] at hs
    cases hs
  | some t =>
    rw [ht] at hs
    dsimp only at hs
    split at hs
    · cases hs
    · next hrunning =>
      cases hs
      have hok := h.transactions id t ht
      have howner := h.start_owner ht (Bool.not_eq_true _ ▸ hrunning) (hmay t ht)
      have hzero := outstanding_eq_zero howner
      refine h.set_transaction (fun i hi hbusy hid => absurd hid (howner i hi hbusy))
        (fun r hr hc hid => ?_) ⟨hok.short, Nat.zero_le _, fun _ => Nat.succ_ne_zero _, ?_, ?_⟩
      · obtain ⟨t', ht', hposts⟩ := (h.recorded r hr).owner hc
        rw [hid, ht] at ht'
        cases ht'
        exact Nat.le_succ_of_le hposts
      · rw [hzero]
        rfl
      · refine (messagesReleased_zero fun r hr hc htr => ?_).symm
        obtain ⟨t', ht', hposts⟩ := (h.recorded r hr).owner hc
        rw [htr, ht] at ht'
        cases ht'
        rw [htr] at hposts
        exact absurd hposts (Nat.not_succ_le_self _)

theorem inv_create (h : Inv s) {id : Nat} {messages : List Message} (hshort : messages.length < 2 ^ 16)
    (hs : create s id messages = some s') : Inv s' := by
  unfold create at hs
  split at hs
  · next hc =>
    cases hs
    have hnone : s.transactions id = none := Option.isNone_iff_eq_none.mp hc.1
    have howner : ∀ i < 256, (s.freeFrames i).isFree = false → (s.freeFrames i).transaction.1 ≠ id := by
      intro i hi hbusy hid
      obtain ⟨t, ht, -⟩ := (h.busy i hi hbusy).owner
      rw [hid, hnone] at ht
      cases ht
    have hrecord : ∀ r ∈ s.released, 0 < r.msgCount → r.transaction.1 ≠ id := by
      intro r hr hc hid
      obtain ⟨t, ht, -⟩ := (h.recorded r hr).owner hc
      rw [hid, hnone] at ht
      cases ht
    refine h.set_transaction (fun i hi hbusy hid => absurd hid (howner i hi hbusy))
      (fun r hr hc hid => absurd hid (hrecord r hr hc))
      ⟨hshort, Nat.zero_le _, (fun hc => nomatch hc), ?_, ?_⟩
    · rw [outstanding_eq_zero howner]
      rfl
    · exact (messagesReleased_zero fun r hr hc htr => hrecord r hr hc (by rw [htr])).symm
  · cases hs

/-! ## Runs -/

/-- **Step.** -/
theorem inv_step {op : Op} (h : Inv s) (hok : Short s op) (hs : step P s op = some s') : Inv s' := by
  cases op with
  | create id messages => exact inv_create h hok.2 hs
  | start id => exact inv_start h hok.1 hs
  | turn id =>
    have hturn : turn s P id = some s' := hs
    exact inv_turn h hturn
  | received seq =>
    cases hs
    exact ⟨h.seq, fun i hi hbusy => (h.busy i hi hbusy).of_eq rfl rfl rfl, fun id t ht =>
      (h.transactions id t ht).of_eq rfl rfl, fun r hr => (h.recorded r hr).of_eq rfl rfl, h.once⟩
  | sendAcks => exact inv_sendAcks h hs
  | ack count start => exact inv_ack h hs
  | checkAcks slot => exact inv_checkAcks h hs

/-- **Run**: slots, releases and counts are right in every state of a run that posts transactions of less
than 2^16 messages, and again only when they are complete, whatever acknowledgements arrive. -/
theorem slotsOk_of_short (P : Nat) (s : Services) (h : Reach (step P) Short Services.init s) : SlotsOk s :=
  (h.invariant inv_init fun _ _ _ hinv hok hs => inv_step hinv hok hs).slotsOk

/-- Two blocks are posted, acknowledged twice with other numbers around, and posted again. -/
theorem slotsOk_reposted : ∃ s ∈ exec (checked (step 512) Short) Services.init
    [.create 0 [⟨0, 64, 8⟩, ⟨8, 72, 300⟩], .start 0, .turn 0, .turn 0, .received 7, .sendAcks,
      .checkAcks 1, .ack 4 0, .ack 2 1, .start 0, .turn 0], s.released.length = 2 ∧ SlotsOk s := by
  obtain ⟨s, hs, hreleased⟩ : ∃ s, exec (checked (step 512) Short) Services.init
      [.create 0 [⟨0, 64, 8⟩, ⟨8, 72, 300⟩], .start 0, .turn 0, .turn 0, .received 7, .sendAcks,
        .checkAcks 1, .ack 4 0, .ack 2 1, .start 0, .turn 0] = some s ∧ s.released.length = 2 :=
    ⟨_, rfl, rfl⟩
  exact ⟨s, hs, hreleased, slotsOk_of_short 512 s (reach_of_exec_checked _ hs)⟩

/-! ## A transaction of more than 2^16 messages

Three messages of 136 bytes go into a frame. -/

/-- Between the frames of a transaction: all slots are free. -/
structure Between (t : List Message) (s : Services) (rx msg : Nat) : Prop where
  free : ∀ i, (s.freeFrames i).isFree = true
  transaction : s.transactions 0 = some ⟨t, rx, msg, true, 1⟩

section

variable {t : List Message} {rx msg : Nat} (ht : t.length = 65538)
  (hget : ∀ k < 65538, t[k]? = some ⟨0, 0, 136⟩)

include hget in
theorem stuff_three (hmsg : msg < 2 ^ 16) (hwrap : (msg + 3) % 2 ^ 16 ≠ 0) :
    Post.stuff t 500 msg 500 2 = .ended ((msg + 3) % 2 ^ 16) 8 := by
  have hneed : Post.need ⟨0, 0, 136⟩ = 160 := rfl
  have hroom : 8 ≤ Wire.MAX_MSGS + 1 := by decide
  have hstep {fuel msg left iovlen : Nat} (hmsg : msg < 2 ^ 16) (hleft : 160 ≤ left)
      (hiov : iovlen + 2 ≤ 8) : Post.stuff t (fuel + 1) msg left iovlen =
        Post.stuff t fuel ((msg + 1) % 2 ^ 16) (left - 160) (iovlen + 2) := by
    rw [Post.stuff, if_neg (by omega), hget msg (by omega)]
    dsimp only
    rw [hneed, if_neg (by omega), if_pos (by omega)]
  have hone : (msg + 1) % 2 ^ 16 < 2 ^ 16 := Nat.mod_lt _ (by decide)
  have htwo : ((msg + 1) % 2 ^ 16 + 1) % 2 ^ 16 < 2 ^ 16 := Nat.mod_lt _ (by decide)
  have hthree : (((msg + 1) % 2 ^ 16 + 1) % 2 ^ 16 + 1) % 2 ^ 16 = (msg + 3) % 2 ^ 16 := by omega
  show Post.stuff t (496 + 1 + 1 + 1 + 1) msg 500 2 = _
  rw [hstep hmsg (by omega) (by omega), hstep hone (by omega) (by omega),
    hstep htwo (by omega) (by omega), hthree, Post.stuff, if_neg (by omega), hget _ (by omega)]
  dsimp only
  rw [hneed, if_pos (by omega), if_neg hwrap]

/-- The frame of a turn of three messages. -/
def filled (s : Services) (msg : Nat) : Frame where
  isFree := false
  uid := s.frameCount
  frameSeq := s.frameSeq
  ackStart := (takeAcks s.acks).1.1
  ackCount := (takeAcks s.acks).1.2
  msgStart := msg
  msgCount := 3
  transaction := (0, 1)

/-- The state when it is sent. -/
def sent (s : Services) (t : List Message) (rx msg : Nat) : Services :=
  { withFrame s (filled s msg) (takeAcks s.acks).2 with
    transactions := Function.update s.transactions 0 (some ⟨t, rx, (msg + 3) % 2 ^ 16, true, 1⟩) }

/-- The state when it is acknowledged. -/
def acked (s : Services) (t : List Message) (rx msg : Nat) : Services :=
  { sent s t rx msg with
    freeFrames := Function.update (sent s t rx msg).freeFrames (slotOf s.frameSeq) (filled s msg).release
    transactions := Function.update (sent s t rx msg).transactions 0
      (some ⟨t, (rx + 3) % 2 ^ 32, (msg + 3) % 2 ^ 16, true, 1⟩)
    released := ⟨s.frameCount, (0, 1), msg, 3⟩ :: s.released }

theorem sent_freeFrames {s : Services} :
    (sent s t rx msg).freeFrames (slotOf s.frameSeq) = filled s msg :=
  Function.update_self ..

include hget in
theorem turn_three {s : Services} (h : Between t s rx msg) (hmsg : msg < 2 ^ 16)
    (hwrap : (msg + 3) % 2 ^ 16 ≠ 0) : turn s 512 0 = some (sent s t rx msg) := by
  have hleft : sizeSub 512 (frameHeaderSize + 2) = 500 := rfl
  have hlength : msg < t.length := by
    obtain ⟨hlt, -⟩ := List.getElem?_eq_some_iff.mp (hget msg (by omega))
    exact hlt
  let empty : Frame := { filled s msg with msgStart := 0, msgCount := 0, transaction := (0, 0) }
  have hframe : getFrame s = some (empty, withFrame s empty (takeAcks s.acks).2) := if_pos (h.free _)
  have hpost : post (sent s t rx msg) (slotOf s.frameSeq) = some (sent s t rx msg) := by
    unfold post
    rw [sent_freeFrames]
    exact if_neg (Nat.succ_ne_zero 2)
  have hstate : ({ withFrame s empty (takeAcks s.acks).2 with
      freeFrames := Function.update (withFrame s empty (takeAcks s.acks).2).freeFrames
        (slotOf s.frameSeq) (filled s msg)
      transactions := Function.update s.transactions 0 (some ⟨t, rx, (msg + 3) % 2 ^ 16, true, 1⟩) } :
        Services) = sent s t rx msg := by
    unfold sent withFrame
    dsimp only
    rw [Function.update_idem]
  unfold turn
  rw [h.transaction]
  dsimp only
  rw [Bool.not_true, if_neg Bool.false_ne_true, if_pos hlength, hleft, stuff_three hget hmsg hwrap]
  dsimp only
  rw [if_neg hwrap]
  unfold sendFrame
  rw [hframe, Option.bind_some]
  exact (congrArg (post · (slotOf s.frameSeq)) hstate).trans hpost

include ht in
theorem ack_three {s : Services} (hmsg : msg < 2 ^ 16) :
    ack (sent s t rx msg) 1 s.frameSeq = some (acked s t rx msg) := by
  have hcredit : credit (sent s t rx msg) (filled s msg) = some { sent s t rx msg with
      transactions := Function.update (sent s t rx msg).transactions 0
        (some ⟨t, (rx + 3) % 2 ^ 32, (msg + 3) % 2 ^ 16, true, 1⟩) } := by
    have hcount : (filled s msg).msgCount ≠ 0 := Nat.succ_ne_zero 2
    have hown : (sent s t rx msg).transactions (filled s msg).transaction.1 =
        some ⟨t, rx, (msg + 3) % 2 ^ 16, true, 1⟩ := Function.update_self 0 _ s.transactions
    have hinside : ¬t.length < (filled s msg).msgStart + (filled s msg).msgCount := by
      rw [ht]
      show ¬65538 < msg + 3
      omega
    unfold credit
    rw [if_neg hcount, hown]
    dsimp only
    rw [if_neg hinside]
    rfl
  have hrelease : release (sent s t rx msg) (slotOf s.frameSeq) = some (acked s t rx msg) := by
    have hfree : (filled s msg).isFree = false := rfl
    unfold release
    rw [sent_freeFrames]
    dsimp only
    rw [hfree, if_neg Bool.false_ne_true, hcredit]
    rfl
  have hmatch : (!(filled s msg).isFree && (filled s msg).frameSeq == s.frameSeq) = true :=
    beq_self_eq_true s.frameSeq
  unfold ack releaseFrame
  rw [List.range_one, List.foldlM_cons]
  dsimp only
  rw [Nat.add_zero, sent_freeFrames, if_pos hmatch, hrelease]
  rfl

include ht hget in
/-- A frame is sent and acknowledged. -/
theorem between_round {s : Services} (h : Between t s rx msg) (hmsg : msg < 2 ^ 16)
    (hwrap : (msg + 3) % 2 ^ 16 ≠ 0) (hrx : rx + 3 < 2 ^ 32) :
    ∃ s', Reach (step 512) Reposts s s' ∧ Between t s' (rx + 3) ((msg + 3) % 2 ^ 16) := by
  have hmod : (rx + 3) % 2 ^ 32 = rx + 3 := Nat.mod_eq_of_lt hrx
  refine ⟨acked s t rx msg, Relation.ReflTransGen.tail
    (Relation.ReflTransGen.single ⟨.turn 0, trivial, turn_three hget h hmsg hwrap⟩)
    ⟨.ack 1 s.frameSeq, trivial, ack_three ht hmsg⟩, fun i => ?_, ?_⟩
  · by_cases hi : i = slotOf s.frameSeq
    · have hself : (acked s t rx msg).freeFrames i = (filled s msg).release := by
        rw [hi]
        exact Function.update_self ..
      rw [hself]
      rfl
    · have hother : (acked s t rx msg).freeFrames i = (sent s t rx msg).freeFrames i :=
        Function.update_of_ne hi ..
      have hsame : (sent s t rx msg).freeFrames i = s.freeFrames i := Function.update_of_ne hi ..
      rw [hother, hsame]
      exact h.free i
  · have hown : (acked s t rx msg).transactions 0 =
        some ⟨t, (rx + 3) % 2 ^ 32, (msg + 3) % 2 ^ 16, true, 1⟩ :=
      Function.update_self 0 _ (sent s t rx msg).transactions
    rw [hown, hmod]

/-- The state when the transaction is created. -/
def created (t : List Message) : Services :=
  { Services.init with
    transactions := Function.update Services.init.transactions 0 (some { messages := t }) }

theorem created_transactions : (created t).transactions 0 = some { messages := t } :=
  Function.update_self 0 _ Services.init.transactions

include ht in
theorem between_start : ∃ s, Reach (step 512) Reposts Services.init s ∧ Between t s 0 0 := by
  have hcreate : step 512 Services.init (.create 0 t) = some (created t) :=
    if_pos ⟨rfl, by rw [ht]; decide⟩
  have hstart : step 512 (created t) (.start 0) = some { created t with
      transactions := Function.update (created t).transactions 0 (some ⟨t, 0, 0, true, 1⟩) } := by
    show start (created t) 0 = _
    unfold start
    rw [created_transactions]
    rfl
  have hmay : Reposts (created t) (.start 0) := by
    intro t' ht'
    rw [created_transactions] at ht'
    cases ht'
    exact Or.inl rfl
  exact ⟨_, Relation.ReflTransGen.tail (Relation.ReflTransGen.single ⟨.create 0 t, trivial, hcreate⟩)
    ⟨.start 0, hmay, hstart⟩, fun _ => rfl, Function.update_self 0 _ (created t).transactions⟩

include ht hget in
theorem between_rounds : ∀ k ≤ 21845, ∃ s, Reach (step 512) Reposts Services.init s ∧
    Between t s (3 * k) (3 * k)
  | 0, _ => between_start ht
  | k + 1, hk => by
    obtain ⟨s, hreach, hbetween⟩ := between_rounds k (by omega)
    have hnext : (3 * k + 3) % 2 ^ 16 = 3 * (k + 1) := by omega
    obtain ⟨s', hreach', hbetween'⟩ := between_round ht hget hbetween (by omega) (by omega) (by omega)
    rw [hnext] at hbetween'
    exact ⟨s', hreach.trans hreach', hbetween'⟩

end

/-- Of 65538 messages the first ones are sent and counted again when `msg` has wrapped around. -/
theorem wrapped_counted_again : ¬∀ (P : Nat) (s : Services),
    Reach (step P) Reposts Services.init s → SlotsOk s := by
  intro h
  have ht : (List.replicate 65538 (⟨0, 0, 136⟩ : Message)).length = 65538 := List.length_replicate
  have hget (k : Nat) (hk : k < 65538) :
      (List.replicate 65538 (⟨0, 0, 136⟩ : Message))[k]? = some ⟨0, 0, 136⟩ := by
    rw [List.getElem?_replicate, if_pos hk]
  generalize List.replicate 65538 (⟨0, 0, 136⟩ : Message) = t at ht hget
  obtain ⟨s, hreach, hbetween⟩ := between_rounds ht hget 21845 (le_refl _)
  obtain ⟨s₁, hreach₁, hbetween₁⟩ := between_round ht hget hbetween (by decide) (by decide) (by decide)
  obtain ⟨s₂, hreach₂, hbetween₂⟩ := between_round ht hget hbetween₁ (by decide) (by decide) (by decide)
  have hle := ((h 512 s₂ ((hreach.trans hreach₁).trans hreach₂)).counted 0 _ hbetween₂.transaction).2
  dsimp only at hle
  omega

end OpenCpi.Datagram.Sender
