import Mathlib.Algebra.Order.BigOperators.Group.Finset
import OpenCpi.Properties.Datagram

/-!
# No frame is acknowledged that was not received, as long as the queue is honest

`getFrame` turns the head of the queue of acknowledgements into a range. Its loop compares every
further entry with the same number, so a queue such as 5, 6, 9, 6 (a duplicate is acknowledged
again) makes the range 5 to 7. In a run in which the numbers that such a queue adds to the range
have been received anyway, and requests are posted again only when they are complete, a frame is
released only after the peer accepted it, and a request is complete only when the peer has all its
frames.
-/

namespace OpenCpi.Datagram

open Infra

variable {e e' : Endpoint} {w w' w₀ : World} {x : Side} {p : Packet} {f : Frame} {P : Nat}

/-! ## Ranges of acknowledgements -/

/-- The acknowledgement of the number `n` has been queued. -/
def Accepted (e : Endpoint) (n : Nat) : Prop := ∃ u ∈ e.log.accepted, seqOf u = n

/-- The condition on the queue of acknowledgements: if it begins with `a`, `a + 1`, some entry
and `k` further copies of `a + 1`, then the frame `a + 1 + k` has been received. -/
def HonestQueue (e : Endpoint) : Prop :=
  ∀ a y k rest, e.acks = a :: (a + 1) :: y :: (List.replicate (k + 1) (a + 1) ++ rest) →
    Accepted e (a + 2 + k)

/-- The loop adds one to the count for each further copy of `start + 1` behind the first entry. -/
theorem ackLoop_spec (start : Nat) : ∀ (fuel count : Nat) (acks : List Nat), count < 256 →
    ∃ j rest, (ackLoop start fuel count acks).1 = (count + j) % 256 ∧
      acks.tail = List.replicate j (start + 1) ++ rest ∧
      ∀ n ∈ (ackLoop start fuel count acks).2, n ∈ acks
  | 0, count, acks, hc => by
    refine ⟨0, acks.tail, ?_, rfl, fun n hn => hn⟩
    rw [ackLoop, Nat.add_zero, Nat.mod_eq_of_lt hc]
  | fuel + 1, count, acks, hc => by
    rw [ackLoop]
    split
    · next hnext =>
      obtain ⟨j, rest, h₁, h₂, h₃⟩ :=
        ackLoop_spec start fuel ((count + 1) % 256) acks.tail (Nat.mod_lt _ (by decide))
      refine ⟨j + 1, rest, ?_, ?_, fun n hn => List.mem_of_mem_tail (h₃ n hn)⟩
      · rw [h₁, Nat.mod_add_mod]
        congr 1
        omega
      · match acks, hnext with
        | _ :: b :: t, hnext =>
          simp only [List.getElem?_cons_succ, List.getElem?_cons_zero, Option.some.injEq] at hnext
          simp only [List.tail_cons] at h₂ ⊢
          rw [h₂, hnext, List.replicate_succ, List.cons_append]
    · refine ⟨0, acks.tail, ?_, rfl, fun n hn => hn⟩
      rw [Nat.add_zero, Nat.mod_eq_of_lt hc]

/-- With an honest queue every number of the range that `getFrame` makes has been received, and
what stays queued was queued before. -/
theorem takeAcks_spec (hacks : ∀ n ∈ e.acks, Accepted e n) (hh : HonestQueue e) :
    (∀ n, (takeAcks e.acks).1.1 ≤ n → n < (takeAcks e.acks).1.1 + (takeAcks e.acks).1.2 →
      Accepted e n) ∧ ∀ n ∈ (takeAcks e.acks).2, n ∈ e.acks := by
  unfold takeAcks
  cases hq : e.acks with
  | nil =>
    refine ⟨?_, fun n hn => hn⟩
    intro n hle hlt
    dsimp only at hle hlt
    omega
  | cons a rest =>
    rw [hq] at hacks
    dsimp only
    split
    · next hnext =>
      match rest, hnext with
      | b :: t, hnext =>
        simp only [List.getElem?_cons_zero, Option.some.injEq] at hnext
        subst hnext
        obtain ⟨j, tail, h₁, h₂, h₃⟩ := ackLoop_spec a ((a + 1) :: t).length 2 t (by decide)
        refine ⟨?_, fun n hn => by simp [h₃ n hn]⟩
        intro n hle hlt
        dsimp only at hle hlt
        rw [List.tail_cons, h₁] at hlt
        have hj : n < a + 2 + j := lt_of_lt_of_le hlt (by
          have := Nat.mod_le (2 + j) 256
          omega)
        rcases Nat.lt_or_ge n (a + 2) with hn | hn
        · exact hacks n (by
            have : n = a ∨ n = a + 1 := by omega
            rcases this with rfl | rfl <;> simp)
        · -- the range was extended past `a + 1`: `n - a - 1` copies of `a + 1` follow
          obtain ⟨k, rfl⟩ : ∃ k, n = a + 2 + k := ⟨n - (a + 2), by omega⟩
          obtain ⟨d, rfl⟩ : ∃ d, j = (k + 1) + d := ⟨j - (k + 1), by omega⟩
          match t, h₂ with
          | [], h₂ => simp at h₂
          | y :: t', h₂ =>
            rw [List.tail_cons, List.replicate_add, List.append_assoc] at h₂
            exact hh a y k _ (by rw [hq, h₂])
    · refine ⟨?_, fun n hn => List.mem_cons_of_mem _ hn⟩
      intro n hle hlt
      dsimp only at hle hlt
      have : n = a := by omega
      exact hacks n (by simp [this])

/-! ## Counting messages -/

/-- The messages of a request that a slot holds back. -/
def Frame.holds (f : Frame) (id : Nat) : Nat :=
  if f.isFree = false ∧ f.transaction.1 = id then f.msgCount else 0

/-- The messages of a request that wait for an acknowledgement. -/
def outstanding (frames : Nat → Frame) (id : Nat) : Nat :=
  ∑ i ∈ Finset.range 256, (frames i).holds id

theorem outstanding_update (frames : Nat → Frame) {i : Nat} (hi : i < 256) (f : Frame)
    (id : Nat) : outstanding (Function.update frames i f) id + (frames i).holds id =
      outstanding frames id + f.holds id := by
  have hmem : i ∈ Finset.range 256 := Finset.mem_range.mpr hi
  have hrest : ∑ j ∈ (Finset.range 256).erase i, (Function.update frames i f j).holds id =
      ∑ j ∈ (Finset.range 256).erase i, (frames j).holds id := by
    refine Finset.sum_congr rfl fun j hj => ?_
    rw [Function.update_of_ne (Finset.ne_of_mem_erase hj)]
  have h₁ := Finset.add_sum_erase _ (fun j => (Function.update frames i f j).holds id) hmem
  have h₂ := Finset.add_sum_erase _ (fun j => (frames j).holds id) hmem
  simp only [Function.update_self] at h₁
  unfold outstanding
  omega

theorem holds_le_outstanding (frames : Nat → Frame) {i : Nat} (hi : i < 256) (id : Nat) :
    (frames i).holds id ≤ outstanding frames id :=
  Finset.single_le_sum (f := fun j => (frames j).holds id) (fun _ _ => Nat.zero_le _)
    (Finset.mem_range.mpr hi)

/-- A slot that is given free holds nothing back. -/
theorem outstanding_release (frames : Nat → Frame) {i : Nat} (hi : i < 256) (f : Frame)
    (id : Nat) : outstanding (Function.update frames i f.release) id + (frames i).holds id =
      outstanding frames id := by
  rw [outstanding_update frames hi f.release id]
  simp [Frame.holds, Frame.release]

/-- The messages of a request before `next` are in frames that were sent. -/
def Covered (issued : List Issued) (id : Nat) (r : Request) : Prop :=
  ∀ i < r.next, r.posting ≠ 0 → ∃ s ∈ issued, s.request = id ∧ s.posting = r.posting ∧
    s.msgStart ≤ i ∧ i < s.msgStart + s.msgCount

/-- Every message of the running posting that was sent is acknowledged or outstanding. -/
structure RequestOk (e : Endpoint) (id : Nat) (r : Request) : Prop where
  next_le : r.next ≤ r.messages.length
  counted : r.posting ≠ 0 → r.nMessagesRx + outstanding e.freeFrames id = r.next
  unposted : r.posting = 0 → r.next = r.messages.length ∧ r.nMessagesRx = 0 ∧
    outstanding e.freeFrames id = 0
  covered : Covered e.log.issued id r

/-- A slot in use belongs to the running posting of a request. -/
structure SlotOk (e : Endpoint) (i : Nat) : Prop where
  index : i < 256
  messages : 0 < (e.freeFrames i).msgCount
  request : ∃ r, e.requests (e.freeFrames i).transaction.1 = some r ∧
    r.posting = (e.freeFrames i).transaction.2

/-- What an endpoint knows about its own frames. -/
structure Counted (e : Endpoint) : Prop where
  slots : ∀ i, (e.freeFrames i).isFree = false → SlotOk e i
  requests : ∀ id r, e.requests id = some r → RequestOk e id r

theorem mask_lt (n : Nat) : n &&& FRAME_SEQ_MASK < 256 := by
  have := @Nat.and_le_right n FRAME_SEQ_MASK
  have h : FRAME_SEQ_MASK = 255 := rfl
  omega

theorem counted_new (memory : Nat → UInt8) (n : Nat) : Counted (Endpoint.new memory n) where
  slots := fun i hi => by simp [Endpoint.new] at hi
  requests := fun id r hr => by simp [Endpoint.new] at hr

/-- A released frame moves its messages from outstanding to acknowledged. -/
theorem counted_releaseFrame (h : Counted e) (seq : Nat) : Counted (releaseFrame e seq) := by
  unfold releaseFrame
  dsimp only
  split
  · next hc =>
    have hbusy : (e.freeFrames (seq &&& FRAME_SEQ_MASK)).isFree = false := by simpa using hc.1
    have hslot := h.slots _ hbusy
    refine ⟨?_, ?_⟩
    · intro i hi
      dsimp only at hi
      by_cases heq : i = seq &&& FRAME_SEQ_MASK
      · subst heq
        simp [Frame.release] at hi
      · rw [Function.update_of_ne heq] at hi
        obtain ⟨h₁, h₂, r, hr, hp⟩ := h.slots i hi
        refine ⟨h₁, ?_, ?_⟩
        · simp only [Function.update_of_ne heq]
          exact h₂
        · simp only [Function.update_of_ne heq, hr]
          split
          · exact ⟨_, rfl, hp⟩
          · exact ⟨r, rfl, hp⟩
    · intro id r hr
      have hu := outstanding_release e.freeFrames hslot.index
        (e.freeFrames (seq &&& FRAME_SEQ_MASK)) id
      dsimp only at hr
      split at hr
      · next hid =>
        obtain ⟨r₀, hr₀, rfl⟩ := Option.map_eq_some_iff.mp hr
        have hold := h.requests id r₀ hr₀
        have hholds : (e.freeFrames (seq &&& FRAME_SEQ_MASK)).holds id =
            (e.freeFrames (seq &&& FRAME_SEQ_MASK)).msgCount := by
          simp [Frame.holds, hbusy, hid]
        rw [hholds] at hu
        refine ⟨hold.next_le, fun hp => ?_, fun hp => ?_, hold.covered⟩
        · have := hold.counted hp
          dsimp only
          omega
        · have := (hold.unposted hp).2.2
          have := hslot.messages
          omega
      · next hid =>
        have hold := h.requests id r hr
        have hholds : (e.freeFrames (seq &&& FRAME_SEQ_MASK)).holds id = 0 := by
          simp [Frame.holds, Ne.symm hid]
        rw [hholds] at hu
        refine ⟨hold.next_le, fun hp => ?_, fun hp => ?_, hold.covered⟩
        · have := hold.counted hp
          dsimp only
          omega
        · have := hold.unposted hp
          dsimp only
          omega
  · exact h

theorem counted_ack (h : Counted e) (count start : Nat) : Counted (ack e count start) := by
  unfold ack
  induction count with
  | zero => exact h
  | succ n ih =>
    rw [List.range_succ, List.foldl_append, List.foldl_cons, List.foldl_nil]
    exact counted_releaseFrame ih _

theorem Counted.of_eq (h : Counted e) (hf : e'.freeFrames = e.freeFrames)
    (hr : e'.requests = e.requests) (hi : e'.log.issued = e.log.issued) : Counted e' := by
  refine ⟨?_, ?_⟩
  · intro i hbusy
    rw [hf] at hbusy
    obtain ⟨h₁, h₂, h₃⟩ := h.slots i hbusy
    refine ⟨h₁, ?_, ?_⟩
    · rw [hf]
      exact h₂
    · rw [hf, hr]
      exact h₃
  · intro id r hreq
    rw [hr] at hreq
    obtain ⟨h₁, h₂, h₃, h₄⟩ := h.requests id r hreq
    refine ⟨h₁, ?_, ?_, ?_⟩
    · rw [hf]
      exact h₂
    · rw [hf]
      exact h₃
    · rw [hi]
      exact h₄

theorem counted_processFrame (h : Counted e) (hs : processFrame e p = some e') : Counted e' := by
  have hrec : Counted (recordFrame e p) := by
    unfold recordFrame
    dsimp only
    split
    · exact h.of_eq rfl rfl rfl
    · apply counted_ack
      exact h.of_eq rfl rfl rfl
  rcases processFrame_cases hs with ⟨-, rfl⟩ | ⟨-, -, rfl⟩ | ⟨-, -, hs⟩
  · exact h.of_eq rfl rfl rfl
  · exact hrec
  · obtain ⟨memory, records, inPlay, events, rfl⟩ := processMsgs_eq _ hs
    exact hrec.of_eq rfl rfl rfl

/-- No slot is in use for a request without outstanding messages. -/
theorem Counted.transaction_ne (h : Counted e) {id i : Nat}
    (hz : outstanding e.freeFrames id = 0) (hbusy : (e.freeFrames i).isFree = false) :
    (e.freeFrames i).transaction.1 ≠ id := by
  intro hid
  have hslot := h.slots i hbusy
  have hle := holds_le_outstanding e.freeFrames hslot.index id
  have hholds : (e.freeFrames i).holds id = (e.freeFrames i).msgCount := by
    simp [Frame.holds, hbusy, hid]
  have := hslot.messages
  omega

/-- A request changes while none of its messages is outstanding. -/
theorem Counted.set_request (h : Counted e) {id : Nat} {r : Request}
    (hz : outstanding e.freeFrames id = 0) (hr : RequestOk e id r) :
    Counted { e with requests := Function.update e.requests id (some r) } := by
  refine ⟨?_, ?_⟩
  · intro i hbusy
    obtain ⟨h₁, h₂, r', hr', hp⟩ := h.slots i hbusy
    refine ⟨h₁, h₂, r', ?_, hp⟩
    show Function.update e.requests id (some r) _ = some r'
    rw [Function.update_of_ne (h.transaction_ne hz hbusy), hr']
  · intro id' r' hreq
    dsimp only at hreq
    by_cases heq : id' = id
    · subst heq
      rw [Function.update_self, Option.some.injEq] at hreq
      exact hreq ▸ ⟨hr.next_le, hr.counted, hr.unposted, hr.covered⟩
    · rw [Function.update_of_ne heq] at hreq
      obtain ⟨h₁, h₂, h₃, h₄⟩ := h.requests id' r' hreq
      exact ⟨h₁, h₂, h₃, h₄⟩

theorem counted_newRequest {id skipped : Nat} {copies : List Copy} {flagAddr flagValue : Nat}
    (h : Counted e) (hs : newRequest P e id skipped copies flagAddr flagValue = some e') :
    Counted e' := by
  obtain ⟨tid, hnone, rfl⟩ := newRequest_eq hs
  have hz : outstanding e.freeFrames id = 0 := by
    refine Finset.sum_eq_zero fun i _ => ?_
    by_contra hne
    simp only [Frame.holds, ite_eq_right_iff, not_forall] at hne
    obtain ⟨⟨hbusy, hid⟩, -⟩ := hne
    obtain ⟨-, -, r, hr, -⟩ := h.slots i hbusy
    rw [hid, hnone] at hr
    cases hr
  refine (h.set_request hz ⟨Nat.le_refl _, ?_, ?_, ?_⟩).of_eq rfl rfl rfl
  · exact fun hp => absurd rfl hp
  · exact fun _ => ⟨rfl, rfl, hz⟩
  · exact fun _ _ hp => absurd rfl hp

/-- A request may be posted when it has never been or is complete. -/
def MayPost (e : Endpoint) (id : Nat) : Prop :=
  ∀ r ∈ e.requests id, r.posting = 0 ∨ r.complete

theorem counted_startPost {id : Nat} (h : Counted e) (hmay : MayPost e id)
    (hs : startPost e id = some e') : Counted e' := by
  obtain ⟨r, hr, -, rfl⟩ := startPost_eq hs
  have hold := h.requests id r hr
  have hz : outstanding e.freeFrames id = 0 := by
    by_cases hp : r.posting = 0
    · exact (hold.unposted hp).2.2
    · have hcomplete : r.nMessagesRx = r.messages.length := by
        rcases hmay r hr with hp' | hc
        · exact absurd hp' hp
        · exact beq_iff_eq.mp hc
      have := hold.counted hp
      have := hold.next_le
      omega
  refine h.set_request hz ⟨Nat.zero_le _, ?_, ?_, ?_⟩
  · intro _
    dsimp only
    omega
  · intro hp
    simp at hp
  · intro i hi
    simp at hi

/-- A frame is sent from a free slot. -/
theorem outstanding_withFrame (hfree : (e.freeFrames (e.frameSeq &&& FRAME_SEQ_MASK)).isFree)
    (f : Frame) (id : Nat) :
    outstanding (withFrame e f).freeFrames id = outstanding e.freeFrames id + f.holds id := by
  have h := outstanding_update e.freeFrames (mask_lt e.frameSeq) f id
  have hz : (e.freeFrames (e.frameSeq &&& FRAME_SEQ_MASK)).holds id = 0 := by
    simp [Frame.holds, hfree]
  rw [hz, Nat.add_zero] at h
  exact h

theorem counted_sendAcks (h : Counted e) (hs : sendAcks e = some (e', p)) : Counted e' := by
  obtain ⟨hfree, rfl, -⟩ := sendAcks_eq hs
  have hout : ∀ id, outstanding (withFrame e (newFrame e (0, 0) 0 0)).freeFrames id =
      outstanding e.freeFrames id := by
    intro id
    rw [outstanding_withFrame hfree]
    simp [Frame.holds, newFrame]
  refine ⟨?_, ?_⟩
  · intro i hbusy
    simp only [withFrame] at hbusy ⊢
    by_cases heq : i = e.frameSeq &&& FRAME_SEQ_MASK
    · subst heq
      simp [newFrame] at hbusy
    · rw [Function.update_of_ne heq] at hbusy
      obtain ⟨h₁, h₂, h₃⟩ := h.slots i hbusy
      refine ⟨h₁, ?_, ?_⟩ <;> simp only [Function.update_of_ne heq]
      · exact h₂
      · exact h₃
  · intro id r hr
    obtain ⟨h₁, h₂, h₃, h₄⟩ := h.requests id r hr
    refine ⟨h₁, ?_, ?_, h₄⟩ <;> rw [hout id]
    · exact h₂
    · exact h₃

/-- The request has fewer messages than `msg` has values. -/
def FewMessages (e : Endpoint) (id : Nat) : Prop :=
  ∀ r ∈ e.requests id, r.messages.length < 2 ^ 16

theorem counted_postFrame {id : Nat} (h : Counted e) (hfew : FewMessages e id)
    (hs : postFrame P e id = some (e', p)) : Counted e' := by
  obtain ⟨r, count, hr, hlt, hcount, hfree, rfl, -⟩ := postFrame_eq hs
  have hout := outstanding_withFrame hfree (newFrame e (id, r.posting) r.next count)
  have hold := h.requests id r hr
  obtain ⟨hle, hnext⟩ := Request.next_of_short (hfew r hr) hlt (sizeSub P (frameHeaderSize + 2))
  rw [← hcount] at hle hnext
  rw [hnext]
  have hposted : r.posting ≠ 0 := by
    intro hp
    have := (hold.unposted hp).1
    omega
  refine ⟨?_, ?_⟩
  · intro i hbusy
    simp only [withFrame] at hbusy
    by_cases heq : i = e.frameSeq &&& FRAME_SEQ_MASK
    · subst heq
      rw [Function.update_self] at hbusy
      have hne : count ≠ 0 := by simpa [newFrame] using hbusy
      refine ⟨mask_lt _, ?_, ?_⟩ <;> simp only [withFrame, Function.update_self, newFrame]
      · omega
      · exact ⟨_, rfl, rfl⟩
    · rw [Function.update_of_ne heq] at hbusy
      obtain ⟨h₁, h₂, r', hr', hp⟩ := h.slots i hbusy
      refine ⟨h₁, ?_, ?_⟩ <;> simp only [withFrame, Function.update_of_ne heq]
      · exact h₂
      · by_cases hid : (e.freeFrames i).transaction.1 = id
        · rw [hid] at hr' ⊢
          rw [hr, Option.some.injEq] at hr'
          exact ⟨_, Function.update_self .., by rw [hr']; exact hp⟩
        · exact ⟨r', by rw [Function.update_of_ne hid, hr'], hp⟩
  · intro id' r' hreq
    have hsum := hout id'
    dsimp only at hreq
    by_cases heq : id' = id
    · subst heq
      rw [Function.update_self, Option.some.injEq] at hreq
      subst hreq
      have hholds : (newFrame e (id', r.posting) r.next count).holds id' = count := by
        unfold Frame.holds newFrame
        by_cases hz : count = 0 <;> simp [hz]
      rw [hholds] at hsum
      refine ⟨?_, ?_, ?_, ?_⟩
      · dsimp only
        omega
      · intro _
        have := hold.counted hposted
        dsimp only
        omega
      · exact fun hp => absurd hp hposted
      · intro i hi hp
        dsimp only at hi ⊢
        rcases Nat.lt_or_ge i r.next with hlt' | hge
        · obtain ⟨s, hs, hcov⟩ := hold.covered i hlt' hp
          exact ⟨s, List.mem_cons_of_mem _ hs, hcov⟩
        · exact ⟨_, List.mem_cons_self, rfl, rfl, hge, hi⟩
    · rw [Function.update_of_ne heq] at hreq
      have hholds : (newFrame e (id, r.posting) r.next count).holds id' = 0 := by
        simp [Frame.holds, newFrame, Ne.symm heq]
      rw [hholds, Nat.add_zero] at hsum
      obtain ⟨h₁, h₂, h₃, h₄⟩ := h.requests id' r' hreq
      refine ⟨h₁, ?_, ?_, ?_⟩
      · show _ → r'.nMessagesRx + outstanding (withFrame e _).freeFrames id' = _
        rw [hsum]
        exact h₂
      · show _ → _ ∧ _ ∧ outstanding (withFrame e _).freeFrames id' = 0
        rw [hsum]
        exact h₃
      · intro i hi hp
        obtain ⟨s, hs, hcov⟩ := h₄ i hi hp
        exact ⟨s, List.mem_cons_of_mem _ hs, hcov⟩

theorem counted_step {op : Op} {incoming news : List Packet} (h : Counted e)
    (hmay : ∀ x id, op = .startPost x id → MayPost e id)
    (hfew : ∀ x id, op = .postFrame x id → FewMessages e id)
    (hs : SideStep P e incoming e' news op) : Counted e' := by
  cases op with
  | newRequest x id skipped copies flagAddr flagValue => exact counted_newRequest h hs.1
  | store x addr data =>
    obtain ⟨rfl, -⟩ := hs
    exact h.of_eq rfl rfl rfl
  | startPost x id => exact counted_startPost h (hmay x id rfl) hs.1
  | postFrame x id =>
    obtain ⟨p, he, -⟩ := hs
    exact counted_postFrame h (hfew x id rfl) he
  | sendAcks x =>
    obtain ⟨p, he, -⟩ := hs
    exact counted_sendAcks h he
  | resend x slot =>
    obtain ⟨p, -, rfl, -⟩ := hs
    exact h
  | deliver x p => exact counted_processFrame h hs.2.1

/-! ## What is acknowledged has been received -/

/-- Every number that is queued or was put on the wire as acknowledged has been received, and
frames are counted without wrapping. -/
structure AcksOk (e : Endpoint) (sent : List Packet) : Prop where
  queue : ∀ n ∈ e.acks, Accepted e n
  slots : ∀ i, (e.freeFrames i).isFree = false → (e.freeFrames i).uid < e.frameCount ∧
    ∀ n, (e.freeFrames i).ackStart ≤ n → n < (e.freeFrames i).ackStart + (e.freeFrames i).ackCount →
      Accepted e n
  packets : ∀ p ∈ sent, p.uid < e.frameCount ∧
    ∀ n, p.ackStart ≤ n → n < p.ackStart + p.ackCount → Accepted e n
  small : e.frameCount < 2 ^ 16

theorem acksOk_new (memory : Nat → UInt8) (n : Nat) : AcksOk (Endpoint.new memory n) [] where
  queue := by simp [Endpoint.new]
  slots := fun i hi => by simp [Endpoint.new] at hi
  packets := by simp
  small := by simp [Endpoint.new]

theorem Accepted.mono {n : Nat} (h : Accepted e n) (hsub : e.log.accepted ⊆ e'.log.accepted) :
    Accepted e' n := by
  obtain ⟨u, hu, hn⟩ := h
  exact ⟨u, hsub hu, hn⟩

/-- Slots may be given free and more frames accepted. -/
theorem AcksOk.of_slots {sent : List Packet} (h : AcksOk e sent)
    (hq : ∀ n ∈ e'.acks, Accepted e' n) (hsub : e.log.accepted ⊆ e'.log.accepted)
    (hslots : ∀ i, (e'.freeFrames i).isFree = false → e'.freeFrames i = e.freeFrames i)
    (hcount : e'.frameCount = e.frameCount) : AcksOk e' sent := by
  refine ⟨hq, ?_, ?_, ?_⟩
  · intro i hi
    have heq := hslots i hi
    rw [heq] at hi ⊢
    rw [hcount]
    obtain ⟨h₁, h₂⟩ := h.slots i hi
    exact ⟨h₁, fun n hle hlt => (h₂ n hle hlt).mono hsub⟩
  · intro p hp
    rw [hcount]
    obtain ⟨h₁, h₂⟩ := h.packets p hp
    exact ⟨h₁, fun n hle hlt => (h₂ n hle hlt).mono hsub⟩
  · rw [hcount]
    exact h.small

/-- The queue of acknowledgements and the log of accepted frames grow together. -/
theorem processFrame_acks (h : processFrame e p = some e') :
    (e'.acks = e.acks ∧ e'.log.accepted = e.log.accepted) ∨
    (e'.acks = e.acks ++ [p.frameSeq] ∧ e'.log.accepted = p.uid :: e.log.accepted) := by
  obtain ⟨frames, requests, released, hrec⟩ := recordFrame_eq e p
  rcases processFrame_cases h with ⟨-, rfl⟩ | ⟨-, -, rfl⟩ | ⟨-, -, h⟩
  · exact Or.inr ⟨rfl, rfl⟩
  · rw [hrec]
    exact Or.inl ⟨rfl, rfl⟩
  · obtain ⟨memory, records, inPlay, events, rfl⟩ := processMsgs_eq _ h
    rw [hrec]
    exact Or.inr ⟨rfl, rfl⟩

/-- A new frame takes its acknowledgements from an honest queue. -/
theorem acksOk_withFrame {sent : List Packet} {tr : Nat × Nat} {start count : Nat}
    (h : AcksOk e sent) (hh : HonestQueue e) (hsmall : e.frameCount + 1 < 2 ^ 16) :
    AcksOk (withFrame e (newFrame e tr start count)) sent := by
  obtain ⟨hrange, hrest⟩ := takeAcks_spec h.queue hh
  refine ⟨fun n hn => h.queue n (hrest n hn), ?_, ?_, hsmall⟩
  · intro i hi
    simp only [withFrame] at hi ⊢
    by_cases heq : i = e.frameSeq &&& FRAME_SEQ_MASK
    · subst heq
      rw [Function.update_self]
      exact ⟨Nat.lt_succ_self _, hrange⟩
    · rw [Function.update_of_ne heq] at hi ⊢
      obtain ⟨h₁, h₂⟩ := h.slots i hi
      exact ⟨Nat.lt_succ_of_lt h₁, h₂⟩
  · intro p hp
    obtain ⟨h₁, h₂⟩ := h.packets p hp
    exact ⟨Nat.lt_succ_of_lt h₁, h₂⟩

theorem AcksOk.send {sent : List Packet} (h : AcksOk e sent) (hu : p.uid < e.frameCount)
    (hp : ∀ n, p.ackStart ≤ n → n < p.ackStart + p.ackCount → Accepted e n) :
    AcksOk e ([p] ++ sent) := by
  refine ⟨h.queue, h.slots, ?_, h.small⟩
  intro q hq
  rcases List.mem_cons.mp hq with rfl | hq
  · exact ⟨hu, hp⟩
  · exact h.packets q hq

/-- The condition on a step: the queue a frame takes its acknowledgements from is honest, fewer
than 65536 frames are sent, and a request is posted only when it may be and has fewer than 65536
messages. -/
def HonestAcks (w : World) : Op → Prop
  | .postFrame x id =>
    (w.ends x).frameCount + 1 < 2 ^ 16 ∧ HonestQueue (w.ends x) ∧ FewMessages (w.ends x) id
  | .sendAcks x => (w.ends x).frameCount + 1 < 2 ^ 16 ∧ HonestQueue (w.ends x)
  | .startPost x id => MayPost (w.ends x) id
  | _ => True

theorem acksOk_step {op : Op} {incoming news : List Packet} (hok : HonestAcks w op)
    (h : AcksOk (w.ends op.side) (w.sent op.side))
    (hnum : ∀ p ∈ incoming, p.frameSeq = seqOf p.uid)
    (hs : SideStep P (w.ends op.side) incoming e' news op) :
    AcksOk e' (news ++ w.sent op.side) := by
  cases op with
  | newRequest x id skipped copies flagAddr flagValue =>
    obtain ⟨he, rfl⟩ := hs
    obtain ⟨tid, -, rfl⟩ := newRequest_eq he
    exact h.of_slots h.queue (List.Subset.refl _) (fun _ _ => rfl) rfl
  | store x addr data =>
    obtain ⟨rfl, rfl⟩ := hs
    exact h.of_slots h.queue (List.Subset.refl _) (fun _ _ => rfl) rfl
  | startPost x id =>
    obtain ⟨he, rfl⟩ := hs
    obtain ⟨r, -, -, rfl⟩ := startPost_eq he
    exact h.of_slots h.queue (List.Subset.refl _) (fun _ _ => rfl) rfl
  | postFrame x id =>
    obtain ⟨p, he, rfl⟩ := hs
    obtain ⟨hsmall, hh, -⟩ := hok
    have hrange := (takeAcks_spec h.queue hh).1
    obtain ⟨r, count, -, -, -, -, rfl, hp⟩ := postFrame_eq he
    have hframe : AcksOk (withFrame (w.ends x) (newFrame (w.ends x) (id, r.posting) r.next count))
        (w.sent x) := acksOk_withFrame h hh hsmall
    refine AcksOk.send
      (hframe.of_slots hframe.queue (List.Subset.refl _) (fun _ _ => rfl) rfl) ?_ ?_
    · rw [hp]
      exact Nat.lt_succ_self _
    · rw [hp]
      exact hrange
  | sendAcks x =>
    obtain ⟨p, he, rfl⟩ := hs
    obtain ⟨hsmall, hh⟩ := hok
    have hrange := (takeAcks_spec h.queue hh).1
    obtain ⟨-, rfl, hp⟩ := sendAcks_eq he
    refine AcksOk.send (acksOk_withFrame h hh hsmall) ?_ ?_
    · rw [hp]
      exact Nat.lt_succ_self _
    · rw [hp]
      exact hrange
  | resend x slot =>
    obtain ⟨p, he, rfl, rfl⟩ := hs
    obtain ⟨hbusy, rfl⟩ := resend_eq he
    obtain ⟨h₁, h₂⟩ := h.slots slot hbusy
    exact h.send h₁ h₂
  | deliver x p =>
    obtain ⟨hmem, he, rfl⟩ := hs
    obtain ⟨-, hcount, hslots⟩ := processFrame_sender he
    rcases processFrame_acks he with ⟨hq, ha⟩ | ⟨hq, ha⟩
    · have hsub : (w.ends x).log.accepted ⊆ e'.log.accepted := by
        rw [ha]
        exact List.Subset.refl _
      refine h.of_slots ?_ hsub hslots hcount
      rw [hq]
      exact fun n hn => (h.queue n hn).mono hsub
    · have hsub : (w.ends x).log.accepted ⊆ e'.log.accepted := by
        rw [ha]
        exact List.subset_cons_self _ _
      refine h.of_slots ?_ hsub hslots hcount
      intro n hn
      rw [hq] at hn
      rcases List.mem_append.mp hn with hn | hn
      · exact (h.queue n hn).mono hsub
      · rw [List.mem_singleton] at hn
        refine ⟨p.uid, ?_, ?_⟩
        · rw [ha]
          exact List.mem_cons_self
        · rw [hn, hnum p hmem]

/-! ## What is released has been received -/

/-- The frames of an endpoint whose acknowledgement the peer has queued are `acked`: every frame
that was released is one of them, and every frame with messages is one of them or still in use. -/
structure Released (acked : List Nat) (e : Endpoint) : Prop where
  released : ∀ u ∈ e.log.released, u ∈ acked
  issued : ∀ s ∈ e.log.issued, 0 < s.msgCount → s.uid ∈ acked ∨
    ∃ i, (e.freeFrames i).isFree = false ∧ (e.freeFrames i).uid = s.uid ∧
      (e.freeFrames i).transaction.1 = s.request
  bounded : ∀ u ∈ acked, u < e.frameCount

variable {acked acked' : List Nat}

/-- Below 65535 frames have different numbers. -/
theorem seqOf_inj {u v : Nat} (hu : u + 1 < 2 ^ 16) (hv : v + 1 < 2 ^ 16)
    (h : seqOf u = seqOf v) : u = v := by
  unfold seqOf at h
  rw [Nat.mod_eq_of_lt hu, Nat.mod_eq_of_lt hv] at h
  exact Nat.succ.inj h

theorem Released.of_eq (h : Released acked e) (hf : e'.freeFrames = e.freeFrames)
    (hr : e'.log.released = e.log.released) (hi : e'.log.issued = e.log.issued)
    (hc : e'.frameCount = e.frameCount) : Released acked e' := by
  refine ⟨?_, ?_, ?_⟩
  · rw [hr]
    exact h.released
  · rw [hi, hf]
    exact h.issued
  · rw [hc]
    exact h.bounded

/-- The peer accepts more frames. -/
theorem Released.mono (h : Released acked e) (hsub : acked ⊆ acked')
    (hnew : ∀ u ∈ acked', u ∈ acked ∨ u < e.frameCount) : Released acked' e := by
  refine ⟨fun u hu => hsub (h.released u hu), ?_, ?_⟩
  · intro s hs hpos
    rcases h.issued s hs hpos with hu | hslot
    · exact Or.inl (hsub hu)
    · exact Or.inr hslot
  · intro u hu
    rcases hnew u hu with hu | hu
    · exact h.bounded u hu
    · exact hu

theorem released_releaseFrame (h : Released acked e) (seq : Nat)
    (hseq : ∀ i, (e.freeFrames i).isFree = false → (e.freeFrames i).frameSeq = seq →
      (e.freeFrames i).uid ∈ acked) : Released acked (releaseFrame e seq) := by
  unfold releaseFrame
  dsimp only
  split
  · next hc =>
    have hbusy : (e.freeFrames (seq &&& FRAME_SEQ_MASK)).isFree = false := by simpa using hc.1
    have hin := hseq _ hbusy hc.2
    refine ⟨?_, ?_, h.bounded⟩
    · intro u hu
      rcases List.mem_cons.mp hu with rfl | hu
      · exact hin
      · exact h.released u hu
    · intro s hs hpos
      rcases h.issued s hs hpos with hu | ⟨i, hfree, hu, htr⟩
      · exact Or.inl hu
      · by_cases heq : i = seq &&& FRAME_SEQ_MASK
        · subst heq
          rw [← hu]
          exact Or.inl hin
        · refine Or.inr ⟨i, ?_⟩
          simp only [Function.update_of_ne heq]
          exact ⟨hfree, hu, htr⟩
  · exact h

/-- A range of acknowledgements releases frames that the peer accepted. -/
theorem released_ack (h : Released acked e) (count start : Nat)
    (hrange : ∀ i, (e.freeFrames i).isFree = false → start ≤ (e.freeFrames i).frameSeq →
      (e.freeFrames i).frameSeq < start + count → (e.freeFrames i).uid ∈ acked) :
    Released acked (ack e count start) := by
  induction count with
  | zero => exact h
  | succ n ih =>
    have hslots := ack_slots e n start
    have hprev := ih fun i hi hle hlt => hrange i hi hle (Nat.lt_succ_of_lt hlt)
    unfold ack at hprev hslots ⊢
    rw [List.range_succ, List.foldl_append, List.foldl_cons, List.foldl_nil]
    refine released_releaseFrame hprev _ ?_
    intro i hi hseq
    have heq := hslots i hi
    rw [heq] at hi hseq ⊢
    exact hrange i hi (by omega) (by omega)

theorem released_processFrame (h : Released acked e)
    (hrange : ∀ i, (e.freeFrames i).isFree = false → p.ackStart ≤ (e.freeFrames i).frameSeq →
      (e.freeFrames i).frameSeq < p.ackStart + p.ackCount → (e.freeFrames i).uid ∈ acked)
    (hs : processFrame e p = some e') : Released acked e' := by
  have hrec : Released acked (recordFrame e p) := by
    unfold recordFrame
    dsimp only
    split
    · exact h.of_eq rfl rfl rfl rfl
    · refine released_ack ?_ _ _ hrange
      exact h.of_eq rfl rfl rfl rfl
  rcases processFrame_cases hs with ⟨-, rfl⟩ | ⟨-, -, rfl⟩ | ⟨-, -, hs⟩
  · exact h.of_eq rfl rfl rfl rfl
  · exact hrec
  · obtain ⟨memory, records, inPlay, events, rfl⟩ := processMsgs_eq _ hs
    exact hrec.of_eq rfl rfl rfl rfl

/-- A new frame takes a free slot. -/
theorem released_withFrame {tr : Nat × Nat} {start count : Nat} (h : Released acked e)
    (hfree : (e.freeFrames (e.frameSeq &&& FRAME_SEQ_MASK)).isFree) :
    Released acked (withFrame e (newFrame e tr start count)) := by
  refine ⟨h.released, ?_, fun u hu => Nat.lt_succ_of_lt (h.bounded u hu)⟩
  intro s hs hpos
  rcases h.issued s hs hpos with hu | ⟨i, hbusy, hu, htr⟩
  · exact Or.inl hu
  · have hne : i ≠ e.frameSeq &&& FRAME_SEQ_MASK := by
      rintro rfl
      rw [hfree] at hbusy
      cases hbusy
    refine Or.inr ⟨i, ?_⟩
    simp only [withFrame, Function.update_of_ne hne]
    exact ⟨hbusy, hu, htr⟩

theorem released_postFrame {id : Nat} (h : Released acked e)
    (hs : postFrame P e id = some (e', p)) : Released acked e' := by
  obtain ⟨r, count, -, -, -, hfree, rfl, -⟩ := postFrame_eq hs
  have hframe : Released acked (withFrame e (newFrame e (id, r.posting) r.next count)) :=
    released_withFrame h hfree
  refine ⟨h.released, ?_, hframe.bounded⟩
  intro s hs hpos
  rcases List.mem_cons.mp hs with rfl | hs
  · refine Or.inr ⟨e.frameSeq &&& FRAME_SEQ_MASK, ?_⟩
    have hne : count ≠ 0 := Nat.ne_of_gt hpos
    simp [withFrame, newFrame, hne]
  · exact hframe.issued s hs hpos

theorem released_step {op : Op} {incoming news : List Packet} (h : Released acked e)
    (hrange : ∀ p ∈ incoming, ∀ i, (e.freeFrames i).isFree = false →
      p.ackStart ≤ (e.freeFrames i).frameSeq →
      (e.freeFrames i).frameSeq < p.ackStart + p.ackCount → (e.freeFrames i).uid ∈ acked)
    (hs : SideStep P e incoming e' news op) : Released acked e' := by
  rcases hs.cases with ⟨hq, -⟩ | ⟨slot, p, -, rfl, -⟩ | ⟨x, id, p, -, he, -⟩ | ⟨x, p, -, he, -⟩ |
    ⟨x, p, -, hmem, he, -⟩
  · refine h.of_eq hq.freeFrames ?_ ?_ hq.frameCount
    · rw [hq.log]
    · rw [hq.log]
  · exact h
  · exact released_postFrame h he
  · obtain ⟨hfree, rfl, -⟩ := sendAcks_eq he
    exact released_withFrame h hfree
  · exact released_processFrame h (hrange p hmem) he

/-! ## Runs -/

variable {memory : Side → Nat → UInt8} {framesInPlay : Side → Nat} {ok : World → Op → Prop}

theorem counted_of_reach (h : Reach (step P) HonestAcks (World.init memory framesInPlay) w)
    (x : Side) : Counted (w.ends x) := by
  refine side_invariant (J := fun e _ => Counted e) h (fun _ => counted_new _ _) ?_ x
  intro w op e' news _ hok hJ hside
  refine counted_step hJ ?_ ?_ hside
  · rintro y id rfl
    exact hok
  · rintro y id rfl
    exact hok.2.2

theorem acksOk_of_reach (h : Reach (step P) HonestAcks (World.init memory framesInPlay) w)
    (x : Side) : AcksOk (w.ends x) (w.sent x) := by
  refine side_invariant h (fun _ => acksOk_new _ _) ?_ x
  intro w op e' news hr hok hJ hside
  exact acksOk_step hok hJ (numbered_of_reach hr op.side.peer).packets hside

/-- The frames a step accepts come from packets of the peer. -/
theorem accepted_step {op : Op} {incoming news : List Packet}
    (hs : SideStep P e incoming e' news op) :
    e.log.accepted ⊆ e'.log.accepted ∧
    ∀ u ∈ e'.log.accepted, u ∈ e.log.accepted ∨ ∃ p ∈ incoming, p.uid = u := by
  have hsame : e'.log.accepted = e.log.accepted → e.log.accepted ⊆ e'.log.accepted ∧
      ∀ u ∈ e'.log.accepted, u ∈ e.log.accepted ∨ ∃ p ∈ incoming, p.uid = u := by
    intro heq
    rw [heq]
    exact ⟨List.Subset.refl _, fun u hu => Or.inl hu⟩
  rcases hs.cases with ⟨hq, -⟩ | ⟨slot, p, -, rfl, -⟩ | ⟨x, id, p, -, he, -⟩ | ⟨x, p, -, he, -⟩ |
    ⟨x, p, -, hmem, he, -⟩
  · refine hsame ?_
    rw [hq.log]
  · exact hsame rfl
  · obtain ⟨r, count, -, -, -, -, rfl, -⟩ := postFrame_eq he
    exact hsame rfl
  · obtain ⟨-, rfl, -⟩ := sendAcks_eq he
    exact hsame rfl
  · rcases processFrame_acks he with ⟨-, ha⟩ | ⟨-, ha⟩
    · exact hsame ha
    · rw [ha]
      refine ⟨List.subset_cons_self _ _, ?_⟩
      intro u hu
      rcases List.mem_cons.mp hu with rfl | hu
      · exact Or.inr ⟨p, hmem, rfl⟩
      · exact Or.inl hu

/-- The numbers of a packet of the peer name frames that the peer accepted. -/
theorem range_accepted {sent incoming : List Packet} {peer : Endpoint} (hnum : Numbered e sent)
    (hacks : AcksOk e sent) (hpeer : AcksOk peer incoming)
    (hrel : Released peer.log.accepted e) (hp : p ∈ incoming) (i : Nat)
    (hbusy : (e.freeFrames i).isFree = false) (hle : p.ackStart ≤ (e.freeFrames i).frameSeq)
    (hlt : (e.freeFrames i).frameSeq < p.ackStart + p.ackCount) :
    (e.freeFrames i).uid ∈ peer.log.accepted := by
  obtain ⟨u, hu, hseq⟩ := (hpeer.packets p hp).2 _ hle hlt
  have hsmall := hacks.small
  have hb := hrel.bounded u hu
  have hc := (hacks.slots i hbusy).1
  rw [hnum.slots i hbusy] at hseq
  have heq := seqOf_inj (by omega) (by omega) hseq
  exact heq ▸ hu

theorem released_of_reach (h : Reach (step P) HonestAcks (World.init memory framesInPlay) w)
    (x : Side) : Released (w.ends x.peer).log.accepted (w.ends x) := by
  refine h.induct (P := fun w => ∀ x, Released (w.ends x.peer).log.accepted (w.ends x)) ?_ ?_ x
  · intro x
    refine ⟨?_, ?_, ?_⟩ <;> simp [World.init, Endpoint.new]
  · intro w op w' hr hJ hok hs y
    obtain ⟨e', news, hside, rfl⟩ := step_side hs
    rcases Side.eq_or_eq_peer op.side y with rfl | rfl
    · simp only [Function.update_self, Function.update_of_ne (Side.peer_ne _)]
      refine released_step (hJ op.side) ?_ hside
      intro p hp
      exact range_accepted (numbered_of_reach hr _) (acksOk_of_reach hr _)
        (acksOk_of_reach hr op.side.peer) (hJ _) hp
    · simp only [Side.peer_peer, Function.update_self, Function.update_of_ne (Side.peer_ne _)]
      have hpeer := hJ op.side.peer
      rw [Side.peer_peer] at hpeer
      obtain ⟨hsub, hnew⟩ := accepted_step hside
      refine hpeer.mono hsub ?_
      intro u hu
      rcases hnew u hu with hu | ⟨p, hp, rfl⟩
      · exact Or.inl hu
      · exact Or.inr ((acksOk_of_reach hr op.side.peer).packets p hp).1

/-- Nothing is acknowledged falsely: a frame is released only after the peer accepted it, every
number of a range on the wire was accepted, and when a request reports success the peer has accepted
all its frames, which carry all its messages. -/
structure NoFalseAck (w : World) : Prop where
  released : ∀ x, ∀ u ∈ (w.ends x).log.released, u ∈ (w.ends x.peer).log.accepted
  ranges : ∀ x, ∀ p ∈ w.sent x, ∀ n, p.ackStart ≤ n → n < p.ackStart + p.ackCount →
    Accepted (w.ends x) n
  completed : ∀ x id r, (w.ends x).requests id = some r → r.getStatus = .completeSuccess →
    (∀ s ∈ (w.ends x).log.issued, s.request = id → 0 < s.msgCount →
      s.uid ∈ (w.ends x.peer).log.accepted) ∧
    ∀ i < r.messages.length, ∃ s ∈ (w.ends x).log.issued, s.request = id ∧
      s.posting = r.posting ∧ s.msgStart ≤ i ∧ i < s.msgStart + s.msgCount

theorem Request.getStatus_eq_iff {r : Request} :
    r.getStatus = .completeSuccess ↔ r.nMessagesRx = r.messages.length := by
  unfold Request.getStatus Request.complete
  by_cases h : r.nMessagesRx = r.messages.length <;> simp [h]

/-- A complete request has no outstanding messages. -/
theorem RequestOk.complete {id : Nat} {r : Request} (h : RequestOk e id r)
    (hc : r.nMessagesRx = r.messages.length) :
    r.next = r.messages.length ∧ outstanding e.freeFrames id = 0 := by
  by_cases hp : r.posting = 0
  · have := h.unposted hp
    omega
  · have := h.counted hp
    have := h.next_le
    omega

/-- **No false acknowledgement** in a run in which frames take their acknowledgements from honest
queues. -/
theorem noFalseAck_of_honestAcks
    (h : Reach (step P) HonestAcks (World.init memory framesInPlay) w) : NoFalseAck w := by
  refine ⟨fun x => (released_of_reach h x).released,
    fun x p hp => ((acksOk_of_reach h x).packets p hp).2, ?_⟩
  intro x id r hr hc
  have hcounted := counted_of_reach h x
  have hold := hcounted.requests id r hr
  rw [Request.getStatus_eq_iff] at hc
  obtain ⟨hnext, hz⟩ := hold.complete hc
  refine ⟨?_, ?_⟩
  · intro s hs hreq hpos
    rcases (released_of_reach h x).issued s hs hpos with hu | ⟨k, hbusy, -, htr⟩
    · exact hu
    · -- a frame in use would hold messages of the request back
      exact absurd (htr.trans hreq) (hcounted.transaction_ne hz hbusy)
  · intro i hi
    have hposted : r.posting ≠ 0 := by
      intro hp
      have := (hold.unposted hp).2.1
      omega
    exact hold.covered i (by omega) hposted

/-- A queue of fewer than four acknowledgements is honest. -/
theorem honestQueue_of_short (h : e.acks.length < 4) : HonestQueue e := by
  intro a y k rest heq
  rw [heq] at h
  simp only [List.length_cons, List.length_append, List.length_replicate] at h
  omega

/-- The condition on a step that fewer than 65536 frames are sent. -/
def FewFrames (w : World) : Op → Prop
  | .postFrame x _ | .sendAcks x => (w.ends x).frameCount + 1 < 2 ^ 16
  | _ => True

instance (w : World) : (op : Op) → Decidable (FewFrames w op)
  | .postFrame x _ | .sendAcks x =>
    inferInstanceAs (Decidable ((w.ends x).frameCount + 1 < 2 ^ 16))
  | .newRequest .. | .store .. | .startPost .. | .resend .. | .deliver .. => .isTrue trivial

/-- Requests have few messages and are posted once, and frames take acknowledgements from short
queues. -/
def ShortQueues (w : World) : Op → Prop
  | .postFrame x id =>
    (w.ends x).frameCount + 1 < 2 ^ 16 ∧ (w.ends x).acks.length < 4 ∧
      ∀ r ∈ (w.ends x).requests id, r.messages.length < 2 ^ 16
  | .sendAcks x => (w.ends x).frameCount + 1 < 2 ^ 16 ∧ (w.ends x).acks.length < 4
  | .startPost x id => ∀ r ∈ (w.ends x).requests id, r.posting = 0
  | _ => True

instance (w : World) : (op : Op) → Decidable (ShortQueues w op)
  | .postFrame x id => inferInstanceAs
      (Decidable ((w.ends x).frameCount + 1 < 2 ^ 16 ∧ (w.ends x).acks.length < 4 ∧
        ∀ r ∈ (w.ends x).requests id, r.messages.length < 2 ^ 16))
  | .sendAcks x => inferInstanceAs
      (Decidable ((w.ends x).frameCount + 1 < 2 ^ 16 ∧ (w.ends x).acks.length < 4))
  | .startPost x id => inferInstanceAs
      (Decidable (∀ r ∈ (w.ends x).requests id, r.posting = 0))
  | .newRequest .. | .store .. | .resend .. | .deliver .. => .isTrue trivial

theorem ShortQueues.honest {op : Op} (h : ShortQueues w op) : HonestAcks w op := by
  cases op with
  | postFrame x id => exact ⟨h.1, honestQueue_of_short h.2.1, h.2.2⟩
  | sendAcks x => exact ⟨h.1, honestQueue_of_short h.2⟩
  | startPost x id => exact fun r hr => Or.inl (h r hr)
  | _ => trivial

/-- Two flags are sent, and one range of numbers acknowledges both. -/
theorem noFalseAck_after_range : ∃ w ∈ exec (checked (step 512) ShortQueues) quiet
      [.newRequest .near 0 0 [] 128 1, .newRequest .near 1 0 [] 132 1, .startPost .near 0,
       .postFrame .near 0, .startPost .near 1, .postFrame .near 1,
       .deliver .far ⟨0, 1, 0, 0, [⟨⟨0, 1, 0⟩, 1, 128, 1, 0, 0, []⟩]⟩,
       .deliver .far ⟨1, 2, 0, 0, [⟨⟨1, 1, 0⟩, 2, 132, 1, 0, 0, []⟩]⟩,
       .sendAcks .far, .deliver .near ⟨0, 1, 1, 2, []⟩],
    (w.ends .near).log.released = [1, 0] ∧ NoFalseAck w := by
  have hrun : ∃ w ∈ exec (checked (step 512) ShortQueues) quiet
      [.newRequest .near 0 0 [] 128 1, .newRequest .near 1 0 [] 132 1, .startPost .near 0,
       .postFrame .near 0, .startPost .near 1, .postFrame .near 1,
       .deliver .far ⟨0, 1, 0, 0, [⟨⟨0, 1, 0⟩, 1, 128, 1, 0, 0, []⟩]⟩,
       .deliver .far ⟨1, 2, 0, 0, [⟨⟨1, 1, 0⟩, 2, 132, 1, 0, 0, []⟩]⟩,
       .sendAcks .far, .deliver .near ⟨0, 1, 1, 2, []⟩],
      (w.ends .near).log.released = [1, 0] := by decide +kernel
  obtain ⟨w, hw, hreleased⟩ := hrun
  have hreach := (reach_of_exec_checked _ hw).mono fun _ _ => ShortQueues.honest
  exact ⟨w, hw, hreleased, noFalseAck_of_honestAcks hreach⟩

/-- Frames 1, 2, 4 and again 2 arrive: the queue 1, 2, 4, 2 becomes the range 1 to 3, and frame 3,
which was lost, is released. -/
theorem lost_frame_released : ¬ ∀ (P : Nat) (memory : Side → Nat → UInt8)
    (framesInPlay : Side → Nat) (w : World),
    Reach (step P) FewFrames (World.init memory framesInPlay) w → NoFalseAck w := by
  intro hall
  have hrun : ∃ w ∈ exec (checked (step 512) FewFrames) quiet
      [.newRequest .near 0 0 [] 128 1, .newRequest .near 1 0 [] 132 1,
       .newRequest .near 2 0 [] 136 1, .newRequest .near 3 0 [] 140 1,
       .startPost .near 0, .postFrame .near 0, .startPost .near 1, .postFrame .near 1,
       .startPost .near 2, .postFrame .near 2, .startPost .near 3, .postFrame .near 3,
       .deliver .far ⟨0, 1, 0, 0, [⟨⟨0, 1, 0⟩, 1, 128, 1, 0, 0, []⟩]⟩,
       .deliver .far ⟨1, 2, 0, 0, [⟨⟨1, 1, 0⟩, 2, 132, 1, 0, 0, []⟩]⟩,
       .deliver .far ⟨3, 4, 0, 0, [⟨⟨3, 1, 0⟩, 4, 140, 1, 0, 0, []⟩]⟩,
       .deliver .far ⟨1, 2, 0, 0, [⟨⟨1, 1, 0⟩, 2, 132, 1, 0, 0, []⟩]⟩,
       .sendAcks .far, .deliver .near ⟨0, 1, 1, 3, []⟩],
      2 ∈ (w.ends .near).log.released ∧ 2 ∉ (w.ends .far).log.accepted := by decide +kernel
  obtain ⟨w, hw, hreleased, hlost⟩ := hrun
  exact hlost ((hall 512 _ _ w (reach_of_exec_checked _ hw)).released .near 2 hreleased)

end OpenCpi.Datagram
