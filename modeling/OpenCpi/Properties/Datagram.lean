import OpenCpi.Datagram.Xfer

/-!
# What the steps of a datagram endpoint change, and at-most-once processing

The first part says for each function which fields it leaves alone. The second part is about the
history of frame numbers. It has one entry for each value of the low 8 bits, so a copy of a frame
that is still in the network when a later frame with the same low bits has arrived is taken for a
new one. In a run in which no such copy is delivered, no frame is processed twice.
-/

namespace OpenCpi.Datagram

open Infra

variable {e e' : Endpoint} {w w' w₀ : World} {x : Side} {p : Packet} {f : Frame} {P : Nat}

/-! ## Frames of the functions -/

theorem releaseFrame_eq (e : Endpoint) (seq : Nat) : ∃ frames requests released,
    releaseFrame e seq = { e with freeFrames := frames, requests,
                                  log := { e.log with released } } := by
  unfold releaseFrame
  dsimp only
  split
  · exact ⟨_, _, _, rfl⟩
  · exact ⟨e.freeFrames, e.requests, e.log.released, rfl⟩

/-- Acknowledgements change the slots, the counts of the requests and nothing else. -/
theorem ack_eq (e : Endpoint) (count start : Nat) : ∃ frames requests released,
    ack e count start = { e with freeFrames := frames, requests,
                                 log := { e.log with released } } := by
  unfold ack
  induction count with
  | zero => exact ⟨e.freeFrames, e.requests, e.log.released, rfl⟩
  | succ n ih =>
    obtain ⟨frames, requests, released, heq⟩ := ih
    rw [List.range_succ, List.foldl_append, heq, List.foldl_cons, List.foldl_nil]
    obtain ⟨frames', requests', released', heq'⟩ := releaseFrame_eq
      { e with freeFrames := frames, requests, log := { e.log with released } } (start + n)
    exact ⟨frames', requests', released', heq'⟩

theorem processMsg_eq {m : Msg} (h : processMsg e m = some e') : ∃ memory records inPlay events,
    e' = { e with memory, msgTransactionRecord := records, framesInPlay := inPlay,
                  log := { e.log with events } } := by
  obtain ⟨memory, events, hcopy⟩ : ∃ memory events,
      e.copyData m = { e with memory, log := { e.log with events } } := by
    unfold Endpoint.copyData
    split
    · exact ⟨_, _, rfl⟩
    · exact ⟨e.memory, e.log.events, rfl⟩
  unfold processMsg at h
  dsimp only at h
  rw [hcopy] at h
  split at h
  · cases h
  · split at h
    · rw [← Option.some.inj h]
      exact ⟨_, _, _, _, rfl⟩
    · rw [← Option.some.inj h]
      exact ⟨_, _, _, _, rfl⟩

/-- The messages of a frame change the memory, the transaction records and nothing else. -/
theorem processMsgs_eq : ∀ (msgs : List Msg) {e : Endpoint},
    msgs.foldlM processMsg e = some e' → ∃ memory records inPlay events,
      e' = { e with memory, msgTransactionRecord := records, framesInPlay := inPlay,
                    log := { e.log with events } }
  | [], e, h => by
    rw [List.foldlM_nil] at h
    rw [← Option.some.inj h]
    exact ⟨e.memory, e.msgTransactionRecord, e.framesInPlay, e.log.events, rfl⟩
  | m :: rest, e, h => by
    rw [List.foldlM_cons] at h
    obtain ⟨e₁, h₁, h₂⟩ := Option.bind_eq_some_iff.mp h
    obtain ⟨mem₁, rec₁, n₁, ev₁, rfl⟩ := processMsg_eq h₁
    obtain ⟨mem₂, rec₂, n₂, ev₂, rfl⟩ := processMsgs_eq rest h₂
    exact ⟨mem₂, rec₂, n₂, ev₂, rfl⟩

theorem recordFrame_eq (e : Endpoint) (p : Packet) : ∃ frames requests released,
    recordFrame e p =
      { e with
        frameSeqRecord := Function.update e.frameSeqRecord (p.frameSeq &&& MAX_FRAME_HISTORY)
          { e.frameSeqRecord (p.frameSeq &&& MAX_FRAME_HISTORY) with id := p.frameSeq }
        freeFrames := frames
        requests
        log := { e.log with recorded := p.uid :: e.log.recorded, released } } := by
  unfold recordFrame
  dsimp only
  split
  · exact ⟨e.freeFrames, e.requests, e.log.released, rfl⟩
  · exact ack_eq _ p.ackCount p.ackStart

/-- The three outcomes of `processFrame`. -/
theorem processFrame_cases (h : processFrame e p = some e') :
    ((e.frameSeqRecord (p.frameSeq &&& MAX_FRAME_HISTORY)).id = p.frameSeq ∧
      e' = addFrameAck e p) ∨
    ((e.frameSeqRecord (p.frameSeq &&& MAX_FRAME_HISTORY)).id ≠ p.frameSeq ∧ p.msgs = [] ∧
      e' = recordFrame e p) ∨
    ((e.frameSeqRecord (p.frameSeq &&& MAX_FRAME_HISTORY)).id ≠ p.frameSeq ∧ p.msgs ≠ [] ∧
      p.msgs.foldlM processMsg (acceptFrame (recordFrame e p) p) = some e') := by
  unfold processFrame at h
  dsimp only at h
  split at h
  · next hid =>
    split at h
    · exact Or.inl ⟨hid, (Option.some.inj h).symm⟩
    · cases h
  · next hid =>
    split at h
    · next hm => exact Or.inr (Or.inl ⟨hid, List.isEmpty_iff.mp hm, (Option.some.inj h).symm⟩)
    · next hm => exact Or.inr (Or.inr ⟨hid, fun hnil => hm (List.isEmpty_iff.mpr hnil), h⟩)

/-- The frame that `getFrame` makes, once it has its messages: it has the next number and takes
acknowledgements from the queue. Without messages its slot is given free at once. -/
def newFrame (e : Endpoint) (transaction : Nat × Nat) (msgStart msgCount : Nat) : Frame :=
  { isFree := msgCount == 0, uid := e.frameCount, frameSeq := e.frameSeq,
    ackStart := (takeAcks e.acks).1.1, ackCount := (takeAcks e.acks).1.2, msgStart, msgCount,
    transaction }

/-- The endpoint that has sent the frame. -/
def withFrame (e : Endpoint) (f : Frame) : Endpoint :=
  { e with
    frameSeq := (e.frameSeq + 1) % 2 ^ 16
    frameCount := e.frameCount + 1
    acks := (takeAcks e.acks).2
    freeFrames := Function.update e.freeFrames (e.frameSeq &&& FRAME_SEQ_MASK) f }

theorem getFrame_eq (h : getFrame e = some (f, e')) :
    (e.freeFrames (e.frameSeq &&& FRAME_SEQ_MASK)).isFree ∧
    f = { newFrame e (0, 0) 0 0 with isFree := false } ∧ e' = withFrame e f := by
  unfold getFrame at h
  dsimp only at h
  split at h
  · next hfree =>
    simp only [Option.some.injEq, Prod.mk.injEq] at h
    obtain ⟨rfl, rfl⟩ := h
    exact ⟨hfree, rfl, rfl⟩
  · cases h

/-- One turn of `post`: the request has messages left, and the next ones go into a new frame. -/
theorem postFrame_eq {id : Nat} (h : postFrame P e id = some (e', p)) : ∃ r count,
    e.requests id = some r ∧ r.next < r.messages.length ∧
    count = fillFrame (sizeSub P (frameHeaderSize + 2)) (r.following r.next) ∧
    (e.freeFrames (e.frameSeq &&& FRAME_SEQ_MASK)).isFree ∧
    e' = { withFrame e (newFrame e (id, r.posting) r.next count) with
      requests := Function.update e.requests id
        (some { r with next := (r.next + count) % 2 ^ 16 })
      log := { e.log with
        issued := ⟨e.frameCount, id, r.posting, r.next, count⟩ :: e.log.issued } } ∧
    p = e'.packet (newFrame e (id, r.posting) r.next count) := by
  unfold postFrame at h
  cases hr : e.requests id with
  | none => simp [hr] at h
  | some r =>
    simp only [hr] at h
    split at h
    · next hlt =>
      cases hf : getFrame e with
      | none => simp [hf] at h
      | some fe =>
        obtain ⟨f, e₁⟩ := fe
        obtain ⟨hfree, rfl, rfl⟩ := getFrame_eq hf
        simp only [hf] at h
        split at h
        · cases h
        · simp only [Option.some.injEq, Prod.mk.injEq] at h
          obtain ⟨rfl, rfl⟩ := h
          refine ⟨r, _, rfl, hlt, rfl, hfree, ?_, rfl⟩
          simp [withFrame, newFrame]
    · cases h

theorem fillFrame_le : ∀ (bytesLeft : Nat) (ms : List Message), fillFrame bytesLeft ms ≤ ms.length
  | _, [] => Nat.le_refl _
  | bytesLeft, m :: rest => by
    rw [fillFrame]
    split
    · exact Nat.zero_le _
    · have := fillFrame_le (bytesLeft - (msgHeaderSize + (m.dataLen + 7) / 8 * 8)) rest
      rw [List.length_cons]
      omega

/-- The variable `msg` does not wrap while there are fewer than 65536 messages. -/
theorem Request.next_of_short {r : Request} (hshort : r.messages.length < 2 ^ 16)
    (hlt : r.next < r.messages.length) (bytesLeft : Nat) :
    r.next + fillFrame bytesLeft (r.following r.next) ≤ r.messages.length ∧
    (r.next + fillFrame bytesLeft (r.following r.next)) % 2 ^ 16 =
      r.next + fillFrame bytesLeft (r.following r.next) := by
  have hle := fillFrame_le bytesLeft (r.following r.next)
  have hfollowing : (r.following r.next).length = r.messages.length - r.next := by
    rw [Request.following, if_pos hshort, List.length_drop]
  have hsum : r.next + fillFrame bytesLeft (r.following r.next) ≤ r.messages.length := by omega
  exact ⟨hsum, Nat.mod_eq_of_lt (Nat.lt_of_le_of_lt hsum hshort)⟩

/-- A frame without messages carries acknowledgements only. -/
theorem packet_of_no_messages (h : f.msgCount = 0) :
    e.packet f = ⟨f.uid, f.frameSeq, f.ackStart, f.ackCount, []⟩ := by
  unfold Endpoint.packet
  cases e.requests f.transaction.1 <;> simp [h]

theorem sendAcks_eq (h : sendAcks e = some (e', p)) :
    (e.freeFrames (e.frameSeq &&& FRAME_SEQ_MASK)).isFree ∧
    e' = withFrame e (newFrame e (0, 0) 0 0) ∧
    p = e'.packet (newFrame e (0, 0) 0 0) := by
  unfold sendAcks at h
  split at h
  · cases h
  · obtain ⟨⟨f, e₁⟩, hf, heq⟩ := Option.map_eq_some_iff.mp h
    obtain ⟨hfree, rfl, rfl⟩ := getFrame_eq hf
    simp only [Prod.mk.injEq] at heq
    obtain ⟨rfl, rfl⟩ := heq
    refine ⟨hfree, ?_, ?_⟩
    · simp [withFrame, newFrame, Frame.release]
    · rw [packet_of_no_messages rfl, packet_of_no_messages rfl]

/-- A new request is stored under a free name. -/
theorem newRequest_eq {id skipped : Nat} {copies : List Copy} {flagAddr flagValue : Nat}
    (h : newRequest P e id skipped copies flagAddr flagValue = some e') : ∃ tid,
    e.requests id = none ∧
    e' = { e with
      txId := tid
      requests := Function.update e.requests id (some (makeRequest
        (sizeSub P (msgHeaderSize + frameHeaderSize + 8)) tid copies (flagAddr % 2 ^ 32)
        (flagValue % 2 ^ 32))) } := by
  unfold newRequest at h
  dsimp only at h
  split at h
  · next hc => exact ⟨_, by simpa using hc.2, (Option.some.inj h).symm⟩
  · cases h

/-- A posting begins when the last one has sent all its messages. -/
theorem startPost_eq {id : Nat} (h : startPost e id = some e') : ∃ r,
    e.requests id = some r ∧ r.next = r.messages.length ∧
    e' = { e with
      requests := Function.update e.requests id
        (some { r with nMessagesRx := 0, next := 0, posting := r.posting + 1 }) } := by
  unfold startPost at h
  cases hr : e.requests id with
  | none => simp [hr] at h
  | some r =>
    simp only [hr] at h
    split at h
    · next hnext => exact ⟨r, rfl, hnext, (Option.some.inj h).symm⟩
    · cases h

/-- A frame is sent again while its slot is in use. -/
theorem resend_eq {slot : Nat} (h : resend e slot = some p) :
    (e.freeFrames slot).isFree = false ∧ p = e.packet (e.freeFrames slot) := by
  unfold resend at h
  dsimp only at h
  split at h
  · next hbusy => exact ⟨by simpa using hbusy.2, (Option.some.inj h).symm⟩
  · cases h

/-! ## One side at a time -/

/-- The endpoint that makes the step. -/
def Op.side : Op → Side
  | .newRequest x .. | .store x .. | .startPost x _ | .postFrame x _ | .sendAcks x
  | .resend x _ | .deliver x _ => x

/-- What a step does to the endpoint that makes it, and the packets it sends; `incoming` are the
packets the peer has sent. -/
def SideStep (P : Nat) (e : Endpoint) (incoming : List Packet) (e' : Endpoint)
    (news : List Packet) : Op → Prop
  | .newRequest _ id skipped copies flagAddr flagValue =>
    newRequest P e id skipped copies flagAddr flagValue = some e' ∧ news = []
  | .store _ addr data => e' = { e with memory := writeBytes e.memory addr data } ∧ news = []
  | .startPost _ id => startPost e id = some e' ∧ news = []
  | .postFrame _ id => ∃ p, postFrame P e id = some (e', p) ∧ news = [p]
  | .sendAcks _ => ∃ p, sendAcks e = some (e', p) ∧ news = [p]
  | .resend _ slot => ∃ p, resend e slot = some p ∧ e' = e ∧ news = [p]
  | .deliver _ p => p ∈ incoming ∧ processFrame e p = some e' ∧ news = []

/-- A step is a step of one side; the other side is unchanged. -/
theorem step_side {op : Op} (h : step P w op = some w') : ∃ e' news,
    SideStep P (w.ends op.side) (w.sent op.side.peer) e' news op ∧
    w' = ⟨Function.update w.ends op.side e',
      Function.update w.sent op.side (news ++ w.sent op.side)⟩ := by
  cases op with
  | newRequest x id skipped copies flagAddr flagValue =>
    simp only [step, Option.map_eq_some_iff] at h
    obtain ⟨e', he, rfl⟩ := h
    exact ⟨e', [], ⟨he, rfl⟩, by simp [World.setEnd, Op.side]⟩
  | store x addr data =>
    rw [← Option.some.inj h]
    exact ⟨_, [], ⟨rfl, rfl⟩, by simp [World.setEnd, Op.side]⟩
  | startPost x id =>
    simp only [step, Option.map_eq_some_iff] at h
    obtain ⟨e', he, rfl⟩ := h
    exact ⟨e', [], ⟨he, rfl⟩, by simp [World.setEnd, Op.side]⟩
  | postFrame x id =>
    simp only [step, Option.map_eq_some_iff] at h
    obtain ⟨⟨e', p⟩, he, rfl⟩ := h
    exact ⟨e', [p], ⟨p, he, rfl⟩, by simp [World.setEnd, World.send, Op.side]⟩
  | sendAcks x =>
    simp only [step, Option.map_eq_some_iff] at h
    obtain ⟨⟨e', p⟩, he, rfl⟩ := h
    exact ⟨e', [p], ⟨p, he, rfl⟩, by simp [World.setEnd, World.send, Op.side]⟩
  | resend x slot =>
    simp only [step, Option.map_eq_some_iff] at h
    obtain ⟨p, he, rfl⟩ := h
    refine ⟨_, [p], ⟨p, he, rfl, rfl⟩, ?_⟩
    rw [Function.update_eq_self]
    rfl
  | deliver x p =>
    simp only [step, Option.ite_none_right_eq_some] at h
    obtain ⟨hp, h⟩ := h
    obtain ⟨e', he, rfl⟩ := Option.map_eq_some_iff.mp h
    exact ⟨e', [], ⟨hp, he, rfl⟩, by simp [World.setEnd, Op.side]⟩

theorem Side.peer_ne (x : Side) : x.peer ≠ x := by
  cases x <;> simp [Side.peer]

theorem Side.eq_or_eq_peer (x y : Side) : y = x ∨ y = x.peer := by
  cases x <;> cases y <;> simp [Side.peer]

@[simp] theorem Side.peer_peer (x : Side) : x.peer.peer = x := by
  cases x <;> rfl

/-- A step that leaves alone what is sent, acknowledged and recorded. -/
structure Quiet (e e' : Endpoint) : Prop where
  freeFrames : e'.freeFrames = e.freeFrames
  frameSeq : e'.frameSeq = e.frameSeq
  frameCount : e'.frameCount = e.frameCount
  acks : e'.acks = e.acks
  frameSeqRecord : e'.frameSeqRecord = e.frameSeqRecord
  log : e'.log = e.log

/-- **What a step does**: it is quiet, or a frame goes out again, or a new one does with messages or without, or a
packet is processed. -/
theorem SideStep.cases {op : Op} {incoming news : List Packet} (hs : SideStep P e incoming e' news op) :
    (Quiet e e' ∧ news = []) ∨ (∃ slot p, resend e slot = some p ∧ e' = e ∧ news = [p]) ∨
      (∃ x id p, op = .postFrame x id ∧ postFrame P e id = some (e', p) ∧ news = [p]) ∨
      (∃ x p, op = .sendAcks x ∧ sendAcks e = some (e', p) ∧ news = [p]) ∨
      ∃ x p, op = .deliver x p ∧ p ∈ incoming ∧ processFrame e p = some e' ∧ news = [] := by
  cases op with
  | newRequest x id skipped copies flagAddr flagValue =>
    obtain ⟨he, hnews⟩ := hs
    obtain ⟨tid, -, rfl⟩ := newRequest_eq he
    exact .inl ⟨⟨rfl, rfl, rfl, rfl, rfl, rfl⟩, hnews⟩
  | store x addr data =>
    obtain ⟨rfl, hnews⟩ := hs
    exact .inl ⟨⟨rfl, rfl, rfl, rfl, rfl, rfl⟩, hnews⟩
  | startPost x id =>
    obtain ⟨he, hnews⟩ := hs
    obtain ⟨r, -, -, rfl⟩ := startPost_eq he
    exact .inl ⟨⟨rfl, rfl, rfl, rfl, rfl, rfl⟩, hnews⟩
  | postFrame x id =>
    obtain ⟨p, he, hnews⟩ := hs
    exact .inr (.inr (.inl ⟨x, id, p, rfl, he, hnews⟩))
  | sendAcks x =>
    obtain ⟨p, he, hnews⟩ := hs
    exact .inr (.inr (.inr (.inl ⟨x, p, rfl, he, hnews⟩)))
  | resend x slot =>
    obtain ⟨p, he, heq, hnews⟩ := hs
    exact .inr (.inl ⟨slot, p, he, heq, hnews⟩)
  | deliver x p =>
    obtain ⟨hmem, he, hnews⟩ := hs
    exact .inr (.inr (.inr (.inr ⟨x, p, rfl, hmem, he, hnews⟩)))

/-! ## Numbers -/

/-- The 16-bit number of the frame with position `uid`. -/
def seqOf (uid : Nat) : Nat := (uid + 1) % 2 ^ 16

/-- Frames and packets carry the number of their position. -/
structure Numbered (e : Endpoint) (sent : List Packet) : Prop where
  counter : e.frameSeq = seqOf e.frameCount
  slots : ∀ i, (e.freeFrames i).isFree = false →
    (e.freeFrames i).frameSeq = seqOf (e.freeFrames i).uid
  packets : ∀ p ∈ sent, p.frameSeq = seqOf p.uid

theorem Numbered.of_slots {sent : List Packet} (h : Numbered e sent)
    (hseq : e'.frameSeq = e.frameSeq) (hcount : e'.frameCount = e.frameCount)
    (hslots : ∀ i, (e'.freeFrames i).isFree = false → e'.freeFrames i = e.freeFrames i) :
    Numbered e' sent where
  counter := by
    rw [hseq, hcount]
    exact h.counter
  slots := by
    intro i hi
    have heq := hslots i hi
    rw [heq]
    exact h.slots i (heq ▸ hi)
  packets := h.packets

theorem numbered_new (memory : Nat → UInt8) (n : Nat) : Numbered (Endpoint.new memory n) [] where
  counter := rfl
  slots := fun i hi => by simp [Endpoint.new] at hi
  packets := by simp

/-- Releasing frames only frees slots. -/
theorem releaseFrame_slots (e : Endpoint) (seq i : Nat)
    (h : ((releaseFrame e seq).freeFrames i).isFree = false) :
    (releaseFrame e seq).freeFrames i = e.freeFrames i := by
  unfold releaseFrame at h ⊢
  dsimp only at h ⊢
  split
  · next hc =>
    rw [if_pos hc] at h
    dsimp only at h ⊢
    by_cases hi : i = seq &&& FRAME_SEQ_MASK
    · subst hi
      simp [Frame.release] at h
    · rw [Function.update_of_ne hi]
  · rfl

theorem ack_slots (e : Endpoint) (count start i : Nat)
    (h : ((ack e count start).freeFrames i).isFree = false) :
    (ack e count start).freeFrames i = e.freeFrames i := by
  unfold ack at h ⊢
  induction count with
  | zero => rfl
  | succ n ih =>
    rw [List.range_succ, List.foldl_append, List.foldl_cons, List.foldl_nil] at h ⊢
    have heq := releaseFrame_slots _ _ _ h
    rw [heq] at h ⊢
    exact ih h

theorem recordFrame_slots (e : Endpoint) (p : Packet) (i : Nat)
    (h : ((recordFrame e p).freeFrames i).isFree = false) :
    (recordFrame e p).freeFrames i = e.freeFrames i := by
  unfold recordFrame at h ⊢
  dsimp only at h ⊢
  split
  · rfl
  · next hc =>
    rw [if_neg hc] at h
    rw [ack_slots _ _ _ _ h]

/-- A packet that arrives numbers no frame and only frees slots. -/
theorem processFrame_sender (h : processFrame e p = some e') :
    e'.frameSeq = e.frameSeq ∧ e'.frameCount = e.frameCount ∧
    ∀ i, (e'.freeFrames i).isFree = false → e'.freeFrames i = e.freeFrames i := by
  obtain ⟨frames, requests, released, hrec⟩ := recordFrame_eq e p
  have hslots := recordFrame_slots e p
  rcases processFrame_cases h with ⟨-, rfl⟩ | ⟨-, -, rfl⟩ | ⟨-, -, h⟩
  · exact ⟨rfl, rfl, fun _ _ => rfl⟩
  · refine ⟨?_, ?_, hslots⟩ <;> rw [hrec]
  · obtain ⟨memory, records, inPlay, events, rfl⟩ := processMsgs_eq _ h
    refine ⟨?_, ?_, fun i hi => hslots i hi⟩
    · show (recordFrame e p).frameSeq = _
      rw [hrec]
    · show (recordFrame e p).frameCount = _
      rw [hrec]

theorem numbered_withFrame {sent : List Packet} {tr : Nat × Nat} {start count : Nat}
    (h : Numbered e sent) : Numbered (withFrame e (newFrame e tr start count)) sent := by
  refine ⟨?_, ?_, h.packets⟩
  · show (e.frameSeq + 1) % 2 ^ 16 = seqOf (e.frameCount + 1)
    rw [h.counter]
    simp only [seqOf]
    omega
  · intro i hi
    simp only [withFrame] at hi ⊢
    by_cases heq : i = e.frameSeq &&& FRAME_SEQ_MASK
    · subst heq
      rw [Function.update_self]
      exact h.counter
    · rw [Function.update_of_ne heq] at hi ⊢
      exact h.slots i hi

/-- A packet goes out. -/
theorem Numbered.send {sent : List Packet} (h : Numbered e sent) (hp : p.frameSeq = seqOf p.uid) :
    Numbered e ([p] ++ sent) := by
  refine ⟨h.counter, h.slots, ?_⟩
  intro q hq
  rcases List.mem_cons.mp hq with rfl | hq
  · exact hp
  · exact h.packets q hq

theorem numbered_step {op : Op} {incoming sent news : List Packet} (h : Numbered e sent)
    (hs : SideStep P e incoming e' news op) : Numbered e' (news ++ sent) := by
  rcases hs.cases with ⟨hq, rfl⟩ | ⟨slot, p, he, rfl, rfl⟩ | ⟨x, id, p, -, he, rfl⟩ | ⟨x, p, -, he, rfl⟩ |
    ⟨x, p, -, -, he, rfl⟩
  · exact h.of_slots hq.frameSeq hq.frameCount fun i _ => by rw [hq.freeFrames]
  · obtain ⟨hbusy, rfl⟩ := resend_eq he
    exact h.send (h.slots slot hbusy)
  · obtain ⟨r, count, -, -, -, -, rfl, hp⟩ := postFrame_eq he
    have hnum : p.frameSeq = seqOf p.uid := by
      rw [hp]
      exact h.counter
    refine Numbered.send ?_ hnum
    exact (numbered_withFrame h).of_slots rfl rfl fun _ _ => rfl
  · obtain ⟨-, rfl, rfl⟩ := sendAcks_eq he
    exact (numbered_withFrame h).send h.counter
  · obtain ⟨h₁, h₂, h₃⟩ := processFrame_sender he
    exact h.of_slots h₁ h₂ h₃

/-- **The rule for one side.** A property of an endpoint and of the packets it has sent that each
step of the endpoint keeps holds of both endpoints in every run. -/
theorem side_invariant {ok : World → Op → Prop} {J : Endpoint → List Packet → Prop}
    (h : Reach (step P) ok w₀ w) (h₀ : ∀ x, J (w₀.ends x) (w₀.sent x))
    (hstep : ∀ w op e' news, Reach (step P) ok w₀ w → ok w op →
      J (w.ends op.side) (w.sent op.side) →
      SideStep P (w.ends op.side) (w.sent op.side.peer) e' news op →
      J e' (news ++ w.sent op.side)) (x : Side) :
    J (w.ends x) (w.sent x) := by
  refine h.induct (P := fun w => ∀ x, J (w.ends x) (w.sent x)) h₀ ?_ x
  intro w op w' hr hJ hok hs y
  obtain ⟨e', news, hside, rfl⟩ := step_side hs
  by_cases hy : y = op.side
  · subst hy
    simp only [Function.update_self]
    exact hstep w op e' news hr hok (hJ _) hside
  · simp only [Function.update_of_ne hy]
    exact hJ y

variable {memory : Side → Nat → UInt8} {framesInPlay : Side → Nat} {ok : World → Op → Prop}

theorem numbered_of_reach (h : Reach (step P) ok (World.init memory framesInPlay) w) (x : Side) :
    Numbered (w.ends x) (w.sent x) :=
  side_invariant h (fun _ => numbered_new _ _)
    (fun _ _ _ _ _ _ hJ hside => numbered_step hJ hside) x

/-! ## At most once -/

/-- The entry of the history that a frame uses: the low 8 bits of its number. -/
def historySlot (uid : Nat) : Nat := seqOf uid &&& MAX_FRAME_HISTORY

/-- The last frame that was recorded in an entry of the history. -/
def lastRecorded (recorded : List Nat) (slot : Nat) : Option Nat :=
  recorded.find? fun u => historySlot u == slot

/-- The history holds the number of the last frame of each entry; only recorded frames are
processed, each once. -/
structure Once (e : Endpoint) : Prop where
  history : ∀ slot, (e.frameSeqRecord slot).id =
    ((lastRecorded e.log.recorded slot).map seqOf).getD 0
  recorded : ∀ u ∈ e.log.processed, u ∈ e.log.recorded
  nodup : e.log.processed.Nodup

/-- The condition on a packet that arrives: if its frame was received before, no other frame with
the same low 8 bits of the number has been received since. -/
def NotStale (e : Endpoint) (p : Packet) : Prop :=
  p.uid ∈ e.log.recorded → lastRecorded e.log.recorded (historySlot p.uid) = some p.uid

theorem Once.of_eq (h : Once e) (hrec : e'.frameSeqRecord = e.frameSeqRecord)
    (hr : e'.log.recorded = e.log.recorded) (hp : e'.log.processed = e.log.processed) :
    Once e' := by
  refine ⟨?_, ?_, ?_⟩
  · rw [hrec, hr]
    exact h.history
  · rw [hr, hp]
    exact h.recorded
  · rw [hp]
    exact h.nodup

/-- A frame that is not in the history has not been recorded. -/
theorem Once.not_recorded (h : Once e) (hseq : p.frameSeq = seqOf p.uid) (hstale : NotStale e p)
    (hid : (e.frameSeqRecord (p.frameSeq &&& MAX_FRAME_HISTORY)).id ≠ p.frameSeq) :
    p.uid ∉ e.log.recorded := by
  intro hmem
  apply hid
  rw [h.history, hseq]
  show ((lastRecorded e.log.recorded (historySlot p.uid)).map seqOf).getD 0 = seqOf p.uid
  rw [hstale hmem]
  rfl

theorem once_recordFrame (h : Once e) (hseq : p.frameSeq = seqOf p.uid) :
    Once (recordFrame e p) := by
  obtain ⟨frames, requests, released, heq⟩ := recordFrame_eq e p
  rw [heq]
  refine ⟨?_, fun u hu => List.mem_cons_of_mem _ (h.recorded u hu), h.nodup⟩
  intro slot
  have hslot : p.frameSeq &&& MAX_FRAME_HISTORY = historySlot p.uid := by
    rw [hseq]
    rfl
  simp only [hslot, lastRecorded, List.find?_cons]
  by_cases hs : slot = historySlot p.uid
  · subst hs
    simp [hseq]
  · rw [Function.update_of_ne hs, beq_eq_false_iff_ne.mpr (Ne.symm hs)]
    exact h.history slot

theorem once_acceptFrame (h : Once e) (hrec : p.uid ∈ e.log.recorded)
    (hnew : p.uid ∉ e.log.processed) : Once (acceptFrame e p) := by
  refine ⟨?_, ?_, List.nodup_cons.mpr ⟨hnew, h.nodup⟩⟩
  · intro slot
    show _ = ((lastRecorded e.log.recorded slot).map seqOf).getD 0
    rw [← h.history slot]
    simp only [acceptFrame, addFrameAck]
    by_cases hs : slot = p.frameSeq &&& MAX_FRAME_HISTORY
    · subst hs
      rw [Function.update_self]
    · rw [Function.update_of_ne hs]
  · intro u hu
    rcases List.mem_cons.mp hu with rfl | hu
    · exact hrec
    · exact h.recorded u hu

theorem once_processFrame (h : Once e) (hseq : p.frameSeq = seqOf p.uid) (hstale : NotStale e p)
    (hs : processFrame e p = some e') : Once e' := by
  have hrec := once_recordFrame h hseq
  obtain ⟨frames, requests, released, heq⟩ := recordFrame_eq e p
  rcases processFrame_cases hs with ⟨-, rfl⟩ | ⟨-, -, rfl⟩ | ⟨hid, -, hs⟩
  · exact h.of_eq rfl rfl rfl
  · exact hrec
  · obtain ⟨memory, records, inPlay, events, rfl⟩ := processMsgs_eq _ hs
    have hnew := h.not_recorded hseq hstale hid
    refine (once_acceptFrame hrec ?_ ?_).of_eq rfl rfl rfl
    · rw [heq]
      exact List.mem_cons_self
    · rw [heq]
      exact fun hmem => hnew (h.recorded _ hmem)

/-- The condition on a step: no stale copy of a frame is delivered. -/
def FreshCopies (w : World) : Op → Prop
  | .deliver x p => NotStale (w.ends x) p
  | _ => True

theorem once_step {op : Op} {incoming news : List Packet} (h : Once e)
    (hnum : ∀ p ∈ incoming, p.frameSeq = seqOf p.uid)
    (hok : ∀ x p, op = .deliver x p → NotStale e p) (hs : SideStep P e incoming e' news op) :
    Once e' := by
  rcases hs.cases with ⟨hq, -⟩ | ⟨slot, p, -, rfl, -⟩ | ⟨x, id, p, -, he, -⟩ | ⟨x, p, -, he, -⟩ |
    ⟨x, p, hop, hmem, he, -⟩
  · exact h.of_eq hq.frameSeqRecord (congrArg _ hq.log) (congrArg _ hq.log)
  · exact h
  · obtain ⟨r, count, -, -, -, -, rfl, -⟩ := postFrame_eq he
    exact h.of_eq rfl rfl rfl
  · obtain ⟨-, rfl, -⟩ := sendAcks_eq he
    exact h.of_eq rfl rfl rfl
  · exact once_processFrame h (hnum p hmem) (hok x p hop) he

/-- **At-most-once processing** in a run in which no stale copy of a frame is delivered. -/
theorem processed_once_of_freshCopies
    (h : Reach (step P) FreshCopies (World.init memory framesInPlay) w) (x : Side) :
    (w.ends x).log.processed.Nodup := by
  have honce : Once (w.ends x) := by
    refine side_invariant (J := fun e _ => Once e) h ?_ ?_ x
    · intro x
      exact ⟨fun _ => rfl, by simp [World.init, Endpoint.new], by simp [World.init, Endpoint.new]⟩
    · intro w op e' news hr hok hJ hside
      refine once_step hJ (numbered_of_reach hr op.side.peer).packets ?_ hside
      rintro x p rfl
      exact hok
  exact honce.nodup

instance (w : World) : (op : Op) → Decidable (FreshCopies w op)
  | .deliver x p => inferInstanceAs
      (Decidable (p.uid ∈ (w.ends x).log.recorded → lastRecorded _ _ = some p.uid))
  | .newRequest .. | .store .. | .startPost .. | .postFrame .. | .sendAcks _ | .resend .. =>
    .isTrue trivial

/-- Empty memories and no transactions in play. -/
def quiet : World := World.init (fun _ _ => 0) fun _ => 0

/-- A flag and eight bytes of data are sent twice, and both packets arrive. -/
theorem processed_once_after_resend : ∃ w ∈ exec (checked (step 512) FreshCopies) quiet
      [.newRequest .near 0 0 [⟨0, 64, 8⟩] 128 1, .startPost .near 0, .postFrame .near 0,
       .resend .near 1,
       .deliver .far ⟨0, 1, 0, 0, [⟨⟨0, 1, 0⟩, 1, 128, 1, 0, 64, [0, 0, 0, 0, 0, 0, 0, 0]⟩]⟩,
       .deliver .far ⟨0, 1, 0, 0, [⟨⟨0, 1, 0⟩, 1, 128, 1, 0, 64, [0, 0, 0, 0, 0, 0, 0, 0]⟩]⟩],
    (w.ends .far).log.accepted = [0, 0] ∧ (w.ends .far).log.processed.Nodup := by
  have hrun : ∃ w ∈ exec (checked (step 512) FreshCopies) quiet
      [.newRequest .near 0 0 [⟨0, 64, 8⟩] 128 1, .startPost .near 0, .postFrame .near 0,
       .resend .near 1,
       .deliver .far ⟨0, 1, 0, 0, [⟨⟨0, 1, 0⟩, 1, 128, 1, 0, 64, [0, 0, 0, 0, 0, 0, 0, 0]⟩]⟩,
       .deliver .far ⟨0, 1, 0, 0, [⟨⟨0, 1, 0⟩, 1, 128, 1, 0, 64, [0, 0, 0, 0, 0, 0, 0, 0]⟩]⟩],
      (w.ends .far).log.accepted = [0, 0] := by decide
  obtain ⟨w, hw, hacc⟩ := hrun
  exact ⟨w, hw, hacc, processed_once_of_freshCopies (reach_of_exec_checked _ hw) .far⟩

/-- The near side has no frame under way and will acknowledge the packet `q` again. -/
structure Idle (w : World) (q : Packet) (k : Nat) : Prop where
  acks : (w.ends .near).acks = []
  count : (w.ends .near).frameCount = k
  seq : (w.ends .near).frameSeq = seqOf k
  free : ∀ i ≤ 255, ((w.ends .near).freeFrames i).isFree
  known : (w.ends .near).frameSeqRecord (q.frameSeq &&& MAX_FRAME_HISTORY) = ⟨true, q.frameSeq⟩
  sent : q ∈ w.sent .far

/-- One queued acknowledgement goes out in a frame of its own. -/
theorem sendAcks_single {a : Nat} (hacks : e.acks = [a])
    (hfree : (e.freeFrames (e.frameSeq &&& FRAME_SEQ_MASK)).isFree) : ∃ e',
    sendAcks e = some (e', ⟨e.frameCount, e.frameSeq, a, 1, []⟩) ∧ e'.acks = [] ∧
    e'.frameCount = e.frameCount + 1 ∧ e'.frameSeq = (e.frameSeq + 1) % 2 ^ 16 ∧
    e'.frameSeqRecord = e.frameSeqRecord ∧
    ∀ i, (e.freeFrames i).isFree → (e'.freeFrames i).isFree := by
  simp only [sendAcks, hacks, getFrame, hfree, takeAcks, if_true, List.isEmpty_cons,
    Bool.false_eq_true, if_false, Option.map_some, Option.some.injEq, Prod.mk.injEq,
    List.getElem?_nil, reduceCtorEq]
  refine ⟨_, ⟨rfl, packet_of_no_messages rfl⟩, rfl, rfl, rfl, rfl, ?_⟩
  intro i hi
  by_cases heq : i = e.frameSeq &&& FRAME_SEQ_MASK
  · subst heq
    simp [Frame.release]
  · simp only [Function.update_of_ne heq]
    exact hi

/-- A copy of `q` arrives and is acknowledged. -/
theorem idle_round {q : Packet} {k : Nat} (h : Idle w q k) : ∃ w',
    exec (step P) w [.deliver .near q, .sendAcks .near] = some w' ∧ Idle w' q (k + 1) ∧
    w'.ends .far = w.ends .far ∧
    w'.sent .near = ⟨k, seqOf k, q.frameSeq, 1, []⟩ :: w.sent .near := by
  have hdup : processFrame (w.ends .near) q = some (addFrameAck (w.ends .near) q) := by
    simp [processFrame, h.known]
  have hmask : seqOf k &&& FRAME_SEQ_MASK ≤ 255 := Nat.and_le_right
  have hacks : (addFrameAck (w.ends .near) q).acks = [q.frameSeq] := by
    simp [addFrameAck, h.acks]
  obtain ⟨e', hsend, h₁, h₂, h₃, h₄, h₅⟩ := sendAcks_single hacks (by
    show ((w.ends .near).freeFrames ((w.ends .near).frameSeq &&& FRAME_SEQ_MASK)).isFree
    rw [h.seq]
    exact h.free _ hmask)
  have hpacket : (⟨(addFrameAck (w.ends .near) q).frameCount,
      (addFrameAck (w.ends .near) q).frameSeq, q.frameSeq, 1, []⟩ : Packet) =
      ⟨k, seqOf k, q.frameSeq, 1, []⟩ := by
    simp [addFrameAck, h.count, h.seq]
  rw [hpacket] at hsend
  refine ⟨((w.setEnd .near (addFrameAck (w.ends .near) q)).setEnd .near e').send .near
    ⟨k, seqOf k, q.frameSeq, 1, []⟩, ?_, ?_, ?_, ?_⟩
  · simp only [exec, step, Side.peer, h.sent, if_true, hdup, Option.map_some, Option.bind_some]
    simp only [World.setEnd, Function.update_self, hsend, Option.map_some, Option.bind_some]
  · refine ⟨?_, ?_, ?_, ?_, ?_, ?_⟩ <;>
      simp only [World.setEnd, World.send, Function.update_self, h₁, h₂, h₃, h₄]
    · show (w.ends .near).frameCount + 1 = k + 1
      rw [h.count]
    · show ((w.ends .near).frameSeq + 1) % 2 ^ 16 = seqOf (k + 1)
      rw [h.seq]
      simp only [seqOf]
      omega
    · exact fun i hi => h₅ i (h.free i hi)
    · exact h.known
    · exact h.sent
  · simp [World.setEnd, World.send]
  · simp [World.setEnd, World.send]

/-- The far side does not notice any number of such rounds. -/
theorem idle_rounds (P : Nat) {q p₀ : Packet} {k : Nat} (h : Idle w₀ q k)
    (hp : p₀ ∈ w₀.sent .near) (n : Nat) : ∃ w, Reach (step P) anyStep w₀ w ∧ Idle w q (k + n) ∧
      w.ends .far = w₀.ends .far ∧ p₀ ∈ w.sent .near := by
  induction n with
  | zero => exact ⟨w₀, Relation.ReflTransGen.refl, h, rfl, hp⟩
  | succ n ih =>
    obtain ⟨w₁, hreach, h₁, hfar₁, hp₁⟩ := ih
    obtain ⟨w₂, hexec, h₂, hfar₂, hsent⟩ := idle_round (P := P) h₁
    refine ⟨w₂, hreach.trans (reach_of_exec _ hexec), h₂, hfar₂.trans hfar₁, ?_⟩
    rw [hsent]
    exact List.mem_cons_of_mem _ hp₁

/-- Frame 257 takes the place of frame 1 in the history of the receiver: a copy of frame 1 that
arrives after it is processed again. -/
theorem stale_copy_processed_twice : ¬ ∀ (P : Nat) (memory : Side → Nat → UInt8)
    (framesInPlay : Side → Nat) (w : World),
    Reach (step P) anyStep (World.init memory framesInPlay) w →
      ∀ x, (w.ends x).log.processed.Nodup := by
  intro hall
  -- each side sends a flag; the near one arrives first and is acknowledged with the other
  have hrun : ∃ w ∈ exec (step 512) quiet
      [.newRequest .near 0 0 [] 128 1, .startPost .near 0, .postFrame .near 0,
       .deliver .far ⟨0, 1, 0, 0, [⟨⟨0, 1, 0⟩, 1, 128, 1, 0, 0, []⟩]⟩,
       .newRequest .far 0 0 [] 128 1, .startPost .far 0, .postFrame .far 0,
       .deliver .near ⟨0, 1, 1, 1, [⟨⟨0, 1, 0⟩, 1, 128, 1, 0, 0, []⟩]⟩, .sendAcks .near],
      ((w.ends .near).acks = [] ∧ (w.ends .near).frameCount = 2 ∧
        (w.ends .near).frameSeq = seqOf 2 ∧
        (∀ i ≤ 255, ((w.ends .near).freeFrames i).isFree) ∧
        (w.ends .near).frameSeqRecord 1 = ⟨true, 1⟩ ∧
        ⟨0, 1, 1, 1, [⟨⟨0, 1, 0⟩, 1, 128, 1, 0, 0, []⟩]⟩ ∈ w.sent .far) ∧
      ⟨0, 1, 0, 0, [⟨⟨0, 1, 0⟩, 1, 128, 1, 0, 0, []⟩]⟩ ∈ w.sent .near ∧
      ∃ e₁ ∈ processFrame (w.ends .far) ⟨256, 257, 1, 1, []⟩,
        ∃ e₂ ∈ processFrame e₁ ⟨0, 1, 0, 0, [⟨⟨0, 1, 0⟩, 1, 128, 1, 0, 0, []⟩]⟩,
          ¬e₂.log.processed.Nodup := by decide +kernel
  obtain ⟨w₁, hw₁, ⟨h₁, h₂, h₃, h₄, h₅, h₆⟩, hp₁, e₁, he₁, e₂, he₂, hbad⟩ := hrun
  have hidle₁ : Idle w₁ ⟨0, 1, 1, 1, [⟨⟨0, 1, 0⟩, 1, 128, 1, 0, 0, []⟩]⟩ 2 :=
    ⟨h₁, h₂, h₃, h₄, h₅, h₆⟩
  obtain ⟨w₂, hreach, hidle, hfar₂, hp₂⟩ := idle_rounds 512 hidle₁ hp₁ 254
  obtain ⟨w₃, hexec, -, hfar₃, hsent⟩ := idle_round (P := 512) hidle
  have hlast : exec (step 512) w₃ [.deliver .far ⟨256, 257, 1, 1, []⟩,
      .deliver .far ⟨0, 1, 0, 0, [⟨⟨0, 1, 0⟩, 1, 128, 1, 0, 0, []⟩]⟩] =
      some ((w₃.setEnd .far e₁).setEnd .far e₂) := by
    have hm₁ : (⟨256, 257, 1, 1, []⟩ : Packet) ∈ w₃.sent .near := by
      rw [hsent]
      exact List.mem_cons_self
    have hm₂ : (⟨0, 1, 0, 0, [⟨⟨0, 1, 0⟩, 1, 128, 1, 0, 0, []⟩]⟩ : Packet) ∈ w₃.sent .near := by
      rw [hsent]
      exact List.mem_cons_of_mem _ hp₂
    rw [← hfar₂, ← hfar₃] at he₁
    simp only [exec, step, Side.peer, hm₁, if_true, Option.mem_def.mp he₁, Option.map_some,
      Option.bind_some]
    simp only [World.setEnd, Function.update_self, hm₂, if_true, Option.mem_def.mp he₂,
      Option.map_some, Option.bind_some]
  have hreach₃ := ((reach_of_exec _ hw₁).trans hreach).trans
    ((reach_of_exec _ hexec).trans (reach_of_exec _ hlast))
  refine hbad ?_
  have := hall 512 _ _ _ hreach₃ .far
  simpa [World.setEnd] using this

end OpenCpi.Datagram
