import Mathlib.Data.Finset.Card
import Mathlib.Data.Finset.Range
import Mathlib.Data.Nat.Bitwise
import OpenCpi.Properties.Datagram

/-!
# The flag of a transaction is written after its data, as long as transactions do not mix

The receiver has one usable transaction record for all transactions, so messages of two
transactions are counted together. It does not copy the data of a transaction of one message nor
four bytes of data, and it counts the messages of a frame again when it takes a copy of it for a new
frame. In a run in which none of this happens, every flag is written after all data of its
transaction.
-/

namespace OpenCpi.Datagram

open Infra

variable {e e' sender sender' : Endpoint} {w w' w₀ : World} {x : Side} {p : Packet} {f : Frame}
  {P : Nat}

/-! ## Where messages come from -/

/-- The messages of a request; they never change. -/
def Endpoint.messagesOf (e : Endpoint) (id : Nat) : Option (List Message) :=
  (e.requests id).map Request.messages

/-- The frame carries the message. -/
def Issued.covers (s : Issued) (o : Origin) : Prop :=
  s.request = o.request ∧ s.posting = o.posting ∧ s.msgStart ≤ o.index ∧
    o.index < s.msgStart + s.msgCount

/-- A message on the wire is the one of the request that its origin names. -/
def MsgOk (sender : Endpoint) (m : Msg) : Prop :=
  ∃ ms c, sender.messagesOf m.origin.request = some ms ∧ ms[m.origin.index]? = some c ∧
    m.numMsgsInTransaction = (if ms.length = 1 then 0 else ms.length) % 2 ^ 16 ∧
    m.dataAddr = c.dataAddr ∧ m.data.length = c.dataLen

/-- The messages of the request can be told apart by 16 bits. -/
def Short (sender : Endpoint) (id : Nat) : Prop :=
  ∀ ms, sender.messagesOf id = some ms → ms.length < 2 ^ 16

/-- The message with the number `k` of a frame. Where indices do not wrap it is the one with the
next index. -/
structure CarriedOk (sender : Endpoint) (s : Issued) (k : Nat) (m : Msg) : Prop where
  lt : k < s.msgCount
  request : m.origin.request = s.request
  posting : m.origin.posting = s.posting
  index : Short sender s.request → m.origin.index = s.msgStart + k
  ok : Short sender s.request → MsgOk sender m

/-- A packet with messages carries those of a frame that was sent, in order. -/
def PacketOk (sender : Endpoint) (p : Packet) : Prop :=
  p.msgs = [] ∨ ∃ s ∈ sender.log.issued, s.uid = p.uid ∧ ∀ k m, p.msgs[k]? = some m →
    CarriedOk sender s k m

/-- The sender has the same requests and has sent the same frames and perhaps more. -/
structure Grows (e e' : Endpoint) : Prop where
  messages : ∀ id ms, e.messagesOf id = some ms → e'.messagesOf id = some ms
  issued : e.log.issued ⊆ e'.log.issued

theorem Short.mono {id : Nat} (h : Short sender' id) (hg : Grows sender sender') :
    Short sender id :=
  fun ms hms => h ms (hg.messages id ms hms)

theorem MsgOk.mono {m : Msg} (h : MsgOk sender m) (hg : Grows sender sender') :
    MsgOk sender' m := by
  obtain ⟨ms, c, hms, hrest⟩ := h
  exact ⟨ms, c, hg.messages _ _ hms, hrest⟩

theorem PacketOk.mono (h : PacketOk sender p) (hg : Grows sender sender') :
    PacketOk sender' p := by
  rcases h with hnil | ⟨s, hs, hu, hmsgs⟩
  · exact Or.inl hnil
  · refine Or.inr ⟨s, hg.issued hs, hu, ?_⟩
    intro k m hk
    obtain ⟨h₁, h₂, h₃, h₄, h₅⟩ := hmsgs k m hk
    exact ⟨h₁, h₂, h₃, fun hshort => h₄ (hshort.mono hg),
      fun hshort => (h₅ (hshort.mono hg)).mono hg⟩

/-- The packet of a frame that was sent. -/
theorem packetOk_packet
    (h : ⟨f.uid, f.transaction.1, f.transaction.2, f.msgStart, f.msgCount⟩ ∈ e.log.issued) :
    PacketOk e (e.packet f) := by
  refine Or.inr ⟨_, h, rfl, ?_⟩
  intro k m hk
  unfold Endpoint.packet at hk
  cases hr : e.requests f.transaction.1 with
  | none => simp [hr] at hk
  | some r =>
    simp only [hr, List.getElem?_mapIdx, Option.map_eq_some_iff] at hk
    obtain ⟨c, hc, rfl⟩ := hk
    rw [List.getElem?_take, Option.ite_none_right_eq_some] at hc
    obtain ⟨hlt, hc⟩ := hc
    have hms : e.messagesOf f.transaction.1 = some r.messages := by
      unfold Endpoint.messagesOf
      rw [hr, Option.map_some]
    have hindex : Short e f.transaction.1 → r.messages[f.msgStart + k]? = some c ∧
        (f.msgStart + k) % 2 ^ 16 = f.msgStart + k := by
      intro hshort
      rw [Request.following, if_pos (hshort _ hms), List.getElem?_drop] at hc
      have hlt := (List.getElem?_eq_some_iff.mp hc).1
      exact ⟨hc, Nat.mod_eq_of_lt (lt_trans hlt (hshort _ hms))⟩
    refine ⟨hlt, rfl, rfl, fun hshort => (hindex hshort).2, fun hshort => ?_⟩
    refine ⟨r.messages, c, hms, ?_, rfl, rfl, ?_⟩
    · obtain ⟨hget, hmod⟩ := hindex hshort
      simp only [Request.msg, hmod, hget]
    · simp [Request.msg, readBytes]

/-- Requests keep their messages and their place in the running posting. -/
def Kept (e e' : Endpoint) : Prop :=
  ∀ id r, e.requests id = some r → ∃ r', e'.requests id = some r' ∧
    r'.messages = r.messages ∧ r'.posting = r.posting ∧ r'.next = r.next

theorem Kept.of_eq (h : e'.requests = e.requests) : Kept e e' := by
  intro id r hr
  exact ⟨r, by rw [h, hr], rfl, rfl, rfl⟩

theorem Kept.trans {e'' : Endpoint} (h : Kept e e') (h' : Kept e' e'') : Kept e e'' := by
  intro id r hr
  obtain ⟨r', hr', h₁, h₂, h₃⟩ := h id r hr
  obtain ⟨r'', hr'', h₄, h₅, h₆⟩ := h' id r' hr'
  exact ⟨r'', hr'', h₄.trans h₁, h₅.trans h₂, h₆.trans h₃⟩

theorem Kept.grows (h : Kept e e') (hi : e'.log.issued = e.log.issued) : Grows e e' := by
  refine ⟨?_, ?_⟩
  · intro id ms hms
    obtain ⟨r, hr, rfl⟩ := Option.map_eq_some_iff.mp hms
    obtain ⟨r', hr', hm, -⟩ := h id r hr
    exact Option.map_eq_some_iff.mpr ⟨r', hr', hm⟩
  · rw [hi]
    exact List.Subset.refl _

theorem kept_releaseFrame (e : Endpoint) (seq : Nat) : Kept e (releaseFrame e seq) := by
  intro id r hr
  unfold releaseFrame
  dsimp only
  split
  · dsimp only
    split
    · rw [hr, Option.map_some]
      exact ⟨_, rfl, rfl, rfl, rfl⟩
    · exact ⟨r, hr, rfl, rfl, rfl⟩
  · exact ⟨r, hr, rfl, rfl, rfl⟩

theorem kept_ack (e : Endpoint) (count start : Nat) : Kept e (ack e count start) := by
  unfold ack
  induction count with
  | zero => exact Kept.of_eq rfl
  | succ n ih =>
    rw [List.range_succ, List.foldl_append, List.foldl_cons, List.foldl_nil]
    exact ih.trans (kept_releaseFrame _ _)

theorem kept_processFrame (h : processFrame e p = some e') :
    Kept e e' ∧ e'.log.issued = e.log.issued := by
  have hrec : Kept e (recordFrame e p) := by
    unfold recordFrame
    dsimp only
    split
    · exact Kept.of_eq rfl
    · refine Kept.trans ?_ (kept_ack _ _ _)
      exact Kept.of_eq rfl
  obtain ⟨frames, requests, released, heq⟩ := recordFrame_eq e p
  have hissued : (recordFrame e p).log.issued = e.log.issued := by rw [heq]
  rcases processFrame_cases h with ⟨-, rfl⟩ | ⟨-, -, rfl⟩ | ⟨-, -, h⟩
  · exact ⟨Kept.of_eq rfl, rfl⟩
  · exact ⟨hrec, hissued⟩
  · obtain ⟨memory, records, inPlay, events, rfl⟩ := processMsgs_eq _ h
    exact ⟨hrec.trans (Kept.of_eq rfl), hissued⟩

/-- Packets and slots hold frames that were sent. For requests whose indices do not wrap, the frames
of a posting that is running lie before the next message to send, and no message is in two
frames. -/
structure Sourced (e : Endpoint) (sent : List Packet) : Prop where
  slots : ∀ i, (e.freeFrames i).isFree = false →
    ⟨(e.freeFrames i).uid, (e.freeFrames i).transaction.1, (e.freeFrames i).transaction.2,
      (e.freeFrames i).msgStart, (e.freeFrames i).msgCount⟩ ∈ e.log.issued
  packets : ∀ p ∈ sent, PacketOk e p
  posted : ∀ s ∈ e.log.issued, ∃ r, e.requests s.request = some r ∧ s.posting ≤ r.posting ∧
    (r.messages.length < 2 ^ 16 → s.posting = r.posting → s.msgStart + s.msgCount ≤ r.next)
  apart : ∀ s ∈ e.log.issued, ∀ s' ∈ e.log.issued, ∀ o, Short e o.request →
    s.covers o → s'.covers o → s.uid = s'.uid

theorem sourced_new (memory : Nat → UInt8) (n : Nat) : Sourced (Endpoint.new memory n) [] := by
  refine ⟨?_, ?_, ?_, ?_⟩ <;> simp [Endpoint.new]

/-- Slots may be given free. -/
theorem Sourced.of_kept {sent : List Packet} (h : Sourced e sent) (hk : Kept e e')
    (hi : e'.log.issued = e.log.issued)
    (hslots : ∀ i, (e'.freeFrames i).isFree = false → e'.freeFrames i = e.freeFrames i) :
    Sourced e' sent := by
  refine ⟨?_, fun p hp => (h.packets p hp).mono (hk.grows hi), ?_, ?_⟩
  · intro i hbusy
    have heq := hslots i hbusy
    rw [heq] at hbusy ⊢
    rw [hi]
    exact h.slots i hbusy
  · intro s hs
    rw [hi] at hs
    obtain ⟨r, hr, hle, hnext⟩ := h.posted s hs
    obtain ⟨r', hr', hm, hpost, hn⟩ := hk _ r hr
    refine ⟨r', hr', ?_, ?_⟩
    · rw [hpost]
      exact hle
    · rw [hm, hpost, hn]
      exact hnext
  · rw [hi]
    exact fun s hs s' hs' o hshort => h.apart s hs s' hs' o (hshort.mono (hk.grows hi))

theorem Sourced.send {sent : List Packet} (h : Sourced e sent) (hp : PacketOk e p) :
    Sourced e ([p] ++ sent) := by
  refine ⟨h.slots, ?_, h.posted, h.apart⟩
  intro q hq
  rcases List.mem_cons.mp hq with rfl | hq
  · exact hp
  · exact h.packets q hq

theorem grows_newRequest {id skipped : Nat} {copies : List Copy} {flagAddr flagValue : Nat}
    (hs : newRequest P e id skipped copies flagAddr flagValue = some e') :
    Kept e e' ∧ e'.log.issued = e.log.issued := by
  obtain ⟨tid, hnone, rfl⟩ := newRequest_eq hs
  refine ⟨?_, rfl⟩
  intro id' r hr
  have hne : id' ≠ id := by
    rintro rfl
    rw [hnone] at hr
    cases hr
  exact ⟨r, by simp only [Function.update_of_ne hne, hr], rfl, rfl, rfl⟩

/-- A request is replaced by one with the same messages. -/
theorem messagesOf_update {id : Nat} {r r' : Request} (hr : e.requests id = some r)
    (hm : r'.messages = r.messages) (id' : Nat) (ms : List Message)
    (h : e.messagesOf id' = some ms) :
    (Function.update e.requests id (some r') id').map Request.messages = some ms := by
  by_cases hid : id' = id
  · subst hid
    unfold Endpoint.messagesOf at h
    rw [hr] at h
    rw [Function.update_self, Option.map_some, hm]
    exact h
  · rw [Function.update_of_ne hid]
    exact h

theorem sourced_startPost {sent : List Packet} {id : Nat} (h : Sourced e sent)
    (hs : startPost e id = some e') : Sourced e' sent ∧ Grows e e' := by
  obtain ⟨r, hr, -, rfl⟩ := startPost_eq hs
  have hg : Grows e { e with
      requests := Function.update e.requests id
        (some { r with nMessagesRx := 0, next := 0, posting := r.posting + 1 }) } :=
    ⟨messagesOf_update hr rfl, List.Subset.refl _⟩
  refine ⟨⟨h.slots, fun p hp => (h.packets p hp).mono hg, ?_,
    fun s hs s' hs' o hshort => h.apart s hs s' hs' o (hshort.mono hg)⟩, hg⟩
  intro s hsi
  obtain ⟨r₀, hr₀, hle, hnext⟩ := h.posted s hsi
  dsimp only
  by_cases hid : s.request = id
  · rw [hid, hr, Option.some.injEq] at hr₀
    subst hr₀
    rw [hid, Function.update_self]
    refine ⟨_, rfl, Nat.le_succ_of_le hle, ?_⟩
    intro _ heq
    dsimp only at heq
    omega
  · rw [Function.update_of_ne hid]
    exact ⟨r₀, hr₀, hle, hnext⟩

theorem sourced_sendAcks {sent : List Packet} (h : Sourced e sent)
    (hs : sendAcks e = some (e', p)) : Sourced e' ([p] ++ sent) := by
  obtain ⟨-, rfl, rfl⟩ := sendAcks_eq hs
  refine Sourced.send (h.of_kept (Kept.of_eq rfl) rfl ?_) ?_
  · intro i hbusy
    simp only [withFrame] at hbusy ⊢
    by_cases heq : i = e.frameSeq &&& FRAME_SEQ_MASK
    · subst heq
      simp [newFrame] at hbusy
    · rw [Function.update_of_ne heq]
  · rw [packet_of_no_messages rfl]
    exact Or.inl rfl

/-- A new frame carries the messages from `next` on, which are in no earlier frame. -/
theorem sourced_postFrame {sent : List Packet} {id : Nat} (h : Sourced e sent)
    (hs : postFrame P e id = some (e', p)) : Sourced e' ([p] ++ sent) ∧ Grows e e' := by
  obtain ⟨r, count, hr, hlt, hcount, -, rfl, hp⟩ := postFrame_eq hs
  have hg : Grows e { withFrame e (newFrame e (id, r.posting) r.next count) with
      requests := Function.update e.requests id
        (some { r with next := (r.next + count) % 2 ^ 16 })
      log := { e.log with
        issued := ⟨e.frameCount, id, r.posting, r.next, count⟩ :: e.log.issued } } :=
    ⟨messagesOf_update hr rfl, List.subset_cons_self _ _⟩
  have hnext' : r.messages.length < 2 ^ 16 → (r.next + count) % 2 ^ 16 = r.next + count := by
    intro hshort
    rw [hcount]
    exact (Request.next_of_short hshort hlt _).2
  have hold : ∀ s ∈ e.log.issued, ∀ o, Short e o.request → s.covers o →
      ¬Issued.covers ⟨e.frameCount, id, r.posting, r.next, count⟩ o := by
    rintro s hsi o hshort ⟨h₁, h₂, h₃, h₄⟩ ⟨h₅, h₆, h₇, h₈⟩
    rw [← h₅] at hshort
    have hlen := hshort r.messages (by
      unfold Endpoint.messagesOf
      rw [hr, Option.map_some])
    obtain ⟨r₀, hr₀, hle, hnext⟩ := h.posted s hsi
    dsimp only at h₅ h₆ h₇
    rw [h₁, ← h₅, hr, Option.some.injEq] at hr₀
    subst hr₀
    have := hnext hlen (by rw [h₂, ← h₆])
    omega
  refine ⟨Sourced.send ⟨?_, fun q hq => (h.packets q hq).mono hg, ?_, ?_⟩ ?_, hg⟩
  · intro i hbusy
    simp only [withFrame] at hbusy ⊢
    by_cases heq : i = e.frameSeq &&& FRAME_SEQ_MASK
    · subst heq
      rw [Function.update_self]
      exact List.mem_cons_self
    · rw [Function.update_of_ne heq] at hbusy ⊢
      exact List.mem_cons_of_mem _ (h.slots i hbusy)
  · intro s hsi
    dsimp only
    rcases List.mem_cons.mp hsi with rfl | hsi
    · exact ⟨_, Function.update_self .., Nat.le_refl _, fun hshort _ => (hnext' hshort).ge⟩
    · obtain ⟨r₀, hr₀, hle, hnext⟩ := h.posted s hsi
      by_cases hid : s.request = id
      · rw [hid, hr, Option.some.injEq] at hr₀
        subst hr₀
        rw [hid, Function.update_self]
        refine ⟨_, rfl, hle, fun hshort heq => ?_⟩
        dsimp only
        rw [hnext' hshort]
        exact Nat.le_add_right_of_le (hnext hshort heq)
      · rw [Function.update_of_ne hid]
        exact ⟨r₀, hr₀, hle, hnext⟩
  · intro s hsi s' hsi' o hshort hc hc'
    have hshort' := hshort.mono hg
    rcases List.mem_cons.mp hsi with rfl | hsi <;> rcases List.mem_cons.mp hsi' with rfl | hsi'
    · rfl
    · exact absurd hc (hold s' hsi' o hshort' hc')
    · exact absurd hc' (hold s hsi o hshort' hc)
    · exact h.apart s hsi s' hsi' o hshort' hc hc'
  · rw [hp]
    exact packetOk_packet List.mem_cons_self

theorem sourced_step {op : Op} {incoming sent news : List Packet} (h : Sourced e sent)
    (hs : SideStep P e incoming e' news op) : Sourced e' (news ++ sent) ∧ Grows e e' := by
  cases op with
  | newRequest x id skipped copies flagAddr flagValue =>
    obtain ⟨he, rfl⟩ := hs
    obtain ⟨hk, hi⟩ := grows_newRequest he
    obtain ⟨tid, -, rfl⟩ := newRequest_eq he
    exact ⟨h.of_kept hk hi fun _ _ => rfl, hk.grows hi⟩
  | store x addr data =>
    obtain ⟨rfl, rfl⟩ := hs
    exact ⟨h.of_kept (Kept.of_eq rfl) rfl fun _ _ => rfl, Kept.grows (Kept.of_eq rfl) rfl⟩
  | startPost x id =>
    obtain ⟨he, rfl⟩ := hs
    exact sourced_startPost h he
  | postFrame x id =>
    obtain ⟨p, he, rfl⟩ := hs
    exact sourced_postFrame h he
  | sendAcks x =>
    obtain ⟨p, he, rfl⟩ := hs
    have hnext := sourced_sendAcks h he
    obtain ⟨-, rfl, -⟩ := sendAcks_eq he
    exact ⟨hnext, Kept.grows (Kept.of_eq rfl) rfl⟩
  | resend x slot =>
    obtain ⟨p, he, rfl, rfl⟩ := hs
    obtain ⟨hbusy, rfl⟩ := resend_eq he
    exact ⟨h.send (packetOk_packet (h.slots slot hbusy)), Kept.grows (Kept.of_eq rfl) rfl⟩
  | deliver x p =>
    obtain ⟨-, he, rfl⟩ := hs
    obtain ⟨hk, hi⟩ := kept_processFrame he
    obtain ⟨-, -, hslots⟩ := processFrame_sender he
    exact ⟨h.of_kept hk hi hslots, hk.grows hi⟩

/-! ## Counting the messages of a transaction -/

/-- A list of `n` different numbers below `n` holds all of them. -/
theorem mem_of_nodup_of_length {l : List Nat} {n i : Nat} (hnd : l.Nodup)
    (hlt : ∀ j ∈ l, j < n) (hlen : n ≤ l.length) (hi : i < n) : i ∈ l := by
  have hsub : l.toFinset ⊆ Finset.range n := by
    intro j hj
    exact Finset.mem_range.mpr (hlt j (List.mem_toFinset.mp hj))
  have hcard : (Finset.range n).card ≤ l.toFinset.card := by
    rw [Finset.card_range, List.toFinset_card_of_nodup hnd]
    exact hlen
  rw [← List.mem_toFinset, Finset.eq_of_subset_of_card_le hsub hcard]
  exact Finset.mem_range.mpr hi

theorem length_le_of_nodup {l : List Nat} {n : Nat} (hnd : l.Nodup) (hlt : ∀ j ∈ l, j < n) :
    l.length ≤ n := by
  rw [← List.toFinset_card_of_nodup hnd, ← Finset.card_range n]
  refine Finset.card_le_card fun j hj => ?_
  exact Finset.mem_range.mpr (hlt j (List.mem_toFinset.mp hj))

/-- The data of a message of the sender has been copied to its address. -/
def Copied (ms : List Message) (events : List Event) (o : Origin) : Prop :=
  ∃ c, ms[o.index]? = some c ∧ (0 < c.dataLen → .copy o c.dataAddr c.dataLen ∈ events)

/-- All data of a posting has been copied. -/
def Announced (sender : Endpoint) (request posting : Nat) (events : List Event) : Prop :=
  ∃ ms, sender.messagesOf request = some ms ∧
    ∀ i < ms.length, Copied ms events ⟨request, posting, i⟩

/-- Every flag was written after all data of its posting. -/
def FlagsOk (sender : Endpoint) (events : List Event) : Prop :=
  ∀ later request posting earlier, events = later ++ .flag request posting :: earlier →
    Announced sender request posting earlier

/-- The messages a record in use has counted: different messages of the posting that opened it,
among those `Seen`, with their data in place. -/
structure RecordOk (sender : Endpoint) (Seen : Origin → Prop) (events : List Event)
    (fr : MsgTransactionRecord) : Prop where
  count : fr.msgsProcessed = fr.counted.length
  nodup : fr.counted.Nodup
  seen : ∀ i ∈ fr.counted, Seen ⟨fr.opened.1, fr.opened.2, i⟩
  copied : fr.counted ≠ [] → ∃ ms, sender.messagesOf fr.opened.1 = some ms ∧
    ∀ i ∈ fr.counted, Copied ms events ⟨fr.opened.1, fr.opened.2, i⟩

/-- What the receiver has written, and the state of its record. -/
structure Atomic (sender : Endpoint) (Seen : Origin → Prop) (e : Endpoint) : Prop where
  flags : FlagsOk sender e.log.events
  record : (e.msgTransactionRecord 0).inUse →
    RecordOk sender Seen e.log.events (e.msgTransactionRecord 0)

variable {Seen Seen' : Origin → Prop} {events events' : List Event} {m : Msg}

theorem Copied.mono {ms : List Message} {o : Origin} (h : Copied ms events o)
    (hsub : events ⊆ events') : Copied ms events' o := by
  obtain ⟨c, hc, hdata⟩ := h
  exact ⟨c, hc, fun hpos => hsub (hdata hpos)⟩

theorem Copied.index_lt {ms : List Message} {o : Origin} (h : Copied ms events o) :
    o.index < ms.length := by
  obtain ⟨c, hc, -⟩ := h
  exact (List.getElem?_eq_some_iff.mp hc).1

theorem FlagsOk.mono (h : FlagsOk sender events) (hg : Grows sender sender') :
    FlagsOk sender' events := by
  intro later request posting earlier heq
  obtain ⟨ms, hms, hall⟩ := h later request posting earlier heq
  exact ⟨ms, hg.messages _ _ hms, hall⟩

theorem FlagsOk.copy (h : FlagsOk sender events) (o : Origin) (addr len : Nat) :
    FlagsOk sender (.copy o addr len :: events) := by
  intro later request posting earlier heq
  cases later with
  | nil => cases heq
  | cons first later =>
    rw [List.cons_append, List.cons.injEq] at heq
    exact h later request posting earlier heq.2

theorem FlagsOk.flag {request posting : Nat} (h : FlagsOk sender events)
    (ha : Announced sender request posting events) :
    FlagsOk sender (.flag request posting :: events) := by
  intro later request' posting' earlier heq
  cases later with
  | nil =>
    rw [List.nil_append, List.cons.injEq, Event.flag.injEq] at heq
    obtain ⟨⟨rfl, rfl⟩, rfl⟩ := heq
    exact ha
  | cons first later =>
    rw [List.cons_append, List.cons.injEq] at heq
    exact h later request' posting' earlier heq.2

theorem RecordOk.mono {fr : MsgTransactionRecord} (h : RecordOk sender Seen events fr)
    (hg : Grows sender sender') (hseen : ∀ o, Seen o → Seen' o) (hsub : events ⊆ events') :
    RecordOk sender' Seen' events' fr := by
  refine ⟨h.count, h.nodup, fun i hi => hseen _ (h.seen i hi), ?_⟩
  intro hne
  obtain ⟨ms, hms, hall⟩ := h.copied hne
  exact ⟨ms, hg.messages _ _ hms, fun i hi => (hall i hi).mono hsub⟩

theorem Atomic.mono (h : Atomic sender Seen e) (hg : Grows sender sender')
    (hseen : ∀ o, Seen o → Seen' o) (hev : e'.log.events = e.log.events)
    (hrec : e'.msgTransactionRecord = e.msgTransactionRecord) : Atomic sender' Seen' e' := by
  refine ⟨?_, ?_⟩
  · rw [hev]
    exact h.flags.mono hg
  · rw [hev, hrec]
    exact fun hin => (h.record hin).mono hg hseen (List.Subset.refl _)

/-- What a message must be like, next to the record it finds: it is copied or has no data, the
record is free or its own, and its request has fewer than 65536 messages. -/
structure Unmixed (sender e : Endpoint) (m : Msg) : Prop where
  copied : m.isCopied ∨ m.data = []
  own : (e.msgTransactionRecord 0).inUse →
    (e.msgTransactionRecord 0).opened = (m.origin.request, m.origin.posting)
  short : ∀ ms, sender.messagesOf m.origin.request = some ms → ms.length < 2 ^ 16

/-- The events after the data of a message was copied. -/
def eventsAfter (e : Endpoint) (m : Msg) : List Event :=
  if m.isCopied then .copy m.origin m.dataAddr m.data.length :: e.log.events else e.log.events

theorem eventsAfter_subset (e : Endpoint) (m : Msg) : e.log.events ⊆ eventsAfter e m := by
  unfold eventsAfter
  split
  · exact List.subset_cons_self _ _
  · exact List.Subset.refl _

theorem flagsOk_eventsAfter (h : FlagsOk sender e.log.events) (m : Msg) :
    FlagsOk sender (eventsAfter e m) := by
  unfold eventsAfter
  split
  · exact h.copy _ _ _
  · exact h

/-- A message whose data is copied, or that has none, has its data in place. -/
theorem copied_eventsAfter {ms : List Message} {c : Message} (hc : ms[m.origin.index]? = some c)
    (haddr : m.dataAddr = c.dataAddr) (hlen : m.data.length = c.dataLen)
    (hu : m.isCopied ∨ m.data = []) : Copied ms (eventsAfter e m) m.origin := by
  refine ⟨c, hc, ?_⟩
  intro hpos
  unfold eventsAfter
  rcases hu with hu | hnil
  · rw [if_pos hu, haddr, hlen]
    exact List.mem_cons_self
  · rw [hnil, List.length_nil] at hlen
    omega

/-- The table of records has one usable entry. -/
theorem recordIndex_eq {t : Nat} (h : ¬MAX_TRANSACTION_HISTORY ≤ t &&& MAX_TRANSACTION_HISTORY) :
    t &&& MAX_TRANSACTION_HISTORY = 0 := by
  have hpow : MAX_TRANSACTION_HISTORY = 2 ^ 9 := rfl
  rw [hpow, Nat.and_two_pow] at h ⊢
  cases ht : t.testBit 9 with
  | false => simp
  | true => simp [ht] at h

/-- A message goes into the record and, if that closes, its flag is written. -/
theorem processMsg_cases (h : processMsg e m = some e') :
    ((((e.msgTransactionRecord 0).enter m).closes = true ∧
      e'.log.events = .flag m.origin.request m.origin.posting :: eventsAfter e m ∧
      (e'.msgTransactionRecord 0).inUse = false) ∨
    (((e.msgTransactionRecord 0).enter m).closes = false ∧
      e'.log.events = eventsAfter e m ∧
      e'.msgTransactionRecord 0 = (e.msgTransactionRecord 0).enter m)) := by
  have hcopy : (e.copyData m).log.events = eventsAfter e m := by
    unfold Endpoint.copyData eventsAfter
    split <;> rfl
  unfold processMsg at h
  dsimp only at h
  split at h
  · cases h
  · next hc =>
    have hz := recordIndex_eq fun hle => hc (Or.inl hle)
    rw [hz] at h
    split at h
    · next hcl =>
      rw [← Option.some.inj h]
      refine Or.inl ⟨hcl, ?_, ?_⟩
      · show Event.flag _ _ :: (e.copyData m).log.events = _
        rw [hcopy]
      · simp only [Function.update_self]
    · next hcl =>
      rw [← Option.some.inj h]
      refine Or.inr ⟨Bool.eq_false_iff.mpr hcl, hcopy, ?_⟩
      simp only [Function.update_self]

/-- The record as a message finds it: opened by the message if it was free. -/
def MsgTransactionRecord.found (fr : MsgTransactionRecord) (m : Msg) : MsgTransactionRecord :=
  if fr.inUse then fr
  else { fr with inUse := true, msgsProcessed := 0,
                 opened := (m.origin.request, m.origin.posting), counted := [] }

theorem enter_eq (fr : MsgTransactionRecord) (m : Msg) : fr.enter m =
    { fr.found m with
      numMsgsInTransaction := m.numMsgsInTransaction
      msgsProcessed :=
        if m.numMsgsInTransaction = 0 then (fr.found m).msgsProcessed
        else ((fr.found m).msgsProcessed + 1) % 2 ^ 16
      counted :=
        if m.numMsgsInTransaction = 0 then (fr.found m).counted
        else m.origin.index :: (fr.found m).counted } := rfl

theorem recordOk_found (h : Atomic sender Seen e) (hu : Unmixed sender e m) :
    RecordOk sender Seen e.log.events ((e.msgTransactionRecord 0).found m) ∧
    ((e.msgTransactionRecord 0).found m).opened = (m.origin.request, m.origin.posting) := by
  unfold MsgTransactionRecord.found
  split
  · next hin => exact ⟨h.record hin, hu.own hin⟩
  · refine ⟨⟨rfl, List.nodup_nil, ?_, ?_⟩, rfl⟩ <;> simp

/-- A message that was not counted before is counted. -/
theorem recordOk_enter (h : Atomic sender Seen e) (hm : MsgOk sender m) (hu : Unmixed sender e m)
    (hnew : ¬Seen m.origin) :
    RecordOk sender (fun o => Seen o ∨ o = m.origin) (eventsAfter e m)
      ((e.msgTransactionRecord 0).enter m) := by
  obtain ⟨hrec, hown⟩ := recordOk_found h hu
  have hrec' := @RecordOk.mono sender sender Seen (fun o => Seen o ∨ o = m.origin) _ _ _ hrec
    ⟨fun _ _ h => h, List.Subset.refl _⟩ (fun o ho => Or.inl ho) (eventsAfter_subset e m)
  obtain ⟨ms, c, hms, hc, -, haddr, hlen⟩ := hm
  have hcopied : Copied ms (eventsAfter e m) m.origin :=
    copied_eventsAfter hc haddr hlen hu.copied
  rw [enter_eq]
  generalize (e.msgTransactionRecord 0).found m = fr at hrec hrec' hown
  by_cases hz : m.numMsgsInTransaction = 0
  · simp only [hz, if_true]
    exact ⟨hrec'.count, hrec'.nodup, hrec'.seen, hrec'.copied⟩
  · simp only [hz, if_false]
    have hall : ∀ i ∈ m.origin.index :: fr.counted,
        Copied ms (eventsAfter e m) ⟨fr.opened.1, fr.opened.2, i⟩ := by
      intro i hi
      rcases List.mem_cons.mp hi with rfl | hi
      · rw [hown]
        exact hcopied
      · obtain ⟨ms', hms', hold⟩ := hrec'.copied (List.ne_nil_of_mem hi)
        rw [hown, hms, Option.some.injEq] at hms'
        subst hms'
        exact hold i hi
    have hnd : (m.origin.index :: fr.counted).Nodup := by
      refine List.nodup_cons.mpr ⟨?_, hrec.nodup⟩
      intro hmem
      have := hrec.seen _ hmem
      rw [hown] at this
      exact hnew this
    refine ⟨?_, hnd, ?_, fun _ => ⟨ms, by rw [hown]; exact hms, hall⟩⟩
    · have hle := length_le_of_nodup hnd fun j hj => (hall j hj).index_lt
      have hshort := hu.short ms hms
      dsimp only
      rw [hrec.count, List.length_cons, Nat.mod_eq_of_lt]
      rw [List.length_cons] at hle
      omega
    · intro i hi
      rcases List.mem_cons.mp hi with rfl | hi
      · rw [hown]
        exact Or.inr rfl
      · exact Or.inl (hrec.seen i hi)

/-- When the record closes, all messages of the transaction have their data in place. -/
theorem announced_of_closes (h : Atomic sender Seen e) (hm : MsgOk sender m)
    (hu : Unmixed sender e m) (hnew : ¬Seen m.origin)
    (hcl : ((e.msgTransactionRecord 0).enter m).closes) :
    Announced sender m.origin.request m.origin.posting (eventsAfter e m) := by
  have hrec := recordOk_enter h hm hu hnew
  have hown : ((e.msgTransactionRecord 0).enter m).opened =
      (m.origin.request, m.origin.posting) := (recordOk_found h hu).2
  obtain ⟨ms, c, hms, hc, hnum, haddr, hlen⟩ := hm
  have hlt : m.origin.index < ms.length := (List.getElem?_eq_some_iff.mp hc).1
  have hshort := hu.short ms hms
  refine ⟨ms, hms, ?_⟩
  intro i hi
  by_cases hone : ms.length = 1
  · have hi' : i = m.origin.index := by omega
    subst hi'
    exact copied_eventsAfter hc haddr hlen hu.copied
  · rw [if_neg hone, Nat.mod_eq_of_lt hshort] at hnum
    have hcount : ms.length = ((e.msgTransactionRecord 0).enter m).counted.length := by
      rw [← hrec.count, ← hnum]
      exact (beq_iff_eq.mp hcl).symm
    obtain ⟨ms', hms', hall⟩ := hrec.copied (List.ne_nil_of_length_pos (by omega))
    rw [hown, hms, Option.some.injEq] at hms'
    subst hms'
    have hmem := mem_of_nodup_of_length hrec.nodup
      (fun j hj => (hall j hj).index_lt) (Nat.le_of_eq hcount) hi
    have := hall i hmem
    rw [hown] at this
    exact this

/-- One message keeps the record in order; afterwards the record is free or its own. -/
theorem atomic_processMsg (h : Atomic sender Seen e) (hm : MsgOk sender m)
    (hu : Unmixed sender e m) (hnew : ¬Seen m.origin) (hs : processMsg e m = some e') :
    Atomic sender (fun o => Seen o ∨ o = m.origin) e' ∧
    ((e'.msgTransactionRecord 0).inUse →
      (e'.msgTransactionRecord 0).opened = (m.origin.request, m.origin.posting)) := by
  have hflags := flagsOk_eventsAfter h.flags m
  rcases processMsg_cases hs with ⟨hcl, hev, hfree⟩ | ⟨-, hev, hrec⟩
  · refine ⟨⟨?_, ?_⟩, ?_⟩
    · rw [hev]
      exact hflags.flag (announced_of_closes h hm hu hnew hcl)
    · simp [hfree]
    · simp [hfree]
  · refine ⟨⟨?_, ?_⟩, ?_⟩
    · rw [hev]
      exact hflags
    · intro _
      rw [hev, hrec]
      exact recordOk_enter h hm hu hnew
    · intro _
      rw [hrec]
      exact (recordOk_found h hu).2

/-- The messages of a frame, which belong to one posting and were not seen before. -/
theorem atomic_processMsgs (request posting : Nat) : ∀ (msgs : List Msg) {Seen : Origin → Prop}
    {e : Endpoint}, Atomic sender Seen e →
    (∀ m ∈ msgs, MsgOk sender m ∧ Unmixed sender e m ∧ m.origin.request = request ∧
      m.origin.posting = posting ∧ ¬Seen m.origin) →
    (msgs.map Msg.origin).Nodup → msgs.foldlM processMsg e = some e' →
    Atomic sender (fun o => Seen o ∨ ∃ m ∈ msgs, m.origin = o) e'
  | [], Seen, e, h, _, _, hs => by
    rw [List.foldlM_nil] at hs
    rw [← Option.some.inj hs]
    exact h.mono ⟨fun _ _ h => h, List.Subset.refl _⟩ (fun o ho => Or.inl ho) rfl rfl
  | m :: rest, Seen, e, h, hall, hnd, hs => by
    rw [List.foldlM_cons] at hs
    obtain ⟨e₁, h₁, h₂⟩ := Option.bind_eq_some_iff.mp hs
    obtain ⟨hm, hu, hreq, hpost, hnew⟩ := hall m List.mem_cons_self
    obtain ⟨hat, hown⟩ := atomic_processMsg h hm hu hnew h₁
    rw [List.map_cons, List.nodup_cons] at hnd
    have hrest := atomic_processMsgs request posting rest hat (fun m' hm' => by
      obtain ⟨hok, hu', hreq', hpost', hnew'⟩ := hall m' (List.mem_cons_of_mem _ hm')
      refine ⟨hok, ⟨hu'.copied, ?_, hu'.short⟩, hreq', hpost', ?_⟩
      · intro hin
        rw [hown hin, hreq, hpost, hreq', hpost']
      · rintro (hseen | heq)
        · exact hnew' hseen
        · exact hnd.1 (List.mem_map.mpr ⟨m', hm', heq⟩)) hnd.2 h₂
    refine hrest.mono ⟨fun _ _ h => h, List.Subset.refl _⟩ ?_ rfl rfl
    rintro o ((hseen | rfl) | ⟨m', hm', heq⟩)
    · exact Or.inl hseen
    · exact Or.inr ⟨m, List.mem_cons_self, rfl⟩
    · exact Or.inr ⟨m', List.mem_cons_of_mem _ hm', heq⟩

/-! ## Runs -/

/-- The messages of the frames that the receiver has processed. -/
def SeenBy (sender e : Endpoint) (o : Origin) : Prop :=
  ∃ s ∈ sender.log.issued, s.uid ∈ e.log.processed ∧ s.covers o

/-- The condition on a packet that arrives: it is recognised as a copy, or its frame has not been
processed before and its messages meet the condition on messages. -/
def Separate (sender e : Endpoint) (p : Packet) : Prop :=
  (e.frameSeqRecord (p.frameSeq &&& MAX_FRAME_HISTORY)).id = p.frameSeq ∨
  (p.uid ∉ e.log.processed ∧ ∀ m ∈ p.msgs, Unmixed sender e m)

/-- The messages of a packet are different ones of one posting. -/
theorem CarriedOk.origins {s : Issued} (hshort : Short sender s.request)
    (h : ∀ k m, p.msgs[k]? = some m → CarriedOk sender s k m) :
    (p.msgs.map Msg.origin).Nodup := by
  rw [List.nodup_iff_getElem?_ne_getElem?]
  intro i j hij hj heq
  rw [List.length_map] at hj
  have hi := List.getElem?_eq_getElem (Nat.lt_trans hij hj)
  have hj' := List.getElem?_eq_getElem hj
  rw [List.getElem?_map, List.getElem?_map, hi, hj', Option.map_some, Option.map_some,
    Option.some.injEq] at heq
  have hindex := congrArg Origin.index heq
  rw [(h i _ hi).index hshort, (h j _ hj').index hshort] at hindex
  omega

theorem CarriedOk.covers {s : Issued} {k : Nat} {m : Msg} (h : CarriedOk sender s k m)
    (hshort : Short sender s.request) : s.covers m.origin := by
  have hindex := h.index hshort
  have hlt := h.lt
  exact ⟨h.request.symm, h.posting.symm, by omega, by omega⟩

theorem atomic_processFrame {incoming : List Packet} (h : Atomic sender (SeenBy sender e) e)
    (hsrc : Sourced sender incoming) (hp : p ∈ incoming) (hsep : Separate sender e p)
    (hs : processFrame e p = some e') : Atomic sender (SeenBy sender e') e' := by
  have hrefl : Grows sender sender := ⟨fun _ _ h => h, List.Subset.refl _⟩
  obtain ⟨frames, requests, released, hrec⟩ := recordFrame_eq e p
  rcases processFrame_cases hs with ⟨-, rfl⟩ | ⟨-, -, rfl⟩ | ⟨hid, hne, hs⟩
  · exact h.mono hrefl (fun o ho => ho) rfl rfl
  · rw [hrec]
    exact h.mono hrefl (fun o ho => ho) rfl rfl
  · rcases hsrc.packets p hp with hnil | ⟨s, hsi, hu, hmsgs⟩
    · exact absurd hnil hne
    rcases hsep with hdup | ⟨hfresh, hunmixed⟩
    · exact absurd hdup hid
    have hshort : Short sender s.request := by
      obtain ⟨m, hm⟩ := List.exists_mem_of_ne_nil _ hne
      obtain ⟨k, hk⟩ := List.mem_iff_getElem?.mp hm
      rw [← (hmsgs k m hk).request]
      exact (hunmixed m hm).short
    have hnd := CarriedOk.origins hshort hmsgs
    have hacc : Atomic sender (SeenBy sender e) (acceptFrame (recordFrame e p) p) := by
      rw [hrec]
      exact h.mono hrefl (fun o ho => ho) rfl rfl
    have hrecord : (acceptFrame (recordFrame e p) p).msgTransactionRecord =
        e.msgTransactionRecord := by
      rw [hrec]
      rfl
    have hcovers : ∀ m ∈ p.msgs, s.covers m.origin := by
      intro m hm
      obtain ⟨k, hk⟩ := List.mem_iff_getElem?.mp hm
      exact (hmsgs k m hk).covers hshort
    have hat := atomic_processMsgs s.request s.posting p.msgs hacc ?_ hnd hs
    · obtain ⟨memory, records, inPlay, events, rfl⟩ := processMsgs_eq _ hs
      refine hat.mono hrefl ?_ rfl rfl
      rintro o (⟨s', hs', hproc, hcov⟩ | ⟨m, hm, rfl⟩)
      · refine ⟨s', hs', ?_, hcov⟩
        rw [hrec]
        exact List.mem_cons_of_mem _ hproc
      · refine ⟨s, hsi, ?_, hcovers m hm⟩
        rw [hrec, hu]
        exact List.mem_cons_self
    · intro m hm
      obtain ⟨k, hk⟩ := List.mem_iff_getElem?.mp hm
      have hcarried := hmsgs k m hk
      have hum := hunmixed m hm
      refine ⟨hcarried.ok hshort, ⟨hum.copied, ?_, hum.short⟩, hcarried.request,
        hcarried.posting, ?_⟩
      · rw [hrecord]
        exact hum.own
      · -- an earlier frame with the same message would be this one
        rintro ⟨s', hs', hproc, hcov⟩
        have heq := hsrc.apart s hsi s' hs' m.origin hum.short (hcovers m hm) hcov
        rw [← heq, hu] at hproc
        exact hfresh hproc

/-- Only packets that arrive change what the receiver has written. -/
theorem atomic_step {op : Op} {incoming news : List Packet} (h : Atomic sender (SeenBy sender e) e)
    (hsrc : Sourced sender incoming) (hok : ∀ x p, op = .deliver x p → Separate sender e p)
    (hs : SideStep P e incoming e' news op) : Atomic sender (SeenBy sender e') e' := by
  have hrefl : Grows sender sender := ⟨fun _ _ h => h, List.Subset.refl _⟩
  cases op with
  | newRequest x id skipped copies flagAddr flagValue =>
    obtain ⟨tid, -, rfl⟩ := newRequest_eq hs.1
    exact h.mono hrefl (fun o ho => ho) rfl rfl
  | store x addr data =>
    obtain ⟨rfl, -⟩ := hs
    exact h.mono hrefl (fun o ho => ho) rfl rfl
  | startPost x id =>
    obtain ⟨r, -, -, rfl⟩ := startPost_eq hs.1
    exact h.mono hrefl (fun o ho => ho) rfl rfl
  | postFrame x id =>
    obtain ⟨p, he, -⟩ := hs
    obtain ⟨r, count, -, -, -, -, rfl, -⟩ := postFrame_eq he
    exact h.mono hrefl (fun o ho => ho) rfl rfl
  | sendAcks x =>
    obtain ⟨p, he, -⟩ := hs
    obtain ⟨-, rfl, -⟩ := sendAcks_eq he
    exact h.mono hrefl (fun o ho => ho) rfl rfl
  | resend x slot =>
    obtain ⟨p, -, rfl, -⟩ := hs
    exact h
  | deliver x p =>
    obtain ⟨hmem, he, -⟩ := hs
    exact atomic_processFrame h hsrc hmem (hok x p rfl) he

/-- The condition on a step. -/
def SeparateFrames (w : World) : Op → Prop
  | .deliver x p => Separate (w.ends x.peer) (w.ends x) p
  | _ => True

variable {memory : Side → Nat → UInt8} {framesInPlay : Side → Nat} {ok : World → Op → Prop}

theorem sourced_of_reach (h : Reach (step P) ok (World.init memory framesInPlay) w) (x : Side) :
    Sourced (w.ends x) (w.sent x) :=
  side_invariant h (fun _ => sourced_new _ _)
    (fun _ _ _ _ _ _ hJ hside => (sourced_step hJ hside).1) x

theorem atomic_of_reach (h : Reach (step P) SeparateFrames (World.init memory framesInPlay) w)
    (x : Side) :
    Atomic (w.ends x.peer) (SeenBy (w.ends x.peer) (w.ends x)) (w.ends x) := by
  refine h.induct (P := fun w => ∀ x, Atomic (w.ends x.peer)
    (SeenBy (w.ends x.peer) (w.ends x)) (w.ends x)) ?_ ?_ x
  · intro x
    refine ⟨?_, ?_⟩
    · intro later request posting earlier heq
      simp [World.init, Endpoint.new] at heq
    · simp [World.init, Endpoint.new]
  · intro w op w' hr hJ hok hs y
    obtain ⟨e', news, hside, rfl⟩ := step_side hs
    rcases Side.eq_or_eq_peer op.side y with rfl | rfl
    · simp only [Function.update_self, Function.update_of_ne (Side.peer_ne _)]
      refine atomic_step (hJ op.side) (sourced_of_reach hr _) ?_ hside
      rintro x p rfl
      exact hok
    · simp only [Side.peer_peer, Function.update_self, Function.update_of_ne (Side.peer_ne _)]
      have hpeer := hJ op.side.peer
      rw [Side.peer_peer] at hpeer
      have hg := (sourced_step (sourced_of_reach hr op.side) hside).2
      refine hpeer.mono hg ?_ rfl rfl
      rintro o ⟨s, hs, hproc, hcov⟩
      exact ⟨s, hg.issued hs, hproc, hcov⟩

/-- **The flag is written after the data** in a run in which frames are separate. -/
theorem flag_after_data_of_separateFrames
    (h : Reach (step P) SeparateFrames (World.init memory framesInPlay) w) (x : Side) :
    FlagsOk (w.ends x.peer) (w.ends x).log.events :=
  (atomic_of_reach h x).flags

instance (sender e : Endpoint) (m : Msg) : Decidable (Unmixed sender e m) :=
  decidable_of_iff ((m.isCopied ∨ m.data = []) ∧
      ((e.msgTransactionRecord 0).inUse →
        (e.msgTransactionRecord 0).opened = (m.origin.request, m.origin.posting)) ∧
      ∀ ms ∈ sender.messagesOf m.origin.request, ms.length < 2 ^ 16)
    ⟨fun ⟨h₁, h₂, h₃⟩ => ⟨h₁, h₂, h₃⟩, fun ⟨h₁, h₂, h₃⟩ => ⟨h₁, h₂, h₃⟩⟩

instance (w : World) : (op : Op) → Decidable (SeparateFrames w op)
  | .deliver x p => inferInstanceAs
      (Decidable (((w.ends x).frameSeqRecord (p.frameSeq &&& MAX_FRAME_HISTORY)).id = p.frameSeq ∨
        (p.uid ∉ (w.ends x).log.processed ∧
          ∀ m ∈ p.msgs, Unmixed (w.ends x.peer) (w.ends x) m)))
  | .newRequest .. | .store .. | .startPost .. | .postFrame .. | .sendAcks _ | .resend .. =>
    .isTrue trivial

/-- Two messages of eight bytes and their flag. -/
theorem flag_after_two_messages : ∃ w ∈ exec (checked (step 512) SeparateFrames) quiet
      [.newRequest .near 0 0 [⟨0, 64, 8⟩, ⟨8, 72, 8⟩] 128 1, .startPost .near 0,
       .postFrame .near 0,
       .deliver .far ⟨0, 1, 0, 0, [⟨⟨0, 1, 0⟩, 1, 128, 1, 2, 64, List.replicate 8 0⟩,
         ⟨⟨0, 1, 1⟩, 1, 128, 1, 2, 72, List.replicate 8 0⟩]⟩],
    .flag 0 1 ∈ (w.ends .far).log.events ∧ FlagsOk (w.ends .near) (w.ends .far).log.events := by
  have hrun : ∃ w ∈ exec (checked (step 512) SeparateFrames) quiet
      [.newRequest .near 0 0 [⟨0, 64, 8⟩, ⟨8, 72, 8⟩] 128 1, .startPost .near 0,
       .postFrame .near 0,
       .deliver .far ⟨0, 1, 0, 0, [⟨⟨0, 1, 0⟩, 1, 128, 1, 2, 64, List.replicate 8 0⟩,
         ⟨⟨0, 1, 1⟩, 1, 128, 1, 2, 72, List.replicate 8 0⟩]⟩],
      .flag 0 1 ∈ (w.ends .far).log.events := by decide +kernel
  obtain ⟨w, hw, hflag⟩ := hrun
  exact ⟨w, hw, hflag, flag_after_data_of_separateFrames (reach_of_exec_checked _ hw) .far⟩

/-- Two requests of two frames each are under way. The first frames of both arrive, and the flag of
the second request is written although its second frame has not arrived. -/
theorem flag_before_data : ¬ ∀ (P : Nat) (memory : Side → Nat → UInt8)
    (framesInPlay : Side → Nat) (w : World),
    Reach (step P) anyStep (World.init memory framesInPlay) w →
      ∀ x, FlagsOk (w.ends x.peer) (w.ends x).log.events := by
  intro hall
  have hrun : ∃ w ∈ exec (step 512) quiet
      [.newRequest .near 0 0 [⟨0, 0, 478⟩] 2000 1, .newRequest .near 1 0 [⟨0, 1000, 478⟩] 2004 1,
       .startPost .near 0, .postFrame .near 0, .postFrame .near 0,
       .startPost .near 1, .postFrame .near 1, .postFrame .near 1,
       .deliver .far ⟨0, 1, 0, 0, [⟨⟨0, 1, 0⟩, 1, 2000, 1, 2, 0, List.replicate 470 0⟩]⟩,
       .deliver .far ⟨2, 3, 0, 0, [⟨⟨1, 1, 0⟩, 2, 2004, 1, 2, 1000, List.replicate 470 0⟩]⟩],
      (w.ends .near).messagesOf 1 = some [⟨0, 1000, 470⟩, ⟨470, 1470, 8⟩] ∧
      (w.ends .far).log.events =
        [.flag 1 1, .copy ⟨1, 1, 0⟩ 1000 470, .copy ⟨0, 1, 0⟩ 0 470] := by decide +kernel
  obtain ⟨w, hw, hms, hev⟩ := hrun
  obtain ⟨ms, hms', hcopied⟩ := hall 512 _ _ w (reach_of_exec _ hw) .far [] 1 1 _ hev
  have hms'' : (w.ends .near).messagesOf 1 = some ms := hms'
  rw [hms, Option.some.injEq] at hms''
  subst hms''
  obtain ⟨c, hc, hdata⟩ := hcopied 1 (by decide)
  rw [← Option.some.inj hc] at hdata
  have hmem := hdata (by decide)
  revert hmem
  decide

end OpenCpi.Datagram
