import OpenCpi.Datagram.Wire
import OpenCpi.Infra.Stretch

/-!
# Frames are packed and walked alike

The sender packs messages into frames greedily and marks all messages of a frame but the last; the
receiver finds the same messages again. This goes wrong when a frame has room for a fifth message:
each message takes two entries of `iov`, the header two more, and `iov` has `MAX_MSGS + 1` entries.
-/

namespace OpenCpi.Datagram.Wire

open Infra

variable {memory : Memory} {m : Message} {g t done rest : List Message} {hdr : FrameHeader}
  {left : Nat}

/-! ## What a frame should carry -/

/-- The message with `nextMsg` set. -/
def Message.mark (b : UInt8) (m : Message) : Message :=
  { m with hdr := { m.hdr with nextMsg := b } }

/-- The messages of a frame: all but the last are followed by another one. -/
def flagged : List Message → List Message
  | [] => []
  | [m] => [m.mark 0]
  | m :: m' :: rest => m.mark 1 :: flagged (m' :: rest)

/-- A message as the receiver sees it: the header and the data. -/
def Message.visit (memory : Memory) (m : Message) : MsgHeader × List UInt8 :=
  (m.hdr, readBytes memory m.srcAdr m.hdr.dataLen.toNat)

/-- A frame that is not too long and in which the receiver visits the messages of a group. -/
structure Carries (maxPayload : Nat) (memory : Memory) (g : List Message) (f : Posted) : Prop where
  count : f.msgCount = g.length
  small : f.bytes.length ≤ maxPayload
  walked : walkFrame f.bytes = some ((flagged g).map (Message.visit memory))

/-- Each message is in one frame, in order, and the receiver visits what was packed. -/
def FramesAgree (maxPayload : Nat) (memory : Memory) (t : List Message) (frames : List Posted) :
    Prop :=
  ∃ groups : List (List Message), groups.flatten = t ∧
    List.Forall₂ (Carries maxPayload memory) groups frames

/-- The room that some messages take in a frame. -/
def room (g : List Message) : Nat := (g.map Message.need).sum

/-- The condition: there is a free slot for each longest stretch of messages that fits into a frame, and
no such stretch has more than four messages. -/
inductive Placeable (left : Nat) : List (Option FrameHeader) → List Message → Prop
  | done (slots : List (Option FrameHeader)) : Placeable left slots []
  | frame {hdr : FrameHeader} {slots : List (Option FrameHeader)} {g rest : List Message}
      (nonempty : g ≠ []) (few : g.length ≤ 4) (fits : room g ≤ left)
      (full : ∀ m ∈ rest.head?, left < room g + m.need) (next : Placeable left slots rest) :
      Placeable left (some hdr :: slots) (g ++ rest)

@[simp] theorem room_nil : room [] = 0 := rfl

@[simp] theorem room_cons (m : Message) (g : List Message) : room (m :: g) = m.need + room g := by
  unfold room
  rw [List.map_cons, List.sum_cons]

@[simp] theorem need_mark (b : UInt8) (m : Message) : (m.mark b).need = m.need := rfl

theorem flagged_cons_of_ne_nil (hne : g ≠ []) (m : Message) :
    flagged (m :: g) = m.mark 1 :: flagged g := by
  obtain ⟨m', rest, rfl⟩ := List.exists_cons_of_ne_nil hne
  rfl

@[simp] theorem flagged_length : ∀ g : List Message, (flagged g).length = g.length
  | [] => rfl
  | [_] => rfl
  | m :: m' :: rest => by
    rw [flagged, List.length_cons, flagged_length]
    rfl

theorem room_flagged : ∀ g : List Message, room (flagged g) = room g
  | [] => rfl
  | [_] => rfl
  | m :: m' :: rest => by rw [flagged, room_cons, room_flagged, room_cons m, need_mark]

/-! ## Headers -/

/-- **The header is read as it was written.** -/
theorem ofBytes_toBytes (h : MsgHeader) (rest : List UInt8) :
    MsgHeader.ofBytes (h.toBytes ++ rest) = (h, rest) := by
  have h4 (v : UInt32) : v.toNat < 256 ^ 4 := v.toNat_lt
  have h2 (v : UInt16) : v.toNat < 256 ^ 2 := v.toNat_lt
  have h1 (v : UInt8) : v.toNat < 256 ^ 1 := v.toNat_lt
  unfold MsgHeader.ofBytes MsgHeader.toBytes
  simp only [List.append_assoc, takeWord_leBytes, h4, h2, h1, UInt32.ofNat_toNat, UInt16.ofNat_toNat,
    UInt8.ofNat_toNat]

@[simp] theorem toBytes_length (h : MsgHeader) : h.toBytes.length = msgHeaderSize := by
  simp only [MsgHeader.toBytes, List.length_append, leBytes_length]
  rfl

@[simp] theorem frameToBytes_length (h : FrameHeader) : h.toBytes.length = frameHeaderSize := by
  simp only [FrameHeader.toBytes, List.length_append, leBytes_length]
  rfl

/-- The flags are the last byte of the frame header. -/
theorem frameToBytes_flags (h : FrameHeader) (pad rest : List UInt8) (hpad : pad.length = 2) :
    (pad ++ (h.toBytes ++ rest)).getD (frameHeaderSize + 1) 0 = h.flags := by
  obtain ⟨front, hfront, hlast⟩ : ∃ front : List UInt8, front.length = 9 ∧
      h.toBytes = front ++ [h.flags] := by
    refine ⟨leBytes 2 h.destId.toNat ++ (leBytes 2 h.srcId.toNat ++ (leBytes 2 h.frameSeq.toNat ++
      (leBytes 2 h.ackStart.toNat ++ leBytes 1 h.ackCount.toNat))), ?_, ?_⟩
    · simp only [List.length_append, leBytes_length]
    · have hflags : leBytes 1 h.flags.toNat = [h.flags] := by
        rw [leBytes_succ, UInt8.ofNat_toNat]
        rfl
      rw [FrameHeader.toBytes, hflags]
      simp only [List.append_assoc]
  have hlen : (pad ++ front).length = frameHeaderSize + 1 := by
    rw [List.length_append, hpad, hfront]
    rfl
  rw [hlast, List.append_assoc, ← List.append_assoc, ← hlen, List.getD_append_right _ _ _ _ le_rfl,
    Nat.sub_self]
  rfl

/-! ## The bytes of a frame -/

/-- Messages on the wire. -/
def wire (memory : Memory) (g : List Message) : List UInt8 :=
  g.flatMap fun m => m.hdr.toBytes ++ readBytes memory m.srcAdr m.paddedLen

/-- The entries of `iov` for some messages. -/
def entries : Nat → List Message → List IOVec
  | _, [] => []
  | n, m :: rest => .msgHdr n :: .data m.srcAdr m.paddedLen :: entries (n + 1) rest

theorem wire_cons (memory : Memory) (m : Message) (g : List Message) :
    wire memory (m :: g) =
      m.hdr.toBytes ++ (readBytes memory m.srcAdr m.paddedLen ++ wire memory g) := by
  unfold wire
  rw [List.flatMap_cons, List.append_assoc]

theorem wire_length (memory : Memory) (g : List Message) : (wire memory g).length = room g := by
  induction g with
  | nil => rfl
  | cons m g ih =>
    rw [wire_cons, List.length_append, List.length_append, toBytes_length, readBytes_length, ih,
      room_cons, Message.need, Nat.add_assoc]

theorem entries_length (n : Nat) (g : List Message) : (entries n g).length = 2 * g.length := by
  induction g generalizing n with
  | nil => rfl
  | cons m g ih =>
    rw [entries, List.length_cons, List.length_cons, ih, List.length_cons]
    omega

theorem entries_flagged : ∀ (n : Nat) (g : List Message), entries n (flagged g) = entries n g
  | _, [] => rfl
  | _, [_] => rfl
  | n, m :: m' :: rest => by
    rw [flagged, entries, entries_flagged, entries]
    rfl

/-- What is gathered for the entries of some messages of the transaction. -/
theorem gather_entries (memory : Memory) (hdr : FrameHeader) (rest g done : List Message) :
    gather memory hdr (done ++ (g ++ rest)) (entries done.length g) = wire memory g := by
  induction g generalizing done with
  | nil => rfl
  | cons m g ih =>
    have hnext := ih (done ++ [m])
    rw [List.length_append, List.length_singleton, List.append_assoc, List.singleton_append] at hnext
    have hget : (done ++ m :: (g ++ rest))[done.length]? = some m := by
      rw [List.getElem?_append_right le_rfl, Nat.sub_self, List.getElem?_cons_zero]
    unfold gather at *
    rw [entries, List.flatMap_cons, List.flatMap_cons, List.cons_append, hnext, gatherEntry, hget,
      wire_cons]
    rfl

/-! ## Walking -/

theorem dataLen_le_paddedLen (m : Message) : m.hdr.dataLen.toNat ≤ m.paddedLen := by
  unfold Message.paddedLen
  omega

/-- **The receiver finds the messages of a frame again.** -/
theorem walk_wire (memory : Memory) : ∀ {n : Nat} {g : List Message}, g ≠ [] → g.length ≤ n →
    walk n (wire memory (flagged g)) = some ((flagged g).map (Message.visit memory))
  | 0, g, hne, hn => absurd (List.length_eq_zero_iff.mp (Nat.le_zero.mp hn)) hne
  | n + 1, [m], _, _ => by
    have hlen : ¬(wire memory [m.mark 0]).length < msgHeaderSize := by
      rw [wire_length, room_cons, Message.need]
      omega
    rw [flagged, walk, if_neg hlen, wire_cons, ofBytes_toBytes]
    dsimp only
    rw [List.take_append_of_le_length (by rw [readBytes_length]; exact dataLen_le_paddedLen _),
      readBytes_take _ _ (dataLen_le_paddedLen _)]
    rfl
  | n + 1, m :: m' :: rest, _, hn => by
    have hlen : ¬(wire memory (m.mark 1 :: flagged (m' :: rest))).length < msgHeaderSize := by
      rw [wire_length, room_cons, Message.need]
      omega
    have ih := walk_wire memory (n := n) (g := m' :: rest) (List.cons_ne_nil _ _)
      (Nat.le_of_succ_le_succ hn)
    have hpad : ((m.mark 1).hdr.dataLen.toNat + 7) / 8 * 8 = (m.mark 1).paddedLen := rfl
    have hone : (1 : UInt8) ≠ 0 := by decide
    have hnext : (m.mark 1).hdr.nextMsg ≠ 0 := hone
    rw [flagged, walk, if_neg hlen, wire_cons, ofBytes_toBytes]
    dsimp only
    rw [if_neg hnext, hpad, List.drop_left' (readBytes_length _ _ _), ih,
      List.take_append_of_le_length (by rw [readBytes_length]; exact dataLen_le_paddedLen _),
      readBytes_take _ _ (dataLen_le_paddedLen _)]
    rfl

/-- The bytes of a frame: a pad, the frame header, the messages. -/
def frameBytes (memory : Memory) (hdr : FrameHeader) (g : List Message) : List UInt8 :=
  hdr.toBytes.take 2 ++ (hdr.toBytes ++ wire memory g)

theorem frameBytes_length (memory : Memory) (hdr : FrameHeader) (g : List Message) :
    (frameBytes memory hdr g).length = frameHeaderSize + 2 + room g := by
  have htwo : 2 ≤ frameHeaderSize := by decide
  rw [frameBytes, List.length_append, List.length_append, List.length_take, frameToBytes_length,
    wire_length, Nat.min_eq_left htwo]
  omega

/-- A frame with messages is walked through to the end. -/
theorem walkFrame_frameBytes (memory : Memory) {hdr : FrameHeader} (hne : g ≠ [])
    (hflag : hdr.flags &&& FRAME_FLAG_HAS_MESSAGES ≠ 0) :
    walkFrame (frameBytes memory hdr (flagged g)) =
      some ((flagged g).map (Message.visit memory)) := by
  have hpad : (hdr.toBytes.take 2).length = 2 := by
    rw [List.length_take, frameToBytes_length]
    rfl
  have hdrop : (frameBytes memory hdr (flagged g)).drop (frameHeaderSize + 2) =
      wire memory (flagged g) := by
    rw [frameBytes, ← List.append_assoc]
    refine List.drop_left' ?_
    rw [List.length_append, hpad, frameToBytes_length, Nat.add_comm]
  have hlong : g.length ≤ (wire memory (flagged g)).length := by
    rw [wire_length, room_flagged]
    clear hne hdrop
    induction g with
    | nil => exact Nat.zero_le _
    | cons m g ih =>
      rw [List.length_cons, room_cons, Message.need, msgHeaderSize]
      omega
  rw [walkFrame, hdrop, frameBytes, frameToBytes_flags _ _ _ hpad, if_neg hflag]
  exact walk_wire memory hne hlong

/-! ## Filling a frame -/

theorem setNextMsg_at (done rest : List Message) (m : Message) (b : UInt8) :
    setNextMsg (done ++ m :: rest) done.length b = done ++ m.mark b :: rest := by
  induction done with
  | nil => rfl
  | cons d done ih =>
    unfold setNextMsg at *
    rw [List.cons_append, List.length_cons, List.modify_succ_cons, ih]
    rfl

theorem setNextMsg_twice (t : List Message) (i : Nat) (b : UInt8) :
    setNextMsg (setNextMsg t i b) i b = setNextMsg t i b := by
  unfold setNextMsg
  rw [List.modify_modify_eq]
  rfl

theorem flagged_concat (g : List Message) (m : Message) :
    flagged (g ++ [m]) = g.map (Message.mark 1) ++ [m.mark 0] := by
  induction g with
  | nil => rfl
  | cons m' g ih =>
    rw [List.cons_append, flagged_cons_of_ne_nil (by simp), ih]
    rfl

/-- The last message of a frame is unmarked when the frame is done. -/
theorem setNextMsg_last (hne : g ≠ []) (done rest : List Message) :
    setNextMsg (done ++ (g.map (Message.mark 1) ++ rest)) (done.length + g.length - 1) 0 =
      done ++ (flagged g ++ rest) := by
  obtain ⟨front, m, rfl⟩ := (List.eq_nil_or_concat' g).resolve_left hne
  have hlen : done.length + (front ++ [m]).length - 1 =
      (done ++ front.map (Message.mark 1)).length := by
    rw [List.length_append, List.length_append, List.length_map, List.length_singleton]
    omega
  have hat := setNextMsg_at (done ++ front.map (Message.mark 1)) rest (m.mark 1) 0
  have hmark : (m.mark 1).mark 0 = m.mark 0 := rfl
  rw [← hlen, hmark] at hat
  rw [flagged_concat, List.map_append]
  simpa only [List.append_assoc, List.map_cons, List.map_nil, List.singleton_append] using hat

/-! ## One frame -/

theorem put_eq (done rest : List Message) (m : Message) (left : Nat) {iov : List IOVec} {count : Nat}
    (hiov : iov.length + 2 ≤ MAX_MSGS + 1) (hmsg : done.length + 1 < 2 ^ 16)
    (hcount : count + 1 < 2 ^ 16) :
    Filling.put ⟨done ++ m :: rest, done.length, left, iov, count⟩ m =
      some ⟨done ++ m.mark 1 :: rest, done.length + 1, left - m.need,
        iov ++ [.msgHdr done.length, .data m.srcAdr m.paddedLen], count + 1⟩ := by
  have h₁ : iov.length < MAX_MSGS + 1 := by omega
  have h₂ : (iov ++ [IOVec.msgHdr done.length]).length < MAX_MSGS + 1 := by
    rw [List.length_append, List.length_singleton]
    omega
  unfold Filling.put addIov
  dsimp only
  rw [if_pos h₁, Option.bind_some, if_pos h₂, Option.map_some, setNextMsg_at,
    Nat.mod_eq_of_lt hmsg, Nat.mod_eq_of_lt hcount, List.append_assoc]
  rfl

/-- A fifth message does not go into `iov`. -/
theorem put_eq_none {s : Filling} (hiov : s.iov.length = MAX_MSGS) (m : Message) :
    s.put m = none := by
  have h₁ : s.iov.length < MAX_MSGS + 1 := by omega
  have h₂ : ¬(s.iov ++ [IOVec.msgHdr s.msg]).length < MAX_MSGS + 1 := by
    rw [List.length_append, List.length_singleton]
    omega
  unfold Filling.put addIov
  rw [if_pos h₁, Option.bind_some, if_neg h₂]
  rfl

/-- The messages of a group go into the frame one after the other. -/
theorem stuff_group (n : Nat) (rest : List Message) : ∀ (g done : List Message) (iov : List IOVec)
    (left count : Nat),
    room g ≤ left → iov.length + 2 * g.length ≤ MAX_MSGS + 1 → done.length + g.length < 2 ^ 16 →
    count + g.length < 2 ^ 16 →
    stuff (g.length + n) ⟨done ++ (g ++ rest), done.length, left, iov, count⟩ =
      stuff n ⟨done ++ (g.map (Message.mark 1) ++ rest), done.length + g.length, left - room g,
        iov ++ entries done.length g, count + g.length⟩
  | [], _, _, _, _, _, _, _, _ => by
    rw [List.length_nil, Nat.zero_add, room_nil, entries, List.append_nil]
    rfl
  | m :: g, done, iov, left, count, hroom, hiov, hmsg, hcount => by
    rw [room_cons] at hroom
    rw [List.length_cons] at hiov hmsg hcount
    have hneed : 0 < m.need := Nat.lt_of_lt_of_le (by decide : 0 < msgHeaderSize) (Nat.le_add_right _ _)
    have hget : (done ++ (m :: g ++ rest))[done.length]? = some m := by
      rw [List.getElem?_append_right le_rfl, Nat.sub_self, List.cons_append, List.getElem?_cons_zero]
    have hput := put_eq done (g ++ rest) m left (by omega : iov.length + 2 ≤ MAX_MSGS + 1)
      (by omega) (by omega : count + 1 < 2 ^ 16)
    have ih := stuff_group n rest g (done ++ [m.mark 1])
      (iov ++ [.msgHdr done.length, .data m.srcAdr m.paddedLen]) (left - m.need) (count + 1) (by omega)
      (by rw [List.length_append, List.length_cons, List.length_singleton]; omega)
      (by rw [List.length_append, List.length_singleton]; omega) (by omega)
    rw [List.length_append, List.length_singleton, List.append_assoc, List.singleton_append] at ih
    rw [List.length_cons, Nat.add_right_comm, stuff]
    dsimp only
    rw [if_neg (by omega : ¬left = 0), hget]
    dsimp only
    rw [if_neg (by omega : ¬left < m.need), List.cons_append, hput, Option.bind_some, ih, room_cons,
      entries, List.map_cons]
    simp only [List.append_assoc, List.cons_append, List.nil_append]
    congr 2
    · omega
    · omega
    · omega

/-- The loop ends where the next message does not fit. -/
theorem stuff_stop (rest : List Message) (left : Nat) (iov : List IOVec) (count : Nat)
    (hdone : done ≠ []) (hfull : ∀ m ∈ rest.head?, left < m.need) :
    ∃ t', stuff rest.length ⟨done ++ rest, done.length, left, iov, count⟩ =
        some ⟨t', done.length, left, iov, count⟩ ∧
      setNextMsg t' (done.length - 1) 0 = setNextMsg (done ++ rest) (done.length - 1) 0 := by
  cases rest with
  | nil => exact ⟨_, rfl, rfl⟩
  | cons m rest =>
    by_cases hleft : left = 0
    · exact ⟨done ++ m :: rest, by rw [List.length_cons, stuff]; exact if_pos hleft, rfl⟩
    · have hget : (done ++ m :: rest)[done.length]? = some m := by
        rw [List.getElem?_append_right le_rfl, Nat.sub_self, List.getElem?_cons_zero]
      refine ⟨setNextMsg (done ++ m :: rest) (done.length - 1) 0, ?_, setNextMsg_twice _ _ _⟩
      rw [List.length_cons, stuff]
      dsimp only
      rw [if_neg hleft, hget]
      dsimp only
      rw [if_pos (hfull m rfl), if_neg (mt List.length_eq_zero_iff.mp hdone)]

/-- **One frame.** A group of at most four messages that fits and cannot grow is what the frame takes. -/
theorem stuff_frame (hne : g ≠ []) (hfew : g.length ≤ 4) (hfits : room g ≤ left)
    (hfull : ∀ m ∈ rest.head?, left < room g + m.need) (hmsg : done.length + g.length < 2 ^ 16) :
    ∃ s, stuff (g ++ rest).length
        ⟨done ++ (g ++ rest), done.length, left, [.pad, .frameHdr], 0⟩ = some s ∧
      s.msg = done.length + g.length ∧ s.msgCount = g.length ∧
      s.iov = [.pad, .frameHdr] ++ entries done.length g ∧
      setNextMsg s.t (s.msg - 1) 0 = done ++ (flagged g ++ rest) := by
  have hiov : [IOVec.pad, .frameHdr].length + 2 * g.length ≤ MAX_MSGS + 1 := by
    simp only [List.length_cons, List.length_nil, MAX_MSGS]
    omega
  have hgroup := stuff_group rest.length rest g done [.pad, .frameHdr] left 0 hfits hiov hmsg (by omega)
  have hlen : (done ++ g.map (Message.mark 1)).length = done.length + g.length := by
    rw [List.length_append, List.length_map]
  have hmarked : done ++ g.map (Message.mark 1) ≠ [] := by simp [hne]
  obtain ⟨t', hstop, hmarks⟩ := stuff_stop rest (left - room g)
    ([.pad, .frameHdr] ++ entries done.length g) (0 + g.length) hmarked (fun m hm => by
      have := hfull m hm
      omega)
  rw [hlen, List.append_assoc] at hstop hmarks
  refine ⟨⟨t', done.length + g.length, left - room g,
    [.pad, .frameHdr] ++ entries done.length g, 0 + g.length⟩, ?_, rfl, Nat.zero_add _, rfl, ?_⟩
  · rw [List.length_append, hgroup, hstop]
  · dsimp only
    rw [hmarks]
    exact setNextMsg_last hne done rest

/-- A fifth message that fits stops the program. -/
theorem stuff_overflow (hmany : 4 < g.length) (hfits : room g ≤ left)
    (hmsg : done.length + g.length < 2 ^ 16) :
    stuff (g ++ rest).length ⟨done ++ (g ++ rest), done.length, left, [.pad, .frameHdr], 0⟩ = none := by
  obtain ⟨four, m, g', hfour, rfl⟩ : ∃ (four : List Message) (m : Message) (g' : List Message),
      four.length = 4 ∧ g = four ++ m :: g' := by
    refine ⟨g.take 4, g[4], g.drop 5, ?_, ?_⟩
    · rw [List.length_take]
      omega
    · rw [List.getElem_cons_drop, List.take_append_drop]
  have hroom : room (four ++ m :: g') = room four + (m.need + room g') := by
    unfold room
    rw [List.map_append, List.sum_append, List.map_cons, List.sum_cons]
  rw [hroom] at hfits
  rw [List.length_append, hfour] at hmsg
  have hneed : 0 < m.need := Nat.lt_of_lt_of_le (by decide : 0 < msgHeaderSize) (Nat.le_add_right _ _)
  have hgroup := stuff_group (m :: g' ++ rest).length (m :: g' ++ rest) four done [.pad, .frameHdr] left 0
    (by omega)
    (by rw [hfour]; decide) (by omega) (by omega)
  have hlen : (done ++ four.map (Message.mark 1)).length = done.length + four.length := by
    rw [List.length_append, List.length_map]
  have hget : (done ++ (four.map (Message.mark 1) ++ (m :: g' ++ rest)))[done.length + four.length]? =
      some m := by
    rw [← List.append_assoc, ← hlen, List.getElem?_append_right le_rfl, Nat.sub_self]
    rfl
  have hiov : ([IOVec.pad, .frameHdr] ++ entries done.length four).length = MAX_MSGS := by
    rw [List.length_append, entries_length, hfour]
    rfl
  rw [List.append_assoc, List.length_append, hgroup, List.cons_append, List.length_cons, stuff]
  dsimp only
  rw [if_neg (by omega), ← List.cons_append, hget]
  dsimp only
  rw [if_neg (by omega), put_eq_none hiov]
  rfl

/-! ## All frames -/

/-- The header of a frame with messages when it is sent. -/
def withMessages (hdr : FrameHeader) : FrameHeader :=
  { hdr with flags := hdr.flags ||| FRAME_FLAG_HAS_MESSAGES }

theorem withMessages_flags (hdr : FrameHeader) :
    (withMessages hdr).flags &&& FRAME_FLAG_HAS_MESSAGES ≠ 0 := by
  intro h
  have hbit : ((hdr.flags ||| 1) &&& 1).toNat.testBit 0 = true := by
    rw [UInt8.toNat_and, UInt8.toNat_or, Nat.testBit_and, Nat.testBit_or]
    simp
  have hzero : (hdr.flags ||| 1) &&& 1 = 0 := h
  rw [hzero] at hbit
  cases hbit

/-- What one turn of the outer loop sends. -/
theorem postLoop_frame {maxPayload n : Nat} {slots : List (Option FrameHeader)} (hne : g ≠ [])
    (hfew : g.length ≤ 4) (hleft : sizeSub maxPayload (frameHeaderSize + 2) = left)
    (hfits : room g ≤ left) (hfull : ∀ m ∈ rest.head?, left < room g + m.need)
    (hmsg : done.length + g.length < 2 ^ 16) :
    postLoop maxPayload memory (n + 1) (some hdr :: slots) (done ++ (g ++ rest)) done.length =
      (postLoop maxPayload memory n slots ((done ++ flagged g) ++ rest) (done ++ flagged g).length).map
        (⟨done.length, g.length, frameBytes memory (withMessages hdr) (flagged g)⟩ :: ·) := by
  obtain ⟨s, hstuff, hm, hcount, hiov, ht⟩ := stuff_frame hne hfew hfits hfull hmsg
  have hpos : 0 < g.length := List.length_pos_iff.mpr hne
  have hlt : done.length < (done ++ (g ++ rest)).length := by
    rw [List.length_append, List.length_append]
    omega
  have hsub : (done ++ (g ++ rest)).length - done.length = (g ++ rest).length := by
    rw [List.length_append, Nat.add_sub_cancel_left]
  have hlen : (done ++ flagged g).length = s.msg := by
    rw [List.length_append, flagged_length, hm]
  have hcount0 : ¬s.msgCount = 0 := by omega
  have hsend : send memory hdr done.length { s with t := done ++ (flagged g ++ rest) } =
      ⟨done.length, g.length, frameBytes memory (withMessages hdr) (flagged g)⟩ := by
    have hgather := gather_entries memory (withMessages hdr) rest (flagged g) done
    rw [entries_flagged] at hgather
    unfold send
    dsimp only
    rw [if_neg hcount0, hcount, hiov]
    unfold gather at *
    rw [List.flatMap_append, withMessages] at *
    rw [hgather]
    rfl
  rw [postLoop, if_pos hlt, hsub, hleft]
  dsimp only
  rw [hstuff, Option.bind_some, if_neg (by omega), ht, hsend, hlen, List.append_assoc]

/-- The longest stretch of messages that fits. -/
theorem exists_stretch (left : Nat) (t : List Message) : ∃ g rest, t = g ++ rest ∧ room g ≤ left ∧
    ∀ m ∈ rest.head?, left < room g + m.need := by
  obtain ⟨g, rest, ht, hstretch⟩ := Infra.exists_stretch Message.need left t
  exact ⟨g, rest, ht, hstretch.fits, hstretch.full⟩

/-- The number of messages that the model of transfers puts into a frame. -/
def Message.plain (m : Message) : Datagram.Message :=
  ⟨m.srcAdr, m.hdr.dataAddr.toNat, m.hdr.dataLen.toNat⟩

/-- **The model of transfers packs the same messages** into a frame. -/
theorem fillFrame_stretch (hfits : room g ≤ left) (hfull : ∀ m ∈ rest.head?, left < room g + m.need) :
    fillFrame left ((g ++ rest).map Message.plain) = g.length := by
  induction g generalizing left with
  | nil =>
    cases rest with
    | nil => rfl
    | cons m rest =>
      have hm := hfull m rfl
      rw [room_nil, Nat.zero_add, Message.need, Message.paddedLen] at hm
      exact if_pos (Or.inr hm)
  | cons m g ih =>
    rw [room_cons] at hfits
    have hneed : 0 < m.need := Nat.lt_of_lt_of_le (by decide : 0 < msgHeaderSize) (Nat.le_add_right _ _)
    have hgo : ¬(left = 0 ∨ left < msgHeaderSize + (m.plain.dataLen + 7) / 8 * 8) := by
      intro h
      have : msgHeaderSize + (m.plain.dataLen + 7) / 8 * 8 = m.need := rfl
      omega
    have hnext : fillFrame (left - m.need) ((g ++ rest).map Message.plain) = g.length := by
      refine ih (by omega) fun m' hm' => ?_
      have := hfull m' hm'
      rw [room_cons] at this
      omega
    rw [List.cons_append, List.map_cons, fillFrame, if_neg hgo, List.length_cons, Nat.add_comm 1]
    exact congrArg (· + 1) hnext

theorem framesAgree_of_placeable {maxPayload n : Nat} {slots : List (Option FrameHeader)}
    (hleft : sizeSub maxPayload (frameHeaderSize + 2) = left) (hmax : frameHeaderSize + 2 + left ≤ maxPayload)
    (h : Placeable left slots t) (hn : t.length ≤ n) (hmsg : done.length + t.length < 2 ^ 16) :
    ∃ frames, postLoop maxPayload memory n slots (done ++ t) done.length = some frames ∧
      FramesAgree maxPayload memory t frames := by
  induction h generalizing n done with
  | done slots =>
    refine ⟨[], ?_, [], rfl, .nil⟩
    have hend : ¬done.length < (done ++ []).length := by
      rw [List.append_nil]
      omega
    cases n with
    | zero => exact if_neg hend
    | succ n => exact if_neg hend
  | @frame hdr slots g rest hne hfew hfits hfull _ ih =>
    have hpos : 0 < g.length := List.length_pos_iff.mpr hne
    rw [List.length_append] at hn hmsg
    obtain ⟨n, rfl⟩ := Nat.exists_eq_add_of_lt (by omega : 0 < n)
    have hmsg' : (done ++ flagged g).length + rest.length < 2 ^ 16 := by
      rw [List.length_append, flagged_length]
      omega
    obtain ⟨frames, hpost, groups, hflat, hcarries⟩ := ih (by omega : rest.length ≤ n) hmsg'
    rw [Nat.zero_add, postLoop_frame hne hfew hleft hfits hfull (by omega), hpost]
    refine ⟨_, rfl, g :: groups, by rw [List.flatten_cons, hflat], .cons ⟨rfl, ?_, ?_⟩ hcarries⟩
    · dsimp only
      rw [frameBytes_length, room_flagged]
      omega
    · exact walkFrame_frameBytes memory hne (withMessages_flags hdr)

theorem placeable_of_postLoop {maxPayload : Nat}
    (hleft : sizeSub maxPayload (frameHeaderSize + 2) = left) : ∀ {n : Nat}
    {slots : List (Option FrameHeader)} {t done : List Message} {frames : List Posted},
    (∀ m ∈ t, m.need ≤ left) → done.length + t.length < 2 ^ 16 →
    postLoop maxPayload memory n slots (done ++ t) done.length = some frames → Placeable left slots t
  | _, slots, [], _, _, _, _, _ => .done slots
  | 0, _, m :: t, done, _, _, _, h => by
    have hlt : done.length < (done ++ m :: t).length := by
      rw [List.length_append, List.length_cons]
      omega
    rw [postLoop, if_pos hlt] at h
    cases h
  | n + 1, slots, m :: t, done, frames, hneed, hmsg, h => by
    obtain ⟨g, rest, heq, hfits, hfull⟩ := exists_stretch left (m :: t)
    have hne : g ≠ [] := by
      rintro rfl
      have hhead := hfull m (by rw [← List.nil_append rest, ← heq]; rfl)
      have := hneed m List.mem_cons_self
      rw [room_nil] at hhead
      omega
    have hlt : done.length < (done ++ (g ++ rest)).length := by
      rw [← heq, List.length_append, List.length_cons]
      omega
    rw [heq] at hneed hmsg h ⊢
    rw [List.length_append] at hmsg
    match slots with
    | [] =>
      unfold postLoop at h
      rw [if_pos hlt] at h
      cases h
    | none :: _ =>
      unfold postLoop at h
      rw [if_pos hlt] at h
      cases h
    | some hdr :: slots =>
      by_cases hfew : g.length ≤ 4
      · rw [postLoop_frame hne hfew hleft hfits hfull (by omega)] at h
        obtain ⟨frames', h', -⟩ := Option.map_eq_some_iff.mp h
        refine .frame hne hfew hfits hfull (placeable_of_postLoop hleft ?_ ?_ h')
        · exact fun m hm => hneed m (List.mem_append_right _ hm)
        · rw [List.length_append, flagged_length]
          omega
      · have hsub : (done ++ (g ++ rest)).length - done.length = (g ++ rest).length := by
          rw [List.length_append, Nat.add_sub_cancel_left]
        rw [postLoop, if_pos hlt, hsub, hleft] at h
        dsimp only at h
        rw [stuff_overflow (by omega) hfits (by omega)] at h
        cases h

theorem need_le_of_dataLen (h : m.hdr.dataLen.toNat ≤ DATAGRAM_PAYLOAD_SIZE - 44) : m.need ≤ 500 := by
  unfold Message.need Message.paddedLen msgHeaderSize
  unfold DATAGRAM_PAYLOAD_SIZE at h
  omega

/-- **Packing and walking agree** on all frames of a transaction exactly when there is a free slot for
each frame and no frame takes a fifth message. -/
theorem framesAgree_iff_placeable (memory : Memory) (slots : List (Option FrameHeader))
    (t : List Message) (hcount : t.length < 65536)
    (hlen : ∀ m ∈ t, m.hdr.dataLen.toNat ≤ DATAGRAM_PAYLOAD_SIZE - 44) :
    (∃ frames, post DATAGRAM_PAYLOAD_SIZE memory slots t = some frames ∧
      FramesAgree DATAGRAM_PAYLOAD_SIZE memory t frames) ↔ Placeable 500 slots t := by
  have hleft : sizeSub DATAGRAM_PAYLOAD_SIZE (frameHeaderSize + 2) = 500 := by decide
  have hmsg : ([] : List Message).length + t.length < 2 ^ 16 := by
    rw [List.length_nil]
    omega
  constructor
  · rintro ⟨frames, hpost, -⟩
    exact placeable_of_postLoop hleft (fun m hm => need_le_of_dataLen (hlen m hm)) hmsg hpost
  · intro h
    exact framesAgree_of_placeable hleft (by decide) h le_rfl hmsg

/-- A message of some bytes. -/
def message (dataLen : UInt16) : Message := ⟨⟨1, 64, 1, 2, 1, 128, dataLen, 0, 0⟩, 0⟩

/-- Four messages share a frame, a fifth one that is longer gets its own. -/
theorem framesAgree_two_frames : (∃ frames,
    post DATAGRAM_PAYLOAD_SIZE (fun _ => 0) [some ⟨1, 2, 3, 0, 0, 0⟩, some ⟨1, 2, 4, 0, 0, 0⟩]
      [message 8, message 8, message 0, message 13, message 468] = some frames ∧
    FramesAgree DATAGRAM_PAYLOAD_SIZE (fun _ => 0)
      [message 8, message 8, message 0, message 13, message 468] frames) :=
  (framesAgree_iff_placeable (fun _ => 0) _ _ (by decide) (by decide)).mpr
    (@Placeable.frame 500 _ _ [message 8, message 8, message 0, message 13] [message 468] (by decide)
      (by decide) (by decide) (by decide)
      (@Placeable.frame 500 _ _ [message 468] [] (by decide) (by decide) (by decide) (by decide)
        (.done [])))

/-- Five messages of eight bytes would fit into one frame, but not into its `iov`. -/
theorem fifth_message_overruns_iov :
    ¬ ∀ (memory : Memory) (slots : List (Option FrameHeader)) (t : List Message), t.length < 65536 →
      (∀ m ∈ t, m.hdr.dataLen.toNat ≤ DATAGRAM_PAYLOAD_SIZE - 44) →
      t.length ≤ slots.length → (∀ slot ∈ slots, slot ≠ none) →
      ∃ frames, post DATAGRAM_PAYLOAD_SIZE memory slots t = some frames ∧
        FramesAgree DATAGRAM_PAYLOAD_SIZE memory t frames := by
  intro h
  obtain ⟨frames, hpost, -⟩ := h (fun _ => 0) (List.replicate 5 (some ⟨1, 2, 3, 0, 0, 0⟩))
    (List.replicate 5 (message 8)) (by decide) (by decide) (by decide) (by decide)
  have hnone : post DATAGRAM_PAYLOAD_SIZE (fun _ => 0) (List.replicate 5 (some ⟨1, 2, 3, 0, 0, 0⟩))
      (List.replicate 5 (message 8)) = none := by
    decide
  rw [hnone] at hpost
  cases hpost

end OpenCpi.Datagram.Wire
