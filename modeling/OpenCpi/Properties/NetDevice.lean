import OpenCpi.Net.Device

/-!
# A register access returns what the device reported, as long as tags on a socket differ

`Device::request` accepts a response with its own tag whoever sent it: the address of the sender is
only printed. Device objects number their requests from 1 on and share a socket, so the response of
one device is soon taken for that of another.

In a run in which a request gets a tag that no other object of its socket is using, waiting for or
still has on the network, an accepted response was sent by the addressed device in reply to that
request, and what an accessor returns with status 0 is what the device reported.
-/

namespace OpenCpi.Net

open Infra

/-! ## What the accessors promise -/

/-- The value of a call, given the data that was accepted for each access of the call. -/
def Call.Meets (accepted : Access → BitVec 32 → Prop) : Call → Value → Prop
  | .get offset bytes status, v =>
    ∃ w, accepted ⟨.read, offset, bytes, 0, status⟩ w ∧ v = .word w
  | .get64 offset status, v => ∃ lo hi, accepted ⟨.read, offset, 4, 0, status⟩ lo ∧
      accepted ⟨.read, offset + 4, 4, 0, status⟩ hi ∧ v = .long (hi ++ lo)
  | .getBytes offset length _, v => ∃ buf, v = .bytes buf ∧ buf.length = length ∧
      ∀ j, ∀ h : j < buf.length, ∃ a w, accepted a w ∧ a.type = .read ∧
        address a.offset = address (offset + j) ∧ buf.get ⟨j, h⟩ = byteOf w ((offset + j) % 4)
  | .set .., _ | .set64 .., _ | .setBytes .., _ => True

/-- An answer with status 0 carries accepted data. -/
def Good (accepted : Access → BitVec 32 → Prop) (a : Access) (ans : Answer) : Prop :=
  ans.status = 0 → accepted a ans.data

variable {R : Access → BitVec 32 → Prop}

theorem post_request (a : Access) : (request a).Post (Good R) (Good R a) := fun _ h => h

theorem post_get (offset bytes : Nat) (status : Bool) : (get offset bytes status).Post (Good R)
    fun r => r.2 = 0 → R ⟨.read, offset, bytes, 0, status⟩ r.1 := by
  refine (post_request _).bind fun ans hans => ?_
  exact Prog.post_pure.mpr hans

theorem post_get64 (offset : Nat) (status : Bool) : (get64 offset status).Post (Good R)
    fun r => r.2 = 0 → Call.Meets R (.get64 offset status) (.long r.1) := by
  refine (post_get offset 4 status).bind ?_
  rintro ⟨lo, st⟩ hlo
  dsimp only at hlo ⊢
  split
  · next hz =>
    refine (post_get (offset + 4) 4 status).bind ?_
    rintro ⟨hi, st'⟩ hhi
    exact Prog.post_pure.mpr fun hst => ⟨lo, hi, hlo hz, hhi hst, rfl⟩
  · next hz => exact Prog.post_pure.mpr fun hst => absurd hst hz

theorem bytesInWord_spec {offset length : Nat} (h : length ≠ 0) :
    0 < bytesInWord offset length ∧ bytesInWord offset length ≤ length ∧
      offset % 4 + bytesInWord offset length ≤ 4 := by
  unfold bytesInWord
  omega

/-- The bytes taken from one word stand at one address. -/
theorem address_in_word {i : Nat} (offset : Nat) (h : offset % 4 + i < 4) :
    address offset = address (offset + i) ∧ (offset + i) % 4 = offset % 4 + i := by
  unfold address
  omega

/-- The loop of `getBytes`: `buf` holds the bytes from `start` on. -/
theorem post_getBytesLoop (status : Bool) (start total : Nat) : ∀ (fuel offset length : Nat)
    (buf : List (BitVec 8)), length ≤ fuel → offset = start + buf.length →
    buf.length + length = total →
    (∀ j, ∀ h : j < buf.length, ∃ a w, R a w ∧ a.type = .read ∧
      address a.offset = address (start + j) ∧ buf.get ⟨j, h⟩ = byteOf w ((start + j) % 4)) →
    (getBytesLoop status fuel offset length buf).Post (Good R)
      fun r => r.2 = 0 → Call.Meets R (.getBytes start total status) (.bytes r.1)
  | 0, offset, length, buf, hfuel, hoff, htotal, hbuf =>
    Prog.post_pure.mpr fun _ => ⟨buf, rfl, by omega, hbuf⟩
  | fuel + 1, offset, length, buf, hfuel, hoff, htotal, hbuf => by
    rw [getBytesLoop]
    split
    · exact Prog.post_pure.mpr fun _ => ⟨buf, rfl, by omega, hbuf⟩
    · next hne =>
      obtain ⟨hpos, hle, hword⟩ := bytesInWord_spec hne
      refine (post_get offset (bytesInWord offset length) status).bind ?_
      rintro ⟨val, st⟩ hval
      dsimp only at hval ⊢
      split
      · next hst => exact Prog.post_pure.mpr fun hz => absurd hz hst
      · next hst =>
        have hval := hval (not_not.mp hst)
        generalize bytesInWord offset length = bytes at *
        have hlen : (buf ++ (List.range bytes).map fun i => byteOf val (offset % 4 + i)).length =
            buf.length + bytes := by simp
        refine post_getBytesLoop status start total fuel _ _ _ (by omega) (by omega) (by omega) ?_
        intro j hj
        by_cases hlt : j < buf.length
        · obtain ⟨a, w, hR, htype, haddr, hget⟩ := hbuf j hlt
          refine ⟨a, w, hR, htype, haddr, ?_⟩
          rw [← hget]
          simp [List.getElem_append_left hlt]
        · -- the byte comes from the word that was just read
          obtain ⟨i, rfl⟩ : ∃ i, j = buf.length + i := ⟨j - buf.length, by omega⟩
          obtain ⟨haddr, hmod⟩ := address_in_word (i := i) offset (by omega)
          refine ⟨_, val, hval, rfl, ?_, ?_⟩
          · rw [haddr, hoff, Nat.add_assoc]
          · rw [← Nat.add_assoc, ← hoff, hmod]
            simp

/-- **Every accessor returns what was accepted.** -/
theorem post_prog : ∀ call : Call, call.prog.Post (Good R) fun r => r.2 = 0 → call.Meets R r.1
  | .get offset bytes status => by
    refine (post_get offset bytes status).bind ?_
    rintro ⟨w, st⟩ h
    exact Prog.post_pure.mpr fun hst => ⟨w, h hst, rfl⟩
  | .get64 offset status => by
    refine (post_get64 offset status).bind ?_
    rintro ⟨w, st⟩ h
    exact Prog.post_pure.mpr h
  | .getBytes offset length status => by
    refine (post_getBytesLoop status offset length length offset length [] (Nat.le_refl _) rfl
      (Nat.zero_add _) (by simp)).bind ?_
    rintro ⟨buf, st⟩ h
    exact Prog.post_pure.mpr h
  | .set .. | .set64 .. | .setBytes .. => Prog.Post.of_forall (fun _ _ => trivial) _

/-! ## What the driver promises -/

variable {w w' : World} {i : Nat} {d d' : Device}

/-- The data `x` was accepted for the access `a` by a request of the object `i`, one of those behind
the request number `first` and up to `last`. -/
def Obtained (accepted : List Accepted) (i first last : Nat) (a : Access) (x : BitVec 32) : Prop :=
  ∃ y ∈ accepted, y.device = i ∧ first < y.seq ∧ y.seq ≤ last ∧ y.access = a ∧ y.reply.data = x

/-- The addressed device sent the response in reply to that very request. -/
structure Genuine (w : World) (y : Accepted) : Prop where
  sent : y.reply ∈ w.reports
  origin : y.reply.origin = ⟨y.device, y.seq⟩
  src : ∃ d, w.devices[y.device]? = some d ∧ y.reply.src = d.devAddr
  address : y.reply.address = address y.access.offset

/-- A call that returned with status 0 returned what its requests obtained. -/
def Done.Right (accepted : List Accepted) (r : Done) : Prop :=
  ∀ v, r.outcome = .ok (v, 0) → r.call.Meets (Obtained accepted r.device r.first r.last) v

structure Answered (w : World) : Prop where
  accepted : ∀ y ∈ w.accepted, Genuine w y
  done : ∀ r ∈ w.done, r.Right w.accepted

/-! ## The condition -/

def Phase.pending : Phase → Option Pending
  | .sending _ _ p | .receiving _ _ p => some p
  | _ => none

/-- The tags that other objects use on the socket: of packets on the network and of requests that
wait. -/
def World.taken (w : World) (i socket : Nat) : List Nat :=
  ((w.requests.filter fun f => f.socket == socket && f.origin.device != i).map (·.tag)) ++
  ((w.replies.filter fun r => r.socket == socket && r.origin.device != i).map (·.tag)) ++
  ((w.devices.zipIdx.filter fun e => e.1.socket == socket && e.2 != i &&
    e.1.phase.pending.isSome).map (·.1.tag))

/-- The step starts a request. -/
def Device.starts (d : Device) : Bool :=
  match d.phase with
  | .ready _ _ (.ask ..) => !d.failed
  | _ => false

/-- The condition on a step: a new request has a tag that nobody else uses on its socket. -/
def TagFree (w : World) : Op → Prop
  | .run i => ∀ d ∈ w.devices[i]?, d.starts → (d.tag + 1) % 256 ∉ w.taken i d.socket
  | _ => True

instance (w : World) : (op : Op) → Decidable (TagFree w op)
  | .run i => inferInstanceAs (Decidable (∀ d ∈ w.devices[i]?, d.starts → _))
  | .call .. | .send .. | .receive .. | .timeout _ | .answer .. | .dropRequest _ | .dupRequest _
  | .dropReply _ | .dupReply _ => .isTrue trivial

/-! ## The invariant -/

/-- What requests and replies have in common. -/
structure View where
  peer : Nat
  socket : Nat
  tag : Nat
  address : Nat
  origin : Origin

def Frame.view (f : Frame) : View := ⟨f.dest, f.socket, f.tag, f.address, f.origin⟩

def Reply.view (r : Reply) : View := ⟨r.src, r.socket, r.tag, r.address, r.origin⟩

def World.views (w : World) : List View := w.requests.map Frame.view ++ w.replies.map Reply.view

/-- A packet belongs to the object `d`. -/
structure Belongs (d : Device) (v : View) : Prop where
  peer : v.peer = d.devAddr
  socket : v.socket = d.socket
  tag : v.tag = v.origin.seq % 256
  seq : v.origin.seq ≤ d.seq
  address : ∀ p, d.phase.pending = some p → v.origin.seq = d.seq →
    v.address = address p.access.offset

/-- The rest of the program of a call returns what the call obtains. -/
def PhaseOk (accepted : List Accepted) (i seq : Nat) : Phase → Prop
  | .idle => True
  | .ready call first p => first ≤ seq ∧ ∀ R : Access → BitVec 32 → Prop,
      (∀ a x, Obtained accepted i first seq a x → R a x) →
      p.Post (Good R) fun r => r.2 = 0 → call.Meets R r.1
  | .sending call first p | .receiving call first p => first < seq ∧
      ∀ R : Access → BitVec 32 → Prop, (∀ a x, Obtained accepted i first seq a x → R a x) →
      ∀ ans, Good R p.access ans → (p.k ans).Post (Good R) fun r => r.2 = 0 → call.Meets R r.1

/-- **The invariant.** -/
structure Inv (w : World) : Prop where
  tags : ∀ d ∈ w.devices, d.tag = d.seq % 256
  packets : ∀ v ∈ w.views, ∃ d, w.devices[v.origin.device]? = some d ∧ Belongs d v
  mine : ∀ (i : Nat) (d : Device), w.devices[i]? = some d → d.phase.pending.isSome →
    ∀ v ∈ w.views, v.socket = d.socket → v.tag = d.tag → v.origin.device = i
  alone : ∀ (i : Nat) (d : Device), w.devices[i]? = some d → d.phase.pending.isSome →
    ∀ (j : Nat) (e : Device), w.devices[j]? = some e → e.phase.pending.isSome → e.socket = d.socket →
      e.tag = d.tag → j = i
  phases : ∀ (i : Nat) (d : Device), w.devices[i]? = some d → PhaseOk w.accepted i d.seq d.phase
  reports : ∀ r ∈ w.replies, r ∈ w.reports
  answered : Answered w

theorem inv_boot (ds : List (Nat × Nat × Bool)) : Inv (boot ds) := by
  have hidle : ∀ (i : Nat) (d : Device), (boot ds).devices[i]? = some d → d.tag = d.seq % 256 ∧ d.phase = .idle := by
    intro i d hd
    obtain ⟨x, -, rfl⟩ := List.mem_map.mp (List.mem_of_getElem? hd)
    exact ⟨rfl, rfl⟩
  refine ⟨?_, by simp [boot, World.views], ?_, ?_, ?_, by simp [boot],
    by simp [boot], by simp [boot]⟩
  · intro d hd
    obtain ⟨i, hi⟩ := List.mem_iff_getElem?.mp hd
    exact (hidle i d hi).1
  · intro i d hd hp
    simp [(hidle i d hd).2, Phase.pending] at hp
  · intro i d hd hp
    simp [(hidle i d hd).2, Phase.pending] at hp
  · intro i d hd
    rw [(hidle i d hd).2]
    trivial

/-! ## More responses are accepted, more packets reported -/

theorem Obtained.mono {acc acc' : List Accepted} {first last last' : Nat} {a : Access}
    {x : BitVec 32} (h : Obtained acc i first last a x) (hacc : ∀ y ∈ acc, y ∈ acc')
    (hlast : last ≤ last') : Obtained acc' i first last' a x := by
  obtain ⟨y, hy, hi, hf, hl, ha⟩ := h
  exact ⟨y, hacc y hy, hi, hf, Nat.le_trans hl hlast, ha⟩

theorem PhaseOk.mono {acc acc' : List Accepted} {seq : Nat} {phase : Phase}
    (h : PhaseOk acc i seq phase) (hacc : ∀ y ∈ acc, y ∈ acc') : PhaseOk acc' i seq phase := by
  cases phase with
  | idle => trivial
  | ready call first p =>
    exact ⟨h.1, fun R hR => h.2 R fun a x hx => hR a x (hx.mono hacc (Nat.le_refl _))⟩
  | sending call first p | receiving call first p =>
    exact ⟨h.1, fun R hR => h.2 R fun a x hx => hR a x (hx.mono hacc (Nat.le_refl _))⟩

theorem Call.Meets.mono {R R' : Access → BitVec 32 → Prop} {call : Call} {v : Value}
    (h : call.Meets R v) (hR : ∀ a x, R a x → R' a x) : call.Meets R' v := by
  cases call with
  | get offset bytes status =>
    obtain ⟨x, hx, hv⟩ := h
    exact ⟨x, hR _ _ hx, hv⟩
  | get64 offset status =>
    obtain ⟨lo, hi, hlo, hhi, hv⟩ := h
    exact ⟨lo, hi, hR _ _ hlo, hR _ _ hhi, hv⟩
  | getBytes offset length status =>
    obtain ⟨buf, hv, hlen, hbuf⟩ := h
    refine ⟨buf, hv, hlen, fun j hj => ?_⟩
    obtain ⟨a, x, hx, ha⟩ := hbuf j hj
    exact ⟨a, x, hR _ _ hx, ha⟩
  | set | set64 | setBytes => trivial

theorem Done.Right.mono {acc acc' : List Accepted} {r : Done} (h : r.Right acc)
    (hacc : ∀ y ∈ acc, y ∈ acc') : r.Right acc' :=
  fun v hv => (h v hv).mono fun _ _ hx => hx.mono hacc (Nat.le_refl _)

/-- The objects still talk to the same devices. -/
def SameDevices (w w' : World) : Prop :=
  ∀ (i : Nat) (d : Device), w.devices[i]? = some d → ∃ d', w'.devices[i]? = some d' ∧ d'.devAddr = d.devAddr

theorem Genuine.mono {y : Accepted} (h : Genuine w y) (hd : SameDevices w w')
    (hrep : ∀ r ∈ w.reports, r ∈ w'.reports) : Genuine w' y := by
  obtain ⟨d, hget, hsrc⟩ := h.src
  obtain ⟨d', hget', haddr⟩ := hd _ d hget
  exact ⟨hrep _ h.sent, h.origin, ⟨d', hget', hsrc.trans haddr.symm⟩, h.address⟩

/-! ## Steps -/

/-- The object after the step of its index. -/
theorem getElem?_set_cases {l : List Device} {j : Nat} {e : Device} (hd : l[i]? = some d)
    (h : (l.set i d')[j]? = some e) : (j = i ∧ e = d') ∨ (j ≠ i ∧ l[j]? = some e) := by
  by_cases hij : j = i
  · subst hij
    rw [List.getElem?_set_self (List.getElem?_eq_some_iff.mp hd).1, Option.some.injEq] at h
    exact Or.inl ⟨rfl, h.symm⟩
  · rw [List.getElem?_set_ne (Ne.symm hij)] at h
    exact Or.inr ⟨hij, h⟩

theorem getElem?_set_of_getElem? {l : List Device} (hd : l[i]? = some d) :
    (l.set i d')[i]? = some d' :=
  List.getElem?_set_self (List.getElem?_eq_some_iff.mp hd).1

theorem sameDevices_set (hd : w.devices[i]? = some d) (hdev : w'.devices = w.devices.set i d')
    (haddr : d'.devAddr = d.devAddr) : SameDevices w w' := by
  intro j e he
  rw [hdev]
  by_cases hij : j = i
  · subst hij
    rw [hd, Option.some.injEq] at he
    subst he
    exact ⟨d', getElem?_set_of_getElem? hd, haddr⟩
  · exact ⟨e, by rw [List.getElem?_set_ne (Ne.symm hij)]; exact he, rfl⟩

/-- A packet of the request that the object `i` waits for. -/
structure Own (i : Nat) (d : Device) (v : View) : Prop where
  peer : v.peer = d.devAddr
  socket : v.socket = d.socket
  tag : v.tag = d.tag
  origin : v.origin = ⟨i, d.seq⟩
  address : ∃ p, d.phase.pending = some p ∧ v.address = address p.access.offset

/-- **A step of the object `i`** that does not start a request: it may send its request again, take a
packet from the network, accept a response and end its call. -/
theorem Inv.move (h : Inv w) (hd : w.devices[i]? = some d)
    (hdev : w'.devices = w.devices.set i d') (haddr : d'.devAddr = d.devAddr)
    (hsock : d'.socket = d.socket) (htag : d'.tag = d.tag) (hseq : d'.seq = d.seq)
    (hpend : ∀ p', d'.phase.pending = some p' →
      ∃ p, d.phase.pending = some p ∧ p'.access = p.access)
    (hviews : ∀ v ∈ w'.views, v ∈ w.views ∨ Own i d v)
    (hreplies : ∀ r ∈ w'.replies, r ∈ w.replies) (hreports : w'.reports = w.reports)
    (hacc : ∀ y ∈ w.accepted, y ∈ w'.accepted)
    (hnew : ∀ y ∈ w'.accepted, y ∈ w.accepted ∨ Genuine w y)
    (hphase : PhaseOk w'.accepted i d'.seq d'.phase)
    (hdone : ∀ r ∈ w'.done, r ∈ w.done ∨ r.Right w'.accepted) : Inv w' := by
  have hsame := sameDevices_set hd hdev haddr
  have hsome : d'.phase.pending.isSome → d.phase.pending.isSome := by
    intro hp
    obtain ⟨p', hp'⟩ := Option.isSome_iff_exists.mp hp
    obtain ⟨p, hp, -⟩ := hpend p' hp'
    simp [hp]
  -- the object before the step that an object after the step was
  have hold : ∀ {j : Nat} {e : Device}, w'.devices[j]? = some e → ∃ e₀ : Device,
      w.devices[j]? = some e₀ ∧ e.socket = e₀.socket ∧ e.tag = e₀.tag ∧
        (e.phase.pending.isSome → e₀.phase.pending.isSome) := by
    intro j e he
    rw [hdev] at he
    rcases getElem?_set_cases hd he with ⟨rfl, rfl⟩ | ⟨-, he⟩
    · exact ⟨d, hd, hsock, htag, hsome⟩
    · exact ⟨e, he, rfl, rfl, id⟩
  refine ⟨?_, ?_, ?_, ?_, ?_, ?_, ?_, ?_⟩
  · intro e he
    rw [hdev] at he
    rcases List.mem_or_eq_of_mem_set he with he | rfl
    · exact h.tags e he
    · rw [htag, hseq]
      exact h.tags d (List.mem_of_getElem? hd)
  · intro v hv
    rw [hdev]
    rcases hviews v hv with hv | hown
    · obtain ⟨e, he, hb⟩ := h.packets v hv
      by_cases hij : v.origin.device = i
      · rw [hij] at he ⊢
        rw [hd, Option.some.injEq] at he
        subst he
        refine ⟨d', getElem?_set_of_getElem? hd, hb.peer.trans haddr.symm,
          hb.socket.trans hsock.symm, hb.tag, hseq.symm ▸ hb.seq, fun p' hp' hs => ?_⟩
        obtain ⟨p, hp, hacc⟩ := hpend p' hp'
        rw [hacc]
        exact hb.address p hp (hs.trans hseq)
      · exact ⟨e, by rw [List.getElem?_set_ne (Ne.symm hij)]; exact he, hb⟩
    · refine ⟨d', by rw [hown.origin]; exact getElem?_set_of_getElem? hd, hown.peer.trans haddr.symm,
        hown.socket.trans hsock.symm, ?_, ?_, fun p' hp' _ => ?_⟩
      · rw [hown.tag, hown.origin]
        exact h.tags d (List.mem_of_getElem? hd)
      · rw [hown.origin]
        exact Nat.le_of_eq (by rw [hseq])
      · obtain ⟨p, hp, hacc⟩ := hpend p' hp'
        obtain ⟨q, hq, haddr'⟩ := hown.address
        rw [hp, Option.some.injEq] at hq
        rw [haddr', hacc, hq]
  · intro j e he hp v hv hs ht
    obtain ⟨e₀, he₀, hsock₀, htag₀, hp₀⟩ := hold he
    rcases hviews v hv with hv | hown
    · exact h.mine j e₀ he₀ (hp₀ hp) v hv (hs.trans hsock₀) (ht.trans htag₀)
    · -- the packet is on the socket and has the tag of `e`, so `e` is `d`
      obtain ⟨p, hpd, -⟩ := hown.address
      rw [hown.origin]
      refine h.alone j e₀ he₀ (hp₀ hp) i d hd (by simp [hpd]) ?_ ?_
      · rw [← hown.socket, hs, hsock₀]
      · rw [← hown.tag, ht, htag₀]
  · intro j e he hp k f hf hpf hs ht
    obtain ⟨e₀, he₀, hse, hte, hpe⟩ := hold he
    obtain ⟨f₀, hf₀, hsf, htf, hpf₀⟩ := hold hf
    exact h.alone j e₀ he₀ (hpe hp) k f₀ hf₀ (hpf₀ hpf) (by rw [← hsf, hs, hse])
      (by rw [← htf, ht, hte])
  · intro j e he
    rw [hdev] at he
    rcases getElem?_set_cases hd he with ⟨rfl, rfl⟩ | ⟨-, he⟩
    · exact hphase
    · exact (h.phases j e he).mono hacc
  · intro r hr
    rw [hreports]
    exact h.reports r (hreplies r hr)
  · intro y hy
    rcases hnew y hy with hy | hy
    · exact (h.answered.accepted y hy).mono hsame (fun r hr => hreports.symm ▸ hr)
    · exact hy.mono hsame (fun r hr => hreports.symm ▸ hr)
  · intro r hr
    rcases hdone r hr with hr | hr
    · exact (h.answered.done r hr).mono hacc
    · exact hr

/-- A step of the network or of a device. -/
theorem Inv.network (h : Inv w) (hdev : w'.devices = w.devices)
    (hviews : ∀ v ∈ w'.views, v ∈ w.views) (hreplies : ∀ r ∈ w'.replies, r ∈ w'.reports)
    (hreports : ∀ r ∈ w.reports, r ∈ w'.reports) (hacc : w'.accepted = w.accepted)
    (hdone : w'.done = w.done) : Inv w' := by
  refine ⟨hdev.symm ▸ h.tags, ?_, ?_, ?_, ?_, hreplies, ?_, ?_⟩
  · intro v hv
    rw [hdev]
    exact h.packets v (hviews v hv)
  · intro i d hd hp v hv
    rw [hdev] at hd
    exact h.mine i d hd hp v (hviews v hv)
  · rw [hdev]
    exact h.alone
  · rw [hdev, hacc]
    exact h.phases
  · rw [hacc]
    exact fun y hy => (h.answered.accepted y hy).mono (fun i d hd => ⟨d, hdev ▸ hd, rfl⟩) hreports
  · rw [hacc, hdone]
    exact h.answered.done

theorem mem_views {v : View} : v ∈ w.views ↔
    (∃ f ∈ w.requests, f.view = v) ∨ ∃ r ∈ w.replies, r.view = v := by
  simp [World.views]

/-- **A request starts**, with a tag that is free. -/
theorem Inv.start {call : Call} {first : Nat} {a : Access} {k : Answer → Prog (Value × Nat)}
    (h : Inv w) (hd : w.devices[i]? = some d) (hphase : d.phase = .ready call first (.ask a k))
    (hfree : (d.tag + 1) % 256 ∉ w.taken i d.socket) :
    Inv (w.setPhase i { d with tag := (d.tag + 1) % 256, seq := d.seq + 1 }
      (.sending call first ⟨a, 0, 0, none, k⟩)) := by
  have hok := h.phases i d hd
  rw [hphase] at hok
  simp only [World.taken, List.mem_append, not_or, List.mem_map, List.mem_filter, not_exists,
    not_and, and_imp, Bool.and_eq_true, beq_iff_eq, bne_iff_ne] at hfree
  obtain ⟨⟨hreq, hrep⟩, hdevs⟩ := hfree
  have hviews : ∀ v ∈ w.views, v.socket = d.socket → v.tag = (d.tag + 1) % 256 →
      v.origin.device = i := by
    intro v hv hs ht
    by_contra hne
    rcases mem_views.mp hv with ⟨f, hf, rfl⟩ | ⟨r, hr, rfl⟩
    · exact hreq f hf hs hne ht
    · exact hrep r hr hs hne ht
  have hother : ∀ {j : Nat} {e : Device}, w.devices[j]? = some e → j ≠ i →
      e.phase.pending.isSome → e.socket = d.socket → e.tag ≠ (d.tag + 1) % 256 := by
    intro j e he hne hp hs
    exact hdevs (e, j) (List.mem_zipIdx_iff_getElem?.mpr he) hs hne hp
  refine ⟨?_, ?_, ?_, ?_, ?_, h.reports, ?_, h.answered.done⟩
  · intro e he
    rcases List.mem_or_eq_of_mem_set he with he | rfl
    · exact h.tags e he
    · show (d.tag + 1) % 256 = (d.seq + 1) % 256
      have := h.tags d (List.mem_of_getElem? hd)
      omega
  · intro v hv
    obtain ⟨e, he, hb⟩ := h.packets v hv
    show ∃ d₁ : Device, (w.devices.set i _)[v.origin.device]? = some d₁ ∧ _
    by_cases hij : v.origin.device = i
    · rw [hij] at he ⊢
      rw [hd, Option.some.injEq] at he
      subst he
      refine ⟨_, getElem?_set_of_getElem? hd, hb.peer, hb.socket, hb.tag,
        Nat.le_succ_of_le hb.seq, fun p _ hs => ?_⟩
      -- no packet of the new request is on the network
      have hseq := hb.seq
      have hs : v.origin.seq = d.seq + 1 := hs
      omega
    · exact ⟨e, by rw [List.getElem?_set_ne (Ne.symm hij)]; exact he, hb⟩
  · intro j e he hp v hv hs ht
    rcases getElem?_set_cases hd he with ⟨rfl, rfl⟩ | ⟨-, he⟩
    · exact hviews v hv hs ht
    · exact h.mine j e he hp v hv hs ht
  · intro j e he hp l f hf hpf hs ht
    rcases getElem?_set_cases hd he with ⟨rfl, rfl⟩ | ⟨hj, he₀⟩
    · rcases getElem?_set_cases hd hf with ⟨rfl, rfl⟩ | ⟨hl, hf₀⟩
      · rfl
      · exact absurd ht (hother hf₀ hl hpf hs)
    · rcases getElem?_set_cases hd hf with ⟨rfl, rfl⟩ | ⟨hl, hf₀⟩
      · exact absurd ht.symm (hother he₀ hj hp hs.symm)
      · exact h.alone j e he₀ hp l f hf₀ hpf hs ht
  · intro j e he
    rcases getElem?_set_cases hd he with ⟨rfl, rfl⟩ | ⟨-, he⟩
    · refine ⟨Nat.lt_succ_of_le hok.1, fun R hR ans hans => ?_⟩
      exact hok.2 R (fun a x hx => hR a x (hx.mono (fun _ hy => hy) (Nat.le_succ _))) ans hans
    · exact h.phases j e he
  · intro y hy
    exact (h.answered.accepted y hy).mono
      (sameDevices_set hd rfl rfl) fun _ hr => hr

/-- The call of an object ends. -/
theorem Inv.finish {call : Call} {first : Nat} {outcome : Except String (Value × Nat)} (h : Inv w)
    (hd : w.devices[i]? = some d) (haddr : d'.devAddr = d.devAddr) (hsock : d'.socket = d.socket)
    (htag : d'.tag = d.tag) (hseq : d'.seq = d.seq)
    (hright : Done.Right w.accepted ⟨i, call, first, d'.seq, outcome⟩) :
    Inv (w.finish i d' call first outcome) := by
  refine h.move hd rfl haddr hsock htag hseq
    (fun p' hp' => by simp [Phase.pending] at hp') (fun v hv => Or.inl hv) (fun r hr => hr) rfl
    (fun y hy => hy) (fun y hy => Or.inl hy) trivial ?_
  intro r hr
  rcases List.mem_cons.mp hr with rfl | hr
  · exact Or.inr hright
  · exact Or.inl hr

/-- The phase of an object changes and its request stays the same or ends. -/
theorem Inv.setPhase {phase : Phase} (h : Inv w) (hd : w.devices[i]? = some d)
    (hpend : ∀ p', phase.pending = some p' → ∃ p, d.phase.pending = some p ∧ p'.access = p.access)
    (hphase : PhaseOk w.accepted i d.seq phase) : Inv (w.setPhase i d phase) :=
  h.move hd rfl rfl rfl rfl rfl hpend (fun _ hv => Or.inl hv)
    (fun _ hr => hr) rfl (fun _ hy => hy) (fun _ hy => Or.inl hy) hphase (fun _ hr => Or.inl hr)

theorem right_error {acc : List Accepted} {call : Call} {first last : Nat} {e : String} :
    Done.Right acc ⟨i, call, first, last, .error e⟩ := fun v hv => by simp at hv

theorem Inv.run {call : Call} {first : Nat} {p : Prog (Value × Nat)} (h : Inv w)
    (hd : w.devices[i]? = some d) (hphase : d.phase = .ready call first p)
    (hok : TagFree w (.run i)) : Inv (w.run i d call first p) := by
  cases p with
  | ret v =>
    refine h.finish hd rfl rfl rfl rfl ?_
    have hpost := h.phases i d hd
    rw [hphase] at hpost
    intro v' hv'
    cases hv'
    exact hpost.2 _ (fun _ _ hx => hx) rfl
  | ask a k =>
    rw [World.run]
    split
    · exact h.finish hd rfl rfl rfl rfl right_error
    · next hfail =>
      refine h.start hd hphase ?_
      exact hok d hd (by simp [Device.starts, hphase, hfail])

theorem statusOf_ne_zero (response : Nat) : statusOf response ≠ 0 := by
  unfold statusOf
  split
  · decide
  · split <;> decide

theorem Inv.giveUp {call : Call} {first : Nat} {p : Pending} (h : Inv w)
    (hd : w.devices[i]? = some d)
    (hphase : d.phase = .sending call first p ∨ d.phase = .receiving call first p) :
    Inv (w.giveUp i d call first p) := by
  unfold World.giveUp
  dsimp only
  split
  · refine h.setPhase hd (fun p' hp' => by simp [Phase.pending] at hp') ?_
    have hpost := h.phases i d hd
    rcases hphase with hp | hp <;> rw [hp] at hpost <;>
      exact ⟨Nat.le_of_lt hpost.1, fun R hR =>
        hpost.2 R hR _ fun hz => absurd hz (statusOf_ne_zero _)⟩
  · exact h.finish hd rfl rfl rfl rfl right_error

theorem Inv.send {call : Call} {first : Nat} {p : Pending} {sent : Bool} (h : Inv w)
    (hd : w.devices[i]? = some d) (hphase : d.phase = .sending call first p) :
    Inv (w.send i d call first p sent) := by
  have hpend : d.phase.pending = some p := by rw [hphase]; rfl
  have hpost := h.phases i d hd
  rw [hphase] at hpost
  unfold World.send
  split
  · refine h.move hd rfl rfl rfl rfl rfl ?_ ?_
      (fun r hr => hr) rfl (fun y hy => hy) (fun y hy => Or.inl hy) hpost (fun r hr => Or.inl hr)
    · intro p' hp'
      cases hp'
      exact ⟨p, hpend, rfl⟩
    · intro v hv
      rcases mem_views.mp hv with ⟨f, hf, rfl⟩ | hr
      · rcases List.mem_cons.mp hf with rfl | hf
        · exact Or.inr ⟨rfl, rfl, rfl, rfl, p, hpend, rfl⟩
        · exact Or.inl (mem_views.mpr (Or.inl ⟨f, hf, rfl⟩))
      · exact Or.inl (mem_views.mpr (Or.inr hr))
  · exact h.giveUp hd (Or.inl hphase)

/-- A packet with the tag of the request, from the socket of the object, is a reply to that
request. -/
theorem Inv.genuine {p : Pending} {r : Reply} (h : Inv w) (hd : w.devices[i]? = some d)
    (hpend : d.phase.pending = some p) (hr : r ∈ w.replies) (hsock : r.socket = d.socket)
    (hrecent : w.recent r) (htag : r.tag = d.tag) : Genuine w ⟨i, d.seq, p.access, r⟩ := by
  have hv : r.view ∈ w.views := mem_views.mpr (Or.inr ⟨r, hr, rfl⟩)
  have hdev : r.origin.device = i := h.mine i d hd (by simp [hpend]) r.view hv hsock htag
  obtain ⟨e, he, hb⟩ := h.packets r.view hv
  have hde : e = d := by
    have he : w.devices[r.origin.device]? = some e := he
    rw [hdev, hd, Option.some.injEq] at he
    exact he.symm
  subst hde
  have hseq : r.origin.seq = e.seq := by
    have h₁ : r.tag = r.origin.seq % 256 := hb.tag
    have h₂ : r.origin.seq ≤ e.seq := hb.seq
    have h₃ := h.tags e (List.mem_of_getElem? hd)
    have h₄ : e.seq < r.origin.seq + 256 := by
      rw [World.recent, hdev, hd] at hrecent
      simpa using hrecent
    omega
  refine ⟨h.reports r hr, ?_, ⟨e, hd, hb.peer⟩, hb.address p hpend hseq⟩
  show r.origin = ⟨i, e.seq⟩
  rw [← hdev, ← hseq]

theorem Inv.receive {call : Call} {first j : Nat} {p : Pending} {r : Reply} (h : Inv w)
    (hd : w.devices[i]? = some d) (hphase : d.phase = .receiving call first p)
    (hr : w.replies[j]? = some r) (hsock : r.socket = d.socket) (hrecent : w.recent r) :
    Inv (World.receive { w with replies := w.replies.eraseIdx j } i d call first p r) := by
  have hpend : d.phase.pending = some p := by rw [hphase]; rfl
  have hpost := h.phases i d hd
  rw [hphase] at hpost
  have herase : Inv { w with replies := w.replies.eraseIdx j } := by
    refine h.network rfl (fun v hv => ?_) (fun r hr => h.reports r (List.mem_of_mem_eraseIdx hr))
      (fun _ hr => hr) rfl rfl
    rcases mem_views.mp hv with hf | ⟨r, hr, rfl⟩
    · exact mem_views.mpr (Or.inl hf)
    · exact mem_views.mpr (Or.inr ⟨r, List.mem_of_mem_eraseIdx hr, rfl⟩)
  unfold World.receive
  dsimp only
  split
  · refine herase.setPhase hd (fun p' hp' => ?_) hpost
    cases hp'
    exact ⟨p, hpend, rfl⟩
  · next hmatch =>
    have htag : r.tag = d.tag := by
      by_contra hne
      exact hmatch (Or.inr hne)
    split
    · have hgen := h.genuine hd hpend (List.mem_of_getElem? hr) hsock hrecent htag
      refine herase.move hd rfl rfl
        rfl rfl rfl (fun p' hp' => by simp [Phase.pending] at hp') (fun v hv => Or.inl hv)
        (fun r hr => hr) rfl (fun y hy => List.mem_cons_of_mem _ hy) ?_ ?_ (fun r hr => Or.inl hr)
      · intro y hy
        rcases List.mem_cons.mp hy with rfl | hy
        · exact Or.inr (hgen.mono (fun i d hd => ⟨d, hd, rfl⟩) fun _ hr => hr)
        · exact Or.inl hy
      · -- what was accepted now is what the program may rely on
        refine ⟨Nat.le_of_lt hpost.1, fun R hR => ?_⟩
        refine hpost.2 R (fun a x hx => hR a x ?_) _ fun _ => hR _ _ ?_
        · exact hx.mono (fun y hy => List.mem_cons_of_mem _ hy) (Nat.le_refl _)
        · exact ⟨_, List.mem_cons_self, rfl, hpost.1, Nat.le_refl _, rfl, rfl⟩
    · refine herase.setPhase hd (fun p' hp' => ?_) hpost
      cases hp'
      exact ⟨p, hpend, rfl⟩

/-! ## Runs -/

/-- The network loses or keeps packets. -/
theorem Inv.lose {requests : List Frame} {replies : List Reply} (h : Inv w)
    (hreq : ∀ f ∈ requests, f ∈ w.requests) (hrep : ∀ r ∈ replies, r ∈ w.replies) :
    Inv { w with requests, replies } := by
  refine h.network rfl (fun v hv => ?_) (fun r hr => h.reports r (hrep r hr)) (fun _ hr => hr)
    rfl rfl
  rcases mem_views.mp hv with ⟨f, hf, rfl⟩ | ⟨r, hr, rfl⟩
  · exact mem_views.mpr (Or.inl ⟨f, hreq f hf, rfl⟩)
  · exact mem_views.mpr (Or.inr ⟨r, hrep r hr, rfl⟩)

theorem Inv.answer {j typeEtc : Nat} {data : BitVec 32} {f : Frame} (h : Inv w)
    (hf : w.requests[j]? = some f) :
    Inv { w with
      requests := w.requests.eraseIdx j
      replies := f.reply typeEtc data :: w.replies
      reports := f.reply typeEtc data :: w.reports } := by
  refine h.network rfl (fun v hv => ?_) (fun r hr => ?_) (fun r hr => List.mem_cons_of_mem _ hr)
    rfl rfl
  · rcases mem_views.mp hv with ⟨g, hg, rfl⟩ | ⟨r, hr, rfl⟩
    · exact mem_views.mpr (Or.inl ⟨g, List.mem_of_mem_eraseIdx hg, rfl⟩)
    · rcases List.mem_cons.mp hr with rfl | hr
      · exact mem_views.mpr (Or.inl ⟨f, List.mem_of_getElem? hf, rfl⟩)
      · exact mem_views.mpr (Or.inr ⟨r, hr, rfl⟩)
  · rcases List.mem_cons.mp hr with rfl | hr
    · exact List.mem_cons_self
    · exact List.mem_cons_of_mem _ (h.reports r hr)

theorem inv_step {op : Op} (h : Inv w) (hok : TagFree w op) (hs : step w op = some w') :
    Inv w' := by
  cases op with
  | call i c =>
    obtain ⟨d, hd, hs⟩ := Option.bind_eq_some_iff.mp hs
    split at hs
    · cases hs
      refine h.setPhase hd (fun p' hp' => by simp [Phase.pending] at hp') ?_
      exact ⟨Nat.le_refl _, fun R _ => post_prog c⟩
    · cases hs
  | run i =>
    obtain ⟨d, hd, hs⟩ := Option.bind_eq_some_iff.mp hs
    split at hs
    · next call first p hp =>
      cases hs
      exact h.run hd hp hok
    · cases hs
  | send i sent =>
    obtain ⟨d, hd, hs⟩ := Option.bind_eq_some_iff.mp hs
    split at hs
    · next call first p hp =>
      cases hs
      exact h.send hd hp
    · cases hs
  | receive i j =>
    obtain ⟨d, hd, hs⟩ := Option.bind_eq_some_iff.mp hs
    obtain ⟨r, hr, hs⟩ := Option.bind_eq_some_iff.mp hs
    split at hs
    · next call first p hp =>
      split at hs
      · next hguard =>
        cases hs
        exact h.receive hd hp hr hguard.1 hguard.2
      · cases hs
    · cases hs
  | timeout i =>
    obtain ⟨d, hd, hs⟩ := Option.bind_eq_some_iff.mp hs
    split at hs
    · next call first p hp =>
      cases hs
      have hpost := h.phases i d hd
      rw [hp] at hpost
      refine h.setPhase hd (fun p' hp' => ?_) hpost
      cases hp'
      exact ⟨p, by rw [hp]; rfl, rfl⟩
    · cases hs
  | answer j typeEtc data =>
    obtain ⟨f, hf, hs⟩ := Option.bind_eq_some_iff.mp hs
    cases hs
    exact h.answer hf
  | dropRequest j =>
    cases hs
    exact h.lose (fun f hf => List.mem_of_mem_eraseIdx hf) fun r hr => hr
  | dupRequest j =>
    obtain ⟨f, hf, hs⟩ := Option.bind_eq_some_iff.mp hs
    cases hs
    refine h.lose (fun g hg => ?_) fun r hr => hr
    rcases List.mem_cons.mp hg with rfl | hg
    · exact List.mem_of_getElem? hf
    · exact hg
  | dropReply j =>
    cases hs
    exact h.lose (fun f hf => hf) fun r hr => List.mem_of_mem_eraseIdx hr
  | dupReply j =>
    obtain ⟨r, hr, hs⟩ := Option.bind_eq_some_iff.mp hs
    cases hs
    refine h.lose (fun f hf => hf) fun q hq => ?_
    rcases List.mem_cons.mp hq with rfl | hq
    · exact List.mem_of_getElem? hr
    · exact hq

/-- **An accepted response is the reply of the addressed device to that very request**, and an
accessor with status 0 returns what the device reported, in a run in which the tags on a socket
differ. -/
theorem answered_of_tagFree {ds : List (Nat × Nat × Bool)} (h : Reach step TagFree (boot ds) w) :
    Answered w := by
  have hinv : Inv w := h.invariant (inv_boot ds) fun _ _ _ hi hok hs => inv_step hi hok hs
  exact hinv.answered

/-- Two objects on one socket. The first reads 64 bits; its first request is sent twice, and the
second answer to it comes late and is not taken. Then the second object reads a register. -/
theorem answered_in_turn : ∃ w ∈ exec (checked step TagFree) (boot [(17, 5, false), (18, 5, false)])
      [.call 0 (.get64 0x20 true), .run 0, .send 0 true, .timeout 0, .send 0 true,
       .answer 0 0x30 7, .receive 0 0,
       .run 0, .send 0 true, .answer 0 0x30 9, .answer 0 0x30 7, .receive 0 0, .receive 0 0, .run 0,
       .call 1 (.get 0x40 4 false), .run 1, .send 1 true, .answer 0 0x30 3, .receive 1 0, .run 1],
    w.done.map (fun r => (r.device, r.outcome.toOption)) =
      [(1, some (.word 3, 0)), (0, some (.long 0x900000007, 0))] ∧ Answered w := by
  have hrun : ∃ w ∈ exec (checked step TagFree) (boot [(17, 5, false), (18, 5, false)])
      [.call 0 (.get64 0x20 true), .run 0, .send 0 true, .timeout 0, .send 0 true,
       .answer 0 0x30 7, .receive 0 0,
       .run 0, .send 0 true, .answer 0 0x30 9, .answer 0 0x30 7, .receive 0 0, .receive 0 0, .run 0,
       .call 1 (.get 0x40 4 false), .run 1, .send 1 true, .answer 0 0x30 3, .receive 1 0, .run 1],
      w.done.map (fun r => (r.device, r.outcome.toOption)) =
        [(1, some (.word 3, 0)), (0, some (.long 0x900000007, 0))] := by decide
  obtain ⟨w, hw, hdone⟩ := hrun
  exact ⟨w, hw, hdone, answered_of_tagFree (reach_of_exec_checked _ hw)⟩

/-- Two objects on one socket ask their devices for a register; both requests have the tag 1. The
first object takes the answer of the second device for its own. -/
theorem answer_of_other_device_accepted : ∃ ds w, Reach step anyStep (boot ds) w ∧
    (∃ y ∈ w.accepted, y.device = 0 ∧ y.reply.src = 18 ∧ w.devices[0]?.map (·.devAddr) = some 17) ∧
      ¬Answered w := by
  have hrun : ∃ w ∈ exec step (boot [(17, 5, false), (18, 5, false)])
      [.call 0 (.get 0x20 4 true), .run 0, .send 0 true,
       .call 1 (.get 0x20 4 true), .run 1, .send 1 true,
       .answer 0 0x30 9, .receive 0 0, .run 0],
      ∃ y ∈ w.accepted, y.device = 0 ∧ y.reply.src = 18 ∧
        w.devices[0]?.map (·.devAddr) = some 17 := by decide
  obtain ⟨w, hw, y, hy, hdev, hsrc, haddr⟩ := hrun
  refine ⟨_, w, reach_of_exec _ hw, ⟨y, hy, hdev, hsrc, haddr⟩, fun ha => ?_⟩
  obtain ⟨d, hd, heq⟩ := (ha.accepted y hy).src
  rw [hdev] at hd
  rw [hd] at haddr
  simp only [Option.map_some, Option.some.injEq] at haddr
  omega

end OpenCpi.Net
