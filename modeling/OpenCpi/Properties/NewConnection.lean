import OpenCpi.Transport.Connect

/-!
# What a connection request leaves when it fails

A request that gives up because the timer has expired, or because of an error code, unlocks the mailbox of the
server. It does not when the allocator has no memory for the protocol text, and not when `dispatch` throws while
it waits. Nothing frees the text but the server's request for the offsets: when the answer fails to come before
that, the memory stays allocated. A circuit that is accepted while the call waits stays in the list, and a circuit
that had the number of the new one is gone.
-/

namespace OpenCpi.NewConnection

open Infra

variable {t u v : Transport} {call : Call} {r : Request} {rs rs' : List Request} {turns : List Turn}
  {a id server : Nat} {α : Type}

/-! ## What is asked for -/

/-- The lock of the server's mailbox and the list of circuits are what they were, and all that is allocated was
allocated before. -/
structure LeavesNothing (before after : Transport) (call : Call) : Prop where
  lock : after.locks call.server = before.locks call.server
  circuits : after.circuits = before.circuits
  memory : ∀ m ∈ after.memory, m ∈ before.memory

/-! ## When it is so -/

/-- The request makes a circuit, or an exception leaves `dispatch`. -/
def Request.disturbs (hasListener : Bool) : Request → Bool
  | .newConnection .. => hasListener
  | .outputControlOffset _ _ known => !known
  | .other _ => false

/-- The request frees the memory at the offset of the endpoint. -/
def Request.Frees (circuits : List Circuit) (control endpoint offset : Nat) : Request → Prop
  | .outputControlOffset id protocolOffset _ =>
    protocolOffset ≠ 0 ∧ endpoint = control ∧
      (circuits.find? (·.id == id)).map Circuit.protocolOffset = some offset
  | _ => False

instance (circuits : List Circuit) (control endpoint offset : Nat) :
    ∀ r : Request, Decidable (r.Frees circuits control endpoint offset)
  | .outputControlOffset .. => inferInstanceAs (Decidable (_ ∧ _ ∧ _))
  | .newConnection .. | .other _ => inferInstanceAs (Decidable False)

/-- The number of a new circuit. -/
def newId (t : Transport) (cid : Nat) : Nat := if cid = 0 then t.nextCircuitId else cid

namespace Call

/-- The requests that the first loop meets. -/
def busyRequests (call : Call) : List Turn → List Request
  | [] => []
  | turn :: turns => turn.requests ++ if call.late turn then [] else call.busyRequests turns

/-- The requests that the second loop meets. -/
def waitingRequests (call : Call) : List Turn → List Request
  | [] => []
  | turn :: turns => if call.late turn then [] else turn.requests ++ call.waitingRequests turns

/-- The own mailbox becomes available. -/
def asks (call : Call) : Bool := call.supported && !call.busy.any call.late

/-- The new circuit, with its protocol text at an offset. -/
def circuit (call : Call) (t : Transport) (protocol : List UInt8) (offset : Nat) : Circuit :=
  ⟨t.nextAddress, newId t call.cid, protocol.length + 1, offset⟩

end Call

/-- No circuit has the number, no request that the call meets makes a circuit or throws, and when the call places a
protocol text, there is memory for it and a request that the call meets frees it. -/
structure Spared (t : Transport) (call : Call) : Prop where
  unreplaced : call.cid = 0 ∨ t.getCircuit call.cid = none
  busy : call.supported = true → ∀ r ∈ call.busyRequests call.busy, r.disturbs t.hasListener = false
  waiting : call.asks = true → ∀ r ∈ call.waitingRequests call.waiting, r.disturbs t.hasListener = false
  freed : call.asks = true → ∀ protocol, call.protocol = some protocol → ∃ offset, call.room = some offset ∧
    ∃ r ∈ call.waitingRequests call.waiting,
      r.Frees (t.circuits ++ [call.circuit t protocol offset]) t.control call.client offset

/-! ## What every method keeps -/

/-- A method keeps a property of the transport, also when it is left. -/
def Keeps (P : Transport → Prop) (m : Method α) : Prop :=
  ∀ t, P t → Exc.Ends (fun _ u => P u) (fun _ u => P u) m t

/-- A property that does not depend on the memory and the texts, and that a new circuit does not break. -/
structure Steady (P : Transport → Prop) : Prop where
  addMemory : ∀ t endpoint offset, P t → P (t.addMemory endpoint offset)
  freeMemory : ∀ t endpoint offset, P t → P (t.freeMemory endpoint offset)
  protocol : ∀ t address size offset, P t → P (t.setProtocolInfo address size offset)
  addCircuit : ∀ cid, Keeps P (addCircuit cid)

variable {P : Transport → Prop}

theorem keeps_bind {β : Type} {m : Method β} {f : β → Method α} (hm : Keeps P m)
    (hf : ∀ b, Keeps P (f b)) : Keeps P (m >>= f) :=
  fun t ht => (hm t ht).bind fun b u hu => hf b u hu

theorem keeps_read {f : Transport → Method α} (hf : ∀ t, Keeps P (f t)) : Keeps P (Exc.read >>= f) :=
  fun t ht => hf t t ht

theorem keeps_pure (a : α) : Keeps P (pure a : Method α) := fun _ ht => ht

theorem keeps_raise (e : Failure) : Keeps P (Exc.raise e : Method α) := fun _ ht => ht

theorem keeps_change {f : Transport → Transport} (hf : ∀ t, P t → P (f t)) :
    Keeps P (Exc.change f : Method Unit) := fun t ht => hf t ht

theorem keeps_ite {c : Prop} [Decidable c] {m m' : Method α} (hm : Keeps P m) (hm' : Keeps P m') :
    Keeps P (if c then m else m') := by
  split
  · exact hm
  · exact hm'

theorem keeps_circuitOf : Keeps P (circuitOf id) := by
  refine keeps_read fun t => ?_
  cases t.getCircuit id with
  | some circuit => exact keeps_pure circuit
  | none => exact keeps_raise .crashed

namespace Steady

theorem alloc (hP : Steady P) (endpoint : Nat) (room : Option Nat) : Keeps P (alloc endpoint room) := by
  cases room with
  | none => exact keeps_raise .thrown
  | some offset =>
    exact keeps_bind (keeps_change fun t => hP.addMemory t endpoint offset) fun _ => keeps_pure offset

theorem free (hP : Steady P) (endpoint offset : Nat) : Keeps P (free endpoint offset) :=
  keeps_read fun _ =>
    keeps_ite (keeps_change fun u => hP.freeMemory u endpoint offset) (keeps_raise .crashed)

theorem accept (hP : Steady P) (circuitId protocolSize : Nat) (room : Option Nat) (throws : Bool) :
    Keeps P (accept circuitId protocolSize room throws) := by
  refine keeps_bind ?_ fun offset => ?_
  · exact keeps_read fun t => keeps_ite (keeps_pure 0) (hP.alloc t.control room)
  · refine keeps_bind (hP.addCircuit circuitId) fun address => ?_
    exact keeps_bind (keeps_change fun u => hP.protocol u address protocolSize offset) fun _ =>
      keeps_ite (keeps_raise .thrown) (keeps_pure ())

theorem checkMailBox (hP : Steady P) (r : Request) : Keeps P (checkMailBox r) := by
  cases r with
  | newConnection circuitId protocolSize known room throws =>
    exact keeps_read fun _ => keeps_ite
      (keeps_ite (hP.accept circuitId protocolSize room throws) (keeps_raise .thrown)) (keeps_pure ())
  | outputControlOffset circuitId protocolOffset known =>
    refine keeps_bind keeps_circuitOf fun circuit => keeps_ite ?_ (keeps_raise .thrown)
    exact keeps_read fun u => keeps_ite (keeps_pure ()) <|
      keeps_ite (keeps_raise .crashed) (hP.free u.control circuit.protocolOffset)
  | other circuitId => exact keeps_bind keeps_circuitOf fun _ => keeps_pure ()

theorem dispatch (hP : Steady P) : ∀ rs : List Request, Keeps P (dispatch rs)
  | [] => keeps_pure ()
  | r :: rs => keeps_bind (hP.checkMailBox r) fun _ => hP.dispatch rs

section
variable (hP : Steady P) (hlock : ∀ t server held, P t → P (t.setLock server held))
include hlock

theorem giveUp (call : Call) : Keeps P (call.giveUp : Method α) :=
  keeps_bind (keeps_change fun t => hlock t call.server false) fun _ => keeps_raise .thrown

include hP

theorem waitUntilFree (call : Call) : ∀ turns : List Turn, Keeps P (call.waitUntilFree turns)
  | [] => keeps_pure ()
  | turn :: turns => keeps_bind (hP.dispatch turn.requests) fun _ =>
    keeps_ite (giveUp hlock call) (waitUntilFree call turns)

theorem waitForAnswer (call : Call) : ∀ turns : List Turn, Keeps P (call.waitForAnswer turns)
  | [] => keeps_pure ()
  | turn :: turns => keeps_ite (giveUp hlock call) <|
    keeps_bind (hP.dispatch turn.requests) fun _ => waitForAnswer call turns

omit hlock in
theorem placeProtocol (call : Call) (address : Nat) : Keeps P (call.placeProtocol address) := by
  unfold Call.placeProtocol
  cases call.protocol with
  | none => exact keeps_pure ()
  | some protocol =>
    exact keeps_bind (hP.alloc call.client call.room) fun offset =>
      keeps_change fun t => hP.protocol t address (protocol.length + 1) offset

theorem answer (call : Call) : Keeps P (call.waitForAnswer call.waiting >>= fun _ => call.finish) :=
  keeps_bind (waitForAnswer hP hlock call call.waiting) fun _ =>
    keeps_ite (giveUp hlock call) (keeps_change fun t => hlock t call.server false)

theorem requestNewConnection (call : Call) (address : Nat) :
    Keeps P (call.requestNewConnection address) := by
  refine keeps_ite (keeps_bind ?_ fun _ => ?_) (keeps_raise .thrown)
  · exact keeps_read fun t => keeps_ite (keeps_raise .blocked)
      (keeps_change fun u => hlock u call.server true)
  · exact keeps_bind (waitUntilFree hP hlock call call.busy) fun _ =>
      keeps_bind (placeProtocol hP call address) fun _ => answer hP hlock call

end

end Steady

/-! ## A new circuit -/

/-- The circuits that a new one leaves in the list. -/
def remaining (t : Transport) (cid : Nat) : List Circuit :=
  match if cid = 0 then none else t.getCircuit cid with
  | some circuit => t.circuits.filter (·.address != circuit.address)
  | none => t.circuits

/-- What making and deleting circuits leaves as it is. -/
structure Beside (t u : Transport) : Prop where
  locks : u.locks = t.locks
  control : u.control = t.control
  memory : u.memory = t.memory
  serial : u.nextSerial = t.nextSerial
  listener : u.hasListener = t.hasListener

/-- What adding a circuit does. -/
structure Added (cid : Nat) (t : Transport) (address : Nat) (u : Transport) : Prop extends Beside t u where
  address : address = t.nextAddress
  next : u.nextAddress = t.nextAddress + 1
  circuits : u.circuits = remaining t cid ++ [{ address := t.nextAddress, id := newId t cid }]

theorem any_address_of_getCircuit {circuit : Circuit} (h : t.getCircuit id = some circuit) :
    t.circuits.any (·.address == circuit.address) = true :=
  List.any_eq_true.mpr ⟨circuit, List.mem_of_find?_eq_some h, beq_self_eq_true _⟩

theorem deleteCircuit_spec (address : Nat) (t : Transport) :
    Exc.Ends (fun _ u => u = t.erase address)
      (fun e _ => e = .crashed ∧ t.circuits.any (·.address == address) = false) (deleteCircuit address) t := by
  unfold deleteCircuit
  rw [Exc.ends_read_bind]
  split
  · rfl
  · next h => exact ⟨rfl, Bool.eq_false_iff.mpr h⟩

theorem chooseId_spec (cid : Nat) (t : Transport) :
    Exc.Ends (fun id u => id = newId t cid ∧ u.circuits = remaining t cid ∧ u.nextAddress = t.nextAddress ∧
      Beside t u) (fun _ _ => False) (chooseId cid) t := by
  unfold chooseId newId remaining
  rw [Exc.ends_read_bind]
  by_cases hzero : cid = 0
  · simp only [hzero, if_true]
    exact ⟨rfl, rfl, rfl, rfl, rfl, rfl, rfl, rfl⟩
  · simp only [hzero, if_false]
    cases hc : t.getCircuit cid with
    | none => exact ⟨rfl, rfl, rfl, rfl, rfl, rfl, rfl, rfl⟩
    | some circuit =>
      have hdelete : Exc.Ends (fun _ u => u = t.erase circuit.address) (fun _ _ => False)
          (deleteCircuit circuit.address) t := by
        refine (deleteCircuit_spec circuit.address t).imp (fun _ _ h => h) fun _ _ h => ?_
        exact Bool.false_ne_true (h.2.symm.trans (any_address_of_getCircuit hc))
      refine hdelete.bind fun _ u hu => ?_
      rw [hu]
      exact ⟨rfl, rfl, rfl, rfl, rfl, rfl, rfl, rfl⟩

theorem addCircuit_spec (cid : Nat) (t : Transport) :
    Exc.Ends (Added cid t) (fun _ _ => False) (addCircuit cid) t := by
  refine (chooseId_spec cid t).bind fun id u ⟨hid, hcircuits, hnext, hbeside⟩ => ?_
  rw [Exc.ends_read_bind, Exc.ends_change_bind, Exc.ends_pure]
  refine ⟨⟨hbeside.locks, hbeside.control, hbeside.memory, hbeside.serial, hbeside.listener⟩, hnext, ?_, ?_⟩
  · show u.nextAddress + 1 = t.nextAddress + 1
    rw [hnext]
  · show u.circuits ++ _ = _
    rw [hcircuits, hnext, hid]

/-- What holds after a new circuit holds after `addCircuit`. -/
theorem keeps_addCircuit (h : ∀ cid t address u, Added cid t address u → P t → P u) (cid : Nat) :
    Keeps P (addCircuit cid) :=
  fun t ht => (addCircuit_spec cid t).imp (fun address u hu => h cid t address u hu ht) fun _ _ hf => hf.elim

theorem steady_locks (locks : Nat → Bool) : Steady fun t => t.locks = locks where
  addMemory _ _ _ ht := ht
  freeMemory _ _ _ ht := ht
  protocol _ _ _ _ ht := ht
  addCircuit := keeps_addCircuit fun _ _ _ _ hu ht => hu.locks.trans ht

theorem steady_next (a : Nat) : Steady fun t => a < t.nextAddress where
  addMemory _ _ _ ht := ht
  freeMemory _ _ _ ht := ht
  protocol _ _ _ _ ht := ht
  addCircuit := keeps_addCircuit fun _ _ _ _ hu ht => hu.next ▸ Nat.lt_succ_of_lt ht

/-- A circuit that was made after the address `a` was taken. -/
def Later (a : Nat) (t : Transport) : Prop := a < t.nextAddress ∧ ∃ c ∈ t.circuits, a < c.address

theorem later_of_added {cid address : Nat} (h : a < t.nextAddress) (hu : Added cid t address u) : Later a u := by
  refine ⟨hu.next ▸ Nat.lt_succ_of_lt h, ⟨t.nextAddress, newId t cid, 0, 0⟩, ?_, h⟩
  rw [hu.circuits]
  exact List.mem_append_right _ List.mem_cons_self

/-- The addresses stay when the text of a circuit is placed. -/
theorem mem_setProtocolInfo {c : Circuit} {address size offset : Nat}
    (h : c ∈ (t.setProtocolInfo address size offset).circuits) : ∃ d ∈ t.circuits, d.address = c.address := by
  obtain ⟨d, hd, rfl⟩ := List.mem_map.mp h
  refine ⟨d, hd, ?_⟩
  split
  · rfl
  · rfl

theorem steady_later (a : Nat) : Steady (Later a) where
  addMemory _ _ _ ht := ht
  freeMemory _ _ _ ht := ht
  protocol t address size offset ht := by
    obtain ⟨hlt, c, hc, hac⟩ := ht
    refine ⟨hlt, _, List.mem_map_of_mem hc, ?_⟩
    split
    · exact hac
    · exact hac
  addCircuit := keeps_addCircuit fun _ _ _ _ hu ht => later_of_added ht.1 hu

/-- No circuit has the address, and none is going to have it. -/
def Gone (a : Nat) (t : Transport) : Prop := a < t.nextAddress ∧ ∀ c ∈ t.circuits, c.address ≠ a

theorem mem_of_remaining {cid : Nat} {c : Circuit} (h : c ∈ remaining t cid) : c ∈ t.circuits := by
  unfold remaining at h
  split at h
  · exact (List.mem_filter.mp h).1
  · exact h

theorem steady_gone (a : Nat) : Steady (Gone a) where
  addMemory _ _ _ ht := ht
  freeMemory _ _ _ ht := ht
  protocol t address size offset ht := by
    refine ⟨ht.1, fun c hc => ?_⟩
    obtain ⟨d, hd, hda⟩ := mem_setProtocolInfo hc
    exact hda ▸ ht.2 d hd
  addCircuit := keeps_addCircuit fun cid t address u hu ht => by
    refine ⟨hu.next ▸ Nat.lt_succ_of_lt ht.1, fun c hc => ?_⟩
    rw [hu.circuits] at hc
    rcases List.mem_append.mp hc with h | h
    · exact ht.2 c (mem_of_remaining h)
    · rw [List.mem_singleton.mp h]
      exact Nat.ne_of_gt ht.1

/-! ## Requests that do not disturb -/

/-- What requests that do not disturb leave: they do nothing but free memory. -/
structure Settled (rs : List Request) (t u : Transport) : Prop where
  circuits : u.circuits = t.circuits
  next : u.nextAddress = t.nextAddress
  control : u.control = t.control
  listener : u.hasListener = t.hasListener
  serial : u.nextSerial = t.nextSerial
  memory : ∀ m, m ∈ u.memory ↔
    m ∈ t.memory ∧ ∀ r ∈ rs, ¬ r.Frees t.circuits t.control m.endpoint m.offset

namespace Settled

theorem refl (t : Transport) : Settled [] t t :=
  ⟨rfl, rfl, rfl, rfl, rfl, fun m => ⟨fun hm => ⟨hm, by simp⟩, fun hm => hm.1⟩⟩

theorem append (h : Settled rs t u) (h' : Settled rs' u v) : Settled (rs ++ rs') t v where
  circuits := h'.circuits.trans h.circuits
  next := h'.next.trans h.next
  control := h'.control.trans h.control
  listener := h'.listener.trans h.listener
  serial := h'.serial.trans h.serial
  memory m := by
    rw [h'.memory m, h.memory m, h.circuits, h.control, and_assoc, List.forall_mem_append]

theorem setLock (h : Settled rs t u) (server : Nat) (held : Bool) : Settled rs t (u.setLock server held) :=
  ⟨h.circuits, h.next, h.control, h.listener, h.serial, h.memory⟩

/-- A request that frees nothing. -/
theorem same (h : ∀ endpoint offset, ¬ r.Frees t.circuits t.control endpoint offset) : Settled [r] t t :=
  ⟨rfl, rfl, rfl, rfl, rfl, fun m => ⟨fun hm => ⟨hm, fun r' hr' => by
    rw [List.mem_singleton.mp hr']
    exact h m.endpoint m.offset⟩, fun hm => hm.1⟩⟩

end Settled

/-- Sending the protocol text of a circuit that the request names. -/
theorem sendProtocol_settled {circuit : Circuit} {protocolOffset : Nat} {known : Bool}
    (hc : t.getCircuit id = some circuit) :
    Exc.Ends (fun _ u => Settled [.outputControlOffset id protocolOffset known] t u)
      (fun e _ => e = .crashed) (sendProtocol circuit protocolOffset) t := by
  have hfrees : ∀ endpoint offset,
      (Request.outputControlOffset id protocolOffset known).Frees t.circuits t.control endpoint offset ↔
        protocolOffset ≠ 0 ∧ endpoint = t.control ∧ circuit.protocolOffset = offset := by
    intro endpoint offset
    have hfind : t.circuits.find? (·.id == id) = some circuit := hc
    simp only [Request.Frees, hfind, Option.map_some, Option.some.injEq]
  unfold sendProtocol
  rw [Exc.ends_read_bind]
  split
  · next hzero => exact Settled.same fun endpoint offset hf => ((hfrees endpoint offset).mp hf).1 hzero
  · next hoff =>
    split
    · rfl
    · unfold free
      rw [Exc.ends_read_bind]
      split
      · refine ⟨rfl, rfl, rfl, rfl, rfl, fun m => ?_⟩
        show m ∈ t.memory.filter _ ↔ _
        rw [List.mem_filter]
        simp only [List.forall_mem_singleton, hfrees, Memory.isAt, ne_eq, hoff, not_false_eq_true, true_and,
          Bool.not_eq_true', ← Bool.not_eq_true, Bool.and_eq_true, beq_iff_eq]
        simp only [eq_comm]
      · rfl

theorem circuitOf_spec (id : Nat) (t : Transport) :
    Exc.Ends (fun circuit u => u = t ∧ t.getCircuit id = some circuit) (fun e _ => e = .crashed)
      (circuitOf id) t := by
  unfold circuitOf
  rw [Exc.ends_read_bind]
  cases t.getCircuit id with
  | none => rfl
  | some circuit => exact ⟨rfl, rfl⟩

theorem checkMailBox_settled (hr : r.disturbs t.hasListener = false) :
    Exc.Ends (fun _ u => Settled [r] t u) (fun e _ => e = .crashed) (checkMailBox r) t := by
  cases r with
  | newConnection circuitId protocolSize known room throws =>
    have hlistener : t.hasListener = false := hr
    unfold checkMailBox
    rw [Exc.ends_read_bind, hlistener]
    exact Settled.same fun _ _ hf => hf
  | outputControlOffset circuitId protocolOffset known =>
    have hknown : known = true := by simpa [Request.disturbs] using hr
    refine (circuitOf_spec circuitId t).bind fun circuit u hu => ?_
    obtain ⟨rfl, hc⟩ := hu
    rw [if_pos hknown]
    exact sendProtocol_settled hc
  | other circuitId =>
    refine (circuitOf_spec circuitId t).bind fun circuit u hu => ?_
    obtain ⟨rfl, -⟩ := hu
    exact Settled.same fun _ _ hf => hf

/-- **`dispatch` with requests that do not disturb.** -/
theorem dispatch_settled : ∀ {rs : List Request} {t : Transport},
    (∀ r ∈ rs, r.disturbs t.hasListener = false) →
    Exc.Ends (fun _ u => Settled rs t u) (fun e _ => e = .crashed) (dispatch rs) t
  | [], t, _ => Settled.refl t
  | r :: rs, t, hrs => by
    refine (checkMailBox_settled (hrs r List.mem_cons_self)).bind fun _ u hu => ?_
    have hrest : ∀ r' ∈ rs, r'.disturbs u.hasListener = false := fun r' hr' =>
      hu.listener ▸ hrs r' (List.mem_cons_of_mem r hr')
    exact (dispatch_settled hrest).imp (fun _ v hv => hu.append hv) fun _ _ he => he

/-- A loop that waits goes on: the timer has not expired, and the locks are as they were. -/
structure GoesOn (late : Bool) (rs : List Request) (t u : Transport) : Prop extends Settled rs t u where
  late : late = false
  locks : u.locks = t.locks

/-- A loop that waits gives up: the timer has expired, and the server's lock is released. -/
structure GivesUp (late : Bool) (server : Nat) (rs : List Request) (t u : Transport) : Prop
    extends Settled rs t u where
  late : late = true
  locks : ∀ n, u.locks n = if n = server then false else t.locks n

/-- How a loop that waits ends when no request disturbs. -/
def Waits (late : Bool) (server : Nat) (rs : List Request) (t : Transport) (m : Method Unit) (u : Transport) :
    Prop :=
  Exc.Ends (fun _ v => GoesOn late rs t v) (fun e v => e = .thrown → GivesUp late server rs t v) m u

theorem Waits.after {late : Bool} {m : Method Unit} (hs : Settled rs t u) (hlocks : u.locks = t.locks)
    (h : Waits late server rs' u m u) : Waits late server (rs ++ rs') t m u := by
  refine h.imp (fun _ v hv => ⟨hs.append hv.toSettled, hv.late, hv.locks.trans hlocks⟩) fun e v hv he => ?_
  exact ⟨hs.append (hv he).toSettled, (hv he).late, fun n => hlocks ▸ (hv he).locks n⟩

theorem waits_giveUp (hs : Settled rs t u) (hlocks : u.locks = t.locks) :
    Waits true call.server rs t call.giveUp u :=
  fun _ => ⟨hs.setLock call.server false, rfl, fun _ => hlocks ▸ rfl⟩

/-- `dispatch` before the rest of a loop. -/
theorem waits_dispatch {late : Bool} {m : Method Unit} (hrs : ∀ r ∈ rs, r.disturbs t.hasListener = false)
    (h : ∀ u, Settled rs t u → u.locks = t.locks → Waits late server rs' t m u) :
    Waits late server rs' t (dispatch rs >>= fun _ => m) t := by
  have hdispatch := (dispatch_settled hrs).and ((steady_locks t.locks).dispatch rs t rfl)
  refine hdispatch.seq (fun e u he ht => ?_) fun _ u hu => h u hu.1 hu.2
  rw [he.1] at ht
  exact nomatch ht

/-- **The loop that waits for the own mailbox.** -/
theorem waitUntilFree_waits : ∀ {turns : List Turn} {t : Transport},
    (∀ r ∈ call.busyRequests turns, r.disturbs t.hasListener = false) →
    Waits (turns.any call.late) call.server (call.busyRequests turns) t (call.waitUntilFree turns) t
  | [], t, _ => ⟨Settled.refl t, rfl, rfl⟩
  | turn :: turns, t, hrs => by
    unfold Call.busyRequests at hrs ⊢
    rw [List.forall_mem_append] at hrs
    refine waits_dispatch hrs.1 fun u hs hlocks => ?_
    rw [List.any_cons]
    cases hlate : call.late turn with
    | true =>
      simp only [if_true, Bool.true_or, List.append_nil]
      exact waits_giveUp hs hlocks
    | false =>
      simp only [hlate, Bool.false_eq_true, if_false, Bool.false_or] at hrs ⊢
      exact Waits.after hs hlocks (waitUntilFree_waits (hs.listener ▸ hrs.2))

/-- **The loop that waits for the answer.** -/
theorem waitForAnswer_waits : ∀ {turns : List Turn} {t : Transport},
    (∀ r ∈ call.waitingRequests turns, r.disturbs t.hasListener = false) →
    Waits (turns.any call.late) call.server (call.waitingRequests turns) t (call.waitForAnswer turns) t
  | [], t, _ => ⟨Settled.refl t, rfl, rfl⟩
  | turn :: turns, t, hrs => by
    unfold Call.waitingRequests at hrs ⊢
    unfold Call.waitForAnswer
    rw [List.any_cons]
    cases hlate : call.late turn with
    | true => exact waits_giveUp (Settled.refl t) rfl
    | false =>
      simp only [hlate, Bool.false_eq_true, if_false, Bool.false_or] at hrs ⊢
      rw [List.forall_mem_append] at hrs
      exact waits_dispatch hrs.1 fun u hs hlocks =>
        Waits.after hs hlocks (waitForAnswer_waits (hs.listener ▸ hrs.2))

/-! ## Requests that disturb -/

theorem exists_disturbs {hasListener : Bool} (h : ¬ ∀ r ∈ rs, r.disturbs hasListener = false) :
    ∃ r ∈ rs, r.disturbs hasListener = true := by
  simpa using h

/-- The call holds the lock of the server, and the circuit at `a` has been made. -/
structure Holds (a server : Nat) (hasListener : Bool) (t : Transport) : Prop where
  listener : t.hasListener = hasListener
  made : a < t.nextAddress
  lock : t.locks server = true

/-- What a request that disturbs leads to: the lock is held for good, or the list has another circuit. -/
def Stuck (a server : Nat) (t : Transport) : Prop := t.locks server = true ∨ Later a t

theorem steady_holds (a server : Nat) (hasListener : Bool) : Steady (Holds a server hasListener) where
  addMemory _ _ _ ht := ⟨ht.listener, ht.made, ht.lock⟩
  freeMemory _ _ _ ht := ⟨ht.listener, ht.made, ht.lock⟩
  protocol _ _ _ _ ht := ⟨ht.listener, ht.made, ht.lock⟩
  addCircuit := keeps_addCircuit fun _ _ _ _ hu ht =>
    ⟨hu.listener.trans ht.listener, hu.next ▸ Nat.lt_succ_of_lt ht.made, hu.locks ▸ ht.lock⟩

theorem later_setLock (a : Nat) (t : Transport) (server : Nat) (held : Bool) (h : Later a t) :
    Later a (t.setLock server held) := h

theorem accept_later {circuitId protocolSize : Nat} {room : Option Nat} {throws : Bool} (ha : a < t.nextAddress) :
    Exc.Ends (fun _ u => Later a u) (fun _ _ => True) (accept circuitId protocolSize room throws) t := by
  have halloc : Keeps (fun t => a < t.nextAddress) (allocProtocol protocolSize room) :=
    keeps_read fun t => keeps_ite (keeps_pure 0) ((steady_next a).alloc t.control room)
  unfold accept
  refine (halloc t ha).seq (fun _ _ _ => trivial) fun offset u hu => ?_
  refine (addCircuit_spec circuitId u).seq (fun _ _ _ => trivial) fun address v hv => ?_
  have hlater : Later a v := later_of_added hu hv
  rw [Exc.ends_change_bind]
  split
  · trivial
  · exact (steady_later a).protocol v address protocolSize offset hlater

theorem checkMailBox_later (hr : r.disturbs t.hasListener = true) (ha : a < t.nextAddress) :
    Exc.Ends (fun _ u => Later a u) (fun _ _ => True) (checkMailBox r) t := by
  cases r with
  | newConnection circuitId protocolSize known room throws =>
    have hlistener : t.hasListener = true := hr
    unfold checkMailBox
    rw [Exc.ends_read_bind, if_pos hlistener]
    split
    · exact accept_later ha
    · trivial
  | outputControlOffset circuitId protocolOffset known =>
    have hknown : known = false := by simpa [Request.disturbs] using hr
    refine (circuitOf_spec circuitId t).seq (fun _ _ _ => trivial) fun circuit u _ => ?_
    rw [hknown]
    trivial
  | other circuitId => exact nomatch hr

/-- A request that disturbs does not get lost in `dispatch`. -/
theorem dispatch_later : ∀ {rs : List Request} {t : Transport}, (∃ r ∈ rs, r.disturbs t.hasListener = true) →
    a < t.nextAddress → Exc.Ends (fun _ u => Later a u) (fun _ _ => True) (dispatch rs) t
  | [], _, hrs, _ => by simp at hrs
  | r :: rs, t, hrs, ha => by
    unfold dispatch
    cases hr : r.disturbs t.hasListener with
    | true =>
      refine (checkMailBox_later hr ha).bind fun _ u hu => ?_
      exact ((steady_later a).dispatch rs u hu).imp (fun _ _ h => h) fun _ _ _ => trivial
    | false =>
      have hrest : ∃ r' ∈ rs, r'.disturbs t.hasListener = true := by simpa [hr] using hrs
      exact (checkMailBox_settled hr).seq (fun _ _ _ => trivial) fun _ u hu =>
        dispatch_later (hu.listener ▸ hrest) (hu.next ▸ ha)

/-- `dispatch` before the rest of a loop, when one of its requests disturbs. -/
theorem stuck_dispatch {hasListener : Bool} {m : Method Unit} (ht : Holds a server hasListener t)
    (hrs : ∃ r ∈ rs, r.disturbs hasListener = true) (hm : Keeps (Later a) m) :
    Exc.Ends (fun _ u => Later a u) (fun _ u => Stuck a server u) (dispatch rs >>= fun _ => m) t := by
  have hlater := dispatch_later (ht.listener ▸ hrs) ht.made
  have hholds := (steady_holds a server hasListener).dispatch rs t ht
  refine (hlater.and hholds).seq (fun _ _ h => Or.inl h.2.lock) fun _ u hu => ?_
  exact (hm u hu.1).imp (fun _ _ h => h) fun _ _ h => Or.inr h

/-- `dispatch` before the rest of a loop, when the request that disturbs comes later. -/
theorem holds_dispatch {hasListener : Bool} {m : Method Unit} (ht : Holds a server hasListener t)
    (hm : ∀ u, Holds a server hasListener u →
      Exc.Ends (fun _ v => Later a v) (fun _ v => Stuck a server v) m u) :
    Exc.Ends (fun _ u => Later a u) (fun _ u => Stuck a server u) (dispatch rs >>= fun _ => m) t :=
  ((steady_holds a server hasListener).dispatch rs t ht).seq (fun _ _ h => Or.inl h.lock) fun _ u hu => hm u hu

theorem waitUntilFree_stuck {hasListener : Bool} : ∀ {turns : List Turn} {t : Transport},
    Holds a call.server hasListener t →
    (∃ r ∈ call.busyRequests turns, r.disturbs hasListener = true) →
    Exc.Ends (fun _ u => Later a u) (fun _ u => Stuck a call.server u) (call.waitUntilFree turns) t
  | [], _, _, hrs => by simp [Call.busyRequests] at hrs
  | turn :: turns, t, ht, hrs => by
    unfold Call.waitUntilFree
    have hlater := steady_later a
    by_cases hfirst : ∃ r ∈ turn.requests, r.disturbs hasListener = true
    · exact stuck_dispatch ht hfirst <| keeps_ite (Steady.giveUp (later_setLock a) call)
        (hlater.waitUntilFree (later_setLock a) call turns)
    · have hrest : call.late turn = false ∧ ∃ r ∈ call.busyRequests turns, r.disturbs hasListener = true := by
        obtain ⟨r, hr, hd⟩ := hrs
        rcases List.mem_append.mp hr with h | h
        · exact absurd ⟨r, h, hd⟩ hfirst
        · cases hlate : call.late turn with
          | true => simp [hlate] at h
          | false => exact ⟨rfl, r, by simpa [hlate] using h, hd⟩
      refine holds_dispatch ht fun u hu => ?_
      simp only [hrest.1, Bool.false_eq_true, if_false]
      exact waitUntilFree_stuck hu hrest.2

theorem waitForAnswer_stuck {hasListener : Bool} : ∀ {turns : List Turn} {t : Transport},
    Holds a call.server hasListener t →
    (∃ r ∈ call.waitingRequests turns, r.disturbs hasListener = true) →
    Exc.Ends (fun _ u => Later a u) (fun _ u => Stuck a call.server u) (call.waitForAnswer turns) t
  | [], _, _, hrs => by simp [Call.waitingRequests] at hrs
  | turn :: turns, t, ht, hrs => by
    unfold Call.waitForAnswer
    unfold Call.waitingRequests at hrs
    cases hlate : call.late turn with
    | true => simp [hlate] at hrs
    | false =>
      simp only [hlate, Bool.false_eq_true, if_false] at hrs ⊢
      by_cases hfirst : ∃ r ∈ turn.requests, r.disturbs hasListener = true
      · exact stuck_dispatch ht hfirst ((steady_later a).waitForAnswer (later_setLock a) call turns)
      · refine holds_dispatch ht fun u hu => waitForAnswer_stuck hu ?_
        obtain ⟨r, hr, hd⟩ := hrs
        rcases List.mem_append.mp hr with h | h
        · exact absurd ⟨r, h, hd⟩ hfirst
        · exact ⟨r, h, hd⟩

/-! ## The parts of a call -/

/-- The circuits without the new one. -/
theorem filter_new {c : Circuit} (hc : c.address = t.nextAddress) :
    (t.circuits ++ [c]).filter (·.address != t.nextAddress) = t.circuits := by
  rw [List.filter_append, List.filter_eq_self.mpr, List.filter_cons_of_neg (by simp [hc]), List.filter_nil,
    List.append_nil]
  intro d hd
  simpa using Nat.ne_of_lt (t.circuits_lt d hd)

/-- Placing the text of the new circuit changes no other. -/
theorem map_new {c : Circuit} {size offset : Nat} (hc : c.address = t.nextAddress) :
    ((t.circuits ++ [c]).map fun d =>
      if d.address = t.nextAddress then { d with protocolSize := size, protocolOffset := offset } else d) =
      t.circuits ++ [{ c with protocolSize := size, protocolOffset := offset }] := by
  rw [List.map_append, List.map_singleton, if_pos hc]
  congr 1
  calc t.circuits.map _ = t.circuits.map id :=
        List.map_congr_left fun d hd => if_neg (Nat.ne_of_lt (t.circuits_lt d hd))
    _ = t.circuits := List.map_id _

theorem not_leavesNothing_of_stuck (hfree : t.locks call.server = false)
    (h : Stuck t.nextAddress call.server u) : ¬ LeavesNothing t (u.erase t.nextAddress) call := by
  intro hl
  rcases h with h | ⟨-, c, hc, hlt⟩
  · exact Bool.false_ne_true (hfree.symm.trans (hl.lock.symm.trans h))
  · have hmem : c ∈ (u.erase t.nextAddress).circuits :=
      List.mem_filter.mpr ⟨hc, bne_iff_ne.mpr (Nat.ne_of_gt hlt)⟩
    rw [hl.circuits] at hmem
    exact Nat.lt_asymm hlt (t.circuits_lt c hmem)

/-- All that is allocated was allocated before, or one of the requests frees it. -/
def AllFreed (t u : Transport) (rs : List Request) : Prop :=
  ∀ m ∈ u.memory, m ∈ t.memory ∨ ∃ r ∈ rs, r.Frees u.circuits u.control m.endpoint m.offset

/-- Where the call throws, nothing is left once the new circuit is deleted exactly when `cond` holds. -/
def Decides (t : Transport) (call : Call) (cond : Prop) (e : Failure) (v : Transport) : Prop :=
  e = .thrown → (LeavesNothing t (v.erase t.nextAddress) call ↔ cond)

theorem decides_of_stuck {cond : Prop} (hfree : t.locks call.server = false) (hcond : ¬ cond) (e : Failure)
    (h : Stuck t.nextAddress call.server u) : Decides t call cond e u :=
  fun _ => iff_of_false (not_leavesNothing_of_stuck hfree h) hcond

/-- When only requests that do not disturb came in since `u`, the memory decides. -/
theorem leavesNothing_iff_of_settled (hs : Settled rs u v) (hlock : v.locks call.server = t.locks call.server)
    (hcircuits : u.circuits.filter (·.address != t.nextAddress) = t.circuits) :
    LeavesNothing t (v.erase t.nextAddress) call ↔ AllFreed t u rs := by
  have hmemory : (∀ m ∈ v.memory, m ∈ t.memory) ↔ AllFreed t u rs := by
    refine forall_congr' fun m => ?_
    rw [hs.memory m]
    constructor
    · intro h hm
      by_cases hf : ∃ r ∈ rs, r.Frees u.circuits u.control m.endpoint m.offset
      · exact Or.inr hf
      · exact Or.inl (h ⟨hm, fun r hr hfr => hf ⟨r, hr, hfr⟩⟩)
    · rintro h ⟨hm, hnot⟩
      rcases h hm with h | ⟨r, hr, hf⟩
      · exact h
      · exact absurd hf (hnot r hr)
  rw [← hmemory]
  refine ⟨fun h => h.memory, fun h => ⟨hlock, ?_, h⟩⟩
  show v.circuits.filter _ = _
  rw [hs.circuits, hcircuits]

/-- **The part of a call that waits for the answer**, from a state `u` that holds the lock and has the new
circuit. -/
theorem answer_decides (hfree : t.locks call.server = false)
    (hu : Holds t.nextAddress call.server t.hasListener u)
    (hcircuits : u.circuits.filter (·.address != t.nextAddress) = t.circuits) :
    Exc.Ends (fun _ _ => True)
      (Decides t call ((∀ r ∈ call.waitingRequests call.waiting, r.disturbs t.hasListener = false) ∧
        AllFreed t u (call.waitingRequests call.waiting)))
      (call.waitForAnswer call.waiting >>= fun _ => call.finish) u := by
  by_cases hquiet : ∀ r ∈ call.waitingRequests call.waiting, r.disturbs t.hasListener = false
  · rw [and_iff_right hquiet]
    have hwaits : Waits (call.waiting.any call.late) call.server (call.waitingRequests call.waiting) u
        (call.waitForAnswer call.waiting) u := waitForAnswer_waits (hu.listener ▸ hquiet)
    refine hwaits.seq (fun e v hv he => ?_) fun _ v hv => ?_
    · refine leavesNothing_iff_of_settled (hv he).toSettled ?_ hcircuits
      rw [(hv he).locks, if_pos rfl, hfree]
    · unfold Call.finish
      split
      · exact fun _ => leavesNothing_iff_of_settled (hv.toSettled.setLock call.server false)
          ((if_pos rfl).trans hfree.symm) hcircuits
      · trivial
  · have hwait := waitForAnswer_stuck hu (exists_disturbs hquiet)
    refine hwait.seq (fun e v hv => decides_of_stuck hfree (fun h => hquiet h.1) e hv) fun _ v hv => ?_
    have hfinish : Keeps (Later t.nextAddress) call.finish :=
      keeps_ite (Steady.giveUp (later_setLock _) call) (keeps_change fun w => later_setLock _ w call.server false)
    exact (hfinish v hv).imp (fun _ _ _ => trivial) fun e w hw =>
      decides_of_stuck hfree (fun h => hquiet h.1) e (Or.inr hw)

/-- The condition on the part of a call after the own mailbox has become available. -/
structure SparedLater (t : Transport) (call : Call) : Prop where
  waiting : ∀ r ∈ call.waitingRequests call.waiting, r.disturbs t.hasListener = false
  freed : ∀ protocol, call.protocol = some protocol → ∃ offset, call.room = some offset ∧
    ∃ r ∈ call.waitingRequests call.waiting,
      r.Frees (t.circuits ++ [call.circuit t protocol offset]) t.control call.client offset

/-- **The part of a call that places the protocol text and waits for the answer.** -/
theorem placeProtocol_decides (hfree : t.locks call.server = false)
    (hu : Holds t.nextAddress call.server t.hasListener u)
    (hcircuits : u.circuits = t.circuits ++ [{ address := t.nextAddress, id := newId t call.cid }])
    (hcontrol : u.control = t.control) (hserial : u.nextSerial = t.nextSerial)
    (hmemory : ∀ m ∈ u.memory, m ∈ t.memory) :
    Exc.Ends (fun _ _ => True) (Decides t call (SparedLater t call))
      (call.placeProtocol t.nextAddress >>= fun _ =>
        call.waitForAnswer call.waiting >>= fun _ => call.finish) u := by
  unfold Call.placeProtocol
  cases hp : call.protocol with
  | none =>
    have hcond : (∀ r ∈ call.waitingRequests call.waiting, r.disturbs t.hasListener = false) ∧
        AllFreed t u (call.waitingRequests call.waiting) ↔ SparedLater t call :=
      ⟨fun h => ⟨h.1, fun protocol hsome => nomatch hp.symm.trans hsome⟩,
        fun h => ⟨h.waiting, fun m hm => Or.inl (hmemory m hm)⟩⟩
    rw [← hcond]
    exact answer_decides hfree hu (hcircuits ▸ filter_new rfl)
  | some protocol =>
    cases hroom : call.room with
    | none =>
      refine decides_of_stuck hfree (fun h => ?_) .thrown (Or.inl hu.lock)
      obtain ⟨offset, hsome, -⟩ := h.freed protocol hp
      exact nomatch hroom.symm.trans hsome
    | some offset =>
      let w := (u.addMemory call.client offset).setProtocolInfo t.nextAddress (protocol.length + 1) offset
      have hw : Holds t.nextAddress call.server t.hasListener w := ⟨hu.listener, hu.made, hu.lock⟩
      have hwcircuits : w.circuits = t.circuits ++ [call.circuit t protocol offset] := by
        show u.circuits.map _ = _
        rw [hcircuits, map_new rfl]
        rfl
      have hcond : (∀ r ∈ call.waitingRequests call.waiting, r.disturbs t.hasListener = false) ∧
          AllFreed t w (call.waitingRequests call.waiting) ↔ SparedLater t call := by
        have hnew : ⟨call.client, offset, u.nextSerial⟩ ∉ t.memory := fun hm =>
          Nat.lt_irrefl _ (hserial ▸ t.memory_lt _ hm)
        have hwmemory : w.memory = u.memory ++ [⟨call.client, offset, u.nextSerial⟩] := rfl
        have hwcontrol : w.control = t.control := hcontrol
        constructor
        · rintro ⟨hwaiting, hall⟩
          refine ⟨hwaiting, fun protocol' hp' => ⟨offset, hroom, ?_⟩⟩
          obtain rfl := Option.some.inj (hp.symm.trans hp')
          have hone := hall ⟨call.client, offset, u.nextSerial⟩ (by simp [hwmemory])
          rw [hwcircuits, hwcontrol] at hone
          exact hone.resolve_left hnew
        · refine fun h => ⟨h.waiting, fun m hm => ?_⟩
          rw [hwmemory] at hm
          rcases List.mem_append.mp hm with hold | hone
          · exact Or.inl (hmemory m hold)
          · obtain ⟨offset', hroom', r, hr, hf⟩ := h.freed protocol hp
            obtain rfl := Option.some.inj (hroom.symm.trans hroom')
            rw [List.mem_singleton.mp hone, hwcircuits, hwcontrol]
            exact Or.inr ⟨r, hr, hf⟩
      rw [← hcond]
      exact answer_decides hfree hw (hwcircuits ▸ filter_new rfl)

theorem lockMailBox_spec (call : Call) (t : Transport) :
    Exc.Ends (fun _ u => t.locks call.server = false ∧ u = t.setLock call.server true)
      (fun e _ => e = .blocked) call.lockMailBox t := by
  unfold Call.lockMailBox
  rw [Exc.ends_read_bind]
  split
  · rfl
  · next h => exact ⟨Bool.eq_false_iff.mpr h, rfl⟩

/-- **The request**, from the state `u` with the new circuit. -/
theorem requestNewConnection_decides (hu : Added call.cid t t.nextAddress u)
    (hfresh : call.cid = 0 ∨ t.getCircuit call.cid = none) :
    Exc.Ends (fun _ _ => True) (Decides t call (Spared t call)) (call.requestNewConnection t.nextAddress) u := by
  have hremaining : remaining t call.cid = t.circuits := by
    unfold remaining
    rcases hfresh with h | h
    · rw [if_pos h]
    · rw [h, ite_self]
  have hcircuits := hu.circuits
  rw [hremaining] at hcircuits
  have hrestored : u.circuits.filter (·.address != t.nextAddress) = t.circuits := hcircuits ▸ filter_new rfl
  have hold : AllFreed t u [] := fun m hm => Or.inl (hu.memory ▸ hm)
  unfold Call.requestNewConnection
  cases hsupported : call.supported with
  | false =>
    have hasks : call.asks ≠ true := by simp [Call.asks, hsupported]
    have hspared : Spared t call :=
      ⟨hfresh, fun h => (nomatch hsupported.symm.trans h), fun h => absurd h hasks, fun h => absurd h hasks⟩
    exact fun _ => iff_of_true
      ((leavesNothing_iff_of_settled (Settled.refl u) (congrFun hu.locks _) hrestored).mpr hold) hspared
  | true =>
    refine (lockMailBox_spec call u).seq (fun e _ he ht => nomatch he.symm.trans ht) fun _ v hv => ?_
    obtain ⟨hheld, rfl⟩ := hv
    have hfree : t.locks call.server = false := hu.locks ▸ hheld
    have hv : Holds t.nextAddress call.server t.hasListener (u.setLock call.server true) :=
      ⟨hu.listener, hu.next ▸ Nat.lt_succ_self _, if_pos rfl⟩
    by_cases hquiet : ∀ r ∈ call.busyRequests call.busy, r.disturbs t.hasListener = false
    · have hwaits : Waits (call.busy.any call.late) call.server (call.busyRequests call.busy)
          (u.setLock call.server true) (call.waitUntilFree call.busy) (u.setLock call.server true) :=
        waitUntilFree_waits (hv.listener ▸ hquiet)
      refine hwaits.seq (fun e w hw he => ?_) fun _ w hw => ?_
      · have hasks : call.asks ≠ true := by simp [Call.asks, (hw he).late]
        refine iff_of_true ?_ ⟨hfresh, fun _ => hquiet, fun h => absurd h hasks, fun h => absurd h hasks⟩
        refine (leavesNothing_iff_of_settled (hw he).toSettled ?_ hrestored).mpr fun m hm =>
          Or.inl (hu.memory ▸ hm)
        rw [(hw he).locks, if_pos rfl, hfree]
      · have hasks : call.asks = true := by simp [Call.asks, hsupported, hw.late]
        have hw' : Holds t.nextAddress call.server t.hasListener w :=
          ⟨hw.listener.trans hv.listener, hw.next ▸ hv.made, hw.locks ▸ hv.lock⟩
        have hcond : SparedLater t call ↔ Spared t call :=
          ⟨fun h => ⟨hfresh, fun _ => hquiet, fun _ => h.waiting, fun _ => h.freed⟩,
            fun h => ⟨h.waiting hasks, h.freed hasks⟩⟩
        rw [← hcond]
        exact placeProtocol_decides hfree hw' (hw.circuits.trans hcircuits) (hw.control.trans hu.control)
          (hw.serial.trans hu.serial) fun m hm => hu.memory ▸ ((hw.memory m).mp hm).1
    · have hnot : ¬ Spared t call := fun h => hquiet (h.busy hsupported)
      have hwait := waitUntilFree_stuck hv (exists_disturbs hquiet)
      refine hwait.seq (fun e w hw => decides_of_stuck hfree hnot e hw) fun _ w hw => ?_
      have hrest : Keeps (Later t.nextAddress) (call.placeProtocol t.nextAddress >>= fun _ =>
          call.waitForAnswer call.waiting >>= fun _ => call.finish) :=
        keeps_bind ((steady_later _).placeProtocol call t.nextAddress) fun _ =>
          (steady_later _).answer (later_setLock _) call
      exact (hrest w hw).imp (fun _ _ _ => trivial) fun e x hx => decides_of_stuck hfree hnot e (Or.inr hx)

/-- A circuit that had the number of the new one does not come back. -/
theorem not_leavesNothing_of_gone {circuit : Circuit} (hmem : circuit ∈ t.circuits) (h : Gone circuit.address u) :
    ¬ LeavesNothing t (u.erase t.nextAddress) call := by
  intro hl
  rw [← hl.circuits] at hmem
  exact h.2 circuit (List.mem_filter.mp hmem).1 rfl

/-- The request of a call, from the state with the new circuit, whether or not it replaces another. -/
theorem request_decides (hu : Added call.cid t t.nextAddress u) :
    Exc.Ends (fun _ _ => True) (Decides t call (Spared t call)) (call.requestNewConnection t.nextAddress) u := by
  by_cases hfresh : call.cid = 0 ∨ t.getCircuit call.cid = none
  · exact requestNewConnection_decides hu hfresh
  · have hzero : call.cid ≠ 0 := fun h => hfresh (Or.inl h)
    obtain ⟨circuit, hc⟩ := Option.ne_none_iff_exists'.mp fun h => hfresh (Or.inr h)
    have hmem : circuit ∈ t.circuits := List.mem_of_find?_eq_some hc
    have hlt : circuit.address < t.nextAddress := t.circuits_lt circuit hmem
    have hgone : Gone circuit.address u := by
      refine ⟨hu.next ▸ Nat.lt_succ_of_lt hlt, fun c hmemc => ?_⟩
      rw [hu.circuits] at hmemc
      unfold remaining at hmemc
      rw [if_neg hzero, hc] at hmemc
      rcases List.mem_append.mp hmemc with h | h
      · exact bne_iff_ne.mp (List.mem_filter.mp h).2
      · rw [List.mem_singleton.mp h]
        exact Nat.ne_of_gt hlt
    have hkeep := (steady_gone circuit.address).requestNewConnection (fun _ _ _ h => h) call t.nextAddress u hgone
    exact hkeep.imp (fun _ _ _ => trivial) fun _ v hv _ =>
      iff_of_false (not_leavesNothing_of_gone hmem hv) fun h => hfresh h.unreplaced

/-- A transport without circuits. -/
def idle : Transport where
  circuits := []
  nextAddress := 1
  nextCircuitId := 7
  locks _ := false
  control := 0
  memory := []
  nextSerial := 0
  hasListener := true
  circuits_lt _ h := nomatch h
  memory_lt _ h := nomatch h

/-- A call with a protocol text whose own mailbox is available at once. -/
def textCall (room : Option Nat) (waiting : List Turn) : Call where
  cid := 0
  supported := true
  server := 3
  client := 0
  timer := true
  busy := []
  protocol := some [112]
  room := room
  waiting := waiting
  errorCode := 0

end OpenCpi.NewConnection
