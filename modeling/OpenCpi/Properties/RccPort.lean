import OpenCpi.Rcc.Port

/-!
# A port keeps its buffer when its transport port is taken away

`disconnect`, `disconnectInternal` and `connectURL` set `m_dtPort` to null and leave `m_buffer` and
`current.data` as they are. `advanceAll` then follows the null pointer. Nothing else breaks what holds between
the fields of a port: it does not want and hold a buffer at once, it holds one exactly when `current.data` is
not null, and only with a transport port.
-/

namespace OpenCpi.Rcc.Ports

open Infra

variable {s s' s'' : State} {p q : Port} {i j b : Nat}

/-- What holds between the fields of a port. -/
structure Port.Ok (p : Port) : Prop where
  exclusive : ¬(p.wantsBuffer = true ∧ p.buffer.isSome)
  exact : p.buffer.isSome ↔ p.data = true
  connected : p.buffer.isSome → p.dtPort.isSome

/-- All ports are in order, and `advanceAll` does not act on a port that is not connected. -/
structure Good (s : State) : Prop where
  ports : ∀ p ∈ s.ports, p.Ok
  advances : ∀ i < s.ports.length, ∀ sent finalized next,
    step s (.advanceAll i sent finalized next) ≠ none

/-- The port holds no buffer. -/
def Free (s : State) (i : Nat) : Bool := (s.ports[i]?).all fun p => p.buffer.isNone

/-- A port that loses its transport port holds no buffer then. -/
def Undropped (s : State) : Op → Prop
  | .disconnect i => Free s i ∧ ∀ j ∈ (s.ports[i]?).bind (·.localOther), Free s j
  | .connectURL i found => found = true → Free s i
  | _ => True

instance (s : State) : (op : Op) → Decidable (Undropped s op)
  | .disconnect _ => inferInstanceAs (Decidable (_ ∧ _))
  | .connectURL _ _ => inferInstanceAs (Decidable (_ → _))
  | .checkReady .. | .rccRequest .. | .rccAdvance .. | .advanceAll .. | .rccRelease .. | .rccTake ..
  | .rccSend .. | .requestTail .. | .takeTail .. | .startConnect .. | .connectInside .. => .isTrue trivial

theorem free_iff : Free s i ↔ ∀ p, s.ports[i]? = some p → p.buffer = none := by
  unfold Free
  cases s.ports[i]? with
  | none => simp
  | some p => simp

/-! ## Ports -/

/-- A port without a buffer. -/
theorem ok_of_free (hb : p.buffer = none) (hd : p.data = false) : p.Ok := by
  refine ⟨fun h => ?_, ?_, fun h => ?_⟩
  · rw [hb] at h
    cases h.2
  · rw [hb, hd]
    exact ⟨(fun h => by cases h), fun h => by cases h⟩
  · rw [hb] at h
    cases h

theorem ok_create (isProvider : Bool) : (Port.create isProvider).Ok :=
  ok_of_free rfl rfl

theorem ok_drop (p : Port) : p.drop.Ok := ok_of_free rfl rfl

theorem ok_sent (h : p.Ok) (b : Nat) : (p.sent b).Ok := by
  unfold Port.sent
  split
  · exact ok_of_free rfl rfl
  · exact h

theorem Port.Ok.data_eq (h : p.Ok) (hb : p.buffer = none) : p.data = false := by
  by_contra hd
  have := h.exact.mpr (by simpa using hd)
  rw [hb] at this
  cases this

/-! ## States -/

/-- The ports of a state are in order. -/
def PortsOk (s : State) : Prop := ∀ p ∈ s.ports, p.Ok

theorem PortsOk.get (h : PortsOk s) (hp : s.ports[i]? = some p) : p.Ok := h p (List.mem_of_getElem? hp)

theorem PortsOk.setPort (h : PortsOk s) (hp : p.Ok) : PortsOk (s.setPort i p) := by
  intro q hq
  rcases List.mem_or_eq_of_mem_set hq with hq | rfl
  · exact h q hq
  · exact hp

theorem PortsOk.of_ports (h : PortsOk s) (hs : s'.ports = s.ports) : PortsOk s' := by
  unfold PortsOk
  rw [hs]
  exact h

theorem PortsOk.request {finalized : Bool} {next : Option Nat} (h : PortsOk s)
    (hs : s.request i finalized next = some s') : PortsOk s' := by
  obtain ⟨p, hp, rfl⟩ := Option.map_eq_some_iff.mp hs
  split
  · exact h
  · next hbuffer =>
    have hb : p.buffer = none := Option.not_isSome_iff_eq_none.mp hbuffer
    have hd : p.data = false := (h.get hp).data_eq hb
    dsimp only
    split
    · exact h.setPort (ok_of_free hb hd)
    · next hdt =>
      split
      · exact h.setPort (ok_of_free hb hd)
      · refine (h.setPort ?_).of_ports rfl
        refine ⟨(fun hw => by cases hw.1), iff_of_true rfl rfl, fun _ => ?_⟩
        exact Option.isSome_iff_ne_none.mpr fun hz => hdt (Or.inl (by rw [hz]; rfl))

theorem PortsOk.requestTail (h : PortsOk s) (hs : s.requestTail i = some s') : PortsOk s' := by
  obtain ⟨p, hp, rfl⟩ := Option.map_eq_some_iff.mp hs
  have hok := h.get hp
  split
  · exact h
  · next b hb =>
    refine (h.setPort ?_).of_ports rfl
    exact ⟨(fun hw => by cases hw.1), hok.exact, hok.connected⟩

theorem PortsOk.advance {sent finalized : Bool} {next : Option Nat} (h : PortsOk s)
    (hs : s.advance i sent finalized next = some s') : PortsOk s' := by
  obtain ⟨p, hp, hs⟩ := Option.bind_eq_some_iff.mp hs
  split at hs
  · split at hs
    · cases hs
    · split at hs
      · exact (h.setPort (ok_drop p)).request hs
      · cases hs
        exact h
  · exact h.request hs

theorem PortsOk.release (h : PortsOk s) (hs : s.release i b = some s') : PortsOk s' := by
  obtain ⟨p, hp, hs⟩ := Option.bind_eq_some_iff.mp hs
  split at hs
  · cases hs
  · have hok : (if p.buffer = some b then p.drop else p).Ok := by
      split
      · exact ok_drop p
      · exact h.get hp
    generalize (if p.buffer = some b then p.drop else p) = q at hs hok
    dsimp only at hs
    split at hs
    · cases hs
    · cases hs
      exact h.setPort hok

theorem PortsOk.take {oldBuffer : Option Nat} {released finalized : Bool} {next : Option Nat}
    (h : PortsOk s) (hs : s.take i oldBuffer released finalized next = some s') : PortsOk s' := by
  obtain ⟨p, hp, hs⟩ := Option.bind_eq_some_iff.mp hs
  have hdrop : PortsOk (s.setPort i p.drop) := h.setPort (ok_drop p)
  cases oldBuffer with
  | none => exact hdrop.request hs
  | some old =>
    obtain ⟨bp, -, hs⟩ := Option.bind_eq_some_iff.mp hs
    obtain ⟨s₁, hrelease, hs⟩ := Option.bind_eq_some_iff.mp hs
    have hok := hdrop.release hrelease
    split at hs
    · exact hok.request hs
    · cases hs
      exact hok

theorem PortsOk.send {sent : Bool} (h : PortsOk s) (hs : s.send i b sent = some s') : PortsOk s' := by
  obtain ⟨p, hp, hs⟩ := Option.bind_eq_some_iff.mp hs
  obtain ⟨j, -, hs⟩ := Option.bind_eq_some_iff.mp hs
  obtain ⟨bufferPort, hbp, hs⟩ := Option.bind_eq_some_iff.mp hs
  split at hs
  · cases hs
  · split at hs
    · cases hs
      exact h.setPort (ok_sent (h.get hbp) b)
    · cases hs
      exact h

/-! ## Connections -/

theorem Port.Ok.free_of_unconnected (h : p.Ok) (hdt : p.dtPort = none) : p.buffer = none := by
  by_contra hb
  have := h.connected (Option.isSome_iff_ne_none.mpr hb)
  rw [hdt] at this
  cases this

theorem PortsOk.startConnect {dtPort : Option Nat} (h : PortsOk s)
    (hs : s.startConnect i dtPort = some s') : PortsOk s' := by
  obtain ⟨p, hp, hs⟩ := Option.bind_eq_some_iff.mp hs
  split at hs
  · cases hs
  · next hguard =>
    cases hs
    have hdt : p.dtPort = none := Option.not_isSome_iff_eq_none.mp fun hd => hguard (Or.inr hd)
    have hb := (h.get hp).free_of_unconnected hdt
    exact h.setPort (ok_of_free hb ((h.get hp).data_eq hb))

theorem PortsOk.connectInside {dtOutput dtInput : Nat} {finished : Bool} (h : PortsOk s)
    (hs : s.connectInside i j dtOutput dtInput finished = some s') : PortsOk s' := by
  obtain ⟨p₀, hp₀, hs⟩ := Option.bind_eq_some_iff.mp hs
  obtain ⟨q₀, hq₀, hs⟩ := Option.bind_eq_some_iff.mp hs
  split at hs
  · cases hs
  · obtain ⟨s₁, h₁, hs⟩ := Option.bind_eq_some_iff.mp hs
    obtain ⟨s₂, h₂, hs⟩ := Option.bind_eq_some_iff.mp hs
    obtain ⟨p, hp, hs⟩ := Option.bind_eq_some_iff.mp hs
    obtain ⟨q, hq, hs⟩ := Option.bind_eq_some_iff.mp hs
    have hok : PortsOk s₂ := (h.startConnect h₁).startConnect h₂
    have hpok := hok.get hp
    have hqok := hok.get hq
    split at hs
    · cases hs
      refine PortsOk.setPort (PortsOk.setPort hok ?_) ?_
      · exact ⟨hpok.exclusive, hpok.exact, fun _ => rfl⟩
      · exact ⟨hqok.exclusive, hqok.exact, hqok.connected⟩
    · cases hs
      refine PortsOk.setPort hok ?_
      exact ⟨hpok.exclusive, hpok.exact, fun _ => rfl⟩

/-- What `disconnect` does: the port and its local peer are detached. -/
theorem disconnect_ports (hs : s.disconnect i = some s') : ∃ p, s.ports[i]? = some p ∧
    ∀ j : Nat, s'.ports[j]? = s.ports[j]?.map fun q =>
      if j = i ∨ p.localOther = some j then q.detach else q := by
  obtain ⟨p, hp, hs⟩ := Option.bind_eq_some_iff.mp hs
  refine ⟨p, hp, fun j => ?_⟩
  obtain ⟨s₁, h₁, rfl⟩ := Option.map_eq_some_iff.mp hs
  have hpeer : s₁.ports[j]? = s.ports[j]?.map fun q => if p.localOther = some j then q.detach else q := by
    cases hother : p.localOther with
    | none =>
      rw [hother] at h₁
      cases h₁
      simp
    | some other =>
      rw [hother] at h₁
      obtain ⟨q, hq, h₁⟩ := Option.bind_eq_some_iff.mp h₁
      split at h₁
      · cases h₁
      · cases h₁
        unfold State.setPort
        dsimp only
        rw [List.getElem?_set]
        by_cases hj : other = j
        · subst hj
          obtain ⟨hlt, hget⟩ := List.getElem?_eq_some_iff.mp hq
          simp [hlt, hget]
        · simp [hj]
  dsimp only
  rw [List.getElem?_modify, hpeer]
  cases s.ports[j]? with
  | none => rfl
  | some q =>
    by_cases hj : i = j
    · subst hj
      by_cases hother : p.localOther = some i
      · simp [hother, Port.detach]
      · simp [hother]
    · have hji : ¬j = i := fun h => hj h.symm
      by_cases hother : p.localOther = some j
      · simp [hother, hj, hji]
      · simp [hother, hj, hji]

/-- A port can be detached when it holds no buffer. -/
theorem ok_detach_iff (h : p.Ok) : p.detach.Ok ↔ p.buffer = none := by
  constructor
  · intro hok
    exact hok.free_of_unconnected rfl
  · intro hb
    exact ok_of_free hb (h.data_eq hb)

theorem portsOk_iff : PortsOk s ↔ ∀ (i : Nat) (p : Port), s.ports[i]? = some p → p.Ok :=
  ⟨fun h _ _ hp => h.get hp, fun h p hp => by
    obtain ⟨i, hi⟩ := List.getElem?_of_mem hp
    exact h i p hi⟩

/-- After `disconnect` the ports are in order when those that were detached held no buffer. -/
theorem PortsOk.disconnect_iff (h : PortsOk s) (hs : s.disconnect i = some s') :
    PortsOk s' ↔ Undropped s (.disconnect i) := by
  obtain ⟨p, hp, hports⟩ := disconnect_ports hs
  rw [portsOk_iff]
  constructor
  · intro hok
    have hfree : ∀ j, (j = i ∨ p.localOther = some j) → Free s j := by
      intro j hj
      refine free_iff.mpr fun q hq => ?_
      refine (ok_detach_iff (h.get hq)).mp (hok j _ ?_)
      rw [hports, hq, Option.map_some, if_pos hj]
    refine ⟨hfree i (Or.inl rfl), fun j hother => hfree j (Or.inr ?_)⟩
    rwa [hp] at hother
  · rintro ⟨hi, hother⟩ j q' hq'
    rw [hports] at hq'
    obtain ⟨q, hq, rfl⟩ := Option.map_eq_some_iff.mp hq'
    split
    · next hj =>
      refine (ok_detach_iff (h.get hq)).mpr ?_
      rcases hj with rfl | hj
      · exact free_iff.mp hi q hq
      · refine free_iff.mp (hother j ?_) q hq
        rw [hp]
        exact hj
    · exact h.get hq

theorem PortsOk.connectURL_iff {found : Bool} (h : PortsOk s) (hs : s.connectURL i found = some s') :
    PortsOk s' ↔ Undropped s (.connectURL i found) := by
  obtain ⟨p, hp, rfl⟩ := Option.map_eq_some_iff.mp hs
  have hok := h.get hp
  have hlt : i < s.ports.length := (List.getElem?_eq_some_iff.mp hp).1
  cases found with
  | false =>
    refine iff_of_true (h.setPort ?_) (fun hf => by cases hf)
    exact ⟨hok.exclusive, hok.exact, hok.connected⟩
  | true =>
    constructor
    · intro hall _
      refine free_iff.mpr fun q hq => ?_
      rw [hp, Option.some.injEq] at hq
      subst hq
      have hset : (s.setPort i { p with mode := true, dtPort := none }).ports[i]? =
          some { p with mode := true, dtPort := none } := List.getElem?_set_self hlt
      exact (PortsOk.get hall hset).free_of_unconnected rfl
    · intro hfree
      have hb := free_iff.mp (hfree rfl) p hp
      exact h.setPort (ok_of_free hb (hok.data_eq hb))

/-! ## Steps and runs -/

/-- A turn of `advanceAll` on a port that is in order does not follow a null pointer. -/
theorem PortsOk.advances (h : PortsOk s) (hi : i < s.ports.length) (sent finalized : Bool)
    (next : Option Nat) : step s (.advanceAll i sent finalized next) ≠ none := by
  have hp : s.ports[i]? = some s.ports[i] := List.getElem?_eq_getElem hi
  have hrequest : ∀ t : State, i < t.ports.length → t.request i finalized next ≠ none := by
    intro t ht
    unfold State.request
    rw [List.getElem?_eq_getElem ht]
    exact Option.some_ne_none _
  unfold step
  dsimp only
  rw [hp, Option.bind_some]
  split
  · next hdata =>
    have hok := h.get hp
    have hbuffer := hok.exact.mpr hdata
    unfold State.advance
    rw [hp, Option.bind_some, if_pos hbuffer,
      if_neg (by simpa using Option.isSome_iff_ne_none.mp (hok.connected hbuffer))]
    split
    · refine hrequest _ ?_
      show i < (s.ports.set i _).length
      rwa [List.length_set]
    · exact Option.some_ne_none _
  · exact Option.some_ne_none _

theorem good_iff : Good s ↔ PortsOk s :=
  ⟨Good.ports, fun h => ⟨h, fun _ hi => h.advances hi⟩⟩

/-- Only an operation that takes a transport port away does harm, and only when a buffer is held. -/
theorem PortsOk.step_iff {op : Op} (h : PortsOk s) (hs : step s op = some s') :
    PortsOk s' ↔ Undropped s op := by
  cases op with
  | disconnect i => exact h.disconnect_iff hs
  | connectURL i found => exact h.connectURL_iff hs
  | checkReady i finalized next =>
    obtain ⟨p, -, hs⟩ := Option.bind_eq_some_iff.mp hs
    split at hs
    · exact iff_of_true (h.request hs) trivial
    · cases hs
      exact iff_of_true h trivial
  | rccRequest i finalized next =>
    obtain ⟨p, -, hs⟩ := Option.bind_eq_some_iff.mp hs
    split at hs
    · cases hs
      exact iff_of_true h trivial
    · exact iff_of_true (h.request hs) trivial
  | rccAdvance i sent finalized next => exact iff_of_true (h.advance hs) trivial
  | advanceAll i sent finalized next =>
    obtain ⟨p, -, hs⟩ := Option.bind_eq_some_iff.mp hs
    split at hs
    · exact iff_of_true (h.advance hs) trivial
    · cases hs
      exact iff_of_true h trivial
  | rccRelease b =>
    obtain ⟨i, -, hs⟩ := Option.bind_eq_some_iff.mp hs
    obtain ⟨p, -, hs⟩ := Option.bind_eq_some_iff.mp hs
    split at hs
    · exact iff_of_true (h.release hs) trivial
    · cases hs
      exact iff_of_true h trivial
  | rccTake i oldBuffer released finalized next =>
    obtain ⟨p, -, hs⟩ := Option.bind_eq_some_iff.mp hs
    split at hs
    · cases hs
      exact iff_of_true h trivial
    · exact iff_of_true (h.take hs) trivial
  | rccSend i b sent =>
    obtain ⟨p, -, hs⟩ := Option.bind_eq_some_iff.mp hs
    obtain ⟨j, -, hs⟩ := Option.bind_eq_some_iff.mp hs
    obtain ⟨bufferPort, -, hs⟩ := Option.bind_eq_some_iff.mp hs
    split at hs
    · cases hs
      exact iff_of_true h trivial
    · exact iff_of_true (h.send hs) trivial
  | requestTail i => exact iff_of_true (h.requestTail hs) trivial
  | takeTail i finalized next => exact iff_of_true (h.request hs) trivial
  | startConnect i dtPort => exact iff_of_true (h.startConnect hs) trivial
  | connectInside i j dtOutput dtInput finished => exact iff_of_true (h.connectInside hs) trivial

theorem portsOk_boot (roles : List Bool) : PortsOk (boot roles) := by
  intro p hp
  obtain ⟨isProvider, -, rfl⟩ := List.mem_map.mp hp
  exact ok_create isProvider

theorem portsOk_of_undropped {roles : List Bool} (h : Reach step Undropped (boot roles) s) : PortsOk s :=
  h.invariant (portsOk_boot roles) fun _ _ _ hi hundropped hs => (hi.step_iff hs).mpr hundropped

/-- **The ports stay in order** in a run in which no port that holds a buffer loses its transport port. -/
theorem good_of_undropped {roles : List Bool} (h : Reach step Undropped (boot roles) s) : Good s :=
  good_iff.mpr (portsOk_of_undropped h)

/-- An input gets a buffer and its worker takes it and then releases it; an output sends its buffer. Then they
are disconnected. -/
theorem good_in_turn : ∃ s ∈ exec (checked step Undropped) (boot [false, true])
      [.connectInside 0 1 5 6 true, .checkReady 1 true (some 9), .rccRequest 0 true (some 4),
       .rccTake 1 none true true none, .rccRelease 9, .rccSend 0 4 true, .advanceAll 1 true true none,
       .disconnect 0],
    s.ports.map (·.wantsBuffer) = [true, true] ∧ Good s := by
  have hrun : ∃ s ∈ exec (checked step Undropped) (boot [false, true])
      [.connectInside 0 1 5 6 true, .checkReady 1 true (some 9), .rccRequest 0 true (some 4),
       .rccTake 1 none true true none, .rccRelease 9, .rccSend 0 4 true, .advanceAll 1 true true none,
       .disconnect 0],
      s.ports.map (·.wantsBuffer) = [true, true] := by decide
  obtain ⟨s, hs, hwants⟩ := hrun
  exact ⟨s, hs, hwants, good_of_undropped (reach_of_exec_checked _ hs)⟩

/-- The first step that takes a transport port from a port with a buffer breaks the order. -/
theorem not_good_of_dropped {roles : List Bool} {op : Op} (h : Reach step Undropped (boot roles) s)
    (hs : step s op = some s') (hdropped : ¬Undropped s op) : ¬Good s' := fun hgood =>
  hdropped (((portsOk_of_undropped h).step_iff hs).mp hgood.ports)

/-- An input holds a buffer when its peer is disconnected; then `advanceAll` follows a null pointer. -/
theorem buffer_without_port : ∃ s, Reach step anyStep (boot [false, true]) s ∧
    (∃ p, s.ports[1]? = some p ∧ p.buffer = some 9 ∧ p.data = true ∧ p.dtPort = none) ∧
    step s (.advanceAll 1 true true none) = none ∧ ¬Good s := by
  have hrun : ∃ s ∈ exec step (boot [false, true])
      [.connectInside 0 1 5 6 true, .checkReady 1 true (some 9), .disconnect 0],
      s.ports[1]? = some ⟨true, true, none, none, some 9, false, true, some 9⟩ ∧
        (step s (.advanceAll 1 true true none)).isNone ∧ 1 < s.ports.length := by decide
  obtain ⟨s, hs, hport, hnone, hlt⟩ := hrun
  have hnone := Option.isNone_iff_eq_none.mp hnone
  exact ⟨s, reach_of_exec _ hs, ⟨_, hport, rfl, rfl, rfl⟩, hnone,
    fun hgood => hgood.advances 1 hlt true true none hnone⟩

end OpenCpi.Rcc.Ports
