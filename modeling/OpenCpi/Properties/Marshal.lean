import OpenCpi.Value.Marshal

/-!
# Reading and writing agree

`Member::read` and `Member::write` are an encoder and a decoder that agree, once `offset` has given
every sequence an alignment that leaves room for its count. For an operation whose argument is a
sequence at the top, `write` takes another way and does not get past its first assertion.
-/

namespace OpenCpi.Value

open Infra

variable {σ α : Type} {d : Decl} {m : Member}

/-- A computation that succeeds has succeeding parts. -/
theorem except_bind_ok {α β ε : Type} {x : Except ε α} {f : α → Except ε β} {v : β}
    (h : (x >>= f) = .ok v) : ∃ a, x = .ok a ∧ f a = .ok v := by
  cases x with
  | error e => cases h
  | ok a => exact ⟨a, rfl, h⟩

/-! ## Single steps -/

/-- What the events of a reader must be like: sequences have a count of 32 bits, and strings have no
NUL character. -/
def Event.ok : Event → Prop
  | .beginSequence _ nElements => nElements < 2 ^ 32
  | .string _ chars _ => 0 ∉ chars
  | _ => True

theorem radvance_run (n : Nat) (s : Encoding σ Event) : radvance n s =
    if s.length < n then .error exceedsBuffer
    else .ok ((), { s with data := s.data + n, length := s.length - n }) := by
  unfold radvance
  simp only [bind, StateT.bind, get, getThe, MonadStateOf.get, StateT.get, pure, Except.pure,
    Except.bind]
  split <;> rfl

theorem advance_run (n : Nat) (s : Decoding Event) : advance n s =
    if s.length < n then .error exceedsBuffer
    else .ok ((), { s with data := s.data + n, length := s.length - n }) := by
  unfold advance
  simp only [bind, StateT.bind, get, getThe, MonadStateOf.get, StateT.get, pure, Except.pure,
    Except.bind]
  split <;> rfl

/-- Enough room: the cursor moves. -/
theorem advance_ok {n : Nat} {s : Decoding Event} (h : n ≤ s.length) : advance n s =
    .ok ((), { s with data := s.data + n, length := s.length - n }) := by
  rw [advance_run, if_neg (by omega)]

theorem radvance_ok {n : Nat} {s s' : Encoding σ Event} {v : Unit}
    (h : radvance n s = .ok (v, s')) :
    n ≤ s.length ∧ s' = { s with data := s.data + n, length := s.length - n } := by
  rw [radvance_run] at h
  split at h
  · cases h
  · cases h
    exact ⟨by omega, rfl⟩

theorem agree_radvance (n : Nat) :
    Agree Event.ok (radvance n : ReadM σ Unit) fun _ => advance n := by
  intro s s' v h
  obtain ⟨hle, rfl⟩ := radvance_ok h
  refine ⟨[], ⟨Nat.le_add_right _ _, ?_, fun _ _ => rfl, (List.append_nil _).symm⟩, ?_⟩
  · dsimp only
    omega
  · intro _ memory' length old _ hlen
    dsimp only at hlen ⊢
    rw [advance_ok (Nat.le_of_add_le_add_left hlen), List.append_nil, Nat.add_sub_add_left]

theorem ralign_run (n : Nat) (s : Encoding σ Event) :
    ralign n s = radvance (alignSkip s.data n) s := by
  unfold ralign
  rw [run_get_bind]

theorem align_run (n : Nat) (s : Decoding Event) :
    align n s = advance (alignSkip s.data n) s := by
  unfold align
  rw [run_get_bind]

theorem agree_ralign (n : Nat) : Agree Event.ok (ralign n : ReadM σ Unit) fun _ => align n := by
  intro s s' v h
  rw [ralign_run] at h
  obtain ⟨events, hw, hr⟩ := agree_radvance (alignSkip s.data n) s s' v h
  refine ⟨events, hw, ?_⟩
  intro hok memory' length old hmem hlen
  exact (align_run n ⟨s.data, length, old⟩).trans (hr hok memory' length old hmem hlen)

theorem agree_notify (R : Reader σ) (e : Event) :
    Agree Event.ok (notify R e) fun _ => emit e := by
  intro s s' v h
  cases h
  refine ⟨[e], ⟨Nat.le_refl _, rfl, fun _ _ => rfl, rfl⟩, ?_⟩
  intro _ memory' length old _ _
  dsimp only
  rw [Nat.add_sub_cancel_left]
  rfl

theorem agree_loopElements {body : Nat → ReadM σ Unit} {body' : Memory → Nat → WriteM Unit}
    (h : ∀ k, Agree Event.ok (body k) fun memory => body' memory k) (n : Nat) :
    Agree Event.ok (loopElements n body) fun memory => loopElements n (body' memory) :=
  Agree.ite (fun _ => agree_throw) fun _ => agree_loopFrom h n 0

/-! ## Counts, scalars and strings -/

/-- A step that writes at the cursor, moves behind what it wrote and takes one event, and a step
that reads the event there. -/
theorem agree_of_put {a : ReadM σ α} {b : Memory → WriteM α}
    (h : ∀ s s' v, a s = .ok (v, s') → ∃ n e bytes, bytes.length ≤ n ∧
      s'.memory = writeBytes s.memory s.data bytes ∧ s'.data = s.data + n ∧
      s'.length + n = s.length ∧ s'.events = s.events ++ [e] ∧
      (e.ok → ∀ memory length old, readBytes memory s.data bytes.length = bytes → n ≤ length →
        b memory ⟨s.data, length, old⟩ = .ok (v, ⟨s.data + n, length - n, old ++ [e]⟩))) :
    Agree Event.ok a b := by
  intro s s' v hrun
  obtain ⟨n, e, bytes, hbytes, hmem, hdata, hlength, hev, hread⟩ := h s s' v hrun
  refine ⟨[e], ⟨by omega, by omega, ?_, hev⟩, ?_⟩
  · intro k hk
    rw [hmem, writeBytes_of_lt hk]
  · intro hok memory length old hsame hlen
    rw [hdata] at hsame hlen ⊢
    have hb : readBytes memory s.data bytes.length = bytes := by
      rw [readBytes_congr fun k hge hlt => hsame k hge (by omega), hmem, readBytes_writeBytes]
    rw [hread (hok e List.mem_cons_self) memory length old hb (by omega), Nat.add_sub_add_left]

theorem readSequence_ok {R : Reader σ} {s s' : Encoding σ Event} {v : Option Nat}
    (h : readSequence R d s = .ok (v, s')) : ∃ nElements,
    d.align ≤ s.length ∧
    s'.memory = writeBytes s.memory s.data (wordBytes (nElements % 2 ^ 32)) ∧
    s'.data = s.data + d.align ∧ s'.length = s.length - d.align ∧
    s'.events = s.events ++ [.beginSequence d nElements] ∧
    ((nElements % 2 ^ 32 = 0 ∧ v = none) ∨
      (nElements % 2 ^ 32 ≠ 0 ∧ ¬(d.sequenceLength ≠ 0 ∧ d.sequenceLength < nElements) ∧
        v = some nElements)) := by
  unfold readSequence at h
  rw [run_get_bind] at h
  obtain ⟨_, s₁, h₁, h⟩ := run_bind_eq_ok h
  obtain ⟨hle, rfl⟩ := radvance_ok h₁
  rw [run_modifyGet_bind, run_modify_bind] at h
  refine ⟨(R.beginSequence d s.source).1, hle, ?_⟩
  dsimp only at h
  split at h
  · next hz =>
    cases h
    exact ⟨rfl, rfl, rfl, rfl, Or.inl ⟨hz, rfl⟩⟩
  · next hz =>
    split at h
    · cases h
    · next hbound =>
      cases h
      exact ⟨rfl, rfl, rfl, rfl, Or.inr ⟨hz, hbound, rfl⟩⟩

theorem emit_run (e : Event) (s : Decoding Event) :
    emit e s = .ok ((), { s with events := s.events ++ [e] }) := rfl

theorem writeSequence_ok {n : Nat} {s : Decoding Event}
    (hn : ¬(d.sequenceLength ≠ 0 ∧ d.sequenceLength < n)) (hle : d.align ≤ s.length) :
    writeSequence d n s = .ok (if n = 0 then none else some n,
      ⟨s.data + d.align, s.length - d.align, s.events ++ [.beginSequence d n]⟩) := by
  have hadv := @advance_ok d.align { s with events := s.events ++ [.beginSequence d n] } hle
  unfold writeSequence
  rw [if_neg hn, run_bind_ok (emit_run _ s), run_bind_ok hadv]
  by_cases hz : n = 0
  · rw [if_pos hz, if_pos hz]
    rfl
  · rw [if_neg hz, if_neg hz]
    rfl

/-- The count that `read` stores is the one that `write` finds. -/
theorem agree_readSequence (R : Reader σ) (h : 4 ≤ d.align) :
    Agree Event.ok (readSequence R d) fun memory =>
      get >>= fun s => writeSequence d (wordOf (readBytes memory s.data 4)) := by
  refine agree_of_put ?_
  intro s s' v hrun
  obtain ⟨nElements, hle, hmem, hdata, hlength, hev, hv⟩ := readSequence_ok hrun
  refine ⟨d.align, _, wordBytes (nElements % 2 ^ 32), h, hmem, hdata, by omega, hev, ?_⟩
  intro hok memory length old hbytes hlen
  have hsmall : nElements < 2 ^ 32 := hok
  rw [Nat.mod_eq_of_lt hsmall] at hbytes hv
  rw [wordBytes_length] at hbytes
  rw [run_get_bind]
  dsimp only
  rw [hbytes, wordOf_wordBytes hsmall]
  rcases hv with ⟨hz, rfl⟩ | ⟨hz, hbound, rfl⟩
  · rw [writeSequence_ok (by omega) hlen, if_pos hz]
  · rw [writeSequence_ok hbound hlen, if_neg hz]

theorem agree_readCount (R : Reader σ) (h : d.isSequence → 4 ≤ d.align) :
    Agree Event.ok (readCount R d) fun memory => writeCount memory d false := by
  unfold readCount writeCount
  simp only [Bool.false_eq_true, if_false]
  exact Agree.ite
    (fun hseq => (agree_ralign d.align).bind fun _ => agree_readSequence R (h hseq))
    (fun _ => agree_pure _)

/-- What `read` and `write` do around the elements. -/
theorem agree_readElements (R : Reader σ) (h : d.isSequence → 4 ≤ d.align)
    {body : Nat → ReadM σ Unit} {body' : Memory → Nat → WriteM Unit}
    (hbody : ∀ n, Agree Event.ok (body n) fun memory => body' memory n) :
    Agree Event.ok (readElements R d body) fun memory =>
      writeElements memory d false (body' memory) := by
  unfold readElements writeElements
  refine (agree_readCount R h).bind fun v => ?_
  cases v with
  | none => exact agree_pure ()
  | some nElements =>
    refine (agree_notify R _).onlyIf.bind fun _ => ?_
    refine (agree_ralign _).bind fun _ => ?_
    refine (hbody _).bind fun _ => ?_
    refine (agree_notify R _).onlyIf.bind fun _ => ?_
    exact (agree_notify R _).onlyIf

theorem agree_readScalars (R : Reader σ) (d : Decl) (n : Nat) :
    Agree Event.ok (readScalars R d n) fun memory => writeScalars memory d n := by
  unfold readScalars writeScalars
  refine (agree_ralign _).bind fun _ => agree_of_put ?_
  generalize n * (d.nBits / 8) % 2 ^ 64 = nBytes
  intro s s' v hrun
  rw [run_get_bind] at hrun
  obtain ⟨_, s₁, h₁, hrun⟩ := run_bind_eq_ok hrun
  obtain ⟨hle, rfl⟩ := radvance_ok h₁
  cases hrun
  refine ⟨nBytes, _, _, ?_, rfl, rfl, Nat.sub_add_cancel hle, rfl, ?_⟩
  · simp
  · intro _ memory length old hbytes hlen
    rw [List.length_map, List.length_range] at hbytes
    rw [run_get_bind, run_bind_ok (advance_ok hlen), hbytes]
    rfl

/-- A string without NUL characters ends where it was ended. -/
theorem strlen_eq {memory : Memory} {chars : Text} (h0 : 0 ∉ chars) :
    ∀ {p limit : Nat}, readBytes memory p (chars.length + 1) = chars ++ [0] →
      chars.length < limit → strlen memory p limit = chars.length := by
  induction chars with
  | nil =>
    intro p limit hbytes hlt
    obtain ⟨k, rfl⟩ : ∃ k, limit = k + 1 := ⟨limit - 1, by simp at hlt; omega⟩
    have h : memory p = 0 := by simpa [readBytes] using hbytes
    rw [strlen, if_pos h]
    rfl
  | cons c rest ih =>
    intro p limit hbytes hlt
    rw [List.length_cons] at hlt
    obtain ⟨k, rfl⟩ : ∃ k, limit = k + 1 := ⟨limit - 1, by omega⟩
    rw [List.mem_cons, not_or] at h0
    have hsplit : readBytes memory p ((c :: rest).length + 1) =
        memory p :: readBytes memory (p + 1) (rest.length + 1) := by
      rw [List.length_cons, readBytes, List.range_succ_eq_map, List.map_cons, List.map_map]
      simp only [readBytes, Nat.add_zero, List.cons.injEq, true_and]
      refine List.map_congr_left fun k _ => ?_
      show memory (p + (k + 1)) = _
      congr 1
      omega
    rw [hsplit, List.cons_append, List.cons.injEq] at hbytes
    rw [strlen, if_neg (by rw [hbytes.1]; exact Ne.symm h0.1),
      ih h0.2 hbytes.2 (by omega), List.length_cons, Nat.add_comm]

theorem agree_readString (R : Reader σ) (d : Decl) (stringLength : Nat) (first : Bool) :
    Agree Event.ok (readString R d stringLength first) fun memory =>
      writeString memory d first := by
  unfold readString writeString
  refine (agree_ralign 4).bind fun _ => agree_of_put ?_
  intro s s' v hrun
  rw [run_modifyGet_bind] at hrun
  dsimp only at hrun
  split at hrun
  · cases hrun
  · rw [run_get_bind] at hrun
    obtain ⟨_, s₁, h₁, hrun⟩ := run_bind_eq_ok hrun
    obtain ⟨hle, rfl⟩ := radvance_ok h₁
    cases hrun
    refine ⟨(R.beginString d first s.source).1.length + 1, _, _, ?_, rfl, rfl,
      Nat.sub_add_cancel hle, rfl, ?_⟩
    · simp
    · intro hok memory length old hbytes hlen
      rw [List.length_append, List.length_singleton] at hbytes
      have hstr : strlen memory s.data length = (R.beginString d first s.source).1.length :=
        strlen_eq hok hbytes hlen
      rw [run_get_bind]
      dsimp only
      rw [hstr, run_bind_ok (advance_ok hlen), ← readBytes_take _ _ (Nat.le_succ _), hbytes,
        List.take_left]
      rfl

/-! ## Layout -/

mutual

/-- Every sequence has room for its count. -/
def Member.aligned : Member → Prop
  | .scalar d _ | .string d _ | .enum d _ => d.isSequence → 4 ≤ d.align
  | .struct d ms => (d.isSequence → 4 ≤ d.align) ∧ membersAligned ms
  | .type d t => (d.isSequence → 4 ≤ d.align) ∧ t.aligned

def membersAligned : List Member → Prop
  | [] => True
  | m :: ms => m.aligned ∧ membersAligned ms

end

mutual

/-- A member as it is built, before `offset`: `m_align` is 1. -/
def Member.unplaced : Member → Prop
  | .scalar d _ | .string d _ | .enum d _ => d.align = 1
  | .struct d ms => d.align = 1 ∧ membersUnplaced ms
  | .type d t => d.align = 1 ∧ t.unplaced

def membersUnplaced : List Member → Prop
  | [] => True
  | m :: ms => m.unplaced ∧ membersUnplaced ms

end

/-- What `offset` does to the alignments. -/
theorem place_ok {nBytes : Nat} {l l' : Layout} {isTop : Bool} {d' : Decl}
    (h : d.place nBytes l isTop = .ok (d', l')) :
    d'.isSequence = d.isSequence ∧ d'.align = d.countAlign ∧
    l'.maxAlign = max l.maxAlign d'.align := by
  obtain ⟨n₁, -, h⟩ := except_bind_ok h
  obtain ⟨n₂, -, h⟩ := except_bind_ok h
  cases h
  exact ⟨rfl, rfl, rfl⟩

theorem place_aligned {nBytes : Nat} {l l' : Layout} {isTop : Bool} {d' : Decl}
    (h : d.place nBytes l isTop = .ok (d', l')) : d'.isSequence → 4 ≤ d'.align := by
  obtain ⟨hseq, halign, -⟩ := place_ok h
  intro hs
  rw [hseq] at hs
  rw [halign, Decl.countAlign]
  by_cases hlt : d.align < 4
  · simp [hs, hlt]
  · simp only [hs, hlt, decide_false, Bool.and_false, Bool.false_eq_true, if_false]
    omega

theorem align_le_of_place {nBytes : Nat} {l l' : Layout} {isTop : Bool} {d' : Decl}
    (h : d.place nBytes l isTop = .ok (d', l')) (hd : d.align ≤ 8) :
    d'.align ≤ 8 ∧ l'.maxAlign ≤ max l.maxAlign 8 := by
  obtain ⟨-, halign, hmax⟩ := place_ok h
  have hle : d'.align ≤ 8 := by
    rw [halign, Decl.countAlign]
    split <;> omega
  omega

mutual

theorem offset_aligned : ∀ (m : Member) {isTop : Bool} {l l' : Layout} {m' : Member},
    m.offset isTop l = .ok (m', l') → m'.aligned
  | .scalar d t, isTop, l, l', m', h | .string d t, isTop, l, l', m', h
  | .enum d t, isTop, l, l', m', h => by
    rw [Member.offset] at h
    obtain ⟨⟨d', l₁⟩, hd, h⟩ := except_bind_ok h
    cases h
    exact place_aligned hd
  | .struct d ms, isTop, l, l', m', h => by
    rw [Member.offset] at h
    obtain ⟨⟨ms', inner⟩, hms, h⟩ := except_bind_ok h
    obtain ⟨⟨d', l₁⟩, hd, h⟩ := except_bind_ok h
    cases h
    exact ⟨place_aligned hd, alignMembers_aligned ms hms⟩
  | .type d t, isTop, l, l', m', h => by
    rw [Member.offset] at h
    obtain ⟨⟨t', inner⟩, ht, h⟩ := except_bind_ok h
    obtain ⟨⟨d', l₁⟩, hd, h⟩ := except_bind_ok h
    cases h
    exact ⟨place_aligned hd, offset_aligned t ht⟩

theorem alignMembers_aligned : ∀ (ms : List Member) {isTop : Bool} {l l' : Layout}
    {ms' : List Member}, alignMembers isTop l ms = .ok (ms', l') → membersAligned ms'
  | [], isTop, l, l', ms', h => by
    rw [alignMembers] at h
    cases h
    exact trivial
  | m :: ms, isTop, l, l', ms', h => by
    rw [alignMembers] at h
    obtain ⟨⟨m', l₁⟩, hm, h⟩ := except_bind_ok h
    obtain ⟨⟨ms'', l₂⟩, hms, h⟩ := except_bind_ok h
    cases h
    exact ⟨offset_aligned m hm, alignMembers_aligned ms hms⟩

end

mutual

/-- No alignment is larger than that of a 64-bit number. -/
theorem offset_align_le : ∀ (m : Member) {isTop : Bool} {l l' : Layout} {m' : Member},
    m.unplaced → m.offset isTop l = .ok (m', l') →
      m'.decl.align ≤ 8 ∧ l'.maxAlign ≤ max l.maxAlign 8
  | .scalar d t, isTop, l, l', m', hu, h => by
    rw [Member.offset] at h
    obtain ⟨⟨d', l₁⟩, hd, h⟩ := except_bind_ok h
    cases h
    have hbits : (t.bits + 7) / 8 ≤ 8 := by cases t <;> decide
    have hle := align_le_of_place hd hbits
    exact hle
  | .string d t, isTop, l, l', m', hu, h => by
    rw [Member.offset] at h
    obtain ⟨⟨d', l₁⟩, hd, h⟩ := except_bind_ok h
    cases h
    have hbits : (stringBits + 7) / 8 ≤ 8 := by decide
    have hle := align_le_of_place hd hbits
    exact hle
  | .enum d t, isTop, l, l', m', hu, h => by
    rw [Member.offset] at h
    obtain ⟨⟨d', l₁⟩, hd, h⟩ := except_bind_ok h
    cases h
    have hbits : (enumBits + 7) / 8 ≤ 8 := by decide
    have hle := align_le_of_place hd hbits
    exact hle
  | .struct d ms, isTop, l, l', m', hu, h => by
    rw [Member.offset] at h
    obtain ⟨⟨ms', inner⟩, hms, h⟩ := except_bind_ok h
    obtain ⟨⟨d', l₁⟩, hd, h⟩ := except_bind_ok h
    cases h
    have hle := alignMembers_align_le ms hu.2 hms
    rw [hu.1] at hle
    have hplace := align_le_of_place hd hle
    exact hplace
  | .type d t, isTop, l, l', m', hu, h => by
    rw [Member.offset] at h
    obtain ⟨⟨t', inner⟩, ht, h⟩ := except_bind_ok h
    obtain ⟨⟨d', l₁⟩, hd, h⟩ := except_bind_ok h
    cases h
    have hle := (offset_align_le t hu.2 ht).2
    rw [hu.1] at hle
    have hplace := align_le_of_place hd hle
    exact hplace

theorem alignMembers_align_le : ∀ (ms : List Member) {isTop : Bool} {l l' : Layout}
    {ms' : List Member}, membersUnplaced ms → alignMembers isTop l ms = .ok (ms', l') →
      l'.maxAlign ≤ max l.maxAlign 8
  | [], isTop, l, l', ms', _, h => by
    rw [alignMembers] at h
    cases h
    exact Nat.le_max_left _ _
  | m :: ms, isTop, l, l', ms', hu, h => by
    rw [alignMembers] at h
    obtain ⟨⟨m', l₁⟩, hm, h⟩ := except_bind_ok h
    obtain ⟨⟨ms'', l₂⟩, hms, h⟩ := except_bind_ok h
    cases h
    have h₁ := (offset_align_le m hu.1 hm).2
    have h₂ := alignMembers_align_le ms hu.2 hms
    omega

end

/-! ## Round trip -/

mutual

theorem agree_read (R : Reader σ) : ∀ (m : Member), m.aligned →
    Agree Event.ok (m.read R) fun memory => m.write memory false
  | .scalar d t, h | .enum d t, h => by
    simp only [Member.read, Member.write]
    exact agree_readElements R h fun n => agree_readScalars R d n
  | .string d stringLength, h => by
    simp only [Member.read, Member.write]
    exact agree_readElements R h fun n =>
      agree_loopElements (fun k => agree_readString R d stringLength (k == 0)) n
  | .struct d members, h => by
    simp only [Member.read, Member.write]
    refine agree_readElements R h.1 fun n => ?_
    refine (agree_notify R _).bind fun _ => ?_
    refine (agree_loopElements (fun _ => agree_readMembers R members h.2) n).bind fun _ => ?_
    exact agree_notify R _
  | .type d t, h => by
    simp only [Member.read, Member.write]
    refine agree_readElements R h.1 fun n => ?_
    refine (agree_notify R _).bind fun _ => ?_
    refine (agree_loopElements (fun _ => agree_read R t h.2) n).bind fun _ => ?_
    exact agree_notify R _

theorem agree_readMembers (R : Reader σ) : ∀ (ms : List Member), membersAligned ms →
    Agree Event.ok (readMembers R ms) fun memory => writeMembers memory false ms
  | [], _ => by
    simp only [readMembers, writeMembers]
    exact agree_pure ()
  | m :: ms, h => by
    simp only [readMembers, writeMembers]
    exact (agree_read R m h.1).bind fun _ => agree_readMembers R ms h.2

end

/-- **The round trip of a message.** What `read` took from a reader is what `write` hands to the
writer, and `write` uses up exactly the bytes that `read` produced. -/
theorem write_read {args : List Member} {l l' : Layout} {op : Operation} {R : Reader σ}
    {source : σ} {memory memory' : Memory} {data maxLength n : Nat} {events : List Event}
    (hmake : Operation.make args l = .ok (op, l')) (htop : op.topFixedSequence = false)
    (hread : op.read R source memory data maxLength = .ok (n, memory', events))
    (hok : ∀ e ∈ events, e.ok) : op.write memory' data n = .ok (events, 0) := by
  obtain ⟨⟨args', l₁⟩, halign, hop⟩ := except_bind_ok hmake
  cases hop
  obtain ⟨⟨_, s⟩, hrun, hres⟩ := except_bind_ok hread
  cases hres
  obtain ⟨events', hw, hr⟩ := agree_readMembers R args' (alignMembers_aligned _ halign) _ _ _ hrun
  have htrace : s.events = events' := hw.trace
  have hle := hw.le
  have hroom := hw.room
  dsimp only at hle hroom
  have hwrite := hr (fun e he => hok e (htrace ▸ he)) s.memory (maxLength - s.length) []
    (fun _ _ _ => rfl) (by dsimp only; omega)
  unfold Operation.write
  dsimp only at htop hwrite ⊢
  rw [htop]
  simp only [StateT.run, hwrite, bind, Except.bind, pure, Except.pure, htrace, List.nil_append,
    Except.ok.injEq, Prod.mk.injEq, true_and]
  omega

instance : (e : Event) → Decidable e.ok
  | .beginSequence _ n => inferInstanceAs (Decidable (n < 2 ^ 32))
  | .string _ chars _ => inferInstanceAs (Decidable (0 ∉ chars))
  | .endSequence _ | .beginArray _ _ | .endArray _ | .beginStruct _ | .endStruct _
  | .beginType _ | .endType _ | .data _ _ _ => .isTrue trivial

/-- A reader of sequences of two elements, of the string "ab" and of counting bytes. -/
def countingReader : Reader Unit where
  beginSequence _ s := (2, s)
  beginString _ _ s := ([97, 98], s)
  readData _ _ _ s := (fun k => UInt8.ofNat k, s)
  notify _ s := s

/-- Nothing is laid out yet. -/
def noLayout : Layout := ⟨0, 0, 0, false, false, false⟩

/-- An argument without array dimensions. -/
def plain (name : UInt8) (isSequence : Bool) : Decl :=
  { name := [name], arrayDimensions := [], isSequence, sequenceLength := 0 }

/-- A sequence of strings and a struct of a character and a 64-bit number. -/
def twoArguments : List Member :=
  [.string (plain 97 true) 0,
   .struct (plain 98 false) [.scalar (plain 99 false) .char, .scalar (plain 100 false) .longlong]]

theorem write_read_twoArguments : ∃ op l' n memory' events,
    Operation.make twoArguments noLayout = .ok (op, l') ∧
    op.read countingReader () (fun _ => 0) 4096 64 = .ok (n, memory', events) ∧
    events.length = 8 ∧ op.write memory' 4096 n = .ok (events, 0) := by
  have hrun : ((Operation.make twoArguments noLayout).toOption.any fun r =>
      !r.1.topFixedSequence &&
      (r.1.read countingReader () (fun _ => 0) 4096 64).toOption.any fun res =>
        res.2.2.length == 8 && res.2.2.all fun e => decide e.ok) = true := by decide +kernel
  cases hmake : Operation.make twoArguments noLayout with
  | error e => simp [hmake, Except.toOption] at hrun
  | ok r =>
    obtain ⟨op, l'⟩ := r
    cases hread : op.read countingReader () (fun _ => 0) 4096 64 with
    | error e => simp [hmake, hread, Except.toOption] at hrun
    | ok res =>
      obtain ⟨n, memory', events⟩ := res
      simp only [hmake, hread, Except.toOption, Option.any_some, Bool.and_eq_true,
        Bool.not_eq_true', beq_iff_eq, List.all_eq_true, decide_eq_true_eq] at hrun
      obtain ⟨htop, hlen, hok⟩ := hrun
      exact ⟨op, l', n, memory', events, rfl, hread, hlen, write_read hmake htop hread hok⟩

/-! ## Sequences at the top -/

/-- A sequence at the top does not get past the first assertion, because it asks that the address of
the buffer itself be less than the alignment. -/
theorem write_top_asserts {memory : Memory} {data length : Nat} (hseq : m.isSequence)
    (halign : m.decl.align ≤ 8) (hdata : 16 ≤ data) :
    m.write memory true ⟨data, length, []⟩ = .error assertion := by
  have hne : data - (data &&& (m.decl.align - 1)) ≠ 0 := by
    have := @Nat.and_le_right data (m.decl.align - 1)
    omega
  have hcount : ∀ (d : Decl) body, d.isSequence → data - (data &&& (d.align - 1)) ≠ 0 →
      writeElements memory d true body ⟨data, length, []⟩ = .error assertion := by
    intro d body hs hd
    unfold writeElements writeCount topCount
    simp only [hs, if_true, bind, StateT.bind, get, getThe, MonadStateOf.get, StateT.get, pure,
      Except.pure, Except.bind, if_pos hd]
    rfl
  cases m with
  | scalar d t => rw [Member.write]; exact hcount d _ hseq hne
  | enum d t => rw [Member.write]; exact hcount d _ hseq hne
  | string d t => rw [Member.write]; exact hcount d _ hseq hne
  | struct d ms => rw [Member.write]; exact hcount d _ hseq hne
  | type d t => rw [Member.write]; exact hcount d _ hseq hne

theorem offset_isSequence {isTop : Bool} {l l' : Layout} {m' : Member}
    (h : m.offset isTop l = .ok (m', l')) : m'.isSequence = m.isSequence := by
  cases m with
  | scalar d t | string d t | enum d t =>
    rw [Member.offset] at h
    obtain ⟨⟨d', l₁⟩, hd, h⟩ := except_bind_ok h
    cases h
    exact (place_ok hd).1
  | struct d ms =>
    rw [Member.offset] at h
    obtain ⟨⟨ms', inner⟩, -, h⟩ := except_bind_ok h
    obtain ⟨⟨d', l₁⟩, hd, h⟩ := except_bind_ok h
    cases h
    exact (place_ok hd).1
  | type d t =>
    rw [Member.offset] at h
    obtain ⟨⟨t', inner⟩, -, h⟩ := except_bind_ok h
    obtain ⟨⟨d', l₁⟩, hd, h⟩ := except_bind_ok h
    cases h
    exact (place_ok hd).1

/-- An operation with one argument that is a sequence of elements of fixed size. -/
theorem make_top {l l' : Layout} {op : Operation} (hmake : Operation.make [m] l = .ok (op, l'))
    (hun : m.unplaced) (hseq : m.isSequence) (hfixed : m.isFixed true) : ∃ m',
    op = ⟨[m'], true⟩ ∧ m'.isSequence ∧ m'.decl.align ≤ 8 := by
  have htop : isTopFixedSequence [m] = true := by
    simp [isTopFixedSequence, hseq, hfixed]
  obtain ⟨⟨args', l₁⟩, halign, hop⟩ := except_bind_ok hmake
  cases hop
  rw [alignMembers] at halign
  obtain ⟨⟨m', l₂⟩, hm, halign⟩ := except_bind_ok halign
  obtain ⟨⟨rest, l₃⟩, hrest, halign⟩ := except_bind_ok halign
  rw [alignMembers] at hrest
  cases hrest
  cases halign
  refine ⟨m', ?_, ?_, (offset_align_le m hun hm).1⟩
  · rw [htop]
  · rw [offset_isSequence hm]
    exact hseq

/-- **No sequence at the top makes the round trip.** Whatever `read` produced, `write` does not hand
it to the writer; buffers do not lie in the first 16 bytes of the address space. -/
theorem write_read_top_fails {l l' : Layout} {op : Operation} {R : Reader σ} {source : σ}
    {memory memory' : Memory} {data maxLength n : Nat} {events : List Event}
    (hmake : Operation.make [m] l = .ok (op, l')) (hun : m.unplaced) (hseq : m.isSequence)
    (hfixed : m.isFixed true) (hdata : 16 ≤ data)
    (_hread : op.read R source memory data maxLength = .ok (n, memory', events)) :
    ¬ ∃ rest, op.write memory' data n = .ok (events, rest) := by
  obtain ⟨m', rfl, hseq', halign⟩ := make_top hmake hun hseq hfixed
  rintro ⟨rest, hwrite⟩
  unfold Operation.write writeMembers at hwrite
  simp only [StateT.run, bind, StateT.bind, write_top_asserts hseq' halign hdata,
    Except.bind] at hwrite
  cases hwrite

/-- A sequence of 32-bit numbers. -/
def ulongSequence : Member := .scalar (plain 97 true) .ulong

theorem write_read_ulongSequence_fails : ∃ op l' n memory' events,
    Operation.make [ulongSequence] noLayout = .ok (op, l') ∧
    op.read countingReader () (fun _ => 0) 4096 64 = .ok (n, memory', events) ∧
    ¬ ∃ rest, op.write memory' 4096 n = .ok (events, rest) := by
  have hrun : ((Operation.make [ulongSequence] noLayout).toOption.any fun r =>
      (r.1.read countingReader () (fun _ => 0) 4096 64).toOption.isSome) = true := by
    decide +kernel
  cases hmake : Operation.make [ulongSequence] noLayout with
  | error e => simp [hmake, Except.toOption] at hrun
  | ok r =>
    obtain ⟨op, l'⟩ := r
    cases hread : op.read countingReader () (fun _ => 0) 4096 64 with
    | error e => simp [hmake, hread, Except.toOption] at hrun
    | ok res =>
      obtain ⟨n, memory', events⟩ := res
      exact ⟨op, l', n, memory', events, rfl, hread,
        write_read_top_fails hmake rfl rfl rfl (by decide) hread⟩

/-- Two numbers are read into a buffer at 4096; `write` stops at its assertion. -/
theorem ulongSequence_not_written : ¬ ∀ (m : Member) (l l' : Layout) (op : Operation)
    (R : Reader Unit) (memory memory' : Memory) (data maxLength n : Nat) (events : List Event),
    Operation.make [m] l = .ok (op, l') → m.unplaced → m.isSequence → m.isFixed true →
    16 ≤ data → op.read R () memory data maxLength = .ok (n, memory', events) →
    (∀ e ∈ events, e.ok) → ∃ rest, op.write memory' data n = .ok (events, rest) := by
  intro hall
  have hrun : ((Operation.make [ulongSequence] noLayout).toOption.any fun r =>
      (r.1.read countingReader () (fun _ => 0) 4096 64).toOption.any fun res =>
        (res.2.2.all fun e => decide e.ok) &&
          (r.1.write res.2.1 4096 res.1).toOption.isNone) = true := by
    decide +kernel
  cases hmake : Operation.make [ulongSequence] noLayout with
  | error e => simp [hmake, Except.toOption] at hrun
  | ok r =>
    obtain ⟨op, l'⟩ := r
    cases hread : op.read countingReader () (fun _ => 0) 4096 64 with
    | error e => simp [hmake, hread, Except.toOption] at hrun
    | ok res =>
      obtain ⟨n, memory', events⟩ := res
      simp only [hmake, hread, Except.toOption, Option.any_some, Bool.and_eq_true,
        List.all_eq_true, decide_eq_true_eq] at hrun
      obtain ⟨rest, hwrite⟩ := hall _ _ _ _ _ _ _ _ _ _ _ hmake rfl rfl rfl (by decide) hread
        hrun.1
      rw [hwrite] at hrun
      exact Bool.noConfusion hrun.2

end OpenCpi.Value
