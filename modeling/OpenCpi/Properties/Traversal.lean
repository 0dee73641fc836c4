import Mathlib.Order.Iterate
import OpenCpi.Properties.Layout

/-!
# Layout and traversal

`read` and `write` align the cursor once before the elements of a member and then at each scalar.
Between the elements of an array of structs they do not, and nothing is skipped behind the last
member of a struct. The layout rounds each element of an array up to its alignment.
-/

namespace OpenCpi.Value

open Infra

variable {σ : Type} {memory : Memory} {d : Decl}

/-! ## Steps with a known effect -/

/-- A step of `write` that moves the cursor and makes certain calls, if there is room. -/
structure Steps (x : WriteM Unit) (move : Nat → Nat) (events : Nat → List Event) : Prop where
  le : ∀ p, p ≤ move p
  run : ∀ s, move s.data - s.data ≤ s.length → x s =
    .ok ((), ⟨move s.data, s.length - (move s.data - s.data), s.events ++ events s.data⟩)

/-- A step of `read` that moves the cursor, if there is room, and reports what it should. -/
structure Moves (x : ReadM σ Unit) (move : Nat → Nat) : Prop where
  le : ∀ p, p ≤ move p
  run : ∀ s, move s.data - s.data ≤ s.length → ∃ s', x s = .ok ((), s') ∧
    s'.data = move s.data ∧ s'.length = s.length - (move s.data - s.data) ∧
    ∀ e ∈ s'.events, e ∈ s.events ∨ e.ok

variable {x y : WriteM Unit} {u v : ReadM σ Unit} {f g : Nat → Nat} {e e' : Nat → List Event}

theorem Steps.bind (hx : Steps x f e) (hy : Steps y g e') :
    Steps (x >>= fun _ => y) (fun p => g (f p)) fun p => e p ++ e' (f p) := by
  refine ⟨fun p => Nat.le_trans (hx.le p) (hy.le (f p)), ?_⟩
  intro s hs
  have h₁ := hx.le s.data
  have h₂ := hy.le (f s.data)
  have hrun := hy.run ⟨f s.data, s.length - (f s.data - s.data), s.events ++ e s.data⟩
    (by dsimp only; omega)
  rw [run_bind_ok (hx.run s (by omega)), hrun]
  dsimp only
  rw [List.append_assoc, Nat.sub_sub]
  congr 4
  omega

theorem Moves.bind (hu : Moves u f) (hv : Moves v g) :
    Moves (u >>= fun _ => v) fun p => g (f p) := by
  refine ⟨fun p => Nat.le_trans (hu.le p) (hv.le (f p)), ?_⟩
  intro s hs
  have h₁ := hu.le s.data
  have h₂ := hv.le (f s.data)
  obtain ⟨s', hrun, hdata, hlen, hok⟩ := hu.run s (by omega)
  obtain ⟨s'', hrun', hdata', hlen', hok'⟩ := hv.run s' (by rw [hdata, hlen]; omega)
  rw [hdata] at hdata' hlen'
  refine ⟨s'', by rw [run_bind_ok hrun, hrun'], hdata', ?_, ?_⟩
  · rw [hlen', hlen]
    omega
  · intro ev hev
    rcases hok' ev hev with hev | hev
    · exact hok ev hev
    · exact Or.inr hev

theorem steps_pure : Steps (pure ()) id fun _ => [] := by
  refine ⟨fun p => Nat.le_refl _, fun s _ => ?_⟩
  dsimp only [id]
  rw [Nat.sub_self, Nat.sub_zero, List.append_nil]
  rfl

theorem moves_pure : Moves (pure () : ReadM σ Unit) id :=
  ⟨fun p => Nat.le_refl _, fun s _ => ⟨s, rfl, rfl, by rw [id, Nat.sub_self, Nat.sub_zero],
    fun _ => Or.inl⟩⟩

theorem steps_emit (ev : Event) : Steps (emit ev) id fun _ => [ev] := by
  refine ⟨fun p => Nat.le_refl _, fun s _ => ?_⟩
  dsimp only [id]
  rw [Nat.sub_self, Nat.sub_zero, emit_run]

theorem moves_notify (R : Reader σ) {ev : Event} (h : ev.ok) : Moves (notify R ev) id := by
  refine ⟨fun p => Nat.le_refl _, fun s _ => ⟨_, run_modify _ _, rfl, ?_, ?_⟩⟩
  · rw [id, Nat.sub_self, Nat.sub_zero]
  · intro ev' hev
    rcases List.mem_append.mp hev with hev | hev
    · exact Or.inl hev
    · rw [List.mem_singleton.mp hev]
      exact Or.inr h

theorem steps_advance (n : Nat) : Steps (advance n) (· + n) fun _ => [] := by
  refine ⟨fun p => Nat.le_add_right _ _, fun s hs => ?_⟩
  rw [Nat.add_sub_cancel_left] at hs ⊢
  rw [advance_ok hs, List.append_nil]

theorem moves_radvance (n : Nat) : Moves (radvance n : ReadM σ Unit) (· + n) := by
  refine ⟨fun p => Nat.le_add_right _ _, fun s hs => ?_⟩
  rw [Nat.add_sub_cancel_left] at hs ⊢
  refine ⟨{ s with data := s.data + n, length := s.length - n }, ?_, rfl, rfl, fun _ => Or.inl⟩
  rw [radvance_run, if_neg (by omega)]

/-- The cursor behind `align`. -/
def aligned (n p : Nat) : Nat := p + alignSkip p n

theorem steps_align (n : Nat) : Steps (align n) (aligned n) fun _ => [] := by
  refine ⟨fun p => Nat.le_add_right _ _, fun s hs => ?_⟩
  rw [align_run]
  exact (steps_advance (alignSkip s.data n)).run s hs

theorem moves_ralign (n : Nat) : Moves (ralign n : ReadM σ Unit) (aligned n) := by
  refine ⟨fun p => Nat.le_add_right _ _, fun s hs => ?_⟩
  rw [ralign_run]
  exact (moves_radvance (alignSkip s.data n)).run s hs

/-- The calls of a loop. -/
def loopEvents (f : Nat → Nat) (e : Nat → List Event) : Nat → Nat → List Event
  | 0, _ => []
  | n + 1, p => e p ++ loopEvents f e n (f p)

theorem steps_loopFrom {body : Nat → WriteM Unit} (h : ∀ k, Steps (body k) f e) :
    ∀ n k, Steps (loopFrom body n k) f^[n] (loopEvents f e n)
  | 0, _ => steps_pure
  | n + 1, k => by
    have hstep := (h k).bind (steps_loopFrom h n (k + 1))
    exact hstep

theorem moves_loopFrom {body : Nat → ReadM σ Unit} (h : ∀ k, Moves (body k) f) :
    ∀ n k, Moves (loopFrom body n k) f^[n]
  | 0, _ => moves_pure
  | n + 1, k => by
    have hstep := (h k).bind (moves_loopFrom h n (k + 1))
    exact hstep

theorem steps_loopElements {body : Nat → WriteM Unit} (h : ∀ k, Steps (body k) f e) {n : Nat}
    (hn : n < 2 ^ 32) : Steps (loopElements n body) f^[n] (loopEvents f e n) := by
  unfold loopElements
  rw [if_neg (by omega)]
  exact steps_loopFrom h n 0

theorem moves_loopElements {body : Nat → ReadM σ Unit} (h : ∀ k, Moves (body k) f) {n : Nat}
    (hn : n < 2 ^ 32) : Moves (loopElements n body) f^[n] := by
  unfold loopElements
  rw [if_neg (by omega)]
  exact moves_loopFrom h n 0

/-! ## Members -/

/-- The calls around those for the elements of a member. -/
def Decl.called (d : Decl) (events : List Event) : List Event :=
  if d.arrayDimensions = [] then events else .beginArray d d.nItems :: events ++ [.endArray d]

theorem writeElements_eq (memory : Memory) (top : Bool) (hseq : d.isSequence = false)
    (body : Nat → WriteM Unit) : writeElements memory d top body = (do
      onlyIf (d.arrayDimensions ≠ []) (emit (.beginArray d d.nItems))
      align d.dataAlign
      body d.nItems
      onlyIf (d.arrayDimensions ≠ []) (emit (.endArray d))) := by
  unfold writeElements writeCount
  rw [hseq, if_neg Bool.false_ne_true, pure_bind]
  dsimp only
  rw [one_mul_nItems]
  rfl

theorem readElements_eq (R : Reader σ) (hseq : d.isSequence = false) (body : Nat → ReadM σ Unit) :
    readElements R d body = (do
      onlyIf (d.arrayDimensions ≠ []) (notify R (.beginArray d d.nItems))
      ralign d.dataAlign
      body d.nItems
      onlyIf (d.arrayDimensions ≠ []) (notify R (.endArray d))) := by
  unfold readElements readCount
  rw [hseq, if_neg Bool.false_ne_true, pure_bind]
  dsimp only
  rw [one_mul_nItems]
  rfl

theorem steps_writeElements (memory : Memory) (top : Bool) (hseq : d.isSequence = false)
    (body : Nat → WriteM Unit) (h : Steps (body d.nItems) f e) :
    Steps (writeElements memory d top body) (fun p => f (aligned d.dataAlign p))
      fun p => d.called (e (aligned d.dataAlign p)) := by
  rw [writeElements_eq memory top hseq]
  unfold onlyIf Decl.called
  by_cases hdims : d.arrayDimensions = []
  · rw [if_neg (not_not.mpr hdims), if_neg (not_not.mpr hdims)]
    have hsteps := steps_pure.bind ((steps_align d.dataAlign).bind (h.bind steps_pure))
    simp only [List.nil_append, List.append_nil, id] at hsteps
    simp only [if_pos hdims]
    exact hsteps
  · rw [if_pos hdims, if_pos hdims]
    have hsteps := (steps_emit (.beginArray d d.nItems)).bind
      ((steps_align d.dataAlign).bind (h.bind (steps_emit (.endArray d))))
    simp only [List.nil_append, List.singleton_append, id] at hsteps
    simp only [if_neg hdims]
    exact hsteps

theorem moves_readElements (R : Reader σ) (hseq : d.isSequence = false) (body : Nat → ReadM σ Unit)
    (h : Moves (body d.nItems) f) :
    Moves (readElements R d body) fun p => f (aligned d.dataAlign p) := by
  rw [readElements_eq R hseq]
  have hif (ev : Event) (hev : ev.ok) :
      Moves (onlyIf (d.arrayDimensions ≠ []) (notify R ev)) id := by
    unfold onlyIf
    split
    · exact moves_notify R hev
    · exact moves_pure
  have hbegin : (Event.beginArray d d.nItems).ok := trivial
  have hend : (Event.endArray d).ok := trivial
  exact (hif _ hbegin).bind ((moves_ralign d.dataAlign).bind (h.bind (hif _ hend)))

/-- The bytes that scalars are moved by. -/
def Decl.dataBytes (d : Decl) : Nat := d.nItems * (d.nBits / 8) % 2 ^ 64

mutual

/-- Where the cursor is behind a member. -/
def Member.move : Member → Nat → Nat
  | .scalar d _ | .enum d _ => fun p => aligned d.dataAlign p + d.dataBytes
  | .struct d ms => fun p => (membersMove ms)^[d.nItems] (aligned d.dataAlign p)
  | .string _ _ | .type _ _ => id

def membersMove : List Member → Nat → Nat
  | [] => id
  | m :: ms => fun p => membersMove ms (m.move p)

end

mutual

/-- The calls for a member from a cursor on. -/
def Member.calls (memory : Memory) : Member → Nat → List Event
  | .scalar d _ | .enum d _ => fun p =>
    d.called [.data d (readBytes memory (aligned d.dataAlign p) d.dataBytes) d.nItems]
  | .struct d ms => fun p =>
    d.called (.beginStruct d :: loopEvents (membersMove ms) (membersCalls memory ms) d.nItems
      (aligned d.dataAlign p) ++ [.endStruct d])
  | .string _ _ | .type _ _ => fun _ => []

def membersCalls (memory : Memory) : List Member → Nat → List Event
  | [] => fun _ => []
  | m :: ms => fun p => m.calls memory p ++ membersCalls memory ms (m.move p)

end

theorem steps_writeScalars (memory : Memory) (d : Decl) :
    Steps (writeScalars memory d d.nItems) (fun p => aligned d.align p + d.dataBytes) fun p =>
      [.data d (readBytes memory (aligned d.align p) d.dataBytes) d.nItems] := by
  have halign := steps_align d.align
  refine ⟨fun p => Nat.le_trans (halign.le p) (Nat.le_add_right _ _), ?_⟩
  intro s hs
  have hle := halign.le s.data
  have hbytes : d.nItems * (d.nBits / 8) % 2 ^ 64 = d.dataBytes := rfl
  unfold writeScalars
  generalize d.dataBytes = nBytes at hbytes hs ⊢
  have hsplit : aligned d.align s.data + nBytes - s.data = aligned d.align s.data - s.data + nBytes := by
    omega
  rw [run_bind_ok (halign.run s (by omega)), run_get_bind, hbytes,
    run_bind_ok (advance_ok (by dsimp only; omega)), emit_run, List.append_nil]
  dsimp only
  rw [hsplit, Nat.sub_sub]

theorem moves_readScalars (R : Reader σ) (d : Decl) :
    Moves (readScalars R d d.nItems) fun p => aligned d.align p + d.dataBytes := by
  have halign : Moves (ralign d.align : ReadM σ Unit) _ := moves_ralign d.align
  refine ⟨fun p => Nat.le_trans (halign.le p) (Nat.le_add_right _ _), ?_⟩
  intro s hs
  have hle := halign.le s.data
  have hbytes : d.nItems * (d.nBits / 8) % 2 ^ 64 = d.dataBytes := rfl
  unfold readScalars
  generalize d.dataBytes = nBytes at hbytes hs ⊢
  obtain ⟨s₁, hrun, hdata, hlen, hok⟩ := halign.run s (by omega)
  obtain ⟨s₂, hrun', hdata', hlen', hok'⟩ := (moves_radvance nBytes).run s₁ (by omega)
  rw [run_bind_ok hrun, run_get_bind, hbytes, run_bind_ok hrun']
  refine ⟨_, run_modify _ _, ?_, ?_, ?_⟩
  · dsimp only
    rw [hdata', hdata]
  · dsimp only
    rw [hlen', hlen, hdata]
    omega
  · intro ev hev
    rcases List.mem_append.mp hev with hev | hev
    · rcases hok' ev hev with hev | hev
      · exact hok ev hev
      · exact Or.inr hev
    · rw [List.mem_singleton.mp hev]
      exact Or.inr trivial

/-- The elements of an array of structs. -/
theorem steps_struct (d : Decl) (h : Steps x f e) {n : Nat} (hn : n < 2 ^ 32) :
    Steps ((fun n => do
      emit (.beginStruct d)
      loopElements n fun _ => x
      emit (.endStruct d)) n) f^[n]
      fun p => Event.beginStruct d :: loopEvents f e n p ++ [Event.endStruct d] := by
  have hsteps := (steps_emit (.beginStruct d)).bind
    ((steps_loopElements (fun _ => h) hn).bind (steps_emit (.endStruct d)))
  exact hsteps

theorem moves_struct (R : Reader σ) (d : Decl) (h : Moves u f) {n : Nat} (hn : n < 2 ^ 32) :
    Moves ((fun n => do
      notify R (.beginStruct d)
      loopElements n fun _ => u
      notify R (.endStruct d)) n) f^[n] := by
  have hbegin : (Event.beginStruct d).ok := trivial
  have hend : (Event.endStruct d).ok := trivial
  have hmoves := (moves_notify R hbegin).bind
    ((moves_loopElements (fun _ => h) hn).bind (moves_notify R hend))
  exact hmoves

/-- `write` on a struct whose members are known. -/
theorem steps_writeStruct (top : Bool) {ms : List Member} (hseq : d.isSequence = false)
    (hn : d.nItems < 2 ^ 32)
    (h : Steps (writeMembers memory false ms) (membersMove ms) (membersCalls memory ms)) :
    Steps (Member.write memory top (.struct d ms)) (Member.move (.struct d ms))
      (Member.calls memory (.struct d ms)) := by
  have hbody := steps_struct d h hn
  rw [Member.write, Member.move, Member.calls]
  exact steps_writeElements memory top hseq (fun n => do
    emit (.beginStruct d)
    loopElements n fun _ => writeMembers memory false ms
    emit (.endStruct d)) hbody

/-! ## Members that are laid out -/

/-- A declaration of fixed size as the layout leaves it. -/
structure Decl.Layed (d : Decl) : Prop where
  isSequence : d.isSequence = false
  small : Small d.align
  dataAlign : d.dataAlign = d.align
  nonempty : 0 < d.arrayDimensions.prod
  count : d.arrayDimensions.prod < 2 ^ 32
  nBytes : d.nBytes = d.itemSize d.dataAlign (d.nBits / 8)

mutual

/-- A member of fixed size as the layout leaves it. -/
def Member.Layed : Member → Prop
  | .scalar d _ | .enum d _ => d.Layed ∧ d.nBits / 8 = d.dataAlign
  | .struct d ms => d.Layed ∧ membersLayed d.dataAlign (d.nBits / 8) 0 ms
  | .string _ _ | .type _ _ => False

/-- Members from one offset to another. -/
def membersLayed (align stop : Nat) : Nat → List Member → Prop
  | start, [] => start = stop
  | start, m :: ms => m.Layed ∧ m.decl.align ≤ align ∧ m.decl.offset = roundUp start m.decl.align ∧
    membersLayed align stop (m.decl.offset + m.decl.nBytes) ms

end

theorem Decl.Layed.nItems (hd : d.Layed) : d.nItems = d.arrayDimensions.prod :=
  Nat.mod_eq_of_lt (Nat.lt_trans hd.count (by decide))

theorem Decl.Layed.nItems_lt (hd : d.Layed) : d.nItems < 2 ^ 32 := hd.nItems ▸ hd.count

theorem Decl.Layed.called (hd : d.Layed) (events : List Event) : d.called events = d.around events := by
  unfold Decl.called Decl.around
  rw [hd.nItems]

theorem Decl.Layed.dataBytes (hd : d.Layed) (hbits : d.nBits / 8 = d.dataAlign) :
    d.dataBytes = d.arrayDimensions.prod * (d.nBits / 8) := by
  have hle : d.nBits / 8 ≤ 8 := by
    have := hd.small
    rw [hbits, hd.dataAlign]
    unfold Small at this
    omega
  have hmul := Nat.mul_le_mul_left d.arrayDimensions.prod hle
  have hcount := hd.count
  unfold Decl.dataBytes
  rw [hd.nItems]
  exact Nat.mod_eq_of_lt (by omega)

/-- What is aligned already stays. -/
theorem aligned_aligned (hs : Small d.align) (hd : d.dataAlign = d.align) (p : Nat) :
    aligned d.align (aligned d.dataAlign p) = aligned d.dataAlign p := by
  rw [hd]
  unfold aligned
  rw [alignSkip_aligned hs hs (Nat.le_refl _), Nat.add_zero]

/-- `write` on scalars. -/
theorem steps_writeScalar (memory : Memory) (top : Bool) (hseq : d.isSequence = false)
    (hs : Small d.align) (hd : d.dataAlign = d.align) (t : Scalar) (enums : List Text) :
    Steps (Member.write memory top (.scalar d t)) (Member.move (.scalar d t))
        (Member.calls memory (.scalar d t)) ∧
      Steps (Member.write memory top (.enum d enums)) (Member.move (.enum d enums))
        (Member.calls memory (.enum d enums)) := by
  have hsteps := steps_writeElements memory top hseq (writeScalars memory d) (steps_writeScalars memory d)
  simp only [aligned_aligned hs hd] at hsteps
  rw [Member.write, Member.write]
  exact ⟨hsteps, hsteps⟩

mutual

/-- **`write`** moves and calls as the member says. -/
theorem steps_write (memory : Memory) (top : Bool) : ∀ m : Member, m.Layed →
    Steps (m.write memory top) m.move (m.calls memory)
  | .scalar _ t, h => (steps_writeScalar memory top h.1.isSequence h.1.small h.1.dataAlign t []).1
  | .enum _ t, h =>
    (steps_writeScalar memory top h.1.isSequence h.1.small h.1.dataAlign .bool t).2
  | .struct _ ms, h =>
    steps_writeStruct top h.1.isSequence h.1.nItems_lt (steps_writeMembers memory false ms h.2)
  | .string _ _, h => absurd h id
  | .type _ _, h => absurd h id

theorem steps_writeMembers (memory : Memory) (top : Bool) : ∀ (ms : List Member)
    {align start stop : Nat}, membersLayed align stop start ms →
    Steps (writeMembers memory top ms) (membersMove ms) (membersCalls memory ms)
  | [], _, _, _, _ => steps_pure
  | m :: ms, _, _, _, h => by
    obtain ⟨hm, -, -, hms⟩ := h
    have hsteps := (steps_write memory top m hm).bind (steps_writeMembers memory top ms hms)
    rw [writeMembers]
    exact hsteps

end

mutual

/-- **`read`** moves as the member says. -/
theorem moves_read (R : Reader σ) : ∀ m : Member, m.Layed → Moves (m.read R) m.move
  | .scalar d t, h | .enum d t, h => by
    obtain ⟨hd, -⟩ := h
    have hmoves := moves_readElements R hd.isSequence (readScalars R d) (moves_readScalars R d)
    simp only [aligned_aligned hd.small hd.dataAlign] at hmoves
    rw [Member.read]
    exact hmoves
  | .struct d ms, h => by
    obtain ⟨hd, hms⟩ := h
    have hbody := moves_struct R d (moves_readMembers R ms hms) hd.nItems_lt
    rw [Member.read, Member.move]
    exact moves_readElements R hd.isSequence (fun n => do
      notify R (.beginStruct d)
      loopElements n fun _ => readMembers R ms
      notify R (.endStruct d)) hbody
  | .string d n, h => absurd h id
  | .type d t, h => absurd h id

theorem moves_readMembers (R : Reader σ) : ∀ (ms : List Member) {align start stop : Nat},
    membersLayed align stop start ms → Moves (readMembers R ms) (membersMove ms)
  | [], _, _, _, _ => moves_pure
  | m :: ms, _, _, _, h => by
    obtain ⟨hm, -, -, hms⟩ := h
    have hmoves := (moves_read R m hm).bind (moves_readMembers R ms hms)
    rw [readMembers]
    exact hmoves

end

/-! ## Where the cursor goes -/

theorem aligned_eq {n : Nat} (hn : Small n) (p : Nat) : aligned n p = roundUp p n := by
  unfold aligned roundUp
  rw [alignSkip_eq hn]
  rcases hn with rfl | rfl | rfl | rfl <;> omega

theorem roundUp_mono {p q : Nat} (n : Nat) (h : p ≤ q) : roundUp p n ≤ roundUp q n :=
  Nat.mul_le_mul_right n (Nat.div_le_div_right (Nat.add_le_add_right h _))

theorem roundUp_of_dvd {n p : Nat} (hn : 0 < n) (h : n ∣ p) : roundUp p n = p := by
  obtain ⟨k, rfl⟩ := h
  unfold roundUp
  rw [Nat.mul_add_div hn, Nat.div_eq_of_lt (by omega), Nat.add_zero, Nat.mul_comm]

theorem roundUp_add {n p : Nat} (hn : 0 < n) (h : n ∣ p) (q : Nat) :
    roundUp (p + q) n = p + roundUp q n := by
  obtain ⟨k, rfl⟩ := h
  unfold roundUp
  rw [Nat.add_assoc, Nat.mul_add_div hn, Nat.add_mul, Nat.mul_comm k]

theorem Small.pos {n : Nat} (h : Small n) : 0 < n := by
  unfold Small at h
  omega

theorem Small.dvd {a b : Nat} (ha : Small a) (hb : Small b) (hab : a ≤ b) : a ∣ b := by
  rcases ha with rfl | rfl | rfl | rfl <;> rcases hb with rfl | rfl | rfl | rfl <;> omega

theorem Member.Layed.decl : ∀ {m : Member}, m.Layed → m.decl.Layed
  | .scalar _ _, h | .enum _ _, h | .struct _ _, h => h.1
  | .string _ _, h | .type _ _, h => absurd h id

theorem Decl.Layed.small_data (hd : d.Layed) : Small d.dataAlign := hd.dataAlign ▸ hd.small

/-- Elements start at an aligned address. -/
theorem Decl.Layed.aligned_start (hd : d.Layed) (p : Nat) :
    aligned d.dataAlign (aligned d.align p) = aligned d.dataAlign p := by
  have hstay := aligned_aligned hd.small hd.dataAlign p
  rw [← hd.dataAlign] at hstay ⊢
  exact hstay

/-- A member starts at an aligned address. -/
theorem move_aligned : ∀ (m : Member), m.Layed → ∀ p, m.move (aligned m.decl.align p) = m.move p
  | .scalar d _, h, p | .enum d _, h, p | .struct d _, h, p => by
    unfold Member.move
    rw [Member.decl, h.1.aligned_start]
  | .string _ _, h, _ | .type _ _, h, _ => absurd h id

mutual

theorem move_mono : ∀ (m : Member), m.Layed → Monotone m.move
  | .scalar d _, h | .enum d _, h => by
    intro p q hpq
    have hle := roundUp_mono d.dataAlign hpq
    rw [← aligned_eq h.1.small_data, ← aligned_eq h.1.small_data] at hle
    exact Nat.add_le_add_right hle _
  | .struct d ms, h => by
    intro p q hpq
    have hle := roundUp_mono d.dataAlign hpq
    rw [← aligned_eq h.1.small_data, ← aligned_eq h.1.small_data] at hle
    exact (membersMove_mono ms h.2).iterate _ hle
  | .string _ _, h | .type _ _, h => absurd h id

theorem membersMove_mono : ∀ (ms : List Member) {align start stop : Nat},
    membersLayed align stop start ms → Monotone (membersMove ms)
  | [], _, _, _, _ => monotone_id
  | m :: ms, _, _, _, h => by
    obtain ⟨hm, -, -, hms⟩ := h
    exact (membersMove_mono ms hms).comp (move_mono m hm)

end

/-- Elements that take at most their size end before the next place in the array. -/
theorem iterate_le {align size stride p : Nat} (hmono : Monotone f)
    (hf : ∀ q, align ∣ q → f q ≤ q + size) (hle : size ≤ stride) (hs : align ∣ stride) (hp : align ∣ p) :
    ∀ n, f^[n + 1] p ≤ p + n * stride + size
  | 0 => by
    rw [Nat.zero_mul]
    exact hf p hp
  | n + 1 => by
    have ih := iterate_le hmono hf hle hs hp n
    have hnext : f^[n + 1] p ≤ p + (n + 1) * stride := by
      rw [Nat.succ_mul]
      omega
    rw [Function.iterate_succ_apply']
    exact Nat.le_trans (hmono hnext) (hf _ (Nat.dvd_add hp (Nat.dvd_mul_left_of_dvd hs _)))

theorem Decl.Layed.nBytes_scalar (hd : d.Layed) (hbits : d.nBits / 8 = d.dataAlign) :
    d.nBytes = d.arrayDimensions.prod * (d.nBits / 8) := by
  rw [hd.nBytes, Decl.itemSize, hbits, roundUp_of_dvd hd.small_data.pos (Nat.dvd_refl _)]
  by_cases hdims : d.arrayDimensions = []
  · rw [if_pos hdims, hdims, List.prod_nil, Nat.one_mul]
  · rw [if_neg hdims, Nat.mul_comm]

theorem aligned_of_dvd {n p : Nat} (hn : Small n) (h : n ∣ p) : aligned n p = p := by
  rw [aligned_eq hn, roundUp_of_dvd hn.pos h]

mutual

/-- **A member takes at most its bytes.** -/
theorem move_le : ∀ (m : Member), m.Layed → ∀ p, m.decl.align ∣ p → m.move p ≤ p + m.decl.nBytes
  | .scalar d _, h, p, hp | .enum d _, h, p, hp => by
    have hbytes := h.1.nBytes_scalar h.2
    unfold Member.move
    rw [Member.decl] at hp ⊢
    rw [h.1.dataBytes h.2, h.1.dataAlign, aligned_of_dvd h.1.small hp, hbytes]
  | .struct d ms, h, p, hp => by
    obtain ⟨hd, hms⟩ := h
    rw [Member.decl] at hp ⊢
    have hpd : d.dataAlign ∣ p := hd.dataAlign ▸ hp
    have hf (q : Nat) (hq : d.dataAlign ∣ q) : membersMove ms q ≤ q + d.nBits / 8 :=
      membersMove_le ms hd.small_data hms hq
    have hle := le_roundUp hd.small_data.pos (d.nBits / 8)
    obtain ⟨n, hn⟩ := Nat.exists_eq_succ_of_ne_zero hd.nonempty.ne'
    have hend := iterate_le (membersMove_mono ms hms) hf hle (dvd_roundUp _ _) hpd n
    unfold Member.move
    rw [hd.nItems, hn, Nat.succ_eq_add_one, aligned_of_dvd hd.small_data hpd]
    refine Nat.le_trans hend ?_
    rw [hd.nBytes, Decl.itemSize]
    by_cases hdims : d.arrayDimensions = []
    · rw [hdims, List.prod_nil] at hn
      rw [if_pos hdims, Nat.succ.inj hn.symm, Nat.zero_mul, Nat.add_zero]
    · rw [if_neg hdims, hn, Nat.mul_succ, Nat.mul_comm n]
      omega
  | .string _ _, h, _, _ | .type _ _, h, _, _ => absurd h id

theorem membersMove_le : ∀ (ms : List Member) {align start stop p : Nat}, Small align →
    membersLayed align stop start ms → align ∣ p → membersMove ms (p + start) ≤ p + stop
  | [], _, _, _, _, _, h, _ => by
    rw [membersLayed] at h
    rw [h]
    exact Nat.le_refl _
  | m :: ms, align, start, stop, p, ha, h, hp => by
    obtain ⟨hm, hle, hoffset, hms⟩ := h
    have hsmall := hm.decl.small
    have hmp : m.decl.align ∣ p := Nat.dvd_trans (hsmall.dvd ha hle) hp
    have hplace : aligned m.decl.align (p + start) = p + m.decl.offset := by
      rw [aligned_eq hsmall, roundUp_add hsmall.pos hmp, hoffset]
    have hmove := move_le m hm (p + m.decl.offset)
      (Nat.dvd_add hmp (hoffset ▸ dvd_roundUp start m.decl.align))
    have hrest := membersMove_le ms ha hms hp
    unfold membersMove
    rw [← move_aligned m hm, hplace]
    refine Nat.le_trans (membersMove_mono ms hms hmove) ?_
    rw [Nat.add_assoc]
    exact hrest

end

/-! ## Without padding behind structs -/

mutual

/-- `NoTail` on a member that is laid out. -/
def Member.Tight : Member → Prop
  | .struct d ms => (d.arrayDimensions ≠ [] → d.dataAlign ∣ d.nBits / 8) ∧ membersTight ms
  | _ => True

def membersTight : List Member → Prop
  | [] => True
  | m :: ms => m.Tight ∧ membersTight ms

end

theorem loopEvents_eq (n p : Nat) :
    loopEvents f e n p = (List.range n).flatMap fun i => e (f^[i] p) := by
  induction n generalizing p with
  | zero => rfl
  | succ n ih =>
    rw [loopEvents, ih, List.range_succ_eq_map, List.flatMap_cons, List.flatMap_map]
    rfl

/-- Elements that take exactly their size. -/
theorem iterate_eq {align size p : Nat} (hf : ∀ q, align ∣ q → f q = q + size) (hs : align ∣ size)
    (hp : align ∣ p) : ∀ n, f^[n] p = p + n * size
  | 0 => by
    rw [Nat.zero_mul]
    rfl
  | n + 1 => by
    rw [Function.iterate_succ_apply', iterate_eq hf hs hp n,
      hf _ (Nat.dvd_add hp (Nat.dvd_mul_left_of_dvd hs _)), Nat.succ_mul, Nat.add_assoc]

/-- The calls of a member start at its aligned address. -/
theorem calls_aligned (memory : Memory) : ∀ (m : Member), m.Layed →
    ∀ p, m.calls memory (aligned m.decl.align p) = m.calls memory p
  | .scalar d _, h, p | .enum d _, h, p | .struct d _, h, p => by
    unfold Member.calls
    rw [Member.decl, h.1.aligned_start]
  | .string _ _, h, _ | .type _ _, h, _ => absurd h id

mutual

/-- **Layout and traversal agree** where arrays of structs have no padding. -/
theorem move_eq (memory : Memory) : ∀ (m : Member), m.Layed → m.Tight → ∀ p, m.decl.align ∣ p →
    m.move p = p + m.decl.nBytes ∧ m.calls memory p = m.accesses memory p
  | .scalar d _, h, _, p, hp | .enum d _, h, _, p, hp => by
    have hbytes := h.1.nBytes_scalar h.2
    rw [Member.decl] at hp ⊢
    unfold Member.move Member.calls Member.accesses
    rw [h.1.called, h.1.dataBytes h.2, h.1.nItems, h.1.dataAlign, aligned_of_dvd h.1.small hp, hbytes]
    exact ⟨rfl, rfl⟩
  | .struct d ms, h, ht, p, hp => by
    obtain ⟨hd, hms⟩ := h
    obtain ⟨htail, hts⟩ := ht
    rw [Member.decl] at hp ⊢
    have hpd : d.dataAlign ∣ p := hd.dataAlign ▸ hp
    have hf (q : Nat) (hq : d.dataAlign ∣ q) : membersMove ms q = q + d.nBits / 8 :=
      (membersMove_eq memory ms hd.small_data hms hts hq).1
    have hcalls (q : Nat) (hq : d.dataAlign ∣ q) :
        membersCalls memory ms q = membersAccesses memory q ms :=
      (membersMove_eq memory ms hd.small_data hms hts hq).2
    unfold Member.move Member.calls Member.accesses
    rw [hd.called, hd.nItems, aligned_of_dvd hd.small_data hpd, loopEvents_eq, hd.nBytes, Decl.itemSize]
    by_cases hdims : d.arrayDimensions = []
    · rw [if_pos hdims, hdims, List.prod_nil]
      refine ⟨hf p hpd, ?_⟩
      rw [List.range_one, List.flatMap_singleton, List.flatMap_singleton, Nat.zero_mul]
      exact congrArg (fun es => d.around (.beginStruct d :: es ++ [.endStruct d])) (hcalls p hpd)
    · have hdvd := htail hdims
      have hiter := iterate_eq hf hdvd hpd
      rw [if_neg hdims, roundUp_of_dvd hd.small_data.pos hdvd, hiter, Nat.mul_comm]
      refine ⟨rfl, ?_⟩
      refine congrArg (fun es => d.around (.beginStruct d :: es ++ [.endStruct d])) ?_
      refine congrArg (fun g => (List.range d.arrayDimensions.prod).flatMap g) (funext fun i => ?_)
      rw [hiter]
      exact hcalls _ (Nat.dvd_add hpd (Nat.dvd_mul_left_of_dvd hdvd _))
  | .string _ _, h, _, _, _ | .type _ _, h, _, _, _ => absurd h id

theorem membersMove_eq (memory : Memory) : ∀ (ms : List Member) {align start stop p : Nat},
    Small align → membersLayed align stop start ms → membersTight ms → align ∣ p →
    membersMove ms (p + start) = p + stop ∧
      membersCalls memory ms (p + start) = membersAccesses memory p ms
  | [], _, _, _, _, _, h, _, _ => by
    rw [membersLayed] at h
    rw [h]
    exact ⟨rfl, rfl⟩
  | m :: ms, align, start, stop, p, ha, h, ht, hp => by
    obtain ⟨hm, hle, hoffset, hms⟩ := h
    have hsmall := hm.decl.small
    have hmp : m.decl.align ∣ p := Nat.dvd_trans (hsmall.dvd ha hle) hp
    have hplace : aligned m.decl.align (p + start) = p + m.decl.offset := by
      rw [aligned_eq hsmall, roundUp_add hsmall.pos hmp, hoffset]
    obtain ⟨hmove, hcalls⟩ := move_eq memory m hm ht.1 (p + m.decl.offset)
      (Nat.dvd_add hmp (hoffset ▸ dvd_roundUp start m.decl.align))
    obtain ⟨hrest, hrestCalls⟩ :=
      membersMove_eq memory ms ha hms ht.2 hp
    unfold membersMove membersCalls membersAccesses
    rw [← move_aligned m hm, ← calls_aligned memory m hm, hplace, hmove, hcalls, Nat.add_assoc, hrest,
      hrestCalls]
    exact ⟨rfl, rfl⟩

end

end OpenCpi.Value
