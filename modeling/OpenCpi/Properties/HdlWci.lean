import OpenCpi.Hdl.WciControl

/-!
# A property access reaches its own bytes, unless the window is another one

Three things go wrong in the code:

* a direct write through the address of `prepareProperty` lands in the window that the last access
  of the other kind selected;
* the assertion of `checkWindow` looks at the byte after the range, and fails for a range that ends
  where a window ends;
* `getPropertySequence` throws if the items fit the buffer and copies them if they do not, copies
  nothing when the property reports errors, and takes the first word of a property that is not a
  sequence for a number of items.

Any other access inside one window, in any state that accesses reach, does what it does in the
abstract model: a flat array of bytes.
-/

namespace OpenCpi.Hdl

open Infra Exc

/-! ## The abstract model -/

/-- The number of items that a sequence has in memory. -/
def itemCount (memory : Memory) (info : PropertyInfo) : Nat :=
  wordOf (readBytes memory info.offset 4)

/-- The bytes of a property that an access is about: where they start and how many there are. -/
def Op.range (memory : Memory) : Op → Nat × Nat
  | .setValue w info _ | .setProperty w info _ | .getProperty w info => (info.offset, w.bytes)
  | .setBytes _ offset _ data => (offset, data.length)
  | .getBytes _ offset _ nBytes => (offset, nBytes)
  | .setSequence info _ _ val =>
    (info.offset, if info.isSequence then max 4 (info.align + val.length) else val.length)
  | .getSequence info _ n => (info.offset,
      if info.isSequence then max 4 (info.align + itemCount memory info * (info.nBits / 8)) else n)

/-- The range lies inside one window. -/
def Op.Inside (memory : Memory) (op : Op) : Prop :=
  (op.range memory).2 = 0 ∨
    (op.range memory).1 / configSize = ((op.range memory).1 + (op.range memory).2 - 1) / configSize

/-- What an access does to the bytes. -/
def Op.effect (memory : Memory) : Op → Memory
  | .setValue w info val | .setProperty w info val =>
    writeBytes memory info.offset (scalarBytes w val)
  | .setBytes _ offset _ data => writeBytes memory offset data
  | .setSequence info _ nItems val =>
    if info.isSequence then
      writeBytes (writeBytes memory (info.offset + info.align) val) info.offset (wordBytes nItems)
    else writeBytes memory info.offset val
  | .getProperty .. | .getBytes .. | .getSequence .. => memory

/-- What an access may answer. The number of items is not asked for where there is no sequence. -/
def Op.Answers (memory : Memory) : Op → Except Throw Reply → Prop
  | .setValue .., r | .setProperty .., r | .setBytes .., r | .setSequence .., r => r = .ok .done
  | .getProperty w info, r => r = .ok (.bytes (readBytes memory info.offset w.bytes))
  | .getBytes _ offset _ nBytes, r => r = .ok (.bytes (readBytes memory offset nBytes))
  | .getSequence info _ n, r =>
    if info.isSequence then
      if itemCount memory info * (info.nBits / 8) ≤ n then
        r = .ok (.items (itemCount memory info)
          (readBytes memory (info.offset + info.align) (itemCount memory info * (info.nBits / 8))))
      else r = .error .sequenceError
    else ∃ k, r = .ok (.items k (readBytes memory info.offset n))

/-- **An access does what it does in the abstract model** and touches nothing else. -/
structure AccessOk (c : WciControl) (op : Op) : Prop where
  answers : op.Answers c.device.memory (perform op c).1
  memory : (perform op c).2.device.memory = op.effect c.device.memory
  beyond : (perform op c).2.device.beyond = c.device.beyond

/-! ## The window -/

variable {d : Device} {c : WciControl} {o len : Nat} {data : List UInt8}

theorem configSize_pos : 0 < configSize := by decide

theorem view_store : (d.store o data).view = writeBytes d.view o data := by
  funext a
  unfold Device.view Device.store
  dsimp only
  split
  · next h =>
    rw [Nat.mul_comm, Nat.mul_add_div configSize_pos, Nat.div_eq_of_lt h, Nat.add_zero,
      if_pos rfl, Nat.mul_add_mod, Nat.mod_eq_of_lt h, Nat.mul_comm]
    rfl
  · next h =>
    rw [Nat.sub_add_cancel (by omega)]
    rfl

theorem view_of_lt (h : o < configSize) : d.view o = d.memory (d.window * configSize + o) :=
  if_pos h

theorem view_add (d : Device) (o : Nat) : d.view (o + configSize) = d.beyond o := by
  unfold Device.view
  rw [if_neg (by omega), Nat.add_sub_cancel]

/-- Addresses in the selected window. -/
theorem window_addr {a : Nat} (h : a / configSize = d.window) :
    d.window * configSize + a % configSize = a := by
  rw [← h, Nat.mul_comm]
  exact Nat.div_add_mod a configSize

theorem store_nil : d.store o [] = d := by
  unfold Device.store
  rw [writeBytes_nil]
  refine Device.ext ?_ ?_ rfl rfl rfl
  · funext a
    dsimp only
    split
    · next h => rw [view_of_lt (Nat.mod_lt a configSize_pos), window_addr h]
    · rfl
  · funext a
    dsimp only
    rw [view_add]

theorem store_append {x y : List UInt8} :
    (d.store o x).store (o + x.length) y = d.store o (x ++ y) := by
  have hv : writeBytes (d.store o x).view (o + x.length) y = writeBytes d.view o (x ++ y) := by
    rw [view_store, writeBytes_append]
  refine Device.ext ?_ (funext fun a => congrFun hv (a + configSize)) rfl rfl rfl
  funext a
  show (if a / configSize = d.window then
      writeBytes (d.store o x).view (o + x.length) y (a % configSize)
    else (d.store o x).memory a) = _
  rw [hv]
  show _ = (if a / configSize = d.window then writeBytes d.view o (x ++ y) (a % configSize)
    else d.memory a)
  split
  · rfl
  · next h => exact if_neg h

/-- **A write inside the window** goes to the bytes that the register selects. -/
theorem store_inside (h : o + data.length ≤ configSize) :
    (d.store o data).memory = writeBytes d.memory (d.window * configSize + o) data ∧
      (d.store o data).beyond = d.beyond := by
  constructor
  · funext a
    show (if a / configSize = d.window then writeBytes d.view o data (a % configSize)
      else d.memory a) = _
    by_cases hwin : a / configSize = d.window
    · rw [if_pos hwin]
      have ha := window_addr hwin
      have hlt := Nat.mod_lt a configSize_pos
      unfold writeBytes
      by_cases hin : o ≤ a % configSize ∧ a % configSize < o + data.length
      · rw [if_pos hin, if_pos (by omega)]
        congr 1
        omega
      · rw [if_neg hin, if_neg (by omega), view_of_lt hlt, ha]
    · rw [if_neg hwin]
      unfold writeBytes
      rw [if_neg]
      rintro ⟨h₁, h₂⟩
      refine hwin ?_
      rw [Nat.div_eq_iff configSize_pos]
      omega
  · funext a
    show writeBytes d.view o data (a + configSize) = _
    unfold writeBytes
    rw [if_neg (by omega), view_add]

/-- **A read inside the window.** -/
theorem load_inside (h : o + len ≤ configSize) :
    d.load o len = readBytes d.memory (d.window * configSize + o) len := by
  unfold Device.load readBytes
  refine List.map_congr_left fun k hk => ?_
  have hk := List.mem_range.mp hk
  rw [view_of_lt (by omega), Nat.add_assoc]

/-! ## Copying in chunks -/

/-- What `setBytes` still has to write. -/
def Sending.finish (s : Sending) : Device := s.device.store s.offset s.rest

theorem Sending.chunks_finish {k : Nat} : ∀ (n : Nat) (s : Sending), n * k ≤ s.rest.length →
    (s.chunks k n).finish = s.finish ∧ (s.chunks k n).rest.length = s.rest.length - n * k
  | 0, s, _ => ⟨rfl, by simp [Sending.chunks]⟩
  | n + 1, s, h => by
    have hsplit : (n + 1) * k = n * k + k := Nat.succ_mul n k
    rw [Sending.chunks]
    obtain ⟨h₁, h₂⟩ := Sending.chunks_finish (k := k) n ⟨s.host + k, s.offset + k, s.rest.drop k,
      s.device.store s.offset (s.rest.take k)⟩ (by rw [List.length_drop]; omega)
    refine ⟨h₁.trans ?_, h₂.trans ?_⟩
    · unfold Sending.finish
      dsimp only
      have hlen : (s.rest.take k).length = k := by
        rw [List.length_take]
        omega
      have happ := store_append (d := s.device) (o := s.offset) (x := s.rest.take k)
        (y := s.rest.drop k)
      rw [hlen, List.take_append_drop] at happ
      exact happ
    · rw [List.length_drop]
      omega

theorem Sending.phase_finish (k offset : Nat) (s : Sending) :
    (s.phase k offset).finish = s.finish := by
  unfold Sending.phase
  split
  · exact (Sending.chunks_finish _ s (Nat.div_mul_le_self _ _)).1
  · rfl

/-- **`Access::setBytes` is a plain write.** -/
theorem setBytes_eq (host offset : Nat) (data : List UInt8) (d : Device) :
    setBytes host offset data d = d.store offset data := by
  unfold setBytes
  dsimp only
  generalize hs : (((Sending.mk host offset data d).phase 8 offset).phase 4 offset).phase 2 offset = s
  obtain ⟨hfin, hlen⟩ := Sending.chunks_finish (k := 1) s.rest.length s (by omega)
  have hnil : (s.chunks 1 s.rest.length).rest = [] := List.eq_nil_of_length_eq_zero (by omega)
  have hdev : (s.chunks 1 s.rest.length).finish = (s.chunks 1 s.rest.length).device := by
    unfold Sending.finish
    rw [hnil, store_nil]
  rw [← hdev, hfin, ← hs, Sending.phase_finish, Sending.phase_finish, Sending.phase_finish]
  rfl

/-- What `getBytes` has read when it is done. -/
def Receiving.finish (d : Device) (r : Receiving) : List UInt8 := r.got ++ d.load r.offset r.rest

theorem Receiving.chunks_finish {k : Nat} : ∀ (n : Nat) (r : Receiving), n * k ≤ r.rest →
    (r.chunks d k n).finish d = r.finish d ∧ (r.chunks d k n).rest = r.rest - n * k
  | 0, r, _ => ⟨rfl, by simp [Receiving.chunks]⟩
  | n + 1, r, h => by
    have hsplit : (n + 1) * k = n * k + k := Nat.succ_mul n k
    rw [Receiving.chunks]
    obtain ⟨h₁, h₂⟩ := Receiving.chunks_finish (k := k) n ⟨r.host + k, r.offset + k, r.rest - k,
      r.got ++ d.load r.offset k⟩ (by dsimp only; omega)
    refine ⟨h₁.trans ?_, h₂.trans ?_⟩
    · unfold Receiving.finish Device.load
      rw [List.append_assoc, ← readBytes_add, Nat.add_sub_cancel' (by omega)]
    · dsimp only
      omega

theorem Receiving.phase_finish (k offset : Nat) (r : Receiving) :
    (r.phase d k offset).finish d = r.finish d := by
  unfold Receiving.phase
  split
  · exact (Receiving.chunks_finish _ r (Nat.div_mul_le_self _ _)).1
  · rfl

/-- **`Access::getBytes` is a plain read.** -/
theorem getBytes_eq (host offset len : Nat) (d : Device) :
    getBytes host offset len d = d.load offset len := by
  unfold getBytes
  dsimp only
  generalize hr : (((Receiving.mk host offset len []).phase d 8 offset).phase d 4 offset).phase d 2
    offset = r
  obtain ⟨hfin, hrest⟩ := Receiving.chunks_finish (d := d) (k := 1) r.rest r (by omega)
  have hgot : (r.chunks d 1 r.rest).finish d = (r.chunks d 1 r.rest).got := by
    unfold Receiving.finish
    rw [show (r.chunks d 1 r.rest).rest = 0 by omega]
    exact List.append_nil _
  rw [← hgot, hfin, ← hr, Receiving.phase_finish, Receiving.phase_finish, Receiving.phase_finish]
  exact List.nil_append _

/-! ## The cached window -/

/-- **The invariant**: the register has the window that is cached, and the device reports no
errors. -/
structure Synced (c : WciControl) : Prop where
  hasControl : c.hasControl = true
  status : c.device.status = 0
  reported : c.device.reported = 0
  register : c.device.window = c.window / configSize % 2 ^ 32

/-- What `checkWindow` accepts, of offsets whose window has a number. -/
def Fits (offset nBytes : Nat) : Prop :=
  offset / configSize < 2 ^ 32 ∧ offset / configSize = (offset + nBytes) / configSize

instance (offset nBytes : Nat) : Decidable (Fits offset nBytes) :=
  inferInstanceAs (Decidable (_ ∧ _))

/-- The window of `offset` is selected. -/
structure Selected (offset : Nat) (c c' : WciControl) : Prop extends Synced c' where
  mapped : c'.mapped = c.mapped
  memory : c'.device.memory = c.device.memory
  beyond : c'.device.beyond = c.device.beyond
  window : c'.device.window = offset / configSize % 2 ^ 32

theorem Fits.lt {offset nBytes : Nat} (h : Fits offset nBytes) : offset + nBytes < 2 ^ 64 := by
  obtain ⟨h₁, h₂⟩ := h
  rw [h₂, Nat.div_lt_iff_lt_mul configSize_pos] at h₁
  exact Nat.lt_of_lt_of_le h₁ (by decide)

theorem Fits.inside {offset nBytes : Nat} (h : Fits offset nBytes) :
    offset % configSize + nBytes ≤ configSize := by
  have hlt := Nat.mod_lt (offset + nBytes) configSize_pos
  have h₁ := Nat.div_add_mod offset configSize
  have h₂ := Nat.div_add_mod (offset + nBytes) configSize
  rw [← h.2] at h₂
  omega

theorem windowOf_div (offset : Nat) : windowOf offset / configSize = offset / configSize :=
  Nat.mul_div_cancel _ configSize_pos

/-- A window is selected, whatever its number is. -/
theorem Synced.change {offset window n : Nat} (h : Synced c)
    (hw : window / configSize = offset / configSize) (hn : n = window / configSize % 2 ^ 32) :
    Selected offset c { c with window, device := { c.device with window := n } } :=
  ⟨⟨h.hasControl, h.status, h.reported, hn⟩, rfl, rfl, rfl, hn.trans (by rw [hw])⟩

theorem Synced.select {offset : Nat} (h : Synced c) :
    Selected offset c (c.select (windowOf offset)) := by
  unfold WciControl.select
  refine h.change (windowOf_div offset) ?_
  rw [show 2 ^ configWindowBits = configSize by decide]

/-- **`checkWindow` selects the window**, or its assertion fails. -/
theorem checkWindow_ends {offset nBytes : Nat} (h : Synced c) :
    Ends (fun r c' => r = offset % configSize ∧ Selected offset c c')
      (fun e _ => e = .assertion ∧ ¬Fits offset nBytes) (checkWindow offset nBytes) c := by
  unfold checkWindow
  rw [ends_read_bind, if_neg (by rw [h.hasControl]; decide)]
  by_cases hwin : windowOf offset ≠ windowOf (sizeT (offset + nBytes))
  · rw [if_pos hwin, ends_raise]
    refine ⟨rfl, fun hfits => hwin ?_⟩
    unfold windowOf sizeT
    rw [Nat.mod_eq_of_lt hfits.lt, hfits.2]
  · rw [if_neg hwin]
    by_cases hcache : windowOf offset ≠ c.window
    · rw [if_pos hcache, ends_change_bind, ends_pure]
      exact ⟨rfl, h.select⟩
    · rw [if_neg hcache, ends_pure]
      refine ⟨rfl, h, rfl, rfl, rfl, ?_⟩
      rw [h.register, ← not_not.mp hcache, windowOf_div]

/-- The byte that is reached. -/
theorem Selected.addr {offset nBytes : Nat} {c' : WciControl} (h : Selected offset c c')
    (hfits : Fits offset nBytes) :
    c'.device.window * configSize + offset % configSize = offset := by
  rw [h.window, Nat.mod_eq_of_lt hfits.1, Nat.mul_comm]
  exact Nat.div_add_mod offset configSize

theorem statusIf_bind {α : Type} {ok : α → WciControl → Prop} {fail : Throw → WciControl → Prop}
    {cond : Bool} {errors : Nat} {f : Nat → M α} (h : c.device.status = 0)
    (hf : Ends ok fail (f 0) c) : Ends ok fail (statusIf cond errors >>= f) c := by
  have hz : (if cond then c.device.status &&& errors else 0) = 0 := by
    rw [h, Nat.zero_and]
    exact ite_self 0
  refine Ends.bind (P := fun s c' => s = 0 ∧ c' = c) ⟨hz, rfl⟩ ?_
  rintro s c' ⟨rfl, rfl⟩
  exact hf

theorem throwIf_zero (e : Nat → Throw) : throwIf 0 e = pure () := if_neg (by decide)

theorem throwIf_zero_bind {α : Type} (e : Nat → Throw) (f : Unit → M α) :
    throwIf 0 e >>= f = f () := by
  rw [throwIf_zero]
  rfl

/-- What a write access does to the device. -/
theorem writeAccess_ends {info : PropertyInfo} {mapped accessor : Device → Device} (h : Synced c)
    (hm : (mapped c.device).status = 0) :
    Ends (fun _ c' => c' = { c with device := (if c.mapped then mapped else accessor) c.device })
      (fun _ _ => False) (writeAccess info mapped accessor) c := by
  unfold writeAccess
  rw [ends_read_bind]
  by_cases hmap : c.mapped
  · rw [if_pos hmap, if_pos hmap]
    refine statusIf_bind h.status ?_
    rw [if_pos rfl]
    unfold changeDevice
    rw [ends_change_bind]
    refine statusIf_bind hm ?_
    rw [throwIf_zero]
    rfl
  · rw [if_neg hmap, if_neg hmap, h.reported, throwIf_zero]
    rfl

theorem readAccess_ends {info : PropertyInfo} {mapped accessor : Device → List UInt8}
    (h : Synced c) :
    Ends (fun r c' => r = (if c.mapped then mapped else accessor) c.device ∧ c' = c)
      (fun _ _ => False) (readAccess info mapped accessor) c := by
  unfold readAccess
  rw [ends_read_bind]
  by_cases hmap : c.mapped
  · rw [if_pos hmap, if_pos hmap]
    refine statusIf_bind h.status ?_
    rw [throwIf_zero_bind]
    refine statusIf_bind h.status ?_
    rw [throwIf_zero_bind]
    exact ⟨rfl, rfl⟩
  · rw [if_neg hmap, if_neg hmap, h.reported, throwIf_zero_bind]
    exact ⟨rfl, rfl⟩

/-- A device after some writes: the registers are as before. -/
structure SameRegisters (d d' : Device) : Prop where
  window : d'.window = d.window
  status : d'.status = d.status
  reported : d'.reported = d.reported

theorem sameRegisters_store : SameRegisters d (d.store o data) := ⟨rfl, rfl, rfl⟩

theorem SameRegisters.trans {d' d'' : Device} (h : SameRegisters d d') (h' : SameRegisters d' d'') :
    SameRegisters d d'' :=
  ⟨h'.window.trans h.window, h'.status.trans h.status, h'.reported.trans h.reported⟩

theorem SameRegisters.synced {d' : Device} (h : SameRegisters c.device d') (hc : Synced c) :
    Synced { c with device := d' } :=
  ⟨hc.hasControl, h.status.trans hc.status, h.reported.trans hc.reported,
    h.window.trans hc.register⟩

/-- **A write access as a whole.** -/
theorem write_ends {info : PropertyInfo} {offset nBytes : Nat} {write : Nat → Device → Device}
    {mapped accessor : Nat → Device → Device} (h : Synced c)
    (hsame : ∀ o d, SameRegisters d (write o d))
    (hm : ∀ o d, mapped o d = write o d) (ha : ∀ o d, d.reported = 0 → accessor o d = write o d) :
    Ends (fun _ c' => ∃ c₁, Selected offset c c₁ ∧
        c' = { c₁ with device := write (offset % configSize) c₁.device })
      (fun e _ => e = .assertion ∧ ¬Fits offset nBytes)
      (checkWindow offset nBytes >>= fun o => writeAccess info (mapped o) (accessor o)) c := by
  refine (checkWindow_ends h).bind ?_
  rintro o c₁ ⟨rfl, hsel⟩
  have hstatus : (mapped (offset % configSize) c₁.device).status = 0 := by
    rw [hm, (hsame _ _).status, hsel.status]
  refine (writeAccess_ends hsel.toSynced hstatus).imp ?_ fun _ _ h => h.elim
  rintro - c' rfl
  refine ⟨c₁, hsel, ?_⟩
  cases c₁.mapped with
  | true => rw [if_pos rfl, hm]
  | false => rw [if_neg (by decide), ha _ _ hsel.reported]

/-- **A simple read access as a whole.** -/
theorem read_ends {info : PropertyInfo} {offset nBytes : Nat} {fetch : Nat → Device → List UInt8}
    {mapped accessor : Nat → Device → List UInt8} (h : Synced c)
    (hm : ∀ o d, mapped o d = fetch o d) (ha : ∀ o d, accessor o d = fetch o d) :
    Ends (fun r c' => Selected offset c c' ∧ r = fetch (offset % configSize) c'.device)
      (fun e _ => e = .assertion ∧ ¬Fits offset nBytes)
      (checkWindow offset nBytes >>= fun o => readAccess info (mapped o) (accessor o)) c := by
  refine (checkWindow_ends h).bind ?_
  rintro o c₁ ⟨rfl, hsel⟩
  refine (readAccess_ends hsel.toSynced).imp ?_ fun _ _ h => h.elim
  rintro r c' ⟨rfl, rfl⟩
  refine ⟨hsel, ?_⟩
  cases c'.mapped with
  | true => rw [if_pos rfl, hm]
  | false => rw [if_neg (by decide), ha]

/-! ## Accesses -/

/-- How an access ends that is not right: an exception leaves the controller as it may be, a failed
assertion ends the process. -/
def Stops (e : Throw) (c : WciControl) : Prop := e = .assertion ∨ Synced c

/-- `getPropertySequence` of a property with nothing to copy. -/
theorem getSequence_ends {info : PropertyInfo} {host n : Nat} (h : Synced c)
    (hmap : c.mapped) (hread : info.readError) :
    Ends (fun r c' => Selected info.offset c c' ∧
        r = (wordOf (c'.device.load (info.offset % configSize) 4), []))
      (fun e _ => e = .assertion ∧ ¬Fits info.offset n) (getPropertySequence info host n) c := by
  unfold getPropertySequence
  refine (checkWindow_ends h).bind ?_
  rintro o c₁ ⟨rfl, hsel⟩
  rw [ends_read_bind]
  dsimp only
  rw [if_pos (hsel.mapped.trans hmap)]
  refine statusIf_bind hsel.status ?_
  refine statusIf_bind hsel.status ?_
  rw [if_neg (by simp [hread]), if_pos rfl, if_pos hread, throwIf_zero_bind]
  exact ⟨hsel, rfl⟩

/-- `getPropertySequence` leaves the controller synced. -/
theorem getSequence_synced {info : PropertyInfo} {host n : Nat} (h : Synced c) :
    Ends (fun _ c' => Synced c') Stops (getPropertySequence info host n) c := by
  unfold getPropertySequence
  refine ((checkWindow_ends h).imp (fun _ _ h => h) fun _ _ h => Or.inl h.1).bind ?_
  rintro o c₁ ⟨rfl, hsel⟩
  rw [ends_read_bind]
  dsimp only
  have hs := hsel.toSynced
  by_cases hmap : c₁.mapped
  · rw [if_pos hmap]
    refine statusIf_bind hs.status ?_
    refine statusIf_bind hs.status ?_
    rw [if_pos rfl, ite_self, throwIf_zero_bind]
    split
    · split
      · exact Or.inr hs
      · exact hs
    · exact hs
  · rw [if_neg hmap, hs.reported, throwIf_zero_bind]
    split
    · exact Or.inr hs
    · exact hs

/-- The write accesses: what they write at an offset of the window. -/
def Op.write (op : Op) (o : Nat) (d : Device) : Device :=
  match op with
  | .setProperty w _ val | .setValue w _ val => d.store o (scalarBytes w val)
  | .setBytes _ _ _ data => d.store o data
  | .setSequence info _ nItems val =>
    if info.isSequence then (d.store (o + info.align) val).store o (wordBytes nItems)
    else d.store o val
  | .getProperty .. | .getBytes .. | .getSequence .. => d

theorem sameRegisters_write (op : Op) (o : Nat) (d : Device) : SameRegisters d (op.write o d) := by
  cases op with
  | setSequence info host nItems val =>
    simp only [Op.write]
    split
    · exact sameRegisters_store.trans sameRegisters_store
    · exact sameRegisters_store
  | setValue _ _ _ | setProperty _ _ _ | setBytes _ _ _ _ => exact sameRegisters_store
  | getProperty _ _ | getBytes _ _ _ _ | getSequence _ _ _ => exact ⟨rfl, rfl, rfl⟩

/-- How a write access ends. -/
abbrev Writes (op : Op) (offset nBytes : Nat) (m : M Unit) (c : WciControl) : Prop :=
  Ends (fun _ c' => ∃ c₁, Selected offset c c₁ ∧
      c' = { c₁ with device := op.write (offset % configSize) c₁.device })
    (fun e _ => e = .assertion ∧ ¬Fits offset nBytes) m c

theorem setProperty_writes {w : Width} {info : PropertyInfo} {val : Nat} (h : Synced c) :
    Writes (.setProperty w info val) info.offset w.bytes (setProperty w info val) c :=
  write_ends h (sameRegisters_write _) (fun _ _ => rfl) fun _ _ _ => rfl

theorem setPropertyBytes_writes {info : PropertyInfo} {offset host : Nat} (h : Synced c) :
    Writes (.setBytes info offset host data) offset data.length
      (setPropertyBytes info offset host data) c :=
  write_ends h (sameRegisters_write _) (fun o d => setBytes_eq host o data d) fun _ _ _ => rfl

theorem setPropertySequence_writes {info : PropertyInfo} {host nItems : Nat} {val : List UInt8}
    (h : Synced c) :
    Writes (.setSequence info host nItems val) info.offset val.length
      (setPropertySequence info host nItems val) c := by
  unfold setPropertySequence
  by_cases hseq : info.isSequence
  · simp only [if_pos hseq]
    refine write_ends h (sameRegisters_write _) (fun o d => ?_) fun o d hrep => ?_
    · simp only [Op.write]
      rw [if_pos hseq, setBytes_eq]
    · simp only [Op.write]
      rw [if_pos hrep, if_pos hseq]
  · simp only [if_neg hseq]
    refine write_ends h (sameRegisters_write _) (fun o d => ?_) fun o d _ => ?_
    · simp only [Op.write]
      rw [if_neg hseq, setBytes_eq]
    · simp only [Op.write]
      rw [if_neg hseq]

/-- A direct write, or one by the worker. -/
theorem setValue_ends {w : Width} (info : PropertyInfo) {val : Nat} (h : Synced c) :
    Ends (fun _ c' => c' = { c with device := c.device.store info.offset (scalarBytes w val) })
        (fun _ _ => False) (setValue w info val) c ∧ (c.prepareProperty info).isSome ∨
      Writes (.setValue w info val) info.offset w.bytes (setValue w info val) c ∧
        c.prepareProperty info = none := by
  have hcontrol : ¬c.hasControl = false := by
    rw [h.hasControl]
    decide
  unfold setValue
  cases hprep : c.prepareProperty info with
  | some a =>
    have ha : a = info.offset := by
      unfold WciControl.prepareProperty at hprep
      split at hprep
      · exact (Option.some.inj hprep).symm
      · cases hprep
    refine Or.inl ⟨?_, rfl⟩
    rw [ends_read_bind, if_neg hcontrol, hprep, ha]
    rfl
  | none =>
    refine Or.inr ⟨?_, rfl⟩
    unfold Writes
    rw [ends_read_bind, if_neg hcontrol, hprep]
    exact setProperty_writes h

theorem getProperty_ends {w : Width} {info : PropertyInfo} (h : Synced c) :
    Ends (fun r c' => Selected info.offset c c' ∧
        r = c'.device.load (info.offset % configSize) w.bytes)
      (fun e _ => e = .assertion ∧ ¬Fits info.offset w.bytes) (getProperty w info) c :=
  read_ends h (fun _ _ => rfl) fun _ _ => rfl

theorem getPropertyBytes_ends {info : PropertyInfo} {offset host nBytes : Nat} (h : Synced c) :
    Ends (fun r c' => Selected offset c c' ∧ r = c'.device.load (offset % configSize) nBytes)
      (fun e _ => e = .assertion ∧ ¬Fits offset nBytes)
      (getPropertyBytes info offset host nBytes) c :=
  read_ends h (fun o d => getBytes_eq host o nBytes d)
    fun _ _ => rfl

theorem Writes.synced {op : Op} {offset nBytes : Nat} {m : M Unit} (h : Writes op offset nBytes m c)
    {r : Reply} : Ends (fun _ c' => Synced c') Stops (m >>= fun _ => pure r) c := by
  refine (h.imp (fun _ _ h => h) fun _ _ h => Or.inl h.1).bind ?_
  rintro - c' ⟨c₁, hsel, rfl⟩
  exact (sameRegisters_write _ _ _).synced hsel.toSynced

/-- **Every access keeps the invariant.** -/
theorem perform_synced (op : Op) (h : Synced c) :
    Ends (fun _ c' => Synced c') Stops (perform op) c := by
  cases op with
  | setValue w info val =>
    rcases setValue_ends (w := w) info h with ⟨hv, -⟩ | ⟨hv, -⟩
    · refine (hv.imp (fun _ _ h => h) fun _ _ h => h.elim).bind ?_
      rintro - c' rfl
      exact sameRegisters_store.synced h
    · exact hv.synced
  | setProperty w info val => exact (setProperty_writes h).synced
  | getProperty w info =>
    exact ((getProperty_ends h).imp (fun _ _ h => h) fun _ _ h => Or.inl h.1).bind
      fun _ _ hr => hr.1.toSynced
  | setBytes info offset host data => exact (setPropertyBytes_writes h).synced
  | getBytes info offset host nBytes =>
    exact ((getPropertyBytes_ends h).imp (fun _ _ h => h) fun _ _ h => Or.inl h.1).bind
      fun _ _ hr => hr.1.toSynced
  | setSequence info host nItems val => exact (setPropertySequence_writes h).synced
  | getSequence info host n => exact (getSequence_synced h).bind fun _ _ hr => hr

/-! ## Accesses that reach their bytes -/

/-- The condition on an access. -/
def Aimed (c : WciControl) : Op → Prop
  | .setValue w info _ =>
    if (c.prepareProperty info).isSome then c.window = 0 else Fits info.offset w.bytes
  | .setProperty w info _ | .getProperty w info => Fits info.offset w.bytes
  | .setBytes _ offset _ data => Fits offset data.length
  | .getBytes _ offset _ nBytes => Fits offset nBytes
  | .setSequence info _ _ val => Fits info.offset val.length
  | .getSequence info _ n => Fits info.offset n ∧ c.mapped ∧ info.readError ∧
      if info.isSequence then itemCount c.device.memory info * (info.nBits / 8) = 0 else n = 0

instance (c : WciControl) : (op : Op) → Decidable (Aimed c op)
  | .setValue w info _ => inferInstanceAs (Decidable
      (if (c.prepareProperty info).isSome then c.window = 0 else Fits info.offset w.bytes))
  | .setProperty w info _ | .getProperty w info =>
    inferInstanceAs (Decidable (Fits info.offset w.bytes))
  | .setBytes _ offset _ data => inferInstanceAs (Decidable (Fits offset data.length))
  | .getBytes _ offset _ nBytes => inferInstanceAs (Decidable (Fits offset nBytes))
  | .setSequence info _ _ val => inferInstanceAs (Decidable (Fits info.offset val.length))
  | .getSequence info _ n => inferInstanceAs (Decidable (Fits info.offset n ∧ c.mapped = true ∧
      info.readError = true ∧
      if info.isSequence then itemCount c.device.memory info * (info.nBits / 8) = 0 else n = 0))

theorem scalarBytes_length (w : Width) (v : Nat) : (scalarBytes w v).length = w.bytes := by
  simp [scalarBytes]

theorem inside_le {a l : Nat} (hpos : 0 < l) (h : a / configSize = (a + l - 1) / configSize) :
    a % configSize + l ≤ configSize := by
  have hlt := Nat.mod_lt (a + l - 1) configSize_pos
  have h₁ := Nat.div_add_mod a configSize
  have h₂ := Nat.div_add_mod (a + l - 1) configSize
  rw [← h] at h₂
  omega

/-- A write in the selected window. -/
theorem Selected.store {offset nBytes : Nat} {c' : WciControl} (h : Selected offset c c')
    (hfits : Fits offset nBytes) {k : Nat} (hk : offset % configSize + k + data.length ≤ configSize) :
    (c'.device.store (offset % configSize + k) data).memory =
        writeBytes c.device.memory (offset + k) data ∧
      (c'.device.store (offset % configSize + k) data).beyond = c.device.beyond := by
  obtain ⟨hmem, hbey⟩ := store_inside (d := c'.device) hk
  refine ⟨?_, hbey.trans h.beyond⟩
  rw [hmem, h.memory, ← Nat.add_assoc, h.addr hfits]

/-- A read in the selected window. -/
theorem Selected.load {offset nBytes : Nat} {c' : WciControl} (h : Selected offset c c')
    (hfits : Fits offset nBytes) (hk : offset % configSize + len ≤ configSize) :
    c'.device.load (offset % configSize) len = readBytes c.device.memory offset len := by
  rw [load_inside hk, h.memory, h.addr hfits]

/-- What a right access ends with. -/
def Right (c : WciControl) (op : Op) (r : Reply) (c' : WciControl) : Prop :=
  op.Answers c.device.memory (.ok r) ∧ c'.device.memory = op.effect c.device.memory ∧
    c'.device.beyond = c.device.beyond

/-- A write access of the worker. -/
theorem Writes.right {op : Op} {offset nBytes : Nat} {m : M Unit} (h : Writes op offset nBytes m c)
    (hfits : Fits offset nBytes) (hans : op.Answers c.device.memory (.ok .done))
    (hw : ∀ c₁, Selected offset c c₁ →
      (op.write (offset % configSize) c₁.device).memory = op.effect c.device.memory ∧
        (op.write (offset % configSize) c₁.device).beyond = c.device.beyond) :
    Ends (Right c op) (fun _ _ => False) (m >>= fun _ => pure .done) c := by
  refine (h.imp (fun _ _ h => h) fun _ _ h => h.2 hfits).bind ?_
  rintro - c' ⟨c₁, hsel, rfl⟩
  exact ⟨hans, hw c₁ hsel⟩

/-- **An access that meets the condition is right.** -/
theorem perform_right {op : Op} (h : Synced c) (hin : op.Inside c.device.memory)
    (haim : Aimed c op) : Ends (Right c op) (fun _ _ => False) (perform op) c := by
  have hplain : ∀ {offset : Nat} {c₁ : WciControl} {data : List UInt8}, Selected offset c c₁ →
      Fits offset data.length →
      (c₁.device.store (offset % configSize) data).memory = writeBytes c.device.memory offset data ∧
        (c₁.device.store (offset % configSize) data).beyond = c.device.beyond :=
    fun hsel hfits => hsel.store hfits (k := 0) hfits.inside
  cases op with
  | setValue w info val =>
    rcases setValue_ends (w := w) info h with ⟨hv, hprep⟩ | ⟨hv, hprep⟩
    · -- a direct write, while the first window is selected
      have hzero : c.window = 0 := by simpa [Aimed, hprep] using haim
      have hoff : info.offset < configSize := by
        unfold WciControl.prepareProperty at hprep
        split at hprep
        · next hcond => exact hcond.2.2.2.2.2.1
        · cases hprep
      have hpos : 0 < w.bytes := by cases w <;> decide
      have hle : info.offset + w.bytes ≤ configSize := by
        have := inside_le hpos (hin.resolve_left fun h0 => absurd h0 (by
          show w.bytes ≠ 0
          omega))
        rwa [show (Op.setValue w info val).range c.device.memory = (info.offset, w.bytes) from rfl,
          Nat.mod_eq_of_lt hoff] at this
      refine hv.bind ?_
      rintro - c' rfl
      have hlen : info.offset + (scalarBytes w val).length ≤ configSize := by
        rw [scalarBytes_length]
        exact hle
      have hst := store_inside (d := c.device) hlen
      rw [h.register, hzero, Nat.zero_div, Nat.zero_mod, Nat.zero_mul, Nat.zero_add] at hst
      exact ⟨rfl, hst⟩
    · have hfits : Fits info.offset w.bytes := by simpa [Aimed, hprep] using haim
      refine hv.right hfits rfl fun c₁ hsel => hplain hsel ?_
      rwa [scalarBytes_length]
  | setProperty w info val =>
    refine (setProperty_writes h).right haim rfl fun c₁ hsel => hplain hsel ?_
    rw [scalarBytes_length]
    exact haim
  | setBytes info offset host data =>
    exact (setPropertyBytes_writes h).right haim rfl fun c₁ hsel => hplain hsel haim
  | setSequence info host nItems val =>
    refine (setPropertySequence_writes h).right haim rfl fun c₁ hsel => ?_
    simp only [Op.write, Op.effect]
    by_cases hseq : info.isSequence
    · rw [if_pos hseq, if_pos hseq]
      have hle : info.offset % configSize + max 4 (info.align + val.length) ≤ configSize := by
        unfold Op.Inside Op.range at hin
        simp only [if_pos hseq] at hin
        exact inside_le (by omega) (hin.resolve_left (by omega))
      have hlen : info.offset % configSize + info.align + val.length ≤ configSize := by omega
      have hcount : info.offset % configSize + (wordBytes nItems).length ≤ configSize := by
        rw [wordBytes_length]
        omega
      obtain ⟨hmem, hbey⟩ := hsel.store haim (k := info.align) hlen
      have hlast := store_inside (d := c₁.device.store (info.offset % configSize + info.align) val)
        hcount
      rw [hmem, hbey, show (c₁.device.store (info.offset % configSize + info.align) val).window =
        c₁.device.window from rfl, hsel.addr haim] at hlast
      exact hlast
    · rw [if_neg hseq, if_neg hseq]
      exact hplain hsel haim
  | getProperty w info =>
    refine ((getProperty_ends h).imp (fun _ _ h => h) fun _ _ h => h.2 haim).bind ?_
    rintro r c' ⟨hsel, rfl⟩
    refine ⟨?_, hsel.memory, hsel.beyond⟩
    show Except.ok _ = _
    rw [hsel.load haim (Fits.inside haim)]
  | getBytes info offset host nBytes =>
    refine ((getPropertyBytes_ends h).imp (fun _ _ h => h) fun _ _ h => h.2 haim).bind ?_
    rintro r c' ⟨hsel, rfl⟩
    refine ⟨?_, hsel.memory, hsel.beyond⟩
    show Except.ok _ = _
    rw [hsel.load haim (Fits.inside haim)]
  | getSequence info host n =>
    obtain ⟨hfits, hmap, hread, hempty⟩ := haim
    refine ((getSequence_ends h hmap hread).imp (fun _ _ h => h) fun _ _ h => h.2 hfits).bind ?_
    rintro r c' ⟨hsel, rfl⟩
    refine ⟨?_, hsel.memory, hsel.beyond⟩
    simp only [Op.Answers]
    by_cases hseq : info.isSequence
    · rw [if_pos hseq] at hempty ⊢
      have hle : info.offset % configSize + 4 ≤ configSize := by
        unfold Op.Inside Op.range at hin
        simp only [if_pos hseq] at hin
        have := inside_le (by omega) (hin.resolve_left (by omega))
        omega
      rw [if_pos (by omega), hempty, hsel.load hfits hle]
      rfl
    · rw [if_neg hseq] at hempty ⊢
      subst hempty
      exact ⟨_, rfl⟩

theorem accessOk_of_ends {op : Op} (h : Ends (Right c op) (fun _ _ => False) (perform op) c) :
    AccessOk c op := by
  unfold Ends at h
  rcases hm : perform op c with ⟨e | r, c'⟩
  · rw [hm] at h
    exact h.elim
  · rw [hm] at h
    refine ⟨?_, ?_, ?_⟩
    · rw [hm]
      exact h.1
    · rw [hm]
      exact h.2.1
    · rw [hm]
      exact h.2.2

/-! ## Runs -/

variable {mapped : Bool} {memory beyond : Memory}

theorem synced_step {op : Op} {c' : WciControl} (h : Synced c) (hs : step c op = some c') :
    Synced c' := by
  have hend := perform_synced op h
  unfold Ends at hend
  unfold step at hs
  rcases hm : perform op c with ⟨e | r, c₁⟩
  · rw [hm] at hend hs
    cases e with
    | assertion => cases hs
    | readError _ | writeError _ | sequenceError =>
      cases hs
      exact hend.resolve_left (by simp)
  · rw [hm] at hend hs
    cases hs
    exact hend

theorem synced_of_reach (h : Reach step anyStep (created mapped memory beyond) c) : Synced c :=
  h.invariant ⟨rfl, rfl, rfl, by simp [created]⟩ fun _ _ _ hi _ hs => synced_step hi hs

/-- **Every access reaches its own bytes** after any accesses, if it is not one of those that go
wrong. -/
theorem accessOk_of_aimed {op : Op} (h : Reach step anyStep (created mapped memory beyond) c)
    (hin : op.Inside c.device.memory) (haim : Aimed c op) : AccessOk c op :=
  accessOk_of_ends (perform_right (synced_of_reach h) hin haim)

/-- A property of a worker in the examples. -/
def exampleInfo (offset : Nat) (isSequence : Bool) : PropertyInfo :=
  { baseType := .uLong, offset, align := 4, nBits := 32, isSequence, isIndirect := false
    readError := false, writeError := false }

/-- A direct write after accesses in another window and then in the first one. -/
theorem accessOk_direct : ∃ c ∈ exec step (created true (fun _ => 0) fun _ => 0)
      [.getProperty .w32 (exampleInfo (2 ^ 20) false),
       .setBytes (exampleInfo 16 false) 16 3 [1, 2, 3]],
    c.prepareProperty (exampleInfo 8 false) = some 8 ∧
      AccessOk c (.setValue .w32 (exampleInfo 8 false) 7) := by
  refine ⟨_, rfl, by decide, ?_⟩
  have hreach : Reach step anyStep (created true (fun _ => 0) fun _ => 0) _ :=
    reach_of_exec [.getProperty .w32 (exampleInfo (2 ^ 20) false),
      .setBytes (exampleInfo 16 false) 16 3 [1, 2, 3]] rfl
  refine accessOk_of_aimed hreach (Or.inr ?_) ?_
  · decide
  · decide

/-- A direct write to the first window lands in the second one, which the access before selected; a
byte at the end of a window runs into the assertion; an empty sequence cannot be read. -/
theorem access_astray :
    (∃ c op, Reach step anyStep (created true (fun _ => 0) fun _ => 0) c ∧
      op.Inside c.device.memory ∧ (perform op c).2.device.memory 0 = 0 ∧
      (perform op c).2.device.memory (2 ^ 20) = 7 ∧ op.effect c.device.memory 0 = 7 ∧
      ¬AccessOk c op) ∧
    (∃ c op, Reach step anyStep (created true (fun _ => 0) fun _ => 0) c ∧
      op.Inside c.device.memory ∧ step c op = none ∧ ¬AccessOk c op) ∧
    ∃ c op, Reach step anyStep (created true (fun _ => 0) fun _ => 0) c ∧
      op.Inside c.device.memory ∧ (perform op c).1 = .error .sequenceError ∧ ¬AccessOk c op := by
  refine ⟨?_, ?_, ?_⟩
  · refine ⟨_, .setValue .w8 (exampleInfo 0 false) 7,
      reach_of_exec [.getProperty .w32 (exampleInfo (2 ^ 20) false)] rfl, Or.inr (by decide),
      by decide, by decide, by decide, fun hok => ?_⟩
    have h := congrFun hok.memory 0
    exact absurd h (by decide)
  · refine ⟨_, .getProperty .w8 (exampleInfo (2 ^ 20 - 1) false), reach_of_exec [] rfl,
      Or.inr (by decide), by decide, fun hok => ?_⟩
    have h : (Except.error .assertion : Except Throw Reply) = .ok _ := hok.answers
    cases h
  · refine ⟨_, .getSequence (exampleInfo 0 true) 0 64, reach_of_exec [] rfl, Or.inr (by decide),
      by decide, fun hok => ?_⟩
    have h : (Except.error .sequenceError : Except Throw Reply) = .ok _ := hok.answers
    cases h

end OpenCpi.Hdl
