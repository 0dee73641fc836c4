import OpenCpi.Infra.Bytes

/-!
# Lists of writes

What a list of writes leaves in memory: at each address the byte of the last write there, or what was there
before.
-/

namespace OpenCpi.Infra

/-- Some bytes for an address. -/
structure Write where
  addr : Nat
  data : List UInt8
deriving DecidableEq, Repr

variable {memory : Memory} {ws ws' : List Write} {a : Nat}

/-- The writes are performed in order. -/
def writeAll (memory : Memory) (ws : List Write) : Memory :=
  ws.foldl (fun memory w => writeBytes memory w.addr w.data) memory

/-- The byte of one write at an address. -/
def Write.byteAt (w : Write) (a : Nat) : Option UInt8 := if a < w.addr then none else w.data[a - w.addr]?

/-- The byte of the last write at an address. -/
def lastByte : List Write → Nat → Option UInt8
  | [], _ => none
  | w :: ws, a => (lastByte ws a).or (w.byteAt a)

theorem writeAll_append (memory : Memory) (ws ws' : List Write) :
    writeAll memory (ws ++ ws') = writeAll (writeAll memory ws) ws' := List.foldl_append

theorem writeBytes_apply (memory : Memory) (w : Write) (a : Nat) :
    writeBytes memory w.addr w.data a = (w.byteAt a).getD (memory a) := by
  unfold writeBytes Write.byteAt
  by_cases hlt : a < w.addr
  · rw [if_neg (by omega), if_pos hlt]
    rfl
  · rw [if_neg hlt]
    by_cases hin : a < w.addr + w.data.length
    · rw [if_pos ⟨by omega, hin⟩, List.getD_eq_getElem?_getD]
      have hk : a - w.addr < w.data.length := by omega
      rw [List.getElem?_eq_getElem hk]
      rfl
    · rw [if_neg (by omega), List.getElem?_eq_none (by omega)]
      rfl

/-- **What a list of writes leaves.** -/
theorem writeAll_apply : ∀ (ws : List Write) (memory : Memory) (a : Nat),
    writeAll memory ws a = (lastByte ws a).getD (memory a)
  | [], _, _ => rfl
  | w :: ws, memory, a => by
    have ih := writeAll_apply ws (writeBytes memory w.addr w.data) a
    rw [writeBytes_apply] at ih
    show writeAll (writeBytes memory w.addr w.data) ws a = _
    rw [ih, lastByte]
    cases lastByte ws a <;> rfl

/-- Nothing changes if and only if the last bytes are there already. -/
theorem writeAll_eq_self_iff :
    writeAll memory ws = memory ↔ ∀ a b, lastByte ws a = some b → memory a = b := by
  constructor
  · intro h a b hb
    have ha := writeAll_apply ws memory a
    rw [h, hb] at ha
    exact ha
  · intro h
    funext a
    rw [writeAll_apply]
    cases hb : lastByte ws a with
    | none => rfl
    | some b => exact (h a b hb).symm

theorem lastByte_append (ws ws' : List Write) (a : Nat) :
    lastByte (ws ++ ws') a = (lastByte ws' a).or (lastByte ws a) := by
  induction ws with
  | nil => rw [List.nil_append, lastByte, Option.or_none]
  | cons w ws ih => rw [List.cons_append, lastByte, ih, lastByte, Option.or_assoc]

theorem Write.byteAt_add (w : Write) (k : Nat) : w.byteAt (w.addr + k) = w.data[k]? := by
  rw [Write.byteAt, if_neg (by omega), Nat.add_sub_cancel_left]

/-- A byte of one of the writes is followed by another one, or is the last. -/
theorem isSome_lastByte {w : Write} (hw : w ∈ ws) {b : UInt8} (hb : w.byteAt a = some b) :
    (lastByte ws a).isSome = true := by
  induction ws with
  | nil => cases hw
  | cons v ws ih =>
    rw [lastByte, Option.isSome_or, Bool.or_eq_true]
    rcases List.mem_cons.mp hw with rfl | hw
    · right
      rw [hb]
      rfl
    · exact .inl (ih hw)

/-- A write is in memory after all of them if and only if its bytes are the last ones. -/
theorem readBytes_writeAll_iff {w : Write} (hw : w ∈ ws) :
    readBytes (writeAll memory ws) w.addr w.data.length = w.data ↔
      ∀ k b, w.data[k]? = some b → lastByte ws (w.addr + k) = some b := by
  have hread : ∀ k, k < w.data.length →
      (readBytes (writeAll memory ws) w.addr w.data.length)[k]? = lastByte ws (w.addr + k) := by
    intro k hk
    have hsome : (lastByte ws (w.addr + k)).isSome = true :=
      isSome_lastByte hw ((w.byteAt_add k).trans (List.getElem?_eq_getElem hk))
    obtain ⟨b, hb⟩ := Option.isSome_iff_exists.mp hsome
    rw [readBytes, List.getElem?_map, List.getElem?_range hk, Option.map_some, writeAll_apply, hb]
    rfl
  constructor
  · intro h k b hb
    obtain ⟨hk, -⟩ := List.getElem?_eq_some_iff.mp hb
    rw [← hread k hk, h, hb]
  · intro h
    refine List.ext_getElem? fun k => ?_
    by_cases hk : k < w.data.length
    · rw [hread k hk, h k w.data[k] (List.getElem?_eq_getElem hk), List.getElem?_eq_getElem hk]
    · rw [List.getElem?_eq_none (by rw [readBytes_length]; omega), List.getElem?_eq_none (by omega)]

/-! ## Writes that do not overlap -/

def Write.Apart (w w' : Write) : Prop :=
  w.addr + w.data.length ≤ w'.addr ∨ w'.addr + w'.data.length ≤ w.addr

theorem Write.Apart.byteAt_eq_none {w w' : Write} (h : w.Apart w') {b : UInt8}
    (hb : w.byteAt a = some b) : w'.byteAt a = none := by
  unfold Write.byteAt at hb ⊢
  split at hb
  · cases hb
  · next hge =>
    obtain ⟨hk, -⟩ := List.getElem?_eq_some_iff.mp hb
    unfold Write.Apart at h
    split
    · rfl
    · exact List.getElem?_eq_none (by omega)

theorem lastByte_eq_none {w : Write} {b : UInt8} (hb : w.byteAt a = some b) (h : ∀ w' ∈ ws, w.Apart w') :
    lastByte ws a = none := by
  induction ws with
  | nil => rfl
  | cons v ws ih =>
    rw [lastByte, ih fun w' hw' => h w' (List.mem_cons_of_mem _ hw'), Option.none_or]
    exact (h v List.mem_cons_self).byteAt_eq_none hb

/-- The byte of a write is the last one at its address when the others do not overlap it. -/
theorem lastByte_of_pairwise {w : Write} {b : UInt8} (hpair : ws.Pairwise Write.Apart) (hw : w ∈ ws)
    (hb : w.byteAt a = some b) : lastByte ws a = some b := by
  induction ws with
  | nil => cases hw
  | cons v ws ih =>
    obtain ⟨hv, hpair⟩ := List.pairwise_cons.mp hpair
    rw [lastByte]
    rcases List.mem_cons.mp hw with rfl | hw
    · rw [lastByte_eq_none hb hv, hb, Option.none_or]
    · rw [ih hpair hw]
      rfl

end OpenCpi.Infra
