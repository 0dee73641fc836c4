import OpenCpi.Wci.PropertyDecoder

/-!
# Decoding the addresses of properties

An access is decoded by its first byte: the decoders of the properties are told how many bytes it has, but
compare none of the others. The lanes of the write data are shifted for accesses of whole values; a byte of a
value that is wider is passed on where it is.
-/

namespace OpenCpi.Wci

/-! ## Accesses -/

/-- An access to the configuration space, with the lanes of the data as the master drives them. -/
structure ConfigAccess where
  write : Bool
  addr : Nat
  size : Nat
  data : BitVec 32
  sizes : size = 1 ∨ size = 2 ∨ size = 4
  aligned : size ∣ addr

namespace ConfigAccess

variable (a : ConfigAccess)

/-- The access that it is. -/
def access : Access := if a.write then .write_e else .read_e

/-- The bytes of an access in its word. -/
def byteEn : Nat := (2 ^ a.size - 1) * 2 ^ (a.addr % 4)

/-- The addressed bytes of the write data. -/
def bytes : BitVec (8 * a.size) := a.data.extractLsb' (8 * (a.addr % 4)) (8 * a.size)

/-- The cycle in which the master presents an access, with the word and the byte enables. -/
structure PresentedIn (c : PropertyCycle) : Prop where
  reset : c.reset = false
  cmd : c.cmd = if a.write then .write else .read
  addrSpace : c.addrSpace = true
  word : c.addr / 4 = a.addr / 4
  byteEn : c.byteEn = a.byteEn
  data : c.data = a.data

/-- The first byte of an access, of those that are decoded. -/
def first (k : PropertyWorker) : Nat := a.addr % 2 ^ k.decodeWidth

/-- A property whose range contains the first byte. -/
def StartsIn (k : PropertyWorker) (p : Property) : Prop := p.offset ≤ a.first k ∧ a.first k ≤ p.last

/-- A property whose range contains all bytes. -/
def Within (p : Property) : Prop := p.offset ≤ a.addr ∧ a.addr + a.size - 1 ≤ p.last

/-- An access that starts a word, or is as wide as the values of a property. -/
def Whole (p : Property) : Prop := a.addr % 4 = 0 ∨ p.dataWidth.bits ≤ 8 * a.size

end ConfigAccess

/-- A property that can be accessed in this way. -/
def ConfigAccess.permits (a : ConfigAccess) (p : Property) : Bool := if a.write then p.writable else p.readable

/-- A cycle in which an access waits for the worker. -/
def Waiting (c : PropertyCycle) : Prop :=
  c.reset = false ∧ decodeAccess c.toCycle = .none_e ∧ c.done = false ∧ c.error = false

/-- **What an access is decoded to** in a cycle, by properties that take an access and shift its data or not. -/
structure DecodedAs (k : PropertyWorker) (a : ConfigAccess) (takes shifts : Property → Prop)
    (d : PropertyDecoder) (c : PropertyCycle) : Prop where
  writes : ∀ p ∈ k.properties, d.writeEnable k c p ↔ a.write ∧ p.writable ∧ takes p
  reads : ∀ p ∈ k.properties, d.readEnable k c p ↔ ¬a.write ∧ p.readable ∧ takes p
  one : k.properties.Pairwise fun p q =>
    ¬((d.writeEnable k c p ∨ d.readEnable k c p) ∧ (d.writeEnable k c q ∨ d.readEnable k c q))
  index : ∀ p ∈ k.properties, takes p → p.stringLength = 0 →
    d.indexOut k c p = (a.first k - p.offset) / (p.dataWidth.bits / 8)
  data : ∀ p ∈ k.properties, takes p → shifts p → (d.dataOut k c p).extractLsb' 0 (8 * a.size) = a.bytes
  refused : (∀ p ∈ k.properties, ¬(takes p ∧ a.permits p)) → c.done ∨ c.error →
    resp k.worker d.toDecoder c.toCycle = .err
  accepted : (∃ p ∈ k.properties, takes p ∧ a.permits p) → c.done → ¬c.error →
    resp k.worker d.toDecoder c.toCycle = .dva
  readback : ∀ (inputs : List (BitVec 32)) (i : Nat) (p : Property), k.properties[i]? = some p →
    d.readEnable k c p → readback (d.readEnables k c) inputs = inputs[i]?

/-! ## Capturing an access -/

variable {k : PropertyWorker} {d : PropertyDecoder} {c : PropertyCycle} {a : ConfigAccess}

/-- The registers hold an access. -/
structure Captured (k : PropertyWorker) (a : ConfigAccess) (d : PropertyDecoder) : Prop where
  access : d.access = a.access
  offset : d.offset = a.first k
  data : d.data = a.data
  nbytes_1 : d.nbytes_1 = a.size - 1

theorem ConfigAccess.access_ne (a : ConfigAccess) : a.access ≠ .none_e := by
  unfold ConfigAccess.access
  cases a.write <;> exact nofun

theorem ConfigAccess.access_beq (a : ConfigAccess) :
    (a.access == .error_e) = false ∧ (a.access == .control_e) = false ∧ (a.access == .read_e) = !a.write ∧
      (a.access == .write_e) = a.write := by
  unfold ConfigAccess.access
  cases a.write <;> exact ⟨rfl, rfl, rfl, rfl⟩

/-- The lanes that an access can start in. -/
theorem ConfigAccess.lanes (a : ConfigAccess) :
    a.size = 1 ∧ (a.addr % 4 = 0 ∨ a.addr % 4 = 1 ∨ a.addr % 4 = 2 ∨ a.addr % 4 = 3) ∨
      a.size = 2 ∧ (a.addr % 4 = 0 ∨ a.addr % 4 = 2) ∨ a.size = 4 ∧ a.addr % 4 = 0 := by
  have haligned := a.aligned
  rcases a.sizes with h | h | h <;> rw [h] at haligned <;> omega

theorem ConfigAccess.byteEn_eq (a : ConfigAccess) :
    be2offset a.byteEn = a.addr % 4 ∧ numBytes_1 a.byteEn = a.size - 1 := by
  unfold ConfigAccess.byteEn
  rcases a.lanes with ⟨hs, h | h | h | h⟩ | ⟨hs, h | h⟩ | ⟨hs, h⟩ <;> rw [hs, h] <;> exact ⟨rfl, rfl⟩

/-- The address is rebuilt from the word and the byte enables. -/
theorem offsetIn_eq (h : a.PresentedIn c) : offsetIn k.worker c.toCycle = a.first k := by
  have hword : c.addr % 2 ^ k.decodeWidth / 4 = a.addr % 2 ^ k.decodeWidth / 4 := by
    obtain ⟨n, hn⟩ := Nat.exists_eq_add_of_le k.two_le
    rw [hn, Nat.pow_add, Nat.mod_mul_right_div_self, Nat.mod_mul_right_div_self, h.word]
  have hlane : a.addr % 2 ^ k.decodeWidth % 4 = a.addr % 4 :=
    Nat.mod_mod_of_dvd _ (Nat.pow_dvd_pow 2 k.two_le)
  unfold offsetIn ConfigAccess.first
  rw [h.byteEn, a.byteEn_eq.1]
  show c.addr % 2 ^ k.decodeWidth / 4 * 4 + a.addr % 4 = _
  rw [hword, ← hlane]
  exact Nat.div_add_mod' _ 4

theorem decodeAccess_presented (h : a.PresentedIn c) : decodeAccess c.toCycle = a.access := by
  unfold decodeAccess ConfigAccess.access
  rw [h.reset, h.cmd, h.addrSpace]
  cases a.write <;> rfl

/-- An access is captured, whatever the registers held. -/
theorem captured_clock (h : a.PresentedIn c) : Captured k a (d.clock k c) := by
  have hcapture : decodeAccess c.toCycle ≠ .none_e := decodeAccess_presented h ▸ a.access_ne
  have hbase : d.toDecoder.clock k.worker c.toCycle =
      { d.toDecoder with
        access := decodeAccess c.toCycle
        controlOp := controlOpIn c.toCycle
        offset := offsetIn k.worker c.toCycle } := by
    unfold Decoder.clock
    rw [h.reset, if_neg Bool.false_ne_true, if_pos hcapture]
  unfold PropertyDecoder.clock
  rw [if_pos hcapture, hbase]
  exact ⟨decodeAccess_presented h, offsetIn_eq h, h.data, h.byteEn ▸ a.byteEn_eq.2⟩

/-- What an access can go wrong by. -/
theorem myError_captured (h : Captured k a d) : myError k.worker d.toDecoder c.toCycle =
    (c.done && !(if a.write then anyWriteEnable k.worker d.toDecoder c.toCycle
      else anyReadEnable k.worker d.toDecoder c.toCycle)) := by
  obtain ⟨herror, hcontrol, hread, hwrite⟩ := a.access_beq
  unfold myError myConfigError
  rw [h.access, herror, hcontrol, hread, hwrite]
  cases a.write <;> simp

/-- It stays in the registers while it waits. -/
theorem Captured.clock (h : Captured k a d) (hw : Waiting c) : Captured k a (d.clock k c) := by
  obtain ⟨hreset, hnone, hdone, herror⟩ := hw
  have hmine : myError k.worker d.toDecoder c.toCycle = false := by
    rw [myError_captured h, hdone, Bool.false_and]
  unfold PropertyDecoder.clock
  rw [if_neg (fun hne => hne hnone)]
  unfold Decoder.clock
  rw [hreset, if_neg Bool.false_ne_true, if_neg (fun hne => hne hnone), hdone, herror, hmine,
    if_neg (by exact Bool.false_ne_true)]
  split
  · exact ⟨h.access, h.offset, h.data, h.nbytes_1⟩
  · exact h

theorem Captured.waits {cs : List PropertyCycle} (h : Captured k a d) (hw : ∀ c ∈ cs, Waiting c) :
    Captured k a (cs.foldl (fun d c => d.clock k c) d) := by
  induction cs generalizing d with
  | nil => exact h
  | cons c cs ih =>
    exact ih (h.clock (hw c List.mem_cons_self)) fun c' hc' => hw c' (List.mem_cons_of_mem _ hc')

/-! ## Decoding it -/

variable {p : Property}

theorem offsetNow_captured (h : Captured k a d) (hreset : c.reset = false) : d.offsetNow k c = a.first k := by
  have hcond : ¬(c.reset = true ∨ d.access = .none_e) := by
    rw [hreset, h.access]
    exact not_or.mpr ⟨Bool.false_ne_true, a.access_ne⟩
  unfold PropertyDecoder.offsetNow myOffset
  rw [if_neg hcond, h.offset]

theorem decode_captured (h : Captured k a d) (hreset : c.reset = false) (hp : p ∈ k.properties) :
    d.decode k c p = true ↔ a.StartsIn k p := by
  have hoffset : myOffset k.worker d.toDecoder c.toCycle = a.first k := offsetNow_captured h hreset
  have hlast : (p.offset + p.bytes_1) % 2 ^ k.decodeWidth = p.last := Nat.mod_eq_of_lt (k.below p hp)
  unfold PropertyDecoder.decode myDecode ConfigAccess.StartsIn
  rw [hoffset, hreset, show k.worker.decodeWidth = k.decodeWidth from rfl, hlast, Bool.not_false, Bool.true_and,
    Bool.and_eq_true, decide_eq_true_iff, decide_eq_true_iff]

theorem first_lt (a : ConfigAccess) (k : PropertyWorker) : a.first k < 2 ^ k.decodeWidth :=
  Nat.mod_lt _ (Nat.two_pow_pos _)

theorem writeEnable_captured (h : Captured k a d) (hreset : c.reset = false) (hp : p ∈ k.properties) :
    d.writeEnable k c p ↔ a.write ∧ p.writable ∧ a.StartsIn k p := by
  unfold PropertyDecoder.writeEnable
  rw [h.access, a.access_beq.2.2.2, Bool.and_eq_true, Bool.and_eq_true, decode_captured h hreset hp, and_assoc]

theorem readEnable_captured (h : Captured k a d) (hreset : c.reset = false) (hp : p ∈ k.properties) :
    d.readEnable k c p ↔ ¬a.write ∧ p.readable ∧ a.StartsIn k p := by
  unfold PropertyDecoder.readEnable
  rw [h.access, a.access_beq.2.2.1, Bool.and_eq_true, Bool.and_eq_true, decode_captured h hreset hp, and_assoc,
    Bool.not_eq_eq_eq_not, Bool.not_true, Bool.not_eq_true]

/-- Disjoint ranges: an access starts in one property only. -/
theorem startsIn_one (k : PropertyWorker) (a : ConfigAccess) :
    k.properties.Pairwise fun p q => ¬(a.StartsIn k p ∧ a.StartsIn k q) :=
  k.disjoint.imp fun hpq ⟨hp, hq⟩ => by
    unfold ConfigAccess.StartsIn at hp hq
    omega

theorem bits_pow : ∀ w : DataWidth, ∃ e, w.bits / 8 = 2 ^ e
  | .w8 => ⟨0, rfl⟩
  | .w16 => ⟨1, rfl⟩
  | .w32 => ⟨2, rfl⟩
  | .w64 => ⟨3, rfl⟩

/-- The index of an element; an element that is as wide as all addresses is the first. -/
theorem indexOut_captured (h : Captured k a d) (hreset : c.reset = false) (hp : p ∈ k.properties)
    (hstarts : a.StartsIn k p) (hscalar : p.stringLength = 0) :
    d.indexOut k c p = (a.first k - p.offset) / (p.dataWidth.bits / 8) := by
  have hlt := first_lt a k
  have hminus : PropertyDecoder.minus k (a.first k) p.offset = a.first k - p.offset := by
    unfold PropertyDecoder.minus
    have hoffset : p.offset < 2 ^ k.decodeWidth := Nat.lt_of_le_of_lt hstarts.1 hlt
    rw [Nat.mod_eq_of_lt hoffset, Nat.add_comm, Nat.add_sub_assoc hstarts.1, Nat.add_mod_left]
    exact Nat.mod_eq_of_lt (Nat.lt_of_le_of_lt (Nat.sub_le _ _) hlt)
  have hbytes : (p.dataWidth.bits + 7) / 8 = p.dataWidth.bits / 8 := by cases p.dataWidth <;> rfl
  unfold PropertyDecoder.indexOut PropertyDecoder.offsetOut PropertyDecoder.elementBytes
  rw [if_pos ((decode_captured h hreset hp).mpr hstarts), offsetNow_captured h hreset, hminus,
    if_neg (fun hne => hne hscalar), hbytes]
  rcases Nat.lt_or_ge (p.dataWidth.bits / 8) (2 ^ k.decodeWidth) with hfits | hwide
  · rw [Nat.mod_eq_of_lt hfits]
  · -- the width wraps to zero, and the quotient by it is the index of the only element
    obtain ⟨e, he⟩ := bits_pow p.dataWidth
    rw [he] at hwide ⊢
    have hdvd : 2 ^ k.decodeWidth ∣ 2 ^ e :=
      Nat.pow_dvd_pow 2 ((Nat.pow_le_pow_iff_right (by decide)).mp hwide)
    rw [Nat.mod_eq_zero_of_dvd hdvd, Nat.div_zero]
    exact (Nat.div_eq_of_lt (by omega)).symm

theorem getLsbD_halves (x y : BitVec 16) (i : Nat) :
    BitVec.getLsbD (w := 32) (x ++ y) i = if i < 16 then y.getLsbD i else x.getLsbD (i - 16) :=
  BitVec.getLsbD_append

theorem getLsbD_bytes (x : BitVec 16) (y z : BitVec 8) (i : Nat) :
    BitVec.getLsbD (w := 32) (x ++ y ++ z) i =
      if i < 8 then z.getLsbD i else if i < 16 then y.getLsbD (i - 8) else x.getLsbD (i - 16) := by
  refine (BitVec.getLsbD_append (x := x ++ y) (y := z)).trans ?_
  rw [BitVec.getLsbD_append]
  split
  · rfl
  · split <;> split <;> first | rfl | omega

/-- The shifted data start with the addressed bytes. -/
theorem shiftData_whole {size lane : Nat} (data : BitVec 32) (w : DataWidth)
    (hlanes : size = 1 ∧ (lane = 0 ∨ lane = 1 ∨ lane = 2 ∨ lane = 3) ∨
      size = 2 ∧ (lane = 0 ∨ lane = 2) ∨ size = 4 ∧ lane = 0)
    (hwhole : lane = 0 ∨ w.bits ≤ 8 * size) :
    (PropertyDecoder.shiftData w data (size - 1) lane).extractLsb' 0 (8 * size) =
      data.extractLsb' (8 * lane) (8 * size) := by
  apply BitVec.eq_of_getLsbD_eq
  intro i hi
  cases w with
  | w8 =>
    rw [PropertyDecoder.shiftData, BitVec.getLsbD_extractLsb', getLsbD_bytes,
      BitVec.getLsbD_extractLsb', Nat.zero_add]
    rcases hlanes with ⟨rfl, rfl | rfl | rfl | rfl⟩ | ⟨rfl, rfl | rfl⟩ | ⟨rfl, rfl⟩ <;>
      simp [hi] <;> grind
  | w16 =>
    rw [PropertyDecoder.shiftData, BitVec.getLsbD_extractLsb', getLsbD_halves,
      BitVec.getLsbD_extractLsb', Nat.zero_add]
    rcases hlanes with ⟨rfl, rfl | rfl | rfl | rfl⟩ | ⟨rfl, rfl | rfl⟩ | ⟨rfl, rfl⟩ <;>
      simp [hi, DataWidth.bits] at hwhole ⊢ <;> grind
  | w32 | w64 =>
    have hlane : lane = 0 := by
      dsimp only [DataWidth.bits] at hwhole
      omega
    rw [PropertyDecoder.shiftData, hlane]
theorem dataOut_captured (h : Captured k a d) (hreset : c.reset = false) (hwhole : a.Whole p) :
    (d.dataOut k c p).extractLsb' 0 (8 * a.size) = a.bytes := by
  have hne : ¬d.access = .none_e := h.access ▸ a.access_ne
  have hlane : a.first k % 4 = a.addr % 4 := Nat.mod_mod_of_dvd _ (Nat.pow_dvd_pow 2 k.two_le)
  unfold PropertyDecoder.dataOut PropertyDecoder.myData PropertyDecoder.myNbytes_1
  rw [if_neg hne, if_neg hne, h.data, h.nbytes_1, offsetNow_captured h hreset, hlane]
  exact shiftData_whole a.data p.dataWidth a.lanes hwhole

/-! ## Answering it -/

theorem anyEnable_captured (h : Captured k a d) (hreset : c.reset = false) :
    (if a.write then anyWriteEnable k.worker d.toDecoder c.toCycle
      else anyReadEnable k.worker d.toDecoder c.toCycle) = true ↔
      ∃ p ∈ k.properties, a.StartsIn k p ∧ a.permits p := by
  have hany : (if a.write then anyWriteEnable k.worker d.toDecoder c.toCycle
      else anyReadEnable k.worker d.toDecoder c.toCycle) =
      k.properties.any fun p => a.permits p && d.decode k c p := by
    unfold anyWriteEnable anyReadEnable PropertyWorker.worker ConfigAccess.permits
    rw [List.any_map, List.any_map]
    cases a.write <;> rfl
  rw [hany, List.any_eq_true]
  refine exists_congr fun p => and_congr_right fun hp => ?_
  rw [Bool.and_eq_true, decode_captured h hreset hp, and_comm]

theorem resp_refused (h : Captured k a d) (hreset : c.reset = false)
    (hnone : ∀ p ∈ k.properties, ¬(a.StartsIn k p ∧ a.permits p)) (hend : c.done ∨ c.error) :
    resp k.worker d.toDecoder c.toCycle = .err := by
  have hany := (anyEnable_captured h hreset).not.mpr fun ⟨p, hp, htakes⟩ => hnone p hp htakes
  have herror : (c.error || myError k.worker d.toDecoder c.toCycle) = true := by
    rw [myError_captured h, Bool.eq_false_iff.mpr hany, Bool.not_false, Bool.and_true, Bool.or_eq_true]
    exact hend.symm
  unfold resp
  rw [if_pos ⟨h.access ▸ a.access_ne, herror⟩]

theorem resp_accepted (h : Captured k a d) (hreset : c.reset = false)
    (htakes : ∃ p ∈ k.properties, a.StartsIn k p ∧ a.permits p) (hdone : c.done) (herror : ¬c.error) :
    resp k.worker d.toDecoder c.toCycle = .dva := by
  have hmine : myError k.worker d.toDecoder c.toCycle = false := by
    rw [myError_captured h, (anyEnable_captured h hreset).mpr htakes, Bool.not_true, Bool.and_false]
  have hne : d.access ≠ .none_e := h.access ▸ a.access_ne
  unfold resp
  rw [hmine, Bool.eq_false_iff.mpr herror, hdone, if_neg (fun hbad => Bool.false_ne_true hbad.2)]
  exact if_pos ⟨hne, rfl, rfl, rfl⟩

/-! ## Reading back -/

theorem firstTrue_eq {bools : List Bool} {i : Nat} (hi : i < bools.length) (htrue : bools[i] = true)
    (hbefore : ∀ j (hj : j < i), bools[j] = false) : firstTrue bools = i := by
  have hfind : bools.findIdx id = i := (List.findIdx_eq hi).mpr ⟨htrue, hbefore⟩
  unfold firstTrue
  rw [hfind, if_pos hi]

theorem readback_captured (h : Captured k a d) (hreset : c.reset = false) {i : Nat}
    (hi : k.properties[i]? = some p) (hp : d.readEnable k c p) (inputs : List (BitVec 32)) :
    readback (d.readEnables k c) inputs = inputs[i]? := by
  obtain ⟨hlt, hget⟩ := List.getElem?_eq_some_iff.mp hi
  have hlength : (d.readEnables k c).length = k.properties.length := List.length_map _
  have hstarts := ((readEnable_captured h hreset (hget ▸ List.getElem_mem hlt)).mp hp).2.2
  unfold readback
  rw [firstTrue_eq (hlength ▸ hlt)]
  · exact (List.getElem_map _).trans ((congrArg _ hget).trans hp)
  · intro j hj
    have hjlt : j < k.properties.length := Nat.lt_trans hj hlt
    refine (List.getElem_map _).trans (Bool.eq_false_iff.mpr fun hq => ?_)
    have hstarts' := ((readEnable_captured h hreset (List.getElem_mem hjlt)).mp hq).2.2
    have hpair := List.pairwise_iff_getElem.mp (startsIn_one k a) j i hjlt hlt hj
    rw [hget] at hpair
    exact hpair ⟨hstarts', hstarts⟩

/-! ## The decoder -/

theorem decodedAs_captured (h : Captured k a d) (hreset : c.reset = false) :
    DecodedAs k a (a.StartsIn k) a.Whole d c where
  writes _ hp := writeEnable_captured h hreset hp
  reads _ hp := readEnable_captured h hreset hp
  one := (startsIn_one k a).imp_of_mem fun hp hq hone ⟨hep, heq⟩ =>
    have starts {p : Property} (hp : p ∈ k.properties) (he : d.writeEnable k c p ∨ d.readEnable k c p) :
        a.StartsIn k p :=
      he.elim (fun hw => ((writeEnable_captured h hreset hp).mp hw).2.2)
        fun hr => ((readEnable_captured h hreset hp).mp hr).2.2
    hone ⟨starts hp hep, starts hq heq⟩
  index _ hp hstarts hscalar := indexOut_captured h hreset hp hstarts hscalar
  data _ _ _ hwhole := dataOut_captured h hreset hwhole
  refused hnone hend := resp_refused h hreset hnone hend
  accepted htakes hdone herror := resp_accepted h hreset htakes hdone herror
  readback inputs _ _ hi hp := readback_captured h hreset hi hp inputs

/-- **Every access is decoded by its first byte**, whatever the registers held before it and however long it
waits; the data are shifted for the accesses that start a word or are as wide as a value. -/
theorem access_decoded (k : PropertyWorker) (a : ConfigAccess) (d : PropertyDecoder) (cs : List PropertyCycle)
    (hpresented : a.PresentedIn c) (hwait : ∀ c' ∈ cs, Waiting c') {c' : PropertyCycle}
    (hreset : c'.reset = false) :
    DecodedAs k a (a.StartsIn k) a.Whole (cs.foldl (fun d c => d.clock k c) (d.clock k c)) c' :=
  decodedAs_captured ((captured_clock hpresented).waits hwait) hreset

/-- A worker with one property of so many bytes at the start. -/
def oneProperty (bytes_1 : Nat) (width : DataWidth) (h : bytes_1 < 2 ^ 4) : PropertyWorker where
  decodeWidth := 4
  rawPropertyBase := 0
  allowedOps := 0
  properties := [⟨⟨0, bytes_1, true, true⟩, width, 0⟩]
  two_le := by decide
  below _ hp := by
    rw [List.mem_singleton.mp hp]
    show 0 + bytes_1 < 2 ^ 4
    omega
  disjoint := List.pairwise_singleton _ _

/-- A write of all bytes of the first word, and one of its second byte. -/
def writeWord : ConfigAccess := ⟨true, 0, 4, 0x44332211, by decide, by decide⟩

def writeByte : ConfigAccess := ⟨true, 1, 1, 0x44332211, by decide, by decide⟩

/-- The cycle in which a write is presented, and one in which nothing is. -/
def writeCycle (byteEn : Nat) : PropertyCycle :=
  ⟨⟨false, .write, true, 0, byteEn, false, false, false⟩, 0x44332211⟩

def idleCycle (done : Bool) : PropertyCycle := ⟨⟨false, .idle, false, 0, 0, done, false, false⟩, 0⟩

/-- Registers after a reset. -/
def resetDecoder : PropertyDecoder := ⟨⟨.none_e, .no_op_e, .initialized_e, 0⟩, 0, 0, false⟩

/-- A write of a word waits for a cycle and is done. -/
theorem access_decoded_word :
    DecodedAs (oneProperty 3 .w32 (by decide)) writeWord
      (writeWord.StartsIn (oneProperty 3 .w32 (by decide))) writeWord.Whole
      ([idleCycle false].foldl (fun d c => d.clock (oneProperty 3 .w32 (by decide)) c)
        (resetDecoder.clock (oneProperty 3 .w32 (by decide)) (writeCycle 0b1111))) (idleCycle true) :=
  access_decoded (oneProperty 3 .w32 (by decide)) writeWord resetDecoder [idleCycle false]
    ⟨rfl, rfl, rfl, rfl, rfl, rfl⟩ (fun c hc => List.mem_singleton.mp hc ▸ ⟨rfl, rfl, rfl, rfl⟩) rfl

/-- A write of a word is taken by a property of a byte; and a write of the second byte of a value of two bytes
has the first byte of the data. -/
theorem access_misdecoded :
    ¬DecodedAs (oneProperty 0 .w8 (by decide)) writeWord writeWord.Within (fun _ => True)
        (resetDecoder.clock (oneProperty 0 .w8 (by decide)) (writeCycle 0b1111)) (idleCycle true) ∧
      ¬DecodedAs (oneProperty 1 .w16 (by decide)) writeByte writeByte.Within (fun _ => True)
        (resetDecoder.clock (oneProperty 1 .w16 (by decide)) (writeCycle 0b0010)) (idleCycle true) := by
  constructor
  · intro h
    have hwrites := h.writes _ List.mem_cons_self
    have htakes : writeWord.Within ⟨⟨0, 0, true, true⟩, .w8, 0⟩ := (hwrites.mp (by decide)).2.2
    exact absurd htakes.2 (by decide)
  · intro h
    have hdata := h.data _ List.mem_cons_self ⟨by decide, by decide⟩ trivial
    exact absurd hdata (by decide)

end OpenCpi.Wci
