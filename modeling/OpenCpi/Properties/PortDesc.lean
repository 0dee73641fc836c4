import OpenCpi.Container.Port
import OpenCpi.Container.PortDesc

/-!
# A packed descriptor is unpacked

What an encoder of either byte order packs is unpacked to the same descriptor. Any other data is taken or
refused, as long as the length of the endpoint in it is not zero: `getString` subtracts one from it in 32
bits, and then copies four gigabytes from inside the data.
-/

namespace OpenCpi.Container.Packed

open Infra Ior

variable {s : Style} {native order : Bool} {w : Widths}

/-! ## What is packed is unpacked -/

theorem decodes_get32 (v : BitVec 32) : Decodes (get32 native s.little) (put32 s v) v := by
  have h := (@decodes_uLong s native _ v.isLt).map (BitVec.ofNat 32)
  rwa [BitVec.ofNat_toNat, BitVec.setWidth_eq] at h

theorem decodes_get64 (v : BitVec 64) : Decodes (get64 native s.little) (put64 s v) v := by
  have h := (@decodes_uLongLong s native _ v.isLt).map (BitVec.ofNat 64)
  rwa [BitVec.ofNat_toNat, BitVec.setWidth_eq] at h

theorem decodes_getWide : ∀ (wide : Bool) (v : BitVec (bits wide)),
    Decodes (getWide native s.little wide) (putWide s wide v) v
  | true, v => decodes_get64 v
  | false, v => decodes_get32 v

theorem decodes_numbers (d : Numbers w) :
    Decodes (getNumbers native s.little w) (runPuts (putNumbers s d)) d := by
  unfold getNumbers putNumbers
  refine (decodes_get32 _).cons ?_
  refine (decodes_get32 _).cons ?_
  refine (decodes_get32 _).cons ?_
  refine (decodes_get32 _).cons ?_
  refine (decodes_getWide _ _).cons ?_
  refine (decodes_get32 _).cons ?_
  refine (decodes_get32 _).cons ?_
  refine (decodes_getWide _ _).cons ?_
  refine (decodes_get32 _).cons ?_
  refine (decodes_getWide _ _).cons ?_
  refine (decodes_get32 _).cons ?_
  refine (decodes_get32 _).cons ?_
  refine (decodes_getWide _ _).cons ?_
  refine (decodes_getWide _ _).cons ?_
  refine (decodes_get32 _).cons ?_
  refine (decodes_get32 _).cons ?_
  refine (decodes_getWide _ _).cons ?_
  refine (decodes_get64 _).cons ?_
  exact decodes_pure d

/-- One less, in 32 bits. -/
theorem pred_toNat {n : Nat} (h : n + 1 < 2 ^ 32) : (BitVec.ofNat 32 (n + 1) - 1).toNat = n := by
  have hsub : BitVec.ofNat 32 (n + 1) - 1 = BitVec.ofNat 32 n := by
    rw [BitVec.ofNat_add, show (1 : BitVec 32) = BitVec.ofNat 32 1 from rfl, BitVec.add_sub_cancel]
  rw [hsub, BitVec.toNat_ofNat, Nat.mod_eq_of_lt (Nat.lt_of_succ_lt h)]

theorem decodes_assign {v : Bytes} (h : v.length + 1 < 2 ^ 32) :
    Decodes (assign (v.length + 1)) (· ++ (v ++ [0])) (some v) := by
  refine ⟨fun d => List.prefix_append _ _, ?_⟩
  rintro d data ⟨rest, rfl⟩
  have hlen : (d ++ (v ++ [0]) ++ rest).length = d.length + (v.length + 1) + rest.length := by
    simp only [List.length_append, List.length_singleton]
  unfold assign
  dsimp only
  rw [pred_toNat h, if_neg (by omega), if_neg (by omega)]
  rw [List.append_assoc, List.drop_left, List.append_assoc, List.take_left]
  simp only [List.length_append, List.length_singleton]

theorem decodes_getString {v : Bytes} (h : v.length + 1 < 2 ^ 32) :
    Decodes (getString native s.little) (putString s v) (some v) := by
  have hcount : Decodes (getULong native s.little) (putULong s (v.length + 1)) (v.length + 1) :=
    decodes_uLong h
  have hall := Decodes.bind (g := assign) (p := (· ++ (v ++ [0]))) hcount (decodes_assign h)
  have hput : putString s v = fun d => putULong s (v.length + 1) d ++ (v ++ [0]) := by
    funext d
    rw [putString, Nat.mod_eq_of_lt h, List.append_assoc]
  rw [hput]
  exact hall

theorem copy_text (e : Endpoint) : Endpoint.copy e.text e.fits = e := by
  have htake : e.text.takeWhile (· ≠ 0) = e.text := by
    rw [List.takeWhile_eq_self_iff]
    intro c hc
    rw [decide_eq_true_iff]
    rintro rfl
    exact e.noNul hc
  obtain ⟨text, fits, noNul⟩ := e
  simp only [Endpoint.copy, htake]

theorem decodes_endpoint (d : Descriptors w) :
    Decodes (getEndpoint native s.little d.toNumbers)
      (runPuts [putString s d.oep.text, put64 s d.cookie]) (.filled d) := by
  have hfits := d.oep.fits
  unfold getEndpoint
  refine (decodes_getString (by omega)).cons ?_
  dsimp only
  rw [dif_pos hfits, copy_text]
  exact (decodes_get64 d.cookie).cons (decodes_pure _)

theorem decodes_descriptors (d : Descriptors w) :
    Decodes (getDescriptors native w) (runPuts (putBoolean s.little ::
      (putNumbers s d.toNumbers ++ [putString s d.oep.text, put64 s d.cookie]))) (.filled d) := by
  refine (decodes_boolean s.little).cons ?_
  have hput : runPuts (putNumbers s d.toNumbers ++ [putString s d.oep.text, put64 s d.cookie]) =
      fun b => runPuts [putString s d.oep.text, put64 s d.cookie] (runPuts (putNumbers s d.toNumbers) b) := by
    funext b
    exact runPuts_append _ _ _
  rw [hput]
  exact (decodes_numbers d.toNumbers).bind (decodes_endpoint d)

theorem unpack_pack (d : Descriptors w) : unpackPortDesc native w (packPortDesc s d) = .filled d := by
  have h := (@decodes_descriptors s native w d).get [] _ List.prefix_rfl
  unfold unpackPortDesc
  unfold packPortDesc
  rw [List.length_nil] at h
  rw [h]

/-! ## Any data -/

theorem lands_number {swap : Bytes → Bytes} {n : Nat} (hn : 0 < n) (p : Nat) :
    Lands (getNumber native order swap n) .invalidData p (alignUp n p + n) :=
  (lands_skip_take hn p).map fun b => orderedWord native (if order = native then b else swap b)

theorem lands_get32 (p : Nat) : Lands (get32 native order) .invalidData p (alignUp 4 p + 4) :=
  (lands_number (by decide) p).map (BitVec.ofNat 32)

theorem lands_get64 (p : Nat) : Lands (get64 native order) .invalidData p (alignUp 8 p + 8) :=
  (lands_number (by decide) p).map (BitVec.ofNat 64)

theorem lands_getWide : ∀ (wide : Bool) (p : Nat),
    Lands (getWide native order wide) .invalidData p (alignUp (bytes wide) p + bytes wide)
  | true, p => lands_get64 p
  | false, p => lands_get32 p

/-- The widths of the numbers. -/
def numberBytes (w : Widths) : List Nat :=
  [4, 4, 4, 4, bytes w.size64, 4, 4, bytes w.size64, 4, bytes w.size64, 4, 4, bytes w.flag64,
    bytes w.size64, 4, 4, bytes w.flag64, 8]

/-- Where the numbers end. -/
def numbersEnd (w : Widths) : Nat := (numberBytes w).foldl (fun p n => alignUp n p + n) 1

theorem lands_numbers : Lands (getNumbers native order w) .invalidData 1 (numbersEnd w) := by
  unfold getNumbers
  refine (lands_get32 _).bind fun _ => ?_
  refine (lands_get32 _).bind fun _ => ?_
  refine (lands_get32 _).bind fun _ => ?_
  refine (lands_get32 _).bind fun _ => ?_
  refine (lands_getWide _ _).bind fun _ => ?_
  refine (lands_get32 _).bind fun _ => ?_
  refine (lands_get32 _).bind fun _ => ?_
  refine (lands_getWide _ _).bind fun _ => ?_
  refine (lands_get32 _).bind fun _ => ?_
  refine (lands_getWide _ _).bind fun _ => ?_
  refine (lands_get32 _).bind fun _ => ?_
  refine (lands_get32 _).bind fun _ => ?_
  refine (lands_getWide _ _).bind fun _ => ?_
  refine (lands_getWide _ _).bind fun _ => ?_
  refine (lands_get32 _).bind fun _ => ?_
  refine (lands_get32 _).bind fun _ => ?_
  refine (lands_getWide _ _).bind fun _ => ?_
  refine (lands_get64 _).bind fun _ => ?_
  exact lands_pure _ _

/-- Where the text of the endpoint starts, behind its length. -/
def oepStart (w : Widths) : Nat := alignUp 4 (numbersEnd w) + 4

/-- The data gets as far as the length of the endpoint, which is zero, and has no four gigabytes behind
it. -/
structure ZeroLength (w : Widths) (data : Bytes) : Prop where
  order : data.head? = some 0 ∨ data.head? = some 1
  reached : oepStart w ≤ data.length
  zero : (data.drop (alignUp 4 (numbersEnd w))).take 4 = [0, 0, 0, 0]
  behind : data.length < oepStart w + (2 ^ 32 - 1)

theorem wordOf_eq_zero_iff : ∀ {b : Bytes}, wordOf b = 0 ↔ ∀ c ∈ b, c = 0
  | [] => iff_of_true rfl fun _ hc => nomatch hc
  | c :: b => by
    have ih := wordOf_eq_zero_iff (b := b)
    rw [List.forall_mem_cons, ← ih, ← UInt8.toNat_inj, wordOf]
    show _ ↔ c.toNat = 0 ∧ _
    omega

theorem orderedWord_eq_zero_iff {little : Bool} {b : Bytes} : orderedWord little b = 0 ↔ ∀ c ∈ b, c = 0 := by
  unfold orderedWord
  cases little with
  | true => exact wordOf_eq_zero_iff
  | false =>
    refine wordOf_eq_zero_iff.trans ?_
    simp only [Bool.false_eq_true, if_false, List.mem_reverse]

theorem eq_zeros_iff {b : Bytes} (h : b.length = 4) : b = [0, 0, 0, 0] ↔ ∀ c ∈ b, c = 0 := by
  have hzeros : ([0, 0, 0, 0] : Bytes) = List.replicate 4 0 := rfl
  rw [hzeros, List.eq_replicate_iff]
  exact and_iff_right h

/-- The length of the endpoint, when the data gets as far. -/
theorem getULong_long {data : Bytes} {p : Nat} (h : alignUp 4 p + 4 ≤ data.length) :
    ∃ v, getULong native order ⟨data, p⟩ = .ok (v, ⟨data, alignUp 4 p + 4⟩) ∧ v < 2 ^ 32 ∧
      (v = 0 ↔ (data.drop (alignUp 4 p)).take 4 = [0, 0, 0, 0]) := by
  have hlen : ((data.drop (alignUp 4 p)).take 4).length = 4 := by
    rw [List.length_take, List.length_drop]
    omega
  generalize hb : (data.drop (alignUp 4 p)).take 4 = b at hlen
  refine ⟨orderedWord native (if order = native then b else copyswap b), ?_, ?_, ?_⟩
  · unfold getULong getNumber
    rw [get_bind]
    show ((Infra.take .invalidData 4 : Decoder Bytes) ⟨data, alignUp 4 p⟩).bind _ = _
    rw [Infra.take, if_neg (Nat.not_lt.mpr h)]
    dsimp only
    rw [hb]
    rfl
  · have hlt := orderedWord_lt native (if order = native then b else copyswap b)
    have hsame : (if order = native then b else copyswap b).length = 4 := by
      split
      · exact hlen
      · rw [copyswap, List.length_reverse, hlen]
    rwa [hsame] at hlt
  · rw [orderedWord_eq_zero_iff, eq_zeros_iff hlen]
    split
    · exact Iff.rfl
    · simp only [copyswap, List.mem_reverse]

theorem getULong_short {data : Bytes} {p : Nat} (h : data.length < alignUp 4 p + 4) :
    getULong native order ⟨data, p⟩ = .error .invalidData := by
  unfold getULong getNumber
  rw [get_bind]
  show ((Infra.take .invalidData 4 : Decoder Bytes) ⟨data, alignUp 4 p⟩).bind _ = _
  rw [Infra.take, if_pos h]
  rfl

theorem assign_eq_none_iff {length : Nat} {r : Reader} (h : length < 2 ^ 32) (hpos : r.pos ≤ r.data.length) :
    (∃ r', assign length r = .ok (none, r')) ↔ length = 0 ∧ r.data.length < r.pos + (2 ^ 32 - 1) := by
  unfold assign
  cases length with
  | zero =>
    rw [if_neg (by omega)]
    dsimp only
    rw [show (BitVec.ofNat 32 0 - 1).toNat = 2 ^ 32 - 1 from rfl]
    split
    · next hlt => exact iff_of_true ⟨r, rfl⟩ ⟨rfl, hlt⟩
    · next hge => exact iff_of_false (fun ⟨_, h⟩ => by cases h) fun hlt => hge hlt.2
  | succ n =>
    refine iff_of_false ?_ fun hz => absurd hz.1 (Nat.succ_ne_zero n)
    rintro ⟨r', h'⟩
    dsimp only at h'
    rw [pred_toNat h] at h'
    split at h'
    · cases h'
    · rw [if_neg (by omega)] at h'
      cases h'

/-- Whether the endpoint is read outside of the data. -/
theorem getEndpoint_outside_iff {data : Bytes} {numbers : Numbers w} {p : Nat} :
    (∃ r, getEndpoint native order numbers ⟨data, p⟩ = .ok (.outside, r)) ↔
      alignUp 4 p + 4 ≤ data.length ∧ (data.drop (alignUp 4 p)).take 4 = [0, 0, 0, 0] ∧
        data.length < alignUp 4 p + 4 + (2 ^ 32 - 1) := by
  unfold getEndpoint getString
  rw [get_bind, get_bind]
  by_cases hlen : alignUp 4 p + 4 ≤ data.length
  · obtain ⟨v, hv, hlt, hzero⟩ := @getULong_long native order _ _ hlen
    rw [hv]
    show (∃ r, (assign v ⟨data, alignUp 4 p + 4⟩).bind _ = _) ↔ _
    have hnone := assign_eq_none_iff (r := ⟨data, alignUp 4 p + 4⟩) hlt hlen
    rw [and_iff_right hlen, ← hzero, ← hnone]
    rcases assign v ⟨data, alignUp 4 p + 4⟩ with e | ⟨⟨⟩ | oep, r⟩
    · exact iff_of_false (fun ⟨_, h⟩ => by cases h) fun ⟨_, h⟩ => by cases h
    · exact iff_of_true ⟨r, rfl⟩ ⟨r, rfl⟩
    · refine iff_of_false ?_ fun ⟨_, h⟩ => by cases h
      rintro ⟨r', h'⟩
      replace h' : (if h : oep.length + 1 ≤ 256 then
          get64 native order >>= fun cookie =>
            pure (Unpacked.filled { numbers with oep := Endpoint.copy oep h, cookie })
        else pure .refused : Decoder (Unpacked w)) r = .ok (.outside, r') := h'
      split at h'
      · rw [get_bind] at h'
        rcases hc : get64 native order r with e | ⟨cookie, r''⟩
        · rw [hc] at h'
          cases h'
        · rw [hc] at h'
          cases h'
      · cases h'
  · refine iff_of_false ?_ fun h => hlen h.1
    rintro ⟨r, h⟩
    rw [getULong_short (Nat.not_le.mp hlen)] at h
    cases h

theorem getBoolean_eq (data : Bytes) :
    getBoolean ⟨data, 0⟩ = if data.head? = some 0 then .ok (false, ⟨data, 1⟩)
      else if data.head? = some 1 then .ok (true, ⟨data, 1⟩) else .error .invalidData := by
  unfold getBoolean
  rw [get_bind]
  cases data with
  | nil => rfl
  | cons b data =>
    show (if [b] = [0] then _ else if [b] = [1] then _ else _ : Decoder Bool) ⟨b :: data, 1⟩ = _
    rw [List.head?_cons]
    simp only [List.cons.injEq, and_true, Option.some.injEq]
    split
    · rfl
    · split
      · rfl
      · rfl

theorem unpack_outside_iff {data : Bytes} :
    unpackPortDesc native w data = .outside ↔ ZeroLength w data := by
  have hunpack : unpackPortDesc native w data = .outside ↔
      ∃ r, getDescriptors native w ⟨data, 0⟩ = .ok (.outside, r) := by
    unfold unpackPortDesc
    rcases getDescriptors native w ⟨data, 0⟩ with e | ⟨u, r⟩
    · exact iff_of_false (fun h => by cases h) fun ⟨_, h⟩ => by cases h
    · refine ⟨fun h => ⟨r, by rw [show u = .outside from h]⟩, fun ⟨r', h⟩ => ?_⟩
      cases h
      rfl
  have hend (order : Bool) (hone : 1 ≤ data.length) : (∃ r, (getNumbers native order w >>= getEndpoint native order) ⟨data, 1⟩ =
        .ok (.outside, r)) ↔ oepStart w ≤ data.length ∧
          (data.drop (alignUp 4 (numbersEnd w))).take 4 = [0, 0, 0, 0] ∧
          data.length < oepStart w + (2 ^ 32 - 1) := by
    have hnumbers := @lands_numbers native order w
    have hle := le_alignUp (m := 4) (by decide) (numbersEnd w)
    rw [get_bind]
    by_cases hlen : numbersEnd w ≤ data.length
    · obtain ⟨numbers, hn⟩ := hnumbers.long data hlen
      rw [hn]
      exact getEndpoint_outside_iff
    · refine iff_of_false ?_ fun h => hlen (by
        have := h.1
        unfold oepStart at this
        omega)
      rintro ⟨r, h⟩
      rw [hnumbers.short data hone (Nat.not_le.mp hlen)] at h
      cases h
  have hone {b : UInt8} (h : data.head? = some b) : 1 ≤ data.length :=
    List.length_pos_of_mem (List.mem_of_head? h)
  rw [hunpack, getDescriptors, get_bind, getBoolean_eq]
  by_cases hbig : data.head? = some 0
  · rw [if_pos hbig]
    refine (hend false (hone hbig)).trans ⟨fun h => ⟨Or.inl hbig, h.1, h.2.1, h.2.2⟩, fun h => ?_⟩
    exact ⟨h.reached, h.zero, h.behind⟩
  · rw [if_neg hbig]
    by_cases hlittle : data.head? = some 1
    · rw [if_pos hlittle]
      refine (hend true (hone hlittle)).trans ⟨fun h => ⟨Or.inr hlittle, h.1, h.2.1, h.2.2⟩, fun h => ?_⟩
      exact ⟨h.reached, h.zero, h.behind⟩
    · rw [if_neg hlittle]
      exact iff_of_false (fun ⟨_, h⟩ => by cases h) fun h => h.order.elim hbig hlittle

/-- The descriptor as the negotiation of roles knows it. -/
def Descriptors.negotiated (d : Descriptors ⟨false, false⟩) : Container.Descriptors where
  type := d.type.toNat
  role := roleOf d.role.toNat
  options := d.options.toNat
  nBuffers := d.nBuffers.toNat
  dataBufferBaseAddr := d.dataBufferBaseAddr.toNat
  dataBufferPitch := d.dataBufferPitch.toNat
  dataBufferSize := d.dataBufferSize.toNat
  metaDataBaseAddr := d.metaDataBaseAddr.toNat
  metaDataPitch := d.metaDataPitch.toNat
  fullFlagBaseAddr := d.fullFlagBaseAddr.toNat
  fullFlagSize := d.fullFlagSize.toNat
  fullFlagPitch := d.fullFlagPitch.toNat
  fullFlagValue := d.fullFlagValue.toNat
  emptyFlagBaseAddr := d.emptyFlagBaseAddr.toNat
  emptyFlagSize := d.emptyFlagSize.toNat
  emptyFlagPitch := d.emptyFlagPitch.toNat
  emptyFlagValue := d.emptyFlagValue.toNat
  portId := d.portId.toNat
  oep := d.oep.text
  cookie := d.cookie.toNat

/-- What the negotiation packs is packed here, as long as the role is one of the enumeration. -/
theorem packPortDesc_negotiated (d : Descriptors ⟨false, false⟩)
    (h : roleNumber (roleOf d.role.toNat) = d.role.toNat) :
    Container.packPortDesc native d.negotiated = packPortDesc (nativeStyle native) d := by
  unfold Container.packPortDesc packPortDesc Container.Descriptors.words
  rw [show roleNumber d.negotiated.role = d.role.toNat from h]
  rfl

/-- **Packing and unpacking.** What an encoder of either byte order packs is unpacked, on any host; and data
of any kind is taken or refused if and only if it does not have an endpoint of length zero. -/
theorem unpack_ok_iff (native : Bool) (w : Widths) :
    (∀ (little : Bool) (d : Descriptors w),
      unpackPortDesc native w (packPortDesc (nativeStyle little) d) = .filled d) ∧
    ∀ data : Bytes, unpackPortDesc native w data ≠ .outside ↔ ¬ZeroLength w data :=
  ⟨fun _ d => unpack_pack d, fun _ => not_congr unpack_outside_iff⟩

/-- 84 bytes that are all zero: the endpoint has no length. -/
theorem zeros_outside : unpackPortDesc true ⟨false, false⟩ (List.replicate 84 0) = .outside := by
  refine unpack_outside_iff.mpr ⟨Or.inl rfl, by decide, by decide, ?_⟩
  rw [List.length_replicate]
  exact Nat.lt_of_lt_of_le (by decide : 84 < 2 ^ 32 - 1) (Nat.le_add_left _ _)

end OpenCpi.Container.Packed
