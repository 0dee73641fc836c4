import OpenCpi.Net.Registers
import OpenCpi.Properties.HdlWci
import OpenCpi.Properties.NetDevice

/-!
# Access over a network is access in memory, within 24 bits of address

A request has the low 24 bits of an offset only. Where the offset and the bytes that are accessed stay within
the first 2^24 bytes of the memory, every form of `Net::Device` does what the form of `Access` does. The
network splits an access at words, with bytes enabled in the first and in the last one, and `Access` splits
it by the alignment of both sides; both come to the bytes in order.
-/

namespace OpenCpi.Net

open Infra (Memory readBytes writeBytes)

variable {junk memory : Memory} {status : Bool} {offset n i : Nat}

/-- The bytes that an address in a request can tell apart. -/
def spaceSize : Nat := 2 ^ 24

/-! ## Programs -/

theorem runOn_bind {α β : Type} {f : α → Prog β} : ∀ (p : Prog α) (memory : Memory),
    runOn junk (p >>= f) memory =
      runOn junk (f (runOn junk p memory).1) (runOn junk p memory).2
  | .ret _, _ => rfl
  | .ask a k, memory => runOn_bind (k (serve junk memory a).1) (serve junk memory a).2

theorem runOn_get (offset n : Nat) : runOn junk (get offset n status) memory =
    ((readWord junk memory ⟨.read, offset, n, 0, status⟩, 0), memory) := rfl

theorem runOn_set (offset n : Nat) (data : BitVec 32) : runOn junk (set offset n data status) memory =
    (0, writeWord memory ⟨.write, offset, n, data, status⟩) := rfl

/-! ## Words -/

/-- The bytes that are enabled are those of the access. -/
theorem enabled_eq {a : Access} (h : a.offset % 4 + a.bytes ≤ 4) (hi : i < 4) :
    enabled a i = decide (a.offset % 4 ≤ i ∧ i < a.offset % 4 + a.bytes) := by
  have hall : ∀ n < 5, ∀ r < 4, ∀ i < 4, r + n ≤ 4 →
      ((2 ^ n - 1) * 2 ^ r % 16).testBit i = decide (r ≤ i ∧ i < r + n) := by decide
  exact hall a.bytes (by omega) (a.offset % 4) (Nat.mod_lt _ (by decide)) i hi h

/-- Byte `i` of a word that is put together from bytes. -/
theorem byteOf_lanes (b : Nat → BitVec 8) (hi : i < 4) : byteOf (b 3 ++ b 2 ++ b 1 ++ b 0) i = b i := by
  refine BitVec.eq_of_getLsbD_eq fun k hk => ?_
  simp only [byteOf, BitVec.getLsbD_extractLsb', BitVec.getLsbD_append, hk, decide_true, Bool.true_and]
  match i, hi with
  | 0, _ =>
    rw [if_pos (by omega)]
    congr 1
    omega
  | 1, _ =>
    rw [if_neg (by omega), if_pos (by omega)]
    congr 1
    omega
  | 2, _ =>
    rw [if_neg (by omega), if_neg (by omega), if_pos (by omega)]
    congr 1
    omega
  | 3, _ =>
    rw [if_neg (by omega), if_neg (by omega), if_neg (by omega)]
    congr 1
    omega

/-- What a request reads at an enabled byte. -/
theorem byteOf_readWord {a : Access} (h : a.offset % 4 + a.bytes ≤ 4) (hi : i < a.bytes) :
    byteOf (readWord junk memory a) (a.offset % 4 + i) =
      (memory (address a.offset + (a.offset % 4 + i))).toBitVec := by
  have hlt : a.offset % 4 + i < 4 := by omega
  have hlane := byteOf_lanes
    (fun i => (if enabled a i then memory (address a.offset + i) else junk i).toBitVec) hlt
  refine hlane.trans ?_
  rw [enabled_eq h hlt, if_pos (by rw [decide_eq_true_iff]; omega)]

/-- What a request writes. -/
theorem writeWord_eq {a : Access} (h : a.offset % 4 + a.bytes ≤ 4) :
    writeWord memory a = writeBytes memory (address a.offset + a.offset % 4)
      ((List.range a.bytes).map fun i => UInt8.ofBitVec (byteOf a.data (a.offset % 4 + i))) := by
  funext addr
  unfold writeWord writeBytes
  dsimp only
  rw [List.length_map, List.length_range]
  by_cases hin : address a.offset + a.offset % 4 ≤ addr ∧
      addr < address a.offset + a.offset % 4 + a.bytes
  · have hlt : addr - address a.offset < 4 := by omega
    rw [if_pos hin, if_pos ⟨by omega, hlt, by rw [enabled_eq h hlt, decide_eq_true_iff]; omega⟩]
    have hk : addr - (address a.offset + a.offset % 4) < a.bytes := by omega
    rw [List.getD_eq_getElem?_getD, List.getElem?_map, List.getElem?_range hk]
    show _ = UInt8.ofBitVec _
    congr 2
    omega
  · rw [if_neg hin, if_neg]
    rintro ⟨hle, hlt, hen⟩
    rw [enabled_eq h hlt, decide_eq_true_iff] at hen
    omega

/-- Within the space, the bytes of a word are those at the offset. -/
theorem address_add_mod (offset : Nat) : address offset + offset % 4 = offset % spaceSize := by
  unfold address spaceSize
  omega

/-! ## Values and their bytes -/

/-- Two values with the same bytes are equal. -/
theorem eq_of_bytes {v w : BitVec (8 * n)}
    (h : ∀ i < n, v.extractLsb' (8 * i) 8 = w.extractLsb' (8 * i) 8) : v = w := by
  refine BitVec.eq_of_getLsbD_eq fun k hk => ?_
  have hbyte := congrArg (fun b : BitVec 8 => b.getLsbD (k % 8)) (h (k / 8) (by omega))
  simp only [BitVec.getLsbD_extractLsb'] at hbyte
  have hmod : k % 8 < 8 := by omega
  have hsum : 8 * (k / 8) + k % 8 = k := by omega
  simpa [hmod, hsum] using hbyte

theorem load_byte : ∀ (n offset i : Nat), i < n →
    (load n memory offset).extractLsb' (8 * i) 8 = (memory (offset + i)).toBitVec
  | 0, _, _, h => absurd h (Nat.not_lt_zero _)
  | n + 1, offset, i, h => by
    refine BitVec.eq_of_getLsbD_eq fun k hk => ?_
    show ((load n memory (offset + 1) ++ (memory offset).toBitVec).extractLsb' (8 * i) 8).getLsbD k = _
    simp only [BitVec.getLsbD_extractLsb', BitVec.getLsbD_append, hk, decide_true, Bool.true_and]
    cases i with
    | zero =>
      rw [if_pos (by omega)]
      congr 1
      omega
    | succ j =>
      have hrec := congrArg (fun b : BitVec 8 => b.getLsbD k) (load_byte n (offset + 1) j (by omega))
      simp only [BitVec.getLsbD_extractLsb', hk, decide_true, Bool.true_and] at hrec
      rw [if_neg (by omega), show 8 * (j + 1) + k - 8 = 8 * j + k by omega, hrec,
        show offset + 1 + j = offset + (j + 1) by omega]

/-- A value that is moved down and cut off, byte by byte. -/
theorem extract_shiftRight (w : BitVec 32) {r : Nat} (hi : i < n) :
    ((w >>> (r * 8)).setWidth (8 * n)).extractLsb' (8 * i) 8 = byteOf w (r + i) := by
  refine BitVec.eq_of_getLsbD_eq fun k hk => ?_
  simp only [byteOf, BitVec.getLsbD_extractLsb', BitVec.getLsbD_setWidth, BitVec.getLsbD_ushiftRight, hk,
    decide_true, Bool.true_and]
  rw [decide_eq_true (by omega), Bool.true_and]
  congr 1
  omega

/-- A value that is moved up into a word, byte by byte. -/
theorem byteOf_shiftLeft (v : BitVec (8 * n)) {r : Nat} (h : r + n ≤ 4) (hi : i < n) :
    byteOf (v.setWidth 32 <<< (r * 8)) (r + i) = v.extractLsb' (8 * i) 8 := by
  refine BitVec.eq_of_getLsbD_eq fun k hk => ?_
  simp only [byteOf, BitVec.getLsbD_extractLsb', BitVec.getLsbD_shiftLeft, BitVec.getLsbD_setWidth, hk,
    decide_true, Bool.true_and]
  rw [decide_eq_true (by omega), decide_eq_false (by omega), decide_eq_true (by omega)]
  simp only [Bool.true_and, Bool.not_false]
  congr 1
  omega

/-- Two words, one above the other, byte by byte. -/
theorem extract_append (hi lo : BitVec 32) (i : Nat) : (hi ++ lo).extractLsb' (8 * i) 8 =
    if i < 4 then lo.extractLsb' (8 * i) 8 else hi.extractLsb' (8 * (i - 4)) 8 := by
  refine BitVec.eq_of_getLsbD_eq fun k hk => ?_
  by_cases hlow : i < 4
  · rw [if_pos hlow]
    simp only [BitVec.getLsbD_extractLsb', BitVec.getLsbD_append, hk, decide_true, Bool.true_and]
    rw [if_pos (by omega)]
  · rw [if_neg hlow]
    simp only [BitVec.getLsbD_extractLsb', BitVec.getLsbD_append, hk, decide_true, Bool.true_and]
    rw [if_neg (by omega)]
    congr 1
    omega

theorem load_two (memory : Memory) (a : Nat) :
    load 4 memory (a + 4) ++ load 4 memory a = load 8 memory a := by
  refine eq_of_bytes (n := 8) fun i hi => ?_
  rw [load_byte 8 a i hi, extract_append]
  by_cases hlow : i < 4
  · rw [if_pos hlow]
    exact load_byte 4 a i hlow
  · rw [if_neg hlow]
    refine (load_byte 4 (a + 4) (i - 4) (by omega)).trans ?_
    congr 2
    omega

theorem store_two (memory : Memory) (a : Nat) (val : BitVec 64) :
    store 4 (store 4 memory a (val.setWidth 32)) (a + 4) ((val >>> 32).setWidth 32) =
      store 8 memory a val := by
  unfold store
  have hlen : a + 4 = a + ((List.range 4).map fun i =>
      UInt8.ofBitVec ((val.setWidth 32).extractLsb' (8 * i) 8)).length := by
    rw [List.length_map, List.length_range]
  rw [hlen]
  refine Infra.writeBytes_append.trans ?_
  congr 1
  have hrange : List.range 8 = List.range 4 ++ (List.range 4).map (4 + ·) := rfl
  rw [hrange, List.map_append, List.map_map]
  congr 1
  · refine List.map_congr_left fun i hi => ?_
    congr 1
    refine BitVec.eq_of_getLsbD_eq fun k hk => ?_
    have := List.mem_range.mp hi
    simp only [BitVec.getLsbD_extractLsb', BitVec.getLsbD_setWidth, hk, decide_true, Bool.true_and]
    rw [decide_eq_true (by omega), Bool.true_and]
  · refine List.map_congr_left fun i hi => ?_
    rw [Function.comp_apply]
    congr 1
    refine BitVec.eq_of_getLsbD_eq fun k hk => ?_
    have := List.mem_range.mp hi
    simp only [BitVec.getLsbD_extractLsb', BitVec.getLsbD_setWidth, BitVec.getLsbD_ushiftRight, hk,
      decide_true, Bool.true_and]
    rw [decide_eq_true (by omega), Bool.true_and]
    congr 1
    omega

/-- The bytes of a word that is put together from a buffer. -/
theorem byteOf_foldr : ∀ (bytes : List (BitVec 8)) (i : Nat) (h : i < bytes.length), i < 4 →
    byteOf (bytes.foldr (fun b (w : BitVec 32) => w <<< 8 ||| b.setWidth 32) 0) i = bytes.get ⟨i, h⟩
  | [], _, h, _ => absurd h (Nat.not_lt_zero _)
  | b :: rest, i, h, hi => by
    refine BitVec.eq_of_getLsbD_eq fun k hk => ?_
    rw [List.foldr_cons]
    cases i with
    | zero =>
      simp only [byteOf, BitVec.getLsbD_extractLsb', BitVec.getLsbD_or, BitVec.getLsbD_shiftLeft,
        BitVec.getLsbD_setWidth, hk, decide_true, Bool.true_and]
      rw [decide_eq_true (show 8 * 0 + k < 8 by omega), decide_eq_true (show 8 * 0 + k < 32 by omega)]
      simp
    | succ j =>
      have hlen : j < rest.length := Nat.lt_of_succ_lt_succ h
      have hrec := congrArg (fun b : BitVec 8 => b.getLsbD k) (byteOf_foldr rest j hlen (by omega))
      simp only [byteOf, BitVec.getLsbD_extractLsb', hk, decide_true, Bool.true_and] at hrec
      simp only [byteOf, BitVec.getLsbD_extractLsb', BitVec.getLsbD_or, BitVec.getLsbD_shiftLeft,
        BitVec.getLsbD_setWidth, hk, decide_true, Bool.true_and]
      rw [decide_eq_false (show ¬8 * (j + 1) + k < 8 by omega),
        decide_eq_true (show 8 * (j + 1) + k < 32 by omega),
        BitVec.getLsbD_of_ge b _ (show 8 ≤ 8 * (j + 1) + k by omega),
        show 8 * (j + 1) + k - 8 = 8 * j + k by omega, hrec]
      simp

theorem byteOf_wordOf {bytes : List (BitVec 8)} (h : i < bytes.length) (hi : offset % 4 + i < 4) :
    byteOf (wordOf offset bytes) (offset % 4 + i) = bytes.get ⟨i, h⟩ := by
  rw [← byteOf_foldr bytes i h (by omega)]
  unfold wordOf
  generalize bytes.foldr (fun b (w : BitVec 32) => w <<< 8 ||| b.setWidth 32) 0 = w
  refine BitVec.eq_of_getLsbD_eq fun k hk => ?_
  simp only [byteOf, BitVec.getLsbD_extractLsb', BitVec.getLsbD_shiftLeft, hk, decide_true, Bool.true_and]
  rw [decide_eq_true (by omega), decide_eq_false (by omega)]
  simp only [Bool.true_and, Bool.not_false]
  congr 1
  omega

/-! ## The requests of an access -/

/-- A read within the space. -/
theorem byteOf_get {a : Nat} (hspace : offset % spaceSize = a) (h : offset % 4 + n ≤ 4) (hi : i < n) :
    byteOf (runOn junk (get offset n status) memory).1.1 (offset % 4 + i) =
      (memory (a + i)).toBitVec := by
  rw [runOn_get]
  refine (byteOf_readWord h hi).trans ?_
  rw [← Nat.add_assoc, address_add_mod, hspace]

/-- A write within the space. -/
theorem runOn_set_eq {a : Nat} {data : BitVec 32} (hspace : offset % spaceSize = a)
    (h : offset % 4 + n ≤ 4) : runOn junk (set offset n data status) memory =
      (0, writeBytes memory a
        ((List.range n).map fun i => UInt8.ofBitVec (byteOf data (offset % 4 + i)))) := by
  rw [runOn_set, writeWord_eq h, address_add_mod, hspace]

/-- A value that is read with one request. -/
theorem load_of_get {a : Nat} (hspace : offset % spaceSize = a) (h : offset % 4 + n ≤ 4) :
    ((runOn junk (get offset n status) memory).1.1 >>> (offset % 4 * 8)).setWidth (8 * n) =
      load n memory a := by
  refine eq_of_bytes fun i hi => ?_
  rw [extract_shiftRight _ hi, byteOf_get hspace h hi, load_byte n a i hi]

/-- A word that is read. -/
theorem runOn_get_four {a : Nat} (hspace : offset % spaceSize = a) (h : offset % 4 = 0) :
    runOn junk (get offset 4 status) memory = ((load 4 memory a, 0), memory) := by
  have hval : (runOn junk (get offset 4 status) memory).1.1 = load 4 memory a := by
    refine eq_of_bytes (n := 4) fun i hi => ?_
    have hbyte : byteOf (runOn junk (get offset 4 status) memory).1.1 (offset % 4 + i) =
        (memory (a + i)).toBitVec := byteOf_get hspace (by omega) hi
    rw [h, Nat.zero_add] at hbyte
    exact hbyte.trans (load_byte 4 a i hi).symm
  rw [← hval]
  rfl

/-- A value that is written with one request. -/
theorem runOn_set_value {a : Nat} {v : BitVec (8 * n)} (hspace : offset % spaceSize = a)
    (h : offset % 4 + n ≤ 4) :
    runOn junk (set offset n (v.setWidth 32 <<< (offset % 4 * 8)) status) memory =
      (0, store n memory a v) := by
  rw [runOn_set_eq hspace h]
  unfold store
  congr 2
  refine List.map_congr_left fun i hi => ?_
  rw [byteOf_shiftLeft v h (List.mem_range.mp hi)]

/-- A word that is written. -/
theorem runOn_set_four {a : Nat} {v : BitVec 32} (hspace : offset % spaceSize = a)
    (h : offset % 4 = 0) : runOn junk (set offset 4 v status) memory = (0, store 4 memory a v) := by
  rw [runOn_set_eq hspace (show offset % 4 + 4 ≤ 4 by omega), h]
  unfold store byteOf
  congr 3
  funext i
  rw [Nat.zero_add]

/-! ## The loops -/

/-- The loop of `getBytes` reads the bytes in order. -/
theorem runOn_getBytesLoop : ∀ (fuel offset a length : Nat) (buf : List (BitVec 8)),
    length ≤ fuel → offset % spaceSize = a % spaceSize → a + length ≤ spaceSize →
    runOn junk (getBytesLoop status fuel offset length buf) memory =
      ((buf ++ (readBytes memory a length).map UInt8.toBitVec, 0), memory)
  | 0, offset, a, length, buf, hle, _, _ => by
    rw [Nat.le_zero.mp hle]
    exact congrArg (fun buf => ((buf, 0), memory)) (List.append_nil buf).symm
  | fuel + 1, offset, a, length, buf, hle, hspace, hin => by
    unfold getBytesLoop
    by_cases hz : length = 0
    · rw [if_pos hz, hz]
      exact congrArg (fun buf => ((buf, 0), memory)) (List.append_nil buf).symm
    · rw [if_neg hz]
      dsimp only
      have ha : offset % spaceSize = a := hspace.trans (Nat.mod_eq_of_lt (by omega))
      obtain ⟨hpos, hlen, hword⟩ : 0 < bytesInWord offset length ∧ bytesInWord offset length ≤ length ∧
        offset % 4 + bytesInWord offset length ≤ 4 := bytesInWord_spec hz
      generalize bytesInWord offset length = bytes at hpos hlen hword ⊢
      rw [runOn_bind]
      have hbytes : (List.range bytes).map (fun i => byteOf
          (runOn junk (get offset bytes status) memory).1.1 (offset % 4 + i)) =
          (readBytes memory a bytes).map UInt8.toBitVec := by
        unfold readBytes
        rw [List.map_map]
        refine List.map_congr_left fun i hi => ?_
        exact byteOf_get ha hword (List.mem_range.mp hi)
      have hst : (runOn junk (get offset bytes status) memory).1.2 = 0 := rfl
      have hmem : memory = (runOn junk (get offset bytes status) memory).2 := rfl
      generalize runOn junk (get offset bytes status) memory = got at hbytes hst hmem ⊢
      obtain ⟨⟨val, st⟩, after⟩ := got
      subst hst hmem
      dsimp only at hbytes ⊢
      rw [if_neg (by simp), hbytes, runOn_getBytesLoop fuel (offset + bytes) (a + bytes) (length - bytes) _
        (by omega) (by rw [Nat.add_mod, hspace, ← Nat.add_mod]) (by omega), List.append_assoc,
        ← List.map_append, ← Infra.readBytes_add, Nat.add_sub_cancel' hlen]

/-- The loop of `setBytes` writes the bytes in order. -/
theorem runOn_setBytesLoop : ∀ (fuel offset a : Nat) (buf : List (BitVec 8)) (memory : Memory),
    buf.length ≤ fuel → offset % spaceSize = a % spaceSize → a + buf.length ≤ spaceSize →
    runOn junk (setBytesLoop status fuel offset buf) memory =
      (0, writeBytes memory a (buf.map UInt8.ofBitVec))
  | 0, offset, a, buf, memory, hle, _, _ => by
    rw [List.eq_nil_of_length_eq_zero (Nat.le_zero.mp hle)]
    exact congrArg (fun m => (0, m)) (Infra.writeBytes_nil memory a).symm
  | fuel + 1, offset, a, buf, memory, hle, hspace, hin => by
    unfold setBytesLoop
    by_cases hz : buf = []
    · rw [if_pos hz, hz]
      exact congrArg (fun m => (0, m)) (Infra.writeBytes_nil memory a).symm
    · rw [if_neg hz]
      dsimp only
      have hz : buf.length ≠ 0 := fun h => hz (List.eq_nil_of_length_eq_zero h)
      have ha : offset % spaceSize = a := hspace.trans (Nat.mod_eq_of_lt (by omega))
      obtain ⟨hpos, hlen, hword⟩ : 0 < bytesInWord offset buf.length ∧
        bytesInWord offset buf.length ≤ buf.length ∧
        offset % 4 + bytesInWord offset buf.length ≤ 4 := bytesInWord_spec hz
      generalize bytesInWord offset buf.length = bytes at hpos hlen hword ⊢
      have htake : (buf.take bytes).length = bytes := by
        rw [List.length_take]
        omega
      have hdata : (List.range bytes).map (fun i => UInt8.ofBitVec
          (byteOf (wordOf offset (buf.take bytes)) (offset % 4 + i))) =
          (buf.take bytes).map UInt8.ofBitVec := by
        refine List.ext_getElem (by simp only [List.length_map, List.length_range, htake]) fun i h₁ h₂ => ?_
        have hi : i < bytes := by simpa using h₁
        rw [List.getElem_map, List.getElem_map, List.getElem_range,
          byteOf_wordOf (show i < (buf.take bytes).length by omega) (by omega)]
        rfl
      rw [runOn_bind, runOn_set_eq ha hword, hdata]
      dsimp only
      rw [if_neg (by simp), runOn_setBytesLoop fuel (offset + bytes) (a + bytes) (buf.drop bytes) _
        (by rw [List.length_drop]; omega) (by rw [Nat.add_mod, hspace, ← Nat.add_mod])
        (by rw [List.length_drop]; omega)]
      have hlen : ((buf.take bytes).map UInt8.ofBitVec).length = bytes := by
        rw [List.length_map, htake]
      rw [show a + bytes = a + ((buf.take bytes).map UInt8.ofBitVec).length by rw [hlen],
        Infra.writeBytes_append, ← List.map_append, List.take_append_drop]

/-! ## Every form -/

theorem mapped_view (memory : Memory) : (mapped memory).view = memory := by
  funext a
  unfold Hdl.Device.view mapped
  by_cases h : a < Hdl.configSize
  · rw [if_pos h, Nat.zero_mul, Nat.zero_add]
  · rw [if_neg h]
    dsimp only
    rw [Nat.sub_add_cancel (by omega)]

/-- What comes after an access. -/
theorem runOn_bind_eq {α β : Type} {p : Prog α} {f : α → Prog β} {v : α} {after : Memory}
    (h : runOn junk p memory = (v, after)) : runOn junk (p >>= f) memory = runOn junk (f v) after := by
  rw [runOn_bind, h]

theorem runOn_get8 {a : Nat} (hspace : offset % spaceSize = a) :
    runOn junk (get8 offset status) memory = ((load 1 memory a, 0), memory) :=
  Prod.ext (Prod.ext (load_of_get (n := 1) hspace (by omega)) rfl) rfl

theorem runOn_get16 {a : Nat} (hspace : offset % spaceSize = a) (h : offset % 2 = 0) :
    runOn junk (get16 offset status) memory = ((load 2 memory a, 0), memory) :=
  Prod.ext (Prod.ext (load_of_get (n := 2) hspace (by omega)) rfl) rfl

theorem runOn_get64 {a : Nat} (hspace : offset % spaceSize = a) (h : offset % 4 = 0)
    (hin : a + 8 ≤ spaceSize) :
    runOn junk (get64 offset status) memory = ((load 8 memory a, 0), memory) := by
  have hnext : (offset + 4) % spaceSize = a + 4 := by
    unfold spaceSize at hspace hin ⊢
    omega
  unfold get64
  rw [runOn_bind_eq (runOn_get_four hspace h)]
  dsimp only
  rw [if_pos rfl, runOn_bind_eq (runOn_get_four hnext (by omega)), ← load_two]
  rfl

theorem runOn_set64 {a : Nat} {val : BitVec 64} (hspace : offset % spaceSize = a) (h : offset % 4 = 0)
    (hin : a + 8 ≤ spaceSize) :
    runOn junk (set64 offset val status) memory = (0, store 8 memory a val) := by
  have hnext : (offset + 4) % spaceSize = a + 4 := by
    unfold spaceSize at hspace hin ⊢
    omega
  unfold set64
  rw [runOn_bind_eq (runOn_set_four hspace h), if_pos rfl, runOn_set_four hnext (by omega), store_two]

theorem map_ofBitVec_toBitVec (data : List UInt8) :
    (data.map UInt8.toBitVec).map UInt8.ofBitVec = data := by
  rw [List.map_map]
  exact List.map_id data

/-- **Every form of access over the network does what it does in memory**, as long as it stays within 24
bits of address. `base` is that of the `Access`; the addresses in a request do not have it. -/
theorem net_agrees (junk memory : Memory) (base offset : Nat) (status : Bool) (form : Form)
    (hbase : base % spaceSize = 0) (haligned : form.Aligned offset)
    (hin : offset + form.length ≤ spaceSize) :
    runOn junk (form.net (base + offset) status) memory =
      (((form.access memory offset).1, 0), (form.access memory offset).2) := by
  have hspace : (base + offset) % spaceSize = offset % spaceSize := by
    rw [Nat.add_mod, hbase, Nat.zero_add, Nat.mod_mod]
  have hfour : (base + offset) % 4 = offset % 4 := by
    unfold spaceSize at hbase
    omega
  have hone : form.length ≠ 0 → (base + offset) % spaceSize = offset := fun h =>
    hspace.trans (Nat.mod_eq_of_lt (by omega))
  cases form with
  | get8 => exact runOn_bind_eq (runOn_get8 (hone (by decide)))
  | get16 =>
    have : offset % 2 = 0 := haligned
    exact runOn_bind_eq (runOn_get16 (hone (by decide)) (by omega))
  | get32 =>
    have : offset % 4 = 0 := haligned
    exact runOn_bind_eq (runOn_get_four (hone (by decide)) (by omega))
  | get64 =>
    have : offset % 8 = 0 := haligned
    exact runOn_bind_eq (runOn_get64 (hone (by decide)) (by omega) hin)
  | getBytes host length =>
    have hloop : runOn junk (getBytes (base + offset) length status) memory =
        (([] ++ (readBytes memory offset length).map UInt8.toBitVec, 0), memory) :=
      runOn_getBytesLoop length _ offset length [] (Nat.le_refl _) hspace hin
    refine (runOn_bind_eq hloop).trans ?_
    show ((Result.bytes (((readBytes memory offset length).map UInt8.toBitVec).map UInt8.ofBitVec), 0),
      memory) = ((Result.bytes (Hdl.getBytes host offset length (mapped memory)), 0), memory)
    rw [map_ofBitVec_toBitVec, Hdl.getBytes_eq, Hdl.Device.load, mapped_view]
  | set8 val => exact runOn_bind_eq (runOn_set_value (n := 1) (hone (Nat.succ_ne_zero _)) (by omega))
  | set16 val =>
    have : offset % 2 = 0 := haligned
    exact runOn_bind_eq (runOn_set_value (n := 2) (hone (Nat.succ_ne_zero _)) (by omega))
  | set32 val =>
    have : offset % 4 = 0 := haligned
    exact runOn_bind_eq (runOn_set_four (hone (Nat.succ_ne_zero _)) (by omega))
  | set64 val =>
    have : offset % 8 = 0 := haligned
    exact runOn_bind_eq (runOn_set64 (hone (Nat.succ_ne_zero _)) (by omega) hin)
  | setBytes host data =>
    have hloop : runOn junk (setBytes (base + offset) (data.map UInt8.toBitVec) status) memory =
        (0, writeBytes memory offset ((data.map UInt8.toBitVec).map UInt8.ofBitVec)) := by
      refine runOn_setBytesLoop _ _ offset _ memory (Nat.le_refl _) hspace ?_
      rw [List.length_map]
      exact hin
    refine (runOn_bind_eq hloop).trans ?_
    show ((Result.unit, 0), writeBytes memory offset ((data.map UInt8.toBitVec).map UInt8.ofBitVec)) =
      ((Result.unit, 0), (Hdl.setBytes host offset data (mapped memory)).view)
    rw [map_ofBitVec_toBitVec, Hdl.setBytes_eq, Hdl.view_store, mapped_view]

/-- Six bytes from offset 3 on, through the control space of an endpoint of 2^32 bytes. -/
theorem net_agrees_across_words :
    runOn (fun _ => 0xff) (Form.net (2 ^ 32 - spaceSize + 3) true (.setBytes 1 [1, 2, 3, 4, 5, 6]))
        (fun a => UInt8.ofNat a) =
      (((Form.access (fun a => UInt8.ofNat a) 3 (.setBytes 1 [1, 2, 3, 4, 5, 6])).1, 0),
        (Form.access (fun a => UInt8.ofNat a) 3 (.setBytes 1 [1, 2, 3, 4, 5, 6])).2) :=
  net_agrees (fun _ => 0xff) (fun a => UInt8.ofNat a) (2 ^ 32 - spaceSize) 3 true
    (.setBytes 1 [1, 2, 3, 4, 5, 6]) (by decide) trivial (by decide)

/-- At offset 2^24 the network reads the byte at offset 0. -/
theorem net_wraps : ∃ memory : Memory,
    runOn memory (Form.net spaceSize true .get8) memory = ((.value 8 7, 0), memory) ∧
    (Form.access memory spaceSize .get8).1 = .value 8 0 := by
  refine ⟨fun a => if a = 0 then 7 else 0, ?_, ?_⟩
  · exact Prod.ext (by decide) rfl
  · decide

end OpenCpi.Net
