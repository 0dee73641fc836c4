import Mathlib.Data.List.TakeWhile
import OpenCpi.MemFs.StreamBuf

/-!
# Reading a file in chunks

Both forms of the buffer are compared with a file that has a position. The form with one buffer always
follows it. The form with chunks follows it until the end is reached by a seek, where it has no area and can
not be sought relatively any more, or a character is put back at the start of a chunk. At the end of the file
the number of the chunk is ahead of the area: relative seeks go astray then, and after a seek that failed so
do reads, if the area is not that of the last chunk.
-/

namespace OpenCpi.MemFs

open Http (unsignedToStreamsize)
open MemIStreamBuf (Way areaOf seekChunk xsgetnLoop)

/-- The chunks of a file. -/
structure MemFile where
  chunks : List (List UInt8)
  ne : ∀ c ∈ chunks, c ≠ []
  fits : chunks.flatten.length < 2 ^ 63

def MemFile.content (f : MemFile) : List UInt8 := f.chunks.flatten

/-! ## A file with a position -/

variable {content : List UInt8} {p n : Nat} {b b' : MemIStreamBuf} {a : Answer}

/-- A seek: one that leaves the file fails. -/
def seekTo (content : List UInt8) (p : Nat) (target : Int) : Answer × Nat :=
  if 0 ≤ target ∧ target ≤ content.length then (.pos (some target.toNat), target.toNat) else (.pos none, p)

def originOf (content : List UInt8) (p : Nat) : Way → Nat
  | .beg => 0
  | .cur => p
  | .fin => content.length

/-- **What an operation should give**, and the position after it. -/
def readAt (content : List UInt8) (p : Nat) : Op → Answer × Nat
  | .sgetc => (.char content[p]?, p)
  | .sbumpc => (.char content[p]?, min (p + 1) content.length)
  | .sgetn n => (.block ((content.drop p).take n), min (p + n) content.length)
  | .sungetc => if p = 0 then (.char none, p) else (.char content[p - 1]?, p - 1)
  | .sputbackc c => if p ≠ 0 ∧ content[p - 1]? = some c then (.char (some c), p - 1) else (.char none, p)
  | .seekoff off way => seekTo content p (originOf content p way + off.toInt)
  | .seekpos pos => seekTo content p pos.toInt

/-- A seek that fails leaves the position. -/
theorem readAt_failed {op : Op} (h : (readAt content p op).1 = .pos none) : (readAt content p op).2 = p := by
  have hseek {target : Int} (h : (seekTo content p target).1 = .pos none) : (seekTo content p target).2 = p := by
    unfold seekTo at h ⊢
    split
    · next hin =>
      rw [if_pos hin] at h
      cases h
    · rfl
  cases op with
  | sgetc => rfl
  | sbumpc => cases h
  | sgetn n => cases h
  | sungetc =>
    rw [readAt] at h ⊢
    split at h <;> cases h
  | sputbackc c =>
    rw [readAt] at h ⊢
    split at h <;> cases h
  | seekoff off way => exact hseek h
  | seekpos pos => exact hseek h

/-! ## Moving the get pointer -/

theorem bmod_count {count : Nat} (h : count < 2 ^ 31) : Int.bmod count (2 ^ 32) = count := by
  rw [Int.bmod_def]
  omega

theorem gbump_eq {count : Nat} (hcount : count < 2 ^ 31) (hle : b.gptr + count ≤ b.areaBytes.length) :
    b.gbump count = some { b with gptr := b.gptr + count } := by
  have hle' : (0 : Int) ≤ b.gptr + count ∧ (b.gptr : Int) + count ≤ b.areaBytes.length := by omega
  unfold MemIStreamBuf.gbump
  rw [bmod_count hcount, if_pos hle']
  rfl

/-- What a block read takes from the area, and what it goes on with. -/
theorem xsgetnLoop_area {fuel remaining : Nat} (hfuel : remaining ≤ fuel) (hpos : 0 < remaining)
    (havail : b.gptr < b.areaBytes.length) (hcount : min (b.areaBytes.length - b.gptr) remaining < 2 ^ 31) :
    xsgetnLoop fuel remaining b =
      (xsgetnLoop (fuel - 1) (remaining - min (b.areaBytes.length - b.gptr) remaining)
        { b with gptr := b.gptr + min (b.areaBytes.length - b.gptr) remaining }).map fun r =>
          ((b.areaBytes.drop b.gptr).take (min (b.areaBytes.length - b.gptr) remaining) ++ r.1, r.2) := by
  obtain ⟨fuel, rfl⟩ : ∃ k, fuel = k + 1 := ⟨fuel - 1, by omega⟩
  obtain ⟨remaining, rfl⟩ : ∃ k, remaining = k + 1 := ⟨remaining - 1, by omega⟩
  rw [xsgetnLoop, MemIStreamBuf.refill, if_pos havail]
  · dsimp only
    rw [gbump_eq hcount (by omega)]
    rfl
  · exact nofun

theorem xsgetnLoop_zero (fuel : Nat) (b : MemIStreamBuf) : xsgetnLoop fuel 0 b = some ([], b) := by
  cases fuel <;> rfl

/-- A block read at the end of the file. -/
theorem xsgetnLoop_end {fuel remaining : Nat} (hfuel : remaining ≤ fuel) (hrefill : b.refill = (false, b')) :
    xsgetnLoop fuel remaining b = some ([], if remaining = 0 then b else b') := by
  cases remaining with
  | zero => exact xsgetnLoop_zero _ _
  | succ remaining =>
    obtain ⟨fuel, rfl⟩ : ∃ k, fuel = k + 1 := ⟨fuel - 1, by omega⟩
    rw [xsgetnLoop, hrefill]
    · rfl
    · exact nofun

/-! ## One buffer -/

/-- The buffer at a position. -/
def bufferAt (content : List UInt8) (p : Nat) : MemIStreamBuf := ⟨.buffer content, 0, 0, some 0, p⟩

/-- A block read moves fewer than 2^31 bytes: `gbump` takes an `int`. -/
def SmallBlock (left : Nat) : Op → Prop
  | .sgetn n => min left n < 2 ^ 31
  | _ => True

theorem bufferAt_end (hp : content.length ≤ p) (bump : Nat) :
    (bufferAt content p).underflowCommon bump = (none, bufferAt content p) := by
  have hnone : content[p]? = none := List.getElem?_eq_none hp
  simp only [MemIStreamBuf.underflowCommon, bufferAt, hnone]

theorem buffer_sgetn (hp : p ≤ content.length) (hsmall : min (content.length - p) n < 2 ^ 31) :
    (bufferAt content p).sgetn n =
      some ((content.drop p).take n, bufferAt content (min (p + n) content.length)) := by
  have hend {k : Nat} (hk : content.length ≤ k) : (bufferAt content k).refill = (false, bufferAt content k) := by
    unfold MemIStreamBuf.refill
    rw [if_neg (by exact Nat.not_lt.mpr hk), bufferAt_end hk]
  unfold MemIStreamBuf.sgetn
  rcases Nat.lt_or_eq_of_le hp with hlt | rfl
  · rcases Nat.eq_zero_or_pos n with rfl | hpos
    · rw [xsgetnLoop_zero, List.take_zero, Nat.add_zero, Nat.min_eq_left hp]
    · have hstep := xsgetnLoop_area (b := bufferAt content p) (Nat.le_refl _) hpos hlt hsmall
      change xsgetnLoop n n (bufferAt content p) = (xsgetnLoop (n - 1) (n - min (content.length - p) n)
        (bufferAt content (p + min (content.length - p) n))).map fun r =>
          ((content.drop p).take (min (content.length - p) n) ++ r.1, r.2) at hstep
      rw [hstep]
      rcases Nat.le_total n (content.length - p) with hle | hle
      · rw [Nat.min_eq_right hle, Nat.sub_self, xsgetnLoop_zero, Nat.min_eq_left (by omega)]
        rw [Option.map_some, List.append_nil]
      · rw [Nat.min_eq_left hle, Nat.add_sub_cancel' hp, xsgetnLoop_end (by omega) (hend (Nat.le_refl _)), ite_self,
          Nat.min_eq_right (by omega)]
        rw [Option.map_some, List.append_nil, List.take_of_length_le (by rw [List.length_drop]),
          List.take_of_length_le (by rw [List.length_drop]; exact hle)]
  · rw [xsgetnLoop_end (Nat.le_refl _) (hend (Nat.le_refl _)), ite_self, List.drop_length, List.take_nil,
      Nat.min_eq_right (Nat.le_add_right _ _)]

/-- What `seekoff` does from an origin. -/
def seekBy (b : MemIStreamBuf) (origin : Nat) (off : Int) : Option Nat × MemIStreamBuf :=
  if off < 0 ∧ (origin : Int) < -off then (none, b)
  else
    let ptpos := unsignedToStreamsize ((origin + off) % 2 ^ 64).toNat
    if ptpos = -1 then (none, b) else b.seekpos ptpos

/-- A target that is not a position is refused. -/
theorem seekBy_eq {origin : Nat} (horigin : origin < 2 ^ 63) (off : Int64) :
    seekBy b origin off.toInt =
      if 0 ≤ (origin : Int) + off.toInt ∧ (origin : Int) + off.toInt < 2 ^ 63 then
        b.seekpos (origin + off.toInt)
      else (none, b) := by
  have hlow := off.le_toInt
  have hhigh := off.toInt_lt
  unfold seekBy
  by_cases hneg : off.toInt < 0 ∧ (origin : Int) < -off.toInt
  · rw [if_pos hneg, if_neg (by omega)]
  · have hmod : ((origin : Int) + off.toInt) % 2 ^ 64 = origin + off.toInt := by omega
    rw [if_neg hneg, hmod]
    dsimp only
    unfold unsignedToStreamsize
    by_cases hbig : 2 ^ 63 ≤ ((origin : Int) + off.toInt).toNat
    · rw [if_pos hbig, if_pos rfl, if_neg (by omega)]
    · rw [if_neg hbig, if_neg (by omega), if_pos (by omega), Int.toNat_of_nonneg (by omega)]

theorem buffer_seekpos (target : Int) : (bufferAt content p).seekpos target =
    if 0 ≤ target ∧ target ≤ content.length then (some target.toNat, bufferAt content target.toNat)
    else (none, bufferAt content p) := by
  unfold MemIStreamBuf.seekpos
  by_cases hneg : target < 0
  · rw [if_pos hneg, if_neg (by omega)]
  · rw [if_neg hneg]
    show (if content.length < target.toNat then _ else _) = _
    by_cases hbig : content.length < target.toNat
    · rw [if_pos hbig, if_neg (by omega)]
    · rw [if_neg hbig, if_pos (by omega)]
      rfl

/-- A seek whose answer is that of the file. -/
theorem seekTo_eq {r : Option Nat × MemIStreamBuf} {target : Int} {at' : Nat → MemIStreamBuf}
    (h : r = if 0 ≤ target ∧ target ≤ content.length then (some target.toNat, at' target.toNat)
      else (none, at' p)) :
    r.map Answer.pos id = ((seekTo content p target).1, at' (seekTo content p target).2) := by
  rw [h]
  unfold seekTo
  split
  · rfl
  · rfl

/-- **One buffer follows the file.** -/
theorem buffer_step (op : Op) (hp : p ≤ content.length) (hfit : content.length < 2 ^ 63)
    (hsmall : SmallBlock (content.length - p) op) :
    (bufferAt content p).step op =
      some ((readAt content p op).1, bufferAt content (readAt content p op).2) := by
  cases op with
  | sgetc =>
    rw [MemIStreamBuf.step, readAt]
    unfold MemIStreamBuf.sgetc
    cases h : content[p]? with
    | none =>
      have h' : (bufferAt content p).areaBytes[(bufferAt content p).gptr]? = none := h
      rw [h', bufferAt_end (List.getElem?_eq_none_iff.mp h)]
      rfl
    | some c =>
      have h' : (bufferAt content p).areaBytes[(bufferAt content p).gptr]? = some c := h
      rw [h']
      rfl
  | sbumpc =>
    rw [MemIStreamBuf.step, readAt]
    unfold MemIStreamBuf.sbumpc
    cases h : content[p]? with
    | none =>
      have h' : (bufferAt content p).areaBytes[(bufferAt content p).gptr]? = none := h
      have hlen := List.getElem?_eq_none_iff.mp h
      rw [h', bufferAt_end hlen, Nat.min_eq_right (by omega), Nat.le_antisymm hp hlen]
      rfl
    | some c =>
      have h' : (bufferAt content p).areaBytes[(bufferAt content p).gptr]? = some c := h
      have hlt := (List.getElem?_eq_some_iff.mp h).1
      rw [h', Nat.min_eq_left hlt]
      rfl
  | sgetn n =>
    rw [MemIStreamBuf.step, readAt, buffer_sgetn hp hsmall]
    rfl
  | sungetc =>
    rw [MemIStreamBuf.step, readAt]
    unfold MemIStreamBuf.sungetc
    by_cases hzero : p = 0
    · rw [if_pos hzero, if_neg (by exact Nat.not_lt.mpr (Nat.le_of_eq hzero))]
      rfl
    · have hget : content[p - 1]? = some content[p - 1] := List.getElem?_eq_getElem (by omega)
      have hget' : (bufferAt content p).areaBytes[(bufferAt content p).gptr - 1]? = some content[p - 1] := hget
      rw [if_neg hzero, if_pos (by exact Nat.pos_of_ne_zero hzero), hget, hget']
      rfl
  | sputbackc c =>
    rw [MemIStreamBuf.step, readAt]
    unfold MemIStreamBuf.sputbackc
    by_cases hback : p ≠ 0 ∧ content[p - 1]? = some c
    · rw [if_pos hback, if_pos (by exact ⟨Nat.pos_of_ne_zero hback.1, hback.2⟩)]
      rfl
    · rw [if_neg hback, if_neg (fun h => hback ⟨Nat.ne_of_gt h.1, h.2⟩)]
      rfl
  | seekoff off way =>
    have horigin : originOf content p way ≤ content.length := by
      cases way with
      | beg => exact Nat.zero_le _
      | cur => exact hp
      | fin => exact Nat.le_refl _
    have hseek : (bufferAt content p).seekoff off.toInt way =
        seekBy (bufferAt content p) (originOf content p way) off.toInt := by
      cases way <;> rfl
    rw [MemIStreamBuf.step, readAt]
    refine congrArg some (seekTo_eq ?_)
    rw [hseek, seekBy_eq (by omega), buffer_seekpos]
    split
    · rfl
    · rw [if_neg (by omega)]
  | seekpos pos =>
    rw [MemIStreamBuf.step, readAt]
    exact congrArg some (seekTo_eq (buffer_seekpos _))

/-! ## Chunks -/

variable {cs : List (List UInt8)} {i g : Nat}

/-- Where a chunk starts. -/
def start (cs : List (List UInt8)) (i : Nat) : Nat := (cs.take i).flatten.length

theorem start_succ (hi : i < cs.length) : start cs (i + 1) = start cs i + cs[i].length := by
  unfold start
  rw [List.take_succ_eq_append_getElem hi, List.flatten_append, List.length_append, List.flatten_singleton]

theorem start_length (cs : List (List UInt8)) : start cs cs.length = cs.flatten.length := by
  unfold start
  rw [List.take_length]

theorem drop_start (cs : List (List UInt8)) (i : Nat) : cs.flatten.drop (start cs i) = (cs.drop i).flatten := by
  conv => lhs; rw [← List.take_append_drop i cs, List.flatten_append]
  have hlen : start cs i = (cs.take i).flatten.length := rfl
  rw [show start (cs.take i ++ cs.drop i) i = (cs.take i).flatten.length by rw [List.take_append_drop]; rfl]
  exact List.drop_left

theorem drop_inside (hi : i < cs.length) (hg : g ≤ cs[i].length) :
    cs.flatten.drop (start cs i + g) = cs[i].drop g ++ (cs.drop (i + 1)).flatten := by
  rw [← List.drop_drop, drop_start, List.drop_eq_getElem_cons hi, List.flatten_cons,
    List.drop_append_of_le_length hg]

theorem start_le (cs : List (List UInt8)) (i : Nat) : start cs i ≤ cs.flatten.length := by
  have hlen := congrArg List.length (drop_start cs i)
  conv => rhs; rw [← List.take_append_drop i cs, List.flatten_append, List.length_append]
  exact Nat.le_add_right _ _

theorem inside_le (hi : i < cs.length) (hg : g ≤ cs[i].length) : start cs i + g ≤ cs.flatten.length := by
  have hnext := start_le cs (i + 1)
  rw [start_succ hi] at hnext
  omega

/-- The byte at a position in a chunk. -/
theorem get_inside (hi : i < cs.length) (hg : g < cs[i].length) : cs.flatten[start cs i + g]? = cs[i][g]? := by
  have hdrop := congrArg (·[0]?) (drop_inside hi (Nat.le_of_lt hg))
  rw [List.getElem?_drop, Nat.add_zero, List.getElem?_append_left (by rw [List.length_drop]; omega),
    List.getElem?_drop, Nat.add_zero] at hdrop
  exact hdrop

theorem part_inside (hi : i < cs.length) : (Memory.chunks cs).part i = cs[i] := by
  show cs.getD i [] = _
  rw [List.getD_eq_getElem _ _ hi]

theorem part_end (cs : List (List UInt8)) : (Memory.chunks cs).part cs.length = [] := by
  show cs.getD cs.length [] = _
  rw [List.getD_eq_default _ _ (Nat.le_refl _)]

/-- Where `gptr` is in the file; without an area it is at the end. -/
def MemIStreamBuf.position (b : MemIStreamBuf) : Nat :=
  match b.memory, b.area with
  | .buffer _, _ => b.gptr
  | .chunks cs, some j => start cs j + b.gptr
  | .chunks cs, none => cs.flatten.length

/-- **The buffer is at a position**: in the chunk that it counts, in a chunk when it counts the one behind the
last, or without an area at the end. -/
inductive At (cs : List (List UInt8)) : MemIStreamBuf → Nat → Prop
  | inside {i g : Nat} (hi : i < cs.length) (hg : g ≤ cs[i].length) :
      At cs ⟨.chunks cs, i, start cs i, some i, g⟩ (start cs i + g)
  | ahead {j g : Nat} (hj : j < cs.length) (hg : g ≤ cs[j].length) :
      At cs ⟨.chunks cs, cs.length, cs.flatten.length, some j, g⟩ (start cs j + g)
  | ended : At cs ⟨.chunks cs, cs.length, cs.flatten.length, none, 0⟩ cs.flatten.length

theorem At.le (h : At cs b p) : p ≤ cs.flatten.length := by
  cases h with
  | inside hi hg => exact inside_le hi hg
  | ahead hj hg => exact inside_le hj hg
  | ended => exact Nat.le_refl _

theorem At.position (h : At cs b p) : b.position = p := by
  cases h <;> rfl

theorem At.memory (h : At cs b p) : b.memory = .chunks cs := by
  cases h <;> rfl

/-- The buffer counts the chunk behind the last while it is in an earlier one. -/
def LeftBehind (cs : List (List UInt8)) (b : MemIStreamBuf) : Prop :=
  b.chunk = cs.length ∧ b.area.any (fun j => decide (j + 1 < cs.length)) = true

instance (cs : List (List UInt8)) (b : MemIStreamBuf) : Decidable (LeftBehind cs b) :=
  inferInstanceAs (Decidable (_ ∧ _))

theorem underflow_end {area : Option Nat} (bump : Nat) :
    (⟨.chunks cs, cs.length, cs.flatten.length, area, g⟩ : MemIStreamBuf).underflowCommon bump =
      (none, ⟨.chunks cs, cs.length, cs.flatten.length, area, g⟩) := by
  unfold MemIStreamBuf.underflowCommon
  dsimp only
  rw [part_end, decide_eq_false (fun h => h.2 rfl), if_neg Bool.false_ne_true, if_neg Bool.false_ne_true]
  dsimp only
  rw [part_end]
  rfl

/-- **The next chunk**, or the end of the file. -/
theorem At.underflow (h : At cs b p) (hne : ∀ c ∈ cs, c ≠ []) (hend : b.areaBytes.length ≤ b.gptr)
    (hbehind : ¬LeftBehind cs b) (bump : Nat) :
    (∃ i, ∃ hi : i < cs.length, p = start cs i ∧
        b.underflowCommon bump = (cs[i][0]?, ⟨.chunks cs, i, start cs i, some i, bump⟩)) ∨
      p = cs.flatten.length ∧ ∃ b', b.underflowCommon bump = (none, b') ∧ At cs b' p := by
  cases h with
  | @inside i g hi hg =>
    have hsize : (Memory.chunks cs).part i = cs[i] := part_inside hi
    have hpos : 0 < cs[i].length := List.length_pos_iff.mpr (hne _ (List.getElem_mem hi))
    have hgend : g = cs[i].length := by
      have hend' : ((Memory.chunks cs).part i).length ≤ g := hend
      rw [hsize] at hend'
      exact Nat.le_antisymm hg hend'
    have hnext : start cs i + g = start cs (i + 1) := by rw [start_succ hi, hgend]
    unfold MemIStreamBuf.underflowCommon
    dsimp only
    rw [hsize, decide_eq_true ⟨Nat.le_of_eq hgend.symm, Nat.ne_of_gt hpos⟩, if_pos rfl, if_pos rfl]
    dsimp only
    by_cases hlast : i + 1 < cs.length
    · left
      refine ⟨i + 1, hlast, hnext, ?_⟩
      rw [part_inside hlast]
      have hpos' : 0 < cs[i + 1].length := List.length_pos_iff.mpr (hne _ (List.getElem_mem hlast))
      rw [List.getElem?_eq_getElem hpos']
      dsimp only
      rw [areaOf, if_pos hlast, ← start_succ hi, Nat.zero_add]
    · right
      have hi1 : i + 1 = cs.length := by omega
      refine ⟨by rw [hnext, hi1, start_length], ⟨.chunks cs, cs.length, cs.flatten.length, some i, g⟩, ?_,
        .ahead hi hg⟩
      rw [hi1, part_end, ← start_succ hi, hi1, start_length]
      rfl
  | @ahead j g hj hg =>
    right
    have hgend : g = cs[j].length := by
      have hend' : ((Memory.chunks cs).part j).length ≤ g := hend
      rw [part_inside hj] at hend'
      exact Nat.le_antisymm hg hend'
    have hj1 : j + 1 = cs.length := by
      by_contra hne'
      exact hbehind ⟨rfl, decide_eq_true (by omega)⟩
    refine ⟨by rw [hgend, ← start_succ hj, hj1, start_length], _, ?_, .ahead hj hg⟩
    exact underflow_end _
  | ended =>
    right
    refine ⟨rfl, _, ?_, .ended⟩
    exact underflow_end _

/-- **The area**: the bytes from a position on, in which `gptr` may stand anywhere. -/
theorem At.area (h : At cs b p) : ∃ base rest, p = base + b.gptr ∧ b.gptr ≤ b.areaBytes.length ∧
    cs.flatten.drop base = b.areaBytes ++ rest ∧
      ∀ g ≤ b.areaBytes.length, At cs { b with gptr := g } (base + g) := by
  cases h with
  | @inside i g hi hg =>
    have harea : (⟨.chunks cs, i, start cs i, some i, g⟩ : MemIStreamBuf).areaBytes = cs[i] := part_inside hi
    have hdrop := drop_inside hi (Nat.zero_le _)
    refine ⟨start cs i, (cs.drop (i + 1)).flatten, rfl, by rw [harea]; exact hg, by rw [harea]; exact hdrop, ?_⟩
    intro g' hg'
    rw [harea] at hg'
    exact .inside hi hg'
  | @ahead j g hj hg =>
    have harea : (⟨.chunks cs, cs.length, cs.flatten.length, some j, g⟩ : MemIStreamBuf).areaBytes = cs[j] :=
      part_inside hj
    have hdrop := drop_inside hj (Nat.zero_le _)
    refine ⟨start cs j, (cs.drop (j + 1)).flatten, rfl, by rw [harea]; exact hg, by rw [harea]; exact hdrop, ?_⟩
    intro g' hg'
    rw [harea] at hg'
    exact .ahead hj hg'
  | ended =>
    refine ⟨cs.flatten.length, [], rfl, Nat.le_refl _, List.drop_length, ?_⟩
    intro g' hg'
    obtain rfl := Nat.le_zero.mp hg'
    exact .ended

/-- A byte of the area is the byte of the file. -/
theorem get_area {base g : Nat} {bytes area rest : List UInt8} (hdrop : bytes.drop base = area ++ rest)
    (hg : g < area.length) : bytes[base + g]? = area[g]? := by
  rw [← List.getElem?_drop, hdrop, List.getElem?_append_left hg]

/-! ## Reading characters -/

/-- `sgetc` and `sbumpc`, which differ in what they add to `gptr`. -/
def getBy (b : MemIStreamBuf) (bump : Nat) : Option UInt8 × MemIStreamBuf :=
  match b.areaBytes[b.gptr]? with
  | some c => (some c, { b with gptr := b.gptr + bump })
  | none => b.underflowCommon bump

theorem getBy_zero (b : MemIStreamBuf) : getBy b 0 = b.sgetc := rfl

theorem getBy_one (b : MemIStreamBuf) : getBy b 1 = b.sbumpc := rfl

/-- **The next character** of the file. -/
theorem At.getBy {bump : Nat} (h : At cs b p) (hne : ∀ c ∈ cs, c ≠ [])
    (hbehind : LeftBehind cs b → b.gptr < b.areaBytes.length) (hbump : bump ≤ 1) :
    ∃ b', MemFs.getBy b bump = (cs.flatten[p]?, b') ∧ At cs b' (min (p + bump) cs.flatten.length) := by
  obtain ⟨base, rest, hp, hg, hdrop, hmove⟩ := h.area
  unfold MemFs.getBy
  rcases Nat.lt_or_ge b.gptr b.areaBytes.length with hlt | hge
  · have hget := get_area hdrop hlt
    have hat := hmove (b.gptr + bump) (by omega)
    rw [← Nat.add_assoc, ← hp] at hat
    rw [← hp, List.getElem?_eq_getElem hlt] at hget
    refine ⟨_, ?_, (Nat.min_eq_left hat.le).symm ▸ hat⟩
    rw [List.getElem?_eq_getElem hlt, hget]
  · rw [List.getElem?_eq_none hge]
    dsimp only
    rcases h.underflow hne hge (fun hb => absurd (hbehind hb) (by omega)) bump with
      ⟨i, hi, hpi, heq⟩ | ⟨hpe, b', heq, hat⟩
    · have hpos : 0 < cs[i].length := List.length_pos_iff.mpr (hne _ (List.getElem_mem hi))
      have hat : At cs ⟨.chunks cs, i, start cs i, some i, bump⟩ (p + bump) := by
        rw [hpi]
        exact .inside hi (by omega)
      have hget := get_inside hi hpos
      refine ⟨_, ?_, (Nat.min_eq_left hat.le).symm ▸ hat⟩
      rw [heq, hpi, ← Nat.add_zero (start cs i), hget, Nat.add_zero]
    · refine ⟨b', ?_, ?_⟩
      · rw [heq, List.getElem?_eq_none (Nat.le_of_eq hpe.symm)]
      · rw [Nat.min_eq_right (by omega), ← hpe]
        exact hat

/-! ## Reading blocks -/

/-- The readable area, at the same position, or the end of the file. -/
theorem At.refill (h : At cs b p) (hne : ∀ c ∈ cs, c ≠ [])
    (hbehind : LeftBehind cs b → b.gptr < b.areaBytes.length) :
    (∃ b', b.refill = (true, b') ∧ At cs b' p ∧ b'.gptr < b'.areaBytes.length ∧ (LeftBehind cs b' → b' = b)) ∨
      p = cs.flatten.length ∧ ∃ b', b.refill = (false, b') ∧ At cs b' p := by
  unfold MemIStreamBuf.refill
  rcases Nat.lt_or_ge b.gptr b.areaBytes.length with hlt | hge
  · left
    exact ⟨b, if_pos hlt, h, hlt, fun _ => rfl⟩
  · rw [if_neg (by omega)]
    rcases h.underflow hne hge (fun hb => absurd (hbehind hb) (by omega)) 0 with
      ⟨i, hi, hpi, heq⟩ | ⟨hpe, b', heq, hat⟩
    · left
      have hpos : 0 < cs[i].length := List.length_pos_iff.mpr (hne _ (List.getElem_mem hi))
      have harea : (⟨.chunks cs, i, start cs i, some i, 0⟩ : MemIStreamBuf).areaBytes = cs[i] := part_inside hi
      refine ⟨_, by rw [heq, List.getElem?_eq_getElem hpos], ?_, by rw [harea]; exact hpos, ?_⟩
      · rw [hpi]
        exact .inside hi (Nat.zero_le _)
      · intro hb
        exact absurd hb.1 (Nat.ne_of_lt hi)
    · right
      exact ⟨hpe, b', by rw [heq], hat⟩

/-- The loop goes on from the area that it gets. -/
theorem xsgetnLoop_refill {fuel remaining : Nat} (hpos : 0 < remaining) (hrefill : b.refill = (true, b'))
    (havail : b'.gptr < b'.areaBytes.length) : xsgetnLoop fuel remaining b = xsgetnLoop fuel remaining b' := by
  have hrefill' : b'.refill = (true, b') := if_pos havail
  obtain ⟨remaining, rfl⟩ : ∃ k, remaining = k + 1 := ⟨remaining - 1, by omega⟩
  cases fuel with
  | zero => rfl
  | succ fuel =>
    rw [xsgetnLoop, xsgetnLoop, hrefill, hrefill']
    · exact nofun
    · exact nofun

/-- **A block of the file**: each turn takes what the area has, and ends with it, or at the end of the file. -/
theorem At.xsgetnLoop {fuel remaining : Nat} (hne : ∀ c ∈ cs, c ≠ []) (hfuel : remaining ≤ fuel) (h : At cs b p)
    (hbehind : LeftBehind cs b → b.gptr + remaining ≤ b.areaBytes.length)
    (hsmall : min (cs.flatten.length - p) remaining < 2 ^ 31) :
    ∃ b', MemIStreamBuf.xsgetnLoop fuel remaining b = some ((cs.flatten.drop p).take remaining, b') ∧
      At cs b' (min (p + remaining) cs.flatten.length) := by
  induction fuel generalizing remaining b p with
  | zero =>
    obtain rfl := Nat.le_zero.mp hfuel
    exact ⟨b, by rw [xsgetnLoop_zero, List.take_zero], (Nat.min_eq_left h.le).symm ▸ h⟩
  | succ fuel ih =>
    rcases Nat.eq_zero_or_pos remaining with rfl | hpos
    · exact ⟨b, by rw [xsgetnLoop_zero, List.take_zero], (Nat.min_eq_left h.le).symm ▸ h⟩
    · rcases h.refill hne (fun hb => Nat.lt_of_lt_of_le (Nat.lt_add_of_pos_right hpos) (hbehind hb)) with
        ⟨b', hrefill, hat, havail, hsame⟩ | ⟨rfl, b', hrefill, hat⟩
      · -- the turn takes `count` bytes, all of them in the area
        have hbehind' : LeftBehind cs b' → b'.gptr + remaining ≤ b'.areaBytes.length := by
          intro hb
          obtain rfl := hsame hb
          exact hbehind hb
        obtain ⟨base, rest, hp, hg, hdrop, hmove⟩ := hat.area
        rw [xsgetnLoop_refill hpos hrefill havail]
        have havail' : b'.areaBytes.length - b'.gptr ≤ cs.flatten.length - p := by
          have hlen := congrArg List.length hdrop
          rw [List.length_drop, List.length_append] at hlen
          omega
        rw [xsgetnLoop_area hfuel hpos havail (by omega)]
        have hcount : min (b'.areaBytes.length - b'.gptr) remaining ≤ remaining := Nat.min_le_right _ _
        have hin : min (b'.areaBytes.length - b'.gptr) remaining ≤ b'.areaBytes.length - b'.gptr := Nat.min_le_left _ _
        have hone : 0 < min (b'.areaBytes.length - b'.gptr) remaining := by omega
        generalize min (b'.areaBytes.length - b'.gptr) remaining = count at *
        have hat' : At cs { b' with gptr := b'.gptr + count } (p + count) := by
          have := hmove (b'.gptr + count) (by omega)
          rwa [← Nat.add_assoc, ← hp] at this
        have htaken : (b'.areaBytes.drop b'.gptr).take count = (cs.flatten.drop p).take count := by
          rw [hp, ← List.drop_drop, hdrop, List.drop_append_of_le_length hg,
            List.take_append_of_le_length (by rw [List.length_drop]; exact hin)]
        have hfuel' : remaining - count ≤ fuel := by omega
        have hsmall' : min (cs.flatten.length - (p + count)) (remaining - count) < 2 ^ 31 := by omega
        have hrest : LeftBehind cs b' → b'.gptr + count + (remaining - count) ≤ b'.areaBytes.length := by
          intro hb
          have := hbehind' hb
          omega
        obtain ⟨b'', hloop, hat''⟩ := ih hfuel' hat' hrest hsmall'
        refine ⟨b'', ?_, ?_⟩
        · rw [Nat.add_sub_cancel, hloop, Option.map_some, htaken, ← List.drop_drop, ← List.take_add,
            Nat.add_sub_cancel' hcount]
        · have hsum : p + count + (remaining - count) = p + remaining := by omega
          rwa [hsum] at hat''
      · refine ⟨b', ?_, ?_⟩
        · rw [xsgetnLoop_end hfuel hrefill, if_neg (Nat.ne_of_gt hpos), List.drop_length, List.take_nil]
        · rw [Nat.min_eq_right (Nat.le_add_right _ _)]
          exact hat

/-! ## Putting back -/

/-- Inside of a chunk a character that is not the previous one is refused, and at the start of the file any. -/
theorem At.pbackfail (h : At cs b p) (hback : 0 < b.gptr ∨ b.chunk = 0) (c : Option UInt8) :
    b.pbackfail c = some (none, b) := by
  unfold MemIStreamBuf.pbackfail
  rw [h.memory]
  dsimp only
  rcases hback with hg | hzero
  · rw [if_pos hg]
  · rw [if_pos hzero, ite_self]

theorem At.start_of_file (h : At cs b p) (hg : b.gptr = 0) (hzero : b.chunk = 0) : p = 0 := by
  have hnil {j : Nat} (hlen : cs.length = 0) (hj : j < cs.length) : False := by omega
  cases h with
  | @inside i g hi =>
    obtain rfl : i = 0 := hzero
    obtain rfl : g = 0 := hg
    rfl
  | ahead hj => exact (hnil hzero hj).elim
  | ended =>
    obtain rfl := List.length_eq_zero_iff.mp hzero
    rfl

/-- The previous character, inside of the area. -/
theorem At.previous (h : At cs b p) (hg : 0 < b.gptr) :
    0 < p ∧ b.areaBytes[b.gptr - 1]? = cs.flatten[p - 1]? ∧ b.gptr - 1 < b.areaBytes.length ∧
      At cs { b with gptr := b.gptr - 1 } (p - 1) := by
  obtain ⟨base, rest, hp, hle, hdrop, hmove⟩ := h.area
  have hprev : p - 1 = base + (b.gptr - 1) := by omega
  refine ⟨by omega, ?_, by omega, ?_⟩
  · rw [hprev, get_area hdrop (by omega)]
  · rw [hprev]
    exact hmove _ (by omega)

theorem At.sungetc (h : At cs b p) (hback : 0 < b.gptr ∨ b.chunk = 0) :
    ∃ b', b.sungetc.map (Prod.map .char id) = some ((readAt cs.flatten p .sungetc).1, b') ∧
      At cs b' (readAt cs.flatten p .sungetc).2 := by
  rw [readAt]
  unfold MemIStreamBuf.sungetc
  rcases Nat.eq_zero_or_pos b.gptr with hg | hg
  · have hzero := h.start_of_file hg (hback.resolve_left (by omega))
    rw [if_neg (by omega), h.pbackfail hback, if_pos hzero]
    exact ⟨b, rfl, h⟩
  · obtain ⟨hp, hget, hlt, hat⟩ := h.previous hg
    rw [if_pos hg, if_neg (by omega), ← hget, List.getElem?_eq_getElem hlt]
    exact ⟨_, rfl, hat⟩

theorem At.sputbackc (h : At cs b p) (hback : 0 < b.gptr ∨ b.chunk = 0) (c : UInt8) :
    ∃ b', (b.sputbackc c).map (Prod.map .char id) = some ((readAt cs.flatten p (.sputbackc c)).1, b') ∧
      At cs b' (readAt cs.flatten p (.sputbackc c)).2 := by
  rw [readAt]
  unfold MemIStreamBuf.sputbackc
  rcases Nat.eq_zero_or_pos b.gptr with hg | hg
  · have hzero := h.start_of_file hg (hback.resolve_left (by omega))
    rw [if_neg (fun hc => absurd hc.1 (by omega)), h.pbackfail hback, if_neg (fun hc => hc.1 hzero)]
    exact ⟨b, rfl, h⟩
  · obtain ⟨hp, hget, _, hat⟩ := h.previous hg
    rw [hget]
    by_cases hc : cs.flatten[p - 1]? = some c
    · rw [if_pos ⟨hg, hc⟩, if_pos ⟨by omega, hc⟩]
      exact ⟨_, rfl, hat⟩
    · rw [if_neg (fun h => hc h.2), h.pbackfail hback, if_neg (fun h => hc h.2)]
      exact ⟨b, rfl, h⟩

/-! ## Seeking -/

theorem seekChunk_nil (pos chunk first : Nat) : seekChunk pos [] chunk first = (chunk, first) := rfl

/-- The chunk of a position at or behind the start of the one that the search begins with. -/
theorem seekChunk_start {pos : Nat} (hne : ∀ c ∈ cs, c ≠ []) (hi : i ≤ cs.length) (hpos : start cs i ≤ pos) :
    ∃ k, seekChunk pos (cs.drop i) i (start cs i) = (k, start cs k) ∧ start cs k ≤ pos ∧
      (k = cs.length ∨ ∃ hk : k < cs.length, pos < start cs k + cs[k].length) := by
  induction hn : cs.length - i generalizing i with
  | zero =>
    obtain rfl : i = cs.length := by omega
    rw [List.drop_length, seekChunk_nil]
    exact ⟨cs.length, rfl, hpos, .inl rfl⟩
  | succ n ih =>
    have hlt : i < cs.length := by omega
    have hlen : cs[i].length ≠ 0 := fun h => hne _ (List.getElem_mem hlt) (List.length_eq_zero_iff.mp h)
    rw [List.drop_eq_getElem_cons hlt, seekChunk]
    by_cases hnext : start cs i + cs[i].length ≤ pos
    · rw [if_pos ⟨hnext, hlen⟩, ← start_succ hlt]
      rw [← start_succ hlt] at hnext
      exact ih hlt hnext (by omega)
    · rw [if_neg (fun h => hnext h.1)]
      exact ⟨i, rfl, hpos, .inr ⟨hlt, by omega⟩⟩

/-- The chunk that the buffer counts, and the first byte of it. -/
theorem At.counted (h : At cs b p) : b.chunk ≤ cs.length ∧ b.firstByteInChunk = start cs b.chunk := by
  cases h with
  | inside hi => exact ⟨Nat.le_of_lt hi, rfl⟩
  | ahead => exact ⟨Nat.le_refl _, (start_length cs).symm⟩
  | ended => exact ⟨Nat.le_refl _, (start_length cs).symm⟩

/-- A seek behind the end leaves the buffer at its position, with the chunk behind the last counted. -/
theorem At.passed (h : At cs b p) :
    At cs ⟨.chunks cs, cs.length, cs.flatten.length, b.area, b.gptr⟩ p := by
  cases h with
  | inside hi hg => exact .ahead hi hg
  | ahead hj hg => exact .ahead hj hg
  | ended => exact .ended

/-- **A seek** reaches every position of the file, and fails for any other. -/
theorem At.seekpos (h : At cs b p) (hne : ∀ c ∈ cs, c ≠ []) (target : Int) :
    ∃ b', (b.seekpos target).map Answer.pos id = ((seekTo cs.flatten p target).1, b') ∧
      At cs b' (seekTo cs.flatten p target).2 := by
  unfold MemIStreamBuf.seekpos seekTo
  by_cases hneg : target < 0
  · rw [if_pos hneg, if_neg (by omega)]
    exact ⟨b, rfl, h⟩
  · obtain ⟨pos, rfl⟩ : ∃ pos : Nat, target = pos := ⟨target.toNat, by omega⟩
    rw [if_neg hneg, h.memory, Int.toNat_natCast]
    dsimp only
    -- the search begins at the start of a chunk that is not behind the position
    obtain ⟨i, hi, hbegin, hpos⟩ : ∃ i ≤ cs.length,
        (if pos < b.firstByteInChunk then (0, 0) else (b.chunk, b.firstByteInChunk)) = (i, start cs i) ∧
          start cs i ≤ pos := by
      obtain ⟨hchunk, hfirst⟩ := h.counted
      split
      · exact ⟨0, Nat.zero_le _, rfl, Nat.zero_le _⟩
      · exact ⟨b.chunk, hchunk, by rw [hfirst], by omega⟩
    obtain ⟨k, hseek, hle, hk⟩ := seekChunk_start hne hi hpos
    rw [hbegin]
    dsimp only
    rw [hseek]
    dsimp only
    rcases hk with rfl | ⟨hk, hlt⟩
    · rw [part_end, start_length, List.length_nil, Nat.add_zero]
      rw [start_length] at hle
      by_cases hbig : cs.flatten.length < pos
      · rw [if_pos hbig, if_neg (by omega)]
        exact ⟨_, rfl, h.passed⟩
      · obtain rfl : pos = cs.flatten.length := by omega
        rw [if_neg hbig, if_pos (by omega), areaOf, if_neg (Nat.lt_irrefl _), Nat.sub_self]
        exact ⟨_, rfl, .ended⟩
    · have hin := inside_le (g := pos - start cs k) hk (by omega)
      rw [Nat.add_sub_cancel' hle] at hin
      rw [part_inside hk, if_neg (by omega), if_pos (by omega), areaOf, if_pos hk]
      refine ⟨_, rfl, ?_⟩
      have hat : At cs ⟨.chunks cs, k, start cs k, some k, pos - start cs k⟩ (start cs k + (pos - start cs k)) :=
        .inside hk (by omega)
      rwa [Nat.add_sub_cancel' hle] at hat

/-- What the offsets of a seek count from. -/
theorem At.origin {way : Way} (h : At cs b p) (hne : ∀ c ∈ cs, c ≠ []) (harea : b.area ≠ none)
    (hcur : way = .cur → b.chunk < cs.length) (off : Int) :
    b.seekoff off way = seekBy b (originOf cs.flatten p way) off := by
  unfold MemIStreamBuf.seekoff
  rw [if_neg harea, h.memory]
  cases way with
  | beg => rfl
  | cur =>
    have hp : p = b.firstByteInChunk + b.gptr := by
      have hlt := hcur rfl
      cases h with
      | inside => rfl
      | ahead => exact absurd hlt (Nat.lt_irrefl _)
      | ended => exact absurd hlt (Nat.lt_irrefl _)
    rw [originOf, hp]
    rfl
  | fin =>
    have hall : (cs.drop b.chunk).takeWhile (· ≠ []) = cs.drop b.chunk :=
      List.takeWhile_eq_self_iff.mpr fun c hc => decide_eq_true (hne c (List.mem_of_mem_drop hc))
    have hend : cs.flatten.length = b.firstByteInChunk + (cs.drop b.chunk).flatten.length := by
      rw [h.counted.2, start, ← List.length_append, ← List.flatten_append, List.take_append_drop]
    dsimp only
    rw [hall, originOf, hend]
    rfl

/-! ## Runs -/

/-- **Where the chunks are read like one buffer**: not after the end of the file was met in a chunk before the
last, no character put back at the start of a later chunk, no relative seek where the end has been met, and
none after a seek to the end. -/
def Smooth (cs : List (List UInt8)) (b : MemIStreamBuf) : Op → Prop
  | .sgetc => LeftBehind cs b → b.gptr < b.areaBytes.length
  | .sbumpc => LeftBehind cs b → b.gptr < b.areaBytes.length
  | .sgetn n => (LeftBehind cs b → b.gptr + n ≤ b.areaBytes.length) ∧ min (cs.flatten.length - b.position) n < 2 ^ 31
  | .sungetc => 0 < b.gptr ∨ b.chunk = 0
  | .sputbackc _ => 0 < b.gptr ∨ b.chunk = 0
  | .seekoff _ way => b.area ≠ none ∧ (way = .cur → b.chunk < cs.length)
  | .seekpos _ => True

instance (cs : List (List UInt8)) (b : MemIStreamBuf) : (op : Op) → Decidable (Smooth cs b op)
  | .sgetc => inferInstanceAs (Decidable (_ → _))
  | .sbumpc => inferInstanceAs (Decidable (_ → _))
  | .sgetn _ => inferInstanceAs (Decidable (_ ∧ _))
  | .sungetc => inferInstanceAs (Decidable (_ ∨ _))
  | .sputbackc _ => inferInstanceAs (Decidable (_ ∨ _))
  | .seekoff _ _ => inferInstanceAs (Decidable (_ ∧ _))
  | .seekpos _ => inferInstanceAs (Decidable True)

/-- **Chunks follow the file.** -/
theorem chunks_step {op : Op} (h : At cs b p) (hne : ∀ c ∈ cs, c ≠ []) (hfit : cs.flatten.length < 2 ^ 63)
    (hsmooth : Smooth cs b op) :
    ∃ b', b.step op = some ((readAt cs.flatten p op).1, b') ∧ At cs b' (readAt cs.flatten p op).2 := by
  cases op with
  | sgetc =>
    obtain ⟨b', hget, hat⟩ := h.getBy hne hsmooth (Nat.zero_le 1)
    rw [getBy_zero] at hget
    rw [Nat.add_zero, Nat.min_eq_left h.le] at hat
    exact ⟨b', by rw [MemIStreamBuf.step, hget]; rfl, hat⟩
  | sbumpc =>
    obtain ⟨b', hget, hat⟩ := h.getBy hne hsmooth (Nat.le_refl 1)
    rw [getBy_one] at hget
    exact ⟨b', by rw [MemIStreamBuf.step, hget]; rfl, hat⟩
  | sgetn n =>
    obtain ⟨b', hget, hat⟩ := h.xsgetnLoop hne (Nat.le_refl n) hsmooth.1 (h.position ▸ hsmooth.2)
    exact ⟨b', by rw [MemIStreamBuf.step, MemIStreamBuf.sgetn, hget]; rfl, hat⟩
  | sungetc => exact h.sungetc hsmooth
  | sputbackc c => exact h.sputbackc hsmooth c
  | seekoff off way =>
    have horigin : originOf cs.flatten p way ≤ cs.flatten.length := by
      cases way with
      | beg => exact Nat.zero_le _
      | cur => exact h.le
      | fin => exact Nat.le_refl _
    rw [MemIStreamBuf.step, readAt, h.origin hne hsmooth.1 hsmooth.2, seekBy_eq (by omega)]
    split
    · obtain ⟨b', hseek, hat⟩ := h.seekpos hne ((originOf cs.flatten p way : Int) + off.toInt)
      exact ⟨b', congrArg some hseek, hat⟩
    · refine ⟨b, ?_, ?_⟩
      · unfold seekTo
        rw [if_neg (by omega)]
        rfl
      · unfold seekTo
        rw [if_neg (by omega)]
        exact h
  | seekpos pos =>
    obtain ⟨b', hseek, hat⟩ := h.seekpos hne pos.toInt
    exact ⟨b', congrArg some hseek, hat⟩

theorem At.opened (cs : List (List UInt8)) : At cs (MemIStreamBuf.ofChunks cs) 0 := by
  unfold MemIStreamBuf.ofChunks areaOf
  by_cases hsome : 0 < cs.length
  · rw [if_pos hsome]
    exact .inside hsome (Nat.zero_le _)
  · obtain rfl := List.length_eq_zero_iff.mp (Nat.le_zero.mp (Nat.le_of_not_lt hsome))
    exact .ended

/-- Two buffers that give the same answers, and keep their positions when a seek fails. -/
def Alike (b s : MemIStreamBuf) : List Op → Prop
  | [] => True
  | op :: ops =>
    match b.step op, s.step op with
    | some (a, b'), some (a', s') =>
      a = a' ∧ (a = .pos none → b'.position = b.position ∧ s'.position = s.position) ∧ Alike b' s' ops
    | _, _ => False

instance decidableAlike : (b s : MemIStreamBuf) → (ops : List Op) → Decidable (Alike b s ops)
  | _, _, [] => .isTrue trivial
  | b, s, op :: ops =>
    match hb : b.step op, hs : s.step op with
    | some (a, b'), some (a', s') =>
      have := decidableAlike b' s' ops
      decidable_of_iff (a = a' ∧ (a = .pos none → b'.position = b.position ∧ s'.position = s.position) ∧
        Alike b' s' ops) (by rw [Alike, hb, hs])
    | none, _ => .isFalse (by rw [Alike, hb]; exact id)
    | some _, none => .isFalse (by rw [Alike, hb, hs]; exact id)

/-- A run of which every operation is smooth where it comes. -/
def SmoothRun (cs : List (List UInt8)) (b : MemIStreamBuf) : List Op → Prop
  | [] => True
  | op :: ops =>
    Smooth cs b op ∧
      match b.step op with
      | some (_, b') => SmoothRun cs b' ops
      | none => True

instance decidableSmoothRun : (cs : List (List UInt8)) → (b : MemIStreamBuf) → (ops : List Op) →
    Decidable (SmoothRun cs b ops)
  | _, _, [] => .isTrue trivial
  | cs, b, op :: ops =>
    match hb : b.step op with
    | some (_, b') =>
      have := decidableSmoothRun cs b' ops
      decidable_of_iff (Smooth cs b op ∧ SmoothRun cs b' ops) (by rw [SmoothRun, hb])
    | none => decidable_of_iff (Smooth cs b op) (by rw [SmoothRun, hb]; exact (iff_of_eq (and_true _)).symm)

/-- **A smooth run** from a position on. -/
theorem alike_of_at {ops : List Op} (h : At cs b p) (hne : ∀ c ∈ cs, c ≠ []) (hfit : cs.flatten.length < 2 ^ 63)
    (hrun : SmoothRun cs b ops) : Alike b (bufferAt cs.flatten p) ops := by
  induction ops generalizing b p with
  | nil => trivial
  | cons op ops ih =>
    rw [SmoothRun] at hrun
    obtain ⟨hsmooth, hrest⟩ := hrun
    have hsmall : SmallBlock (cs.flatten.length - p) op := by
      cases op with
      | sgetn n => exact h.position ▸ hsmooth.2
      | _ => trivial
    obtain ⟨b', hstep, hat⟩ := chunks_step h hne hfit hsmooth
    rw [hstep] at hrest
    rw [Alike, hstep, buffer_step op h.le hfit hsmall]
    refine ⟨rfl, ?_, ih hat hrest⟩
    intro hfailed
    have hstay := readAt_failed hfailed
    exact ⟨by rw [hat.position, h.position, hstay], hstay⟩

/-- **A file in chunks is read like one in a buffer**, by every smooth run. -/
theorem chunks_read_alike (f : MemFile) (ops : List Op)
    (hrun : SmoothRun f.chunks (MemIStreamBuf.ofChunks f.chunks) ops) :
    Alike (MemIStreamBuf.ofChunks f.chunks) (MemIStreamBuf.ofBuffer f.content) ops :=
  alike_of_at (At.opened f.chunks) f.ne f.fits hrun

def twoChunks : MemFile where
  chunks := [[97], [98]]
  ne := by decide
  fits := by decide

theorem two_chunks_read_alike : Alike (MemIStreamBuf.ofChunks twoChunks.chunks)
    (MemIStreamBuf.ofBuffer twoChunks.content)
    [.seekoff 1 .fin, .sgetc, .seekpos 0, .sgetn 2, .seekoff (-1) .beg, .seekpos 1, .sbumpc, .sputbackc 98,
      .seekoff (-1) .cur, .sgetc] :=
  chunks_read_alike twoChunks _ (by decide)

/-- The position after a seek to the end, and the character that was read before the one looked at. -/
theorem two_chunks_not_alike :
    ¬Alike (MemIStreamBuf.ofChunks twoChunks.chunks) (MemIStreamBuf.ofBuffer twoChunks.content)
        [.seekoff 0 .fin, .seekoff 0 .cur] ∧
      ¬Alike (MemIStreamBuf.ofChunks twoChunks.chunks) (MemIStreamBuf.ofBuffer twoChunks.content)
        [.sbumpc, .sgetc, .sputbackc 97] := by
  decide

end OpenCpi.MemFs
