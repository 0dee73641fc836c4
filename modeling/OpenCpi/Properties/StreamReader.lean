import OpenCpi.Properties.StreamWriter

/-!
# What is read from a stream

The reader finds the table of contents from the end of the stream and gets the table of the writer. From then on it
knows where the stream is: at the position it remembers, or, when a file is open, at the file's own position behind
the start of the file. An open file is read like its content in memory.
-/

namespace OpenCpi.StreamFs

open Infra
open Http (unsignedToStreamsize)
open Misc (Base text cString)
open Os (joinNames)
open Util (Text slash)

variable {data line rest image : Text} {p n : Nat} {toc : Toc} {files : Files}

/-! ## Lines -/

/-- A stream in a good state. -/
def inputAt (data : Text) (p : Nat) : Input := { buf := Mem.mk data p }

theorem drop_behind (h : data.drop p = line ++ lf :: rest) : data.drop (p + line.length + 1) = rest := by
  rw [Nat.add_assoc, ← List.drop_drop, h, List.drop_length_add_append]
  rfl

theorem good_inputAt (data : Text) (p : Nat) : (inputAt data p).good = true := rfl

theorem getline_at (h : data.drop p = line ++ lf :: rest) (hline : lf ∉ line) :
    (inputAt data p).getline lf = (line, inputAt data (p + line.length + 1)) := by
  have hline : line.takeWhile (· ≠ lf) = line :=
    List.takeWhile_eq_self_iff.mpr fun c hc => decide_eq_true fun heq => hline (heq ▸ hc)
  have htake : (data.drop p).takeWhile (· ≠ lf) = line := by
    rw [h, List.takeWhile_append, hline, if_pos rfl]
    simp
  have hlen : line.length < (data.drop p).length := by
    rw [h]
    simp
  unfold Istream.getline
  rw [if_pos (good_inputAt data p)]
  show (if ((data.drop p).takeWhile (· ≠ lf)).length < (data.drop p).length
    then ((data.drop p).takeWhile (· ≠ lf), inputAt data (p + ((data.drop p).takeWhile (· ≠ lf)).length + 1)) else _) = _
  rw [htake, if_pos hlen]

/-- A position in the data, counted from either end. -/
theorem seekoff_at {off : Int} {way : Way} {target : Nat} (hoff : (Mem.mk data p).origin way + off = target)
    (h : target ≤ data.length) : memBuf.seekoff off way (Mem.mk data p) = (some target, Mem.mk data target) := by
  have hin : 0 ≤ ((Mem.mk data p).origin way : Int) + off ∧ (Mem.mk data p).origin way + off ≤ (data.length : Int) := by
    omega
  refine (if_pos hin).trans ?_
  rw [hoff]
  rfl

theorem seekg_at {off : Int} {way : Way} {target : Nat} (hoff : (Mem.mk data p).origin way + off = target)
    (h : target ≤ data.length) : (inputAt data p).seekg memBuf off way = inputAt data target := by
  have hseek : memBuf.seekoff off way (inputAt data p).buf = (some target, Mem.mk data target) := seekoff_at hoff h
  unfold Istream.seekg
  rw [hseek]
  rfl

/-! ## Numbers -/

theorem text_plain {c : UInt8} (h : c ∈ text 10 n) : c ≠ lf ∧ c ≠ 0 := by
  have hreads := Misc.reads_text Base.ten n
  obtain ⟨hplain, hspace⟩ := hreads.plain h
  constructor
  · rintro rfl
    cases hspace
  · rintro rfl
    exact hplain List.mem_cons_self

theorem lf_notMem_text (n : Nat) : lf ∉ text 10 n := fun h => (text_plain h).1 rfl

/-- The text of a number, also with blanks in front of it, is read as the number. -/
theorem strtoul_text (k : Nat) (h : n < 2 ^ 64) : strtoul (List.replicate k 32 ++ text 10 n) = (n, []) := by
  have hreads := Misc.reads_text Base.ten n
  have hnumeral : ∀ k, Misc.numeral 10 (List.replicate k 32 ++ text 10 n) = some ⟨false, n, []⟩ := by
    intro k
    induction k with
    | zero => exact hreads.numeral
    | succ k ih => exact ih
  have hstring : cString (List.replicate k 32 ++ text 10 n) = List.replicate k 32 ++ text 10 n := by
    refine Misc.cString_of_notMem fun hmem => ?_
    rcases List.mem_append.mp hmem with hmem | hmem
    · cases List.eq_of_mem_replicate hmem
    · exact (text_plain hmem).2 rfl
  unfold strtoul
  rw [hstring, hnumeral]
  exact congrArg (·, []) (if_neg (Nat.not_le.mpr h))

theorem strtoul_uint64 (v : UInt64) : strtoul (text 10 v.toNat) = (v.toNat, []) := strtoul_text 0 v.toNat_lt

/-! ## The table of contents -/

/-- What is left of the table behind a line feed. -/
theorem readNodes_entries (back : Text) : ∀ (entries : List (Text × Node)) (fuel p : Nat) (toc : Toc),
    entries.length < fuel → (∀ e ∈ entries, Plain e.1) →
    lf :: data.drop p = entries.flatMap nodeText ++ (lf :: endOfToc ++ lf :: back) →
    ∃ q, readNodes fuel (inputAt data p) toc = .ok (entries.foldl (fun m e => m.insert e.1 e.2) toc, inputAt data q) := by
  intro entries
  induction entries with
  | nil =>
    intro fuel p toc hfuel _ h
    obtain ⟨fuel, rfl⟩ := Nat.exists_eq_succ_of_ne_zero (Nat.ne_of_gt hfuel)
    have hdrop : data.drop p = endOfToc ++ lf :: back := (List.cons.inj h).2
    refine ⟨p + endOfToc.length + 1, ?_⟩
    rw [readNodes, getline_at hdrop (by decide)]
    rfl
  | cons e entries ih =>
    intro fuel p toc hfuel hplain h
    obtain ⟨fuel, rfl⟩ := Nat.exists_eq_succ_of_ne_zero (Nat.ne_of_gt (Nat.zero_lt_of_lt hfuel))
    obtain ⟨hslash, hlf⟩ := hplain e List.mem_cons_self
    obtain ⟨next, hnext⟩ : ∃ next, entries.flatMap nodeText ++ (lf :: endOfToc ++ lf :: back) = lf :: next := by
      cases entries with
      | nil => exact ⟨_, rfl⟩
      | cons e' entries => exact ⟨_, rfl⟩
    -- four lines, each of which is read from where the one before ended
    have hname : data.drop p = e.1 ++ lf :: (text 10 e.2.pos.toNat ++ lf :: (text 10 e.2.size.toNat ++
        lf :: (text 10 e.2.lastModified.toNat ++ lf :: next))) := by
      rw [List.flatMap_cons, List.append_assoc, hnext, nodeText] at h
      simpa using h
    have hpos := drop_behind hname
    have hsize := drop_behind hpos
    have hlm := drop_behind hsize
    have hrest := drop_behind hlm
    have hend : e.1 ≠ endOfToc := by
      rintro heq
      rw [heq] at hslash
      cases hslash
    obtain ⟨q, hq⟩ := ih fuel _ (toc.insert e.1 e.2) (Nat.lt_of_succ_lt_succ hfuel)
      (fun e he => hplain e (List.mem_cons_of_mem _ he)) ((congrArg (lf :: ·) hrest).trans hnext.symm)
    refine ⟨q, ?_⟩
    rw [readNodes, getline_at hname hlf]
    dsimp only
    rw [good_inputAt, if_neg (by decide), if_neg hend, getline_at hpos (lf_notMem_text _)]
    dsimp only
    rw [getline_at hsize (lf_notMem_text _)]
    dsimp only
    rw [getline_at hlm (lf_notMem_text _)]
    dsimp only
    rw [good_inputAt, if_neg (by decide), strtoul_uint64, strtoul_uint64, strtoul_uint64,
      if_neg (by simp), UInt64.ofNat_toNat, UInt64.ofNat_toNat, UInt64.ofNat_toNat]
    exact hq

theorem length_posText {pos : UInt64} (h : pos.toNat < 10 ^ 16) : (posText pos).length = 16 := by
  have hlen : (text 10 pos.toNat).length ≤ 16 := by
    rw [Misc.text_length]
    exact (Nat.length_toDigits_le_iff (by decide) (by decide)).mpr h
  unfold posText
  rw [List.length_append, List.length_replicate]
  omega

theorem lf_notMem_posText (pos : UInt64) : lf ∉ posText pos := by
  intro h
  rcases List.mem_append.mp h with h | h
  · cases List.eq_of_mem_replicate h
  · exact lf_notMem_text _ h

theorem length_flatMap_nodeText (entries : List (Text × Node)) : entries.length ≤ (entries.flatMap nodeText).length := by
  induction entries with
  | nil => exact Nat.le_refl 0
  | cons e entries ih =>
    simp only [List.flatMap_cons, nodeText, List.length_append, List.length_cons] at ih ⊢
    omega

theorem getElem?_of_drop {c : UInt8} (h : data.drop p = c :: rest) : data[p]? = some c := by
  rw [← List.head?_drop, h]
  rfl

theorem get_at {c : UInt8} (h : data.drop p = c :: rest) : (inputAt data p).get memBuf = (some c, inputAt data (p + 1)) := by
  have hc := getElem?_of_drop h
  have hlt : p < data.length := (List.getElem?_eq_some_iff.mp hc).1
  have hbump : memBuf.sbumpc (Mem.mk data p) = (some c, Mem.mk data (p + 1)) :=
    Prod.ext hc (congrArg (Mem.mk data) (if_pos hlt))
  unfold Istream.get inputAt
  simp only [hbump]
  rfl

theorem peek_at {c : UInt8} (h : data.drop p = c :: rest) : (inputAt data p).peek memBuf = (some c, inputAt data p) := by
  have hpeek : memBuf.sgetc (Mem.mk data p) = (some c, Mem.mk data p) := Prod.ext (getElem?_of_drop h) rfl
  unfold Istream.peek inputAt
  simp only [hpeek]
  rfl

theorem unget_at (h : 0 < p) : (inputAt data p).back memBuf none = inputAt data (p - 1) := by
  have hback : memBuf.pback none (Mem.mk data p) = (true, Mem.mk data (p - 1)) := if_pos ⟨h, Or.inl rfl⟩
  unfold Istream.back inputAt
  simp only [hback]
  rfl

theorem read_at (h : p + n ≤ data.length) :
    (inputAt data p).read memBuf n = ((data.drop p).take n, inputAt data (p + n)) := by
  have hlen : ((data.drop p).take n).length = n := by
    rw [List.length_take, List.length_drop]
    omega
  have hget : memBuf.sgetn n (Mem.mk data p) = ((data.drop p).take n, Mem.mk data (p + n)) :=
    congrArg (fun k => ((data.drop p).take n, Mem.mk data (p + k))) hlen
  unfold Istream.read
  rw [if_pos (good_inputAt data p)]
  dsimp only [inputAt]
  rw [hget, hlen]
  simp

/-- **The table of contents is read back.** -/
theorem readTOC_eq {pos : UInt64} (hpos : pos.toNat = data.length) (hlt : pos.toNat < 10 ^ 16)
    (hplain : ∀ e ∈ toc.entries, Plain e.1) : ∃ q, readTOC (inputAt (data ++ tocText toc.entries pos) 0) SortedMap.empty =
      .ok (toc, inputAt (data ++ tocText toc.entries pos) q) := by
  generalize himage : data ++ tocText toc.entries pos = image
  have hlen := length_posText hlt
  obtain ⟨front, hfront⟩ : ∃ front, image = front ++ (posText pos ++ lf :: []) := by
    refine ⟨data ++ (toc.entries.flatMap nodeText ++ (lf :: endOfToc ++ [lf])), ?_⟩
    rw [← himage, tocText]
    simp
  have himagelen : image.length = front.length + 17 := by
    rw [hfront]
    simp [hlen]
  -- the position of the table is in the last line
  have hend : (inputAt image 0).seekg memBuf (-17) .fin = inputAt image front.length :=
    seekg_at (by simp only [Mem.origin]; omega) (by omega)
  have hline : image.drop front.length = posText pos ++ lf :: [] := by rw [hfront, List.drop_left]
  have hstart : image.drop data.length = tocText toc.entries pos := by rw [← himage, List.drop_left]
  have htoc : (inputAt image (front.length + 16 + 1)).seekg memBuf pos.toNat .beg = inputAt image data.length :=
    seekg_at (by simp [Mem.origin, hpos]) (by rw [← himage, List.length_append]; omega)
  have htext : tocText toc.entries pos =
      toc.entries.flatMap nodeText ++ (lf :: endOfToc ++ lf :: (posText pos ++ [lf])) := by simp [tocText]
  obtain ⟨next, hnext⟩ : ∃ next, tocText toc.entries pos = lf :: next := by
    rw [htext]
    cases toc.entries with
    | nil => exact ⟨_, rfl⟩
    | cons e entries => exact ⟨_, rfl⟩
  have hfuel : toc.entries.length < image.length + 1 := by
    have := length_flatMap_nodeText toc.entries
    rw [← himage, htext, List.length_append, List.length_append]
    omega
  have hdrop : lf :: image.drop (data.length + 1) = tocText toc.entries pos := by
    rw [← List.drop_drop, hstart, hnext]
    rfl
  obtain ⟨q, hq⟩ := readNodes_entries _ toc.entries _ _ SortedMap.empty hfuel hplain (hdrop.trans htext)
  have hstream : unsignedToStreamsize pos.toNat = pos.toNat := if_neg (by omega)
  refine ⟨q, ?_⟩
  have hread : strtoul (posText pos) = (pos.toNat, []) := strtoul_text _ pos.toNat_lt
  rw [SortedMap.foldl_insert toc toc.entries SortedMap.empty rfl] at hq
  have hpositive : ¬(pos.toNat : Int) < 0 := by omega
  unfold readTOC
  simp [hend, getline_at hline (lf_notMem_posText pos), hlen, hread, hstream, htoc, get_at (hstart.trans hnext),
    good_inputAt, hpositive]
  exact hq

/-! ## Open files -/

/-- An open file, at the place in its content where it was read to. -/
structure FileBuf.At (data : Text) (beg : Nat) (b : FileBuf) (m : Mem UInt8) : Prop where
  stream : b.stream = inputAt data (beg + m.pos)
  beg_eq : b.beg = beg
  pos : b.pos = m.pos
  size : b.size = m.data.length
  pos_le : m.pos ≤ m.data.length
  beg_le : beg ≤ data.length
  content : m.data = (data.drop beg).take m.data.length

/-- A 64-bit offset. -/
def Offset (off : Int) : Prop := -2 ^ 63 ≤ off ∧ off < 2 ^ 63

section

variable {beg : Nat} {b : FileBuf} {m : Mem UInt8}

theorem FileBuf.At.length_le (h : b.At data beg m) : m.data.length ≤ data.length - beg := by
  have hlen := congrArg List.length h.content
  rw [List.length_take, List.length_drop] at hlen
  omega

/-- What is behind a place in the content stands behind the same place in the data. -/
theorem FileBuf.At.getElem? (h : b.At data beg m) (hlt : p < m.data.length) : data[beg + p]? = m.data[p]? := by
  rw [h.content, List.getElem?_take_of_lt hlt, List.getElem?_drop]

theorem FileBuf.At.take (h : b.At data beg m) (hn : m.pos + n ≤ m.data.length) :
    (data.drop (beg + m.pos)).take n = (m.data.drop m.pos).take n := by
  rw [h.content, List.drop_take, List.drop_drop, List.take_take, Nat.min_eq_left (by omega)]

theorem FileBuf.At.sgetn (h : b.At data beg m) (hdata : data.length < 2 ^ 63) (n : Nat) :
    Alike (FileBuf.At data beg) (fileBuf.sgetn n b) (memBuf.sgetn n m) := by
  have hle := h.length_le
  have hpos := h.pos_le
  show Alike _ (b.xsgetn n) _
  unfold FileBuf.xsgetn
  rw [h.size, h.pos]
  by_cases hend : m.data.length ≤ m.pos
  · rw [if_pos hend]
    have hnil : m.data.drop m.pos = [] := List.drop_eq_nil_iff.mpr hend
    simp only [memBuf, hnil, List.take_nil]
    exact ⟨rfl, h⟩
  · have hstream : unsignedToStreamsize (m.data.length - m.pos) = (m.data.length - m.pos : Nat) := if_neg (by omega)
    have hamount : (if (n : Int) < (m.data.length - m.pos : Nat) then (n : Int) else (m.data.length - m.pos : Nat)) =
        (min n (m.data.length - m.pos) : Nat) := by
      split_ifs <;> omega
    have htake := h.take (n := min n (m.data.length - m.pos)) (by omega)
    have hsame : (m.data.drop m.pos).take (min n (m.data.length - m.pos)) = (m.data.drop m.pos).take n := by
      rw [← List.length_drop, ← List.take_take, List.take_length]
    have hlen : ((m.data.drop m.pos).take n).length = min n (m.data.length - m.pos) := by simp
    have hread : (inputAt data (beg + m.pos)).read memBuf (min n (m.data.length - m.pos) : Nat) = _ := read_at (by omega)
    rw [htake, hsame, Nat.add_assoc] at hread
    have hmem : memBuf.sgetn n m =
        ((m.data.drop m.pos).take n, Mem.mk m.data (m.pos + min n (m.data.length - m.pos))) :=
      congrArg (fun k => ((m.data.drop m.pos).take n, Mem.mk m.data (m.pos + k))) hlen
    rw [if_neg hend, h.stream, hstream, hmem]
    dsimp only
    rw [hamount, Int.toNat_natCast, hread, hlen, if_neg (not_not.mpr rfl)]
    exact ⟨rfl, rfl, h.beg_eq, rfl, rfl, by simp only; omega, h.beg_le, h.content⟩

/-- The byte in front of which an open file is. -/
theorem FileBuf.At.current (h : b.At data beg m) (hlt : m.pos < m.data.length) :
    ∃ c rest, m.data[m.pos]? = some c ∧ data.drop (beg + m.pos) = c :: rest := by
  have hbyte := h.getElem? hlt
  rw [List.getElem?_eq_getElem hlt] at hbyte
  obtain ⟨hlt', hbyte⟩ := List.getElem?_eq_some_iff.mp hbyte
  exact ⟨_, _, List.getElem?_eq_getElem hlt, hbyte ▸ List.drop_eq_getElem_cons hlt'⟩

theorem FileBuf.At.sgetc (h : b.At data beg m) : Alike (FileBuf.At data beg) (fileBuf.sgetc b) (memBuf.sgetc m) := by
  show Alike _ b.underflow (m.data[m.pos]?, m)
  unfold FileBuf.underflow
  rw [h.size, h.pos, h.stream]
  by_cases hend : m.data.length ≤ m.pos
  · rw [if_pos hend, List.getElem?_eq_none hend]
    exact ⟨rfl, h⟩
  · obtain ⟨c, rest, hc, hdrop⟩ := h.current (Nat.lt_of_not_le hend)
    rw [if_neg hend, hc, peek_at hdrop]
    exact ⟨rfl, rfl, h.beg_eq, rfl, rfl, h.pos_le, h.beg_le, h.content⟩

theorem FileBuf.At.sbumpc (h : b.At data beg m) : Alike (FileBuf.At data beg) (fileBuf.sbumpc b) (memBuf.sbumpc m) := by
  show Alike _ b.uflow (m.data[m.pos]?, Mem.mk m.data (if m.pos < m.data.length then m.pos + 1 else m.pos))
  unfold FileBuf.uflow
  rw [h.size, h.pos, h.stream]
  by_cases hend : m.data.length ≤ m.pos
  · rw [if_pos hend, List.getElem?_eq_none hend, if_neg (Nat.not_lt.mpr hend)]
    exact ⟨rfl, h⟩
  · obtain ⟨c, rest, hc, hdrop⟩ := h.current (Nat.lt_of_not_le hend)
    rw [if_neg hend, hc, if_pos (Nat.lt_of_not_le hend), get_at hdrop]
    exact ⟨rfl, rfl, h.beg_eq, rfl, rfl, Nat.lt_of_not_le hend, h.beg_le, h.content⟩

theorem FileBuf.At.sungetc (h : b.At data beg m) :
    Alike (FileBuf.At data beg) (fileBuf.pback none b) (memBuf.pback none m) := by
  show Alike _ (b.pbackfail none) _
  unfold FileBuf.pbackfail
  rw [h.pos, h.stream]
  by_cases hstart : m.pos = 0
  · have hmem : memBuf.pback none m = (false, m) := if_neg (by omega)
    rw [if_pos hstart, hmem]
    exact ⟨rfl, h⟩
  · have hmem : memBuf.pback none m = (true, Mem.mk m.data (m.pos - 1)) := if_pos ⟨by omega, Or.inl rfl⟩
    rw [if_neg hstart, hmem, unget_at (by omega)]
    dsimp only
    rw [good_inputAt, if_neg (by decide)]
    refine ⟨rfl, ?_, h.beg_eq, rfl, h.size, Nat.le_trans (Nat.sub_le _ _) h.pos_le, h.beg_le, h.content⟩
    show inputAt data (beg + m.pos - 1) = inputAt data (beg + (m.pos - 1))
    rw [Nat.add_sub_assoc (by omega)]

/-- A seek to a place in the content. -/
theorem FileBuf.At.seekpos (h : b.At data beg m) (hdata : data.length < 2 ^ 63) {target : Nat}
    (hle : target ≤ m.data.length) :
    Alike (FileBuf.At data beg) (b.seekpos target) (some target, Mem.mk m.data target) := by
  have hlen := h.length_le
  have hbeg := h.beg_le
  unfold FileBuf.seekpos
  rw [h.size, h.pos, if_neg (by omega)]
  by_cases hsame : (target : Int) = m.pos
  · obtain rfl : target = m.pos := by omega
    rw [if_pos hsame]
    exact ⟨rfl, h⟩
  · have hstream : unsignedToStreamsize ((beg + target) % 2 ^ 64) = (beg + target : Nat) := by
      rw [Nat.mod_eq_of_lt (by omega)]
      exact if_neg (by omega)
    have hseek : (inputAt data (beg + m.pos)).seekg memBuf (beg + target : Nat) .beg = inputAt data (beg + target) :=
      seekg_at (by simp [Mem.origin]) (by omega)
    rw [if_neg hsame, h.beg_eq, Int.toNat_natCast]
    dsimp only
    rw [hstream, if_neg (by omega), h.stream, hseek]
    exact ⟨rfl, rfl, rfl, rfl, rfl, hle, hbeg, h.content⟩

theorem FileBuf.At.seekoff (h : b.At data beg m) (hdata : data.length < 2 ^ 63) {off : Int} (hoff : Offset off)
    (way : Way) : Alike (FileBuf.At data beg) (fileBuf.seekoff off way b) (memBuf.seekoff off way m) := by
  have hlen := h.length_le
  have hpos := h.pos_le
  obtain ⟨hlow, hhigh⟩ := hoff
  show Alike _ (b.seekoff off way) _
  obtain ⟨origin, horigin, hmem, hle⟩ : ∃ origin : Nat, b.origin way = origin ∧ m.origin way = origin ∧
      origin ≤ m.data.length := by
    cases way with
    | beg => exact ⟨0, rfl, rfl, Nat.zero_le _⟩
    | cur => exact ⟨m.pos, h.pos, rfl, hpos⟩
    | fin => exact ⟨m.data.length, h.size, rfl, Nat.le_refl _⟩
  have hmemory : memBuf.seekoff off way m = if 0 ≤ (origin : Int) + off ∧ (origin : Int) + off ≤ m.data.length
      then (some (origin + off).toNat, Mem.mk m.data (origin + off).toNat) else (none, m) := by
    rw [← hmem]
    rfl
  unfold FileBuf.seekoff
  rw [hmemory, horigin]
  by_cases hfront : (origin : Int) + off < 0
  · rw [if_pos (by omega), if_neg (by omega)]
    exact ⟨rfl, h⟩
  · obtain ⟨target, htarget⟩ : ∃ target : Nat, (origin : Int) + off = target := Int.eq_ofNat_of_zero_le (by omega)
    have hmod : ((target : Int) % 2 ^ 64).toNat = target := by omega
    rw [if_neg (by omega), htarget]
    dsimp only
    rw [hmod, Int.toNat_natCast]
    by_cases hbehind : m.data.length < target
    · rw [if_neg fun hin : 0 ≤ (target : Int) ∧ (target : Int) ≤ m.data.length => by omega]
      -- too far for a `std::streamsize`, or only for the file
      unfold unsignedToStreamsize
      by_cases hbig : 2 ^ 63 ≤ target
      · rw [if_pos hbig]
        exact ⟨rfl, h⟩
      · rw [if_neg hbig, if_neg (by omega)]
        unfold FileBuf.seekpos
        rw [h.size, if_pos (by omega)]
        exact ⟨rfl, h⟩
    · have hstream : unsignedToStreamsize target = target := if_neg (by omega)
      rw [hstream, if_neg (by omega), if_pos (by omega)]
      exact h.seekpos hdata (by omega)

/-- **An open file is read like its content in memory.** -/
theorem fileBuf_like (hdata : data.length < 2 ^ 63) (beg : Nat) :
    fileBuf.Like memBuf (FileBuf.At data beg) Offset where
  sgetn h n := h.sgetn hdata n
  sbumpc h := h.sbumpc
  sgetc h := h.sgetc
  sungetc h := h.sungetc
  seekoff h _ way hoff := h.seekoff hdata hoff way
  zero := ⟨by decide, by decide⟩

end

/-! ## The reader -/

/-- A reader of a stream, for the files that are in it. -/
structure Reader.Reads (image : Text) (r : Reader) (t : Shelf) : Prop where
  cwd : r.cwd = [slash]
  stored : ∀ k, Option.Rel (Stored image) (r.toc.find k) (t.files.find k)
  source : match r.source, t.file with
    | .stream s, none => ∃ q, s = inputAt image q ∧ (r.pos.toNat = 2 ^ 64 - 1 ∨ r.pos.toNat = q)
    | .file f, some g => f.Like (FileBuf.At image r.pos.toNat) g
    | _, _ => False

/-- Nothing is put back, and the offsets have 64 bits. -/
def ReaderOp.ok : ReaderOp → Prop
  | .file op => op.ok Offset
  | _ => True

section

variable {r : Reader} {t : Shelf} {nn : Text}

theorem rel_none {α β : Type} {p : α → β → Prop} {y : Option β} (h : Option.Rel p none y) : y = none := by
  cases h
  rfl

theorem rel_some {α β : Type} {p : α → β → Prop} {a : α} {y : Option β} (h : Option.Rel p (some a) y) :
    ∃ b, y = some b ∧ p a b := by
  cases h with
  | some h => exact ⟨_, rfl, h⟩

/-- A directory is there when a file below it is. -/
theorem exist_congr {α β : Type} {m : SortedMap Text α} {m' : SortedMap Text β}
    (h : ∀ k, (m.find k).isSome = (m'.find k).isSome) (nn : Text) : exist m nn = exist m' nn := by
  have hany : (m.entries.any fun e => below nn e.1) = m'.entries.any fun e => below nn e.1 := by
    rw [Bool.eq_iff_iff, SortedMap.any_keys, SortedMap.any_keys]
    simp [h]
  unfold exist
  rw [h, hany]

/-- A file that is stored, when it is opened where the stream is. -/
theorem Stored.like {node : Node} {f : FileData} (h : Stored image node f) :
    Istream.Like (FileBuf.At image node.pos.toNat)
      { buf := { stream := inputAt image node.pos.toNat, beg := node.pos.toNat, size := node.size.toNat } }
      { buf := { data := f.content } } := by
  obtain ⟨front, back, rfl, hpos, hsize, -⟩ := h
  refine ⟨⟨rfl, rfl, rfl, hsize, Nat.zero_le _, ?_, ?_⟩, rfl, rfl, rfl⟩
  · rw [hpos, List.append_assoc, List.length_append]
    exact Nat.le_add_right _ _
  · rw [hpos, List.append_assoc, List.drop_left, List.take_left]

theorem Stored.pos_le {node : Node} {f : FileData} (h : Stored image node f) : node.pos.toNat ≤ image.length := by
  obtain ⟨front, back, rfl, hpos, -⟩ := h
  rw [hpos, List.append_assoc, List.length_append]
  exact Nat.le_add_right _ _

/-- Either no file is open, or the same one. -/
theorem Reader.Reads.cases (h : r.Reads image t) :
    (∃ q, r.source = .stream (inputAt image q) ∧ t.file = none ∧ (r.pos.toNat = 2 ^ 64 - 1 ∨ r.pos.toNat = q)) ∨
      ∃ f g, r.source = .file f ∧ t.file = some g ∧ f.Like (FileBuf.At image r.pos.toNat) g := by
  have hsource := h.source
  cases hr : r.source <;> cases ht : t.file <;> rw [hr, ht] at hsource
  · obtain ⟨q, rfl, hpos⟩ := hsource
    exact Or.inl ⟨q, rfl, rfl, hpos⟩
  · exact hsource.elim
  · exact hsource.elim
  · exact Or.inr ⟨_, _, rfl, rfl, hsource⟩

theorem Reader.Reads.openStream (himage : image.length < 2 ^ 63) (h : r.Reads image t) {q : Nat}
    (hpos : r.pos.toNat = 2 ^ 64 - 1 ∨ r.pos.toNat = q) (fileName : Text) :
    Alike (Reader.Reads image) (r.openStream (inputAt image q) fileName) (t.openReadonly fileName) := by
  unfold Reader.openStream Shelf.openReadonly
  rw [h.cwd]
  cases hnn : joinNames [slash] fileName with
  | none => exact ⟨rfl, h⟩
  | some nn =>
    have hstored := h.stored nn
    dsimp only
    cases hnode : r.toc.find nn with
    | none =>
      rw [hnode] at hstored
      rw [rel_none hstored]
      exact ⟨rfl, h⟩
    | some node =>
      rw [hnode] at hstored
      obtain ⟨f, hf, hstored⟩ := rel_some hstored
      have hle := hstored.pos_le
      rw [hf]
      dsimp only
      by_cases hsame : node.pos = r.pos
      · -- the stream is where the file begins: it was read to there
        obtain rfl : r.pos.toNat = q := hpos.resolve_left fun hnever => by rw [hsame] at hle; omega
        rw [if_pos hsame, ← hsame]
        exact ⟨rfl, rfl, h.stored, by simpa [hsame] using hstored.like⟩
      · have hstream : unsignedToStreamsize node.pos.toNat = node.pos.toNat := if_neg (by omega)
        have hseek : (inputAt image q).seekg memBuf node.pos.toNat .beg = inputAt image node.pos.toNat :=
          seekg_at (by simp [Mem.origin]) hle
        rw [if_neg hsame, hstream, if_neg (by omega), hseek, good_inputAt, if_neg (by decide)]
        exact ⟨rfl, rfl, h.stored, hstored.like⟩

/-- What is found in the table is found on the shelf. -/
theorem Reader.Reads.ofFile (h : r.Reads image t) {f : Node → ReaderAnswer} {g : FileData → ReaderAnswer}
    (hfg : ∀ node d, Stored image node d → f node = g d) (nn : Text) :
    ofFile (r.toc.find nn) f = ofFile (t.files.find nn) g := by
  have hstored := h.stored nn
  cases hnode : r.toc.find nn with
  | none =>
    rw [hnode] at hstored
    rw [rel_none hstored]
    rfl
  | some node =>
    rw [hnode] at hstored
    obtain ⟨d, hd, hstored⟩ := rel_some hstored
    rw [hd]
    exact hfg node d hstored

/-- The stream is behind what was read of the file when it is closed. -/
theorem Reader.Reads.closeFile (himage : image.length < 2 ^ 63) (h : r.Reads image t) {f : Istream FileBuf}
    {g : Istream (Mem UInt8)} (hlike : f.Like (FileBuf.At image r.pos.toNat) g) :
    Alike (Reader.Reads image) (r.closeFile f) (.done, { t with file := none }) := by
  have hlen := hlike.buf.length_le
  have hbeg := hlike.buf.beg_le
  have hle := hlike.buf.pos_le
  -- the position of the file is that in its content, and the stream stays
  have hzero : Offset 0 := ⟨by decide, by decide⟩
  have hmem : memBuf.seekoff 0 .cur g.buf = (some g.buf.pos, g.buf) := seekoff_at (by simp [Mem.origin]) hle
  obtain ⟨hanswer, hnext⟩ := hlike.buf.seekoff himage hzero .cur
  rw [hmem] at hanswer hnext
  have hread : (UInt64.ofNat g.buf.pos).toNat = g.buf.pos :=
    UInt64.toNat_ofNat_of_lt' (Nat.lt_of_le_of_lt (by omega : g.buf.pos ≤ image.length) (Nat.lt_trans himage (by decide)))
  have hclear : f.clear.good = true := rfl
  unfold Reader.closeFile Istream.tellg
  rw [if_pos hclear]
  dsimp only [Istream.clear]
  rw [hanswer]
  dsimp only
  rw [hnext.stream, good_inputAt, if_pos rfl]
  refine ⟨rfl, h.cwd, h.stored, _, rfl, Or.inr ?_⟩
  show (r.pos + .ofNat g.buf.pos).toNat = _
  rw [UInt64.toNat_add, hread, Nat.mod_eq_of_lt (by omega)]

/-- A step of the reader is one of the shelf. -/
theorem Reader.Reads.step (himage : image.length < 2 ^ 63) (h : r.Reads image t) (op : ReaderOp) (hop : op.ok) :
    Alike (Reader.Reads image) (r.step op) (t.step op) := by
  have hsome (k : Text) := rel_isSome (h.stored k)
  unfold Reader.step Shelf.step
  cases op with
  | exist fileName =>
    refine ⟨?_, h⟩
    dsimp only
    rw [h.cwd]
    exact congrArg (withName [slash] fileName) (funext fun nn => congrArg ReaderAnswer.found (exist_congr hsome nn))
  | size fileName =>
    refine ⟨?_, h⟩
    dsimp only
    rw [h.cwd]
    refine congrArg (withName [slash] fileName) (funext fun nn => h.ofFile (fun node d hstored => ?_) nn)
    obtain ⟨front, back, -, -, hsize, -⟩ := hstored
    rw [hsize]
  | lastModified fileName =>
    refine ⟨?_, h⟩
    dsimp only
    rw [h.cwd]
    refine congrArg (withName [slash] fileName) (funext fun nn => h.ofFile (fun node d hstored => ?_) nn)
    obtain ⟨front, back, -, -, -, hlm⟩ := hstored
    rw [hlm]
  | openReadonly fileName =>
    rcases h.cases with ⟨q, hsource, hfile, hpos⟩ | ⟨f, g, hsource, hfile, -⟩
    · rw [hsource, hfile]
      exact h.openStream himage hpos fileName
    · rw [hsource, hfile]
      exact ⟨rfl, h⟩
  | file op =>
    rcases h.cases with ⟨q, hsource, hfile, -⟩ | ⟨f, g, hsource, hfile, hlike⟩
    · rw [hsource, hfile]
      exact ⟨rfl, h⟩
    · rw [hsource, hfile]
      obtain ⟨hanswer, hnext⟩ := hlike.step (fileBuf_like himage r.pos.toNat) hop
      exact ⟨congrArg ReaderAnswer.file hanswer, h.cwd, h.stored, hnext⟩
  | close =>
    rcases h.cases with ⟨q, hsource, hfile, -⟩ | ⟨f, g, hsource, hfile, hlike⟩
    · rw [hsource, hfile]
      exact ⟨rfl, h⟩
    · rw [hsource, hfile]
      exact h.closeFile himage hlike

end

/-! ## Written and read -/

/-- A reader of what a writer left has the writer's table. -/
theorem openFs_eq {w w' : Writer} {t : Draft} (hw : w.Holds t) (hclose : w.closeFs = some (.closed image, w'))
    (hlen : image.length < 10 ^ 16) :
    ∃ r, Reader.openFs image = .ok r ∧ r.Reads image { files := t.files } := by
  obtain ⟨hopen, s, hs, -, rfl⟩ := closeFs_closed hclose
  obtain ⟨s', hs', -, hcurrent⟩ := hw.stream
  obtain rfl : s = s' := Option.some.inj (hs.symm.trans hs')
  unfold Writer.Current at hcurrent
  cases hfile : t.file with
  | some f =>
    rw [hfile, hopen] at hcurrent
    exact absurd hcurrent.2.1 (by decide)
  | none =>
    rw [hfile] at hcurrent
    obtain ⟨-, -, hpos, hstored⟩ := hcurrent
    have hplain : ∀ e ∈ w.toc.entries, Plain e.1 := fun e he =>
      hw.plain e.1 ((SortedMap.findEntry_isSome _ _).mpr ⟨e, he, rfl⟩)
    rw [List.length_append] at hlen
    obtain ⟨q, hq⟩ := readTOC_eq hpos (by omega) hplain
    refine ⟨.mk (.stream (inputAt (s.data ++ tocText w.toc.entries w.pos) q)) w.toc [slash] (.ofNat (2 ^ 64 - 1)),
      ?_, rfl, ?_, ?_⟩
    · unfold Reader.openFs
      exact congrArg (· >>= _) hq
    · exact fun k => rel_mono (hstored k) fun _ _ h => h.append _
    · exact ⟨q, rfl, Or.inl rfl⟩

/-- **What was written is what is read.** Whatever was done with a writer whose files have names without a line feed,
the reader opens what it left, and answers to any questions like the files that were written. -/
theorem streamFs_round_trip {space : Nat} {w₀ w : Writer} {ops : List WriterOp} {results : List Result}
    (hopen : ({} : Writer).openFs space = some (.done, w₀)) (hplain : ∀ op ∈ ops, op.plain)
    (hrun : w₀.run ops = some (results, w)) (hclose : w.closeFs.map Prod.fst = some (.closed image))
    (hlen : image.length < 10 ^ 16) :
    ∃ t r, ({} : Draft).run ops = some (results, t) ∧ Reader.openFs image = .ok r ∧
      ∀ reads : List ReaderOp, (∀ op ∈ reads, op.ok) →
        answers Reader.step r reads = answers Shelf.step { files := t.files } reads := by
  obtain ⟨⟨_, w'⟩, hclose, rfl⟩ := Option.map_eq_some_iff.mp hclose
  obtain ⟨-, s, hs, hgood, himage⟩ := closeFs_closed hclose
  have hfine : w.Fine := ⟨s, hs, hgood, by
    rw [himage, List.length_append] at hlen
    omega⟩
  obtain ⟨t, ht, hw⟩ := (holds_openFs hopen).run ops hplain hrun hfine
  obtain ⟨r, hr, hreads⟩ := openFs_eq hw hclose hlen
  exact ⟨t, r, ht, hr, fun reads hok =>
    answers_eq (fun h op hop => Reader.Reads.step (Nat.lt_trans hlen (by decide)) h op hop) reads hok hreads⟩

/-- A file `b` that is written in two parts, and then a file `a`, which comes first in the table. -/
theorem streamFs_round_trip_files : ∃ t r,
    ({} : Draft).run [.openWriteonly [98], .write [7], .write [8, 9], .close 5, .openWriteonly [97],
        .write [6], .close 7] = some (List.replicate 7 .done, t) ∧
      Reader.openFs ([7, 8, 9, 6] ++ tocText [([47, 97], { pos := 3, size := 1, lastModified := 7 }),
        ([47, 98], { size := 3, lastModified := 5 })] 4) = .ok r ∧
      ∀ reads : List ReaderOp, (∀ op ∈ reads, op.ok) →
        answers Reader.step r reads = answers Shelf.step { files := t.files } reads := by
  refine @streamFs_round_trip _ 100 _ _ _ _ rfl (by simp [WriterOp.plain, lf]) rfl ?_ (by decide)
  rw [closeFs_of_good rfl rfl rfl]
  rfl

end OpenCpi.StreamFs
