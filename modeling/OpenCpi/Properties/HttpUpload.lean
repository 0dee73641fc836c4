import OpenCpi.Http.Upload
import OpenCpi.Properties.HttpHead

/-!
# What an upload stores

The server stores a body with a length when nothing follows it: the cases of the amount to read are
interchanged, so that a body with a length is read in whole buffers and one without is not read at all. A
length that is a multiple of the buffer is counted down to zero on a connection that is still good, and the
outer loop goes on for ever. A body in chunks is stored, but the connection is left before the empty line at
its end.
-/

namespace OpenCpi.Http

open Value (Text)
open Sim (ascii digitOf digits)

/-! ## Requests -/

/-- The line of a chunk: a hexadecimal size, and an extension. -/
structure SizeLine where
  size : Text
  ext : Text
  plain : ∀ c ∈ size, (digitOf 16 c).isSome
  size_ne : size ≠ []
  semicolon : ext = [] ∨ ext.head? = some 59
  line : Line (size ++ ext)

def SizeLine.value (l : SizeLine) : Nat := (digits 16 0 0 l.size).1

def SizeLine.text (l : SizeLine) : Text := l.size ++ l.ext

/-- A chunk of an upload. -/
structure UploadChunk where
  line : SizeLine
  data : Text
  counts : line.value = data.length
  data_ne : data ≠ []
  fits : data.length < 2 ^ 63

def UploadChunk.bytes (c : UploadChunk) : Text := c.line.text ++ (crlf ++ (c.data ++ crlf))

/-- The line of the last chunk. -/
structure LastLine extends SizeLine where
  zero : toSizeLine.value = 0

/-- The body of a request: in chunks, with a length, or up to the end of the connection. -/
inductive Body where
  | chunked (chunks : List UploadChunk) (last : LastLine) (trailer : Text)
  | counted (data : Text)
  | closed (data : Text)

namespace Body

def data : Body → Text
  | chunked chunks _ _ => (chunks.map UploadChunk.data).flatten
  | counted data => data
  | closed data => data

/-- The bytes that are sent. The empty line ends a body in chunks, after the trailer. -/
def encoded : Body → Text
  | chunked chunks last trailer =>
    (chunks.map UploadChunk.bytes).flatten ++ (last.text ++ (crlf ++ (trailer ++ crlf)))
  | counted data => data
  | closed data => data

/-- The headers say how the body is framed. -/
def Framed (r : PutRequest) : Body → Prop
  | chunked _ _ _ => r.version = .http11 ∧
      r.headers.find (ascii "Transfer-Encoding") = some (ascii "chunked") ∧
      r.headers.find (ascii "Content-Length") = none
  | counted data => r.headers.find (ascii "Transfer-Encoding") = none ∧ data.length < 2 ^ 63 ∧
      ∃ value, r.headers.find (ascii "Content-Length") = some value ∧ value ≠ [] ∧
        (∀ c ∈ value, (digitOf 10 c).isSome) ∧ (digits 10 0 0 value).1 = data.length
  | closed _ => r.headers.find (ascii "Transfer-Encoding") = none ∧
      r.headers.find (ascii "Content-Length") = none

/-- What may follow a body: nothing, if the end of the connection ends it. -/
def Followed (rest : Text) : Body → Prop
  | closed _ => rest = []
  | _ => True

/-- When a body is stored. -/
def Stored (rest : Text) : Body → Prop
  | chunked _ _ _ => False
  | counted data => ¬dataBufferSize ∣ data.length ∧ rest = []
  | closed data => data = []

end Body

/-- **A body is uploaded**: the server gets to the end, the file is the body, and the connection is behind
the request. -/
def Uploaded (r : PutRequest) (body : Body) (rest : Text) : Prop :=
  ∃ fuel conn closeConnection, conn.bytes = rest ∧
    processPutRequest fuel r ⟨body.encoded ++ rest, true⟩ = some (.created body.data conn closeConnection)

variable {r : PutRequest} {s s' : PutState} {data more rest : Text} {fuel : Nat} {e : PutEnd}

/-! ## Chunks -/

theorem SizeLine.strtoul_text (l : SizeLine) (h : l.value < 2 ^ 64) : strtoul 16 l.text = (l.value, l.ext) :=
  strtoul_digits (by decide) l.size_ne l.plain l.semicolon h

theorem SizeLine.length_pos (l : SizeLine) : l.text.length ≠ 0 := by
  unfold SizeLine.text
  rw [List.length_append]
  have := List.length_pos_iff.mpr l.size_ne
  omega

theorem read_front (n : Nat) (h : n ≤ data.length) :
    Conn.read ⟨data ++ more, true⟩ n = (data.take n, ⟨data.drop n ++ more, true⟩) := by
  unfold Conn.read
  rw [if_neg (by exact Bool.false_ne_true), if_neg (by omega), Int.toNat_natCast]
  dsimp only
  rw [List.take_append_of_le_length h, List.drop_append_of_le_length h, List.length_take, Nat.min_eq_left h,
    decide_eq_true rfl]

/-- One turn in a chunk takes a buffer of it. -/
theorem transfer_chunk (hconn : s.conn = ⟨data ++ more, true⟩) (hsize : s.chunkSize = data.length)
    (hfit : data.length < 2 ^ 63) : s.transfer ⟨true, false⟩ = { s with
      conn := ⟨data.drop (min data.length dataBufferSize) ++ more, true⟩
      chunkSize := data.length - min data.length dataBufferSize
      file := s.file ++ data.take (min data.length dataBufferSize) } := by
  have hamount : s.amountToRead ⟨true, false⟩ = (min data.length dataBufferSize : Nat) := by
    unfold PutState.amountToRead unsignedToStreamsize
    rw [if_pos rfl, hsize, if_neg (Nat.not_le.mpr hfit)]
    omega
  have hmin : min data.length dataBufferSize ≤ data.length := Nat.min_le_left _ _
  unfold PutState.transfer
  rw [hamount, hconn, read_front _ hmin, hsize]
  dsimp only
  rw [if_pos rfl, if_neg (by decide), List.length_take, Nat.min_eq_left hmin]
  congr 1
  omega

/-- The inner loop takes a chunk. -/
theorem transferLoop_chunk (hconn : s.conn = ⟨data ++ more, true⟩) (hsize : s.chunkSize = data.length)
    (hfit : data.length < 2 ^ 63) (h : transferLoop ⟨true, false⟩ fuel s = some s') :
    s' = { s with conn := ⟨more, true⟩, chunkSize := 0, file := s.file ++ data } := by
  induction fuel generalizing s data with
  | zero => cases h
  | succ fuel ih =>
    unfold transferLoop at h
    by_cases hne : data = []
    · have hmore : s.more ⟨true, false⟩ = false := by
        unfold PutState.more
        rw [hsize, hne]
        rfl
      rw [hmore, if_neg Bool.false_ne_true] at h
      rw [← Option.some.inj h]
      obtain ⟨conn, chunkSize, contentLength, file⟩ := s
      dsimp only at hconn hsize ⊢
      rw [hconn, hsize, hne, List.append_nil]
      rfl
    · have hpos := List.length_pos_iff.mpr hne
      have hmore : s.more ⟨true, false⟩ = true := by
        unfold PutState.more
        rw [hsize, hconn, decide_eq_true hpos]
        rfl
      rw [hmore, if_pos rfl, transfer_chunk hconn hsize hfit] at h
      rw [@ih _ (data.drop (min data.length dataBufferSize)) rfl (by rw [List.length_drop])
        (by rw [List.length_drop]; omega) h]
      dsimp only
      rw [List.append_assoc, List.take_append_drop]

/-- What comes after a chunk: its empty line, and the next one. -/
def afterChunk (f : Framing) (fuel : Nat) (s : PutState) : Option (Except PutEnd PutState) :=
  if s.chunkSize = 0 then
    let (line, conn) := readline s.conn maxLengthOfHeaderLine
    if line.length ≠ 0 then some (.error refuseChunk) else receiveLoop f fuel { s with conn }
  else receiveLoop f fuel s

/-- The line of a chunk is read; an extension is an error. -/
theorem receiveLoop_line (l : SizeLine) (hvalue : l.value < 2 ^ 64)
    (hconn : s.conn = ⟨l.text ++ (crlf ++ more), true⟩) :
    receiveLoop ⟨true, false⟩ (fuel + 1) s =
      if l.ext ≠ [] then some (.error refuseSize)
      else if l.value = 0 then some (.ok { s with conn := ⟨more, true⟩, chunkSize := l.value })
      else (transferLoop ⟨true, false⟩ fuel { s with conn := ⟨more, true⟩, chunkSize := l.value }).bind
        (afterChunk ⟨true, false⟩ fuel) := by
  have hline : ¬(l.text.length = 0 ∨ l.text.length = maxLengthOfHeaderLine) :=
    not_or.mpr ⟨l.length_pos, Nat.ne_of_lt l.line.short⟩
  have hread : readline ⟨l.text ++ (crlf ++ more), true⟩ maxLengthOfHeaderLine = (l.text, ⟨more, true⟩) :=
    readline_line more l.line
  have hend : atEnd l.ext = true ↔ l.ext = [] := by
    rcases l.semicolon with h | h
    · rw [h]
      exact iff_of_true rfl rfl
    · cases hext : l.ext with
      | nil => exact iff_of_true rfl rfl
      | cons c ext =>
        rw [hext, List.head?_cons, Option.some_inj] at h
        rw [h]
        exact iff_of_false (by exact Bool.false_ne_true) (List.cons_ne_nil _ _)
  unfold receiveLoop
  rw [hconn, if_neg (by exact Bool.false_ne_true), if_pos rfl, hread]
  dsimp only
  rw [if_neg hline, l.strtoul_text hvalue]
  dsimp only
  by_cases hext : l.ext = []
  · rw [hend.mpr hext, if_neg (by exact Bool.false_ne_true), if_neg (fun hne : l.ext ≠ [] => hne hext)]
    rfl
  · rw [Bool.eq_false_iff.mpr (hend.not.mpr hext), if_pos (by rfl), if_pos (show l.ext ≠ [] from hext)]

/-- **Chunks are received one after the other**, up to the line of the last one. -/
theorem receiveLoop_chunks {chunks : List UploadChunk} {last : LastLine}
    (hconn : s.conn = ⟨(chunks.map UploadChunk.bytes).flatten ++ (last.text ++ (crlf ++ more)), true⟩) :
    receiveLoop ⟨true, false⟩ fuel s = none ∨ receiveLoop ⟨true, false⟩ fuel s = some (.error refuseSize) ∨
      ∃ s', receiveLoop ⟨true, false⟩ fuel s = some (.ok s') ∧ s'.conn = ⟨more, true⟩ ∧
        s'.file = s.file ++ (chunks.map UploadChunk.data).flatten := by
  induction chunks generalizing s fuel with
  | nil =>
    cases fuel with
    | zero => exact Or.inl rfl
    | succ fuel =>
      rw [receiveLoop_line last.toSizeLine (by rw [last.zero]; decide) hconn]
      by_cases hext : last.ext = []
      · rw [if_neg (fun hne => hne hext), if_pos last.zero]
        exact Or.inr (Or.inr ⟨_, rfl, rfl, (List.append_nil _).symm⟩)
      · rw [if_pos hext]
        exact Or.inr (Or.inl rfl)
  | cons c chunks ih =>
    cases fuel with
    | zero => exact Or.inl rfl
    | succ fuel =>
      have hbytes : s.conn = ⟨c.line.text ++ (crlf ++ (c.data ++ (crlf ++
          ((chunks.map UploadChunk.bytes).flatten ++ (last.text ++ (crlf ++ more)))))), true⟩ := by
        rw [hconn, List.map_cons, List.flatten_cons]
        unfold UploadChunk.bytes
        simp only [List.append_assoc]
      have hfit : c.line.value < 2 ^ 64 := by
        rw [c.counts]
        exact Nat.lt_trans c.fits (by decide)
      have hne : c.line.value ≠ 0 := c.counts ▸ fun h => c.data_ne (List.length_eq_zero_iff.mp h)
      rw [receiveLoop_line c.line hfit hbytes]
      by_cases hext : c.line.ext = []
      · rw [if_neg (fun h => h hext), if_neg hne]
        cases h : transferLoop ⟨true, false⟩ fuel _ with
        | none => exact Or.inl rfl
        | some s₁ =>
          have hs₁ := transferLoop_chunk rfl c.counts c.fits h
          have hcrlf := readline_line ((chunks.map UploadChunk.bytes).flatten ++ (last.text ++ (crlf ++ more)))
            line_nil
          rw [List.nil_append] at hcrlf
          have hafter : afterChunk ⟨true, false⟩ fuel s₁ = receiveLoop ⟨true, false⟩ fuel { s₁ with
              conn := ⟨(chunks.map UploadChunk.bytes).flatten ++ (last.text ++ (crlf ++ more)), true⟩ } := by
            unfold afterChunk
            rw [hs₁]
            dsimp only
            rw [if_pos rfl, hcrlf]
            exact if_neg (fun hne => hne rfl)
          rw [Option.bind_some, hafter]
          rcases @ih { s₁ with conn := ⟨(chunks.map UploadChunk.bytes).flatten ++
            (last.text ++ (crlf ++ more)), true⟩ } fuel rfl with hnone | herror | ⟨s', hs', hconn', hfile⟩
          · exact Or.inl hnone
          · exact Or.inr (Or.inl herror)
          · refine Or.inr (Or.inr ⟨s', hs', hconn', hfile.trans ?_⟩)
            rw [hs₁, List.map_cons, List.flatten_cons]
            exact List.append_assoc _ _ _
      · rw [if_pos hext]
        exact Or.inr (Or.inl rfl)

/-! ## A length -/

/-- One turn for a body with a length takes a whole buffer, or all that is left. -/
theorem transfer_counted (hgood : s.conn.good = true) : s.transfer ⟨false, true⟩ = { s with
    conn := ⟨s.conn.bytes.drop dataBufferSize, decide ((s.conn.bytes.take dataBufferSize).length = dataBufferSize)⟩
    contentLength := (2 ^ 64 + s.contentLength - (s.conn.bytes.take dataBufferSize).length) % 2 ^ 64
    file := s.file ++ s.conn.bytes.take dataBufferSize } := by
  have hamount : s.amountToRead ⟨false, true⟩ = (dataBufferSize : Nat) := by
    unfold PutState.amountToRead
    rw [if_neg (by exact Bool.false_ne_true), if_neg (by exact Bool.false_ne_true)]
  unfold PutState.transfer
  rw [hamount]
  unfold Conn.read
  rw [hgood, if_neg (by exact Bool.false_ne_true), if_neg (by omega), Int.toNat_natCast]
  rfl

theorem more_counted (hgood : s.conn.good = true) (hlength : 0 < s.contentLength) :
    s.more ⟨false, true⟩ = true := by
  unfold PutState.more
  rw [hgood, decide_eq_true hlength]
  rfl

theorem more_broken {f : Framing} (hgood : s.conn.good = false) : s.more f = false := by
  unfold PutState.more
  rw [hgood, Bool.and_false]

/-- All bytes to the end of the connection are taken when the length is not a multiple of the buffer: the
counter gets below the size of the buffer, and wraps, but is never zero. -/
theorem transferLoop_all (hgood : s.conn.good = true) (hlength : ¬dataBufferSize ∣ s.contentLength)
    (hfit : s.contentLength < 2 ^ 64) (fuel : Nat) :
    ∃ contentLength, transferLoop ⟨false, true⟩ fuel s =
      if s.conn.bytes.length / dataBufferSize + 1 < fuel then
        some { s with conn := ⟨[], false⟩, contentLength, file := s.file ++ s.conn.bytes }
      else none := by
  induction fuel generalizing s with
  | zero => exact ⟨0, (if_neg (Nat.not_lt_zero _)).symm⟩
  | succ fuel ih =>
    have hpos : 0 < s.contentLength := Nat.pos_of_ne_zero fun h => hlength (h ▸ Nat.dvd_zero _)
    unfold transferLoop
    rw [more_counted hgood hpos, if_pos rfl, transfer_counted hgood]
    rcases Nat.lt_or_ge s.conn.bytes.length dataBufferSize with hshort | hlong
    · have htake : s.conn.bytes.take dataBufferSize = s.conn.bytes := List.take_of_length_le (Nat.le_of_lt hshort)
      rw [htake, List.drop_eq_nil_of_le (Nat.le_of_lt hshort), decide_eq_false (Nat.ne_of_lt hshort),
        Nat.div_eq_of_lt hshort]
      refine ⟨(2 ^ 64 + s.contentLength - s.conn.bytes.length) % 2 ^ 64, ?_⟩
      cases fuel with
      | zero => exact (if_neg (Nat.lt_irrefl _)).symm
      | succ fuel =>
        unfold transferLoop
        rw [more_broken rfl, if_neg Bool.false_ne_true, if_pos (by omega)]
    · have htake : (s.conn.bytes.take dataBufferSize).length = dataBufferSize :=
        List.length_take_of_le hlong
      rw [htake, decide_eq_true rfl]
      obtain ⟨contentLength, hrest⟩ := ih (s := { s with
        conn := ⟨s.conn.bytes.drop dataBufferSize, true⟩
        contentLength := (2 ^ 64 + s.contentLength - dataBufferSize) % 2 ^ 64
        file := s.file ++ s.conn.bytes.take dataBufferSize }) rfl (by
          unfold dataBufferSize at hlength ⊢
          dsimp only
          omega) (Nat.mod_lt _ (by decide))
      refine ⟨contentLength, hrest.trans ?_⟩
      dsimp only
      rw [List.append_assoc, List.take_append_drop, List.length_drop]
      refine if_congr ?_ rfl rfl
      unfold dataBufferSize at hlong ⊢
      omega

/-- What keeps the outer loop going: the rest of the body is there, and is whole buffers. -/
structure Endless (s : PutState) : Prop where
  good : s.conn.good = true
  dvd : dataBufferSize ∣ s.contentLength
  le : s.contentLength ≤ s.conn.bytes.length
  lt : s.contentLength < 2 ^ 64

theorem Endless.transfer (h : Endless s) (hpos : 0 < s.contentLength) : Endless (s.transfer ⟨false, true⟩) := by
  have hbuffer : dataBufferSize ≤ s.contentLength := Nat.le_of_dvd hpos h.dvd
  have htake : (s.conn.bytes.take dataBufferSize).length = dataBufferSize :=
    List.length_take_of_le (Nat.le_trans hbuffer h.le)
  have hleft : (2 ^ 64 + s.contentLength - dataBufferSize) % 2 ^ 64 = s.contentLength - dataBufferSize := by
    have := h.lt
    omega
  rw [transfer_counted h.good, htake, hleft]
  refine ⟨decide_eq_true (Eq.refl dataBufferSize), Nat.dvd_sub h.dvd (Nat.dvd_refl _), ?_,
    Nat.lt_of_le_of_lt (Nat.sub_le _ _) h.lt⟩
  dsimp only
  rw [List.length_drop]
  exact Nat.sub_le_sub_right h.le _

theorem Endless.transferLoop (h : Endless s) (hloop : transferLoop ⟨false, true⟩ fuel s = some s') :
    Endless s' := by
  induction fuel generalizing s with
  | zero => cases hloop
  | succ fuel ih =>
    unfold Http.transferLoop at hloop
    rcases Nat.eq_zero_or_pos s.contentLength with hzero | hpos
    · have hmore : s.more ⟨false, true⟩ = false := by
        unfold PutState.more
        rw [hzero]
        rfl
      rw [hmore, if_neg Bool.false_ne_true] at hloop
      exact Option.some.inj hloop ▸ h
    · rw [more_counted h.good hpos, if_pos rfl] at hloop
      exact ih (h.transfer hpos) hloop

/-- **The outer loop has no end** when the inner one comes down to zero. -/
theorem Endless.receiveLoop (h : Endless s) : receiveLoop ⟨false, true⟩ fuel s = none := by
  induction fuel generalizing s with
  | zero => rfl
  | succ fuel ih =>
    unfold Http.receiveLoop
    rw [h.good, if_neg (by exact Bool.false_ne_true), if_neg Bool.false_ne_true]
    cases hloop : Http.transferLoop ⟨false, true⟩ fuel s with
    | none => rfl
    | some s' => exact ih (h.transferLoop hloop)

theorem receiveLoop_all (hgood : s.conn.good = true) (hlength : ¬dataBufferSize ∣ s.contentLength)
    (hfit : s.contentLength < 2 ^ 64) (fuel : Nat) :
    ∃ contentLength, receiveLoop ⟨false, true⟩ fuel s =
      if s.conn.bytes.length / dataBufferSize + 2 < fuel then
        some (.ok { s with conn := ⟨[], false⟩, contentLength, file := s.file ++ s.conn.bytes })
      else none := by
  cases fuel with
  | zero => exact ⟨0, (if_neg (Nat.not_lt_zero _)).symm⟩
  | succ fuel =>
    obtain ⟨contentLength, hloop⟩ := transferLoop_all hgood hlength hfit fuel
    refine ⟨contentLength, ?_⟩
    unfold receiveLoop
    rw [hgood, if_neg (by exact Bool.false_ne_true), if_neg Bool.false_ne_true, hloop]
    by_cases hfuel : s.conn.bytes.length / dataBufferSize + 1 < fuel
    · obtain ⟨fuel, rfl⟩ := Nat.exists_eq_succ_of_ne_zero (Nat.ne_zero_of_lt hfuel)
      rw [if_pos hfuel, if_pos (by omega), Option.bind_some, receiveLoop]
      rfl
    · rw [if_neg hfuel, if_neg (by omega)]
      rfl

/-! ## The end of the connection -/

/-- Nothing is read of a body that the end of the connection ends: the amount to read is negative. -/
theorem receiveLoop_closed (hgood : s.conn.good = true) (hlength : s.contentLength = minusOne) (fuel : Nat) :
    receiveLoop ⟨false, false⟩ fuel s =
      if 2 < fuel then some (.ok { s with conn := ⟨s.conn.bytes, false⟩ }) else none := by
  have hamount : s.amountToRead ⟨false, false⟩ = -1 := by
    unfold PutState.amountToRead
    rw [hlength]
    rfl
  have htransfer : s.transfer ⟨false, false⟩ = { s with conn := ⟨s.conn.bytes, false⟩ } := by
    unfold PutState.transfer
    rw [hamount]
    unfold Conn.read
    rw [hgood, if_neg (by exact Bool.false_ne_true), if_pos (by decide)]
    dsimp only
    rw [List.append_nil]
    rfl
  have hmore : s.more ⟨false, false⟩ = true := by
    unfold PutState.more
    rw [hgood]
    rfl
  match fuel with
  | 0 => rfl
  | 1 =>
    rw [receiveLoop, hgood]
    rfl
  | 2 =>
    rw [receiveLoop, hgood, if_neg (by exact Bool.false_ne_true), if_neg Bool.false_ne_true, transferLoop, hmore,
      if_pos rfl]
    rfl
  | fuel + 3 =>
    rw [receiveLoop, hgood, if_neg (by exact Bool.false_ne_true), if_neg Bool.false_ne_true, transferLoop, hmore,
      if_pos rfl, htransfer, transferLoop, more_broken rfl, if_neg Bool.false_ne_true, Option.bind_some,
      if_pos (show 2 < fuel + 3 by omega)]
    rfl

/-! ## Requests -/

/-- The answer to a request whose framing is known. -/
theorem processPutRequest_eq {f : Framing} {conn : Conn} (hchunked : chunkedOf r = some f.chunked)
    (hlength : (contentLengthOf r).isSome = f.haveContentLength) :
    processPutRequest fuel r conn =
      (receiveLoop f fuel ⟨conn, minusOne, contentLengthValue r, []⟩).map fun
        | .error e => e
        | .ok s => .created s.file
            (if !f.chunked && !f.haveContentLength && !s.conn.good then { s.conn with good := true } else s.conn)
            (r.closeConnection || !f.chunked && !f.haveContentLength) := by
  unfold processPutRequest
  rewrite [hchunked, hlength]
  rfl

theorem chunkedOf_none (h : r.headers.find (ascii "Transfer-Encoding") = none) : chunkedOf r = some false := by
  unfold chunkedOf
  rw [h]
  split
  · rfl
  · rfl

/-- A body in chunks: the connection is left before the trailer and the empty line. -/
theorem not_uploaded_chunked {chunks : List UploadChunk} {last : LastLine} {trailer : Text}
    (hframed : (Body.chunked chunks last trailer).Framed r) : ¬Uploaded r (.chunked chunks last trailer) rest := by
  obtain ⟨hversion, hencoding, hlength⟩ := hframed
  rintro ⟨fuel, conn, close, hconn, h⟩
  have hchunked : chunkedOf r = some true := by
    unfold chunkedOf
    rw [if_pos hversion, hencoding]
    rfl
  have hnone : (contentLengthOf r).isSome = false := by
    unfold contentLengthOf
    rw [hlength]
    rfl
  rw [@processPutRequest_eq r fuel ⟨true, false⟩ _ hchunked hnone] at h
  have hbytes : Body.encoded (.chunked chunks last trailer) ++ rest =
      (chunks.map UploadChunk.bytes).flatten ++ (last.text ++ (crlf ++ (trailer ++ crlf ++ rest))) := by
    unfold Body.encoded
    simp only [List.append_assoc]
  rcases @receiveLoop_chunks ⟨⟨_, true⟩, minusOne, contentLengthValue r, []⟩ _ fuel _ _
    (congrArg (Conn.mk · true) hbytes) with hloop | hloop | ⟨s', hloop, hconn', -⟩
  · rw [hloop] at h
    cases h
  · rw [hloop] at h
    cases h
  · rw [hloop] at h
    injection h with h
    injection h with hfile hend hclose
    have hend' : s'.conn = conn := hend
    have hleft : trailer ++ crlf ++ rest = rest :=
      calc trailer ++ crlf ++ rest = s'.conn.bytes := (congrArg Conn.bytes hconn').symm
        _ = conn.bytes := congrArg Conn.bytes hend'
        _ = rest := hconn
    have hlen := congrArg List.length hleft
    have hcrlf : crlf.length = 2 := by decide
    rw [List.length_append, List.length_append] at hlen
    omega

/-- A body with a length is stored when it is not whole buffers and nothing follows it. -/
theorem uploaded_counted_iff (hframed : (Body.counted data).Framed r) :
    Uploaded r (.counted data) rest ↔ ¬dataBufferSize ∣ data.length ∧ rest = [] := by
  obtain ⟨hencoding, hfit, value, hvalue, hne, hplain, hcounts⟩ := hframed
  have hnumber : strtoul 10 value = (data.length, []) := by
    rw [strtoul_plain (by decide) hne hplain (by omega), hcounts]
  have hsome : (contentLengthOf r).isSome = true := by
    unfold contentLengthOf
    rw [hvalue, Option.bind_some, hnumber]
    rfl
  have hlength : contentLengthValue r = data.length := by
    unfold contentLengthValue
    rw [hvalue]
    exact congrArg Prod.fst hnumber
  have hfit' : data.length < 2 ^ 64 := by omega
  have heq (fuel : Nat) := @processPutRequest_eq r fuel ⟨false, true⟩ ⟨data ++ rest, true⟩
    (chunkedOf_none hencoding) hsome
  rw [hlength] at heq
  by_cases hdvd : dataBufferSize ∣ data.length
  · refine iff_of_false ?_ fun h => h.1 hdvd
    rintro ⟨fuel, conn, close, -, h⟩
    have hendless : Endless ⟨⟨data ++ rest, true⟩, minusOne, data.length, []⟩ :=
      ⟨rfl, hdvd, by rw [List.length_append]; exact Nat.le_add_right _ _, hfit'⟩
    have hnone : processPutRequest fuel r ⟨data ++ rest, true⟩ = none := by
      rw [heq, hendless.receiveLoop]
      rfl
    exact nomatch hnone.symm.trans h
  · rw [and_iff_right hdvd]
    have hall := receiveLoop_all (s := ⟨⟨data ++ rest, true⟩, minusOne, data.length, []⟩) rfl hdvd hfit'
    constructor
    · rintro ⟨fuel, conn, close, -, h⟩
      obtain ⟨contentLength, hloop⟩ := hall fuel
      have h' := (heq fuel).symm.trans h
      rw [hloop] at h'
      split at h'
      · injection h' with h'
        injection h' with hfile
        exact List.append_right_eq_self.mp hfile
      · cases h'
    · rintro rfl
      rw [List.append_nil] at hall heq
      obtain ⟨contentLength, hloop⟩ := hall (data.length / dataBufferSize + 3)
      refine ⟨data.length / dataBufferSize + 3, ⟨[], false⟩, r.closeConnection, rfl, ?_⟩
      show processPutRequest _ r ⟨data ++ [], true⟩ = _
      rw [List.append_nil, heq, hloop, if_pos (Nat.lt_succ_self _)]
      exact congrArg (fun close => some (PutEnd.created data ⟨[], false⟩ close)) (Bool.or_false _)

/-- A body that the end of the connection ends is stored when it is empty. -/
theorem uploaded_closed_iff (hframed : (Body.closed data).Framed r) :
    Uploaded r (.closed data) [] ↔ data = [] := by
  obtain ⟨hencoding, hlength⟩ := hframed
  have hnone : (contentLengthOf r).isSome = false := by
    unfold contentLengthOf
    rw [hlength]
    rfl
  have hvalue : contentLengthValue r = minusOne := by
    unfold contentLengthValue
    rw [hlength]
  have heq (fuel : Nat) := @processPutRequest_eq r fuel ⟨false, false⟩ ⟨data ++ [], true⟩
    (chunkedOf_none hencoding) hnone
  rw [hvalue] at heq
  have hloop := @receiveLoop_closed ⟨⟨data ++ [], true⟩, minusOne, minusOne, []⟩ rfl rfl
  constructor
  · rintro ⟨fuel, conn, close, -, h⟩
    have h' := (heq fuel).symm.trans h
    rw [hloop] at h'
    split at h'
    · injection h' with h'
      injection h' with hfile
      exact hfile.symm
    · cases h'
  · rintro rfl
    refine ⟨3, ⟨[], true⟩, true, rfl, (heq 3).trans ?_⟩
    rw [hloop, if_pos (by decide)]
    exact congrArg (fun close => some (PutEnd.created [] ⟨[], true⟩ close)) (Bool.or_true _)

/-- **An upload stores exactly the body** and leaves the connection behind the request if and only if the
body has a length that is not whole buffers and nothing follows, or ends with the connection and is empty. -/
theorem uploaded_iff (r : PutRequest) (body : Body) (rest : Text) (hframed : body.Framed r)
    (hrest : body.Followed rest) : Uploaded r body rest ↔ body.Stored rest := by
  cases body with
  | chunked chunks last trailer => exact iff_of_false (not_uploaded_chunked hframed) not_false
  | counted data => exact uploaded_counted_iff hframed
  | closed data =>
    cases hrest
    exact uploaded_closed_iff hframed

/-- A request with a body of three bytes. -/
def putThree : PutRequest := ⟨.http11, [(ascii "Content-Length", ascii "3")], false⟩

theorem framed_three : (Body.counted (ascii "abc")).Framed putThree :=
  ⟨rfl, by decide, ascii "3", rfl, List.cons_ne_nil 51 [], fun c hc => List.mem_singleton.mp hc ▸ rfl, rfl⟩

theorem uploaded_three : Uploaded putThree (.counted (ascii "abc")) [] :=
  (uploaded_iff putThree (.counted (ascii "abc")) [] framed_three trivial).mpr ⟨by decide, rfl⟩

/-- With another request behind it the body is not all that is stored. -/
theorem not_uploaded_three : ¬Uploaded putThree (.counted (ascii "abc")) (ascii "GET / HTTP/1.1") := by
  rw [uploaded_counted_iff framed_three]
  exact fun h => absurd h.2 (by decide)

end OpenCpi.Http
