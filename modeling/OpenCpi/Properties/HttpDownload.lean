import OpenCpi.Infra.Tape
import OpenCpi.Properties.HttpHead

/-!
# A download delivers the file

The buffer of the client plays a tape: whatever the reader does, it gets what it would get from a tape
with the bytes of the file. This is a simulation. It relates the buffer to what is left of the body on
the connection, and its slot for one character to that of the tape.
-/

namespace OpenCpi.Http

open Infra
open Value (Text)
open Sim (ascii decimal digitOf digits)

variable {following rest : Text} {b b' : ClientBuf} {t : Tape UInt8}

/-! ## What a reader may see -/

/-- **An operation on a tape, with its answer.** A character can be put back after another one only when
that was read, and an end of file that was seen may be final. -/
inductive Allows : Tape UInt8 → Op → Answer → Tape UInt8 → Prop
  | underflow (t : Tape UInt8) : Allows t .underflow (.char t.ahead.head?) t.look
  | uflow (t : Tape UInt8) : Allows t .uflow (.char t.ahead.head?) (t.advance 1)
  | xsgetn (t : Tape UInt8) (n : Nat) : Allows t (.xsgetn n) (.block (t.ahead.take n)) (t.advance n)
  | putBack {t : Tape UInt8} (c : UInt8) (h : t.back = none) :
      Allows t (.pbackfail (some c)) (.char (some c)) (t.putBack c)
  | unget {t : Tape UInt8} {c : UInt8} (h : t.back = none) (hl : t.last = some c) :
      Allows t (.pbackfail none) (.char (some 0)) (t.putBack c)
  | refuse {t : Tape UInt8} {c : Option UInt8}
      (h : t.back ≠ none ∨ t.ended = true ∨ c = none ∧ t.last = none) :
      Allows t (.pbackfail c) (.char none) t

/-- The buffer answers some operations as a tape does, and ends with these bytes on the connection. -/
inductive Plays : ClientBuf → Tape UInt8 → List Op → Text → Prop
  | nil (b : ClientBuf) (t : Tape UInt8) : Plays b t [] b.conn.bytes
  | cons {b : ClientBuf} {t t' : Tape UInt8} {op : Op} {ops : List Op} {bytes : Text}
      (h : Allows t op (b.step op).1 t') (hs : Plays (b.step op).2 t' ops bytes) :
      Plays b t (op :: ops) bytes

/-- The bytes that answer a GET of a file. -/
inductive Served (file : File) : Text → Prop
  | server (version : Version) (stamp : Stamp) (h : version = .http11 ∨ stamp.sized = true) :
      Served file (respond version stamp file)
  | chunks (stamp : Stamp) (cs : List Chunk) (h : (cs.map Chunk.data).flatten = file.bytes) :
      Served file (respondInChunks stamp file cs)

/-! ## Chunks -/

theorem Chunk.size_ne (c : Chunk) : c.size ≠ [] := by
  intro h
  have hc := c.counts
  rw [h, digits] at hc
  exact c.data_ne (List.length_eq_zero_iff.mp hc.symm)

theorem Chunk.size_line (c : Chunk) : Line c.size := by
  refine ⟨fun hx => (digit_plain (by decide) (c.plain 10 hx)).1 rfl, c.short, ?_⟩
  rw [List.rdropWhile_eq_self_iff]
  intro h
  rw [(digit_plain (by decide) (c.plain _ (List.getLast_mem h))).2.2.2.2.2.2]
  decide

theorem Chunk.strtoul_size (c : Chunk) (h : c.data.length < 2 ^ 64) :
    strtoul 16 c.size = (c.data.length, []) := by
  rw [strtoul_plain (by decide) c.size_ne c.plain (by rw [c.counts]; exact h), c.counts]

/-- A chunk of the server. -/
def fileChunk (data : Text) (hne : data ≠ []) (hlen : data.length ≤ dataBufferSize) : Chunk where
  size := hex data.length
  data := data
  plain := numeral_digit (by decide) (by decide) data.length
  short := by
    have h : data.length < 16 ^ 4 := Nat.lt_of_le_of_lt hlen (by decide)
    exact Nat.lt_of_le_of_lt (numeral_length (by decide) (by decide) h) (by decide)
  counts := digits_numeral (by decide) (by decide) data.length
  data_ne := hne

/-- **The server splits the file into chunks.** -/
theorem sendBodyLoop_chunked : ∀ {fuel : Nat} {file : Text}, file.length < fuel →
    ∃ cs : List Chunk, (cs.map Chunk.data).flatten = file ∧
      sendBodyLoop true fuel file = (cs.map Chunk.bytes).flatten
  | 0, _, h => absurd h (Nat.not_lt_zero _)
  | fuel + 1, file, h => by
    unfold sendBodyLoop
    dsimp only
    by_cases hne : file.take dataBufferSize = []
    · have hfile : file = [] := by
        rw [List.take_eq_nil_iff] at hne
        exact hne.resolve_left (by decide)
      subst hfile
      exact ⟨[], rfl, rfl⟩
    · have hlen : (file.take dataBufferSize).length ≤ dataBufferSize := List.length_take_le _ _
      have hframed : (true && decide ((file.take dataBufferSize).length ≠ 0)) = true := by
        rw [Bool.true_and, decide_eq_true_iff]
        exact fun hl => hne (List.length_eq_zero_iff.mp hl)
      rw [hframed, if_pos rfl, if_pos rfl]
      by_cases hend : (file.take dataBufferSize).length < dataBufferSize
      · have hfile : file.take dataBufferSize = file := by
          rw [List.length_take] at hend
          exact List.take_of_length_le (by omega)
        refine ⟨[fileChunk _ hne hlen], ?_, ?_⟩
        · rw [List.map_singleton, List.flatten_singleton]
          exact hfile
        · rw [if_pos hend, List.append_nil, List.map_singleton, List.flatten_singleton]
          rfl
      · have hdrop : (file.drop dataBufferSize).length < fuel := by
          rw [List.length_take] at hend
          rw [List.length_drop]
          have : 0 < dataBufferSize := by decide
          omega
        obtain ⟨cs, hdata, hbytes⟩ := sendBodyLoop_chunked hdrop
        refine ⟨fileChunk _ hne hlen :: cs, ?_, ?_⟩
        · rw [List.map_cons, List.flatten_cons, hdata]
          exact List.take_append_drop _ _
        · rw [if_neg hend, hbytes, List.map_cons, List.flatten_cons]
          rfl

/-- Without chunks the server sends the file as it is. -/
theorem sendBodyLoop_plain : ∀ {fuel : Nat} {file : Text}, file.length < fuel →
    sendBodyLoop false fuel file = file
  | 0, _, h => absurd h (Nat.not_lt_zero _)
  | fuel + 1, file, h => by
    unfold sendBodyLoop
    dsimp only
    rw [Bool.false_and, if_neg Bool.false_ne_true, if_neg Bool.false_ne_true, List.nil_append,
      List.append_nil]
    by_cases hend : (file.take dataBufferSize).length < dataBufferSize
    · rw [if_pos hend, List.append_nil]
      rw [List.length_take] at hend
      exact List.take_of_length_le (by omega)
    · have hdrop : (file.drop dataBufferSize).length < fuel := by
        rw [List.length_take] at hend
        rw [List.length_drop]
        have : 0 < dataBufferSize := by decide
        omega
      rw [if_neg hend, sendBodyLoop_plain hdrop]
      exact List.take_append_drop _ _

/-! ## What is left on the connection -/

/-- The end of line that comes before the next chunk. -/
def ClientBuf.gap (b : ClientBuf) : Text := if b.firstChunk then [] else crlf

/-- **`rest` is left of the body, and `following` comes after the answer.** -/
inductive Left (following : Text) (b : ClientBuf) (rest : Text) : Prop
  | chunked (cur : Text) (cs : List Chunk) (hc : b.chunked = true)
      (hrest : rest = cur ++ (cs.map Chunk.data).flatten) (hcount : b.chunkRemaining = cur.length)
      (hfirst : b.firstChunk = true → cur = [])
      (hconn : b.conn = ⟨cur ++ (b.gap ++ (chunkedBody cs ++ following)), true⟩)
  | sized (hc : b.chunked = false) (hlen : b.contentLength ≠ minusOne)
      (hcount : b.contentRemaining = rest.length) (hconn : b.conn = ⟨rest ++ following, true⟩)

/-- The answer was read to its end. -/
structure Done (following : Text) (b : ClientBuf) : Prop where
  state : b.state = .close ∨ b.state = .sendRequest
  bytes : b.conn.bytes = following

/-- The slot for one character is the same. -/
structure SameSlot (b b' : ClientBuf) : Prop where
  haveLast : b'.haveLast = b.haveLast
  havePending : b'.havePending = b.havePending
  pending : b'.pending = b.pending

theorem Left.good (h : Left following b rest) : b.conn.good = true := by
  cases h with
  | chunked cur cs hc hrest hcount hfirst hconn => rw [hconn]
  | sized hc hlen hcount hconn => rw [hconn]

theorem Done.not_upload (h : Done following b) : b.state ≠ .upload := by
  rcases h.state with hs | hs <;> rw [hs] <;> decide

theorem Done.not_download (h : Done following b) : b.state ≠ .download := by
  rcases h.state with hs | hs <;> rw [hs] <;> decide

theorem completeUpload_of_ne (h : b.state ≠ .upload) : b.completeUpload = (none, b) := by
  unfold ClientBuf.completeUpload
  rw [if_pos h]

theorem completeUpload_download (h : b.state = .download) : b.completeUpload = (none, b) :=
  completeUpload_of_ne (by rw [h]; decide)

/-! ## The next chunk -/

theorem endChunk_gap {bytes : Text} (hconn : b.conn = ⟨b.gap ++ bytes, true⟩) :
    b.endChunk = (false, { b with firstChunk := false, conn := ⟨bytes, true⟩ }) := by
  unfold ClientBuf.endChunk
  cases hfirst : b.firstChunk with
  | true =>
    have hbytes : b.conn = ⟨bytes, true⟩ := by
      rw [hconn, ClientBuf.gap, hfirst]
      rfl
    rw [if_pos rfl, ← hbytes]
  | false =>
    have hread := readline_line bytes line_nil
    rw [List.nil_append] at hread
    rw [if_neg Bool.false_ne_true, hconn, ClientBuf.gap, hfirst, if_neg Bool.false_ne_true, hread]
    refine congrArg (Prod.mk false) ?_
    rw [← hfirst]

theorem openChunk_cons {c : Chunk} {bytes : Text} (hfit : c.data.length < 2 ^ 64)
    (hconn : b.conn = ⟨b.gap ++ (c.bytes ++ bytes), true⟩) :
    b.openChunk = (true, { b with
      firstChunk := false
      chunkRemaining := c.data.length
      conn := ⟨c.data ++ (crlf ++ bytes), true⟩ }) := by
  have hbytes : c.bytes ++ bytes = c.size ++ (crlf ++ (c.data ++ (crlf ++ bytes))) := by
    unfold Chunk.bytes
    simp only [List.append_assoc]
  have hne : c.data.length ≠ 0 := fun h => c.data_ne (List.length_eq_zero_iff.mp h)
  unfold ClientBuf.openChunk
  rw [endChunk_gap hconn, hbytes]
  dsimp only
  rw [if_neg Bool.false_ne_true, readline_line _ c.size_line, c.strtoul_size hfit]
  dsimp only
  rw [if_neg (by decide), if_neg hne]

theorem openChunk_last (hconn : b.conn = ⟨b.gap ++ (lastChunk ++ following), true⟩) :
    ∃ close, b.openChunk = (false, { b with
      firstChunk := false
      chunkRemaining := 0
      conn := ⟨following, true⟩
      closeConnection := close
      state := .close }) := by
  have hbytes : lastChunk ++ following = ascii "0" ++ (crlf ++ (crlf ++ following)) := by
    rw [show lastChunk = ascii "0" ++ (crlf ++ crlf) from by decide]
    simp only [List.append_assoc]
  have hzero : Line (ascii "0") := ⟨by decide, by decide, by decide⟩
  have hnumber : strtoul 16 (ascii "0") = (0, []) := rfl
  unfold ClientBuf.openChunk
  rw [endChunk_gap hconn, hbytes]
  dsimp only
  rw [if_neg Bool.false_ne_true, readline_line _ hzero, hnumber]
  dsimp only
  rw [if_neg (by decide), if_pos rfl, receiveHeaders_crlf rfl]
  unfold finishHeaders
  split
  · exact ⟨_, rfl⟩
  · exact ⟨_, rfl⟩

/-! ## Bytes of the body -/

/-- The bytes that can be read before the counter of the framing is at its end. -/
def ClientBuf.avail (b : ClientBuf) : Nat := if b.chunked then b.chunkRemaining else b.contentRemaining

theorem count_slot (b : ClientBuf) (k : Nat) : SameSlot b (b.count k) := by
  unfold ClientBuf.count
  split
  · exact ⟨rfl, rfl, rfl⟩
  · split <;> exact ⟨rfl, rfl, rfl⟩

theorem count_state (b : ClientBuf) (k : Nat) : (b.count k).state = b.state := by
  unfold ClientBuf.count
  split
  · rfl
  · split <;> rfl

theorem SameSlot.refl (b : ClientBuf) : SameSlot b b := ⟨rfl, rfl, rfl⟩

theorem SameSlot.trans {b'' : ClientBuf} (h : SameSlot b b') (h' : SameSlot b' b'') :
    SameSlot b b'' :=
  ⟨h'.haveLast.trans h.haveLast, h'.havePending.trans h.havePending, h'.pending.trans h.pending⟩

theorem Left.avail_le (h : Left following b rest) : b.avail ≤ rest.length := by
  unfold ClientBuf.avail
  cases h with
  | chunked cur cs hc hrest hcount hfirst hconn =>
    rw [if_pos hc, hcount, hrest, List.length_append]
    exact Nat.le_add_right _ _
  | sized hc hlen hcount hconn =>
    rw [if_neg (by rw [hc]; decide), hcount]

/-- **Bytes within the counter are the next bytes of the body.** -/
theorem Left.take (h : Left following b rest) {k : Nat} (hk : k ≤ b.avail) :
    ∃ bytes, b.conn = ⟨rest.take k ++ bytes, true⟩ ∧
      ∀ last pending, Left following ({ b with
        haveLast := last
        pending := pending
        conn := ⟨bytes, true⟩ }.count k) (rest.drop k) := by
  unfold ClientBuf.avail at hk
  cases h with
  | chunked cur cs hc hrest hcount hfirst hconn =>
    rw [if_pos hc, hcount] at hk
    refine ⟨cur.drop k ++ (b.gap ++ (chunkedBody cs ++ following)), ?_, fun last pending => ?_⟩
    · rw [hconn, hrest, List.take_append_of_le_length hk, ← List.append_assoc (cur.take k),
        List.take_append_drop]
    · unfold ClientBuf.count
      rw [if_pos hc]
      refine .chunked (cur.drop k) cs hc ?_ ?_ ?_ rfl
      · rw [hrest, List.drop_append_of_le_length hk]
      · rw [List.length_drop, ← hcount]
      · intro hf
        rw [hfirst hf, List.drop_nil]
  | sized hc hlen hcount hconn =>
    have hno : ¬b.chunked = true := by rw [hc]; decide
    rw [if_neg hno] at hk
    refine ⟨rest.drop k ++ following, ?_, fun last pending => ?_⟩
    · rw [hconn, ← List.append_assoc, List.take_append_drop]
    · unfold ClientBuf.count
      rw [if_neg hno, if_pos hlen]
      refine .sized hc hlen ?_ rfl
      rw [List.length_drop, ← hcount]

/-- What is left does not depend on the slot. -/
theorem Left.slot (h : Left following b rest) {last back : Bool} {pending : Option UInt8} :
    Left following { b with haveLast := last, havePending := back, pending := pending } rest := by
  cases h with
  | chunked cur cs hc hrest hcount hfirst hconn =>
    exact .chunked cur cs hc hrest hcount hfirst hconn
  | sized hc hlen hcount hconn => exact .sized hc hlen hcount hconn

/-- The counter is not at its end. -/
theorem not_done_of_avail (h : 0 < b.avail) :
    (b.chunked && b.chunkRemaining = 0) = false ∧ b.contentDone = false := by
  unfold ClientBuf.avail at h
  unfold ClientBuf.contentDone
  cases hc : b.chunked with
  | true =>
    rw [hc, if_pos rfl] at h
    exact ⟨by rw [Bool.true_and, decide_eq_false_iff_not]; omega, rfl⟩
  | false =>
    rw [hc, if_neg Bool.false_ne_true] at h
    refine ⟨rfl, ?_⟩
    rw [Bool.and_eq_false_iff]
    exact .inr (by rw [decide_eq_false_iff_not]; omega)

/-- Where the counter of a length is at its end, nothing is left. -/
theorem Left.nil_of_contentDone (h : Left following b rest) (hd : b.contentDone = true) :
    rest = [] ∧ b.conn.bytes = following := by
  unfold ClientBuf.contentDone at hd
  cases h with
  | chunked cur cs hc hrest hcount hfirst hconn =>
    rw [hc] at hd
    cases hd
  | sized hc hlen hcount hconn =>
    rw [Bool.and_eq_true, decide_eq_true_iff] at hd
    have hrest : rest = [] := List.length_eq_zero_iff.mp (hcount.symm.trans hd.2)
    rw [hconn, hrest]
    exact ⟨rfl, rfl⟩

/-- Elsewhere the counter is at its end only between two chunks. -/
theorem Left.avail_pos (h : Left following b rest) (hd : b.contentDone = false)
    (hc : (b.chunked && b.chunkRemaining = 0) = false) : 0 < b.avail := by
  unfold ClientBuf.contentDone at hd
  unfold ClientBuf.avail
  cases h with
  | chunked cur cs hch hrest hcount hfirst hconn =>
    rw [hch, Bool.true_and, decide_eq_false_iff_not] at hc
    rw [if_pos hch]
    omega
  | sized hch hlen hcount hconn =>
    rw [hch, Bool.not_false, Bool.true_and, decide_eq_true hlen, Bool.true_and,
      decide_eq_false_iff_not] at hd
    rw [if_neg (by rw [hch]; decide)]
    omega

/-! ## One character -/

theorem underflowCommon_open (hs : b.state = .download) (hp : b.havePending = false)
    (hc : (b.chunked && b.chunkRemaining = 0) = true) (bump : Bool) :
    b.underflowCommon bump
      = if b.openChunk.1 then b.openChunk.2.nextChar bump else (none, b.openChunk.2) := by
  unfold ClientBuf.underflowCommon
  rw [completeUpload_download hs]
  dsimp only
  rw [if_neg (by rw [hs]; decide), hp, if_neg Bool.false_ne_true, if_pos hc]
  obtain ⟨opened, b'⟩ := b.openChunk
  cases opened <;> rfl

/-- **Between two chunks the next one is opened, or the end of the answer is read.** -/
theorem underflowCommon_boundary (hs : b.state = .download) (hp : b.havePending = false)
    (hl : Left following b rest) (hfit : rest.length < 2 ^ 64)
    (hc : (b.chunked && b.chunkRemaining = 0) = true) :
    (rest = [] ∧ ∃ b', (∀ bump, b.underflowCommon bump = (none, b')) ∧ Done following b' ∧
      SameSlot b b') ∨
    ∃ b', (∀ bump, b.underflowCommon bump = b'.nextChar bump) ∧ b'.state = .download ∧
      SameSlot b b' ∧ Left following b' rest ∧ 0 < b'.avail := by
  cases hl with
  | sized hch hlen hcount hconn =>
    rw [hch] at hc
    cases hc
  | chunked cur cs hch hrest hcount hfirst hconn =>
    have hzero := hc
    rw [hch, Bool.true_and, decide_eq_true_iff] at hzero
    obtain rfl : cur = [] := List.length_eq_zero_iff.mp (hcount.symm.trans hzero)
    rw [List.nil_append] at hconn hrest
    cases cs with
    | nil =>
      obtain ⟨close, hlast⟩ := openChunk_last hconn
      refine .inl ⟨hrest, b.openChunk.2, fun bump => ?_, ?_, ?_⟩
      · rw [underflowCommon_open hs hp hc, hlast, if_neg Bool.false_ne_true]
      · rw [hlast]
        exact ⟨.inl rfl, rfl⟩
      · rw [hlast]
        exact ⟨rfl, rfl, rfl⟩
    | cons c cs =>
      rw [List.map_cons, List.flatten_cons] at hrest
      have hbytes : chunkedBody (c :: cs) ++ following
          = c.bytes ++ (chunkedBody cs ++ following) := by
        unfold chunkedBody
        rw [List.map_cons, List.flatten_cons]
        simp only [List.append_assoc]
      have hlen : c.data.length < 2 ^ 64 := by
        rw [hrest, List.length_append] at hfit
        omega
      rw [hbytes] at hconn
      refine .inr ⟨b.openChunk.2, fun bump => ?_, ?_, ?_, ?_, ?_⟩
      · rw [underflowCommon_open hs hp hc, openChunk_cons hlen hconn, if_pos rfl]
      all_goals rw [openChunk_cons hlen hconn]
      · exact hs
      · exact ⟨rfl, rfl, rfl⟩
      · exact .chunked c.data cs hch hrest rfl (fun h => (nomatch h)) rfl
      · unfold ClientBuf.avail
        rw [if_pos hch]
        exact List.length_pos_iff.mpr c.data_ne

/-- Elsewhere the next character is read. -/
theorem underflowCommon_inside (hs : b.state = .download) (hp : b.havePending = false)
    (hc : (b.chunked && b.chunkRemaining = 0) = false) (bump : Bool) :
    b.underflowCommon bump = b.nextChar bump := by
  unfold ClientBuf.underflowCommon
  rw [completeUpload_download hs]
  dsimp only
  rw [if_neg (by rw [hs]; decide), hp, if_neg Bool.false_ne_true, hc, if_neg Bool.false_ne_true]

theorem nextChar_end (hs : b.contentDone = true) (bump : Bool) :
    b.nextChar bump
      = (none, { b with state := if b.closeConnection then .close else .sendRequest }) := by
  unfold ClientBuf.nextChar
  rw [hs, if_pos rfl, ite_self]
  rfl

/-- **What a character that is asked for leaves.** -/
theorem underflowCommon_reading (hs : b.state = .download) (hp : b.havePending = false)
    (hl : Left following b rest) (hfit : rest.length < 2 ^ 64) :
    (rest = [] ∧ ∃ b', (∀ bump, b.underflowCommon bump = (none, b')) ∧ Done following b' ∧
      SameSlot b b') ∨
    ∃ b', (∀ bump, b.underflowCommon bump = b'.nextChar bump) ∧ b'.state = .download ∧
      SameSlot b b' ∧ Left following b' rest ∧ 0 < b'.avail := by
  by_cases hc : (b.chunked && b.chunkRemaining = 0) = true
  · exact underflowCommon_boundary hs hp hl hfit hc
  · rw [Bool.not_eq_true] at hc
    by_cases hd : b.contentDone = true
    · obtain ⟨hrest, hbytes⟩ := hl.nil_of_contentDone hd
      refine .inl ⟨hrest, { b with state := if b.closeConnection then .close else .sendRequest },
        fun bump => ?_, ⟨?_, hbytes⟩, ⟨rfl, rfl, rfl⟩⟩
      · rw [underflowCommon_inside hs hp hc, nextChar_end hd]
      · dsimp only
        by_cases hclose : b.closeConnection = true
        · exact .inl (if_pos hclose)
        · exact .inr (if_neg hclose)
    · rw [Bool.not_eq_true] at hd
      exact .inr ⟨b, underflowCommon_inside hs hp hc, hs, .refl b, hl, hl.avail_pos hd hc⟩

/-- A character of the body is looked at, or taken. -/
theorem nextChar_left (hl : Left following b rest) (ha : 0 < b.avail) :
    ∃ c u, rest = c :: u ∧ b.nextChar false = (some c, b) ∧
      ∃ b', b.nextChar true = (some c, b') ∧ b'.state = b.state ∧ b'.haveLast = true ∧
        b'.havePending = b.havePending ∧ b'.pending = some c ∧ Left following b' u := by
  obtain ⟨hboundary, hdone⟩ := not_done_of_avail ha
  obtain ⟨bytes, hconn, hleft⟩ := hl.take (k := 1) ha
  cases rest with
  | nil => exact absurd (Nat.lt_of_lt_of_le ha hl.avail_le) (Nat.not_lt_zero _)
  | cons c u =>
    have hpeek : b.conn.peek = (some c, b.conn) := by
      rw [hconn]
      rfl
    have hget : b.conn.get = (some c, ⟨bytes, true⟩) := by
      rw [hconn]
      rfl
    refine ⟨c, u, rfl, ?_, _, ?_, ?_, ?_, ?_, ?_, hleft true (some c)⟩
    · unfold ClientBuf.nextChar
      rw [hboundary, hdone, if_neg Bool.false_ne_true, if_neg Bool.false_ne_true,
        if_neg Bool.false_ne_true, hpeek]
      rfl
    · unfold ClientBuf.nextChar
      rw [hboundary, hdone, if_neg Bool.false_ne_true, if_neg Bool.false_ne_true, if_pos rfl, hget]
      rfl
    · exact count_state _ 1
    · exact (count_slot _ 1).haveLast
    · exact (count_slot _ 1).havePending
    · exact (count_slot _ 1).pending

/-! ## A block -/

theorem toRead_left (hl : Left following b rest) (hfit : rest.length < 2 ^ 63) (remaining : Nat) :
    b.toRead remaining = (min remaining b.avail : Nat) := by
  have havail : b.avail < 2 ^ 63 := Nat.lt_of_le_of_lt hl.avail_le hfit
  unfold ClientBuf.avail at havail ⊢
  unfold ClientBuf.toRead unsignedToStreamsize
  cases hl with
  | chunked cur cs hc hrest hcount hfirst hconn =>
    rw [if_pos hc] at havail ⊢
    rw [if_pos hc, if_neg (Nat.not_le.mpr havail)]
    omega
  | sized hc hlen hcount hconn =>
    have hno : ¬b.chunked = true := by rw [hc]; decide
    rw [if_neg hno] at havail ⊢
    rw [if_neg hno, if_pos hlen, if_neg (Nat.not_le.mpr havail)]
    omega

theorem read_append {got bytes : Text} {k : Nat} (hk : got.length = k) :
    Conn.read ⟨got ++ bytes, true⟩ (k : Int) = (got, ⟨bytes, true⟩) := by
  subst hk
  unfold Conn.read
  dsimp only
  rw [if_neg (by decide), if_neg (by omega), Int.toNat_natCast, List.take_left, List.drop_left, decide_eq_true rfl]

/-- What a turn of the loop of `xsgetn` does first. -/
def ClientBuf.turn (b : ClientBuf) : Bool × ClientBuf :=
  if b.chunked && b.chunkRemaining = 0 then (decide (b.underflow.1 = none), b.underflow.2)
  else (false, b)

theorem turn_left (hs : b.state = .download) (hp : b.havePending = false)
    (hl : Left following b rest) (hfit : rest.length < 2 ^ 64) :
    (b.turn.1 = true ∧ rest = [] ∧ Done following b.turn.2 ∧ SameSlot b b.turn.2) ∨
    (b.turn.1 = false ∧ b.turn.2.state = .download ∧ SameSlot b b.turn.2 ∧
      Left following b.turn.2 rest ∧ (b.turn.2.contentDone = true ∨ 0 < b.turn.2.avail)) := by
  unfold ClientBuf.turn
  by_cases hc : (b.chunked && b.chunkRemaining = 0) = true
  · rw [if_pos hc]
    obtain ⟨hrest, b', hu, hd, hslot⟩ | ⟨b', hu, hs', hslot, hl', ha⟩ :=
      underflowCommon_boundary hs hp hl hfit hc
    · have hunder : b.underflow = (none, b') := hu false
      rw [hunder]
      exact .inl ⟨rfl, hrest, hd, hslot⟩
    · obtain ⟨c, u, -, hlook, -⟩ := nextChar_left hl' ha
      have hunder : b.underflow = (some c, b') := (hu false).trans hlook
      rw [hunder]
      exact .inr ⟨rfl, hs', hslot, hl', .inr ha⟩
  · rw [if_neg hc]
    rw [Bool.not_eq_true] at hc
    refine .inr ⟨rfl, hs, .refl b, hl, ?_⟩
    cases hd : b.contentDone with
    | true => exact .inl rfl
    | false => exact .inr (hl.avail_pos hd hc)

theorem xsgetnLoop_succ {fuel remaining : Nat} {s : Text} (h : remaining ≠ 0)
    (hgood : b.conn.good = true) :
    xsgetnLoop (fuel + 1) remaining s b =
      if b.turn.1 || b.turn.2.contentDone then (s, b.turn.2)
      else
        let got := (b.turn.2.conn.read (b.turn.2.toRead remaining)).1
        xsgetnLoop fuel (remaining - got.length) (s ++ got)
          ({ b.turn.2 with
            conn := (b.turn.2.conn.read (b.turn.2.toRead remaining)).2 }.count got.length) := by
  have hgo : ¬(remaining = 0 ∨ (!b.conn.good) = true) := by
    rw [hgood]
    exact fun hx => hx.elim h (by decide)
  rw [xsgetnLoop, if_neg hgo]
  unfold ClientBuf.turn
  by_cases hc : (b.chunked && b.chunkRemaining = 0) = true
  · rw [if_pos hc]
  · rw [if_neg hc]

/-- **The loop of `xsgetn` reads on over the ends of chunks.** The induction is on the turns; each reads
what is left in a chunk, or as much as is asked for. -/
theorem xsgetnLoop_left : ∀ {fuel remaining : Nat} {s : Text} {b : ClientBuf} {rest : Text},
    remaining < fuel → b.state = .download → b.havePending = false → Left following b rest →
    rest.length < 2 ^ 63 →
    ∃ b', xsgetnLoop fuel remaining s b = (s ++ rest.take remaining, b') ∧ SameSlot b b' ∧
      (b'.state = .download ∧ Left following b' (rest.drop remaining) ∨
        Done following b' ∧ rest.length < remaining)
  | 0, _, _, _, _, h, _, _, _, _ => absurd h (Nat.not_lt_zero _)
  | fuel + 1, remaining, s, b, rest, hfuel, hs, hp, hl, hfit => by
    by_cases hzero : remaining = 0
    · refine ⟨b, ?_, .refl b, .inl ⟨hs, ?_⟩⟩
      · rw [xsgetnLoop, if_pos (.inl hzero), hzero, List.take_zero, List.append_nil]
      · rw [hzero]
        exact hl
    · rw [xsgetnLoop_succ hzero hl.good]
      obtain ⟨hstop, rfl, hd, hslot⟩ | ⟨hstop, hs', hslot, hl', hnext⟩ :=
        turn_left hs hp hl (by omega)
      · refine ⟨b.turn.2, ?_, hslot, .inr ⟨hd, Nat.pos_of_ne_zero hzero⟩⟩
        rw [hstop, Bool.true_or, if_pos rfl, List.take_nil, List.append_nil]
      · obtain hdone | ha := hnext
        · obtain ⟨rfl, -⟩ := hl'.nil_of_contentDone hdone
          refine ⟨b.turn.2, ?_, hslot, .inl ⟨hs', ?_⟩⟩
          · rw [hdone, Bool.or_true, if_pos rfl, List.take_nil, List.append_nil]
          · rw [List.drop_nil]
            exact hl'
        · have hk : min remaining b.turn.2.avail ≤ rest.length :=
            (Nat.min_le_right _ _).trans hl'.avail_le
          obtain ⟨bytes, hconn, hleft⟩ := hl'.take (Nat.min_le_right remaining _)
          have htake : (rest.take (min remaining b.turn.2.avail)).length
              = min remaining b.turn.2.avail := List.length_take_of_le hk
          rw [hstop, (not_done_of_avail ha).2, Bool.or_false, if_neg Bool.false_ne_true,
            toRead_left hl' hfit, hconn, read_append htake]
          dsimp only
          rw [htake]
          have hpos : 0 < min remaining b.turn.2.avail := by omega
          have hle : min remaining b.turn.2.avail ≤ remaining := Nat.min_le_left _ _
          generalize min remaining b.turn.2.avail = k at hk hleft hpos hle ⊢
          obtain ⟨b₁, hb₁⟩ : ∃ x, x = ({ b.turn.2 with conn := ⟨bytes, true⟩ } : ClientBuf).count k :=
            ⟨_, rfl⟩
          have hleft₁ : Left following b₁ (rest.drop k) :=
            hb₁ ▸ hleft b.turn.2.haveLast b.turn.2.pending
          have hs₁ : b₁.state = .download := by
            rw [hb₁, count_state]
            exact hs'
          have hslot₁ : SameSlot b.turn.2 b₁ := by
            rw [hb₁]
            have hconn₁ : SameSlot b.turn.2 { b.turn.2 with conn := ⟨bytes, true⟩ } := ⟨rfl, rfl, rfl⟩
            exact hconn₁.trans (count_slot _ k)
          have hp₁ : b₁.havePending = false :=
            hslot₁.havePending.trans (hslot.havePending.trans hp)
          rw [← hb₁]
          obtain ⟨b', hb, hslot', hend⟩ := xsgetnLoop_left (s := s ++ rest.take k)
            (by omega : remaining - k < fuel) hs₁ hp₁ hleft₁ (by rw [List.length_drop]; omega)
          refine ⟨b', ?_, (hslot.trans hslot₁).trans hslot', ?_⟩
          · rw [hb, List.append_assoc, ← List.take_add, Nat.add_sub_cancel' hle]
          · rw [List.drop_drop, Nat.add_sub_cancel' hle] at hend
            refine hend.imp id fun hd => ⟨hd.1, ?_⟩
            have := hd.2
            rw [List.length_drop] at this
            omega

/-! ## The simulation -/

/-- The slot for one character, and the last one read. -/
inductive Slot (b : ClientBuf) (t : Tape UInt8) : Prop
  | full (c : UInt8) (hp : b.havePending = true) (hc : b.pending = some c) (ht : t.back = some c)
  | read (c : UInt8) (hp : b.havePending = false) (hl : b.haveLast = true) (hc : b.pending = some c)
      (ht : t.back = none) (hlast : t.last = some c)
  | empty (hp : b.havePending = false) (hl : b.haveLast = false) (ht : t.back = none)
      (hlast : t.last = none)

/-- **The buffer mirrors the tape.** -/
inductive Mirrors (following : Text) (b : ClientBuf) (t : Tape UInt8) : Prop
  | reading (hs : b.state = .download) (hl : Left following b t.rest)
      (hfit : t.rest.length < 2 ^ 63) (hslot : Slot b t)
  | done (hd : Done following b) (ha : t.ahead = []) (he : t.ended = true)

theorem Slot.same {t' : Tape UInt8} (h : Slot b t) (hs : SameSlot b b') (hb : t'.back = t.back)
    (hl : t'.last = t.last) : Slot b' t' := by
  cases h with
  | full c hp hc ht => exact .full c (hs.havePending.trans hp) (hs.pending.trans hc) (hb.trans ht)
  | read c hp hh hc ht hlast =>
    exact .read c (hs.havePending.trans hp) (hs.haveLast.trans hh) (hs.pending.trans hc)
      (hb.trans ht) (hl.trans hlast)
  | empty hp hh ht hlast =>
    exact .empty (hs.havePending.trans hp) (hs.haveLast.trans hh) (hb.trans ht) (hl.trans hlast)

/-- No character is put back, or one is. -/
theorem Slot.cases_back (h : Slot b t) :
    (b.havePending = false ∧ t.back = none) ∨
    ∃ c, b.havePending = true ∧ b.pending = some c ∧ t.back = some c := by
  cases h with
  | full c hp hc ht => exact .inr ⟨c, hp, hc, ht⟩
  | read c hp hh hc ht hlast => exact .inl ⟨hp, ht⟩
  | empty hp hh ht hlast => exact .inl ⟨hp, ht⟩

theorem underflowCommon_pending (hs : b.state = .download) (hp : b.havePending = true)
    (bump : Bool) :
    b.underflowCommon bump
      = (b.pending, if bump then { b with haveLast := true, havePending := false } else b) := by
  unfold ClientBuf.underflowCommon
  rw [completeUpload_download hs]
  dsimp only
  rw [if_neg (by rw [hs]; decide), if_pos hp]

theorem underflowCommon_done (hd : Done following b) (bump : Bool) :
    b.underflowCommon bump = (none, b) := by
  unfold ClientBuf.underflowCommon
  rw [completeUpload_of_ne hd.not_upload]
  dsimp only
  rw [if_pos hd.not_download]

theorem Mirrors.underflow (h : Mirrors following b t) :
    ∃ t', Allows t .underflow (.char b.underflow.1) t' ∧ Mirrors following b.underflow.2 t' := by
  unfold ClientBuf.underflow
  refine ⟨t.look, ?_⟩
  suffices hs : (b.underflowCommon false).1 = t.ahead.head? ∧
      Mirrors following (b.underflowCommon false).2 t.look by
    rw [hs.1]
    exact ⟨.underflow t, hs.2⟩
  cases h with
  | done hd ha he =>
    rw [underflowCommon_done hd, ha]
    refine ⟨rfl, .done hd ha ?_⟩
    unfold Tape.look
    dsimp only
    rw [he, Bool.true_or]
  | reading hs hl hfit hslot =>
    obtain ⟨hp, hback⟩ | ⟨c, hp, hc, hback⟩ := hslot.cases_back
    · rw [Tape.ahead_of_back_none hback]
      obtain ⟨hrest, b', hu, hd, hsame⟩ | ⟨b', hu, hs', hsame, hl', ha⟩ :=
        underflowCommon_reading hs hp hl (by omega)
      · have hahead : t.ahead = [] := by
          rw [Tape.ahead_of_back_none hback, hrest]
        rw [hu, hrest]
        refine ⟨rfl, .done hd hahead ?_⟩
        unfold Tape.look
        dsimp only
        rw [decide_eq_true hahead, Bool.or_true]
      · obtain ⟨c, u, hcu, hlook, -⟩ := nextChar_left hl' ha
        rw [hu, hlook, hcu]
        exact ⟨rfl, .reading hs' hl' hfit (hslot.same hsame rfl rfl)⟩
    · rw [underflowCommon_pending hs hp, hc, Tape.ahead_of_back_some hback]
      exact ⟨rfl, .reading hs hl hfit (hslot.same (.refl b) rfl rfl)⟩

theorem Mirrors.uflow (h : Mirrors following b t) :
    ∃ t', Allows t .uflow (.char b.uflow.1) t' ∧ Mirrors following b.uflow.2 t' := by
  unfold ClientBuf.uflow
  refine ⟨t.advance 1, ?_⟩
  suffices hs : (b.underflowCommon true).1 = t.ahead.head? ∧
      Mirrors following (b.underflowCommon true).2 (t.advance 1) by
    rw [hs.1]
    exact ⟨.uflow t, hs.2⟩
  cases h with
  | done hd ha he =>
    rw [underflowCommon_done hd, ha]
    refine ⟨rfl, .done hd ?_ ?_⟩
    · rw [Tape.ahead_advance, ha, List.drop_nil]
    · exact Tape.advance_ended_of_ended he _
  | reading hs hl hfit hslot =>
    obtain ⟨hp, hback⟩ | ⟨c, hp, hc, hback⟩ := hslot.cases_back
    · have hahead := Tape.ahead_of_back_none hback
      obtain ⟨hrest, b', hu, hd, hsame⟩ | ⟨b', hu, hs', hsame, hl', ha⟩ :=
        underflowCommon_reading hs hp hl (by omega)
      · rw [hrest] at hahead
        rw [hu, hahead]
        refine ⟨rfl, .done hd ?_ ?_⟩
        · rw [Tape.ahead_advance, hahead, List.drop_nil]
        · exact Tape.advance_ended (by rw [hahead]; decide)
      · obtain ⟨c, u, hcu, -, b'', hbump, hs'', hlast, hp'', hc'', hl''⟩ := nextChar_left hl' ha
        have hrest : (t.advance 1).rest = u := by
          rw [Tape.advance_rest hback, hcu]
          rfl
        rw [hcu] at hahead hfit
        rw [hu, hbump, hahead]
        refine ⟨rfl, .reading (hs''.trans hs') ?_ ?_ (.read c ?_ hlast hc'' ?_ ?_)⟩
        · rw [hrest]
          exact hl''
        · rw [hrest]
          exact Nat.lt_of_succ_lt hfit
        · rw [hp'', hsame.havePending, hp]
        · exact Tape.advance_back hback 1
        · rw [Tape.advance_last hback, hcu]
          rfl
    · have hrest : (t.advance 1).rest = t.rest := Tape.advance_succ_rest hback 0
      rw [underflowCommon_pending hs hp, hc, Tape.ahead_of_back_some hback]
      refine ⟨rfl, .reading hs ?_ ?_ (.read c rfl rfl rfl rfl ?_)⟩
      · rw [hrest]
        exact hl.slot
      · rw [hrest]
        exact hfit
      · rw [Tape.advance_succ_last hback]
        rfl

/-- What `xsgetn` does after the character that was put back. -/
theorem xsgetn_eq (hs : b.state = .download) (n : Nat) {s₀ : Text} {b₀ : ClientBuf}
    (h₀ : (if b.havePending ∧ n ≠ 0 then
        ([toCharType b.pending], { b with havePending := false }) else ([], b)) = (s₀, b₀)) :
    b.xsgetn n =
      ((xsgetnLoop (n + 1) (n - s₀.length) s₀ b₀).1,
        (xsgetnLoop (n + 1) (n - s₀.length) s₀ b₀).2.remember
          (xsgetnLoop (n + 1) (n - s₀.length) s₀ b₀).1) := by
  unfold ClientBuf.xsgetn
  rw [completeUpload_download hs]
  dsimp only
  rw [if_neg (by rw [hs]; decide), h₀]

/-- **A block of the body**, after the characters `s₀` that were put back. -/
theorem Mirrors.block {s₀ : Text} {b₀ : ClientBuf} {t' : Tape UInt8} {n m : Nat} (hm : m ≤ n)
    (hs : b₀.state = .download) (hp : b₀.havePending = false) (hl : Left following b₀ rest)
    (hfit : rest.length < 2 ^ 63) (hback : t'.back = none) (hrest : t'.rest = rest.drop m)
    (hlast : t'.last = (s₀ ++ rest.take m).getLast?.or t.last)
    (hended : rest.length < m → t'.ended = true)
    (hslot : s₀ ++ rest.take m = [] →
      (b₀.haveLast = true ∧ ∃ c, b₀.pending = some c ∧ t.last = some c) ∨
      (b₀.haveLast = false ∧ t.last = none)) :
    ∃ b₁, xsgetnLoop (n + 1) m s₀ b₀ = (s₀ ++ rest.take m, b₁) ∧
      Mirrors following (b₁.remember (s₀ ++ rest.take m)) t' := by
  obtain ⟨b₁, hloop, hsame, hend⟩ := xsgetnLoop_left (s := s₀) (by omega : m < n + 1) hs hp hl hfit
  refine ⟨b₁, hloop, ?_⟩
  unfold ClientBuf.remember
  obtain ⟨hs₁, hl₁⟩ | ⟨hd₁, hlen⟩ := hend
  · have hfit' : t'.rest.length < 2 ^ 63 := by
      rw [hrest, List.length_drop]
      omega
    cases hg : (s₀ ++ rest.take m).getLast? with
    | some c =>
      rw [hg, Option.some_or] at hlast
      refine .reading hs₁ ?_ hfit' (.read c (hsame.havePending.trans hp) rfl rfl hback hlast)
      rw [hrest]
      exact hl₁.slot
    | none =>
      rw [hg, Option.none_or] at hlast
      refine .reading hs₁ ?_ hfit' ?_
      · rw [hrest]
        exact hl₁
      · obtain ⟨hh, c, hc, ht⟩ | ⟨hh, ht⟩ := hslot (List.getLast?_eq_none_iff.mp hg)
        · exact .read c (hsame.havePending.trans hp) (hsame.haveLast.trans hh)
            (hsame.pending.trans hc) hback (hlast.trans ht)
        · exact .empty (hsame.havePending.trans hp) (hsame.haveLast.trans hh) hback (hlast.trans ht)
  · have hahead : t'.ahead = [] := by
      rw [Tape.ahead_of_back_none hback, hrest]
      exact List.drop_eq_nil_of_le (Nat.le_of_lt hlen)
    split
    · exact .done ⟨hd₁.state, hd₁.bytes⟩ hahead (hended hlen)
    · exact .done hd₁ hahead (hended hlen)

theorem Mirrors.xsgetn (h : Mirrors following b t) (n : Nat) :
    ∃ t', Allows t (.xsgetn n) (.block (b.xsgetn n).1) t' ∧ Mirrors following (b.xsgetn n).2 t' := by
  refine ⟨t.advance n, ?_⟩
  suffices hs : (b.xsgetn n).1 = t.ahead.take n ∧
      Mirrors following (b.xsgetn n).2 (t.advance n) by
    rw [hs.1]
    exact ⟨.xsgetn t n, hs.2⟩
  cases h with
  | done hd ha he =>
    have hx : b.xsgetn n = ([], b) := by
      unfold ClientBuf.xsgetn
      rw [completeUpload_of_ne hd.not_upload]
      dsimp only
      rw [if_pos hd.not_download]
    rw [hx, ha, List.take_nil]
    refine ⟨rfl, .done hd ?_ ?_⟩
    · rw [Tape.ahead_advance, ha, List.drop_nil]
    · exact Tape.advance_ended_of_ended he _
  | reading hs hl hfit hslot =>
    obtain ⟨hp, hback⟩ | ⟨c, hp, hc, hback⟩ := hslot.cases_back
    · have hahead := Tape.ahead_of_back_none hback
      have heq := xsgetn_eq hs n (if_neg (by rw [hp]; exact fun h => nomatch h.1))
      rw [List.length_nil, Nat.sub_zero] at heq
      have hremain : [] ++ t.rest.take n = t.rest.take n := List.nil_append _
      have hlast : (t.advance n).last = ([] ++ t.rest.take n).getLast?.or t.last := by
        rw [Tape.advance_last hback, hremain]
      obtain ⟨b₁, hloop, hmirror⟩ := Mirrors.block (t := t)
        (Nat.le_refl n) hs hp hl hfit (Tape.advance_back hback n) (Tape.advance_rest hback n) hlast
        (fun hlen => Tape.advance_ended (by rw [hahead]; exact hlen))
        (fun _ => by
          cases hslot with
          | full x hx _ _ => rw [hp] at hx; cases hx
          | read x _ hh hx _ hlast => exact .inl ⟨hh, x, hx, hlast⟩
          | empty _ hh _ hlast => exact .inr ⟨hh, hlast⟩)
      rw [heq, hloop, hahead]
      exact ⟨hremain, hmirror⟩
    · have hahead := Tape.ahead_of_back_some hback
      cases n with
      | zero =>
        have heq := xsgetn_eq hs 0 (if_neg (fun h => h.2 rfl))
        have hloop : xsgetnLoop (0 + 1) (0 - 0) [] b = ([], b) := by
          rw [xsgetnLoop, if_pos (.inl rfl)]
        rw [List.length_nil, hloop] at heq
        rw [heq, Tape.advance_zero]
        exact ⟨rfl, .reading hs hl hfit hslot⟩
      | succ n =>
        have hfirst : (if b.havePending ∧ n + 1 ≠ 0 then
            ([toCharType b.pending], { b with havePending := false }) else ([], b))
            = ([c], { b with havePending := false }) := by
          rw [if_pos ⟨hp, Nat.succ_ne_zero n⟩, hc]
          rfl
        have heq := xsgetn_eq hs (n + 1) hfirst
        have hlast : (t.advance (n + 1)).last = ([c] ++ t.rest.take n).getLast?.or t.last :=
          Tape.advance_succ_last hback n
        have hs₀ : ({ b with havePending := false } : ClientBuf).state = .download := hs
        have hl₀ : Left following { b with havePending := false } t.rest := hl.slot
        rw [List.length_singleton, Nat.add_sub_cancel] at heq
        obtain ⟨b₁, hloop, hmirror⟩ := Mirrors.block (t := t) (Nat.le_succ n) hs₀ rfl hl₀ hfit rfl
          (Tape.advance_succ_rest hback n) hlast
          (fun hlen => Tape.advance_ended (by
            rw [hahead, List.length_cons]
            exact Nat.succ_lt_succ hlen))
          (fun hnil => absurd hnil (List.cons_ne_nil _ _))
        rw [heq, hloop, hahead, List.take_succ_cons]
        exact ⟨rfl, hmirror⟩

theorem Mirrors.pbackfail (h : Mirrors following b t) (c : Option UInt8) :
    ∃ t', Allows t (.pbackfail c) (.char (b.pbackfail c).1) t' ∧
      Mirrors following (b.pbackfail c).2 t' := by
  unfold ClientBuf.pbackfail
  cases h with
  | done hd ha he =>
    rw [if_pos (.inl hd.not_download)]
    exact ⟨t, .refuse (.inr (.inl he)), .done hd ha he⟩
  | reading hs hl hfit hslot =>
    have hstay : Mirrors following b t := .reading hs hl hfit hslot
    cases hslot with
    | full x hp hx ht =>
      rw [if_pos (.inr hp)]
      exact ⟨t, .refuse (.inl (by rw [ht]; exact Option.some_ne_none x)), hstay⟩
    | read x hp hh hx ht hlast =>
      rw [if_neg (by rw [hs, hp]; decide)]
      cases c with
      | none =>
        dsimp only
        rw [hh, if_neg (by decide)]
        exact ⟨_, .unget ht hlast, .reading hs hl.slot hfit (.full x rfl hx rfl)⟩
      | some y => exact ⟨_, .putBack y ht, .reading hs hl.slot hfit (.full y rfl rfl rfl)⟩
    | empty hp hh ht hlast =>
      rw [if_neg (by rw [hs, hp]; decide)]
      cases c with
      | none =>
        dsimp only
        rw [hh, if_pos (by decide)]
        exact ⟨t, .refuse (.inr (.inr ⟨rfl, hlast⟩)), hstay⟩
      | some y => exact ⟨_, .putBack y ht, .reading hs hl.slot hfit (.full y rfl rfl rfl)⟩

/-- **Each operation is allowed, and the buffer mirrors the tape after it.** -/
theorem Mirrors.step (h : Mirrors following b t) (op : Op) :
    ∃ t', Allows t op (b.step op).1 t' ∧ Mirrors following (b.step op).2 t' := by
  cases op with
  | underflow => exact h.underflow
  | uflow => exact h.uflow
  | xsgetn n => exact h.xsgetn n
  | pbackfail c => exact h.pbackfail c

/-- What is on the connection ends with what comes after the answer. -/
theorem Mirrors.suffix (h : Mirrors following b t) : following <:+ b.conn.bytes := by
  cases h with
  | done hd ha he =>
    exact hd.bytes.symm ▸ List.suffix_rfl
  | reading hs hl hfit hslot =>
    cases hl with
    | chunked cur cs hc hrest hcount hfirst hconn =>
      rw [hconn]
      dsimp only
      rw [← List.append_assoc b.gap, ← List.append_assoc cur]
      exact List.suffix_append _ _
    | sized hc hlen hcount hconn =>
      rw [hconn]
      exact List.suffix_append _ _

/-- **A run plays the tape**, and takes nothing that comes after the answer. -/
theorem Mirrors.plays (h : Mirrors following b t) (ops : List Op) :
    ∃ bytes, Plays b t ops bytes ∧ following <:+ bytes := by
  induction ops generalizing b t with
  | nil => exact ⟨_, .nil b t, h.suffix⟩
  | cons op ops ih =>
    obtain ⟨t', hallow, hmirror⟩ := h.step op
    obtain ⟨bytes, hplays, hsuffix⟩ := ih hmirror
    exact ⟨bytes, .cons hallow hplays, hsuffix⟩

/-! ## The start of the download -/

/-- What the start of a download keeps. -/
structure Started (b b' : ClientBuf) : Prop where
  state : b'.state = .download
  conn : b'.conn = b.conn
  slot : SameSlot b b'

theorem takeLength_frame (b : ClientBuf) :
    b.takeLength.conn = b.conn ∧ b.takeLength.chunked = b.chunked ∧
      b.takeLength.firstChunk = b.firstChunk ∧ b.takeLength.chunkRemaining = b.chunkRemaining ∧
      SameSlot b b.takeLength := by
  unfold ClientBuf.takeLength
  split
  · dsimp only
    split <;> exact ⟨rfl, rfl, rfl, rfl, ⟨rfl, rfl, rfl⟩⟩
  · exact ⟨rfl, rfl, rfl, rfl, ⟨rfl, rfl, rfl⟩⟩

/-- With HTTP/1.1 the body of the server is in chunks, whatever length the headers say. -/
theorem startDownload_http11 {stamp : Stamp} {n : Nat} (hmajor : b.majorVersion = 1)
    (hminor : b.minorVersion = 1) (hheaders : b.responseHeaders = fields .http11 stamp n) :
    Started b b.startDownload ∧ b.startDownload.chunked = true ∧
      b.startDownload.firstChunk = true ∧ b.startDownload.chunkRemaining = 0 := by
  have hchunked : b.majorVersion = 1 ∧ 1 ≤ b.minorVersion ∧
      b.responseHeaders.find (ascii "Transfer-Encoding") = some (ascii "chunked") := by
    rw [hheaders, find_transferEncoding, if_pos rfl]
    exact ⟨hmajor, by omega, rfl⟩
  have henc : b.takeEncoding = { b with chunked := true, firstChunk := true, chunkRemaining := 0 } :=
    if_pos hchunked
  obtain ⟨hconn, hc, hfirst, hzero, hslot⟩ := takeLength_frame b.takeEncoding
  rw [henc] at hconn hc hfirst hzero hslot
  unfold ClientBuf.startDownload
  rw [henc]
  exact ⟨⟨rfl, hconn, ⟨hslot.haveLast, hslot.havePending, hslot.pending⟩⟩, hc, hfirst, hzero⟩

/-- With HTTP/1.0 the length of the body is in the headers, if the server knows it. -/
theorem startDownload_http10 {stamp : Stamp} {n : Nat} (hn : n < 2 ^ 63) (hsized : stamp.sized = true)
    (hheaders : b.responseHeaders = fields .http10 stamp n) :
    Started b b.startDownload ∧ b.startDownload.chunked = false ∧
      b.startDownload.contentLength = n ∧ b.startDownload.contentRemaining = n := by
  have hchunked : ¬(b.majorVersion = 1 ∧ 1 ≤ b.minorVersion ∧
      b.responseHeaders.find (ascii "Transfer-Encoding") = some (ascii "chunked")) := by
    rw [hheaders, find_transferEncoding, if_neg (by decide)]
    exact fun h => (nomatch h.2.2)
  have hnumber : strtoul 10 (decimal n) = (n, []) :=
    strtoul_numeral (by decide) (by decide) (by omega)
  have henc : b.takeEncoding = { b with chunked := false } := if_neg hchunked
  have hlen : ClientBuf.takeLength { b with chunked := false }
      = { b with chunked := false, contentLength := n, contentRemaining := n } := by
    unfold ClientBuf.takeLength
    dsimp only
    rw [hheaders, find_contentLength, if_pos hsized]
    dsimp only
    rw [hnumber]
    rfl
  unfold ClientBuf.startDownload
  rw [henc, hlen]
  exact ⟨⟨rfl, rfl, ⟨rfl, rfl, rfl⟩⟩, rfl, rfl, rfl⟩

/-- The buffer before the body is read. -/
theorem Started.mirrors {file : File} (h : Started b b') (hp : b.havePending = false)
    (hlast : b.haveLast = false) (hl : Left following b' file.bytes) :
    Mirrors following b' (Tape.start file.bytes) :=
  .reading h.state hl file.fits
    (.empty (h.slot.havePending.trans hp) (h.slot.haveLast.trans hlast) rfl rfl)

/-- **The answer to a GET is a head, and a body that the buffer mirrors.** -/
theorem sendGet_mirrors {file : File} {version : Version} {stamp : Stamp} {body : Text}
    (old : ClientBuf) (host request : Text) (headers : Headers)
    (hstart : ∀ b : ClientBuf, b.majorVersion = 1 → b.minorVersion = version.minor →
      b.responseHeaders = fields version stamp file.bytes.length →
      b.conn = ⟨body ++ following, true⟩ → b.havePending = false → b.haveLast = false →
      Mirrors following b.startDownload (Tape.start file.bytes)) :
    ∃ b, (old.setConn
        ⟨responseHead version stamp file.bytes.length ++ body ++ following, true⟩
        ).sendGetOrHeadOrDeleteRequest .get host request headers = (none, b) ∧
      Mirrors following b (Tape.start file.bytes) := by
  unfold ClientBuf.sendGetOrHeadOrDeleteRequest
  rw [if_neg (by exact fun h => h rfl)]
  dsimp only
  rw [receiveResponse_responseHead
    file.fits rfl rfl rfl (by rw [← List.append_assoc]; rfl)]
  dsimp only
  rw [if_neg (by decide)]
  exact ⟨_, rfl, hstart _ rfl rfl rfl rfl rfl rfl⟩

/-- **A download delivers the file.** Whatever the reader does, its operations are those of a tape with
the bytes of the file, and no byte after the answer is taken. -/
theorem download_delivers {file : File} {response : Text} (h : Served file response)
    (old : ClientBuf) (following host request : Text) (headers : Headers) (ops : List Op) :
    ∃ b bytes, (old.setConn ⟨response ++ following, true⟩).sendGetOrHeadOrDeleteRequest .get
        host request headers = (none, b) ∧
      Plays b (Tape.start file.bytes) ops bytes ∧ following <:+ bytes := by
  have hchunks : ∀ (stamp : Stamp) (cs : List Chunk), (cs.map Chunk.data).flatten = file.bytes →
      ∀ b : ClientBuf, b.majorVersion = 1 → b.minorVersion = Version.http11.minor →
      b.responseHeaders = fields .http11 stamp file.bytes.length →
      b.conn = ⟨chunkedBody cs ++ following, true⟩ → b.havePending = false → b.haveLast = false →
      Mirrors following b.startDownload (Tape.start file.bytes) := by
    intro stamp cs hdata b hmajor hminor hheaders hconn hp hlast
    obtain ⟨hstarted, hc, hfirst, hzero⟩ := startDownload_http11 hmajor hminor hheaders
    refine hstarted.mirrors hp hlast (.chunked [] cs hc hdata.symm hzero (fun _ => rfl) ?_)
    rw [hstarted.conn, hconn, ClientBuf.gap, if_pos hfirst]
    rfl
  suffices hm : ∃ b, (old.setConn ⟨response ++ following, true⟩).sendGetOrHeadOrDeleteRequest .get
      host request headers = (none, b) ∧ Mirrors following b (Tape.start file.bytes) by
    obtain ⟨b, hb, hmirror⟩ := hm
    obtain ⟨bytes, hplays, hsuffix⟩ := hmirror.plays ops
    exact ⟨b, bytes, hb, hplays, hsuffix⟩
  cases h with
  | chunks stamp cs hdata => exact sendGet_mirrors old host request headers (hchunks stamp cs hdata)
  | server version stamp hknown =>
    unfold respond sendBody
    cases version with
    | http11 =>
      obtain ⟨cs, hdata, hbytes⟩ := sendBodyLoop_chunked (Nat.lt_succ_self file.bytes.length)
      rw [show decide (Version.http11 = .http11) = true from rfl, hbytes, if_pos rfl]
      exact sendGet_mirrors old host request headers (hchunks stamp cs hdata)
    | http10 =>
      have hsized : stamp.sized = true := hknown.resolve_left (by decide)
      rw [show decide (Version.http10 = .http11) = false from rfl,
        sendBodyLoop_plain (Nat.lt_succ_self file.bytes.length), if_neg (by decide),
        List.append_nil]
      refine sendGet_mirrors old host request headers ?_
      intro b hmajor hminor hheaders hconn hp hlast
      obtain ⟨hstarted, hc, hlen, hremaining⟩ := startDownload_http10 file.fits hsized hheaders
      refine hstarted.mirrors hp hlast (.sized hc ?_ hremaining (hstarted.conn.trans hconn))
      rw [hlen]
      have := file.fits
      unfold minusOne
      omega

/-- A Sunday morning. -/
def sunday : Tm := ⟨0, 6, 10, 1994, 8, 49, 37, by decide⟩

def letters : File := ⟨ascii "abc", by decide⟩

/-- A reader takes a character, puts it back, and asks for more than the file has. -/
theorem download_letters :
    ∃ b bytes, (ClientBuf.created.setConn
        ⟨respond .http11 ⟨sunday, none, true⟩ letters ++ ascii "HTTP", true⟩
        ).sendGetOrHeadOrDeleteRequest .get (ascii "host") (ascii "/letters") [] = (none, b) ∧
      Plays b (Tape.start letters.bytes) [.uflow, .pbackfail none, .xsgetn 5] bytes ∧
      ascii "HTTP" <:+ bytes :=
  download_delivers (.server .http11 ⟨sunday, none, true⟩ (.inl rfl)) ClientBuf.created (ascii "HTTP")
    (ascii "host") (ascii "/letters") [] [.uflow, .pbackfail none, .xsgetn 5]

end OpenCpi.Http
