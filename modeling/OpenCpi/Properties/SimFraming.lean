import OpenCpi.Properties.SimServer

/-!
# Responses do not depend on how they are read

`doResponse` reads a response in as many parts as the pipe hands out. It asks for ten bytes first, and
once it has seen the length for what is missing. A response of ten bytes or more is forwarded whole, and
nothing of the next one is read with it.
-/

namespace OpenCpi.Sim

open Infra

variable {A : Type} {w w' w₀ : World A} {responses : List (List UInt8)}

/-- A response of ten bytes or more, with its length in its length byte. -/
structure Counted (r : List UInt8) : Prop where
  min : respMin ≤ r.length
  length : (r[1]?).map (·.toNat) = some r.length

instance (r : List UInt8) : Decidable (Counted r) :=
  decidable_of_iff (respMin ≤ r.length ∧ (r[1]?).map (·.toNat) = some r.length)
    ⟨fun h => ⟨h.1, h.2⟩, fun h => ⟨h.min, h.length⟩⟩

/-- The results of some reads split responses of these lengths, of the first of which some bytes have
been read: a read is interrupted, or it returns one byte or more, up to what is asked for. -/
def Splits : List Nat → Nat → List ReadResult → Prop
  | lens, _, [] => lens = []
  | lens, got, .again :: reads => Splits lens got reads
  | _, _, .broken .. :: _ => False
  | [], _, .bytes _ :: _ => False
  | len :: lens, got, .bytes n :: reads =>
    0 < n ∧ n ≤ leftOf len got ∧
      if got + n = len then Splits lens 0 reads else Splits (len :: lens) (got + n) reads

/-- Each read is a call of `doResponse`, and what the server sends arrives. -/
def responds (reads : List ReadResult) : List (Op A) := reads.map (.respond · none 2)

/-- What was sent after the first `k` responses. -/
def sentAfter (w₀ : World A) (responses : List (List UInt8)) (k : Nat) : List (List UInt8) :=
  w₀.sent.map (·.bytes) ++ responses.take k

/-- **The invariant**: `k` responses were forwarded, and the rest is still to be read or partly in the
buffer. -/
structure Forwarding (w₀ : World A) (responses : List (List UInt8)) (k : Nat) (w : World A) : Prop where
  error : w.error = none
  count : k ≤ responses.length
  sent : w.sent.map (·.bytes) = sentAfter w₀ responses k
  queue : responses.length ≤ k + w.respQueue.length
  stream : w.got ++ w.respFifo = (responses.drop k).flatten
  reading : w.respLeft ≠ 0 → ∃ r ∈ responses[k]?, w.response.length < r.length ∧
    w.respLeft = leftOf r.length w.response.length

theorem leftOf_le {len got : Nat} (h : respMin ≤ len) : leftOf len got ≤ len - got := by
  unfold leftOf respMin at *
  split <;> omega

/-- A whole response goes out, and the next one is not begun. -/
theorem Forwarding.forward {k : Nat} {r : List UInt8} (h : Forwarding w₀ responses k w)
    (hk : responses[k]? = some r) :
    Forwarding w₀ responses (k + 1) (forward { w with
      response := r, respFifo := (responses.drop (k + 1)).flatten, respLeft := 0 } none 2) := by
  have hlt := (List.getElem?_eq_some_iff.mp hk).1
  have hqueue := h.queue
  have hsent : sentAfter w₀ responses (k + 1) = sentAfter w₀ responses k ++ [r] := by
    unfold sentAfter
    rw [List.take_add_one, hk, List.append_assoc]
    rfl
  cases hlast : w.respQueue.getLast? with
  | none =>
    rw [List.getLast?_eq_none_iff.mp hlast, List.length_nil] at hqueue
    omega
  | some request =>
    have hgone (spinning : Bool) : Forwarding w₀ responses (k + 1) { w with
        response := r
        respFifo := (responses.drop (k + 1)).flatten
        respLeft := 0
        sent := w.sent ++ [⟨socketOf w.clients request.sock request.index, request.addr, r⟩]
        error := none
        respQueue := w.respQueue.tail
        spinning } := by
      refine ⟨rfl, hlt, ?_, ?_, rfl, fun hl => absurd rfl hl⟩
      · rw [List.map_append, h.sent, hsent]
        rfl
      · show responses.length ≤ k + 1 + w.respQueue.tail.length
        rw [List.length_tail]
        omega
    unfold Sim.forward
    rw [hlast]
    dsimp only
    split
    · unfold World.spin
      split
      · exact hgone w.spinning
      · exact hgone true
    · exact hgone w.spinning

theorem spin_respLeft (w : World A) (n : Int) : (w.spin n).respLeft = w.respLeft := by
  obtain ⟨spinning, error, heq, -⟩ := spin_eq w n
  rw [heq]

theorem forward_respLeft (w : World A) (send : Option String) (spin : Int) :
    (Sim.forward w send spin).respLeft = w.respLeft := by
  unfold Sim.forward
  split
  · rfl
  · dsimp only
    split
    · exact spin_respLeft _ _
    · rfl

/-- The bytes of one read are the end of a response, or a part of it. -/
theorem Forwarding.takeBytes {k n : Nat} {r : List UInt8} (h : Forwarding w₀ responses k w)
    (hk : responses[k]? = some r) (hr : Counted r) (hleft : w.respLeft ≠ 0) (hn : n ≤ w.respLeft)
    (hs : takeBytes w n none 2 = some w') :
    (w.response.length + n = r.length ∧ Forwarding w₀ responses (k + 1) w' ∧ w'.got.length = 0) ∨
    (w.response.length + n < r.length ∧ Forwarding w₀ responses k w' ∧
      w'.got.length = w.response.length + n) := by
  obtain ⟨r', hk', hpart, hrest⟩ := h.reading hleft
  obtain rfl : r = r' := Option.some.inj (hk.symm.trans hk')
  obtain ⟨hlt, hget⟩ := List.getElem?_eq_some_iff.mp hk
  have hdrop : responses.drop k = r :: responses.drop (k + 1) := by
    rw [List.drop_eq_getElem_cons hlt, hget]
  have hstream : w.response ++ w.respFifo = r ++ (responses.drop (k + 1)).flatten := by
    have := h.stream
    rwa [World.got, if_neg hleft, hdrop] at this
  have hlength : ∀ len, r[1]? = some len → len.toNat = r.length := by
    intro len hlen
    have := hr.length
    rw [hlen] at this
    exact Option.some.inj this
  -- no read asks for more than the response that it is in
  have hn : w.response.length + n ≤ r.length := by
    have := @leftOf_le _ w.response.length hr.min
    omega
  rcases takeBytes_eq (Nat.le_trans (by decide) hr.min) hlength hstream hrest hn hs with
    ⟨hall, rfl⟩ | ⟨hmore, rfl⟩
  · refine Or.inl ⟨hall, h.forward hk, ?_⟩
    rw [World.got, if_pos (forward_respLeft _ _ _)]
    rfl
  · have hlen : (r.take (w.response.length + n)).length = w.response.length + n := by
      rw [List.length_take]
      omega
    refine Or.inr ⟨hmore, ⟨h.error, h.count, h.sent, h.queue, ?_, fun _ => ⟨r, hk, ?_, ?_⟩⟩, ?_⟩
    · rw [World.got, if_neg (leftOf_ne_zero hmore), ← List.append_assoc, List.take_append_drop, hdrop]
      rfl
    · rw [hlen]
      exact hmore
    · rw [hlen]
    · rw [World.got, if_neg (leftOf_ne_zero hmore), hlen]

/-- A read of the response `r`, of which some bytes have been read, is taken. -/
theorem Forwarding.read {k n : Nat} {r : List UInt8} (h : Forwarding w₀ responses k w)
    (hk : responses[k]? = some r) (hr : Counted r) (hpos : 0 < n) (hn : n ≤ leftOf r.length w.got.length) :
    ∃ w', step w (.respond (.bytes n) none 2) = some w' ∧
      ((w.got.length + n = r.length ∧ Forwarding w₀ responses (k + 1) w' ∧ w'.got.length = 0) ∨
      (w.got.length + n < r.length ∧ Forwarding w₀ responses k w' ∧ w'.got.length = w.got.length + n)) := by
  obtain ⟨hlt, hget⟩ := List.getElem?_eq_some_iff.mp hk
  have hfifo : n ≤ w.respFifo.length := by
    have hlen := congrArg List.length h.stream
    rw [List.drop_eq_getElem_cons hlt, hget, List.flatten_cons, List.length_append,
      List.length_append] at hlen
    have := @leftOf_le _ w.got.length hr.min
    omega
  by_cases hfirst : w.respLeft = 0
  · have hgot : w.got = [] := if_pos hfirst
    rw [hgot, List.length_nil] at hn ⊢
    have hstart : Forwarding w₀ responses k { w with respLeft := respMin, response := [] } := by
      have hstream := h.stream
      rw [hgot] at hstream
      exact ⟨h.error, h.count, h.sent, h.queue, hstream, fun _ =>
        ⟨r, hk, Nat.lt_of_lt_of_le (show 0 < respMin by decide) hr.min, rfl⟩⟩
    have hasked : n ≤ w.asked := by
      rw [World.asked, if_pos hfirst]
      exact hn
    obtain ⟨w', hs⟩ := read_enabled h.error hpos hasked hfifo none 2
    refine ⟨w', hs, ?_⟩
    unfold Sim.step at hs
    rw [h.error, Option.isSome_none, if_neg Bool.false_ne_true] at hs
    simp only [doResponse, hfirst, if_true] at hs
    exact hstart.takeBytes hk hr (show respMin ≠ 0 by decide) hn hs
  · have hgot : w.got = w.response := if_neg hfirst
    obtain ⟨r', hk', -, hrest⟩ := h.reading hfirst
    obtain rfl : r = r' := Option.some.inj (hk.symm.trans hk')
    rw [hgot, ← hrest] at hn
    rw [hgot]
    have hasked : n ≤ w.asked := by
      rw [World.asked, if_neg hfirst]
      exact hn
    obtain ⟨w', hs⟩ := read_enabled h.error hpos hasked hfifo none 2
    refine ⟨w', hs, ?_⟩
    unfold Sim.step at hs
    rw [h.error, Option.isSome_none, if_neg Bool.false_ne_true] at hs
    simp only [doResponse, hfirst, if_false] at hs
    exact h.takeBytes hk hr hfirst hn hs

/-- An interrupted read changes nothing that counts. -/
theorem Forwarding.again {k : Nat} (h : Forwarding w₀ responses k w) :
    ∃ w', step w (.respond .again none 2) = some w' ∧ Forwarding w₀ responses k w' ∧
      w'.got.length = w.got.length := by
  unfold Sim.step
  rw [h.error, Option.isSome_none, if_neg Bool.false_ne_true]
  by_cases hfirst : w.respLeft = 0
  · have hstream := h.stream
    rw [World.got, if_pos hfirst] at hstream
    simp only [doResponse, hfirst, if_true]
    refine ⟨_, rfl, ⟨h.error, h.count, h.sent, h.queue, hstream, fun hl => absurd rfl hl⟩, ?_⟩
    rw [World.got, World.got, if_pos rfl, if_pos hfirst]
  · simp only [doResponse, hfirst, if_false]
    exact ⟨w, rfl, h, rfl⟩

/-- Reads that split what is left of the stream are all taken, and nothing is left then. -/
theorem Forwarding.reads (hr : ∀ r ∈ responses, Counted r) : ∀ (reads : List ReadResult) {k : Nat}
    {w : World A}, Forwarding w₀ responses k w →
    Splits ((responses.drop k).map List.length) w.got.length reads →
    ∃ w', exec step w (responds reads) = some w' ∧ Forwarding w₀ responses responses.length w'
  | [], k, w, h, hsplit => by
    have hall : responses.drop k = [] := List.map_eq_nil_iff.mp hsplit
    have hk : k = responses.length := Nat.le_antisymm h.count (List.drop_eq_nil_iff.mp hall)
    exact ⟨w, rfl, hk ▸ h⟩
  | .again :: reads, k, w, h, hsplit => by
    obtain ⟨w₁, hs, h₁, hgot⟩ := h.again
    rw [Splits, ← hgot] at hsplit
    obtain ⟨w', hw', hend⟩ := Forwarding.reads hr reads h₁ hsplit
    refine ⟨w', ?_, hend⟩
    show (step w (.respond .again none 2)).bind _ = _
    rw [hs]
    exact hw'
  | .broken n errno :: reads, k, w, h, hsplit => by
    rw [Splits] at hsplit
    exact hsplit.elim
  | .bytes n :: reads, k, w, h, hsplit => by
    by_cases hlt : k < responses.length
    · have hk := List.getElem?_eq_getElem hlt
      have hcounted := hr _ (List.getElem_mem hlt)
      rw [List.drop_eq_getElem_cons hlt, List.map_cons, Splits] at hsplit
      obtain ⟨hpos, hn, hnext⟩ := hsplit
      obtain ⟨w₁, hs, hcases⟩ := h.read hk hcounted hpos hn
      obtain ⟨w', hw', hend⟩ : ∃ w', exec step w₁ (responds reads) = some w' ∧
          Forwarding w₀ responses responses.length w' := by
        rcases hcases with ⟨hall, h₁, hgot⟩ | ⟨hmore, h₁, hgot⟩
        · rw [if_pos hall, ← hgot] at hnext
          exact Forwarding.reads hr reads h₁ hnext
        · rw [if_neg (Nat.ne_of_lt hmore), ← hgot] at hnext
          refine Forwarding.reads hr reads h₁ ?_
          rw [List.drop_eq_getElem_cons hlt, List.map_cons]
          exact hnext
      refine ⟨w', ?_, hend⟩
      show (step w (.respond (.bytes n) none 2)).bind _ = _
      rw [hs]
      exact hw'
    · rw [List.drop_of_length_le (by omega), List.map_nil, Splits] at hsplit
      exact hsplit.elim

/-- **Framing does not depend on fragmentation.** However the reads split the stream, they are all
taken, and what goes to the clients are the responses, whole and in order. -/
theorem forwards_responses (hr : ∀ r ∈ responses, Counted r) (hidle : w₀.respLeft = 0)
    (herr : w₀.error = none) (hfifo : w₀.respFifo = responses.flatten)
    (hqueue : responses.length ≤ w₀.respQueue.length) {reads : List ReadResult}
    (hsplit : Splits (responses.map List.length) 0 reads) :
    ∃ w, exec step w₀ (responds reads) = some w ∧ w.error = none ∧ w.respFifo = [] ∧
      w.sent.map (·.bytes) = w₀.sent.map (·.bytes) ++ responses := by
  have hgot : w₀.got = [] := if_pos hidle
  have hstart : Forwarding w₀ responses 0 w₀ := by
    refine ⟨herr, Nat.zero_le _, ?_, ?_, ?_, fun hl => absurd hidle hl⟩
    · rw [sentAfter, List.take_zero, List.append_nil]
    · rw [Nat.zero_add]
      exact hqueue
    · rw [hgot, hfifo, List.drop_zero]
      rfl
  have hsplit' : Splits ((responses.drop 0).map List.length) w₀.got.length reads := by
    rw [hgot]
    exact hsplit
  obtain ⟨w, hw, hend⟩ := Forwarding.reads hr reads hstart hsplit'
  have hstream := hend.stream
  rw [List.drop_length, List.flatten_nil] at hstream
  refine ⟨w, hw, hend.error, (List.append_eq_nil_iff.mp hstream).2, ?_⟩
  rw [hend.sent, sentAfter, List.take_length]

/-- A server with two requests outstanding, and two responses of ten and eleven bytes in the pipe. -/
def twoResponses : World Nat :=
  { boot [] with
    respQueue := [⟨⟨1, 0⟩, 7, 0⟩, ⟨⟨1, 0⟩, 7, 0⟩]
    respFifo := [0, 10, 1, 2, 3, 4, 5, 6, 7, 8] ++ [0, 11, 1, 2, 3, 4, 5, 6, 7, 8, 9] }

/-- The first response comes in three parts, with an interrupted read, and the second in two. -/
theorem forwards_responses_in_parts : ∃ w : World Nat,
    exec step twoResponses (responds
      [.bytes 1, .again, .bytes 3, .bytes 6, .again, .bytes 10, .bytes 1]) = some w ∧ w.error = none ∧
    w.respFifo = [] ∧
    w.sent.map (·.bytes) = [[0, 10, 1, 2, 3, 4, 5, 6, 7, 8], [0, 11, 1, 2, 3, 4, 5, 6, 7, 8, 9]] := by
  have hcounted : ∀ r ∈ [[0, 10, 1, 2, 3, 4, 5, 6, 7, 8], [0, 11, 1, 2, 3, 4, 5, 6, 7, 8, 9]],
      Counted r := by decide
  have hsplit : Splits [10, 11] 0 [.bytes 1, .again, .bytes 3, .bytes 6, .again, .bytes 10, .bytes 1] := by
    simp [Splits, leftOf, respMin]
  exact @forwards_responses Nat twoResponses _ hcounted rfl rfl rfl (by decide) _ hsplit

end OpenCpi.Sim
