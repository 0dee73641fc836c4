import OpenCpi.Sim.Server

/-!
# Responses of the simulator go back to their requesters, one client at a time

`doResponse` takes the requester from the back of `m_respQueue` and removes the one at the front, so
with two clients waiting the answer to the first goes to the second. It also reads ten bytes before
it knows the length of a response, and an answer to a write has only six: when the next response
stands behind it the read runs into that, and nothing is ever sent again.

In a run in which a request is forwarded only while nobody else waits, no read runs into the next
response and no write is interrupted, the answer to each request is sent once, to the client that
made the request, in order.
-/

namespace OpenCpi.Sim

open Infra

variable {A : Type} {w w' : World A}

/-! ## What the server promises -/

/-- The answer `a` to the request `r` as its client gets it. -/
def deliver (clients : List Socket) (r : Request A × Packet) (a : Response) : Sent A :=
  ⟨socketOf clients r.1.sock r.1.index, r.1.addr, a.bytes⟩

/-- What the clients should get: the answers in order, each to its requester. -/
def World.due (w : World A) : List (Sent A) :=
  List.zipWith (deliver w.clients) w.issued w.answers

/-- Nothing but what is due was sent, in order and each packet once, and all of it once a running
server has emptied the response pipe. -/
structure Delivered (w : World A) : Prop where
  paired : w.sent <+: w.due
  complete : w.error = none → w.respFifo = [] → w.sent = w.due

/-- How many bytes of the response that is being read are still in the pipe. -/
def World.rest (w : World A) : Nat :=
  match w.answers[w.sent.length]? with
  | none => 0
  | some a => a.bytes.length - if w.respLeft = 0 then 0 else w.response.length

/-- The condition on a step. -/
def Orderly (w : World A) : Op A → Prop
  | .request r _ results => (∀ q ∈ w.respQueue, q = r) ∧ .interrupted ∉ results
  | .respond (.bytes n) _ _ => n ≤ w.rest
  | _ => True

instance [DecidableEq A] (w : World A) : (op : Op A) → Decidable (Orderly w op)
  | .request .. => inferInstanceAs (Decidable (_ ∧ _))
  | .respond (.bytes n) _ _ => inferInstanceAs (Decidable (n ≤ w.rest))
  | .respond .again .. | .respond (.broken ..) .. | .answer _ | .ack .. => .isTrue trivial

/-! ## Streams of packets -/

theorem lengthField_append {bytes rest : List UInt8} (h : 2 ≤ bytes.length) :
    lengthField (bytes ++ rest) = lengthField bytes := by
  match bytes, h with
  | hi :: lo :: tail, _ => rfl

/-- The simulator finds the packets that were written. -/
theorem frames_flatten : ∀ (ps : List Packet) (fuel : Nat),
    ((ps.map (·.bytes)).flatten).length ≤ fuel →
    frames fuel (ps.map (·.bytes)).flatten = ps.map (·.bytes)
  | [], fuel, _ => by
    cases fuel with
    | zero => rfl
    | succ fuel => simp [frames, lengthField]
  | p :: ps, fuel, h => by
    obtain ⟨hmin, hlen⟩ := p.framed
    simp only [List.map_cons, List.flatten_cons, List.length_append] at h ⊢
    obtain ⟨fuel, rfl⟩ : ∃ n, fuel = n + 1 := ⟨fuel - 1, by omega⟩
    rw [frames, lengthField_append (by omega), hlen]
    rw [if_pos ⟨hmin, by simp⟩, List.take_left, List.drop_left, frames_flatten ps fuel (by omega)]

/-! ## The invariant -/

/-- What was read of the response that is being read. -/
def World.got (w : World A) : List UInt8 := if w.respLeft = 0 then [] else w.response

/-- A response is being read. `m_respLeft` says how much of it is missing once its length is
known. -/
structure Reading (w : World A) (a : Response) : Prop where
  next : w.answers[w.sent.length]? = some a
  part : w.response.length < a.bytes.length
  left : w.respLeft = if w.response.length < 2 then respMin - w.response.length
    else a.bytes.length - w.response.length

/-- **The invariant.** The last two fields hold until the server gives up. -/
structure Inv (w : World A) : Prop where
  queue : w.respQueue = (w.issued.map (·.1)).drop w.sent.length
  same : ∀ p ∈ w.respQueue, ∀ q ∈ w.respQueue, p = q
  sent : w.sent = w.due.take w.sent.length
  count : w.sent.length ≤ w.answers.length
  answered : w.answers.length ≤ w.issued.length
  bytes : w.got ++ w.respFifo = ((w.answers.drop w.sent.length).map (·.bytes)).flatten
  stream : w.error = none → w.requests = (w.issued.map (·.2.bytes)).flatten
  reading : w.error = none → w.respLeft ≠ 0 → ∃ a, Reading w a

theorem inv_boot (clients : List Socket) : Inv (boot clients : World A) where
  queue := rfl
  same := by simp [boot]
  sent := rfl
  count := Nat.le_refl _
  answered := Nat.le_refl _
  bytes := rfl
  stream := fun _ => rfl
  reading := fun _ h => absurd rfl h

/-- Spinning changes only the credits and the error. -/
theorem spin_eq (w : World A) (n : Int) : ∃ spinning error,
    w.spin n = { w with spinning, error } ∧ (error = none → w.error = none) := by
  unfold World.spin
  split
  · exact ⟨w.spinning, w.error, rfl, id⟩
  · split
    · exact ⟨true, w.error, rfl, id⟩
    · exact ⟨w.spinning, _, rfl, by simp⟩

theorem Inv.spin (h : Inv w) (n : Int) : Inv (w.spin n) := by
  obtain ⟨spinning, error, heq, herr⟩ := spin_eq w n
  rw [heq]
  exact ⟨h.queue, h.same, h.sent, h.count, h.answered, h.bytes, fun he => h.stream (herr he),
    fun he hl => by
      obtain ⟨a, ha⟩ := h.reading (herr he) hl
      exact ⟨a, ha.next, ha.part, ha.left⟩⟩

/-- The server gives up. -/
theorem Inv.fail (h : Inv w) (error : String) : Inv { w with error := some error } :=
  ⟨h.queue, h.same, h.sent, h.count, h.answered, h.bytes, by simp, by simp⟩

theorem Inv.ack (h : Inv w) (r c n : Int) : Inv (w.ack r c n) := by
  unfold World.ack
  split
  · refine Inv.spin ?_ n
    exact ⟨h.queue, h.same, h.sent, h.count, h.answered, h.bytes, h.stream, fun he hl => by
      obtain ⟨a, ha⟩ := h.reading he hl
      exact ⟨a, ha.next, ha.part, ha.left⟩⟩
  · exact h.fail _

/-! ## Requests -/

/-- The loop of `sendToSim` writes the rest of the packet or gives up. -/
theorem sendLoop_eq {bytes : List UInt8} : ∀ {results : List WriteResult} {nw : Nat}
    {w w' : World A}, .interrupted ∉ results → nw ≤ bytes.length →
    sendLoop bytes nw results w = some w' → ∃ dcp spinning error requests,
      w' = { w with dcp, spinning, error, requests } ∧
        (error = none → requests = w.requests ++ bytes.drop nw)
  | [], nw, w, w', _, hnw, h => by
    rw [sendLoop] at h
    split at h
    · cases h
    · next hge =>
      cases h
      refine ⟨w.dcp, w.spinning, w.error, w.requests, rfl, fun _ => ?_⟩
      rw [List.drop_of_length_le (by omega), List.append_nil]
  | result :: rest, nw, w, w', hint, hnw, h => by
    unfold sendLoop at h
    split at h
    · cases result with
      | interrupted => exact absurd List.mem_cons_self hint
      | failed =>
        cases h
        exact ⟨_, _, _, _, rfl, by simp⟩
      | wrote n credit spin =>
        dsimp only at h
        split at h
        · cases h
          exact ⟨_, _, _, _, rfl, by simp⟩
        · split at h
          · cases h
          · next hfit =>
            split at h
            · cases h
              exact ⟨_, _, _, _, rfl, by simp⟩
            · obtain ⟨spinning, error, heq, -⟩ := spin_eq
                { w with
                  requests := w.requests ++ (bytes.drop nw).take n
                  dcp := w.dcp + n } spin
              rw [heq] at h
              split at h
              · next hsome =>
                cases h
                refine ⟨_, _, _, _, rfl, fun hnone => ?_⟩
                simp [hnone] at hsome
              · obtain ⟨dcp', spinning', error', requests', rfl, hreq⟩ :=
                  sendLoop_eq (fun hm => hint (List.mem_cons_of_mem _ hm)) (by omega) h
                refine ⟨_, _, _, _, rfl, fun hnone => ?_⟩
                rw [hreq hnone, List.append_assoc]
                congr 1
                rw [← List.drop_drop]
                exact List.take_append_drop n _
    · cases h

/-- What is due first does not depend on later requests and answers. -/
theorem take_zipWith_append {B C D : Type} {f : B → C → D} {l : List B} {m : List C} {k : Nat}
    (l' : List B) (m' : List C) (hl : k ≤ l.length) (hm : k ≤ m.length) :
    (List.zipWith f (l ++ l') (m ++ m')).take k = (List.zipWith f l m).take k := by
  rw [List.take_zipWith, List.take_zipWith, List.take_append_of_le_length hl,
    List.take_append_of_le_length hm]

theorem Inv.sendToSim {r : Request A} {p : Packet} {results : List WriteResult} (h : Inv w)
    (herr : w.error = none) (hsame : ∀ q ∈ w.respQueue, q = r) (hint : .interrupted ∉ results)
    (hs : sendToSim w r p results = some w') : Inv w' := by
  obtain ⟨w₁, hw₁, rfl⟩ := Option.map_eq_some_iff.mp hs
  obtain ⟨dcp, spinning, error, requests, rfl, hreq⟩ :=
    sendLoop_eq hint (Nat.zero_le _) hw₁
  split
  · next hsome =>
    refine ⟨h.queue, h.same, h.sent, h.count, h.answered, h.bytes, fun hn => ?_, fun hn => ?_⟩ <;>
      exact absurd hsome (by simp [show error = none from hn])
  · next hnone =>
    have hnone : error = none := by simpa using hnone
    refine ⟨?_, ?_, ?_, h.count, ?_, h.bytes, fun _ => ?_, fun _ hl => ?_⟩
    · show w.respQueue ++ [r] = ((w.issued ++ [(r, p)]).map (·.1)).drop w.sent.length
      rw [h.queue, List.map_append, List.drop_append_of_le_length]
      · rfl
      · rw [List.length_map]
        exact Nat.le_trans h.count h.answered
    · have hr : ∀ q ∈ w.respQueue ++ [r], q = r := by
        intro q hq
        rcases List.mem_append.mp hq with hq | hq
        · exact hsame q hq
        · exact List.mem_singleton.mp hq
      exact fun q hq q' hq' => (hr q hq).trans (hr q' hq').symm
    · show w.sent = List.take w.sent.length
        (List.zipWith (deliver w.clients) (w.issued ++ [(r, p)]) w.answers)
      have htake := take_zipWith_append (f := deliver w.clients) [(r, p)] []
        (Nat.le_trans h.count h.answered) h.count
      rw [List.append_nil] at htake
      rw [htake]
      exact h.sent
    · show w.answers.length ≤ (w.issued ++ [(r, p)]).length
      have := h.answered
      simp only [List.length_append]
      omega
    · show requests = ((w.issued ++ [(r, p)]).map (·.2.bytes)).flatten
      rw [hreq hnone, h.stream herr]
      simp
    · obtain ⟨a, ha⟩ := h.reading herr hl
      exact ⟨a, ha.next, ha.part, ha.left⟩

/-! ## Answers -/

theorem Inv.answer {response : Response} (h : Inv w) (herr : w.error = none)
    (hfree : w.answers.length < (frames w.requests.length w.requests).length) :
    Inv { w with
      answers := w.answers ++ [response]
      respFifo := w.respFifo ++ response.bytes } := by
  have hlen : w.answers.length < w.issued.length := by
    have hmap : w.issued.map (·.2.bytes) = (w.issued.map (·.2)).map (·.bytes) := by
      rw [List.map_map]
      rfl
    rw [h.stream herr, hmap, frames_flatten _ _ (Nat.le_refl _)] at hfree
    simpa using hfree
  have hcount := h.count
  refine ⟨h.queue, h.same, ?_, ?_, ?_, ?_, h.stream, fun _ hl => ?_⟩
  · show w.sent = List.take w.sent.length
      (List.zipWith (deliver w.clients) w.issued (w.answers ++ [response]))
    have htake := take_zipWith_append (f := deliver w.clients) [] [response]
      (Nat.le_trans hcount h.answered) hcount
    rw [List.append_nil] at htake
    rw [htake]
    exact h.sent
  · simp only [List.length_append]
    omega
  · simp only [List.length_append, List.length_singleton]
    omega
  · show w.got ++ (w.respFifo ++ response.bytes) = _
    rw [← List.append_assoc, h.bytes, List.drop_append_of_le_length hcount]
    simp
  · obtain ⟨a, ha⟩ := h.reading herr hl
    refine ⟨a, ?_, ha.part, ha.left⟩
    have hlt := (List.getElem?_eq_some_iff.mp ha.next).1
    show (w.answers ++ [response])[w.sent.length]? = some a
    rw [List.getElem?_append_left hlt]
    exact ha.next

/-! ## Responses -/

/-- A whole response is in the buffer: it goes to the client that waits longest. -/
theorem Inv.forward {a : Response} {send : Option String} {spin : Int} (h : Inv w)
    (herr : w.error = none) (hnext : w.answers[w.sent.length]? = some a) :
    Inv (forward
      { w with
        response := a.bytes
        respFifo := ((w.answers.drop (w.sent.length + 1)).map (·.bytes)).flatten
        respLeft := 0 } send spin) := by
  obtain ⟨hlt, -⟩ := List.getElem?_eq_some_iff.mp hnext
  have hissued : w.sent.length < w.issued.length := Nat.lt_of_lt_of_le hlt h.answered
  obtain ⟨r, hr⟩ : ∃ r, w.issued[w.sent.length]? = some r := ⟨_, List.getElem?_eq_getElem hissued⟩
  have hqueue : w.respQueue = r.1 :: (w.issued.map (·.1)).drop (w.sent.length + 1) := by
    rw [h.queue, List.drop_eq_getElem_cons (by simpa using hissued), List.getElem_map]
    rw [List.getElem?_eq_getElem hissued, Option.some.injEq] at hr
    rw [hr]
  -- everybody who waits is the same client
  have hlast : w.respQueue.getLast? = some r.1 := by
    cases hl : w.respQueue.getLast? with
    | none => simp [List.getLast?_eq_none_iff.mp hl] at hqueue
    | some q =>
      have hq : q ∈ w.respQueue := List.mem_of_getLast? hl
      rw [h.same q hq r.1 (by simp [hqueue])]
  have hdue : w.due[w.sent.length]? = some (deliver w.clients r a) := by
    rw [World.due, List.getElem?_zipWith, hr, hnext]
  have hinv : Inv
      { w with
        response := a.bytes
        respFifo := ((w.answers.drop (w.sent.length + 1)).map (·.bytes)).flatten
        respLeft := 0
        sent := w.sent ++ [deliver w.clients r a]
        error := send
        respQueue := w.respQueue.tail } := by
    refine ⟨?_, ?_, ?_, ?_, h.answered, ?_, fun _ => h.stream herr, fun _ hl => absurd rfl hl⟩
    · simp [hqueue]
    · intro p hp q hq
      exact h.same p (List.mem_of_mem_tail hp) q (List.mem_of_mem_tail hq)
    · show w.sent ++ [deliver w.clients r a] = w.due.take (w.sent ++ [deliver w.clients r a]).length
      rw [List.length_append, List.length_singleton, List.take_add_one, hdue, ← h.sent]
      rfl
    · show (w.sent ++ [deliver w.clients r a]).length ≤ w.answers.length
      rw [List.length_append]
      exact hlt
    · simp [World.got]
  unfold Sim.forward
  rw [hlast]
  dsimp only
  split
  · exact hinv.spin _
  · exact hinv

/-- The second byte of a response is its length. -/
theorem Response.length_eq (a : Response) {len : UInt8} (h : a.bytes[1]? = some len) :
    len.toNat = a.bytes.length := by
  have hframed := a.framed
  have hshort := a.short
  match hb : a.bytes with
  | [] | [_] => simp [hb] at h
  | hi :: lo :: rest =>
    rw [hb] at h hframed hshort
    have hlen : hi.toNat * 256 + lo.toNat = (hi :: lo :: rest).length := hframed.2
    simp only [List.getElem?_cons_succ, List.getElem?_cons_zero, Option.some.injEq] at h
    subst h
    have := lo.toNat_lt
    omega

/-- What a read leaves in `m_respLeft`, when `got` bytes of a response of `len` bytes were read. -/
def leftOf (len got : Nat) : Nat := if got < 2 then respMin - got else len - got

/-- **A read that stays within a response.** Its length byte is the number of its bytes. -/
theorem takeBytes_eq {r rest : List UInt8} {n : Nat} {send : Option String} {spin : Int}
    (hsize : 2 ≤ r.length) (hlength : ∀ len, r[1]? = some len → len.toNat = r.length)
    (hstream : w.response ++ w.respFifo = r ++ rest) (hleft : w.respLeft = leftOf r.length w.response.length)
    (hn : w.response.length + n ≤ r.length) (hs : takeBytes w n send spin = some w') :
    (w.response.length + n = r.length ∧
      w' = forward { w with response := r, respFifo := rest, respLeft := 0 } send spin) ∨
    (w.response.length + n < r.length ∧
      w' = { w with
        response := r.take (w.response.length + n)
        respFifo := r.drop (w.response.length + n) ++ rest
        respLeft := leftOf r.length (w.response.length + n) }) := by
  unfold Sim.takeBytes at hs
  split at hs
  · cases hs
  -- what is in the buffer after the read is the start of the response
  have hresp : w.response ++ w.respFifo.take n = r.take (w.response.length + n) := by
    have := congrArg (List.take (w.response.length + n)) hstream
    rwa [List.take_length_add_append, List.take_append_of_le_length hn] at this
  have hfifo : w.respFifo.drop n = r.drop (w.response.length + n) ++ rest := by
    have := congrArg (List.drop (w.response.length + n)) hstream
    rwa [← List.drop_drop, List.drop_left, List.drop_append_of_le_length hn] at this
  have hlen : (r.take (w.response.length + n)).length = w.response.length + n := by
    rw [List.length_take]
    omega
  dsimp only at hs
  rw [hresp, hfifo] at hs
  split at hs
  · next hnone =>
    have hshort : w.response.length + n < 2 := by
      rw [List.getElem?_eq_none_iff, hlen] at hnone
      omega
    cases hs
    refine Or.inr ⟨by omega, ?_⟩
    rw [hleft, leftOf, leftOf, if_pos (by omega), if_pos hshort, Nat.sub_sub]
  · next len hget =>
    have hlong : ¬w.response.length + n < 2 := by
      have := (List.getElem?_eq_some_iff.mp hget).1
      omega
    have hL : len.toNat = r.length := by
      rw [List.getElem?_take_of_lt (by omega)] at hget
      exact hlength len hget
    have hbyte := len.toNat_lt
    have hl : (2 + len.toNat + (2 ^ 64 - (2 + (r.take (w.response.length + n)).length))) % 2 ^ 64
        = r.length - (w.response.length + n) := by
      rw [hlen, hL]
      omega
    rw [hl] at hs
    cases hs
    by_cases hall : w.response.length + n = r.length
    · refine Or.inl ⟨hall, ?_⟩
      rw [hall, Nat.sub_self, List.take_length, List.drop_length, List.nil_append]
      exact if_pos rfl
    · refine Or.inr ⟨by omega, ?_⟩
      rw [leftOf, if_neg hlong]
      exact if_neg (by
        show ¬r.length - (w.response.length + n) = 0
        omega)

theorem leftOf_ne_zero {len got : Nat} (h : got < len) : leftOf len got ≠ 0 := by
  unfold leftOf respMin
  split <;> omega

/-- The server reads some of the response at the head of the pipe. -/
theorem Inv.takeBytes {a : Response} {n : Nat} {send : Option String} {spin : Int} (h : Inv w)
    (herr : w.error = none) (ha : Reading w a) (hn : w.response.length + n ≤ a.bytes.length)
    (hs : takeBytes w n send spin = some w') : Inv w' := by
  obtain ⟨hlt, hget⟩ := List.getElem?_eq_some_iff.mp ha.next
  have hdrop : w.answers.drop w.sent.length = a :: w.answers.drop (w.sent.length + 1) := by
    rw [List.drop_eq_getElem_cons hlt, hget]
  have hleft : w.respLeft = leftOf a.bytes.length w.response.length := ha.left
  have hbytes : w.response ++ w.respFifo =
      a.bytes ++ ((w.answers.drop (w.sent.length + 1)).map (·.bytes)).flatten := by
    have := h.bytes
    rwa [World.got, if_neg (hleft.trans_ne (leftOf_ne_zero ha.part)), hdrop] at this
  have hsize : 2 ≤ a.bytes.length := Nat.le_trans (by decide) a.framed.1
  rcases takeBytes_eq hsize (fun _ => a.length_eq) hbytes hleft hn hs with ⟨-, rfl⟩ | ⟨hmore, rfl⟩
  · exact h.forward herr ha.next
  · refine ⟨h.queue, h.same, h.sent, h.count, h.answered, ?_, h.stream, fun _ _ => ?_⟩
    · rw [World.got, if_neg (leftOf_ne_zero hmore), ← List.append_assoc, List.take_append_drop, hdrop]
      rfl
    · have hlen : (a.bytes.take (w.response.length + n)).length = w.response.length + n := by
        rw [List.length_take]
        omega
      exact ⟨a, ha.next, by rw [hlen]; exact hmore, by rw [hlen]; rfl⟩

theorem Inv.doResponse {read : ReadResult} {send : Option String} {spin : Int} (h : Inv w)
    (herr : w.error = none) (hok : Orderly w (.respond read send spin))
    (hs : doResponse w read send spin = some w') : Inv w' := by
  unfold Sim.doResponse at hs
  by_cases hfirst : w.respLeft = 0
  · have hgot : w.got = [] := if_pos hfirst
    have hbytes := h.bytes
    rw [hgot] at hbytes
    have hstart : ∀ {error : Option String} {left : Nat},
        (error = none → left ≠ 0 →
          ∃ a, Reading { w with error, respLeft := left, response := [] } a) →
        (error = none → w.error = none) →
        Inv { w with error, respLeft := left, response := [] } := by
      intro error left hr he
      refine ⟨h.queue, h.same, h.sent, h.count, h.answered, ?_, fun hn => h.stream (he hn), hr⟩
      show (if left = 0 then [] else []) ++ w.respFifo = _
      rw [ite_self]
      exact hbytes
    simp only [hfirst, if_true] at hs
    cases read with
    | again =>
      cases hs
      exact hstart (fun _ hl => absurd rfl hl) id
    | broken n errno =>
      cases hs
      exact hstart (by simp) (by simp)
    | bytes n =>
      dsimp only at hs
      have hrest : n ≤ w.rest := hok
      have hn : n ≠ 0 := by
        rintro rfl
        simp [Sim.takeBytes] at hs
      unfold World.rest at hrest
      split at hrest
      · omega
      · next a hnext =>
        rw [if_pos hfirst] at hrest
        have ha : Reading { w with respLeft := respMin, response := [] } a :=
          ⟨hnext, by simp only [List.length_nil]; omega, by simp⟩
        refine Inv.takeBytes (hstart (fun _ _ => ⟨a, ha⟩) id) herr ha ?_ hs
        simpa using hrest
  · simp only [hfirst, if_false] at hs
    cases read with
    | again =>
      cases hs
      exact h
    | broken n errno =>
      cases hs
      exact h.fail _
    | bytes n =>
      have hrest : n ≤ w.rest := hok
      obtain ⟨a, ha⟩ := h.reading herr hfirst
      have hpart := ha.part
      unfold World.rest at hrest
      rw [ha.next] at hrest
      dsimp only at hrest
      rw [if_neg hfirst] at hrest
      exact h.takeBytes herr ha (by omega) hs

/-! ## Runs -/

theorem inv_step {op : Op A} (h : Inv w) (hok : Orderly w op) (hs : step w op = some w') :
    Inv w' := by
  unfold step at hs
  split at hs
  · cases hs
  · next hnone =>
    have herr : w.error = none := by simpa using hnone
    cases op with
    | request r p results => exact h.sendToSim herr hok.1 hok.2 hs
    | answer response =>
      obtain ⟨hfree, heq⟩ := Option.ite_none_right_eq_some.mp hs
      cases heq
      exact h.answer herr hfree
    | respond read send spin => exact h.doResponse herr hok hs
    | ack r c n =>
      cases hs
      exact h.ack r c n

/-- A response that was not sent has bytes in the pipe. -/
theorem Inv.respFifo_ne_nil (h : Inv w) (herr : w.error = none)
    (hlt : w.sent.length < w.answers.length) : w.respFifo ≠ [] := by
  intro hempty
  have hbytes := h.bytes
  rw [hempty, List.append_nil, List.drop_eq_getElem_cons hlt, List.map_cons,
    List.flatten_cons] at hbytes
  have hlen := congrArg List.length hbytes
  rw [List.length_append] at hlen
  unfold World.got at hlen
  split at hlen
  · have := (w.answers[w.sent.length]).framed.1
    rw [List.length_nil] at hlen
    omega
  · next hl =>
    obtain ⟨a, ha⟩ := h.reading herr hl
    have hnext := ha.next
    rw [List.getElem?_eq_getElem hlt, Option.some.injEq] at hnext
    have := ha.part
    rw [hnext] at hlen
    omega

theorem Inv.delivered (h : Inv w) : Delivered w := by
  refine ⟨h.sent ▸ List.take_prefix _ _, fun herr hempty => ?_⟩
  have hdue : w.due.length = w.answers.length := by
    have := h.answered
    rw [World.due, List.length_zipWith]
    omega
  have hall : w.sent.length = w.due.length := by
    have := h.count
    have := mt (h.respFifo_ne_nil herr) (not_not_intro hempty)
    omega
  rw [h.sent, hall, List.take_length]

/-- How many bytes `doResponse` asks for. -/
def World.asked (w : World A) : Nat := if w.respLeft = 0 then respMin else w.respLeft

theorem takeBytes_enabled {n : Nat} (hpos : 0 < n) (hleft : n ≤ w.respLeft)
    (hfifo : n ≤ w.respFifo.length) (send : Option String) (spin : Int) :
    ∃ w', takeBytes w n send spin = some w' := by
  unfold Sim.takeBytes
  rw [if_neg (by omega)]
  dsimp only
  split
  · exact ⟨_, rfl⟩
  · exact ⟨_, rfl⟩

/-- **Progress**: a running server takes any number of bytes that it has asked for and that stand in
the pipe. -/
theorem read_enabled {n : Nat} (herr : w.error = none) (hpos : 0 < n) (hasked : n ≤ w.asked)
    (hfifo : n ≤ w.respFifo.length) (send : Option String) (spin : Int) :
    ∃ w', step w (.respond (.bytes n) send spin) = some w' := by
  unfold step
  rw [herr, Option.isSome_none, if_neg Bool.false_ne_true]
  unfold World.asked at hasked
  by_cases hfirst : w.respLeft = 0
  · rw [if_pos hfirst] at hasked
    simp only [doResponse, hfirst, if_true]
    exact @takeBytes_enabled A { w with respLeft := respMin, response := [] } n hpos hasked hfifo send spin
  · rw [if_neg hfirst] at hasked
    simp only [doResponse, hfirst, if_false]
    exact takeBytes_enabled hpos hasked hfifo send spin

/-- An answer that was not sent can be read on, without running into the next one. -/
theorem progress_of_orderly {clients : List Socket} (h : Reach step Orderly (boot clients) w)
    (herr : w.error = none) (hwaits : w.sent.length < w.answers.length) (send : Option String)
    (spin : Int) : ∃ n w', Orderly w (.respond (.bytes n) send spin) ∧
      step w (.respond (.bytes n) send spin) = some w' := by
  have hinv : Inv w :=
    h.invariant (inv_boot clients) fun _ _ _ hi hok hs => inv_step hi hok hs
  have hfifo := List.length_pos_iff.mpr (hinv.respFifo_ne_nil herr hwaits)
  have hrest : 1 ≤ w.rest := by
    unfold World.rest
    rw [List.getElem?_eq_getElem hwaits]
    dsimp only
    by_cases hfirst : w.respLeft = 0
    · have := (w.answers[w.sent.length]).framed.1
      rw [if_pos hfirst]
      omega
    · obtain ⟨a, ha⟩ := hinv.reading herr hfirst
      have hnext := ha.next
      have hpart := ha.part
      rw [List.getElem?_eq_getElem hwaits, Option.some.injEq] at hnext
      rw [if_neg hfirst, hnext]
      omega
  have hasked : 1 ≤ w.asked := by
    unfold World.asked respMin
    split <;> omega
  obtain ⟨w', hw'⟩ := read_enabled herr (show 0 < 1 by decide) hasked hfifo send spin
  exact ⟨1, w', hrest, hw'⟩

/-- **Responses go back to their requesters** in a run in which clients take turns, no read runs
into the next response and no write is interrupted. -/
theorem delivered_of_orderly {clients : List Socket} (h : Reach step Orderly (boot clients) w) :
    Delivered w := by
  have hinv : Inv w :=
    h.invariant (inv_boot clients) fun _ _ _ hi hok hs => inv_step hi hok hs
  exact hinv.delivered

/-- The request of one register read and its answer. -/
def readRequest (tag : UInt8) : Packet := ⟨[0, 10, 0, 0, 0x2f, tag, 0, 0, 0, 0], by simp [Framed, lengthField]⟩

def readResponse (tag : UInt8) : Response :=
  ⟨⟨[0, 10, 0, 0, 0x30, tag, 1, 2, 3, 4], by simp [Framed, lengthField]⟩, by simp⟩

def writeResponse (tag : UInt8) : Response := ⟨⟨[0, 6, 0, 0, 0x30, tag], by simp [Framed, lengthField]⟩, by simp⟩

/-- A client asks twice and gets a short and a long answer in three reads, then another client
asks. -/
theorem delivered_in_turn : ∃ w ∈ exec (checked step Orderly)
      (boot [⟨7, 1⟩, ⟨8, 2⟩] : World Nat)
      [.request ⟨⟨7, 1⟩, 100, 0⟩ (readRequest 1) [.wrote 4 2 2, .wrote 6 2 2],
       .request ⟨⟨7, 1⟩, 100, 0⟩ (readRequest 2) [.wrote 10 2 2],
       .answer (writeResponse 1), .respond (.bytes 6) none 2,
       .answer (readResponse 2), .respond (.bytes 1) none 2, .respond (.bytes 9) none 2,
       .request ⟨⟨6, 0⟩, 200, 2⟩ (readRequest 3) [.wrote 10 2 2],
       .answer (readResponse 3), .respond (.bytes 10) none 2],
    w.sent = [⟨⟨7, 1⟩, 100, (writeResponse 1).bytes⟩, ⟨⟨7, 1⟩, 100, (readResponse 2).bytes⟩,
      ⟨⟨8, 2⟩, 200, (readResponse 3).bytes⟩] ∧ Delivered w := by
  have hrun : ∃ w ∈ exec (checked step Orderly)
      (boot [⟨7, 1⟩, ⟨8, 2⟩] : World Nat)
      [.request ⟨⟨7, 1⟩, 100, 0⟩ (readRequest 1) [.wrote 4 2 2, .wrote 6 2 2],
       .request ⟨⟨7, 1⟩, 100, 0⟩ (readRequest 2) [.wrote 10 2 2],
       .answer (writeResponse 1), .respond (.bytes 6) none 2,
       .answer (readResponse 2), .respond (.bytes 1) none 2, .respond (.bytes 9) none 2,
       .request ⟨⟨6, 0⟩, 200, 2⟩ (readRequest 3) [.wrote 10 2 2],
       .answer (readResponse 3), .respond (.bytes 10) none 2],
      w.sent = [⟨⟨7, 1⟩, 100, (writeResponse 1).bytes⟩, ⟨⟨7, 1⟩, 100, (readResponse 2).bytes⟩,
        ⟨⟨8, 2⟩, 200, (readResponse 3).bytes⟩] := by decide
  obtain ⟨w, hw, hsent⟩ := hrun
  exact ⟨w, hw, hsent, delivered_of_orderly (reach_of_exec_checked _ hw)⟩

/-- Two clients wait; the answer to the first is sent to the second. -/
theorem answer_sent_to_other_client : ∃ w : World Nat,
    Reach step anyStep (boot [⟨7, 1⟩]) w ∧ w.due.map (·.dest) = [100] ∧
      w.sent.map (·.dest) = [200] ∧ ¬Delivered w := by
  have hrun : ∃ w ∈ exec step (boot [⟨7, 1⟩] : World Nat)
      [.request ⟨⟨7, 1⟩, 100, 0⟩ (readRequest 1) [.wrote 10 2 2],
       .request ⟨⟨7, 1⟩, 200, 0⟩ (readRequest 1) [.wrote 10 2 2],
       .answer (readResponse 1), .respond (.bytes 10) none 2],
      w.due.map (·.dest) = [100] ∧ w.sent.map (·.dest) = [200] ∧ ¬w.sent <+: w.due := by decide
  obtain ⟨w, hw, hdue, hsent, hbad⟩ := hrun
  exact ⟨w, reach_of_exec _ hw, hdue, hsent, fun hd => hbad hd.paired⟩

end OpenCpi.Sim
