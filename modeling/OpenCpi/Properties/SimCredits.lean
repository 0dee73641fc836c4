import Mathlib.Algebra.GroupWithZero.Nat
import OpenCpi.Sim.Credits
import OpenCpi.Properties.SimServer

/-!
# Requests reach the simulator unchanged

The loop of `sendToSim` retries an interrupted `write`, but its header has by then added the result, -1, to
the count and to the pointer. At the start of the packet the count wraps, the loop ends and nothing is sent;
later a byte is sent twice. The credit for a write is one byte, so without assertions a write of more than
255 bytes is announced modulo 256.
-/

namespace OpenCpi.Sim

variable {A : Type} {ndebug : Bool} {spinCount : UInt8} {bytes : List UInt8} {nw : Nat}
  {results : List WriteResult} {t t' : Traffic A}

/-! ## What success promises -/

/-- The bytes went to the request pipe once each and in order, and their number was announced. -/
structure Unchanged (bytes : List UInt8) (t t' : Traffic A) : Prop where
  requests : t'.requests = t.requests ++ bytes
  places : t'.places = t.places ++ List.range' 0 bytes.length
  credits : credits t'.control = credits t.control + bytes.length

/-! ## Credits -/

theorem credits_append : ∀ (messages more : List (UInt8 × UInt8)),
    credits (messages ++ more) = credits messages + credits more
  | [], more => by simp [credits]
  | (action, count) :: messages, more => by
    simp only [List.cons_append, credits, credits_append messages more]
    omega

@[simp] theorem spin_places (n : Int) : (t.spin spinCount n).places = t.places := rfl

/-- A spin credit is no credit for bytes. -/
@[simp] theorem credits_spin (n : Int) :
    credits (t.spin spinCount n).control = credits t.control := by
  unfold Traffic.spin
  dsimp only
  split
  · rw [credits_append]
    rfl
  · rfl

@[simp] theorem toWorld_spin (n : Int) : (t.spin spinCount n).toWorld = t.toWorld.spin n := rfl

/-- Counts are announced modulo 256. -/
theorem sum_mod_eq_sum_iff : ∀ {ns : List Nat},
    (ns.map (· % 256)).sum = ns.sum ↔ ∀ n ∈ ns, n < 256
  | [] => by simp
  | n :: ns => by
    have ih : (ns.map (· % 256)).sum = ns.sum ↔ ∀ n ∈ ns, n < 256 := sum_mod_eq_sum_iff
    have hle : (ns.map (· % 256)).sum ≤ ns.sum := by
      clear ih
      induction ns with
      | nil => simp
      | cons m ns ih =>
        have := Nat.mod_le m 256
        simp only [List.map_cons, List.sum_cons]
        omega
    have hmod := Nat.mod_le n 256
    have hlt := Nat.mod_lt n (y := 256) (by omega)
    simp only [List.map_cons, List.sum_cons, List.forall_mem_cons, ← ih]
    constructor
    · intro h
      exact ⟨by omega, by omega⟩
    · rintro ⟨hn, hns⟩
      rw [Nat.mod_eq_of_lt hn, hns]

/-! ## The loop

What one write does is said once, in `sendBytes_cons`. -/

/-- A loop that succeeds goes back by one at an interruption and forward by what was written at a write. -/
theorem sendBytes_cons {result : WriteResult} {rest : List WriteResult}
    (h : sendBytes ndebug spinCount bytes nw (result :: rest) t = some (.returned t'))
    (hok : t'.error = none) :
    nw < bytes.length ∧
      (result = .interrupted ∧
          sendBytes ndebug spinCount bytes ((nw + (2 ^ 64 - 1)) % 2 ^ 64) rest t = some (.returned t') ∨
        ∃ n credit spin, result = .wrote n credit spin ∧ 0 < n ∧ nw + n ≤ bytes.length ∧
          ∃ t₁ : Traffic A,
            t₁.places = t.places ++ List.range' nw n ∧
            credits t₁.control = credits t.control + n % 256 ∧
            sendBytes ndebug spinCount bytes (nw + n) rest t₁ = some (.returned t')) := by
  unfold sendBytes at h
  split at h
  · next hlt =>
    refine ⟨hlt, ?_⟩
    cases result with
    | interrupted => exact .inl ⟨rfl, h⟩
    | failed =>
      cases h
      cases hok
    | wrote n credit spin =>
      dsimp only at h
      split at h
      · cases h
        cases hok
      · next hn =>
        split at h
        · cases h
        · next hfit =>
          split at h
          · cases h
          · split at h
            · cases h
              cases hok
            · split at h
              · next hsome =>
                cases h
                rw [hok] at hsome
                cases hsome
              · refine .inr ⟨n, credit, spin, rfl, by omega, by omega, _, ?_, ?_, h⟩
                · rfl
                · rw [credits_spin, credits_append]
                  simp [credits]
  · cases h

theorem sendBytes_nil (h : sendBytes ndebug spinCount bytes nw [] t = some (.returned t')) :
    bytes.length ≤ nw ∧ t' = t := by
  rw [sendBytes] at h
  split at h
  · cases h
  · next hge =>
    cases h
    exact ⟨by omega, rfl⟩

/-- Each write is announced. -/
theorem credits_sendBytes : ∀ {results : List WriteResult} {nw : Nat} {t : Traffic A},
    sendBytes ndebug spinCount bytes nw results t = some (.returned t') → t'.error = none →
    credits t'.control = credits t.control + ((counts results).map (· % 256)).sum
  | [], nw, t, h, _ => by
    obtain ⟨-, rfl⟩ := sendBytes_nil h
    simp [counts]
  | result :: rest, nw, t, h, hok => by
    obtain ⟨-, ⟨rfl, hs⟩ | ⟨n, credit, spin, rfl, -, -, t₁, -, hcredits, hs⟩⟩ := sendBytes_cons h hok
    · rw [credits_sendBytes hs hok, counts]
    · rw [credits_sendBytes hs hok, hcredits, counts, List.map_cons, List.sum_cons, Nat.add_assoc]

/-- Without an interruption the rest of the packet is written, each byte from its place. -/
theorem places_sendBytes : ∀ {results : List WriteResult} {nw : Nat} {t : Traffic A},
    .interrupted ∉ results → nw ≤ bytes.length →
    sendBytes ndebug spinCount bytes nw results t = some (.returned t') → t'.error = none →
    t'.places = t.places ++ List.range' nw (bytes.length - nw) ∧
      (counts results).sum = bytes.length - nw
  | [], nw, t, _, _, h, _ => by
    obtain ⟨hge, rfl⟩ := sendBytes_nil h
    rw [Nat.sub_eq_zero_of_le hge]
    simp [counts]
  | result :: rest, nw, t, hint, _, h, hok => by
    obtain ⟨-, ⟨rfl, -⟩ | ⟨n, credit, spin, rfl, -, hfit, t₁, hplaces, -, hs⟩⟩ := sendBytes_cons h hok
    · exact absurd List.mem_cons_self hint
    · obtain ⟨hrest, hsum⟩ :=
        places_sendBytes (fun hm => hint (List.mem_cons_of_mem _ hm)) hfit hs hok
      constructor
      · rw [hrest, hplaces, List.append_assoc]
        congr 1
        rw [show bytes.length - nw = n + (bytes.length - (nw + n)) by omega, List.range'_append_1]
      · rw [counts, List.sum_cons, hsum]
        omega

/-- What is written next does not lie behind the place the loop has reached. -/
theorem places_sendBytes_le (hlen : bytes.length < 2 ^ 64) :
    ∀ {results : List WriteResult} {nw : Nat} {t : Traffic A},
    sendBytes ndebug spinCount bytes nw results t = some (.returned t') → t'.error = none →
    ∃ more, t'.places = t.places ++ more ∧ ∀ place ∈ more.head?, place ≤ nw
  | [], nw, t, h, _ => by
    obtain ⟨-, rfl⟩ := sendBytes_nil h
    exact ⟨[], by simp, by simp⟩
  | result :: rest, nw, t, h, hok => by
    obtain ⟨hlt, ⟨rfl, hs⟩ | ⟨n, credit, spin, rfl, hn, -, t₁, hplaces, -, hs⟩⟩ := sendBytes_cons h hok
    · cases nw with
      | zero =>
        -- the count wraps, and nothing is left to do
        cases rest with
        | nil =>
          obtain ⟨-, rfl⟩ := sendBytes_nil hs
          exact ⟨[], by simp, by simp⟩
        | cons result rest =>
          obtain ⟨hbad, -⟩ := sendBytes_cons hs hok
          omega
      | succ k =>
        rw [show (k + 1 + (2 ^ 64 - 1)) % 2 ^ 64 = k by omega] at hs
        obtain ⟨more, hmore, hhead⟩ := places_sendBytes_le hlen hs hok
        exact ⟨more, hmore, fun place hp => Nat.le_succ_of_le (hhead place hp)⟩
    · obtain ⟨more, hmore, -⟩ := places_sendBytes_le hlen hs hok
      refine ⟨List.range' nw n ++ more, by rw [hmore, hplaces, List.append_assoc], ?_⟩
      obtain ⟨m, rfl⟩ : ∃ m, n = m + 1 := ⟨n - 1, by omega⟩
      intro place hp
      rw [List.range'_succ, List.cons_append, List.head?_cons, Option.mem_some_iff] at hp
      omega

/-- An interrupted write is not made good: after it the loop is behind what was sent. -/
theorem interrupted_notMem (hlen : bytes.length < 2 ^ 64) :
    ∀ {results : List WriteResult} {nw : Nat} {t : Traffic A}, nw ≤ bytes.length →
    sendBytes ndebug spinCount bytes nw results t = some (.returned t') → t'.error = none →
    t'.places = t.places ++ List.range' nw (bytes.length - nw) → .interrupted ∉ results
  | [], _, _, _, _, _, _ => by simp
  | result :: rest, nw, t, _, h, hok, hplaces => by
    obtain ⟨hlt, ⟨rfl, hs⟩ | ⟨n, credit, spin, rfl, -, hfit, t₁, hwrote, -, hs⟩⟩ := sendBytes_cons h hok
    · exfalso
      obtain ⟨m, hm⟩ : ∃ m, bytes.length - nw = m + 1 := ⟨bytes.length - nw - 1, by omega⟩
      rw [hm, List.range'_succ] at hplaces
      cases nw with
      | zero =>
        cases rest with
        | nil =>
          obtain ⟨-, rfl⟩ := sendBytes_nil hs
          simp at hplaces
        | cons result rest =>
          obtain ⟨hbad, -⟩ := sendBytes_cons hs hok
          omega
      | succ k =>
        rw [show (k + 1 + (2 ^ 64 - 1)) % 2 ^ 64 = k by omega] at hs
        obtain ⟨more, hmore, hhead⟩ := places_sendBytes_le hlen hs hok
        rw [hmore, List.append_cancel_left_eq] at hplaces
        have := hhead (k + 1) (by rw [hplaces]; rfl)
        omega
    · have ih := interrupted_notMem hlen hfit hs hok
      rw [show bytes.length - nw = n + (bytes.length - (nw + n)) by omega,
        ← List.range'_append_1, ← List.append_assoc, ← hwrote] at hplaces
      intro hm
      rcases List.mem_cons.mp hm with hm | hm
      · cases hm
      · exact ih hplaces hm

/-! ## The server without credits -/

/-- But for the credits and the assertion this is the loop of `Sim/Server`. -/
theorem sendLoop_of_sendBytes : ∀ {results : List WriteResult} {nw : Nat} {t : Traffic A},
    sendBytes ndebug spinCount bytes nw results t = some (.returned t') →
    sendLoop bytes nw results t.toWorld = some t'.toWorld
  | [], nw, t, h => by
    obtain ⟨hge, rfl⟩ := sendBytes_nil h
    rw [sendLoop, if_neg (by omega)]
  | result :: rest, nw, t, h => by
    unfold sendBytes at h
    unfold sendLoop
    split at h
    · next hlt =>
      rw [if_pos hlt]
      cases result with
      | interrupted => exact sendLoop_of_sendBytes h
      | failed =>
        cases h
        rfl
      | wrote n credit spin =>
        dsimp only at h ⊢
        split at h
        · next hn =>
          cases h
          rw [if_pos hn]
        · next hn =>
          rw [if_neg hn]
          split at h
          · cases h
          · next hfit =>
            rw [if_neg hfit]
            split at h
            · cases h
            · split at h
              · next hcredit =>
                cases h
                rw [if_pos hcredit]
              · next hcredit =>
                rw [if_neg hcredit]
                split at h
                · next hsome =>
                  cases h
                  exact if_pos hsome
                · next hnone =>
                  have ih := sendLoop_of_sendBytes h
                  exact (if_neg hnone).trans ih
    · cases h

/-! ## The whole of `sendToSim` -/

theorem returned_of_sendRequest {r : Request A}
    (h : sendRequest ndebug spinCount t r bytes results = some (.returned t')) (hok : t'.error = none) :
    ∃ t₁, sendBytes ndebug spinCount bytes 0 results t = some (.returned t₁) ∧ t₁.error = none ∧
      t' = { t₁ with respQueue := t₁.respQueue ++ [r] } := by
  obtain ⟨o, ho, heq⟩ := Option.map_eq_some_iff.mp h
  cases o with
  | aborted => cases heq
  | returned t₁ =>
    dsimp only at heq
    split at heq
    · next hsome =>
      cases heq
      rw [hok] at hsome
      cases hsome
    · next hnone =>
      cases heq
      exact ⟨t₁, ho, hok, rfl⟩

/-- **Requests reach the simulator unchanged** in a call that succeeds if and only if none of its writes was
interrupted and each wrote less than 256 bytes. -/
theorem unchanged_iff {r : Request A} (hlen : bytes.length < 2 ^ 64)
    (h : sendRequest ndebug spinCount t r bytes results = some (.returned t')) (hok : t'.error = none) :
    Unchanged bytes t t' ↔ .interrupted ∉ results ∧ ∀ n ∈ counts results, n < 256 := by
  obtain ⟨t₁, hsend, hok₁, rfl⟩ := returned_of_sendRequest h hok
  have hcredits := credits_sendBytes hsend hok₁
  constructor
  · intro hu
    have hint : .interrupted ∉ results :=
      interrupted_notMem hlen (Nat.zero_le _) hsend hok₁ hu.places
    have hsum := (places_sendBytes hint (Nat.zero_le _) hsend hok₁).2
    have hannounced : credits t₁.control = credits t.control + bytes.length := hu.credits
    exact ⟨hint, sum_mod_eq_sum_iff.mp (by omega)⟩
  · rintro ⟨hint, hsmall⟩
    obtain ⟨hplaces, hsum⟩ := places_sendBytes hint (Nat.zero_le _) hsend hok₁
    obtain ⟨dcp, spinning, error, requests, heq, hreq⟩ :=
      sendLoop_eq hint (Nat.zero_le _) (sendLoop_of_sendBytes hsend)
    have herror : t₁.error = error := congrArg World.error heq
    have hrequests : t₁.requests = requests := congrArg World.requests heq
    refine ⟨?_, hplaces, ?_⟩
    · show t₁.requests = t.requests ++ bytes
      rw [hrequests, hreq (herror.symm.trans hok₁)]
      rfl
    · show credits t₁.control = credits t.control + bytes.length
      rw [hcredits, sum_mod_eq_sum_iff.mpr hsmall, hsum]
      rfl

/-- The server after its constructor, with nothing in its pipes. -/
def quiet (clients : List Socket) : Traffic A :=
  { toWorld := boot clients, places := [], control := [] }

/-- A request of ten bytes goes out in two writes. -/
theorem unchanged_in_two_writes : ∃ t' : Traffic Nat,
    sendRequest false 20 (quiet []) ⟨⟨7, 1⟩, 100, 0⟩ (readRequest 1).bytes
      [.wrote 4 2 2, .wrote 6 2 2] = some (.returned t') ∧ t'.control = [(1, 4), (0, 20), (1, 6)] ∧
      Unchanged (readRequest 1).bytes (quiet []) t' := by
  have hrun : ∃ t' : Traffic Nat,
      sendRequest false 20 (quiet []) ⟨⟨7, 1⟩, 100, 0⟩ (readRequest 1).bytes
        [.wrote 4 2 2, .wrote 6 2 2] = some (.returned t') ∧ t'.control = [(1, 4), (0, 20), (1, 6)] ∧
        t'.error = none := ⟨_, rfl, rfl, rfl⟩
  obtain ⟨t', ht', hcontrol, hok⟩ := hrun
  exact ⟨t', ht', hcontrol, (unchanged_iff (by decide) ht' hok).mpr (by decide)⟩

/-- An interruption after four bytes: the fourth is sent twice. An interruption at the start: nothing is
sent, and the call succeeds. -/
theorem changed_by_interruption :
    (∃ t' : Traffic Nat,
      sendRequest false 20 (quiet []) ⟨⟨7, 1⟩, 100, 0⟩ (readRequest 1).bytes
        [.wrote 4 2 2, .interrupted, .wrote 7 2 2] = some (.returned t') ∧ t'.error = none ∧
        t'.requests = [0, 10, 0, 0, 0, 0x2f, 1, 0, 0, 0, 0] ∧ ¬Unchanged (readRequest 1).bytes (quiet []) t') ∧
    (∃ t' : Traffic Nat,
      sendRequest false 20 (quiet []) ⟨⟨7, 1⟩, 100, 0⟩ (readRequest 1).bytes
        [.interrupted] = some (.returned t') ∧ t'.error = none ∧
        t'.requests = [] ∧ ¬Unchanged (readRequest 1).bytes (quiet []) t') := by
  refine ⟨⟨_, rfl, rfl, rfl, fun hu => ?_⟩, ⟨_, rfl, rfl, rfl, fun hu => ?_⟩⟩
  · exact absurd hu.requests (by decide)
  · exact absurd hu.requests (by decide)

end OpenCpi.Sim
