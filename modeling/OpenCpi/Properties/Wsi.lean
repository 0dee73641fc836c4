import OpenCpi.Wsi.Link

/-!
# What goes over a WSI link

**Flow control.** The master is ready one cycle after the slave had room, and the slave looks ahead
over that cycle; so the FIFO is never enqueued without room, and no word is lost.

**Messages.** The words arrive as they were given, unless som was given alone: the flag that
remembers this (`early_som`) is not cleared by the data that follows, and so it also suppresses the
command of the next message. Without early requests the data of the message itself is lost.
-/

namespace OpenCpi.Wsi

open Infra

variable {g : Generics} {l l' : Link} {c : Cycle}

/-- What one cycle does. -/
theorem Link.step_ok (h : l.step g c = some l') :
    (c.give = true → l.master.ready = true) ∧ (c.take = true → l.slave.fifo.emptyReg = true) ∧
      l' = l.clock g c := by
  unfold Link.step at h
  split at h
  · next hready =>
    cases h
    exact ⟨hready.1, hready.2, rfl⟩
  · cases h

/-! ## Flow control -/

/-- Nothing is enqueued unless it is given. -/
theorem give_of_enq (h : l.enq g c = true) : c.give = true := by
  cases hgive : c.give with
  | true => rfl
  | false =>
    simp [Link.enq, Link.request, Master.request, fifoEnq, fifoValid, fifoSom, fifoEom, hgive] at h

/-- A ready master has a slave with room. -/
structure FlowInv (l : Link) : Prop where
  valid : l.slave.fifo.Valid
  room : l.master.ready = true → l.slave.fifo.fullReg = true
  queue : l.enqueued = l.taken ++ l.slave.fifo.contents

theorem FlowInv.enq (h : FlowInv l) (hs : l.step g c = some l') (henq : l.enq g c = true) :
    l.slave.fifo.fullReg = true :=
  h.room ((Link.step_ok hs).1 (give_of_enq henq))

/-- The FIFO is used properly in every cycle. -/
theorem FlowInv.proper (h : FlowInv l) (hs : l.step g c = some l') :
    l.slave.fifo.Proper (l.enq g c) c.take := by
  refine ⟨fun henq hfull => ?_, (Link.step_ok hs).2.1⟩
  rw [h.enq hs henq] at hfull
  cases hfull

theorem flowInv_step (h : FlowInv l) (hs : l.step g c = some l') : FlowInv l' := by
  have hproper := h.proper hs
  have henq := h.enq hs
  obtain ⟨-, -, rfl⟩ := Link.step_ok hs
  refine ⟨Fifo2x.step_valid h.valid, fun hready => ?_, ?_⟩
  · -- the master is ready because the slave looked ahead
    have hfull : l.slave.fifo.fullN (l.enq g c) c.take = true := by
      simp only [Link.clock, Master.step, threadBusy, Bool.and_eq_true, Bool.not_eq_true',
        Bool.or_eq_false_iff, Bool.not_eq_false'] at hready
      exact hready.2.2
    exact Fifo2x.fullReg_step hfull h.valid hproper henq
  · have hstep := Fifo2x.contents_step (fifoIn g l.slave (l.request g c)) h.valid hproper
    show l.enqueued ++ _ = (l.taken ++ _) ++ _
    rw [h.queue, List.append_assoc, List.append_assoc]
    exact congrArg (l.taken ++ ·) hstep

theorem flowInv_start (burstLength : Nat) (fifo : Fifo2x Word) :
    FlowInv (Link.start burstLength fifo) :=
  ⟨fun _ => rfl, nofun, rfl⟩

theorem flowInv_of_reach {ok : Link → Cycle → Prop} {burstLength : Nat} {fifo : Fifo2x Word}
    (h : Reach (Link.step g) ok (Link.start burstLength fifo) l) : FlowInv l :=
  h.invariant (flowInv_start burstLength fifo) fun _ _ _ hinv _ hs => flowInv_step hinv hs

/-- **No word is lost.** In every state that is reached, whatever is done next, the FIFO is not
enqueued when it holds two words unless one is dequeued, and it is not dequeued when it is empty; and
the words that were taken, with those in the FIFO, are the words that were enqueued. -/
theorem no_word_lost {burstLength : Nat} {fifo : Fifo2x Word}
    (h : Reach (Link.step g) anyStep (Link.start burstLength fifo) l) :
    (∀ c l', l.step g c = some l' →
      (l.enq g c = true → l.slave.fifo.contents.length = 2 → c.take = true) ∧
        (c.take = true → l.slave.fifo.contents ≠ [])) ∧
      l.taken ++ l.slave.fifo.contents = l.enqueued := by
  have hinv := flowInv_of_reach h
  refine ⟨fun c l' hs => ⟨fun henq hlen => ?_, fun htake => ?_⟩, hinv.queue.symm⟩
  · have hfull := hinv.enq hs henq
    cases hempty : l.slave.fifo.emptyReg <;> simp [Fifo2x.contents, hfull, hempty] at hlen
  · have hempty := (Link.step_ok hs).2.1 htake
    cases hfull : l.slave.fifo.fullReg <;> simp [Fifo2x.contents, hfull, hempty]

/-! ## A sample link -/

def sampleGenerics (earlyRequest : Bool) : Generics := ⟨false, 8, false, earlyRequest, nofun⟩

def sampleStart : Link :=
  Link.start 0 ⟨false, false, ⟨fun _ => false, false, false, false, false, 0, 0, 0⟩,
    ⟨fun _ => false, false, false, false, false, 0, 0, 0⟩⟩

/-- An offer with the given flags, whose data has the bit `n` set. -/
def sampleOffer (som valid eom : Bool) (n : Nat) : Offer :=
  ⟨som, eom, valid, false, fun k => k == n, 1, n, 0⟩

/-- Both sides operate; nothing is taken. -/
def givenCycle (o : Offer) : Cycle := ⟨true, o, false, true, true⟩

def idleCycle (take : Bool) : Cycle := ⟨false, sampleOffer false false false 0, take, true, true⟩

/-- The FIFO fills up, and is then emptied. -/
theorem no_word_lost_full :
    ∃ l : Link, l.slave.fifo.contents.length = 1 ∧ l.taken.length = 1 ∧
      l.taken ++ l.slave.fifo.contents = l.enqueued := by
  have hrun : ∃ l ∈ exec (Link.step (sampleGenerics true)) sampleStart
      [idleCycle false, givenCycle (sampleOffer true true false 1),
        givenCycle (sampleOffer false true true 2), idleCycle true],
      l.slave.fifo.contents.length = 1 ∧ l.taken.length = 1 := by decide
  obtain ⟨l, hl, hlen, htaken⟩ := hrun
  exact ⟨l, hlen, htaken, (no_word_lost (reach_of_exec _ hl)).2⟩

/-! ## Messages -/

/-- What the consumer sees of a word: the data and the byte enables are there if it is valid. -/
structure Seen where
  som : Bool
  eom : Bool
  opcode : Nat
  payload : Option (Bits × Nat)

def Word.seen (w : Word) : Seen :=
  ⟨w.som, w.eom, w.opcode, if w.valid then some (w.data, w.byteEnable) else none⟩

/-- The word for an offer, in a message with that opcode. -/
def Offer.seen (o : Offer) (opcode : Nat) : List Seen :=
  if o.som || o.valid || o.eom then
    [⟨o.som, o.eom, opcode, if o.valid then some (o.data, o.byteEnable) else none⟩]
  else []

/-- The messages as the producer means them: what is to be seen, the opcode of the last message,
and whether it is unfinished. -/
structure Sent where
  words : List Seen
  opcode : Nat
  inMessage : Bool

def Sent.give (s : Sent) (o : Offer) : Sent :=
  let opcode := if o.som then o.opcode else s.opcode
  ⟨s.words ++ o.seen opcode, opcode, !o.eom⟩

def sent (given : List Offer) : Sent := given.foldl Sent.give ⟨[], 0, false⟩

/-- The start of a message is given alone. -/
def Offer.alone (o : Offer) : Bool := o.som && !o.valid && !o.eom

/-- A producer of messages without aborts: som starts a message, and only that. -/
def Produces (l : Link) (c : Cycle) : Prop :=
  c.give = true → c.offer.abort = false ∧ c.offer.som = !(sent l.given).inMessage

/-- After som was given alone, no other message follows and, without early requests, no data; and
data has byte enables. -/
def Clean (g : Generics) (l : Link) (c : Cycle) : Prop :=
  c.give = true → (c.offer.valid = true → c.offer.byteEnable ≠ 0) ∧
    ∀ o ∈ l.given, o.alone = true →
      c.offer.som = false ∧ (g.earlyRequest = false → c.offer.valid = false)

/-- **The messages arrive** as they were given. -/
def Arrives (l : Link) : Prop :=
  (l.taken ++ l.slave.fifo.contents).map Word.seen = (sent l.given).words

theorem joinData_request (m : Master) (give : Bool) (o : Offer) :
    joinData g (m.request g give o) = o.data := by
  unfold joinData Master.request splitData splitInfo
  by_cases hwide : g.wide = true
  · have hbyte := g.wide_byte hwide
    simp only [if_pos hwide]
    funext n
    have hdiv := Nat.div_add_mod n g.byteWidth
    have hmod : n % g.byteWidth < g.byteWidth := Nat.mod_lt n (by omega)
    split
    · next hk =>
      have h₁ : (n / g.byteWidth * 8 + n % g.byteWidth) / 8 = n / g.byteWidth := by omega
      have h₂ : (n / g.byteWidth * 8 + n % g.byteWidth) % 8 = n % g.byteWidth := by omega
      rw [h₁, h₂, Nat.mul_comm (n / g.byteWidth), hdiv]
    · next hk =>
      have hlt : n % g.byteWidth - 8 < g.byteWidth - 8 := by omega
      have hpos : 0 < g.byteWidth - 8 := by omega
      have h₁ : (n / g.byteWidth * (g.byteWidth - 8) + (n % g.byteWidth - 8)) / (g.byteWidth - 8) =
          n / g.byteWidth := by
        rw [Nat.mul_comm, Nat.mul_add_div hpos, Nat.div_eq_of_lt hlt, Nat.add_zero]
      have h₂ : (n / g.byteWidth * (g.byteWidth - 8) + (n % g.byteWidth - 8)) % (g.byteWidth - 8) =
          n % g.byteWidth - 8 := by
        rw [Nat.mul_comm, Nat.mul_add_mod, Nat.mod_eq_of_lt hlt]
      rw [h₁, h₂]
      congr 1
      rw [Nat.mul_comm (n / g.byteWidth)]
      omega
  · simp only [if_neg hwide]

/-- What the registers tell about what was given. -/
structure MessageInv (l : Link) : Prop where
  arrived : l.enqueued.map Word.seen = (sent l.given).words
  lastEom : l.master.lastEom = true → (sent l.given).inMessage = false
  earlySom : l.master.earlySom = true → ∃ o ∈ l.given, o.alone = true
  opcode : (sent l.given).inMessage = true → l.master.opcode = (sent l.given).opcode
  inside : (sent l.given).inMessage = true → l.slave.inMessage = true ∧ l.slave.lastWasEom = false
  outside : (sent l.given).inMessage = false → l.slave.inMessage = true → l.slave.lastWasEom = true

theorem sent_give (given : List Offer) (o : Offer) :
    sent (given ++ [o]) = (sent given).give o := by
  unfold sent
  rw [List.foldl_append]
  rfl

section Offered

variable (h : MessageInv l) (hready : l.master.ready = true) (hgive : c.give = true)
  (hp : Produces l c) (hc : Clean g l c)

include hgive

theorem fifoEom_offer : fifoEom g (l.request g c) = c.offer.eom := by
  unfold fifoEom Link.request Master.request
  cases g.earlyRequest <;> simp [hgive]

include h hready hc

theorem cmd_offer (hfirst : c.offer.som = true ∨ (g.earlyRequest = false ∧ c.offer.valid = true)) :
    (l.request g c).cmd = true := by
  have hearly : l.master.earlySom = false := by
    refine Bool.eq_false_iff.mpr fun hearly => ?_
    obtain ⟨o, ho, halone⟩ := h.earlySom hearly
    obtain ⟨hsom, hvalid⟩ := (hc hgive).2 o ho halone
    rcases hfirst with hfirst | ⟨hno, hfirst⟩
    · rw [hsom] at hfirst
      cases hfirst
    · rw [hvalid hno] at hfirst
      cases hfirst
  show (c.give && l.master.ready && !l.master.earlySom) = true
  rw [hgive, hready, hearly]
  rfl

theorem fifoValid_offer : fifoValid g (l.request g c) = c.offer.valid := by
  have hbyte : (l.request g c).byteEn = if c.offer.valid then c.offer.byteEnable else 0 := rfl
  unfold fifoValid
  rw [hbyte]
  cases hvalid : c.offer.valid with
  | false => simp
  | true =>
    have henable := (hc hgive).1 hvalid
    have hdata : (l.request g c).dataValid = true := by
      show (c.give && (c.offer.eom || c.offer.valid || c.offer.abort)) = true
      rw [hgive, hvalid, Bool.or_true, Bool.true_or]
      rfl
    cases hreq : g.earlyRequest with
    | true => simp [hdata, henable]
    | false => simp [cmd_offer h hready hgive hc (Or.inr ⟨hreq, hvalid⟩), henable]

include hp

theorem fifoSom_offer : fifoSom l.slave (l.request g c) = c.offer.som := by
  unfold fifoSom
  have hsom := (hp hgive).2
  cases hin : (sent l.given).inMessage with
  | true =>
    obtain ⟨h₁, h₂⟩ := h.inside hin
    rw [hin] at hsom
    simp [h₁, h₂, hsom]
  | false =>
    rw [hin] at hsom
    rw [cmd_offer h hready hgive hc (Or.inl hsom), hsom]
    cases hs : l.slave.inMessage with
    | false => rfl
    | true => rw [h.outside hin hs]; rfl

omit hready hc in
theorem reqInfo_offer : (l.request g c).reqInfo =
    if c.offer.som then c.offer.opcode else (sent l.given).opcode := by
  show (if l.master.lastEom || c.offer.som then c.offer.opcode else l.master.opcode) = _
  have hsom := (hp hgive).2
  cases hin : (sent l.given).inMessage with
  | true =>
    have hlast : l.master.lastEom = false := by
      refine Bool.eq_false_iff.mpr fun hlast => ?_
      rw [h.lastEom hlast] at hin
      cases hin
    rw [hin] at hsom
    simp [hlast, hsom, h.opcode hin]
  | false =>
    rw [hin] at hsom
    simp [hsom]

/-- The word that is enqueued for an offer. -/
theorem seen_offer :
    (if l.enq g c then [fifoIn g l.slave (l.request g c)] else []).map Word.seen =
      c.offer.seen (if c.offer.som then c.offer.opcode else (sent l.given).opcode) := by
  have hvalid := fifoValid_offer h hready hgive hc
  have hsom := fifoSom_offer h hready hgive hp hc
  have heom := fifoEom_offer (g := g) (l := l) hgive
  have henq : l.enq g c = (c.offer.som || c.offer.valid || c.offer.eom) := by
    unfold Link.enq fifoEnq
    rw [hvalid, hsom, heom, Bool.or_comm c.offer.valid]
  unfold Offer.seen
  rw [henq]
  split
  · show [Word.seen _] = _
    unfold Word.seen fifoIn
    dsimp only
    rw [hvalid, hsom, heom, reqInfo_offer h hgive hp]
    have hdata : joinData g (l.request g c) = c.offer.data := joinData_request _ _ _
    rw [hdata]
    have hbyte : (l.request g c).byteEn = if c.offer.valid then c.offer.byteEnable else 0 := rfl
    rw [hbyte]
    cases c.offer.valid <;> rfl
  · rfl

end Offered

theorem messageInv_start (burstLength : Nat) (fifo : Fifo2x Word) :
    MessageInv (Link.start burstLength fifo) :=
  ⟨rfl, nofun, nofun, nofun, nofun, fun _ => nofun⟩

/-- Without a give the master keeps its flags, and the slave leaves a message that has ended. -/
theorem messageInv_idle (h : MessageInv l) (hgive : c.give = false) : MessageInv (l.clock g c) := by
  have hgiven : (l.clock g c).given = l.given := by
    show l.given ++ (if c.give then [c.offer] else []) = l.given
    rw [hgive]
    exact List.append_nil _
  have henq : l.enq g c = false := by
    refine Bool.eq_false_iff.mpr fun henq => ?_
    rw [give_of_enq henq] at hgive
    cases hgive
  have hcmd : (l.request g c).cmd = false := by
    show (c.give && l.master.ready && !l.master.earlySom) = false
    rw [hgive]
    rfl
  have heom : fifoEom g (l.request g c) = false := by
    unfold fifoEom Link.request Master.request
    simp [hgive]
  constructor
  · rw [hgiven, ← h.arrived]
    show (l.enqueued ++ (if l.enq g c then _ else [])).map Word.seen = _
    rw [henq]
    exact congrArg _ (List.append_nil _)
  · rw [hgiven]
    show (if c.give && l.master.ready then _ else l.master.lastEom) = true → _
    rw [hgive]
    exact h.lastEom
  · rw [hgiven]
    show (if c.give && l.master.ready && _ then _ else l.master.earlySom) = true → _
    rw [hgive]
    exact h.earlySom
  · rw [hgiven]
    intro hin
    show (if c.give && l.master.ready && _ then _ else l.master.opcode) = _
    rw [hgive]
    exact h.opcode hin
  · rw [hgiven]
    intro hin
    obtain ⟨h₁, h₂⟩ := h.inside hin
    refine ⟨?_, heom⟩
    show (if (l.request g c).cmd then true else if l.slave.lastWasEom then false
      else l.slave.inMessage) = true
    rw [hcmd, h₂, h₁]
    rfl
  · rw [hgiven]
    intro hin hs
    exfalso
    have hs : (if (l.request g c).cmd then true else if l.slave.lastWasEom then false
      else l.slave.inMessage) = true := hs
    rw [hcmd] at hs
    cases hlast : l.slave.lastWasEom with
    | true =>
      rw [hlast] at hs
      cases hs
    | false =>
      rw [hlast] at hs
      rw [h.outside hin hs] at hlast
      cases hlast

theorem messageInv_give (h : MessageInv l) (hready : l.master.ready = true) (hgive : c.give = true)
    (hp : Produces l c) (hc : Clean g l c) : MessageInv (l.clock g c) := by
  have hsent : sent (l.clock g c).given = (sent l.given).give c.offer := by
    show sent (l.given ++ (if c.give then [c.offer] else [])) = _
    rw [hgive]
    exact sent_give _ _
  have hcond : (c.give && l.master.ready && (c.offer.som || l.master.lastEom)) = c.offer.som := by
    rw [hgive, hready]
    cases hlast : l.master.lastEom with
    | false => simp
    | true =>
      have hsom := (hp hgive).2
      rw [h.lastEom hlast] at hsom
      simp [hsom]
  have heom : fifoEom g (l.request g c) = c.offer.eom := fifoEom_offer hgive
  constructor
  · rw [hsent]
    show (l.enqueued ++ _).map Word.seen = _
    rw [List.map_append, h.arrived, seen_offer h hready hgive hp hc]
    rfl
  · rw [hsent]
    show (if c.give && l.master.ready then c.offer.eom else l.master.lastEom) = true → _
    rw [hgive, hready]
    intro hlast
    show (!c.offer.eom) = false
    rw [show c.offer.eom = true from hlast]
    rfl
  · show (if c.give && l.master.ready && (c.offer.som || l.master.lastEom) then _
      else l.master.earlySom) = true → ∃ o ∈ l.given ++ (if c.give then [c.offer] else []), _
    rw [hcond, hgive]
    cases hsom : c.offer.som with
    | true =>
      intro halone
      refine ⟨c.offer, List.mem_append_right _ (List.mem_singleton.mpr rfl), ?_⟩
      unfold Offer.alone
      rw [hsom, Bool.true_and]
      exact halone
    | false =>
      intro hearly
      obtain ⟨o, ho, halone⟩ := h.earlySom hearly
      exact ⟨o, List.mem_append_left _ ho, halone⟩
  · rw [hsent]
    intro _
    show (if c.give && l.master.ready && (c.offer.som || l.master.lastEom) then c.offer.opcode
      else l.master.opcode) = if c.offer.som then c.offer.opcode else (sent l.given).opcode
    rw [hcond]
    cases hsom : c.offer.som with
    | true => rfl
    | false =>
      have hin := (hp hgive).2
      rw [hsom] at hin
      exact h.opcode (by simpa using hin)
  · rw [hsent]
    intro hin
    have hno : c.offer.eom = false := by simpa [Sent.give] using hin
    refine ⟨?_, heom.trans hno⟩
    show (if (l.request g c).cmd then true else if l.slave.lastWasEom then false
      else l.slave.inMessage) = true
    cases hsom : c.offer.som with
    | true => rw [cmd_offer h hready hgive hc (Or.inl hsom)]; rfl
    | false =>
      have hin := (hp hgive).2
      rw [hsom] at hin
      obtain ⟨h₁, h₂⟩ := h.inside (by simpa using hin)
      rw [h₁, h₂]
      cases (l.request g c).cmd <;> rfl
  · rw [hsent]
    intro hout _
    exact heom.trans (by simpa [Sent.give] using hout)

/-- **Messages arrive** in every run of a producer of messages that stays clean. -/
theorem arrives_of_clean {burstLength : Nat} {fifo : Fifo2x Word}
    (h : Reach (Link.step g) (fun l c => Produces l c ∧ Clean g l c)
      (Link.start burstLength fifo) l) : Arrives l := by
  have hinv : MessageInv l := by
    refine h.invariant (messageInv_start burstLength fifo) fun l c l' hinv hok hs => ?_
    obtain ⟨hready, -, rfl⟩ := Link.step_ok hs
    cases hgive : c.give with
    | true => exact messageInv_give hinv (hready hgive) hgive hok.1 hok.2
    | false => exact messageInv_idle hinv hgive
  unfold Arrives
  rw [← (flowInv_of_reach h).queue]
  exact hinv.arrived

instance (l : Link) (c : Cycle) : Decidable (Produces l c) := inferInstanceAs (Decidable (_ → _))

instance (l : Link) (c : Cycle) : Decidable (Clean g l c) := inferInstanceAs (Decidable (_ → _))

/-- Two messages, the second of them with som and eom given alone. -/
theorem arrives_two_messages : ∃ l : Link, (sent l.given).words.length = 4 ∧ Arrives l := by
  have hrun : ∃ l ∈ exec (checked (Link.step (sampleGenerics true))
        fun l c => Produces l c ∧ Clean (sampleGenerics true) l c) sampleStart
      [idleCycle false, givenCycle (sampleOffer true true true 1), idleCycle true, idleCycle false,
        givenCycle (sampleOffer true false false 2), idleCycle true, idleCycle false,
        givenCycle (sampleOffer false true false 3), idleCycle true,
        givenCycle (sampleOffer false false true 4)],
      (sent l.given).words.length = 4 := by decide
  obtain ⟨l, hl, hlen⟩ := hrun
  exact ⟨l, hlen, arrives_of_clean (reach_of_exec_checked _ hl)⟩

/-- After a message whose som was given alone, the next one arrives without som. -/
theorem som_lost_after_alone : ∃ l : Link,
    Reach (Link.step (sampleGenerics true)) Produces sampleStart l ∧
      (sent l.given).words.map (·.som) = [true, false, true] ∧
      (l.taken ++ l.slave.fifo.contents).map (·.som) = [true, false, false] ∧ ¬Arrives l := by
  have hrun : ∃ l ∈ exec (checked (Link.step (sampleGenerics true)) Produces) sampleStart
      [idleCycle false, givenCycle (sampleOffer true false false 1), idleCycle true,
        givenCycle (sampleOffer false true true 2), idleCycle true,
        givenCycle (sampleOffer true true true 3)],
      (sent l.given).words.map (·.som) = [true, false, true] ∧
        (l.taken ++ l.slave.fifo.contents).map (·.som) = [true, false, false] := by decide
  obtain ⟨l, hl, hsent, hseen⟩ := hrun
  refine ⟨l, reach_of_exec_checked _ hl, hsent, hseen, fun harrives => ?_⟩
  have hsom := congrArg (List.map (·.som)) harrives
  rw [List.map_map, hsent] at hsom
  have hsom : (l.taken ++ l.slave.fifo.contents).map (·.som) = [true, false, true] := hsom
  rw [hseen] at hsom
  cases hsom

end OpenCpi.Wsi
