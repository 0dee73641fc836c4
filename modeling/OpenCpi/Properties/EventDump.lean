import OpenCpi.Time.Dump

/-!
# The dump shows what is stored

Entries lie one after the other. When the writer goes on at the base, it overwrites those of the round before;
the reader finds the rest of them only when an entry still begins where the writer is.

## Stored entries
-/

namespace OpenCpi.Time

open Infra

/-- The bytes from one entry to the next. -/
def Stored.length (a : Stored) : Nat := entrySize + a.emission.payload.size.toNat

/-- Some byte of an entry is overwritten by a later one. -/
def Overwrites (b a : Stored) : Prop := a.pos < b.pos + b.emission.bytes.length ∧ b.pos < a.pos + a.length

instance (b a : Stored) : Decidable (Overwrites b a) := inferInstanceAs (Decidable (_ ∧ _))

/-- The entries that are not overwritten, not even in part. -/
def intact : List Stored → List Stored
  | [] => []
  | a :: later => if ∃ b ∈ later, Overwrites b a then intact later else a :: intact later

def Registered (maps : List EventMap) (a : Stored) : Bool := (getEventMap maps a.emission.id).isSome

/-- What is printed for an entry: its fields and, for a value, the bytes of it. -/
structure Prints (maps : List EventMap) (a : Stored) (line : Line) : Prop where
  eid : line.eid = a.emission.id
  owner : line.owner = a.emission.owner
  dtype : (getEventMap maps a.emission.id).map (·.dtype) = some line.dtype
  ticks : line.ticks = a.emission.time
  value : ∀ v, a.emission.payload = .scalar v →
    line.value = printedValue maps a.emission.id (leBytes 8 v.toNat)

/-- **The dump is right**: it ends, begins at the oldest entry that is intact, and prints the intact entries of
registered events, in order. -/
def DumpRight (maps : List EventMap) (h : History) : Prop :=
  (∀ a, (intact h.stored).head? = some a → h.queue.begin = a.pos) ∧
    ∃ fuel lines, h.queue.dump maps fuel = some lines ∧
      List.Forall₂ (Prints maps) ((intact h.stored).filter (Registered maps)) lines

/-- The condition on an event: it has a time and a size, it ends in the queue and so that the reader takes it for
an entry, and its role does not start the queue again. -/
structure Sound (h : History) (e : Emission) : Prop where
  time : e.time ≠ 0
  size : e.payload.size ≠ 0
  inside : (h.queue.processTrigger e.role).done ≠ true →
    (h.queue.ready e.role).position + entrySize + max e.payload.bytes.length 1 ≤ h.queue.size
  goesOn : (h.queue.processTrigger e.role).current = h.queue.current

/-- **When the dump is right**: after a wrap, an intact entry begins at `current`. -/
def Aligned (h : History) : Prop := h.queue.full = true → ∃ a ∈ intact h.stored, a.pos = h.queue.position

variable {a b : Stored} {l l₁ l₂ : List Stored}

theorem intact_append (l₁ l₂ : List Stored) :
    intact (l₁ ++ l₂) = (intact l₁).filter (fun a => ¬∃ b ∈ l₂, Overwrites b a) ++ intact l₂ := by
  induction l₁ with
  | nil => rfl
  | cons a l₁ ih =>
    rw [List.cons_append, intact, intact, ih]
    by_cases h₁ : ∃ b ∈ l₁, Overwrites b a
    · obtain ⟨b, hb, hover⟩ := h₁
      rw [if_pos ⟨b, List.mem_append_left _ hb, hover⟩, if_pos ⟨b, hb, hover⟩]
    · rw [if_neg h₁]
      by_cases h₂ : ∃ b ∈ l₂, Overwrites b a
      · obtain ⟨b, hb, hover⟩ := h₂
        rw [if_pos ⟨b, List.mem_append_right _ hb, hover⟩, List.filter_cons_of_neg]
        simpa using ⟨b, hb, hover⟩
      · have h : ¬∃ b ∈ l₁ ++ l₂, Overwrites b a := by
          rintro ⟨b, hb, hover⟩
          rcases List.mem_append.mp hb with hb | hb
          · exact h₁ ⟨b, hb, hover⟩
          · exact h₂ ⟨b, hb, hover⟩
        have hkeep : decide (¬∃ b ∈ l₂, Overwrites b a) = true := decide_eq_true h₂
        rw [if_neg h, List.filter_cons, if_pos hkeep]
        rfl

theorem mem_of_mem_intact (h : a ∈ intact l) : a ∈ l := by
  induction l with
  | nil => exact h
  | cons b l ih =>
    rw [intact] at h
    split at h
    · exact List.mem_cons_of_mem _ (ih h)
    · rcases List.mem_cons.mp h with rfl | h
      · exact List.mem_cons_self ..
      · exact List.mem_cons_of_mem _ (ih h)

/-! ## Rounds -/

/-- The entries lie one after the other, between two indices. -/
def Chain : Nat → List Stored → Nat → Prop
  | start, [], stop => start = stop
  | start, a :: l, stop => a.pos = start ∧ Chain (start + a.length) l stop

variable {start stop size : Nat}

/-- An entry has a size and ends in the queue so that the reader takes it for an entry. -/
structure Stored.Proper (size : Nat) (a : Stored) : Prop where
  time : a.emission.time ≠ 0
  sized : a.emission.payload.size ≠ 0
  inside : a.pos + entrySize + max a.emission.payload.bytes.length 1 ≤ size

theorem Stored.Proper.pos_size (h : a.Proper size) : 0 < a.emission.payload.size.toNat :=
  Nat.pos_of_ne_zero fun hzero => h.sized (UInt32.toNat_inj.mp hzero)

theorem Payload.length_le (p : Payload) : p.bytes.length ≤ p.size.toNat ∧
    (p.bytes.length = p.size.toNat ∨ p.bytes.length = 0 ∧ p.size.toNat = 8) := by
  cases p with
  | empty => exact ⟨Nat.zero_le _, .inr ⟨rfl, rfl⟩⟩
  | scalar v => exact ⟨by rw [Payload.bytes, leBytes_length]; exact Nat.le_refl 8, .inl (leBytes_length 8 _)⟩
  | string strlen source =>
    have hlen : (Payload.bytes (.string strlen source)).length = (Payload.size (.string strlen source)).toNat := by
      rw [Payload.bytes, List.length_map, List.length_range]
    exact ⟨Nat.le_of_eq hlen, .inl hlen⟩

theorem chain_append : Chain start (l₁ ++ l₂) stop ↔ ∃ m, Chain start l₁ m ∧ Chain m l₂ stop := by
  induction l₁ generalizing start with
  | nil => exact ⟨fun h => ⟨start, rfl, h⟩, fun ⟨m, hm, h⟩ => hm ▸ h⟩
  | cons a l₁ ih =>
    rw [List.cons_append, Chain, ih]
    exact ⟨fun ⟨hpos, m, h₁, h₂⟩ => ⟨m, ⟨hpos, h₁⟩, h₂⟩, fun ⟨m, ⟨hpos, h₁⟩, h₂⟩ => ⟨hpos, m, h₁, h₂⟩⟩

theorem chain_le (h : Chain start l stop) : start ≤ stop := by
  induction l generalizing start with
  | nil => exact Nat.le_of_eq h
  | cons a l ih => exact Nat.le_trans (Nat.le_add_right _ _) (ih h.2)

/-- The entries of a chain are between its ends. -/
theorem chain_mem (h : Chain start l stop) (ha : a ∈ l) : start ≤ a.pos ∧ a.pos + a.length ≤ stop := by
  induction l generalizing start with
  | nil => cases ha
  | cons b l ih =>
    obtain ⟨rfl, hrest⟩ := h
    rcases List.mem_cons.mp ha with rfl | ha
    · exact ⟨Nat.le_refl _, chain_le hrest⟩
    · obtain ⟨hle, hstop⟩ := ih hrest ha
      exact ⟨Nat.le_trans (Nat.le_add_right _ _) hle, hstop⟩

theorem bytes_length_le (a : Stored) : a.emission.bytes.length ≤ a.length := by
  rw [Emission.bytes_length, Stored.length]
  exact Nat.add_le_add_left a.emission.payload.length_le.1 _

/-- Entries that end before others begin are not overwritten by them. -/
theorem not_overwrites_of_le (h : b.pos + b.length ≤ a.pos ∨ a.pos + a.length ≤ b.pos) : ¬Overwrites b a := by
  have hb := bytes_length_le b
  rintro ⟨h₁, h₂⟩
  omega

/-- The entries of one round are all intact. -/
theorem intact_chain (h : Chain start l stop) : intact l = l := by
  induction l generalizing start with
  | nil => rfl
  | cons a l ih =>
    obtain ⟨hpos, hrest⟩ := h
    have hnone : ¬∃ b ∈ l, Overwrites b a := by
      rintro ⟨b, hb, hover⟩
      exact not_overwrites_of_le (.inr (hpos ▸ (chain_mem hrest hb).1)) hover
    rw [intact, if_neg hnone, ih hrest]

/-- **A round overwrites every entry below its end**, unless that entry begins in the last eight bytes, which an
event without a value leaves as they are. -/
theorem overwritten_of_chain (h : Chain start l stop) (hstart : start ≤ a.pos) (hstop : a.pos < stop)
    (hlen : entrySize < a.length) : (∃ b ∈ l, Overwrites b a) ∨ stop ≤ a.pos + 8 := by
  induction l generalizing start with
  | nil =>
    have heq : start = stop := h
    omega
  | cons b l ih =>
    obtain ⟨rfl, hrest⟩ := h
    have hbytes := b.emission.bytes_length
    by_cases hwritten : a.pos < b.pos + b.emission.bytes.length
    · exact .inl ⟨b, List.mem_cons_self .., hwritten, by omega⟩
    · by_cases hnext : b.pos + b.length ≤ a.pos
      · rcases ih hrest hnext with ⟨b', hb', hover⟩ | hlast
        · exact .inl ⟨b', List.mem_cons_of_mem _ hb', hover⟩
        · exact .inr hlast
      · -- only behind an event without a value are there bytes that are not written
        obtain ⟨-, heq | ⟨hempty, height⟩⟩ := b.emission.payload.length_le
        · rw [Stored.length] at hnext
          omega
        · rw [Stored.length, height, entrySize] at hrest hnext
          rw [hbytes, hempty, entrySize] at hwritten
          rw [entrySize] at hlen
          cases l with
          | nil =>
            have heq : b.pos + (16 + 8) = stop := hrest
            exact .inr (by omega)
          | cons b' l =>
            have hpos : b'.pos = b.pos + (16 + 8) := hrest.1
            exact .inl ⟨b', List.mem_cons_of_mem _ (List.mem_cons_self ..), by omega, by omega⟩

/-- Where an entry of a chain begins, the chain can be cut. -/
theorem chain_cut (h : Chain start l stop) (ha : a ∈ l) :
    ∃ before later, l = before ++ a :: later ∧ Chain start before a.pos ∧ Chain a.pos (a :: later) stop := by
  obtain ⟨before, later, rfl⟩ := List.append_of_mem ha
  obtain ⟨m, h₁, h₂⟩ := chain_append.mp h
  obtain rfl : a.pos = m := h₂.1
  exact ⟨before, later, rfl, h₁, h₂⟩

theorem filter_eq_nil_of_overwritten (h : ∀ a ∈ l₁, ∃ b ∈ l₂, Overwrites b a) :
    l₁.filter (fun a => ¬∃ b ∈ l₂, Overwrites b a) = [] :=
  List.filter_eq_nil_iff.mpr fun a ha => by simpa using h a ha

theorem filter_eq_self_of_intact (h : ∀ a ∈ l₁, ∀ b ∈ l₂, ¬Overwrites b a) :
    l₁.filter (fun a => ¬∃ b ∈ l₂, Overwrites b a) = l₁ :=
  List.filter_eq_self.mpr fun a ha => by simpa using h a ha

variable {earlier old new : List Stored} {z c : Nat}

/-- Nothing of the rounds before the last one is left. -/
theorem intact_rounds (hold : Chain 0 old z) (hz : size ≤ z + 8) (hearlier : ∀ a ∈ earlier, a.Proper size) :
    intact (earlier ++ old) = old := by
  rw [intact_append, intact_chain hold]
  refine (congrArg (· ++ old) (filter_eq_nil_of_overwritten fun a ha => ?_)).trans (List.nil_append old)
  have hproper := hearlier a (mem_of_mem_intact ha)
  have hinside := hproper.inside
  have hlen : entrySize < a.length := Nat.lt_add_of_pos_right hproper.pos_size
  rcases overwritten_of_chain hold (Nat.zero_le _) (by rw [entrySize] at hinside; omega) hlen with hover | hlast
  · exact hover
  · rw [entrySize] at hinside
    omega

/-- **The intact entries**: those of the round before from an entry that begins where this one ends, and those
of this round. -/
theorem intact_aligned (hold : Chain 0 old z) (hz : size ≤ z + 8) (hnew : Chain 0 new c)
    (hproper : ∀ a ∈ earlier ++ old, a.Proper size) (ha : a ∈ intact (earlier ++ old ++ new)) (hpos : a.pos = c) :
    ∃ before later, old = before ++ a :: later ∧ intact (earlier ++ old ++ new) = a :: later ++ new ∧
      Chain c (a :: later) z := by
  have hearlier : ∀ a ∈ earlier, a.Proper size := fun a ha => hproper a (List.mem_append_left _ ha)
  have holdProper : ∀ a ∈ old, a.Proper size := fun a ha => hproper a (List.mem_append_right _ ha)
  rw [intact_append, intact_rounds hold hz hearlier, intact_chain hnew] at ha ⊢
  have hmem : a ∈ old := by
    rcases List.mem_append.mp ha with ha | ha
    · exact (List.mem_filter.mp ha).1
    · have hlt := (chain_mem hnew ha).2
      rw [Stored.length, entrySize] at hlt
      omega
  obtain ⟨before, later, rfl, hbefore, hlater⟩ := chain_cut hold hmem
  rw [hpos] at hbefore hlater
  refine ⟨before, later, rfl, ?_, hlater⟩
  rw [List.filter_append]
  have hgone : before.filter (fun a => ¬∃ b ∈ new, Overwrites b a) = [] := by
    refine filter_eq_nil_of_overwritten fun b hb => ?_
    have hsize := (holdProper b (List.mem_append_left _ hb)).pos_size
    have hlen : entrySize < b.length := Nat.lt_add_of_pos_right hsize
    have hbc := (chain_mem hbefore hb).2
    rcases overwritten_of_chain hnew (Nat.zero_le _) (by omega) hlen with hover | hlast
    · exact hover
    · rw [entrySize] at hlen
      omega
  have hkept : (a :: later).filter (fun a => ¬∃ b ∈ new, Overwrites b a) = a :: later := by
    refine filter_eq_self_of_intact fun a' ha' b hb => not_overwrites_of_le (.inl ?_)
    exact Nat.le_trans (chain_mem hnew hb).2 (chain_mem hlater ha').1
  rw [hgone, hkept, List.nil_append]

/-! ## What the memory holds -/

variable {memory memory' : Memory} {maps : List EventMap} {q : EventQ}

/-- An entry is in memory as it was written. -/
def Written (memory : Memory) (a : Stored) : Prop :=
  readBytes memory a.pos a.emission.bytes.length = a.emission.bytes

theorem entryAt_of_bytes {pos : Nat} {e : EventQEntry} (h : readBytes memory pos entrySize = e.bytes) :
    entryAt memory pos = e := by
  rw [show entrySize = 8 + 2 + 2 + 4 from rfl, readBytes_add, readBytes_add, readBytes_add, EventQEntry.bytes] at h
  obtain ⟨h, hsize⟩ := List.append_inj h (by simp)
  obtain ⟨h, howner⟩ := List.append_inj h (by simp)
  obtain ⟨htime, heid⟩ := List.append_inj h (by simp)
  unfold entryAt
  rw [htime, heid, howner, hsize, wordOf_leBytes_of_lt (n := 8) e.time_ticks.toNat_lt,
    wordOf_leBytes_of_lt (n := 2) e.eid.toNat_lt, wordOf_leBytes_of_lt (n := 2) e.owner.toNat_lt,
    wordOf_leBytes_of_lt (n := 4) e.size.toNat_lt, UInt64.ofNat_toNat, UInt16.ofNat_toNat, UInt16.ofNat_toNat,
    UInt32.ofNat_toNat]

theorem Written.split (h : Written memory a) : readBytes memory a.pos entrySize = a.emission.entry.bytes ∧
    readBytes memory (a.pos + entrySize) a.emission.payload.bytes.length = a.emission.payload.bytes := by
  unfold Written at h
  rw [Emission.bytes_length, readBytes_add, Emission.bytes] at h
  exact List.append_inj h (by simp)

theorem Written.entry (h : Written memory a) : entryAt memory a.pos = a.emission.entry := entryAt_of_bytes h.split.1

/-- What is printed for an entry of a registered event. -/
theorem Written.prints (h : Written memory a) (htime : a.emission.time ≠ 0) (hreg : Registered maps a = true) :
    ∃ line, lineAt maps memory a.pos = some line ∧ Prints maps a line := by
  obtain ⟨emap, hmap⟩ := Option.isSome_iff_exists.mp hreg
  have hentry := h.entry
  refine ⟨⟨a.emission.id, a.emission.owner, emap.dtype, a.emission.time,
    printedValue maps a.emission.id (readBytes memory (a.pos + entrySize) 8)⟩, ?_, rfl, rfl, ?_, rfl, ?_⟩
  · unfold lineAt
    rw [hentry]
    show ((getEventMap maps a.emission.id).bind _) = _
    rw [hmap, Option.bind_some]
    exact if_neg htime
  · rw [hmap]
    rfl
  · intro v hv
    have hvalue := h.split.2
    rw [hv] at hvalue
    have hlen : (Payload.scalar v).bytes.length = 8 := leBytes_length 8 _
    rw [hlen] at hvalue
    exact congrArg (printedValue maps a.emission.id) hvalue

theorem Written.prints_not (h : Written memory a) (hreg : Registered maps a ≠ true) :
    lineAt maps memory a.pos = none := by
  have hnone : getEventMap maps a.emission.id = none := Option.not_isSome_iff_eq_none.mp hreg
  unfold lineAt
  rw [h.entry]
  show ((getEventMap maps a.emission.id).bind _) = _
  rw [hnone]
  rfl

/-- A write elsewhere leaves an entry as it is. -/
theorem Written.writeBytes (h : Written memory a) (hb : ¬Overwrites b a) :
    Written (writeBytes memory b.pos b.emission.bytes) a := by
  have hlen := bytes_length_le a
  refine (readBytes_congr fun x hx hx' => ?_).trans h
  refine if_neg fun hin => hb ⟨?_, ?_⟩
  · omega
  · omega

theorem written_self (b : Stored) : Written (writeBytes memory b.pos b.emission.bytes) b :=
  readBytes_writeBytes memory b.pos b.emission.bytes

/-! ## The invariant -/

variable {h h' : History} {e : Emission} {stored : List Stored}

/-- Where the entries of the rounds lie. -/
structure Layout (h : History) (earlier old new : List Stored) : Prop where
  stored : h.stored = earlier ++ old ++ new
  chain : Chain 0 new h.queue.position
  /-- The round before came near the end; else the queue stopped at its end. -/
  wrapped : h.queue.full = true →
    (∃ z, Chain 0 old z ∧ h.queue.size ≤ z + 8) ∨ h.queue.size ≤ h.queue.position
  first : h.queue.full = false → earlier = [] ∧ old = [] ∧ ∀ x, h.queue.position ≤ x → h.queue.memory x = 0

structure Inv (h : History) : Prop where
  layout : ∃ earlier old new, Layout h earlier old new
  proper : ∀ a ∈ h.stored, a.Proper h.queue.size
  written : ∀ a ∈ intact h.stored, Written h.queue.memory a
  start : h.queue.current = none → h.queue.full = false

theorem inv_start (size : Nat) (stopWhenFull : Bool) : Inv (.start size stopWhenFull) :=
  ⟨⟨[], [], [], rfl, rfl, nofun, fun _ => ⟨rfl, rfl, fun _ _ => rfl⟩⟩, (fun _ ha => nomatch ha),
    (fun _ ha => nomatch ha), fun _ => rfl⟩

/-- A trigger that does not start the queue again changes only its role. -/
theorem processTrigger_of_current {role : EventTriggerRole} (hstart : q.current = none → q.full = false)
    (hcurrent : (q.processTrigger role).current = q.current) : ∃ r, q.processTrigger role = { q with role := r } := by
  rcases processTrigger_eq q role with heq | ⟨r, heq⟩
  · exact ⟨q.role, heq⟩
  · rw [heq] at hcurrent
    refine ⟨r, ?_⟩
    rw [heq, ← hstart hcurrent.symm, ← hcurrent]

theorem Inv.role (hinv : Inv ⟨q, stored⟩) (r : EventTriggerRole) : Inv ⟨{ q with role := r }, stored⟩ := by
  obtain ⟨⟨earlier, old, new, hstored, hchain, hwrapped, hfirst⟩, hproper, hwritten, hstart⟩ := hinv
  exact ⟨⟨earlier, old, new, hstored, hchain, hwrapped, hfirst⟩, hproper, hwritten, hstart⟩

/-- Going on at the base begins a new round. -/
theorem Inv.adjust (hinv : Inv ⟨q, stored⟩) : Inv ⟨q.adjustCurrent 8, stored⟩ := by
  unfold EventQ.adjustCurrent
  obtain ⟨⟨earlier, old, new, hstored, hchain, hwrapped, hfirst⟩, hproper, hwritten, hstart⟩ := hinv
  cases hcurrent : q.current with
  | none =>
    have hpos : q.position = 0 := by rw [EventQ.position, hcurrent]; rfl
    dsimp only at hchain hwrapped hfirst
    rw [hpos] at hchain hwrapped hfirst
    exact ⟨⟨earlier, old, new, hstored, hchain, hwrapped, hfirst⟩, hproper, hwritten, nofun⟩
  | some current =>
    dsimp only
    split
    · next hend =>
      have hpos : q.position = current := by rw [EventQ.position, hcurrent]; rfl
      dsimp only at hchain hstored
      rw [hpos] at hchain
      refine ⟨⟨earlier ++ old, new, [], ?_, rfl, fun _ => .inl ⟨current, hchain, hend⟩, nofun⟩, hproper, hwritten,
        nofun⟩
      exact hstored.trans (List.append_nil _).symm
    · exact ⟨⟨earlier, old, new, hstored, hchain, hwrapped, hfirst⟩, hproper, hwritten, hstart⟩

/-- An entry is put behind the others. -/
theorem Inv.store (hinv : Inv ⟨q, stored⟩) (hnew : Stored.Proper q.size ⟨q.position, e⟩) :
    Inv ⟨(q.store e).finiEvent e.payload.size.toNat, stored ++ [⟨q.position, e⟩]⟩ := by
  obtain ⟨⟨earlier, old, new, hstored, hchain, hwrapped, hfirst⟩, hproper, hwritten, -⟩ := hinv
  dsimp only at hstored hchain hwrapped hfirst hproper hwritten
  have hproper' : ∀ a ∈ stored ++ [⟨q.position, e⟩], a.Proper q.size :=
    List.forall_mem_append.mpr ⟨hproper, List.forall_mem_singleton.mpr hnew⟩
  have hwritten' : ∀ a ∈ intact (stored ++ [⟨q.position, e⟩]), Written (q.store e).memory a := by
    rw [intact_append]
    refine List.forall_mem_append.mpr ⟨fun a ha => ?_, List.forall_mem_singleton.mpr (written_self ⟨q.position, e⟩)⟩
    obtain ⟨ha, hkept⟩ := List.mem_filter.mp ha
    have hover : ¬Overwrites ⟨q.position, e⟩ a := fun hover =>
      of_decide_eq_true hkept ⟨_, List.mem_singleton_self _, hover⟩
    exact (hwritten a ha).writeBytes hover
  have hnext : Chain 0 (new ++ [⟨q.position, e⟩]) (q.position + e.payload.size.toNat + entrySize) :=
    chain_append.mpr ⟨_, hchain, rfl, by rw [Nat.add_assoc, Nat.add_comm e.payload.size.toNat]; rfl⟩
  have hstored' : stored ++ [⟨q.position, e⟩] = earlier ++ old ++ (new ++ [⟨q.position, e⟩]) := by
    rw [hstored, List.append_assoc (earlier ++ old)]
  unfold EventQ.finiEvent
  show Inv ⟨if q.position + e.payload.size.toNat + entrySize ≥ q.size then _ else _, _⟩
  by_cases hend : q.position + e.payload.size.toNat + entrySize ≥ q.size
  · rw [if_pos hend]
    split
    · exact ⟨⟨earlier, old, _, hstored', hnext, fun _ => .inr hend, nofun⟩, hproper', hwritten', nofun⟩
    · refine ⟨⟨earlier ++ old, _, [], ?_, rfl, fun _ => .inl ⟨_, hnext, Nat.le_add_right_of_le hend⟩, nofun⟩, hproper',
        hwritten', nofun⟩
      exact hstored'.trans (List.append_nil _).symm
  · rw [if_neg hend]
    refine ⟨⟨earlier, old, _, hstored', hnext, fun hfull => ?_, fun hfull => ?_⟩, hproper', hwritten', nofun⟩
    · rcases hwrapped hfull with hold | hstop
      · exact .inl hold
      · have hinside := hnew.inside
        rw [entrySize] at hinside
        exact absurd hinside (by dsimp only; omega)
    · obtain ⟨hearlier, hold, hzero⟩ := hfirst hfull
      refine ⟨hearlier, hold, fun x hx => ?_⟩
      have hlen := bytes_length_le ⟨q.position, e⟩
      have hx : q.position + e.payload.size.toNat + entrySize ≤ x := hx
      rw [Stored.length] at hlen
      dsimp only at hlen
      have hout : ¬(q.position ≤ x ∧ x < q.position + e.bytes.length) := by omega
      exact (if_neg hout).trans (hzero x (by omega))

theorem inv_step (hinv : Inv h) (hsound : Sound h e) (hstep : h.step e = some h') : Inv h' := by
  obtain rfl := Option.some.inj hstep
  obtain ⟨r, hrole⟩ := processTrigger_of_current hinv.start hsound.goesOn
  by_cases hdone : (h.queue.processTrigger e.role).done = true
  · rw [if_pos hdone, emitT_done hdone, hrole]
    exact Inv.role hinv r
  · rw [if_neg hdone, emitT_not_done hdone]
    have hready : Inv ⟨h.queue.ready e.role, h.stored⟩ := by
      rw [EventQ.ready, hrole]
      exact (Inv.role hinv r).adjust
    refine hready.store ⟨hsound.time, hsound.size, ?_⟩
    rw [ready_size]
    exact hsound.inside hdone

/-! ## The walk -/

variable {first : Nat}

/-- The walk goes from an entry over the others, and then stops. -/
def Visits (q : EventQ) (first : Nat) : Stored → List Stored → Prop
  | a, [] => getNextEntry q a.pos = first ∨ (entryAt q.memory (getNextEntry q a.pos)).size = 0
  | a, b :: l => getNextEntry q a.pos = b.pos ∧ b.pos ≠ first ∧ Visits q first b l

/-- The line of an entry goes before the others. -/
theorem prints_append (hwritten : Written q.memory a) (hproper : a.Proper q.size) {lines : List Line}
    (hlines : List.Forall₂ (Prints maps) (l.filter (Registered maps)) lines) :
    List.Forall₂ (Prints maps) ((a :: l).filter (Registered maps))
      ((lineAt maps q.memory a.pos).toList ++ lines) := by
  by_cases hreg : Registered maps a = true
  · obtain ⟨line, hline, hprints⟩ := hwritten.prints hproper.time hreg
    rw [List.filter_cons_of_pos hreg, hline]
    exact .cons hprints hlines
  · rw [List.filter_cons_of_neg hreg, hwritten.prints_not hreg]
    exact hlines

/-- **A walk prints the entries it visits.** -/
theorem dumpLoop_visits (hl : ∀ b ∈ a :: l, Written q.memory b ∧ b.Proper q.size) (hvisits : Visits q first a l) :
    ∃ lines, dumpLoop maps q first (l.length + 1) a.pos = some lines ∧
      List.Forall₂ (Prints maps) ((a :: l).filter (Registered maps)) lines := by
  induction l generalizing a with
  | nil =>
    obtain ⟨hwritten, hproper⟩ := hl a (List.mem_singleton_self a)
    have hstop : ¬(getNextEntry q a.pos ≠ first ∧ (entryAt q.memory (getNextEntry q a.pos)).size ≠ 0) :=
      fun h => hvisits.elim h.1 h.2
    refine ⟨(lineAt maps q.memory a.pos).toList ++ [], ?_, prints_append hwritten hproper .nil⟩
    rw [List.append_nil]
    exact if_neg hstop
  | cons b l ih =>
    obtain ⟨⟨hwritten, hproper⟩, hl⟩ := List.forall_mem_cons.mp hl
    obtain ⟨hnext, hne, hvisits⟩ := hvisits
    obtain ⟨lines, hloop, hprints⟩ := ih hl hvisits
    obtain ⟨hb, hbproper⟩ := hl b (List.mem_cons_self ..)
    have hgo : getNextEntry q a.pos ≠ first ∧ (entryAt q.memory (getNextEntry q a.pos)).size ≠ 0 := by
      rw [hnext, hb.entry]
      exact ⟨hne, hbproper.sized⟩
    refine ⟨(lineAt maps q.memory a.pos).toList ++ lines, ?_, prints_append hwritten hproper hprints⟩
    rw [List.length_cons, dumpLoop, if_pos hgo, hnext, hloop]
    rfl

theorem nextEntry_of_written (hwritten : Written q.memory a) : getNextEntry q a.pos =
    if a.pos + a.length + entrySize ≥ q.size ∨
        a.pos + a.length + (entryAt q.memory (a.pos + a.length)).size.toNat ≥ q.size then 0
    else a.pos + a.length := by
  unfold getNextEntry
  rw [hwritten.entry, Nat.add_assoc a.pos]
  rfl

/-- The entry behind another one is found. -/
theorem nextEntry_proper (ha : Written q.memory a) (hb : Written q.memory b) (hproper : b.Proper q.size)
    (hpos : a.pos + a.length = b.pos) : getNextEntry q a.pos = b.pos := by
  have hinside := hproper.inside
  have hsize : (entryAt q.memory b.pos).size.toNat = b.emission.payload.size.toNat := by
    rw [hb.entry]
    rfl
  rw [nextEntry_of_written ha, hpos, hsize]
  refine if_neg ?_
  rw [entrySize] at hinside ⊢
  rcases b.emission.payload.length_le.2 with heq | ⟨-, height⟩
  · omega
  · omega

theorem nextEntry_wrap (ha : Written q.memory a) (hend : q.size ≤ a.pos + a.length + entrySize) :
    getNextEntry q a.pos = 0 := by
  rw [nextEntry_of_written ha, if_pos (.inl hend)]

/-- A walk over a chain, and from its last entry on. -/
theorem visits_chain (h : Chain start (a :: l) stop) (hl : ∀ b ∈ a :: l, Written q.memory b ∧ b.Proper q.size)
    (hne : ∀ b ∈ l, b.pos ≠ first) {rest : List Stored}
    (hlast : ∀ b ∈ a :: l, b.pos + b.length = stop → Visits q first b rest) : Visits q first a (l ++ rest) := by
  induction l generalizing start a with
  | nil =>
    obtain ⟨hpos, hstop⟩ := h
    exact hlast a (List.mem_singleton_self a) (hpos ▸ hstop)
  | cons b l ih =>
    obtain ⟨hpos, hrest⟩ := h
    obtain ⟨⟨ha, -⟩, hl⟩ := List.forall_mem_cons.mp hl
    obtain ⟨hb, hne⟩ := List.forall_mem_cons.mp hne
    have hnext : a.pos + a.length = b.pos := by rw [hpos, hrest.1]
    refine ⟨nextEntry_proper ha (hl b (List.mem_cons_self ..)).1 (hl b (List.mem_cons_self ..)).2 hnext, hb, ?_⟩
    exact ih hrest hl hne fun c hc => hlast c (List.mem_cons_of_mem _ hc)

theorem wordOf_zeros (pos n : Nat) : wordOf (readBytes (fun _ => 0) pos n) = 0 := by
  rw [readBytes, List.map_const']
  induction (List.range n).length with
  | zero => rfl
  | succ n ih => rw [List.replicate_succ, wordOf, ih]; rfl

/-- Memory that was never written. -/
theorem entryAt_zero {pos : Nat} (h : ∀ x, pos ≤ x → memory x = 0) :
    (entryAt memory pos).time_ticks = 0 ∧ (entryAt memory pos).size = 0 := by
  have hread : ∀ k n, wordOf (readBytes memory (pos + k) n) = 0 := fun k n => by
    rw [readBytes_congr fun x hx _ => h x (Nat.le_trans (Nat.le_add_right _ _) hx)]
    exact wordOf_zeros (pos + k) n
  exact ⟨congrArg UInt64.ofNat (hread 0 8), congrArg UInt32.ofNat (hread 12 4)⟩

theorem lineAt_zero {pos : Nat} (h : ∀ x, pos ≤ x → memory x = 0) : lineAt maps memory pos = none := by
  unfold lineAt
  dsimp only
  cases getEventMap maps (entryAt memory pos).eid with
  | none => rfl
  | some emap => rw [Option.bind_some, if_pos (entryAt_zero h).1]

/-! ## The dump -/

theorem intact_ne_nil (h : l ≠ []) : intact l ≠ [] := by
  rcases List.eq_nil_or_concat' l with rfl | ⟨l, a, rfl⟩
  · exact absurd rfl h
  · rw [intact_append]
    exact List.append_ne_nil_of_right_ne_nil _ (List.cons_ne_nil a [])

/-- Before the first wrap, the dump begins at the base and prints everything. -/
theorem dump_not_full (hinv : Inv h) (hfull : h.queue.full = false) : DumpRight maps h := by
  obtain ⟨⟨earlier, old, new, hstored, hchain, -, hfirst⟩, hproper, hwritten, -⟩ := hinv
  obtain ⟨rfl, rfl, hzero⟩ := hfirst hfull
  have hstored : h.stored = new := hstored
  have hintact : intact h.stored = new := (congrArg intact hstored).trans (intact_chain hchain)
  have hbegin : h.queue.begin = 0 := by rw [EventQ.begin, hfull, if_neg Bool.false_ne_true]
  have hnew : ∀ a ∈ new, Written h.queue.memory a ∧ a.Proper h.queue.size := fun a ha =>
    ⟨hwritten a (hintact ▸ ha), hproper a (hstored ▸ ha)⟩
  unfold DumpRight EventQ.dump
  rw [hintact, hbegin]
  cases new with
  | nil =>
    have hpos : h.queue.position = 0 := hchain.symm
    rw [hpos] at hzero
    refine ⟨nofun, 1, [], ?_, .nil⟩
    have hsize : (entryAt h.queue.memory (getNextEntry h.queue 0)).size = 0 :=
      (entryAt_zero fun x _ => hzero x (Nat.zero_le x)).2
    have hstop : ¬(getNextEntry h.queue 0 ≠ 0 ∧ (entryAt h.queue.memory (getNextEntry h.queue 0)).size ≠ 0) :=
      fun h => h.2 hsize
    rw [dumpLoop, if_neg hstop, lineAt_zero fun x _ => hzero x (Nat.zero_le x)]
    rfl
  | cons a new =>
    have hpos : a.pos = 0 := hchain.1
    refine ⟨fun a' ha' => Option.some.inj ha' ▸ hpos.symm, new.length + 1, ?_⟩
    have hne : ∀ b ∈ new, b.pos ≠ a.pos := fun b hb => by
      have hle := (chain_mem hchain.2 hb).1
      rw [Stored.length, entrySize] at hle
      omega
    -- behind the last entry the memory is empty
    have hlast : ∀ b ∈ a :: new, b.pos + b.length = h.queue.position → Visits h.queue a.pos b [] := by
      intro b hb hend
      unfold Visits
      rw [nextEntry_of_written (hnew b hb).1, hend]
      split
      · exact .inl hpos.symm
      · exact .inr (entryAt_zero hzero).2
    have hvisits := visits_chain hchain hnew hne hlast
    rw [List.append_nil] at hvisits
    rw [← hpos]
    exact dumpLoop_visits hnew hvisits

/-- After a wrap, it begins at `current`. -/
theorem dump_aligned (hinv : Inv h) (hfull : h.queue.full = true) (ha : a ∈ intact h.stored)
    (hpos : a.pos = h.queue.position) : DumpRight maps h := by
  obtain ⟨⟨earlier, old, new, hstored, hchain, hwrapped, -⟩, hproper, hwritten, -⟩ := hinv
  have hinside := (hproper a (mem_of_mem_intact ha)).inside
  obtain ⟨z, hold, hz⟩ := (hwrapped hfull).resolve_right (by rw [entrySize] at hinside; omega)
  rw [hstored] at ha hproper
  obtain ⟨before, later, rfl, hintact, hlater⟩ :=
    intact_aligned hold hz hchain (fun b hb => hproper b (List.mem_append_left _ hb)) ha hpos
  rw [← hstored] at hintact hproper
  have hall : ∀ b ∈ a :: later ++ new, Written h.queue.memory b ∧ b.Proper h.queue.size := fun b hb =>
    ⟨hwritten b (hintact ▸ hb), hproper b (mem_of_mem_intact (hintact ▸ hb))⟩
  have hold : ∀ b ∈ a :: later, Written h.queue.memory b ∧ b.Proper h.queue.size := fun b hb =>
    hall b (List.mem_append_left _ hb)
  have hnew : ∀ b ∈ new, Written h.queue.memory b ∧ b.Proper h.queue.size := fun b hb =>
    hall b (List.mem_append_right _ hb)
  have hbegin : h.queue.begin = a.pos := by rw [EventQ.begin, hfull, if_pos rfl, hpos]
  unfold DumpRight EventQ.dump
  rw [hintact, hbegin]
  refine ⟨fun a' ha' => Option.some.inj ha' ▸ rfl, (later ++ new).length + 1, dumpLoop_visits hall ?_⟩
  have hne : ∀ b ∈ later, b.pos ≠ a.pos := fun b hb => by
    have hle := (chain_mem hlater.2 hb).1
    rw [Stored.length, entrySize] at hle
    omega
  refine visits_chain hlater hold hne fun b hb hend => ?_
  have hwrap : getNextEntry h.queue b.pos = 0 :=
    nextEntry_wrap (hold b hb).1 (by rw [hend, entrySize]; omega)
  cases new with
  | nil =>
    have hzero : h.queue.position = 0 := hchain.symm
    exact .inl (by rw [hwrap, hpos, hzero])
  | cons n new =>
    have hn : n.pos = 0 := hchain.1
    have hbelow : ∀ b ∈ n :: new, b.pos ≠ a.pos := fun b hb => by
      have hle := (chain_mem hchain hb).2
      rw [Stored.length, entrySize] at hle
      omega
    refine ⟨by rw [hwrap, hn], hbelow n (List.mem_cons_self ..), ?_⟩
    have hlast : ∀ b ∈ n :: new, b.pos + b.length = h.queue.position → Visits h.queue a.pos b [] := by
      intro b hb hend
      have ha := hold a (List.mem_cons_self ..)
      exact .inl (nextEntry_proper (hnew b hb).1 ha.1 ha.2 (hend.trans hpos.symm))
    have hvisits := visits_chain hchain hnew (fun b hb => hbelow b (List.mem_cons_of_mem _ hb)) hlast
    rwa [List.append_nil] at hvisits

theorem stored_of_started {size : Nat} {stopWhenFull : Bool}
    (hrun : Reach History.step Sound (.start size stopWhenFull) h) : h.queue.current ≠ none → h.stored ≠ [] := by
  refine hrun.invariant (P := fun h => h.queue.current ≠ none → h.stored ≠ []) (fun hc => absurd rfl hc) ?_
  intro h e h' ih hsound hstep
  obtain rfl := Option.some.inj hstep
  by_cases hdone : (h.queue.processTrigger e.role).done = true
  · rw [if_pos hdone, emitT_done hdone, hsound.goesOn]
    exact ih
  · rw [if_neg hdone]
    exact fun _ => List.append_ne_nil_of_right_ne_nil _ (List.cons_ne_nil _ [])

/-- **When the dump is right**: before the first wrap, and after it exactly when an intact entry begins at
`current`. -/
theorem dumpRight_iff {size : Nat} {stopWhenFull : Bool} (maps : List EventMap)
    (hrun : Reach History.step Sound (.start size stopWhenFull) h) : DumpRight maps h ↔ Aligned h := by
  have hinv : Inv h := hrun.invariant (P := Inv) (inv_start size stopWhenFull) fun _ _ _ hinv hs hstep =>
    inv_step hinv hs hstep
  constructor
  · rintro ⟨hbegin, -⟩ hfull
    have hcurrent : h.queue.current ≠ none := fun hnone => by
      rw [hinv.start hnone] at hfull
      cases hfull
    obtain ⟨a, later, heq⟩ := List.exists_cons_of_ne_nil (intact_ne_nil (stored_of_started hrun hcurrent))
    refine ⟨a, heq ▸ List.mem_cons_self .., ?_⟩
    have hpos := hbegin a (by rw [heq]; rfl)
    rw [EventQ.begin, hfull, if_pos rfl] at hpos
    exact hpos.symm
  · intro haligned
    cases hfull : h.queue.full with
    | false => exact dump_not_full hinv hfull
    | true =>
      obtain ⟨a, ha, hpos⟩ := haligned hfull
      exact dump_aligned hinv hfull ha hpos

/-- A value at a time. -/
def valueAt (time : UInt64) : Emission := ⟨0, 0, time, .scalar 7, .noTrigger⟩

/-- Three values in a queue of two: the second and the third are printed. -/
theorem third_value_dumped : ∃ h, Reach History.step Sound (.start 48 false) h ∧
    DumpRight [⟨0, .value, .u⟩] h := by
  have hrun : Reach History.step Sound (.start 48 false) _ :=
    .tail .refl ⟨valueAt 1, ⟨by decide, by decide, fun _ => by decide, rfl⟩, rfl⟩
  have hrun : Reach History.step Sound (.start 48 false) _ :=
    .tail hrun ⟨valueAt 2, ⟨by decide, by decide, fun _ => by decide, rfl⟩, rfl⟩
  have hrun : Reach History.step Sound (.start 48 false) _ :=
    .tail hrun ⟨valueAt 3, ⟨by decide, by decide, fun _ => by decide, rfl⟩, rfl⟩
  exact ⟨_, hrun, (dumpRight_iff _ hrun).mpr fun _ => ⟨⟨24, valueAt 2⟩, List.mem_cons_self .., rfl⟩⟩

/-- Four values in a queue of 56 bytes: the dump begins behind the fourth, where the reader never comes again. -/
theorem dump_begins_behind : ¬∀ size stopWhenFull h maps, 24 ≤ size →
    Reach History.step anyStep (.start size stopWhenFull) h → DumpRight maps h := by
  intro hall
  have hrun : Reach History.step anyStep (.start 56 false) _ :=
    reach_of_exec [valueAt 1, valueAt 2, valueAt 3, valueAt 4] rfl
  have hbegin := (hall 56 false _ [⟨0, .value, .u⟩] (by decide) hrun).1 ⟨0, valueAt 3⟩ rfl
  exact absurd hbegin (by decide)

end OpenCpi.Time
