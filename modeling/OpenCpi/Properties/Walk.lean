import OpenCpi.Value.Walk
import OpenCpi.Properties.Marshal

/-!
# Reading a buffer that comes from elsewhere

The count of a sequence and the end of a string are looked for before the remaining length is
checked. So a buffer that ends there is read past its end, whatever is in it, and a type is safe for
buffers of every length only if the walk never gets to a sequence or a string. `verdict` finds this
out from the type, together with the arrays whose byte counts wrap around.

A walk that finishes has read only bytes inside.
-/

namespace OpenCpi.Value

open Infra

/-! ## Safety and verdicts -/

/-- A walk throws or finishes, having read only bytes inside and computed byte counts that do not
wrap around. -/
def Walk.Safe (w : Walk) (s : Cursor) : Prop := ∀ stop, w s = .error stop → ∃ text, stop = .thrown text

/-- What the walk does, as far as the type decides it. -/
inductive Verdict where
  /-- For some length it is not safe. -/
  | bad
  /-- It throws for every length. -/
  | endless
  /-- It finishes when the buffer is long enough. If it is empty, it takes no bytes but those that
  align the data. -/
  | ends (empty : Bool)
deriving DecidableEq, Repr

/-- One after the other. -/
def Verdict.andThen : Verdict → Verdict → Verdict
  | .ends e, .ends e' => .ends (e && e')
  | .ends _, v => v
  | v, _ => v

/-- `n` times. From 2^32 on the loop ends only with the buffer. -/
def Verdict.loop (n : Nat) : Verdict → Verdict
  | .ends e =>
    if n < 2 ^ 32 then .ends (e || n == 0)
    else if e then .bad
    else .endless
  | v => if n = 0 then .ends true else v

mutual

/-- The verdict about a member: no sequence is safe, nor a string, nor scalars whose byte count wraps
around. -/
def Member.verdict : Member → Verdict
  | .scalar d _ | .enum d _ =>
    if d.isSequence ∨ 2 ^ 64 ≤ d.nItems * (d.nBits / 8) then .bad
    else .ends (d.nItems * (d.nBits / 8) == 0)
  | .string d _ => if d.isSequence then .bad else Verdict.loop d.nItems .bad
  | .struct d members => if d.isSequence then .bad else (membersVerdict members).loop d.nItems
  | .type d t => if d.isSequence then .bad else t.verdict.loop d.nItems

def membersVerdict : List Member → Verdict
  | [] => .ends true
  | m :: ms => m.verdict.andThen (membersVerdict ms)

end

/-! ## Alignments -/

/-- The alignments that types have. -/
def Small (n : Nat) : Prop := n = 1 ∨ n = 2 ∨ n = 4 ∨ n = 8

theorem small_max {a b : Nat} (ha : Small a) (hb : Small b) : Small (max a b) := by
  unfold Small at *
  omega

theorem alignSkip_eq {n : Nat} (hn : Small n) (p : Nat) : alignSkip p n = n - 1 - (p + (n - 1)) % n := by
  have hone : ∀ q, q &&& 1 = q % 2 := fun q => Nat.and_two_pow_sub_one_eq_mod q 1
  have hthree : ∀ q, q &&& 3 = q % 4 := fun q => Nat.and_two_pow_sub_one_eq_mod q 2
  have hseven : ∀ q, q &&& 7 = q % 8 := fun q => Nat.and_two_pow_sub_one_eq_mod q 3
  unfold alignSkip alignAddr
  rcases hn with rfl | rfl | rfl | rfl
  · have hmask : (1 + (2 ^ 64 - 1)) % 2 ^ 64 = 0 := rfl
    simp only [hmask, Nat.and_zero]
    omega
  · have hmask : (2 + (2 ^ 64 - 1)) % 2 ^ 64 = 1 := rfl
    simp only [hmask, hone]
    omega
  · have hmask : (4 + (2 ^ 64 - 1)) % 2 ^ 64 = 3 := rfl
    simp only [hmask, hthree]
    omega
  · have hmask : (8 + (2 ^ 64 - 1)) % 2 ^ 64 = 7 := rfl
    simp only [hmask, hseven]
    omega

/-- The next multiple of the alignment. -/
theorem alignSkip_spec {n : Nat} (hn : Small n) (p : Nat) :
    alignSkip p n < n ∧ (p + alignSkip p n) % n = 0 := by
  rw [alignSkip_eq hn]
  rcases hn with rfl | rfl | rfl | rfl <;> omega

/-- What is aligned stays where it is for a smaller alignment. -/
theorem alignSkip_aligned {a b : Nat} (ha : Small a) (hb : Small b) (hab : b ≤ a) (p : Nat) :
    alignSkip (p + alignSkip p a) b = 0 := by
  have h₁ := alignSkip_spec ha p
  have h₂ := alignSkip_spec hb (p + alignSkip p a)
  rcases ha with rfl | rfl | rfl | rfl <;> rcases hb with rfl | rfl | rfl | rfl <;> omega

/-- A smaller alignment lies on the way to a larger one. -/
theorem alignSkip_on {a b : Nat} (ha : Small a) (hb : Small b) (hab : a ≤ b) (p : Nat) :
    alignSkip p a + alignSkip (p + alignSkip p a) b = alignSkip p b := by
  have h₁ := alignSkip_spec ha p
  have h₂ := alignSkip_spec hb (p + alignSkip p a)
  have h₃ := alignSkip_spec hb p
  rcases ha with rfl | rfl | rfl | rfl <;> rcases hb with rfl | rfl | rfl | rfl <;> omega

/-- Aligning twice is aligning once, for the larger one. -/
theorem alignSkip_add {a b : Nat} (ha : Small a) (hb : Small b) (p : Nat) :
    alignSkip p a + alignSkip (p + alignSkip p a) b = alignSkip p (max a b) := by
  rcases Nat.le_total a b with hab | hab
  · rw [Nat.max_eq_right hab]
    exact alignSkip_on ha hb hab p
  · rw [Nat.max_eq_left hab, alignSkip_aligned ha hb hab, Nat.add_zero]

mutual

/-- The alignments of a member are small. -/
def Member.Placed : Member → Prop
  | .scalar d _ | .string d _ | .enum d _ => Small d.align ∧ Small d.dataAlign
  | .struct d ms => (Small d.align ∧ Small d.dataAlign) ∧ MembersPlaced ms
  | .type d t => (Small d.align ∧ Small d.dataAlign) ∧ t.Placed

def MembersPlaced : List Member → Prop
  | [] => True
  | m :: ms => m.Placed ∧ MembersPlaced ms

end

theorem place_small {d d' : Decl} {nBytes : Nat} {l l' : Layout} {isTop : Bool}
    (h : d.place nBytes l isTop = .ok (d', l')) (hd : Small d.align) :
    (Small d'.align ∧ Small d'.dataAlign) ∧ (Small l.maxAlign → Small l'.maxAlign) := by
  obtain ⟨n₁, -, h⟩ := except_bind_ok h
  obtain ⟨n₂, -, h⟩ := except_bind_ok h
  cases h
  have halign : Small d.countAlign := by
    unfold Decl.countAlign
    split
    · exact Or.inr (Or.inr (Or.inl rfl))
    · exact hd
  exact ⟨⟨halign, hd⟩, fun hl => small_max hl halign⟩

theorem small_bits (t : Scalar) : Small ((t.bits + 7) / 8) := by
  unfold Small
  cases t <;> decide

mutual

/-- **`offset` places a member.** -/
theorem offset_placed : ∀ (m : Member) {isTop : Bool} {l l' : Layout} {m' : Member},
    m.unplaced → m.offset isTop l = .ok (m', l') →
      m'.Placed ∧ (Small l.maxAlign → Small l'.maxAlign)
  | .scalar d t, isTop, l, l', m', hu, h => by
    rw [Member.offset] at h
    obtain ⟨⟨d', l₁⟩, hd, h⟩ := except_bind_ok h
    cases h
    have hplaced := place_small hd (small_bits t)
    exact hplaced
  | .string d t, isTop, l, l', m', hu, h => by
    rw [Member.offset] at h
    obtain ⟨⟨d', l₁⟩, hd, h⟩ := except_bind_ok h
    cases h
    have hplaced := place_small hd (Or.inr (Or.inr (Or.inl rfl)))
    exact hplaced
  | .enum d t, isTop, l, l', m', hu, h => by
    rw [Member.offset] at h
    obtain ⟨⟨d', l₁⟩, hd, h⟩ := except_bind_ok h
    cases h
    have hplaced := place_small hd (Or.inr (Or.inr (Or.inl rfl)))
    exact hplaced
  | .struct d ms, isTop, l, l', m', hu, h => by
    rw [Member.offset] at h
    obtain ⟨⟨ms', inner⟩, hms, h⟩ := except_bind_ok h
    obtain ⟨⟨d', l₁⟩, hd, h⟩ := except_bind_ok h
    cases h
    obtain ⟨hplaced, hmax⟩ := alignMembers_placed ms hu.2 hms
    obtain ⟨hsmall, hl⟩ := place_small hd (hmax (Or.inl hu.1))
    exact ⟨⟨hsmall, hplaced⟩, hl⟩
  | .type d t, isTop, l, l', m', hu, h => by
    rw [Member.offset] at h
    obtain ⟨⟨t', inner⟩, ht, h⟩ := except_bind_ok h
    obtain ⟨⟨d', l₁⟩, hd, h⟩ := except_bind_ok h
    cases h
    obtain ⟨hplaced, hmax⟩ := offset_placed t hu.2 ht
    obtain ⟨hsmall, hl⟩ := place_small hd (hmax (Or.inl hu.1))
    exact ⟨⟨hsmall, hplaced⟩, hl⟩

theorem alignMembers_placed : ∀ (ms : List Member) {isTop : Bool} {l l' : Layout}
    {ms' : List Member}, membersUnplaced ms → alignMembers isTop l ms = .ok (ms', l') →
      MembersPlaced ms' ∧ (Small l.maxAlign → Small l'.maxAlign)
  | [], isTop, l, l', ms', _, h => by
    rw [alignMembers] at h
    cases h
    exact ⟨trivial, id⟩
  | m :: ms, isTop, l, l', ms', hu, h => by
    rw [alignMembers] at h
    obtain ⟨⟨m', l₁⟩, hm, h⟩ := except_bind_ok h
    obtain ⟨⟨ms'', l₂⟩, hms, h⟩ := except_bind_ok h
    cases h
    obtain ⟨hplaced, hmax⟩ := offset_placed m hu.1 hm
    obtain ⟨hplaced', hmax'⟩ := alignMembers_placed ms hu.2 hms
    exact ⟨⟨hplaced, hplaced'⟩, fun hl => hmax' (hmax hl)⟩

end

theorem placed_of_mem {m : Member} : ∀ {ms : List Member}, MembersPlaced ms → m ∈ ms → m.Placed
  | _ :: _, h, .head _ => h.1
  | _ :: _, h, .tail _ hm => placed_of_mem h.2 hm

/-! ## Walks that meet a verdict -/

/-- The walk takes a number of bytes that depends on the address only. -/
def Walk.Takes (w : Walk) (f : Nat → Nat) : Prop :=
  ∀ p length, w ⟨p, length⟩ =
    if length < f p then .error (.thrown exceedsBuffer) else .ok ⟨p + f p, length - f p⟩

/-- It takes bytes, or it is empty and only aligns. -/
def Walk.Ends (w : Walk) (empty : Bool) : Prop :=
  ∃ f, w.Takes f ∧ (empty = false → ∀ p, 0 < f p) ∧
    (empty = true → ∃ a, Small a ∧ ∀ p, f p = alignSkip p a)

/-- What a verdict promises. -/
def Walk.Meets (w : Walk) : Verdict → Prop
  | .bad => ∀ p, ∃ length, ¬w.Safe ⟨p, length⟩
  | .endless => ∀ s, w s = .error (.thrown exceedsBuffer)
  | .ends empty => w.Ends empty

variable {a b w : Walk} {f g : Nat → Nat} {e e' : Bool} {v v' : Verdict}

theorem andThen_run (a b : Walk) (s : Cursor) : a.andThen b s = a s >>= b := rfl

theorem Walk.Takes.run (h : w.Takes f) (s : Cursor) : w s =
    if s.length < f s.data then .error (.thrown exceedsBuffer)
    else .ok ⟨s.data + f s.data, s.length - f s.data⟩ := h s.data s.length

theorem Walk.Takes.andThen (ha : a.Takes f) (hb : b.Takes g) :
    (a.andThen b).Takes fun p => f p + g (p + f p) := by
  intro p length
  show a.andThen b ⟨p, length⟩ = if length < f p + g (p + f p) then _
    else .ok ⟨p + (f p + g (p + f p)), length - (f p + g (p + f p))⟩
  rw [andThen_run, ha]
  by_cases h₁ : length < f p
  · rw [if_pos h₁, if_pos (by omega)]
    rfl
  · rw [if_neg h₁]
    show b ⟨p + f p, length - f p⟩ = _
    rw [hb]
    by_cases h₂ : length - f p < g (p + f p)
    · rw [if_pos h₂, if_pos (by omega)]
    · rw [if_neg h₂, if_neg (by omega), Nat.add_assoc, Nat.sub_sub]

theorem ends_align {n : Nat} (hn : Small n) : (Cursor.align n : Walk).Ends true :=
  ⟨fun p => alignSkip p n, fun _ _ => rfl, nofun, fun _ => ⟨n, hn, fun _ => rfl⟩⟩

theorem ends_advance (n : Nat) : (Cursor.advance n : Walk).Ends (n == 0) := by
  refine ⟨fun _ => n, fun _ _ => rfl, fun h _ => Nat.pos_of_ne_zero (by simpa using h), ?_⟩
  intro h
  refine ⟨1, Or.inl rfl, fun p => ?_⟩
  rw [alignSkip_eq (Or.inl rfl), Nat.mod_one]
  exact eq_of_beq h

theorem ends_pure : Walk.Ends pure true := by
  refine ⟨fun _ => 0, fun _ _ => rfl, nofun, fun _ => ⟨1, Or.inl rfl, fun p => ?_⟩⟩
  rw [alignSkip_eq (Or.inl rfl), Nat.mod_one]

theorem Walk.Ends.andThen (ha : a.Ends e) (hb : b.Ends e') : (a.andThen b).Ends (e && e') := by
  obtain ⟨f, hf, hpos, hidle⟩ := ha
  obtain ⟨g, hg, hpos', hidle'⟩ := hb
  refine ⟨_, hf.andThen hg, ?_, ?_⟩
  · intro h p
    rw [Bool.and_eq_false_iff] at h
    rcases h with h | h
    · have := hpos h p
      omega
    · have := hpos' h (p + f p)
      omega
  · intro h
    rw [Bool.and_eq_true] at h
    obtain ⟨n, hn, hfn⟩ := hidle h.1
    obtain ⟨k, hk, hgk⟩ := hidle' h.2
    refine ⟨max n k, small_max hn hk, fun p => ?_⟩
    rw [hfn, hgk]
    exact alignSkip_add hn hk p

theorem bad_of_stop (stop : Stop) (h : ∀ p, ∃ length, w ⟨p, length⟩ = .error stop)
    (hstop : ∀ text, stop ≠ .thrown text) : w.Meets .bad := by
  intro p
  obtain ⟨length, hrun⟩ := h p
  refine ⟨length, fun hsafe => ?_⟩
  obtain ⟨text, htext⟩ := hsafe stop hrun
  exact hstop text htext

/-- What comes before an unsafe walk only has to be long enough. -/
theorem Walk.Ends.andThen_bad (ha : a.Ends e) (hb : b.Meets .bad) : (a.andThen b).Meets .bad := by
  obtain ⟨f, hf, -⟩ := ha
  intro p
  obtain ⟨length, hb⟩ := hb (p + f p)
  refine ⟨f p + length, fun hsafe => hb ?_⟩
  intro stop hstop
  refine hsafe stop ?_
  rw [andThen_run, hf, if_neg (by omega), Nat.add_sub_cancel_left]
  exact hstop

theorem bad_andThen (ha : a.Meets .bad) : (a.andThen b).Meets .bad := by
  intro p
  obtain ⟨length, ha⟩ := ha p
  refine ⟨length, fun hsafe => ha ?_⟩
  intro stop hstop
  refine hsafe stop ?_
  rw [andThen_run, hstop]
  rfl

/-- **One after the other.** -/
theorem Walk.Meets.andThen (ha : a.Meets v) (hb : b.Meets v') :
    (a.andThen b).Meets (v.andThen v') := by
  cases v with
  | bad => exact bad_andThen ha
  | endless =>
    intro s
    rw [andThen_run, ha s]
    rfl
  | ends e =>
    cases v' with
    | bad => exact Walk.Ends.andThen_bad ha hb
    | endless =>
      obtain ⟨f, hf, -⟩ := ha
      intro s
      rw [andThen_run, hf.run]
      split
      · rfl
      · exact hb _
    | ends e' => exact Walk.Ends.andThen ha hb

/-! ## Loops -/

theorem Walk.Ends.repeated (h : w.Ends e) : ∀ n, (w.repeated n).Ends (e || n == 0)
  | 0 => by
    rw [beq_self_eq_true, Bool.or_true]
    exact ends_pure
  | n + 1 => by
    have hboth := h.andThen (h.repeated n)
    have hempty : (e && (e || n == 0)) = (e || n + 1 == 0) := by
      cases e with
      | false => rfl
      | true => rfl
    rw [hempty] at hboth
    exact hboth

/-- Elements that take bytes exhaust the buffer. -/
theorem Walk.Takes.exhausts (h : w.Takes f) (hpos : ∀ p, 0 < f p) :
    ∀ n s, s.length < n → w.repeated n s = .error (.thrown exceedsBuffer)
  | 0, s, hn => by omega
  | n + 1, s, hn => by
    show w s >>= w.repeated n = _
    rw [h.run]
    split
    · rfl
    · have hp := hpos s.data
      exact h.exhausts hpos n _ (by show s.length - f s.data < n; omega)

/-- Elements that take no bytes never do: the first one aligns, the others stay where it led. -/
theorem Walk.Ends.stays (h : w.Ends true) (p : Nat) : ∃ length s,
    w.repeated (length + 1) ⟨p, length⟩ = .ok s := by
  obtain ⟨f, hf, -, hidle⟩ := h
  obtain ⟨a, ha, hfa⟩ := hidle rfl
  have hzero : ∀ q, f (q + f q) = 0 := by
    intro q
    rw [hfa, hfa]
    exact alignSkip_aligned ha ha (Nat.le_refl a) q
  have hrest : ∀ k, w.repeated k ⟨p + f p, 0⟩ = .ok ⟨p + f p, 0⟩ := by
    intro k
    induction k with
    | zero => rfl
    | succ k ih =>
      show w _ >>= w.repeated k = _
      rw [hf, hzero, if_neg (Nat.lt_irrefl 0)]
      exact ih
  refine ⟨f p, ⟨p + f p, 0⟩, ?_⟩
  show w _ >>= w.repeated (f p) = _
  rw [hf, if_neg (Nat.lt_irrefl _), Nat.sub_self]
  exact hrest (f p)

theorem bad_repeated (h : w.Meets .bad) {n : Nat} (hn : n ≠ 0) : (w.repeated n).Meets .bad := by
  obtain ⟨k, rfl⟩ := Nat.exists_eq_succ_of_ne_zero hn
  exact bad_andThen h

/-- A loop whose counter gets there. -/
theorem Walk.Meets.repeated (h : w.Meets v) {n : Nat} (hn : n < 2 ^ 32) :
    (w.repeated n).Meets (v.loop n) := by
  by_cases hn₀ : n = 0
  · subst hn₀
    have hverdict : v.loop 0 = .ends true := by
      cases v with
      | ends e =>
        simp only [Verdict.loop, beq_self_eq_true, Bool.or_true]
        rfl
      | bad => rfl
      | endless => rfl
    rw [hverdict]
    exact ends_pure
  · cases v with
    | bad =>
      simp only [Verdict.loop, if_neg hn₀]
      exact bad_repeated h hn₀
    | endless =>
      simp only [Verdict.loop, if_neg hn₀]
      obtain ⟨k, rfl⟩ := Nat.exists_eq_succ_of_ne_zero hn₀
      intro s
      show w s >>= w.repeated k = _
      rw [h s]
      rfl
    | ends e =>
      simp only [Verdict.loop, if_pos hn]
      exact Walk.Ends.repeated h n

/-- **A loop.** -/
theorem Walk.Meets.loop (h : w.Meets v) (n : Nat) : (w.loop n).Meets (v.loop n) := by
  unfold Walk.loop
  by_cases hn : n < 2 ^ 32
  · rw [if_pos hn]
    exact h.repeated hn
  · rw [if_neg hn]
    have hn₀ : n ≠ 0 := by omega
    cases v with
    | bad =>
      simp only [Verdict.loop, if_neg hn₀]
      intro p
      obtain ⟨length, hbad⟩ := h p
      refine ⟨length, fun hsafe => hbad ?_⟩
      intro stop hstop
      refine hsafe stop ?_
      show (w ⟨p, length⟩ >>= w.repeated length) >>= _ = _
      rw [hstop]
      rfl
    | endless =>
      simp only [Verdict.loop, if_neg hn₀]
      intro s
      show (w s >>= w.repeated s.length) >>= _ = _
      rw [h s]
      rfl
    | ends e =>
      simp only [Verdict.loop, if_neg hn]
      cases e with
      | true =>
        refine bad_of_stop .endless ?_ nofun
        intro p
        obtain ⟨length, s, hrun⟩ := Walk.Ends.stays h p
        refine ⟨length, ?_⟩
        rw [andThen_run, hrun]
        rfl
      | false =>
        obtain ⟨f, hf, hpos, -⟩ := h
        intro s
        show w.repeated (s.length + 1) s >>= _ = _
        rw [hf.exhausts (hpos rfl) _ s (by omega)]
        rfl

/-! ## Members -/

variable {memory : Memory} {d : Decl} {body : Nat → Walk}

/-- **Sequences** are read past the end of a buffer that ends at the count. -/
theorem sequence_bad (hd : d.isSequence = true) : (walkElements memory d body).Meets .bad := by
  refine bad_of_stop .outOfBounds ?_ nofun
  intro p
  refine ⟨alignSkip p d.align, ?_⟩
  unfold walkElements
  rw [if_pos hd]
  have halign : (⟨p, alignSkip p d.align⟩ : Cursor).align d.align =
      .ok ⟨p + alignSkip p d.align, 0⟩ := by
    unfold Cursor.align Cursor.advance
    rw [if_neg (Nat.lt_irrefl _), Nat.sub_self]
    rfl
  unfold walkCount
  simp only [halign]
  rfl

theorem walkElements_meets (hd : d.isSequence = false) (hs : Small d.dataAlign)
    (h : (body 1).Meets v) : (walkElements memory d body).Meets v := by
  have hrun : walkElements memory d body = (Cursor.align d.dataAlign).andThen (body 1) := by
    unfold walkElements
    rw [hd]
    rfl
  rw [hrun]
  have hboth := Walk.Meets.andThen (v := .ends true) (ends_align hs) h
  cases v with
  | ends e => exact hboth
  | bad => exact hboth
  | endless => exact hboth

theorem walkScalars_meets (hs : Small d.align) : (walkScalars d 1).Meets
    (if 2 ^ 64 ≤ d.nItems * (d.nBits / 8) then .bad else .ends (d.nItems * (d.nBits / 8) == 0)) := by
  unfold walkScalars
  rw [Nat.one_mul]
  split
  · refine Walk.Ends.andThen_bad (ends_align hs) ?_
    exact bad_of_stop _ (fun _ => ⟨0, rfl⟩) nofun
  · have hboth := (ends_align hs).andThen (ends_advance (d.nItems * (d.nBits / 8)))
    rw [Bool.true_and] at hboth
    exact hboth

/-- **Strings** are read past the end of a buffer that ends at their first byte. -/
theorem walkString_bad : (walkString memory).Meets .bad := by
  refine Walk.Ends.andThen_bad (ends_align (Or.inr (Or.inr (Or.inl rfl)))) ?_
  exact bad_of_stop _ (fun _ => ⟨0, rfl⟩) nofun

theorem one_mul_nItems : 1 * d.nItems % 2 ^ 64 = d.nItems := by
  rw [Nat.one_mul]
  exact Nat.mod_eq_of_lt (Nat.mod_lt _ (by decide))

/-- A member with a loop over its elements. -/
theorem looped_meets (hs : Small d.dataAlign) (h : w.Meets v) :
    (walkElements memory d fun nElements => w.loop (nElements * d.nItems % 2 ^ 64)).Meets
      (if d.isSequence then .bad else v.loop d.nItems) := by
  by_cases hd : d.isSequence = true
  · rw [if_pos hd]
    exact sequence_bad hd
  · rw [if_neg hd]
    refine walkElements_meets (Bool.eq_false_iff.mpr hd) hs ?_
    rw [one_mul_nItems]
    exact h.loop d.nItems

theorem scalars_meet (hs : Small d.align ∧ Small d.dataAlign) :
    (walkElements memory d (walkScalars d)).Meets
      (if d.isSequence ∨ 2 ^ 64 ≤ d.nItems * (d.nBits / 8) then .bad
      else .ends (d.nItems * (d.nBits / 8) == 0)) := by
  by_cases hd : d.isSequence = true
  · rw [if_pos (Or.inl hd)]
    exact sequence_bad hd
  · have hscalars : (walkElements memory d (walkScalars d)).Meets _ :=
      walkElements_meets (Bool.eq_false_iff.mpr hd) hs.2 (walkScalars_meets hs.1)
    by_cases hwrap : 2 ^ 64 ≤ d.nItems * (d.nBits / 8)
    · rw [if_pos hwrap] at hscalars
      rw [if_pos (Or.inr hwrap)]
      exact hscalars
    · rw [if_neg hwrap] at hscalars
      rw [if_neg (not_or.mpr ⟨hd, hwrap⟩)]
      exact hscalars

mutual

/-- **The walk over a member meets its verdict.** -/
theorem walk_meets (memory : Memory) : ∀ m : Member, m.Placed → (m.walk memory).Meets m.verdict
  | .scalar _ _, h | .enum _ _, h => scalars_meet h
  | .string _ _, h => looped_meets h.2 walkString_bad
  | .struct _ members, h => looped_meets h.1.2 (walkMembers_meets memory members h.2)
  | .type _ t, h => looped_meets h.1.2 (walk_meets memory t h.2)

theorem walkMembers_meets (memory : Memory) :
    ∀ ms : List Member, MembersPlaced ms → (walkMembers memory ms).Meets (membersVerdict ms)
  | [], _ => ends_pure
  | m :: ms, h => (walk_meets memory m h.1).andThen (walkMembers_meets memory ms h.2)

end

theorem Walk.Ends.safe (h : w.Ends e) (s : Cursor) : w.Safe s := by
  obtain ⟨f, hf, -⟩ := h
  intro stop hstop
  rw [hf.run] at hstop
  split at hstop
  · cases hstop
    exact ⟨_, rfl⟩
  · cases hstop

/-- **When a type is safe** for buffers of every length, whatever they hold. -/
theorem safe_iff (ms ms' : List Member) (isTop : Bool) (l l' : Layout) (hu : membersUnplaced ms)
    (h : alignMembers isTop l ms = .ok (ms', l')) (m : Member) (hm : m ∈ ms') (memory : Memory)
    (p : Nat) : (∀ length, (m.walk memory).Safe ⟨p, length⟩) ↔ m.verdict ≠ .bad := by
  have hmeets := walk_meets memory m (placed_of_mem (alignMembers_placed ms hu h).1 hm)
  cases hv : m.verdict with
  | bad =>
    rw [hv] at hmeets
    obtain ⟨length, hbad⟩ := hmeets p
    exact ⟨fun hsafe => absurd (hsafe length) hbad, fun h => absurd rfl h⟩
  | endless =>
    rw [hv] at hmeets
    refine ⟨fun _ => nofun, fun _ length stop hstop => ?_⟩
    rw [hmeets] at hstop
    cases hstop
    exact ⟨_, rfl⟩
  | ends e =>
    rw [hv] at hmeets
    exact ⟨fun _ => nofun, fun _ length => Walk.Ends.safe hmeets _⟩

/-! ## Walks that finish -/

/-- Where the writing walk finishes, this one finishes at the same place, unless a byte count wraps
around. -/
def Walk.Follows (w : Walk) (x : WriteM Unit) : Prop :=
  ∀ s u s', x s = .ok (u, s') →
    w ⟨s.data, s.length⟩ = .ok ⟨s'.data, s'.length⟩ ∨ w ⟨s.data, s.length⟩ = .error .wraps

variable {x y : WriteM Unit}

theorem follows_advance (n : Nat) : (Cursor.advance n : Walk).Follows (advance n) := by
  intro s u s' h
  rw [advance_run] at h
  unfold Cursor.advance
  split at h
  · cases h
  · next hn =>
    cases h
    exact Or.inl (if_neg hn)

theorem follows_align (n : Nat) : (Cursor.align n : Walk).Follows (align n) := by
  intro s u s' h
  rw [align_run] at h
  exact follows_advance (alignSkip s.data n) s u s' h

theorem Walk.Follows.andThen (ha : a.Follows x) (hb : b.Follows y) :
    (a.andThen b).Follows (x >>= fun _ => y) := by
  intro s u s'' h
  obtain ⟨_, s', hx, hy⟩ := run_bind_eq_ok h
  rw [andThen_run]
  rcases ha s _ s' hx with hrun | hrun
  · rw [hrun]
    exact hb s' u s'' hy
  · rw [hrun]
    exact Or.inr rfl

/-- Calls of the writer do not move. -/
theorem Walk.Follows.emit_bind (h : w.Follows x) (ev : Event) :
    w.Follows (emit ev >>= fun _ => x) := by
  intro s u s' hrun
  exact h { s with events := s.events ++ [ev] } u s' hrun

theorem Walk.Follows.bind_emit (h : w.Follows x) (ev : Event) :
    w.Follows (x >>= fun _ => emit ev) := by
  intro s u s' hrun
  obtain ⟨u₁, s₁, hx, hemit⟩ := run_bind_eq_ok hrun
  cases hemit
  exact h s u₁ s₁ hx

theorem follows_loopFrom {body : Nat → WriteM Unit} (h : ∀ k, w.Follows (body k)) :
    ∀ n k, (w.repeated n).Follows (loopFrom body n k)
  | 0, _ => by
    intro s u s' hrun
    cases hrun
    exact Or.inl rfl
  | n + 1, k => (h k).andThen (follows_loopFrom h n (k + 1))

theorem follows_loopElements {body : Nat → WriteM Unit} (h : ∀ k, w.Follows (body k)) (n : Nat) :
    (w.loop n).Follows (loopElements n body) := by
  intro s u s' hrun
  unfold loopElements at hrun
  unfold Walk.loop
  by_cases hn : 2 ^ 32 ≤ n
  · rw [if_pos hn] at hrun
    cases hrun
  · rw [if_neg hn] at hrun
    rw [if_pos (Nat.lt_of_not_le hn)]
    exact follows_loopFrom h n 0 s u s' hrun

theorem onlyIf_emit_ok {c : Prop} [Decidable c] {ev : Event} {s s' : Decoding Event} {u : Unit}
    (h : onlyIf c (emit ev) s = .ok (u, s')) : s'.data = s.data ∧ s'.length = s.length := by
  unfold onlyIf at h
  split at h
  · rw [emit_run] at h
    cases h
    exact ⟨rfl, rfl⟩
  · cases h
    exact ⟨rfl, rfl⟩

/-- The end of `writeElements` behind the count. -/
theorem follows_rest {x : WriteM Unit} (h : w.Follows x) :
    ((Cursor.align d.dataAlign).andThen w).Follows (do
      onlyIf (d.arrayDimensions ≠ []) (emit (.beginArray d d.nItems))
      align d.dataAlign
      x
      onlyIf d.isSequence (emit (.endSequence d))
      onlyIf (d.arrayDimensions ≠ []) (emit (.endArray d))) := by
  intro s u s' hrun
  obtain ⟨u₁, s₁, h₁, hrun⟩ := run_bind_eq_ok hrun
  obtain ⟨u₂, s₂, h₂, hrun⟩ := run_bind_eq_ok hrun
  obtain ⟨u₃, s₃, h₃, hrun⟩ := run_bind_eq_ok hrun
  obtain ⟨u₄, s₄, h₄, h₅⟩ := run_bind_eq_ok hrun
  have hbefore := onlyIf_emit_ok h₁
  have hafter := onlyIf_emit_ok h₄
  have hend := onlyIf_emit_ok h₅
  have hboth : ((Cursor.align d.dataAlign).andThen w).Follows (align d.dataAlign >>= fun _ => x) :=
    (follows_align d.dataAlign).andThen h
  have hmid := hboth s₁ u₃ s₃ ((run_bind_ok h₂).trans h₃)
  rw [hend.1, hend.2, hafter.1, hafter.2, ← hbefore.1, ← hbefore.2]
  exact hmid

theorem ok_bind {α β : Type} (v : α) (f : α → Except Stop β) : (.ok v >>= f) = f v := rfl

/-- The count of a sequence that is written lies inside the buffer. -/
theorem walkCount_of_write (hd : 4 ≤ d.align) {s s' : Decoding Event} {v : Option Nat}
    (hrun : (do
      align d.align
      let nElements := wordOf (readBytes memory (← get).data 4)
      writeSequence d nElements) s = .ok (v, s')) :
    ∃ n, walkCount memory d ⟨s.data, s.length⟩ = .ok (n, ⟨s'.data, s'.length⟩) ∧
      v = if n = 0 then none else some n := by
  obtain ⟨u, s₁, halign, hrun⟩ := run_bind_eq_ok hrun
  rw [run_get_bind] at hrun
  have hcursor : (⟨s.data, s.length⟩ : Cursor).align d.align = .ok ⟨s₁.data, s₁.length⟩ := by
    rcases follows_align d.align s u s₁ halign with hok | hwraps
    · exact hok
    · unfold Cursor.align Cursor.advance at hwraps
      split at hwraps
      · cases hwraps
      · cases hwraps
  by_cases hn : d.sequenceLength ≠ 0 ∧ d.sequenceLength < wordOf (readBytes memory s₁.data 4)
  · unfold writeSequence at hrun
    rw [if_pos hn] at hrun
    cases hrun
  by_cases hle : d.align ≤ s₁.length
  · rw [writeSequence_ok hn hle] at hrun
    cases hrun
    refine ⟨wordOf (readBytes memory s₁.data 4), ?_, rfl⟩
    have hfetch : (⟨s₁.data, s₁.length⟩ : Cursor).fetch 4 = .ok ⟨s₁.data, s₁.length⟩ := by
      unfold Cursor.fetch
      rw [if_neg (by show ¬s₁.length < 4; omega)]
      rfl
    have hadv : (⟨s₁.data, s₁.length⟩ : Cursor).advance d.align =
        .ok ⟨s₁.data + d.align, s₁.length - d.align⟩ := by
      unfold Cursor.advance
      rw [if_neg (by show ¬s₁.length < d.align; omega)]
      rfl
    unfold walkCount
    rw [hcursor, ok_bind, hfetch, ok_bind]
    dsimp only
    rw [if_neg hn, hadv, ok_bind]
    rfl
  · unfold writeSequence at hrun
    rw [if_neg hn, run_bind_ok (emit_run _ s₁)] at hrun
    obtain ⟨u', s₂, hadv, -⟩ := run_bind_eq_ok hrun
    rw [advance_run, if_pos (Nat.lt_of_not_le hle)] at hadv
    cases hadv

theorem follows_writeElements {body' : Nat → WriteM Unit} (hd : d.isSequence → 4 ≤ d.align)
    (h : ∀ n, (body n).Follows (body' (n * d.nItems % 2 ^ 64))) :
    (walkElements memory d body).Follows (writeElements memory d false body') := by
  intro s u s' hrun
  unfold writeElements at hrun
  obtain ⟨v, s₁, hcount, hrun⟩ := run_bind_eq_ok hrun
  unfold writeCount at hcount
  unfold walkElements
  by_cases hseq : d.isSequence = true
  · rw [if_pos hseq, if_neg (by decide)] at hcount
    rw [if_pos hseq]
    obtain ⟨n, hwalk, rfl⟩ := walkCount_of_write (hd hseq) hcount
    rw [hwalk, ok_bind]
    dsimp only
    by_cases hn : n = 0
    · rw [if_pos hn] at hrun ⊢
      cases hrun
      exact Or.inl rfl
    · rw [if_neg hn] at hrun ⊢
      exact follows_rest (h n) s₁ u s' hrun
  · rw [if_neg hseq] at hcount
    rw [if_neg hseq]
    cases hcount
    exact follows_rest (h 1) s u s' hrun

theorem follows_writeScalars (n : Nat) :
    (walkScalars d n).Follows (writeScalars memory d (n * d.nItems % 2 ^ 64)) := by
  intro s u s' hrun
  unfold writeScalars at hrun
  obtain ⟨u₁, s₁, halign, hrun⟩ := run_bind_eq_ok hrun
  rw [run_get_bind] at hrun
  obtain ⟨u₂, s₂, hadv, hemit⟩ := run_bind_eq_ok hrun
  cases hemit
  unfold walkScalars
  rw [andThen_run]
  rcases follows_align d.align s u₁ s₁ halign with hok | hwraps
  · rw [hok]
    show (if 2 ^ 64 ≤ n * d.nItems * (d.nBits / 8) then fun _ => throw Stop.wraps
      else Cursor.advance (n * d.nItems * (d.nBits / 8)) : Walk) ⟨s₁.data, s₁.length⟩ = _ ∨ _
    by_cases hw : 2 ^ 64 ≤ n * d.nItems * (d.nBits / 8)
    · rw [if_pos hw]
      exact Or.inr rfl
    · rw [if_neg hw]
      rw [Nat.mod_mul_mod, Nat.mod_eq_of_lt (Nat.lt_of_not_le hw)] at hadv
      exact follows_advance _ s₁ u₂ s₂ hadv
  · rw [hwraps]
    exact Or.inr rfl

theorem follows_writeString (first : Bool) :
    (walkString memory).Follows (writeString memory d first) := by
  intro s u s' hrun
  unfold writeString at hrun
  obtain ⟨u₁, s₁, halign, hrun⟩ := run_bind_eq_ok hrun
  rw [run_get_bind] at hrun
  obtain ⟨u₂, s₂, hadv, hemit⟩ := run_bind_eq_ok hrun
  cases hemit
  unfold walkString
  rw [andThen_run]
  rcases follows_align 4 s u₁ s₁ halign with hok | hwraps
  · rw [hok]
    rw [advance_run] at hadv
    by_cases hle : s₁.length < strlen memory s₁.data s₁.length + 1
    · rw [if_pos hle] at hadv
      cases hadv
    · rw [if_neg hle] at hadv
      cases hadv
      have hfetch : (⟨s₁.data, s₁.length⟩ : Cursor).fetch (strlen memory s₁.data s₁.length + 1) =
          .ok ⟨s₁.data, s₁.length⟩ := by
        unfold Cursor.fetch
        rw [if_neg hle]
        rfl
      refine Or.inl ?_
      rw [ok_bind]
      dsimp only
      rw [hfetch, ok_bind]
      unfold Cursor.advance
      rw [if_neg hle]
      rfl
  · rw [hwraps]
    exact Or.inr rfl

mutual

/-- **What finishes has read only bytes inside** the buffer, if no byte count wraps around. -/
theorem walk_follows (memory : Memory) :
    ∀ m : Member, m.aligned → (m.walk memory).Follows (m.write memory false)
  | .scalar _ _, h | .enum _ _, h => follows_writeElements h follows_writeScalars
  | .string _ _, h => follows_writeElements h fun _ =>
    follows_loopElements (fun k => follows_writeString (k == 0)) _
  | .struct d members, h => follows_writeElements h.1 fun _ =>
    ((follows_loopElements (fun _ => walkMembers_follows memory members h.2) _).bind_emit
      (.endStruct d)).emit_bind (.beginStruct d)
  | .type d t, h => follows_writeElements h.1 fun _ =>
    ((follows_loopElements (fun _ => walk_follows memory t h.2) _).bind_emit
      (.endType d)).emit_bind (.beginType d)

theorem walkMembers_follows (memory : Memory) : ∀ ms : List Member, membersAligned ms →
    (walkMembers memory ms).Follows (writeMembers memory false ms)
  | [], _ => by
    intro s u s' hrun
    cases hrun
    exact Or.inl rfl
  | m :: ms, h => (walk_follows memory m h.1).andThen (walkMembers_follows memory ms h.2)

end

/-! ## Samples -/

/-- A pair of numbers. -/
def pair : Member :=
  .struct (plain 112 false) [.scalar (plain 97 false) .ulong, .scalar (plain 98 false) .double]

/-- A pair of numbers is read only inside the buffer. -/
example : ∃ m l', alignMembers false noLayout [pair] = .ok ([m], l') ∧
    ∀ length, (m.walk fun _ => 1).Safe ⟨0, length⟩ := by
  refine ⟨_, _, rfl, ?_⟩
  refine (safe_iff [pair] _ false noLayout _ ⟨⟨rfl, rfl, rfl, trivial⟩, trivial⟩ rfl _
    (List.mem_singleton.mpr rfl) (fun _ => 1) 0).mpr ?_
  decide

/-- 2^61 numbers of 64 bits. -/
def manyNumbers : Member :=
  .scalar { plain 97 false with arrayDimensions := [2305843009213693952] } .double

theorem alignMembers_manyNumbers : alignMembers false noLayout [manyNumbers] =
    .ok ([.scalar ⟨[97], [2305843009213693952], false, 0, 8, 8, 64, 0, 0⟩ .double],
      ⟨8, 0, 64, false, false, false⟩) := by
  simp [alignMembers, Member.offset, Decl.place, Decl.itemBytes, arrayBytes, Decl.sequenceBytes,
    roundUp, UINT32_MAX, manyNumbers, plain, noLayout, Layout.element, Scalar.bits, Decl.countAlign,
    bind, Except.bind, pure, Except.pure]

/-- The count of a sequence in a buffer of two bytes, a string without an end, and an array whose
byte count wraps around. -/
theorem unsafe_samples :
    (∃ m l', alignMembers false noLayout [ulongSequence] = .ok ([m], l') ∧
      ¬(m.walk fun _ => 1).Safe ⟨0, 2⟩) ∧
    (∃ m l', alignMembers false noLayout [.string (plain 97 false) 10] = .ok ([m], l') ∧
      ¬(m.walk fun _ => 1).Safe ⟨0, 2⟩) ∧
    (∃ m l', alignMembers false noLayout [manyNumbers] = .ok ([m], l') ∧
      ¬(m.walk fun _ => 1).Safe ⟨0, 2⟩) := by
  refine ⟨⟨_, _, rfl, ?_⟩, ⟨_, _, rfl, ?_⟩, ⟨_, _, alignMembers_manyNumbers, ?_⟩⟩
  · intro hsafe
    obtain ⟨text, htext⟩ := hsafe .outOfBounds (by decide)
    cases htext
  · intro hsafe
    obtain ⟨text, htext⟩ := hsafe .outOfBounds (by decide)
    cases htext
  · intro hsafe
    obtain ⟨text, htext⟩ := hsafe .wraps (by decide)
    cases htext

end OpenCpi.Value
