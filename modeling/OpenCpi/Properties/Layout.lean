import OpenCpi.Properties.Walk
import OpenCpi.Value.Layout

/-!
# What `offset` computes

The sizes that `offset` stores are those of the types as long as no product of it exceeds 64 bits. The
checks against 4 gigabytes are made after the multiplications: a product that wraps around passes them.
-/

namespace OpenCpi.Value

variable {d d' : Decl} {l l' : Layout} {isTop : Bool} {align size n r : Nat}

/-! ## Arithmetic -/

theorem le_roundUp (h : 0 < align) (n : Nat) : n ≤ roundUp n align := by
  have hdiv := Nat.div_add_mod (n + (align - 1)) align
  have hmod := Nat.mod_lt (n + (align - 1)) h
  unfold roundUp
  rw [Nat.mul_comm]
  omega

theorem dvd_roundUp (n align : Nat) : align ∣ roundUp n align := Nat.dvd_mul_left _ _

theorem roundUp_zero (align : Nat) : roundUp 0 align = 0 := by
  unfold roundUp
  cases align with
  | zero => rfl
  | succ n => rw [Nat.div_eq_of_lt (by omega), Nat.zero_mul]

theorem prod_pos : ∀ {dims : List Nat}, (∀ k ∈ dims, 0 < k ∧ k < 2 ^ 64) → 0 < dims.prod
  | [], _ => Nat.one_pos
  | k :: dims, h => by
    rw [List.prod_cons]
    exact Nat.mul_pos (h k List.mem_cons_self).1
      (prod_pos fun k hk => h k (List.mem_cons_of_mem _ hk))

theorem arrayBytes_le : ∀ {dims : List Nat} {n : Nat}, n ≤ UINT32_MAX → arrayBytes dims n = .ok r →
    r ≤ UINT32_MAX
  | [], n, hn, h => by
    cases h
    exact hn
  | k :: dims, n, _, h => by
    rw [arrayBytes] at h
    by_cases hbig : UINT32_MAX < n * k % 2 ^ 64
    · rw [if_pos hbig] at h
      cases h
    · rw [if_neg hbig] at h
      exact arrayBytes_le (by omega) h

theorem arrayBytes_eq : ∀ {dims : List Nat} {n : Nat}, (∀ k ∈ dims, 0 < k ∧ k < 2 ^ 64) →
    n * dims.prod < 2 ^ 64 → arrayBytes dims n = .ok r → r = n * dims.prod
  | [], n, _, _, h => by
    cases h
    exact (Nat.mul_one _).symm
  | k :: dims, n, hdims, hlt, h => by
    have htail : ∀ k ∈ dims, 0 < k ∧ k < 2 ^ 64 := fun k hk => hdims k (List.mem_cons_of_mem _ hk)
    rw [List.prod_cons, ← Nat.mul_assoc] at hlt
    have hle : n * k ≤ n * k * dims.prod := Nat.le_mul_of_pos_right _ (prod_pos htail)
    have hmod : n * k % 2 ^ 64 = n * k := Nat.mod_eq_of_lt (by omega)
    rw [arrayBytes, hmod] at h
    by_cases hbig : UINT32_MAX < n * k
    · rw [if_pos hbig] at h
      cases h
    · rw [if_neg hbig] at h
      rw [arrayBytes_eq htail hlt h, List.prod_cons, Nat.mul_assoc]

/-! ## One member -/

theorem countAlign_eq (d : Decl) : d.countAlign = d.alignment d.align := by
  unfold Decl.countAlign Decl.alignment
  cases d.isSequence with
  | false => rfl
  | true =>
    by_cases h : d.align < 4
    · simp only [Bool.true_and, h, decide_true, if_true]
      omega
    · simp only [Bool.true_and, h, decide_false, Bool.false_eq_true, if_false, if_true]
      omega

theorem itemBytes_le (h : d.itemBytes n = .ok r) : r ≤ UINT32_MAX ∧ n ≤ UINT32_MAX := by
  unfold Decl.itemBytes at h
  by_cases hn : UINT32_MAX < n
  · rw [if_pos hn] at h
    cases h
  rw [if_neg hn] at h
  refine ⟨?_, by omega⟩
  cases hdims : d.arrayDimensions with
  | nil =>
    rw [hdims, List.isEmpty_nil, if_pos rfl] at h
    cases h
    omega
  | cons k dims =>
    rw [hdims, List.isEmpty_cons, if_neg Bool.false_ne_true, arrayBytes] at h
    by_cases hbig : UINT32_MAX < roundUp n d.align * k % 2 ^ 64
    · rw [if_pos hbig] at h
      cases h
    · rw [if_neg hbig] at h
      exact arrayBytes_le (by omega) h

theorem itemBytes_eq (hp : d.Parsed) (hn : d.NoWrap d.align n) (h : d.itemBytes n = .ok r) :
    r = d.itemSize d.align n := by
  have hle := (itemBytes_le h).2
  unfold Decl.itemBytes at h
  rw [if_neg (by omega)] at h
  unfold Decl.itemSize
  by_cases hdims : d.arrayDimensions = []
  · rw [hdims, List.isEmpty_nil, if_pos rfl] at h
    cases h
    rw [if_pos hdims]
  · rw [if_neg (by simpa using hdims)] at h
    rw [if_neg hdims]
    exact arrayBytes_eq hp.dimensions (hn.array hdims) h

/-- A check against 4 gigabytes was passed. -/
theorem checked_ok {text : String}
    (h : (if UINT32_MAX < n then Except.error text else .ok n) = Except.ok r) :
    r = n ∧ r ≤ UINT32_MAX := by
  by_cases hbig : UINT32_MAX < n
  · rw [if_pos hbig] at h
    cases h
  · rw [if_neg hbig] at h
    cases h
    omega

theorem sequenceBytes_le {argOffset : Nat} (hn : n ≤ UINT32_MAX)
    (h : d.sequenceBytes n argOffset isTop = .ok r) : r ≤ UINT32_MAX := by
  unfold Decl.sequenceBytes at h
  by_cases hs : d.isSequence = true
  · rw [if_pos hs] at h
    exact (checked_ok h).2
  · rw [if_neg hs] at h
    cases h
    exact hn

theorem sequenceBytes_eq {argOffset : Nat} (hle : d.itemSize d.align n ≤ UINT32_MAX)
    (hn : d.NoWrap d.align n)
    (h : d.sequenceBytes (d.itemSize d.align n) argOffset isTop = .ok r) :
    r = d.size (!isTop || decide (argOffset ≠ 0)) d.align n := by
  unfold Decl.sequenceBytes at h
  unfold Decl.size
  by_cases hs : d.isSequence = true
  · have hwrap := hn.sequence hs
    have hmod : d.itemSize d.align n % 2 ^ 32 = d.itemSize d.align n :=
      Nat.mod_eq_of_lt (by unfold UINT32_MAX at hle; omega)
    have hroom : (if d.sequenceLength ≠ 0 then
        roundUp (d.itemSize d.align n) d.align * d.sequenceLength % 2 ^ 64
        else roundUp (d.itemSize d.align n) d.align) =
          roundUp (d.itemSize d.align n) d.align * d.room := by
      unfold Decl.room at hwrap ⊢
      by_cases hz : d.sequenceLength = 0
      · rw [if_neg (by omega), if_pos hz, Nat.mul_one]
      · rw [if_neg hz] at hwrap
        rw [if_pos hz, if_neg hz, Nat.mod_eq_of_lt (by omega)]
    have halign : max d.countAlign 4 = d.alignment d.align := by
      rw [countAlign_eq, Decl.alignment, if_pos hs, Nat.max_assoc, Nat.max_self]
    rw [if_pos hs] at h
    dsimp only at h
    rw [hmod, hroom, halign] at h
    rw [if_pos hs]
    by_cases hc : (!isTop || decide (argOffset ≠ 0)) = true
    · rw [if_pos hc, Nat.mod_eq_of_lt hwrap] at h
      rw [if_pos hc]
      exact (checked_ok h).1
    · rw [if_neg hc] at h
      rw [if_neg hc, Nat.add_zero]
      exact (checked_ok h).1
  · rw [if_neg hs] at h
    rw [if_neg hs]
    cases h
    rfl

/-- What `offset` does to a member once it has the bytes of an element. -/
theorem place_spec (h : d.place n l isTop = .ok (d', l')) :
    d'.nBytes ≤ UINT32_MAX ∧ d'.align = d.alignment d.align ∧ d'.dataAlign = d.align ∧
      d'.offset = roundUp l.argOffset d'.align ∧ l'.argOffset = d'.offset + d'.nBytes ∧
      l'.maxAlign = max l.maxAlign d'.align := by
  obtain ⟨n₁, hitem, h⟩ := except_bind_ok h
  obtain ⟨n₂, hseq, h⟩ := except_bind_ok h
  have hle := sequenceBytes_le (itemBytes_le hitem).1 hseq
  cases h
  refine ⟨Nat.le_trans (Nat.mod_le _ _) hle, countAlign_eq d, rfl, rfl, rfl, rfl⟩

/-- The bytes of the member are right unless they wrap around. -/
theorem place_size (hp : d.Parsed) (hn : d.NoWrap d.align n) (h : d.place n l isTop = .ok (d', l')) :
    d'.nBytes = d.size (!isTop || decide (l.argOffset ≠ 0)) d.align n := by
  obtain ⟨n₁, hitem, h⟩ := except_bind_ok h
  obtain ⟨n₂, hseq, h⟩ := except_bind_ok h
  have hitemLe := (itemBytes_le hitem).1
  have hle := sequenceBytes_le hitemLe hseq
  rw [itemBytes_eq hp hn hitem] at hseq hitemLe
  have hsize := sequenceBytes_eq hitemLe hn hseq
  cases h
  rw [← hsize]
  exact Nat.mod_eq_of_lt (by unfold UINT32_MAX at hle; omega)

/-! ## Trees -/

mutual

/-- The alignments are those of the types. -/
theorem offset_align : ∀ (m : Member) {isTop : Bool} {l l' : Layout} {m' : Member}, m.unplaced →
    m.offset isTop l = .ok (m', l') →
      m'.decl.align = m.alignment ∧ l'.maxAlign = max l.maxAlign m.alignment
  | .scalar d t, isTop, l, l', m', _, h | .string d t, isTop, l, l', m', _, h
  | .enum d t, isTop, l, l', m', _, h => by
    rw [Member.offset] at h
    obtain ⟨⟨d', l₁⟩, hd, h⟩ := except_bind_ok h
    cases h
    obtain ⟨-, halign, -, -, -, hmax⟩ := place_spec hd
    rw [halign] at hmax
    exact ⟨halign, hmax⟩
  | .struct d ms, isTop, l, l', m', hu, h => by
    rw [Member.offset] at h
    obtain ⟨⟨ms', inner⟩, hms, h⟩ := except_bind_ok h
    obtain ⟨⟨d', l₁⟩, hd, h⟩ := except_bind_ok h
    cases h
    obtain ⟨-, halign, -, -, -, hmax⟩ := place_spec hd
    have hinner := alignMembers_align ms hu.2 hms
    dsimp only at halign hinner
    rw [hinner, hu.1] at halign
    rw [halign] at hmax
    exact ⟨halign, hmax⟩
  | .type d t, isTop, l, l', m', hu, h => by
    rw [Member.offset] at h
    obtain ⟨⟨t', inner⟩, ht, h⟩ := except_bind_ok h
    obtain ⟨⟨d', l₁⟩, hd, h⟩ := except_bind_ok h
    cases h
    obtain ⟨-, halign, -, -, -, hmax⟩ := place_spec hd
    have hinner := (offset_align t hu.2 ht).2
    dsimp only at halign hinner
    rw [hinner, hu.1] at halign
    rw [halign] at hmax
    exact ⟨halign, hmax⟩

theorem alignMembers_align : ∀ (ms : List Member) {isTop : Bool} {l l' : Layout} {ms' : List Member},
    membersUnplaced ms → alignMembers isTop l ms = .ok (ms', l') →
      l'.maxAlign = membersAlign l.maxAlign ms
  | [], isTop, l, l', ms', _, h => by
    rw [alignMembers] at h
    cases h
    rfl
  | m :: ms, isTop, l, l', ms', hu, h => by
    rw [alignMembers] at h
    obtain ⟨⟨m', l₁⟩, hm, h⟩ := except_bind_ok h
    obtain ⟨⟨ms'', l₂⟩, hms, h⟩ := except_bind_ok h
    cases h
    rw [alignMembers_align ms hu.2 hms, (offset_align m hu.1 hm).2, membersAlign]
    rfl

end

/-- A member whose sizes are those of its type. -/
structure LaidOut (counted : Bool) (m m' : Member) (l l' : Layout) : Prop where
  bytes : m'.nBytesList = m.sizes counted
  size : m'.decl.nBytes = m.size counted
  argOffset : l'.argOffset = roundUp l.argOffset m.alignment + m.size counted

/-- The sizes of members in a struct. -/
theorem argumentSizes_false : ∀ (ms : List Member) (argOffset : Nat),
    argumentSizes false argOffset ms = membersSizes ms
  | [], _ => rfl
  | m :: ms, argOffset => by
    rw [argumentSizes, membersSizes, argumentSizes_false ms]
    rfl

/-- The declarations agree in what the parser sets. -/
structure Decl.Same (d e : Decl) : Prop where
  dimensions : e.arrayDimensions = d.arrayDimensions
  isSequence : e.isSequence = d.isSequence
  sequenceLength : e.sequenceLength = d.sequenceLength

theorem Decl.Same.size_eq {e : Decl} (h : d.Same e) (counted : Bool) (align size : Nat) :
    e.size counted align size = d.size counted align size := by
  unfold Decl.size Decl.itemSize Decl.room Decl.alignment
  rw [h.dimensions, h.isSequence, h.sequenceLength]

theorem Decl.Same.noWrap {e : Decl} (h : d.Same e) (hn : d.NoWrap align size) :
    e.NoWrap align size := by
  obtain ⟨harray, hsequence⟩ := hn
  unfold Decl.itemSize Decl.room Decl.alignment at hsequence
  refine ⟨?_, ?_⟩
  · rw [h.dimensions]
    exact harray
  · unfold Decl.itemSize Decl.room Decl.alignment
    rw [h.dimensions, h.isSequence, h.sequenceLength]
    exact hsequence

theorem place_laidOut {e : Decl} (h : e.place size l isTop = .ok (d', l')) (hsame : d.Same e)
    (hp : d.Parsed) (halign : e.align = align) (hn : d.NoWrap align size) :
    d'.nBytes = d.size (!isTop || decide (l.argOffset ≠ 0)) align size ∧
      l'.argOffset = roundUp l.argOffset (d.alignment align) +
        d.size (!isTop || decide (l.argOffset ≠ 0)) align size := by
  have hp' : e.Parsed := ⟨hsame.dimensions ▸ hp.dimensions, hsame.sequenceLength ▸ hp.sequenceLength⟩
  have hn' : e.NoWrap e.align size := by
    rw [halign]
    exact hsame.noWrap hn
  have hsize := place_size hp' hn' h
  obtain ⟨-, hal, -, hoffset, harg, -⟩ := place_spec h
  have halignment : e.alignment e.align = d.alignment align := by
    unfold Decl.alignment
    rw [hsame.isSequence, halign]
  rw [halign, hsame.size_eq] at hsize
  refine ⟨hsize, ?_⟩
  rw [harg, hoffset, hal, halignment, hsize]

mutual

/-- **`offset` computes the size of the type** unless a product wraps around. -/
theorem offset_laidOut : ∀ (m : Member) {isTop : Bool} {l l' : Layout} {m' : Member}, m.unplaced →
    m.Parsed → m.NoWrap → m.offset isTop l = .ok (m', l') →
      LaidOut (!isTop || decide (l.argOffset ≠ 0)) m m' l l'
  | .scalar d t, isTop, l, l', m', hu, hp, hn, h => by
    rw [Member.offset] at h
    obtain ⟨⟨d', l₁⟩, hd, h⟩ := except_bind_ok h
    cases h
    obtain ⟨hsize, harg⟩ := place_laidOut (d := d) hd ⟨rfl, rfl, rfl⟩ hp rfl hn
    exact ⟨congrArg (fun n => [n]) hsize, hsize, harg⟩
  | .enum d t, isTop, l, l', m', hu, hp, hn, h => by
    rw [Member.offset] at h
    obtain ⟨⟨d', l₁⟩, hd, h⟩ := except_bind_ok h
    cases h
    obtain ⟨hsize, harg⟩ := place_laidOut (d := d) hd ⟨rfl, rfl, rfl⟩ hp rfl hn
    exact ⟨congrArg (fun n => [n]) hsize, hsize, harg⟩
  | .string d t, isTop, l, l', m', hu, hp, hn, h => by
    rw [Member.offset] at h
    obtain ⟨⟨d', l₁⟩, hd, h⟩ := except_bind_ok h
    cases h
    have hmod : (t + 4) / 4 * 4 % 2 ^ 64 = (t + 4) / 4 * 4 := by
      have := hn.1
      exact Nat.mod_eq_of_lt (by omega)
    rw [hmod] at hd
    obtain ⟨hsize, harg⟩ := place_laidOut (d := d) hd ⟨rfl, rfl, rfl⟩ hp.1 rfl hn.2
    exact ⟨congrArg (fun n => [n]) hsize, hsize, harg⟩
  | .struct d ms, isTop, l, l', m', hu, hp, hn, h => by
    rw [Member.offset] at h
    obtain ⟨⟨ms', inner⟩, hms, h⟩ := except_bind_ok h
    obtain ⟨⟨d', l₁⟩, hd, h⟩ := except_bind_ok h
    cases h
    obtain ⟨hbytes, hend⟩ := alignMembers_laidOut ms hu.2 hp.2.2 hn.1 hms
    have hmax := alignMembers_align ms hu.2 hms
    have hstart := hend rfl
    dsimp only at hbytes hmax hstart
    rw [hu.1] at hmax
    rw [hstart] at hd
    obtain ⟨hsize, harg⟩ := place_laidOut (d := d) hd ⟨rfl, rfl, rfl⟩ hp.1 hmax hn.2
    rw [argumentSizes_false] at hbytes
    refine ⟨?_, hsize, harg⟩
    rw [Member.nBytesList, Member.sizes, hbytes]
    exact congrArg (· :: membersSizes ms) hsize
  | .type d t, isTop, l, l', m', hu, hp, hn, h => by
    rw [Member.offset] at h
    obtain ⟨⟨t', inner⟩, ht, h⟩ := except_bind_ok h
    obtain ⟨⟨d', l₁⟩, hd, h⟩ := except_bind_ok h
    cases h
    have hlaid := offset_laidOut t hu.2 hp.2.2 hn.1 ht
    have hmax := (offset_align t hu.2 ht).2
    have hstart := hlaid.argOffset
    dsimp only at hmax hstart
    rw [hu.1] at hmax
    rw [roundUp_zero, Nat.zero_add] at hstart
    rw [hstart] at hd
    obtain ⟨hsize, harg⟩ := place_laidOut (d := d) hd ⟨rfl, rfl, rfl⟩ hp.1 hmax hn.2
    refine ⟨?_, hsize, harg⟩
    rw [Member.nBytesList, Member.sizes, hlaid.bytes]
    exact congrArg (· :: t.sizes true) hsize

theorem alignMembers_laidOut : ∀ (ms : List Member) {isTop : Bool} {l l' : Layout}
    {ms' : List Member}, membersUnplaced ms → membersParsed ms → membersNoWrap ms →
    alignMembers isTop l ms = .ok (ms', l') →
      membersBytes ms' = argumentSizes isTop l.argOffset ms ∧
        (isTop = false → l'.argOffset = membersEnd l.argOffset ms)
  | [], isTop, l, l', ms', _, _, _, h => by
    rw [alignMembers] at h
    cases h
    exact ⟨rfl, fun _ => rfl⟩
  | m :: ms, isTop, l, l', ms', hu, hp, hn, h => by
    rw [alignMembers] at h
    obtain ⟨⟨m', l₁⟩, hm, h⟩ := except_bind_ok h
    obtain ⟨⟨ms'', l₂⟩, hms, h⟩ := except_bind_ok h
    cases h
    have hlaid := offset_laidOut m hu.1 hp.1 hn.1 hm
    obtain ⟨hbytes, hend⟩ := alignMembers_laidOut ms hu.2 hp.2 hn.2 hms
    refine ⟨?_, ?_⟩
    · rw [membersBytes, hlaid.bytes, hbytes, hlaid.argOffset, argumentSizes]
    · intro hTop
      rw [hend hTop, hlaid.argOffset, membersEnd, hTop]
      rfl

end

/-! ## Ranges -/

theorem alignment_bounds (d : Decl) (h : 0 < align ∧ align ≤ 8) :
    0 < d.alignment align ∧ d.alignment align ≤ 8 := by
  unfold Decl.alignment
  by_cases hs : d.isSequence = true
  · rw [if_pos hs]
    omega
  · rw [if_neg hs]
    exact h

mutual

theorem elementAlign_bounds : ∀ m : Member, 0 < m.elementAlign ∧ m.elementAlign ≤ 8
  | .scalar _ t => by
    rw [Member.elementAlign]
    cases t <;> decide
  | .string _ _ => by
    rw [Member.elementAlign]
    decide
  | .enum _ _ => by
    rw [Member.elementAlign]
    decide
  | .struct _ ms => membersAlign_bounds ms (by decide : 0 < 1 ∧ 1 ≤ 8)
  | .type _ t => by
    have ht := alignment_bounds t.decl (elementAlign_bounds t)
    rw [Member.elementAlign]
    omega

theorem membersAlign_bounds : ∀ (ms : List Member) {align : Nat}, 0 < align ∧ align ≤ 8 →
    0 < membersAlign align ms ∧ membersAlign align ms ≤ 8
  | [], _, h => h
  | m :: ms, align, h => by
    have hm := alignment_bounds m.decl (elementAlign_bounds m)
    rw [membersAlign]
    exact membersAlign_bounds ms (by omega)

end

theorem alignment_pos (m : Member) : 0 < m.alignment :=
  (alignment_bounds m.decl (elementAlign_bounds m)).1

/-- A member in its place. -/
structure InPlace (m' : Member) (l l' : Layout) : Prop where
  small : ∀ n ∈ m'.nBytesList, n ≤ UINT32_MAX
  ordered : m'.Ordered
  aligned : m'.decl.align ∣ m'.decl.offset
  start : l.argOffset ≤ m'.decl.offset
  stop : m'.decl.offset + m'.decl.nBytes ≤ l'.argOffset

theorem place_inPlace {m : Member} (halign : d'.align = m.alignment)
    (h : d.place size l isTop = .ok (d', l')) :
    d'.nBytes ≤ UINT32_MAX ∧ d'.align ∣ d'.offset ∧ l.argOffset ≤ d'.offset ∧
      d'.offset + d'.nBytes ≤ l'.argOffset := by
  obtain ⟨hsmall, -, -, hoffset, harg, -⟩ := place_spec h
  refine ⟨hsmall, ?_, ?_, harg ▸ Nat.le_refl _⟩
  · rw [hoffset]
    exact dvd_roundUp _ _
  · rw [hoffset, halign]
    exact le_roundUp (alignment_pos m) _

mutual

/-- **`offset` puts members into aligned places.** -/
theorem offset_inPlace : ∀ (m : Member) {isTop : Bool} {l l' : Layout} {m' : Member}, m.unplaced →
    m.offset isTop l = .ok (m', l') → InPlace m' l l'
  | .scalar d t, isTop, l, l', m', hu, h | .string d t, isTop, l, l', m', hu, h
  | .enum d t, isTop, l, l', m', hu, h => by
    have halign := (offset_align _ hu h).1
    rw [Member.offset] at h
    obtain ⟨⟨d', l₁⟩, hd, h⟩ := except_bind_ok h
    cases h
    obtain ⟨hsmall, haligned, hstart, hstop⟩ := place_inPlace halign hd
    exact ⟨fun n hn => List.mem_singleton.mp hn ▸ hsmall, trivial, haligned, hstart, hstop⟩
  | .struct d ms, isTop, l, l', m', hu, h => by
    have halign := (offset_align _ hu h).1
    rw [Member.offset] at h
    obtain ⟨⟨ms', inner⟩, hms, h⟩ := except_bind_ok h
    obtain ⟨⟨d', l₁⟩, hd, h⟩ := except_bind_ok h
    cases h
    obtain ⟨hsmall, haligned, hstart, hstop⟩ := place_inPlace halign hd
    obtain ⟨hsmalls, horder, hordered, -⟩ := alignMembers_inPlace ms hu.2 hms
    refine ⟨?_, ⟨horder, hordered⟩, haligned, hstart, hstop⟩
    intro n hn
    rcases List.mem_cons.mp hn with rfl | hn
    · exact hsmall
    · exact hsmalls n hn
  | .type d t, isTop, l, l', m', hu, h => by
    have halign := (offset_align _ hu h).1
    rw [Member.offset] at h
    obtain ⟨⟨t', inner⟩, ht, h⟩ := except_bind_ok h
    obtain ⟨⟨d', l₁⟩, hd, h⟩ := except_bind_ok h
    cases h
    obtain ⟨hsmall, haligned, hstart, hstop⟩ := place_inPlace halign hd
    have hinner := offset_inPlace t hu.2 ht
    refine ⟨?_, hinner.ordered, haligned, hstart, hstop⟩
    intro n hn
    rcases List.mem_cons.mp hn with rfl | hn
    · exact hsmall
    · exact hinner.small n hn

theorem alignMembers_inPlace : ∀ (ms : List Member) {isTop : Bool} {l l' : Layout}
    {ms' : List Member}, membersUnplaced ms → alignMembers isTop l ms = .ok (ms', l') →
      (∀ n ∈ membersBytes ms', n ≤ UINT32_MAX) ∧ InOrder ms' ∧ membersOrdered ms' ∧
        (∀ m ∈ ms', l.argOffset ≤ m.decl.offset)
  | [], isTop, l, l', ms', _, h => by
    rw [alignMembers] at h
    cases h
    exact ⟨fun n hn => absurd hn List.not_mem_nil,
      ⟨fun m hm => absurd hm List.not_mem_nil, List.Pairwise.nil⟩, trivial,
      fun m hm => absurd hm List.not_mem_nil⟩
  | m :: ms, isTop, l, l', ms', hu, h => by
    rw [alignMembers] at h
    obtain ⟨⟨m', l₁⟩, hm, h⟩ := except_bind_ok h
    obtain ⟨⟨ms'', l₂⟩, hms, h⟩ := except_bind_ok h
    cases h
    have hplace := offset_inPlace m hu.1 hm
    obtain ⟨hsmalls, horder, hordered, hstarts⟩ := alignMembers_inPlace ms hu.2 hms
    have hbehind : ∀ b ∈ ms'', m'.decl.offset + m'.decl.nBytes ≤ b.decl.offset :=
      fun b hb => Nat.le_trans hplace.stop (hstarts b hb)
    refine ⟨?_, ⟨?_, List.pairwise_cons.mpr ⟨hbehind, horder.ordered⟩⟩, ⟨hplace.ordered, hordered⟩, ?_⟩
    · intro n hn
      rcases List.mem_append.mp hn with hn | hn
      · exact hplace.small n hn
      · exact hsmalls n hn
    · intro b hb
      rcases List.mem_cons.mp hb with rfl | hb
      · exact hplace.aligned
      · exact horder.aligned b hb
    · intro b hb
      rcases List.mem_cons.mp hb with rfl | hb
      · exact hplace.start
      · have := hplace.start
        have := hbehind b hb
        omega

end

/-! ## Sizes do not wrap around -/

theorem room_pos (d : Decl) : 0 < d.room := by
  unfold Decl.room
  by_cases h : d.sequenceLength = 0
  · rw [if_pos h]
    exact Nat.one_pos
  · rw [if_neg h]
    omega

/-- What is small at the end was small all along. -/
theorem noWrap_of_size {counted : Bool} (hp : d.Parsed) (ha : 0 < align ∧ align ≤ 8)
    (h : d.size counted align size ≤ UINT32_MAX) : d.NoWrap align size ∧ size ≤ UINT32_MAX := by
  have hitem : size ≤ d.itemSize align size := by
    unfold Decl.itemSize
    by_cases hdims : d.arrayDimensions = []
    · exact Nat.le_of_eq (if_pos hdims).symm
    · rw [if_neg hdims]
      exact Nat.le_trans (le_roundUp ha.1 size) (Nat.le_mul_of_pos_right _ (prod_pos hp.dimensions))
  have hsize : d.itemSize align size ≤ d.size counted align size ∧
      (d.isSequence → roundUp (d.itemSize align size) align * d.room ≤ d.size counted align size) := by
    unfold Decl.size
    by_cases hs : d.isSequence = true
    · rw [if_pos hs]
      have hround := le_roundUp ha.1 (d.itemSize align size)
      have hroom := Nat.le_mul_of_pos_right (roundUp (d.itemSize align size) align) (room_pos d)
      exact ⟨by omega, fun _ => Nat.le_add_right _ _⟩
    · rw [if_neg hs]
      exact ⟨Nat.le_refl _, fun h => absurd h hs⟩
  have hmax : UINT32_MAX < 2 ^ 32 := by decide
  refine ⟨⟨?_, ?_⟩, by omega⟩
  · intro hdims
    have harray : d.itemSize align size = roundUp size align * d.arrayDimensions.prod := if_neg hdims
    omega
  · intro hs
    have hroom := hsize.2 hs
    have halign := alignment_bounds d ha
    omega

mutual

theorem noWrap_of_sizes : ∀ (m : Member) {counted : Bool}, m.Parsed →
    (∀ n ∈ m.sizes counted, n ≤ UINT32_MAX) → m.NoWrap
  | .scalar d t, counted, hp, h | .enum d t, counted, hp, h =>
    (noWrap_of_size hp (elementAlign_bounds _) (h _ List.mem_cons_self)).1
  | .string d n, counted, hp, h => by
    obtain ⟨hn, hsize⟩ := noWrap_of_size hp.1 (elementAlign_bounds (.string d n))
      (h _ List.mem_cons_self)
    refine ⟨?_, hn⟩
    rw [Member.elementSize] at hsize
    unfold UINT32_MAX at hsize
    omega
  | .struct d ms, counted, hp, h => by
    rw [Member.sizes] at h
    exact ⟨membersNoWrap_of_sizes ms hp.2.2 fun n hn => h n (List.mem_cons_of_mem _ hn),
      (noWrap_of_size hp.1 (elementAlign_bounds (.struct d ms)) (h _ List.mem_cons_self)).1⟩
  | .type d t, counted, hp, h => by
    rw [Member.sizes] at h
    exact ⟨noWrap_of_sizes t hp.2.2 fun n hn => h n (List.mem_cons_of_mem _ hn),
      (noWrap_of_size hp.1 (elementAlign_bounds (.type d t)) (h _ List.mem_cons_self)).1⟩

theorem membersNoWrap_of_sizes : ∀ ms : List Member, membersParsed ms →
    (∀ n ∈ membersSizes ms, n ≤ UINT32_MAX) → membersNoWrap ms
  | [], _, _ => trivial
  | m :: ms, hp, h =>
    ⟨noWrap_of_sizes m hp.1 fun n hn => h n (List.mem_append_left _ hn),
      membersNoWrap_of_sizes ms hp.2 fun n hn => h n (List.mem_append_right _ hn)⟩

end

theorem noWrap_of_argumentSizes : ∀ (ms : List Member) {argOffset : Nat}, membersParsed ms →
    (∀ n ∈ argumentSizes isTop argOffset ms, n ≤ UINT32_MAX) → membersNoWrap ms
  | [], _, _, _ => trivial
  | m :: ms, argOffset, hp, h => by
    rw [argumentSizes] at h
    exact ⟨noWrap_of_sizes m hp.1 fun n hn => h n (List.mem_append_left _ hn),
      noWrap_of_argumentSizes ms hp.2 fun n hn => h n (List.mem_append_right _ hn)⟩

/-- **Sizes do not wrap around**: where `alignMembers` returns no error, all members have the size of
their type, fit into 4 gigabytes and lie in aligned places one behind the other, exactly when no product
of the layout exceeds 64 bits. -/
theorem sizes_iff_noWrap (ms ms' : List Member) (isTop : Bool) (l l' : Layout)
    (hu : membersUnplaced ms) (hp : membersParsed ms)
    (h : alignMembers isTop l ms = .ok (ms', l')) :
    (membersBytes ms' = argumentSizes isTop l.argOffset ms ∧
      (∀ n ∈ membersBytes ms', n ≤ UINT32_MAX) ∧ InOrder ms' ∧ membersOrdered ms') ↔
      membersNoWrap ms := by
  obtain ⟨hsmall, horder, hordered, -⟩ := alignMembers_inPlace ms hu h
  constructor
  · rintro ⟨hbytes, -⟩
    rw [hbytes] at hsmall
    exact noWrap_of_argumentSizes ms hp hsmall
  · intro hn
    exact ⟨(alignMembers_laidOut ms hu hp hn h).1, hsmall, horder, hordered⟩

/-- A struct of a number and a bounded sequence of texts, twice, and one more number. -/
def record : List Member :=
  [.struct { plain 114 false with arrayDimensions := [2] }
      [.scalar (plain 97 false) .ulong, .string { plain 98 true with sequenceLength := 3 } 5],
    .scalar (plain 99 false) .longlong]

theorem sizes_record : ∃ ms' l', alignMembers false noLayout record = .ok (ms', l') ∧
    membersBytes ms' = argumentSizes false 0 record ∧ (∀ n ∈ membersBytes ms', n ≤ UINT32_MAX) ∧
    InOrder ms' ∧ membersOrdered ms' := by
  have hzero : 0 < 2 ^ 64 := by decide
  have hplain (name : UInt8) (isSequence : Bool) : (plain name isSequence).Parsed :=
    ⟨fun n hn => absurd hn List.not_mem_nil, hzero⟩
  refine ⟨_, _, rfl, (sizes_iff_noWrap record _ false noLayout _ ?_ ?_ rfl).mpr ?_⟩
  · exact ⟨⟨rfl, rfl, rfl, trivial⟩, rfl, trivial⟩
  · exact ⟨⟨⟨by decide, by decide⟩, List.cons_ne_nil _ _, hplain _ _,
      ⟨⟨fun n hn => absurd hn List.not_mem_nil, by decide⟩, by decide⟩, trivial⟩, hplain _ _, trivial⟩
  · exact ⟨⟨⟨⟨by decide, by decide⟩, ⟨by decide, by decide, by decide⟩, trivial⟩, by decide, by decide⟩,
      ⟨by decide, by decide⟩, trivial⟩

/-- 2^61 numbers of eight bytes take no bytes at all. -/
theorem array_size_wraps : ¬ ∀ (ms ms' : List Member) (isTop : Bool) (l l' : Layout),
    membersUnplaced ms → membersParsed ms → alignMembers isTop l ms = .ok (ms', l') →
    membersBytes ms' = argumentSizes isTop l.argOffset ms ∧
      (∀ n ∈ membersBytes ms', n ≤ UINT32_MAX) ∧ InOrder ms' ∧ membersOrdered ms' := by
  intro h
  have hparsed : manyNumbers.decl.Parsed := ⟨by decide, by decide⟩
  have hsizes := (h [manyNumbers] _ false noLayout _ ⟨rfl, trivial⟩ ⟨hparsed, trivial⟩
    alignMembers_manyNumbers).1
  exact absurd hsizes (by decide)

end OpenCpi.Value
