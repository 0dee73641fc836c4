import OpenCpi.Properties.Traversal

/-!
# Where layout and traversal agree

The layout of a type of fixed size and its traversal agree exactly when no product of the layout
exceeds 64 bits and no struct in an array has padding behind its last member.
-/

namespace OpenCpi.Value

open Infra

variable {σ : Type} {d d' : Decl} {l l' : Layout} {isTop : Bool} {size : Nat}

/-! ## Sufficient -/

/-- What a reader is asked is what a writer is told afterwards. -/
theorem read_events {x : ReadM σ Unit} {b : Memory → WriteM Unit} {f : Nat → Nat}
    {e : Memory → Nat → List Event} (hagree : Agree Event.ok x b) (hx : Moves x f)
    (hb : ∀ memory, Steps (b memory) f (e memory)) (source : σ) (memory : Memory)
    (base length : Nat) (hroom : f base - base ≤ length) :
    ∃ s, x ⟨memory, base, length, source, []⟩ = .ok ((), s) ∧ s.data = f base ∧
      s.length = length - (f base - base) ∧ s.events = e s.memory base := by
  obtain ⟨s, hrun, hdata, hlen, hok⟩ := hx.run ⟨memory, base, length, source, []⟩ hroom
  refine ⟨s, hrun, hdata, hlen, ?_⟩
  obtain ⟨events, hw, hr⟩ := hagree _ _ _ hrun
  have htrace : s.events = events := hw.trace
  have hle := hx.le base
  have hevents : ∀ ev ∈ events, ev.ok := fun ev hev =>
    (hok ev (htrace ▸ hev)).resolve_left List.not_mem_nil
  have hread := hr hevents s.memory length [] (fun _ _ _ => rfl) (by rw [hdata]; dsimp only at hle ⊢; omega)
  have hwrite := (hb s.memory).run ⟨base, length, []⟩ hroom
  dsimp only at hread
  rw [hread] at hwrite
  have hstate := congrArg Decoding.events (Prod.mk.inj (Except.ok.inj hwrite)).2
  rw [htrace]
  exact hstate

theorem Small.dvd_base {n base : Nat} (hn : Small n) (hbase : 16 ∣ base) : n ∣ base :=
  Nat.dvd_trans (by rcases hn with rfl | rfl | rfl | rfl <;> decide) hbase

mutual

theorem Member.Layed.aligned : ∀ {m : Member}, m.Layed → m.aligned
  | .scalar _ _, h | .enum _ _, h => fun hs => absurd (h.1.isSequence.symm.trans hs) Bool.false_ne_true
  | .struct _ _, h =>
    ⟨fun hs => absurd (h.1.isSequence.symm.trans hs) Bool.false_ne_true, membersLayed_aligned h.2⟩
  | .string _ _, h | .type _ _, h => absurd h id

theorem membersLayed_aligned : ∀ {ms : List Member} {align start stop : Nat},
    membersLayed align stop start ms → membersAligned ms
  | [], _, _, _, _ => trivial
  | _ :: _, _, _, _, h => ⟨h.1.aligned, membersLayed_aligned h.2.2.2⟩

end

/-- **A member without padding behind structs.** -/
theorem agrees_of_tight {m : Member} (h : m.Layed) (ht : m.Tight) : Agrees m := by
  have hmove (memory : Memory) {base : Nat} (hbase : 16 ∣ base) :=
    move_eq memory m h ht base (h.decl.small.dvd_base hbase)
  refine ⟨?_, ?_⟩
  · intro memory base length hbase hlen
    obtain ⟨hdata, hcalls⟩ := hmove memory hbase
    have hrun := (steps_write memory false m h).run ⟨base, length, []⟩
      (by rw [hdata, Nat.add_sub_cancel_left]; exact hlen)
    rw [hdata, Nat.add_sub_cancel_left, hcalls, List.nil_append] at hrun
    exact hrun
  · intro σ R source memory base length hbase hlen
    have hdata := (hmove memory hbase).1
    obtain ⟨s, hrun, hend, hrest, hevents⟩ := read_events (agree_read R m h.aligned)
      (moves_read R m h) (fun memory => steps_write memory false m h) source memory base
      length (by rw [hdata, Nat.add_sub_cancel_left]; exact hlen)
    rw [hdata] at hend hrest
    rw [Nat.add_sub_cancel_left] at hrest
    rw [(hmove s.memory hbase).2] at hevents
    exact ⟨s, hrun, hend, hrest, hevents⟩

/-- The same for the arguments of an operation. -/
theorem listAgrees_of_tight {ms : List Member} {align stop : Nat} (ha : Small align)
    (h : membersLayed align stop 0 ms) (ht : membersTight ms) : ListAgrees stop ms := by
  have hmove (memory : Memory) {base : Nat} (hbase : 16 ∣ base) :
      membersMove ms base = base + stop ∧ membersCalls memory ms base = membersAccesses memory base ms :=
    membersMove_eq memory ms ha h ht (ha.dvd_base hbase)
  refine ⟨?_, ?_⟩
  · intro memory top base length hbase hlen
    obtain ⟨hdata, hcalls⟩ := hmove memory hbase
    have hrun := (steps_writeMembers memory top ms h).run ⟨base, length, []⟩
      (by rw [hdata, Nat.add_sub_cancel_left]; exact hlen)
    rw [hdata, Nat.add_sub_cancel_left, hcalls, List.nil_append] at hrun
    exact hrun
  · intro σ R source memory base length hbase hlen
    have hdata := (hmove memory hbase).1
    obtain ⟨s, hrun, hend, hrest, hevents⟩ :=
      read_events (agree_readMembers R ms (membersLayed_aligned h)) (moves_readMembers R ms h)
        (fun memory => steps_writeMembers memory false ms h) source memory base
        length (by rw [hdata, Nat.add_sub_cancel_left]; exact hlen)
    rw [hdata] at hend hrest
    rw [Nat.add_sub_cancel_left] at hrest
    rw [(hmove s.memory hbase).2] at hevents
    exact ⟨s, hrun, hend, hrest, hevents⟩

mutual

/-- So do all members in it. -/
theorem all_of_tight : ∀ {m : Member}, m.Layed → m.Tight → m.All Agrees
  | .scalar _ _, h, ht | .enum _ _, h, ht => agrees_of_tight h ht
  | .struct _ _, h, ht => ⟨agrees_of_tight h ht, membersAll_of_tight h.2 ht.2⟩
  | .string _ _, h, _ | .type _ _, h, _ => absurd h id

theorem membersAll_of_tight : ∀ {ms : List Member} {align start stop : Nat},
    membersLayed align stop start ms → membersTight ms → membersAll Agrees ms
  | [], _, _, _, _, _ => trivial
  | _ :: _, _, _, _, h, ht => ⟨all_of_tight h.1 ht.1, membersAll_of_tight h.2.2.2 ht.2⟩

end

/-! ## What `offset` leaves -/

/-- What `offset` does not touch. -/
theorem place_copied (h : d.place size l isTop = .ok (d', l')) :
    d'.arrayDimensions = d.arrayDimensions ∧ d'.isSequence = d.isSequence ∧ d'.nBits = d.nBits := by
  obtain ⟨n₁, -, h⟩ := except_bind_ok h
  obtain ⟨n₂, -, h⟩ := except_bind_ok h
  cases h
  exact ⟨rfl, rfl, rfl⟩

theorem itemSize_bounds {align : Nat} (hp : d.Parsed) (ha : 0 < align) (hpos : 0 < size) :
    0 < d.arrayDimensions.prod ∧ 0 < d.itemSize align size ∧
      d.arrayDimensions.prod ≤ d.itemSize align size := by
  have hprod := prod_pos hp.dimensions
  refine ⟨hprod, ?_⟩
  unfold Decl.itemSize
  by_cases hdims : d.arrayDimensions = []
  · rw [if_pos hdims, hdims]
    exact ⟨hpos, hpos⟩
  · have hround : 0 < roundUp size align := Nat.lt_of_lt_of_le hpos (le_roundUp ha size)
    rw [if_neg hdims]
    exact ⟨Nat.mul_pos hround hprod, Nat.le_mul_of_pos_left _ hround⟩

/-- The declaration of a member of fixed size. -/
structure PlacedAs (d' e : Decl) (l l' : Layout) : Prop where
  layed : d'.Layed
  dataAlign : d'.dataAlign = e.align
  nBits : d'.nBits = e.nBits
  dimensions : d'.arrayDimensions = e.arrayDimensions
  offset : d'.offset = roundUp l.argOffset d'.align
  argOffset : l'.argOffset = d'.offset + d'.nBytes
  pos : 0 < d'.nBytes

theorem place_layed {e : Decl} (h : e.place size l isTop = .ok (d', l')) (hp : e.Parsed)
    (hseq : e.isSequence = false) (ha : Small e.align) (hn : e.NoWrap e.align size)
    (hbits : e.nBits / 8 = size) (hpos : 0 < size) : PlacedAs d' e l l' := by
  obtain ⟨hdims, hsame, hnBits⟩ := place_copied h
  obtain ⟨hle, halign, hdata, hoffset, harg, -⟩ := place_spec h
  have hsize := place_size hp hn h
  unfold Decl.alignment at halign
  unfold Decl.size at hsize
  rw [hseq, if_neg Bool.false_ne_true] at halign hsize
  obtain ⟨hprod, hitem, hcount⟩ := itemSize_bounds hp ha.pos hpos
  unfold UINT32_MAX at hle
  have hlayed : d'.Layed := by
    refine ⟨hsame.trans hseq, halign ▸ ha, hdata.trans halign.symm, hdims ▸ hprod, ?_, ?_⟩
    · rw [hdims]
      omega
    · rw [hsize, hdata, hnBits, hbits]
      unfold Decl.itemSize
      rw [hdims]
  exact ⟨hlayed, hdata, hnBits, hdims, hoffset, harg, hsize ▸ hitem⟩

/-- A member of fixed size in its place. -/
structure Fixed (m m' : Member) (l l' : Layout) : Prop where
  layed : m'.Layed
  tight : m'.Tight ↔ m.NoTail
  offset : m'.decl.offset = roundUp l.argOffset m'.decl.align
  argOffset : l'.argOffset = m'.decl.offset + m'.decl.nBytes
  pos : 0 < m'.decl.nBytes

theorem scalar_bits (t : Scalar) : t.bits / 8 = (t.bits + 7) / 8 ∧ 0 < (t.bits + 7) / 8 := by
  cases t <;> decide

theorem isSequence_of_fixed {fixed : Bool} (h : (!(d.isSequence && !false) && fixed) = true) :
    d.isSequence = false ∧ fixed = true := by
  cases hs : d.isSequence with
  | false =>
    rw [hs] at h
    exact ⟨rfl, by simpa using h⟩
  | true => simp [hs] at h

theorem le_membersAlign : ∀ (ms : List Member) (align : Nat), align ≤ membersAlign align ms
  | [], _ => Nat.le_refl _
  | _ :: ms, _ => Nat.le_trans (Nat.le_max_left _ _) (le_membersAlign ms _)

mutual

/-- **`offset` lays out members of fixed size** unless a product wraps around. -/
theorem offset_fixed : ∀ (m : Member) {isTop : Bool} {l l' : Layout} {m' : Member}, m.unplaced →
    m.Parsed → m.isFixed false = true → m.NoWrap → m.offset isTop l = .ok (m', l') → Fixed m m' l l'
  | .scalar d t, isTop, l, l', m', hu, hp, hf, hn, h => by
    rw [Member.offset] at h
    obtain ⟨⟨d', l₁⟩, hd, h⟩ := except_bind_ok h
    cases h
    have hseq := (isSequence_of_fixed ((Bool.and_true _).trans hf)).1
    have hpl := place_layed hd ⟨hp.dimensions, hp.sequenceLength⟩ hseq (small_bits t)
      ⟨hn.array, hn.sequence⟩ (scalar_bits t).1 (scalar_bits t).2
    refine ⟨⟨hpl.layed, ?_⟩, Iff.rfl, hpl.offset, hpl.argOffset, hpl.pos⟩
    rw [hpl.nBits, hpl.dataAlign]
    exact (scalar_bits t).1
  | .enum d t, isTop, l, l', m', hu, hp, hf, hn, h => by
    have henum : enumBits / 8 = (enumBits + 7) / 8 := by decide
    rw [Member.offset] at h
    obtain ⟨⟨d', l₁⟩, hd, h⟩ := except_bind_ok h
    cases h
    have hseq := (isSequence_of_fixed ((Bool.and_true _).trans hf)).1
    have hpl := place_layed hd ⟨hp.dimensions, hp.sequenceLength⟩ hseq
      (Or.inr (Or.inr (Or.inl rfl))) ⟨hn.array, hn.sequence⟩ henum (by decide)
    refine ⟨⟨hpl.layed, ?_⟩, Iff.rfl, hpl.offset, hpl.argOffset, hpl.pos⟩
    rw [hpl.nBits, hpl.dataAlign]
    exact henum
  | .struct d ms, isTop, l, l', m', hu, hp, hf, hn, h => by
    rw [Member.offset] at h
    obtain ⟨⟨ms', inner⟩, hms, h⟩ := except_bind_ok h
    obtain ⟨⟨d', l₁⟩, hd, h⟩ := except_bind_ok h
    cases h
    obtain ⟨hseq, hfixed⟩ := isSequence_of_fixed hf
    have halign := alignMembers_align ms hu.2 hms
    have hend := (alignMembers_laidOut ms hu.2 hp.2.2 hn.1 hms).2 rfl
    dsimp only at halign hend
    rw [hu.1] at halign
    obtain ⟨hmembers, htight, -, hgrow⟩ := alignMembers_fixed ms hu.2 hp.2.2 hfixed hn.1 hms
    have hpos : 0 < inner.argOffset := hgrow hp.2.1
    have hsmall : Small inner.maxAlign := (alignMembers_placed ms hu.2 hms).2 (Or.inl hu.1)
    have hn' : d.NoWrap inner.maxAlign inner.argOffset := by
      rw [halign, hend]
      exact hn.2
    have hpl := place_layed hd ⟨hp.1.dimensions, hp.1.sequenceLength⟩ hseq hsmall
      ⟨hn'.array, hn'.sequence⟩ (Nat.mul_div_cancel _ (by decide)) hpos
    have hbits : d'.nBits / 8 = inner.argOffset := by
      rw [hpl.nBits]
      exact Nat.mul_div_cancel _ (by decide)
    have hdata : d'.dataAlign = inner.maxAlign := hpl.dataAlign
    have hdims : d'.arrayDimensions = d.arrayDimensions := hpl.dimensions
    refine ⟨⟨hpl.layed, ?_⟩, ?_, hpl.offset, hpl.argOffset, hpl.pos⟩
    · rw [hbits, hdata, halign]
      exact hmembers _ 1 (Nat.le_refl _)
    · unfold Member.Tight Member.NoTail
      rw [hdims, hdata, hbits, halign, hend, htight]
      exact Iff.rfl
  | .string _ _, _, _, _, _, _, _, hf, _, _ | .type _ _, _, _, _, _, _, _, hf, _, _ =>
    absurd hf Bool.false_ne_true

theorem alignMembers_fixed : ∀ (ms : List Member) {isTop : Bool} {l l' : Layout}
    {ms' : List Member}, membersUnplaced ms → membersParsed ms → membersFixed ms = true →
    membersNoWrap ms → alignMembers isTop l ms = .ok (ms', l') →
      (∀ bound align, membersAlign align ms ≤ bound →
        membersLayed bound l'.argOffset l.argOffset ms') ∧
      (membersTight ms' ↔ membersNoTail ms) ∧ l.argOffset ≤ l'.argOffset ∧
      (ms ≠ [] → l.argOffset < l'.argOffset)
  | [], isTop, l, l', ms', _, _, _, _, h => by
    rw [alignMembers] at h
    cases h
    exact ⟨fun _ _ _ => rfl, Iff.rfl, Nat.le_refl _, fun h => absurd rfl h⟩
  | m :: ms, isTop, l, l', ms', hu, hp, hf, hn, h => by
    rw [alignMembers] at h
    obtain ⟨⟨m', l₁⟩, hm, h⟩ := except_bind_ok h
    obtain ⟨⟨ms'', l₂⟩, hms, h⟩ := except_bind_ok h
    cases h
    rw [membersFixed, Bool.and_eq_true] at hf
    have hfixed := offset_fixed m hu.1 hp.1 hf.1 hn.1 hm
    have halign := (offset_align m hu.1 hm).1
    obtain ⟨hmembers, htight, hle, -⟩ := alignMembers_fixed ms hu.2 hp.2 hf.2 hn.2 hms
    have hstart := le_roundUp hfixed.layed.decl.small.pos l.argOffset
    have hstop := hfixed.argOffset
    have hpos := hfixed.pos
    rw [← hfixed.offset] at hstart
    refine ⟨?_, ?_, by omega, fun _ => by omega⟩
    · intro bound align hbound
      rw [membersAlign] at hbound
      have hmax := Nat.le_trans (le_membersAlign ms _) hbound
      refine ⟨hfixed.layed, ?_, hfixed.offset, ?_⟩
      · rw [halign]
        exact Nat.le_trans (Nat.le_max_right _ _) hmax
      · rw [← hstop]
        exact hmembers bound _ hbound
    · unfold membersTight membersNoTail
      rw [hfixed.tight, htight]

end

/-! ## Necessary -/

/-- What agrees moves by the bytes of the member. -/
theorem Agrees.move {m : Member} (h : Agrees m) {memory : Memory} {f : Nat → Nat}
    {e : Nat → List Event} (hs : Steps (m.write memory false) f e) :
    f 0 = m.decl.nBytes ∧ e 0 = m.accesses memory 0 := by
  have hrun := hs.run ⟨0, f 0 + m.decl.nBytes, []⟩
    (Nat.le_trans (Nat.sub_le _ _) (Nat.le_add_right _ _))
  rw [h.write memory 0 (f 0 + m.decl.nBytes) (Nat.dvd_zero _) (Nat.le_add_left _ _)] at hrun
  have hstate := (Prod.mk.inj (Except.ok.inj hrun)).2
  have hdata : 0 + m.decl.nBytes = f 0 := congrArg Decoding.data hstate
  have hevents : m.accesses memory 0 = e 0 := congrArg Decoding.events hstate
  exact ⟨by omega, hevents.symm⟩

/-- Calls that agree have the right number of items. -/
theorem nItems_of_calls {events events' : List Event} (hdims : d.arrayDimensions ≠ [])
    (h : d.called events = d.around events') :
    d.nItems = d.arrayDimensions.prod ∧ events = events' := by
  unfold Decl.called Decl.around at h
  rw [if_neg hdims, if_neg hdims] at h
  obtain ⟨hbegin, hrest⟩ := List.cons.inj h
  exact ⟨(Event.beginArray.inj hbegin).2, List.append_cancel_right hrest⟩

/-- No array of scalars exceeds 64 bits. -/
theorem scalar_noWrap {e : Decl} {memory : Memory} {p : Nat}
    (h : e.place size l isTop = .ok (d', l')) (hseq : e.isSequence = false) (ha : Small e.align)
    (halign : e.align = size) (hbits : e.nBits / 8 = size)
    (hcalls : d'.called [.data d' (readBytes memory p d'.dataBytes) d'.nItems] =
      d'.around [.data d' (readBytes memory 0 (d'.arrayDimensions.prod * (d'.nBits / 8)))
        d'.arrayDimensions.prod]) : e.NoWrap e.align size := by
  refine ⟨?_, fun hs => absurd (hseq.symm.trans hs) Bool.false_ne_true⟩
  intro hdims
  obtain ⟨hdims', -, hnBits⟩ := place_copied h
  rw [← hdims'] at hdims ⊢
  obtain ⟨-, hdata⟩ := nItems_of_calls hdims hcalls
  have hlength := congrArg List.length (Event.data.inj (List.cons.inj hdata).1).2.1
  rw [readBytes_length, readBytes_length, hnBits, hbits] at hlength
  have hlt : d'.dataBytes < 2 ^ 64 := Nat.mod_lt _ (by decide)
  rw [halign, roundUp_of_dvd (halign ▸ ha.pos) (Nat.dvd_refl _), Nat.mul_comm, ← hlength]
  exact hlt

/-- The loop over the elements of an array of structs ends. -/
theorem nItems_lt_of_write {memory : Memory} {ms : List Member} {s s' : Decoding Event} {v : Unit}
    (hseq : d.isSequence = false)
    (h : Member.write memory false (.struct d ms) s = .ok (v, s')) : d.nItems < 2 ^ 32 := by
  by_contra hlt
  rw [Member.write, writeElements_eq memory false hseq] at h
  obtain ⟨_, s₁, -, h⟩ := run_bind_eq_ok h
  obtain ⟨_, s₂, -, h⟩ := run_bind_eq_ok h
  obtain ⟨_, s₃, hbody, -⟩ := run_bind_eq_ok h
  obtain ⟨_, s₄, -, hbody⟩ := run_bind_eq_ok hbody
  obtain ⟨_, s₅, hloop, -⟩ := run_bind_eq_ok hbody
  unfold loopElements at hloop
  rw [if_pos (by omega)] at hloop
  cases hloop

/-- No array of structs does. -/
theorem struct_noWrap {align : Nat} (hseq : d.isSequence = false) (ha : Small align)
    (hsize : size ≤ UINT32_MAX)
    (hcount : d.arrayDimensions ≠ [] → d.arrayDimensions.prod < 2 ^ 32) : d.NoWrap align size := by
  refine ⟨?_, fun hs => absurd (hseq.symm.trans hs) Bool.false_ne_true⟩
  intro hdims
  have hdvd : align ∣ 2 ^ 32 := by rcases ha with rfl | rfl | rfl | rfl <;> decide
  have hround : roundUp size align ≤ 2 ^ 32 := by
    have hmono := roundUp_mono align (p := size) (q := 2 ^ 32) (by unfold UINT32_MAX at hsize; omega)
    rw [roundUp_of_dvd ha.pos hdvd] at hmono
    exact hmono
  have hmul := Nat.mul_le_mul hround (Nat.le_of_lt_succ (hcount hdims))
  have hlt : 2 ^ 32 * (2 ^ 32 - 1) < 2 ^ 64 := by decide
  omega

/-- **Padding behind structs is not traversed.** -/
theorem move_lt {ms : List Member} (h : Member.Layed (.struct d ms)) (hdims : d.arrayDimensions ≠ [])
    (htail : ¬ d.dataAlign ∣ d.nBits / 8) : Member.move (.struct d ms) 0 < d.nBytes := by
  obtain ⟨hd, hms⟩ := h
  have hf (q : Nat) (hq : d.dataAlign ∣ q) : membersMove ms q ≤ q + d.nBits / 8 :=
    membersMove_le ms hd.small_data hms hq
  have hle := le_roundUp hd.small_data.pos (d.nBits / 8)
  have hlt : d.nBits / 8 < roundUp (d.nBits / 8) d.dataAlign :=
    Nat.lt_of_le_of_ne hle fun heq => htail (heq ▸ dvd_roundUp _ _)
  obtain ⟨n, hn⟩ := Nat.exists_eq_succ_of_ne_zero hd.nonempty.ne'
  have hend := iterate_le (membersMove_mono ms hms) hf hle (dvd_roundUp _ _) (Nat.dvd_zero _) n
  unfold Member.move
  rw [hd.nItems, hn, Nat.succ_eq_add_one, aligned_of_dvd hd.small_data (Nat.dvd_zero _), hd.nBytes,
    Decl.itemSize, if_neg hdims, hn, Nat.mul_succ, Nat.mul_comm _ n]
  omega

mutual

/-- **What agrees has neither products that wrap around nor padding behind structs.** -/
theorem noWrap_of_agrees : ∀ (m : Member) {isTop : Bool} {l l' : Layout} {m' : Member}, m.unplaced →
    m.Parsed → m.isFixed false = true → m.offset isTop l = .ok (m', l') → m'.All Agrees →
      m.NoWrap ∧ m.NoTail
  | .scalar d t, isTop, l, l', m', hu, hp, hf, h, hall => by
    rw [Member.offset] at h
    obtain ⟨⟨d', l₁⟩, hd, h⟩ := except_bind_ok h
    cases h
    have hseq := (isSequence_of_fixed ((Bool.and_true _).trans hf)).1
    obtain ⟨-, hseq', -⟩ := place_copied hd
    obtain ⟨-, halign, hdata, -⟩ := place_spec hd
    have hsteps := (steps_writeScalar (fun _ => 0) false (hseq'.trans hseq)
      (place_small hd (small_bits t)).1.1 (hdata.trans (halign.trans (if_neg (by simp [hseq]))).symm) t []).1
    have hn := scalar_noWrap hd hseq (small_bits t) rfl (scalar_bits t).1 (hall.move hsteps).2
    exact ⟨⟨hn.array, hn.sequence⟩, trivial⟩
  | .enum d t, isTop, l, l', m', hu, hp, hf, h, hall => by
    have henum : enumBits / 8 = (enumBits + 7) / 8 := by decide
    have hsmall : Small ((enumBits + 7) / 8) := Or.inr (Or.inr (Or.inl rfl))
    rw [Member.offset] at h
    obtain ⟨⟨d', l₁⟩, hd, h⟩ := except_bind_ok h
    cases h
    have hseq := (isSequence_of_fixed ((Bool.and_true _).trans hf)).1
    obtain ⟨-, hseq', -⟩ := place_copied hd
    obtain ⟨-, halign, hdata, -⟩ := place_spec hd
    have hsteps := (steps_writeScalar (fun _ => 0) false (hseq'.trans hseq)
      (place_small hd hsmall).1.1 (hdata.trans (halign.trans (if_neg (by simp [hseq]))).symm) .bool t).2
    have hn := scalar_noWrap hd hseq hsmall rfl henum (hall.move hsteps).2
    exact ⟨⟨hn.array, hn.sequence⟩, trivial⟩
  | .struct d ms, isTop, l, l', m', hu, hp, hf, h, hall => by
    have hoffset := h
    rw [Member.offset] at h
    obtain ⟨⟨ms', inner⟩, hms, h⟩ := except_bind_ok h
    obtain ⟨⟨d', l₁⟩, hd, h⟩ := except_bind_ok h
    cases h
    obtain ⟨hagree, halls⟩ := hall
    obtain ⟨hseq, hfixed⟩ := isSequence_of_fixed hf
    obtain ⟨hnw, hnt⟩ := membersNoWrap_of_agrees ms hu.2 hp.2.2 hfixed hms halls
    obtain ⟨hmembers, -⟩ := alignMembers_fixed ms hu.2 hp.2.2 hfixed hnw hms
    obtain ⟨hdims, hseq', -⟩ := place_copied hd
    have hcount := nItems_lt_of_write (hseq'.trans hseq)
      (hagree.write (fun _ => 0) 0 d'.nBytes (Nat.dvd_zero _) (Nat.le_refl _))
    have hsteps := steps_writeStruct false (hseq'.trans hseq) hcount
      (steps_writeMembers (fun _ => 0) false ms' (hmembers _ 1 (Nat.le_refl _)))
    obtain ⟨hmove, hcalls⟩ := hagree.move hsteps
    have halign := alignMembers_align ms hu.2 hms
    have hend := (alignMembers_laidOut ms hu.2 hp.2.2 hnw hms).2 rfl
    dsimp only at halign hend
    rw [hu.1] at halign
    have hsmall : Small inner.maxAlign := (alignMembers_placed ms hu.2 hms).2 (Or.inl hu.1)
    have hsize : inner.argOffset ≤ UINT32_MAX := by
      obtain ⟨n, hitem, -⟩ := except_bind_ok hd
      exact (itemBytes_le hitem).2
    have hn : d.NoWrap inner.maxAlign inner.argOffset := struct_noWrap hseq hsmall hsize fun hne => by
      have hitems := (nItems_of_calls (by rw [hdims]; exact hne) hcalls).1
      rw [hdims] at hitems
      rw [← hitems]
      exact hcount
    rw [halign, hend] at hn
    have hnw' : Member.NoWrap (.struct d ms) := ⟨hnw, hn⟩
    have hplaced := offset_fixed (.struct d ms) hu hp hf hnw' hoffset
    refine ⟨hnw', hplaced.tight.mp ⟨?_, ?_⟩⟩
    · intro hne
      by_contra htail
      have hlt := move_lt hplaced.layed hne htail
      rw [hmove] at hlt
      exact Nat.lt_irrefl _ hlt
    · exact ((alignMembers_fixed ms hu.2 hp.2.2 hfixed hnw hms).2.1).mpr hnt
  | .string _ _, _, _, _, _, _, _, hf, _, _ | .type _ _, _, _, _, _, _, _, hf, _, _ =>
    absurd hf Bool.false_ne_true

theorem membersNoWrap_of_agrees : ∀ (ms : List Member) {isTop : Bool} {l l' : Layout}
    {ms' : List Member}, membersUnplaced ms → membersParsed ms → membersFixed ms = true →
    alignMembers isTop l ms = .ok (ms', l') → membersAll Agrees ms' →
      membersNoWrap ms ∧ membersNoTail ms
  | [], _, _, _, _, _, _, _, _, _ => ⟨trivial, trivial⟩
  | m :: ms, isTop, l, l', ms', hu, hp, hf, h, hall => by
    rw [alignMembers] at h
    obtain ⟨⟨m', l₁⟩, hm, h⟩ := except_bind_ok h
    obtain ⟨⟨ms'', l₂⟩, hms, h⟩ := except_bind_ok h
    cases h
    rw [membersFixed, Bool.and_eq_true] at hf
    obtain ⟨hnw, hnt⟩ := noWrap_of_agrees m hu.1 hp.1 hf.1 hm hall.1
    obtain ⟨hnws, hnts⟩ := membersNoWrap_of_agrees ms hu.2 hp.2 hf.2 hms hall.2
    exact ⟨⟨hnw, hnws⟩, hnt, hnts⟩

end

/-- **Layout and traversal agree** exactly when no product of the layout exceeds 64 bits and no struct in
an array has padding behind its last member. -/
theorem agree_iff_noTail (ms ms' : List Member) (isTop : Bool) (l l' : Layout)
    (hu : membersUnplaced ms) (hp : membersParsed ms) (hf : membersFixed ms = true)
    (hl : l.argOffset = 0) (h : alignMembers isTop l ms = .ok (ms', l')) :
    (membersAll Agrees ms' ∧ ListAgrees l'.argOffset ms') ↔ membersNoWrap ms ∧ membersNoTail ms := by
  constructor
  · rintro ⟨hall, -⟩
    exact membersNoWrap_of_agrees ms hu hp hf h hall
  · rintro ⟨hn, ht⟩
    obtain ⟨hmembers, htight, -⟩ := alignMembers_fixed ms hu hp hf hn h
    have hlayed := hmembers 8 1 (membersAlign_bounds ms (by decide)).2
    have htight := htight.mpr ht
    rw [hl] at hlayed
    exact ⟨membersAll_of_tight hlayed htight,
      listAgrees_of_tight (Or.inr (Or.inr (Or.inr rfl))) hlayed htight⟩

/-- Two structs, with padding or without, and a number behind them. -/
def paddedPairs (second : Scalar) : List Member :=
  [.struct { plain 112 false with arrayDimensions := [2] }
      [.scalar (plain 97 false) .ulong, .scalar (plain 98 false) second],
    .scalar (plain 99 false) .longlong]

theorem paddedPairs_parsed (second : Scalar) :
    membersUnplaced (paddedPairs second) ∧ membersParsed (paddedPairs second) := by
  have hzero : 0 < 2 ^ 64 := by decide
  have hplain (name : UInt8) : (plain name false).Parsed :=
    ⟨fun n hn => absurd hn List.not_mem_nil, hzero⟩
  exact ⟨⟨⟨rfl, rfl, rfl, trivial⟩, rfl, trivial⟩,
    ⟨⟨by decide, by decide⟩, List.cons_ne_nil _ _, hplain _, hplain _, trivial⟩, hplain _, trivial⟩

theorem agrees_pairs : ∃ ms' l', alignMembers false noLayout (paddedPairs .ulong) = .ok (ms', l') ∧
    membersAll Agrees ms' ∧ ListAgrees l'.argOffset ms' := by
  obtain ⟨hu, hp⟩ := paddedPairs_parsed .ulong
  have hplain (name : UInt8) {align size : Nat} : (plain name false).NoWrap align size :=
    ⟨fun hne => absurd rfl hne, fun hs => absurd hs Bool.false_ne_true⟩
  refine ⟨_, _, rfl, (agree_iff_noTail (paddedPairs .ulong) _ false noLayout _ hu hp rfl rfl rfl).mpr
    ⟨⟨⟨⟨hplain _, hplain _, trivial⟩, by decide, by decide⟩, hplain _, trivial⟩, ?_⟩⟩
  exact ⟨⟨fun _ => by decide, trivial, trivial, trivial⟩, trivial, trivial⟩

/-- Two structs of five bytes take 16 bytes in the layout and 13 when they are read. -/
theorem padding_not_traversed : ¬ ∀ (ms ms' : List Member) (isTop : Bool) (l l' : Layout),
    membersUnplaced ms → membersParsed ms → membersFixed ms = true → l.argOffset = 0 →
    alignMembers isTop l ms = .ok (ms', l') →
    membersAll Agrees ms' ∧ ListAgrees l'.argOffset ms' := by
  intro h
  obtain ⟨hu, hp⟩ := paddedPairs_parsed .uchar
  obtain ⟨ms', l', halign⟩ : ∃ ms' l', alignMembers false noLayout (paddedPairs .uchar) =
    .ok (ms', l') := ⟨_, _, rfl⟩
  obtain ⟨hall, -⟩ := h _ ms' false noLayout l' hu hp rfl rfl halign
  obtain ⟨-, htail, -⟩ := membersNoWrap_of_agrees _ hu hp rfl halign hall
  exact absurd (htail.1 (List.cons_ne_nil _ _)) (by decide)

end OpenCpi.Value
