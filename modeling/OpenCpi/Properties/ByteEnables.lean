import OpenCpi.Hdl.ByteEnables

/-!
# What a consumer's byte enables mean

A bit of the consumer stands for some bytes of the data. It should be the or of the producer's bits for these
bytes, or the producer's bit for more bytes. The expression that is built and then stored nowhere would be right
for a consumer with fewer bits (`built_expr_kept_iff`).
-/

namespace OpenCpi.Hdl

/-- The bits of the other signal that a bit is the or of; `none` for a constant. -/
def Binding.reads : Binding → Nat → Option (List Nat)
  | .adapted _, _ => none
  | .whole _, k => some [k]
  | .low _ _, k => some [k]

/-- The same for an expression that begins with the highest of so many bits. -/
def Concatenation.reads (groups : Concatenation) (width k : Nat) : Option (List Nat) := groups[width - 1 - k]?

/-- The value of a bit of the consumer's byte enables, from the producer's. -/
def byteEnable (p c : Nat) (prod : Nat → Bool) (k : Nat) : Bool :=
  if c ≤ p then ((List.range (p / c)).map (k * (p / c) + ·)).any prod else prod (k / (c / p))

/-- **The byte enables keep their meaning** for widths `p` and `c`: only bits that exist are read, and each bit has
its value. -/
def Kept (p c : Nat) (reads : Nat → Option (List Nat)) : Prop :=
  ∀ k < c, ∃ bits, reads k = some bits ∧ (∀ i ∈ bits, i < p) ∧ ∀ prod, bits.any prod = byteEnable p c prod k

variable {lang : Language} {prod cons : OcpSignal} {a : Adjusted} {o : OtherEnd} {b : Binding} {p c : Nat}

/-- The consumer's record is left as it was, and one width is a multiple of the other. -/
theorem adjusted_both (h : adjustByteEnables lang (some prod) (some cons) = .ok a) : a.consumer = .empty ∧
    (cons.width < prod.width →
      prod.width % cons.width = 0 ∧ a.expr = orGroups (prod.width / cons.width) cons.width prod.width) ∧
    (prod.width < cons.width → a.expr = replicated cons.width) := by
  unfold adjustByteEnables at h
  dsimp only at h
  split at h
  · next hlt =>
    split at h
    · cases h
    · next hmod =>
      obtain rfl := Except.ok.inj h
      exact ⟨rfl, fun _ => ⟨not_not.mp hmod, rfl⟩, fun hgt => absurd hlt (Nat.lt_asymm hgt)⟩
  · next hnlt =>
    split at h
    · split at h
      · cases h
      · obtain rfl := Except.ok.inj h
        exact ⟨rfl, fun hlt => absurd hlt hnlt, fun _ => rfl⟩
    · next hngt =>
      obtain rfl := Except.ok.inj h
      exact ⟨rfl, fun hlt => absurd hlt hnlt, fun hgt => absurd hgt hngt⟩

/-- Without an expression, each bit is taken from the bit of its number. -/
theorem connect_reads (h : connectOcpSignal lang o cons prod .empty = some b) (k : Nat) : b.reads k = some [k] := by
  obtain ⟨temp, -, rfl⟩ := Option.map_eq_some_iff.mp h
  dsimp only [OcpAdapt.empty]
  split
  · rfl
  · rfl

theorem byteEnable_self (hp : 0 < p) (prod : Nat → Bool) (k : Nat) : byteEnable p p prod k = prod k := by
  unfold byteEnable
  rw [if_pos (Nat.le_refl p), Nat.div_self hp]
  simp

/-- **Which connections keep the meaning of byte enables**: those of equal widths. -/
theorem byteEnables_kept_iff (h : adjustByteEnables lang (some prod) (some cons) = .ok a)
    (hb : connectOcpSignal lang o cons prod a.consumer = some b) :
    Kept prod.width cons.width b.reads ↔ prod.width = cons.width := by
  obtain ⟨hempty, hfewer, -⟩ := adjusted_both h
  rw [hempty] at hb
  have hreads := connect_reads hb
  constructor
  · intro hkept
    rcases Nat.lt_trichotomy prod.width cons.width with hlt | heq | hgt
    · obtain ⟨bits, hbits, hexist, -⟩ := hkept prod.width hlt
      obtain rfl := Option.some.inj ((hreads _).symm.trans hbits)
      exact absurd (hexist prod.width (List.mem_singleton_self _)) (Nat.lt_irrefl _)
    · exact heq
    · -- the second bit of the producer belongs to the first of the consumer
      obtain ⟨bits, hbits, -, hvalue⟩ := hkept 0 cons.width_pos
      obtain rfl := Option.some.inj ((hreads _).symm.trans hbits)
      have hquot : 1 < prod.width / cons.width := by
        have hmod := Nat.div_add_mod prod.width cons.width
        rw [(hfewer hgt).1, Nat.add_zero] at hmod
        rcases Nat.lt_or_ge 1 (prod.width / cons.width) with hlt | hle
        · exact hlt
        · have hmul := Nat.mul_le_mul_left cons.width hle
          omega
      have hone := hvalue (· == 1)
      unfold byteEnable at hone
      rw [if_pos (Nat.le_of_lt hgt)] at hone
      have htrue : ((List.range (prod.width / cons.width)).map (0 * (prod.width / cons.width) + ·)).any (· == 1) = true :=
        List.any_eq_true.mpr ⟨1, List.mem_map.mpr ⟨1, List.mem_range.mpr hquot, by omega⟩, rfl⟩
      rw [htrue] at hone
      exact absurd hone (by decide)
  · intro heq k hk
    refine ⟨[k], hreads k, List.forall_mem_singleton.mpr (heq ▸ hk), fun bits => ?_⟩
    rw [heq, byteEnable_self cons.width_pos]
    simp

/-- Equal widths. -/
theorem equal_widths_kept : ∃ b, connectOcpSignal .verilog ⟨⟨"prod_out_", none⟩, 1, 1, 0⟩ ⟨4, by decide⟩ ⟨4, by decide⟩
    .empty = some b ∧ b.text .verilog = "prod_out_MByteEn" ∧ Kept 4 4 b.reads := by
  have ha : adjustByteEnables .verilog (some ⟨4, by decide⟩) (some ⟨4, by decide⟩) = .ok ⟨[], .empty, .empty⟩ := rfl
  have hb : connectOcpSignal .verilog ⟨⟨"prod_out_", none⟩, 1, 1, 0⟩ ⟨4, by decide⟩ ⟨4, by decide⟩
      (Adjusted.mk [] .empty .empty).consumer = some (.whole "prod_out_MByteEn") := by decide
  exact ⟨_, hb, rfl, (byteEnables_kept_iff ha hb).mpr rfl⟩

/-- Two bits of the producer for one of the consumer: the second is not read; and the other way around, where a bit
is read that the producer does not have. -/
theorem byte_enables_lost :
    (∃ a b, adjustByteEnables .verilog (some ⟨2, by decide⟩) (some ⟨1, by decide⟩) = .ok a ∧
      connectOcpSignal .verilog ⟨⟨"prod_out_", none⟩, 1, 1, 0⟩ ⟨1, by decide⟩ ⟨2, by decide⟩ a.consumer = some b ∧
        b.text .verilog = "prod_out_MByteEn[0:0]" ∧ ¬Kept 2 1 b.reads) ∧
      ∃ a b, adjustByteEnables .vhdl (some ⟨1, by decide⟩) (some ⟨2, by decide⟩) = .ok a ∧
        connectOcpSignal .vhdl ⟨⟨"prod_out", none⟩, 1, 1, 0⟩ ⟨2, by decide⟩ ⟨1, by decide⟩ a.consumer = some b ∧
          b.text .vhdl = "prod_out.MByteEn(1 downto 0)" ∧ ¬Kept 1 2 b.reads := by
  refine ⟨⟨_, _, rfl, rfl, by decide, fun hkept => ?_⟩, _, _, rfl, rfl, by decide, fun hkept => ?_⟩
  · obtain ⟨bits, hbits, -, hvalue⟩ := hkept 0 (by decide)
    obtain rfl := Option.some.inj hbits
    exact absurd (hvalue (· == 1)) (by decide)
  · obtain ⟨bits, hbits, hexist, -⟩ := hkept 1 (by decide)
    obtain rfl := Option.some.inj hbits
    exact absurd (hexist 1 (by decide)) (by decide)

/-! ## The expression that is not used -/

theorem countDown_eq (pw n : Nat) : countDown pw n = (List.range n).map (pw - 1 - ·) := by
  induction n generalizing pw with
  | zero => rfl
  | succ n ih =>
    rw [countDown, ih, List.range_succ_eq_map, List.map_cons, List.map_map]
    congr 1
    refine List.map_congr_left fun k _ => ?_
    show pw - 1 - 1 - k = pw - 1 - (k + 1)
    omega

theorem orGroups_getElem? (nper n pw k : Nat) (hk : k < n) :
    (orGroups nper n pw)[k]? = some (countDown (pw - k * nper) nper) := by
  induction n generalizing pw k with
  | zero => exact absurd hk (Nat.not_lt_zero k)
  | succ n ih =>
    cases k with
    | zero => rw [orGroups, List.getElem?_cons_zero, Nat.zero_mul, Nat.sub_zero]
    | succ k =>
      rw [orGroups, List.getElem?_cons_succ, ih _ _ (Nat.lt_of_succ_lt_succ hk), Nat.succ_mul, Nat.sub_sub,
        Nat.add_comm nper]

theorem countDown_any {pw n : Nat} (hle : n ≤ pw) (prod : Nat → Bool) :
    (countDown pw n).any prod = ((List.range n).map (pw - n + ·)).any prod := by
  rw [countDown_eq, Bool.eq_iff_iff, List.any_map, List.any_map, List.any_eq_true, List.any_eq_true]
  -- the same bits from the other end
  have hflip : ∀ k ∈ List.range n, n - 1 - k ∈ List.range n := fun k hk => by
    have hk := List.mem_range.mp hk
    exact List.mem_range.mpr (by omega)
  constructor
  · rintro ⟨k, hk, hbit⟩
    have hlt := List.mem_range.mp hk
    have heq : pw - 1 - k = pw - n + (n - 1 - k) := by omega
    exact ⟨n - 1 - k, hflip k hk, by rw [Function.comp_apply, ← heq]; exact hbit⟩
  · rintro ⟨k, hk, hbit⟩
    have hlt := List.mem_range.mp hk
    have heq : pw - n + k = pw - 1 - (n - 1 - k) := by omega
    exact ⟨n - 1 - k, hflip k hk, by rw [Function.comp_apply, ← heq]; exact hbit⟩

/-- For a consumer with fewer bits, the expression keeps their meaning. -/
theorem built_expr_kept (h : adjustByteEnables lang (some prod) (some cons) = .ok a) (hlt : cons.width < prod.width) :
    Kept prod.width cons.width (Concatenation.reads a.expr cons.width) := by
  obtain ⟨hmod, hexpr⟩ := (adjusted_both h).2.1 hlt
  have hmul : prod.width / cons.width * cons.width = prod.width := Nat.div_mul_cancel (Nat.dvd_of_mod_eq_zero hmod)
  intro k hk
  have hvalue : ∀ bits, byteEnable prod.width cons.width bits k = _ := fun bits => if_pos (Nat.le_of_lt hlt)
  revert hmul hexpr hvalue
  generalize prod.width / cons.width = nper
  intro hexpr hmul hvalue
  have hrest : prod.width - (cons.width - 1 - k) * nper = k * nper + nper := by
    have hsplit : (cons.width - 1 - k) + (k + 1) = cons.width := by omega
    calc prod.width - (cons.width - 1 - k) * nper
        = nper * ((cons.width - 1 - k) + (k + 1)) - (cons.width - 1 - k) * nper := by rw [hsplit, hmul]
      _ = k * nper + nper := by rw [Nat.mul_add, Nat.mul_comm nper, Nat.add_sub_cancel_left, Nat.mul_comm, Nat.succ_mul]
  have hwithin : k * nper + nper ≤ prod.width := by
    rw [← hrest]
    exact Nat.sub_le _ _
  refine ⟨countDown (k * nper + nper) nper, ?_, ?_, fun bits => ?_⟩
  · rw [Concatenation.reads, hexpr, orGroups_getElem? _ _ _ _ (by omega), hrest]
  · rw [countDown_eq]
    refine List.forall_mem_map.mpr fun j hj => ?_
    have hj := List.mem_range.mp hj
    omega
  · rw [hvalue, countDown_any (Nat.le_add_left nper _), Nat.add_sub_cancel]

/-- For one with more bits, it reads bits that are not there. -/
theorem built_expr_lost (h : adjustByteEnables lang (some prod) (some cons) = .ok a) (hgt : prod.width < cons.width) :
    ¬Kept prod.width cons.width (Concatenation.reads a.expr cons.width) := by
  have hexpr := (adjusted_both h).2.2 hgt
  intro hkept
  obtain ⟨bits, hbits, hexist, -⟩ := hkept prod.width hgt
  have hindex : cons.width - 1 - prod.width < cons.width := by omega
  rw [Concatenation.reads, hexpr, replicated, countDown_eq, List.map_map, List.getElem?_map, List.getElem?_range hindex]
    at hbits
  obtain rfl := Option.some.inj hbits
  have hbit : cons.width - 1 - (cons.width - 1 - prod.width) < prod.width := hexist _ (List.mem_singleton_self _)
  omega

/-- **Where the expression that is built would keep the meaning**: for a consumer with fewer bits. -/
theorem built_expr_kept_iff (h : adjustByteEnables lang (some prod) (some cons) = .ok a)
    (hne : prod.width ≠ cons.width) :
    Kept prod.width cons.width (Concatenation.reads a.expr cons.width) ↔ cons.width < prod.width := by
  rcases Nat.lt_or_gt_of_ne hne with hgt | hlt
  · exact iff_of_false (built_expr_lost h hgt) (Nat.lt_asymm hgt)
  · exact iff_of_true (built_expr_kept h hlt) hlt

end OpenCpi.Hdl
