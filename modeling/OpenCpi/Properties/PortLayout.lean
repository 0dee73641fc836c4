import OpenCpi.Hdl.Port
import OpenCpi.Properties.Exchange

/-!
# The buffers of an FPGA port stay in place, unless the size grows afterwards

`Port::connect` negotiates the size before the layout is computed. The packed steps and an external
input port do it the other way around: the layout is that of the port's own size, and then the size
may grow to the other's. An external output port is cut down to the port's size first.

One buffer may grow into the memory that is left; two or more overlap as soon as they grow.
-/

namespace OpenCpi.Hdl

open Infra
open Container (Role Descriptors Fault Params Adjusted setConnectParams checkExternal determineRoles
  check packPortDesc unpackPortDesc unpackPortDesc_packPortDesc roundUp bind_ok setConnectParams_ok)

/-! ## What is asked for -/

/-- The buffers and the metadata records do not overlap and lie in the memory. -/
structure Port.LayoutOk (q : Port) : Prop where
  apart : ApartList id q.spans
  within : ∀ s ∈ q.spans, s.Within ⟨0, q.ocdpSize⟩

/-- The port came from the constructor. -/
def Port.Made (q : Port) : Prop :=
  ∃ m provider ocdpSize place params, place.Ranged ∧ params.Ranged ∧
    create m provider ocdpSize place params = .ok q

/-- The buffer count that is asked for at the port. -/
def Port.count (q : Port) (params : Params) : Nat := params.bufferCount.getD q.data.nBuffers

/-- The buffer size that is asked for at the port. -/
def Port.size (q : Port) (params : Params) : Nat := params.bufferSize.getD q.data.dataBufferSize

/-- A layout for the port's own size has room for buffers of size `other`. -/
def Port.Keeps (q : Port) (params : Params) (other : Nat) : Prop :=
  q.count params = 0 ∨ roundUp other 16 ≤ roundUp (q.size params) 16 ∨
    (q.count params = 1 ∧ roundUp other 16 + ocdpMetadataSize ≤ q.ocdpSize)

/-- The condition for each way of connecting. -/
def Way.Keeps (q : Port) (params : Params) : Way → Prop
  | .connect _ _ => True
  | .inside => True
  | .external _ extParams =>
    q.base.provider ∨ q.Keeps params (extParams.bufferSize.getD q.metaPort.startSize)
  | .packed other _ => q.Keeps params other.dataBufferSize

/-- What comes from the other end fits its types. -/
def Way.Ranged : Way → Prop
  | .connect other otherParams => other.data.Ranged ∧ otherParams.Ranged
  | .inside => True
  | .external place extParams => place.Ranged ∧ extParams.Ranged
  | .packed other _ => other.Ranged

/-! ## Buffers and records in a memory -/

/-- `n` buffers at multiples of a pitch, and `n` records of 16 bytes from an offset on. -/
def rows (n pitch size offset : Nat) : List Span :=
  (List.range n).map (fun i => ⟨i * pitch, size⟩) ++
    (List.range n).map fun i => ⟨offset + i * 16, 16⟩

/-- They do not overlap and lie in a memory. -/
def RowsOk (n pitch size offset memory : Nat) : Prop :=
  ApartList id (rows n pitch size offset) ∧
    ∀ s ∈ rows n pitch size offset, s.Within ⟨0, memory⟩

variable {n pitch size offset memory : Nat}

/-- The buffers do not exceed the pitch. -/
theorem rowsOk_of_le (ho : offset + n * 16 = memory) (hf : n * (pitch + 16) ≤ memory)
    (hs : size ≤ pitch) : RowsOk n pitch size offset memory := by
  rw [Nat.mul_add] at hf
  -- buffer `i` ends before the records
  have hdata : ∀ i < n, i * pitch + size ≤ offset := by
    intro i hi
    have hnext : (i + 1) * pitch ≤ n * pitch := Nat.mul_le_mul_right _ hi
    rw [Nat.succ_mul] at hnext
    omega
  constructor
  · rw [rows, ApartList, List.pairwise_append]
    refine ⟨?_, ApartList.stride _ le_rfl n, ?_⟩
    · have hstride := ApartList.stride 0 hs n
      simp only [Nat.zero_add] at hstride
      exact hstride
    · intro a ha b hb
      obtain ⟨i, hi, rfl⟩ := List.mem_map.mp ha
      obtain ⟨j, -, rfl⟩ := List.mem_map.mp hb
      have hend := hdata i (List.mem_range.mp hi)
      refine Or.inr (Or.inr (Or.inl ?_))
      simp only [id, Span.stop]
      omega
  · intro s hs
    rcases List.mem_append.mp hs with hs | hs
    · obtain ⟨i, hi, rfl⟩ := List.mem_map.mp hs
      have hend := hdata i (List.mem_range.mp hi)
      simp only [Span.Within, Span.stop]
      omega
    · obtain ⟨i, hi, rfl⟩ := List.mem_map.mp hs
      have hi := List.mem_range.mp hi
      simp only [Span.Within, Span.stop]
      omega

/-- **When the rows are right**: the buffers do not exceed the pitch, or there is only one, and it
takes no more than what is left before its record. -/
theorem rowsOk_iff (ho : offset + n * 16 = memory) (hf : n * (pitch + 16) ≤ memory) :
    RowsOk n pitch size offset memory ↔
      n = 0 ∨ size ≤ pitch ∨ (n = 1 ∧ size + 16 ≤ memory) := by
  rcases n with _ | _ | n
  · have hrows : rows 0 pitch size offset = [] := rfl
    rw [RowsOk, hrows]
    exact ⟨fun _ => Or.inl rfl, fun _ => ⟨List.Pairwise.nil, fun s hs => absurd hs List.not_mem_nil⟩⟩
  · have hrows : rows 1 pitch size offset = [⟨0, size⟩, ⟨offset, 16⟩] := by
      simp only [rows, List.range_one, List.map_cons, List.map_nil, Nat.zero_mul, Nat.add_zero,
        List.cons_append, List.nil_append]
    rw [RowsOk, hrows]
    simp only [ApartList, List.pairwise_pair, List.mem_cons, List.not_mem_nil, or_false, forall_eq,
      forall_eq_or_imp, id, Span.Apart, Span.Within, Span.stop, true_and]
    omega
  · constructor
    · rintro ⟨hapart, -⟩
      -- the first two buffers
      have hpair := (List.pairwise_append.mp hapart).1
      rw [List.pairwise_map] at hpair
      have h₀₁ := List.pairwise_iff_getElem.mp hpair 0 1 (by simp) (by simp) (by omega)
      simp only [List.getElem_range, id, Span.Apart, Span.stop] at h₀₁
      omega
    · rintro (h | h | h)
      · omega
      · exact rowsOk_of_le ho hf h
      · omega

/-! ## The layout of a port -/

/-- The registers and the fixed fields of a port. -/
structure Port.Sane (q : Port) : Prop where
  external : q.base.canBeExternal = true
  ocdpSize : q.ocdpSize < 2 ^ 32
  count : q.data.nBuffers < 2 ^ 32
  addr : q.data.dataBufferBaseAddr < 2 ^ 32
  metaPitch : q.data.metaDataPitch = 16

/-- The layout is the one for buffers of `size` bytes. -/
structure Port.LaidOut (q : Port) (size : Nat) : Prop where
  pitch : q.data.dataBufferPitch = roundUp size 16
  metaData : q.metaOffset + q.data.nBuffers * 16 = q.ocdpSize
  fits : q.data.nBuffers * (roundUp size 16 + 16) ≤ q.ocdpSize
  metaPitch : q.data.metaDataPitch = 16

variable {q q' : Port} {params : Params} {other : Descriptors}

theorem Port.LaidOut.layoutOk_rows (h : q.LaidOut size) :
    q.LayoutOk ↔ q.data.nBuffers = 0 ∨ q.data.dataBufferSize ≤ roundUp size 16 ∨
      (q.data.nBuffers = 1 ∧ q.data.dataBufferSize + 16 ≤ q.ocdpSize) := by
  have hspans : q.spans = rows q.data.nBuffers (roundUp size 16) q.data.dataBufferSize q.metaOffset := by
    have hdata : q.dataSpan = fun i => ⟨i * roundUp size 16, q.data.dataBufferSize⟩ := by
      funext i
      rw [Port.dataSpan, h.pitch]
    have hmeta : q.metaSpan = fun i => ⟨q.metaOffset + i * 16, 16⟩ := by
      funext i
      rw [Port.metaSpan, h.metaPitch, ocdpMetadataSize]
    rw [Port.spans, rows, hdata, hmeta]
  rw [← rowsOk_iff h.metaData h.fits, RowsOk, ← hspans]
  exact ⟨fun hok => ⟨hok.apart, hok.within⟩, fun hok => ⟨hok.1, hok.2⟩⟩

/-- The offset of the metadata is computed in 32 bits, and is right. -/
theorem metaOffset_eq {a n m : Nat} (ha : a < 2 ^ 32) (hm : m < 2 ^ 32) (hn : n * 16 ≤ m) :
    ((a + m + 2 ^ 32 - n * 16 % 2 ^ 32) % 2 ^ 32 + 2 ^ 32 - a) % 2 ^ 32 + n * 16 = m := by
  omega

/-- **`startConnect`** lays out buffers of the size the port has then. -/
theorem startConnect_ok (hq : q.Sane) (h : startConnect q = .ok q') :
    q'.Sane ∧ q'.LaidOut q.data.dataBufferSize ∧ q'.data.nBuffers = q.data.nBuffers ∧
      q'.data.dataBufferSize = q.data.dataBufferSize ∧ q'.ocdpSize = q.ocdpSize ∧
      q'.base.provider = q.base.provider := by
  unfold startConnect at h
  rw [if_pos hq.external] at h
  by_cases hf : q.ocdpSize <
      q.data.nBuffers * (roundUp q.data.dataBufferSize ocdpLocalBufferAlign + ocdpMetadataSize) % 2 ^ 64
  · rw [if_pos hf] at h
    cases h
  rw [if_neg hf] at h
  by_cases hp : 2 ^ 32 ≤ roundUp q.data.dataBufferSize ocdpLocalBufferAlign
  · rw [if_pos hp] at h
    cases h
  rw [if_neg hp] at h
  injection h with h
  subst h
  -- the product does not wrap around
  have hpitch : roundUp q.data.dataBufferSize 16 + 16 ≤ 2 ^ 32 := by
    have hp : ¬2 ^ 32 ≤ roundUp q.data.dataBufferSize 16 := hp
    unfold roundUp at hp ⊢
    omega
  have hprod : q.data.nBuffers * (roundUp q.data.dataBufferSize 16 + 16) < 2 ^ 64 := by
    calc q.data.nBuffers * (roundUp q.data.dataBufferSize 16 + 16)
        ≤ q.data.nBuffers * 2 ^ 32 := Nat.mul_le_mul_left _ hpitch
      _ < 2 ^ 32 * 2 ^ 32 := Nat.mul_lt_mul_of_pos_right hq.count (by decide)
  have hfits : q.data.nBuffers * (roundUp q.data.dataBufferSize 16 + 16) ≤ q.ocdpSize := by
    have hf : ¬q.ocdpSize < q.data.nBuffers * (roundUp q.data.dataBufferSize 16 + 16) % 2 ^ 64 := hf
    rw [Nat.mod_eq_of_lt hprod] at hf
    exact not_lt.mp hf
  have hn : q.data.nBuffers * 16 ≤ q.ocdpSize :=
    (Nat.mul_le_mul_left _ (Nat.le_add_left 16 _)).trans hfits
  exact ⟨⟨hq.external, hq.ocdpSize, hq.count, hq.addr, hq.metaPitch⟩,
    ⟨rfl, metaOffset_eq hq.addr hq.ocdpSize hn, hfits, hq.metaPitch⟩, rfl, rfl, rfl, rfl⟩

/-! ## Parameters and negotiation -/

/-- What is asked for is what the parameters set. -/
theorem setConnectParams_asked {p p' : Container.Port} (h : setConnectParams p params = .ok p') :
    p'.data.nBuffers = params.bufferCount.getD p.data.nBuffers ∧
      p'.data.dataBufferSize = params.bufferSize.getD p.data.dataBufferSize := by
  obtain ⟨p₁, h₁, h⟩ := bind_ok h
  obtain ⟨p₂, h₂, h⟩ := bind_ok h
  have hcount : p₁.data.nBuffers = params.bufferCount.getD p.data.nBuffers ∧
      p₁.data.dataBufferSize = p.data.dataBufferSize := by
    unfold Container.setBufferCount at h₁
    cases hc : params.bufferCount with
    | none =>
      rw [hc] at h₁
      cases h₁
      exact ⟨rfl, rfl⟩
    | some n =>
      rw [hc] at h₁
      by_cases hn : n < p.minBufferCount
      · simp only [if_pos hn] at h₁
        cases h₁
      · simp only [if_neg hn] at h₁
        cases h₁
        exact ⟨rfl, rfl⟩
  have hsize : p₂.data.nBuffers = p₁.data.nBuffers ∧
      p₂.data.dataBufferSize = params.bufferSize.getD p₁.data.dataBufferSize := by
    unfold Container.setBufferSize at h₂
    cases hc : params.bufferSize with
    | none =>
      rw [hc] at h₂
      cases h₂
      exact ⟨rfl, rfl⟩
    | some n =>
      rw [hc] at h₂
      by_cases hn : n < p₁.minBufferSize
      · simp only [if_pos hn] at h₂
        cases h₂
      · simp only [if_neg hn] at h₂
        cases h₂
        exact ⟨rfl, rfl⟩
  have hrole : p'.data.nBuffers = p₂.data.nBuffers ∧
      p'.data.dataBufferSize = p₂.data.dataBufferSize := by
    rcases Container.setXferRole_ok h with rfl | ⟨r, -, rfl⟩
    · exact ⟨rfl, rfl⟩
    · exact ⟨rfl, rfl⟩
  rw [hrole.1, hrole.2, hsize.1, hsize.2, hcount.1, hcount.2]
  exact ⟨rfl, rfl⟩

/-- The port after its parameters are set. -/
structure Asked (params : Params) (q q' : Port) : Prop where
  count : q'.data.nBuffers = q.count params
  size : q'.data.dataBufferSize = q.size params
  ocdpSize : q'.ocdpSize = q.ocdpSize
  provider : q'.base.provider = q.base.provider
  sane : q.Sane → params.Ranged → q'.Sane

theorem setParams_ok (h : setParams q params = .ok q') : Asked params q q' := by
  obtain ⟨p, hp, h⟩ := bind_ok h
  cases h
  obtain ⟨hcount, hsize⟩ := setConnectParams_asked hp
  have hadj := setConnectParams_ok hp
  refine ⟨hcount, hsize, rfl, hadj.provider, ?_⟩
  intro hq hr
  obtain ⟨n, k, r, o, rfl⟩ := hadj.rest
  refine ⟨hq.external, hq.ocdpSize, ?_, hq.addr, hq.metaPitch⟩
  rcases hadj.count with hc | hc
  · exact lt_of_eq_of_lt hc hq.count
  · exact hr.count _ hc

/-- **Parameters, then the layout**: it is for the size that is asked for. -/
theorem applyConnectParams_ok (hq : q.Sane) (hr : params.Ranged)
    (h : applyConnectParams q params = .ok q') :
    Asked params q q' ∧ q'.LaidOut (q.size params) := by
  obtain ⟨q₁, h₁, h⟩ := bind_ok h
  have hasked := setParams_ok h₁
  obtain ⟨hsane, hlaid, hcount, hsize, hocdp, hprov⟩ := startConnect_ok (hasked.sane hq hr) h
  refine ⟨⟨hcount.trans hasked.count, hsize.trans hasked.size, hocdp.trans hasked.ocdpSize,
    hprov.trans hasked.provider, fun _ _ => hsane⟩, ?_⟩
  rw [← hasked.size]
  exact hlaid

/-- **The negotiation** changes the size, and none of the layout. -/
theorem determine_ok (h : determine q other = .ok q') :
    q'.data.dataBufferSize = roundUp (max q.data.dataBufferSize other.dataBufferSize) 16 ∧
      ∃ r, q' = q.withData (q.data.settle r q'.data.dataBufferSize) := by
  unfold determine at h
  by_cases hp : q.base.provider = true
  · rw [if_pos hp] at h
    obtain ⟨ends, he, h⟩ := bind_ok h
    cases h
    obtain ⟨roles, -, he⟩ := bind_ok he
    dsimp only at he
    split at he
    · cases he
    · injection he with he
      subst he
      refine ⟨?_, roles.2, rfl⟩
      show roundUp (max other.dataBufferSize q.data.dataBufferSize) _ = _
      rw [max_comm]
      rfl
  · rw [if_neg hp] at h
    obtain ⟨ends, he, h⟩ := bind_ok h
    cases h
    obtain ⟨roles, -, he⟩ := bind_ok he
    dsimp only at he
    split at he
    · cases he
    · injection he with he
      subst he
      exact ⟨rfl, roles.1, rfl⟩

theorem roundUp_max_le {a b : Nat} : roundUp (max a b) 16 ≤ roundUp a 16 ↔ roundUp b 16 ≤ roundUp a 16 := by
  unfold roundUp
  omega

/-- **The size may grow after the layout** exactly if there is room. -/
theorem layoutOk_determine_iff {q₁ : Port} (hasked : Asked params q q₁)
    (hlaid : q₁.LaidOut (q.size params)) (h : determine q₁ other = .ok q') :
    q'.LayoutOk ↔ q.Keeps params other.dataBufferSize := by
  obtain ⟨hsize, r, hq'⟩ := determine_ok h
  have hlaid' : q'.LaidOut (q.size params) := by
    rw [hq']
    exact ⟨hlaid.pitch, hlaid.metaData, hlaid.fits, hlaid.metaPitch⟩
  have hcount : q'.data.nBuffers = q.count params := by
    rw [hq']
    exact hasked.count
  have hocdp : q'.ocdpSize = q.ocdpSize := by
    rw [hq']
    exact hasked.ocdpSize
  rw [hlaid'.layoutOk_rows, hcount, hocdp, hsize, hasked.size, roundUp_max_le, Port.Keeps,
    ocdpMetadataSize]
  unfold roundUp
  omega

/-! ## The ways of connecting -/

/-- A layout for the size that the port has. -/
theorem layoutOk_of_startConnect (hq : q.Sane) (h : startConnect q = .ok q') : q'.LayoutOk := by
  obtain ⟨-, hlaid, -, hsize, -⟩ := startConnect_ok hq h
  rw [hlaid.layoutOk_rows]
  refine Or.inr (Or.inl ?_)
  rw [hsize]
  unfold roundUp
  omega

/-- The constructor leaves a port with a layout. -/
theorem Port.Made.sane (h : q.Made) : q.Sane ∧ q.LayoutOk := by
  obtain ⟨m, provider, ocdpSize, place, params, hplace, hparams, h⟩ := h
  obtain ⟨base, hb, h⟩ := bind_ok h
  obtain ⟨q₁, hq₁, hstart⟩ := bind_ok h
  have hasked := setParams_ok hq₁
  have hadj := setConnectParams_ok hb
  obtain ⟨n, k, r, o, rfl⟩ := hadj.rest
  have haddr : place.dataBufferBaseAddr < 2 ^ 32 :=
    hplace.words _ (by simp [Descriptors.words])
  have hcount : n < 2 ^ 32 := by
    rcases hadj.count with hc | hc
    · exact lt_of_eq_of_lt hc (Nat.mod_lt _ (by decide))
    · exact hparams.count _ hc
  have hsane := hasked.sane ⟨rfl, Nat.mod_lt _ (by decide), hcount, haddr, rfl⟩ hparams
  exact ⟨(startConnect_ok hsane hstart).1, layoutOk_of_startConnect hsane hstart⟩

variable {c : Calls} {native : Bool}

theorem determine_sane (hq : q.Sane) (h : determine q other = .ok q') : q'.Sane := by
  obtain ⟨-, r, hq'⟩ := determine_ok h
  rw [hq']
  exact ⟨hq.external, hq.ocdpSize, hq.count, hq.addr, hq.metaPitch⟩

/-- **In one process** the layout is for the negotiated size. -/
theorem layoutOk_connect {other : Container.Port} {otherParams : Params} (hq : q.Sane)
    (hr : params.Ranged) (h : connect c q params other otherParams = .ok q') : q'.LayoutOk := by
  unfold connect at h
  by_cases hp : q.base.provider = true
  · rw [if_pos hp] at h
    split at h
    · cases h
    obtain ⟨-, -, h⟩ := bind_ok h
    obtain ⟨-, -, h⟩ := bind_ok h
    obtain ⟨q₁, h₁, h⟩ := bind_ok h
    obtain ⟨other₁, -, h⟩ := bind_ok h
    obtain ⟨q₂, h₂, h⟩ := bind_ok h
    obtain ⟨q₃, h₃, h⟩ := bind_ok h
    obtain ⟨-, -, h⟩ := bind_ok h
    obtain ⟨-, -, h⟩ := bind_ok h
    cases h
    exact layoutOk_of_startConnect (determine_sane ((setParams_ok h₁).sane hq hr) h₂) h₃
  · rw [if_neg hp] at h
    split at h
    · obtain ⟨-, -, h⟩ := bind_ok h
      obtain ⟨-, -, h⟩ := bind_ok h
      obtain ⟨other₁, -, h⟩ := bind_ok h
      obtain ⟨q₁, h₁, h⟩ := bind_ok h
      obtain ⟨q₂, h₂, h⟩ := bind_ok h
      obtain ⟨-, -, h⟩ := bind_ok h
      obtain ⟨q₃, h₃, h⟩ := bind_ok h
      obtain ⟨-, -, h⟩ := bind_ok h
      cases h
      exact layoutOk_of_startConnect (determine_sane ((setParams_ok h₁).sane hq hr) h₂) h₃
    · cases h

theorem layoutOk_connectInside (hq : q.Sane) (hok : q.LayoutOk) (hr : params.Ranged)
    (h : connectInside c q params = .ok q') : q'.LayoutOk := by
  unfold connectInside at h
  split at h
  · obtain ⟨q₁, h₁, h⟩ := bind_ok h
    obtain ⟨q₂, h₂, h⟩ := bind_ok h
    obtain ⟨-, -, h⟩ := bind_ok h
    cases h
    exact layoutOk_of_startConnect ((setParams_ok h₁).sane hq hr) h₂
  · obtain ⟨-, -, h⟩ := bind_ok h
    obtain ⟨-, -, h⟩ := bind_ok h
    cases h
    exact hok

/-- **External ports.** An output is cut down to the port's size, an input is not. -/
theorem layoutOk_connectExternal_iff {place : Descriptors} {extParams : Params} (hq : q.Sane)
    (hr : params.Ranged) (h : connectExternal c place q params extParams = .ok q') :
    q'.LayoutOk ↔
      q.base.provider ∨ q.Keeps params (extParams.bufferSize.getD q.metaPort.startSize) := by
  obtain ⟨ext, hext, h⟩ := bind_ok h
  have hsize := (setConnectParams_asked hext).2
  by_cases hp : q.base.provider = true
  · rw [if_pos hp] at h
    obtain ⟨q₁, h₁, h⟩ := bind_ok h
    obtain ⟨-, -, h⟩ := bind_ok h
    obtain ⟨q₂, h₂, h⟩ := bind_ok h
    obtain ⟨-, -, h⟩ := bind_ok h
    cases h
    obtain ⟨hasked, hlaid⟩ := applyConnectParams_ok hq hr h₁
    rw [layoutOk_determine_iff hasked hlaid h₂]
    refine ⟨fun _ => Or.inl hp, fun _ => Or.inr (Or.inl ?_)⟩
    have hmin : (createOutputPort place ext.data q₁.data).dataBufferSize ≤ q₁.data.dataBufferSize :=
      Nat.min_le_right _ _
    rw [hasked.size] at hmin
    exact Nat.mul_le_mul_right _ (Nat.div_le_div_right (Nat.add_le_add_right hmin _))
  · rw [if_neg hp] at h
    obtain ⟨ext', hext', h⟩ := bind_ok h
    obtain ⟨-, -, h⟩ := bind_ok h
    obtain ⟨q₁, h₁, h⟩ := bind_ok h
    obtain ⟨q₂, h₂, h⟩ := bind_ok h
    obtain ⟨-, -, h⟩ := bind_ok h
    cases h
    obtain ⟨hasked, hlaid⟩ := applyConnectParams_ok hq hr h₁
    have hsame : (createInputPort place ext'.data).dataBufferSize =
        extParams.bufferSize.getD q.metaPort.startSize := by
      show ext'.data.dataBufferSize = _
      rw [(setConnectParams_asked hext').2, hsize]
      cases extParams.bufferSize with
      | none => rfl
      | some n => rfl
    rw [layoutOk_determine_iff hasked hlaid h₂, hsame]
    exact ⟨Or.inr, fun hor => hor.resolve_left hp⟩

/-- **The packed steps**, on either side. -/
theorem layoutOk_connectPacked_iff {last : Bool} (hq : q.Sane) (hr : params.Ranged)
    (ho : other.Ranged) (h : connectPacked native c q params other last = .ok q') :
    q'.LayoutOk ↔ q.Keeps params other.dataBufferSize := by
  unfold connectPacked at h
  split at h
  · obtain ⟨⟨q₁, out⟩, h₁, h⟩ := bind_ok h
    obtain ⟨-, -, h₁⟩ := bind_ok h₁
    obtain ⟨-, -, h₁⟩ := bind_ok h₁
    obtain ⟨q₂, h₂, h₁⟩ := bind_ok h₁
    cases h₁
    obtain ⟨-, -, h⟩ := bind_ok h
    obtain ⟨q₃, h₃, h⟩ := bind_ok h
    obtain ⟨-, -, h⟩ := bind_ok h
    cases h
    obtain ⟨hasked, hlaid⟩ := applyConnectParams_ok hq hr h₂
    rw [unpackPortDesc_packPortDesc native ho] at h₃
    exact layoutOk_determine_iff hasked hlaid h₃
  · obtain ⟨⟨q₁, out⟩, h₁, h⟩ := bind_ok h
    obtain ⟨-, -, h₁⟩ := bind_ok h₁
    obtain ⟨-, -, h₁⟩ := bind_ok h₁
    obtain ⟨q₂, h₂, h₁⟩ := bind_ok h₁
    obtain ⟨q₃, h₃, h₁⟩ := bind_ok h₁
    obtain ⟨-, -, h₁⟩ := bind_ok h₁
    cases h₁
    have hsame : q' = q₁ := by
      dsimp only at h
      split at h
      · obtain ⟨-, -, h⟩ := bind_ok h
        obtain ⟨-, -, h⟩ := bind_ok h
        cases h
        rfl
      · cases h
        rfl
    obtain ⟨hasked, hlaid⟩ := applyConnectParams_ok hq hr h₂
    rw [unpackPortDesc_packPortDesc native ho] at h₃
    rw [hsame]
    exact layoutOk_determine_iff hasked hlaid h₃

/-- **When the layout stays valid**, whichever way a port is connected. -/
theorem layoutOk_iff (native : Bool) (c : Calls) (q q' : Port) (params : Params) (w : Way)
    (hq : q.Made) (hr : params.Ranged) (hw : w.Ranged) (h : w.run native c q params = .ok q') :
    q'.LayoutOk ↔ w.Keeps q params := by
  obtain ⟨hsane, hok⟩ := hq.sane
  cases w with
  | connect other otherParams =>
    exact ⟨fun _ => trivial, fun _ => layoutOk_connect hsane hr h⟩
  | inside =>
    exact ⟨fun _ => trivial, fun _ => layoutOk_connectInside hsane hok hr h⟩
  | external place extParams => exact layoutOk_connectExternal_iff hsane hr h
  | packed other last => exact layoutOk_connectPacked_iff hsane hr hw h

/-! ## A size that grows -/

/-- Nothing at the other end throws. -/
def contentCalls : Calls := ⟨.ok (), .ok (), .ok ()⟩

def sampleMeta : MetaPort := ⟨"out", 1, 0, 64⟩

/-- The parameters of a port with buffers of `size` bytes, if a size is given. -/
def sampleParams (size : Option Nat) : Params := ⟨none, size, none⟩

/-- A place in an endpoint. -/
def samplePlace : Descriptors :=
  ⟨1, none, 0, 0, 4096, 0, 0, 0, 0, 0, 0, 0, 0, 0, 0, 0, 0, 7, [111], 9⟩

theorem samplePlace_ranged : samplePlace.Ranged :=
  ⟨by decide, by decide, by decide, by decide⟩

/-- The external port has buffers of the same size: the layout stays. -/
theorem layoutOk_same_size :
    ∃ q q', create sampleMeta false 8192 samplePlace (sampleParams none) = .ok q ∧
      (Way.external samplePlace (sampleParams none)).run true contentCalls q (sampleParams none) =
        .ok q' ∧ q'.LayoutOk := by
  refine ⟨_, _, rfl, rfl, ?_⟩
  refine (layoutOk_iff true contentCalls _ _ (sampleParams none)
    (.external samplePlace (sampleParams none)) ⟨sampleMeta, false, 8192, samplePlace,
      sampleParams none, samplePlace_ranged, ⟨nofun, nofun⟩, rfl⟩ ⟨nofun, nofun⟩
    ⟨samplePlace_ranged, ⟨nofun, nofun⟩⟩ rfl).mpr ?_
  exact Or.inr (Or.inr (Or.inl (by decide)))

/-- The external port asks for larger buffers: the two buffers overlap. -/
theorem layout_broken :
    ∃ q q', create sampleMeta false 8192 samplePlace (sampleParams none) = .ok q ∧
      (Way.external samplePlace (sampleParams (some 2048))).run true contentCalls q
        (sampleParams none) = .ok q' ∧ ¬q'.LayoutOk := by
  refine ⟨_, _, rfl, rfl, ?_⟩
  intro hok
  exact absurd hok.apart (by decide)

end OpenCpi.Hdl
