import OpenCpi.Properties.Driver

/-!
# Memory goes back once and only when nobody uses it, as long as the driver does not split

A block that was cut still has the size of the whole kernel allocation, so the driver takes it for
a completely joined one and gives all pages back while the other part is in use. In a run in which
every request fits its block exactly, pages go back at most once and only when no block of their
allocation is in use, and once all files and mappings are closed the reserved memory is one free
block again.

The driver keeps no record of what it gave back; `History` keeps one beside it.
-/

namespace OpenCpi.Driver

open Infra

/-! ## A record of what was given back -/

/-- `do_merge` of `release_block`. -/
def closeMerges (w : World) (id : Nat) : Bool := w.blocks.any fun b => b.id = id && b.release.2

/-- `do_merge` of `opencpi_io_release`. -/
def releaseMerges (w : World) (file : Nat) : Bool :=
  (((w.blocks.filter fun b => b.file == some file).getLast?).map (·.release.2)).getD false

theorem vmaClose_eq (w : World) (id : Nat) : vmaClose w id =
    (if closeMerges w id then (closeRefs w id).merge else closeRefs w id).prune := rfl

theorem ioRelease_eq (w : World) (file : Nat) : ioRelease w file =
    (if releaseMerges w file then (dropFile w file).merge else dropFile w file).prune := rfl

/-- The blocks whose pages a step gives back to the kernel. -/
def givenBack (w : World) : Op → List Block
  | .close id => if closeMerges w id then (mergeFreeMemory (closeRefs w id).blocks).2 else []
  | .release file =>
    if releaseMerges w file then (mergeFreeMemory (dropFile w file).blocks).2 else []
  | _ => []

/-- Pages that were given back, with the driver before and after the step that did it. -/
structure Gift where
  pages : Block
  before : World
  after : World
deriving DecidableEq

/-- A driver and what it has given back, the latest first. -/
structure History where
  world : World
  given : List Gift
deriving DecidableEq

def historyStep (s : History) (op : Op) : Option History :=
  (step s.world op).map fun w' =>
    ⟨w', (givenBack s.world op).map (⟨·, s.world, w'⟩) ++ s.given⟩

variable {w w' w₀ : World} {s s' : History} {b c : Block} {lo : Nat}

theorem held_take {file : Option Nat} {actual : Nat} {cached : Cached}
    (h : w.take file actual cached = some w') : w'.held = w.held := by
  obtain ⟨r, -, rfl⟩ := Option.map_eq_some_iff.mp h
  rfl

theorem held_requestMemory {file : Option Nat} {needed : Nat} {cached : Cached}
    {ans : KernelAnswer} (h : requestMemory w file needed cached ans = some w') :
    ∃ new, w'.held = new ++ w.held := by
  unfold requestMemory at h
  dsimp only at h
  split at h
  · cases h
    exact ⟨[], rfl⟩
  · split at h
    · next w₁ htake =>
      cases h
      exact ⟨[], held_take htake⟩
    · split at h
      · cases h
        exact ⟨[], rfl⟩
      · split at h
        · cases h
          exact ⟨[], rfl⟩
        · next phys _ =>
          split at h
          · split at h
            · cases h
              refine ⟨[⟨phys, pageSize * 2 ^ getOrder (pageAlign needed)⟩], ?_⟩
              cases htake : (w.addPages phys (getOrder (pageAlign needed))).take file
                  (pageAlign needed) cached with
              | none => rfl
              | some w₂ => exact held_take htake
            · cases h
              exact ⟨[], rfl⟩
          · cases h

/-- What is given back leaves `held`, and nothing else does. -/
theorem held_step {op : Op} (hs : step w op = some w') : ∃ new,
    w'.held = (givenBack w op).foldl (fun h b => h.erase b.span) (new ++ w.held) := by
  cases op with
  | request file needed cached ans =>
    simp only [step, Option.ite_none_right_eq_some] at hs
    exact held_requestMemory hs.2
  | mmap start size remapped =>
    simp only [step, Option.ite_none_right_eq_some, Option.some.injEq] at hs
    refine ⟨[], ?_⟩
    rw [← hs.2, ioMmap]
    split
    · split <;> rfl
    · rfl
  | mmapDevice id =>
    simp only [step, Option.ite_none_right_eq_some, Option.some.injEq] at hs
    exact ⟨[], by rw [← hs.2]; rfl⟩
  | fork id =>
    simp only [step, Option.ite_none_right_eq_some, Option.some.injEq] at hs
    exact ⟨[], by rw [← hs.2]; rfl⟩
  | close id =>
    simp only [step, Option.ite_none_right_eq_some, Option.some.injEq] at hs
    refine ⟨[], ?_⟩
    rw [← hs.2, givenBack, vmaClose_eq]
    split <;> rfl
  | release file =>
    simp only [step, Option.some.injEq] at hs
    refine ⟨[], ?_⟩
    rw [← hs, givenBack, ioRelease_eq]
    split <;> rfl

/-! ## What the driver promises -/

/-- No block of the allocation is in use after the pages went back: neither by a granted request nor
by a mapping. -/
def Gift.unused (g : Gift) : Prop :=
  ∀ c ∈ g.before.blocks, c.kernelAllocId = g.pages.kernelAllocId →
    c.id ∉ g.after.vmas ∧ ∀ a ∈ g.after.allocations, a.block ≠ c.id

instance (g : Gift) : Decidable g.unused :=
  inferInstanceAs (Decidable (∀ c ∈ _, _ → _ ∧ ∀ a ∈ _, _))

/-- All files that requested memory are released and all mappings are closed. -/
def World.quiet (w : World) : Prop := w.vmas = [] ∧ ∀ b ∈ w.blocks, b.file = none

structure Returned (w₀ : World) (s : History) : Prop where
  once : (s.given.map (·.pages.kernelAllocId)).Nodup
  unused : ∀ g ∈ s.given, g.unused
  reserved : s.world.quiet → ∀ r ∈ w₀.blocks, r.type = .reserved →
    ∃ b ∈ s.world.blocks, b.available ∧ b.span = r.span ∧
      ∀ c ∈ s.world.blocks, c.type = .reserved → c = b

/-- The state after `opencpi_init`, which makes at most one reserved block. -/
structure Initialised (w : World) : Prop extends Booted w where
  one : (w.blocks.filter (·.type == .reserved)).length ≤ 1

/-! ## The invariant -/

/-- A block in use has a reference. -/
def Busy (blocks : List Block) : Prop := ∀ b ∈ blocks, b.available = false → 0 < b.refcnt

/-- The reserved memory among some regions. -/
def reservedRegions (l : List Region) : List Region := l.filter (·.type == .reserved)

/-- **The invariant**, beside `Inv`: a block in use has a reference, the reserved memory is as it was
at boot, and what was given back is gone. -/
structure Kept (w₀ : World) (s : History) : Prop where
  busy : Busy s.world.blocks
  reserved : reservedRegions (s.world.blocks.map Block.region) =
    reservedRegions (w₀.blocks.map Block.region)
  once : (s.given.map (·.pages.kernelAllocId)).Nodup
  old : ∀ g ∈ s.given, g.pages.kernelAllocId ≠ 0 ∧ g.pages.kernelAllocId ≤ s.world.kernelAllocId
  gone : ∀ g ∈ s.given, ∀ r ∈ s.world.blocks.map Block.region,
    r.kernelAllocId ≠ g.pages.kernelAllocId
  unused : ∀ g ∈ s.given, g.unused

/-- Nothing is given back and the blocks stand for the same memory as before. -/
theorem Kept.of_regions (h : Kept w₀ s)
    (hregions : w'.blocks.map Block.region = s.world.blocks.map Block.region)
    (halloc : w'.kernelAllocId = s.world.kernelAllocId)
    (hbusy : Busy w'.blocks) : Kept w₀ ⟨w', s.given⟩ where
  busy := hbusy
  reserved := hregions.symm ▸ h.reserved
  once := h.once
  old := halloc.symm ▸ h.old
  gone := hregions.symm ▸ h.gone
  unused := h.unused

/-- Fresh kernel pages become the first block. -/
theorem Kept.cons (h : Kept w₀ s)
    (hregions : w'.blocks.map Block.region = b.region :: s.world.blocks.map Block.region)
    (htype : b.type = .kernel) (hid : b.kernelAllocId = s.world.kernelAllocId + 1)
    (halloc : w'.kernelAllocId = s.world.kernelAllocId + 1)
    (hbusy : Busy w'.blocks) : Kept w₀ ⟨w', s.given⟩ where
  busy := hbusy
  reserved := by
    rw [← h.reserved, hregions]
    exact List.filter_cons_of_neg (by simp [Block.region, htype])
  once := h.once
  old := fun g hg => ⟨(h.old g hg).1, halloc.symm ▸ Nat.le_succ_of_le (h.old g hg).2⟩
  gone := by
    intro g hg r hr
    rw [hregions] at hr
    rcases List.mem_cons.mp hr with rfl | hr
    · have := (h.old g hg).2
      show b.kernelAllocId ≠ _
      omega
    · exact h.gone g hg r hr
  unused := h.unused

/-! ## Merging joins nothing -/

theorem mergeFrom_eq_filter : ∀ (rest : List Block) (b : Block),
    (b :: rest).Pairwise (fun b c => ¬b.joins c) →
    mergeFrom b rest = ((b :: rest).filter (!·.isWhole), (b :: rest).filter (·.isWhole))
  | [], b, _ => by
    rw [mergeFrom]
    split
    · next hw => simp [hw]
    · next hw => simp [hw]
  | next :: rest, b, h => by
    obtain ⟨hb, hrest⟩ := List.pairwise_cons.mp h
    rw [mergeFrom, if_neg (hb next List.mem_cons_self), mergeFrom_eq_filter rest next hrest]
    rw [List.filter_cons (x := b), List.filter_cons (x := b)]
    dsimp only
    split
    · next hw => simp only [hw, Bool.not_true, Bool.false_eq_true, if_false]
    · next hw => simp only [hw, Bool.not_false, if_true]

theorem mergeFreeMemory_eq_filter {blocks : List Block}
    (h : blocks.Pairwise fun b c => ¬b.joins c) :
    mergeFreeMemory blocks = (blocks.filter (!·.isWhole), blocks.filter (·.isWhole)) := by
  cases blocks with
  | nil => rfl
  | cons b rest => exact mergeFrom_eq_filter rest b h

/-- Free neighbours of one allocation id would both be reserved memory. -/
theorem pairwise_not_joins (h : Inv lo w)
    (hone : (reservedRegions (w.blocks.map Block.region)).length ≤ 1) :
    w.blocks.Pairwise fun b c => ¬b.joins c := by
  have hres : (reservedRegions (w.blocks.map Block.region)).Pairwise fun _ _ => False := by
    match hl : reservedRegions (w.blocks.map Block.region), hone with
    | [], _ => exact List.Pairwise.nil
    | [r], _ => exact List.pairwise_singleton _ r
  rw [reservedRegions, List.pairwise_filter, List.pairwise_map] at hres
  have hids := List.pairwise_map.mp h.layout.kernelIds
  refine (hres.and hids).imp_of_mem ?_
  intro b c hb hc hbc hj
  obtain ⟨hab, hac, -, hid⟩ := joins_spec hj
  have hzero : b.kernelAllocId = 0 := hbc.2 hid
  -- neither is kernel memory, and a device block is never free
  have hreserved : ∀ d ∈ w.blocks, d.available → d.kernelAllocId = 0 → d.type = .reserved := by
    intro d hd had hdz
    have hkernel := (h.layout.ok _ (List.mem_map_of_mem hd)).kernel
    have hmmio := ((h.refs d hd).free had).1
    cases ht : d.type with
    | mmio => exact absurd ht hmmio
    | reserved => rfl
    | kernel => exact absurd hdz (hkernel.mp ht)
  have hb' := hreserved b hb hab hzero
  have hc' := hreserved c hc hac (hid ▸ hzero)
  exact hbc.1 (by simp [Block.region, hb']) (by simp [Block.region, hc'])

theorem Inv.nodup_blocks (h : Inv lo w) : w.blocks.Nodup := by
  have hids := h.layout.ids
  rw [List.map_map] at hids
  exact hids.of_map

/-- A kernel allocation has one block. -/
theorem Inv.eq_of_kernelAllocId (h : Inv lo w) (hb : b ∈ w.blocks) (hc : c ∈ w.blocks)
    (hid : b.kernelAllocId = c.kernelAllocId) (hpos : b.kernelAllocId ≠ 0) : b = c := by
  by_contra hne
  have hids := List.pairwise_map.mp h.layout.kernelIds
  have hsymm : Std.Symm fun b c : Block =>
      b.region.kernelAllocId = c.region.kernelAllocId → b.region.kernelAllocId = 0 :=
    ⟨fun _ _ hxy heq => heq.trans (hxy heq.symm)⟩
  exact hpos (hids.forall hb hc hne hid)

theorem isWhole_spec (h : b.isWhole) : b.available ∧ b.type = .kernel := by
  simp only [Block.isWhole, Bool.and_eq_true, beq_iff_eq] at h
  exact h.1

/-- No block of a free kernel allocation is in use. -/
theorem unused_of_isWhole {w₁ : World} (h : Inv lo w₁.prune)
    (hregions : w₁.blocks.map Block.region = w.blocks.map Block.region) (hb : b ∈ w₁.blocks)
    (hwhole : b.isWhole) (hvmas : w'.vmas = w₁.vmas)
    (hallocs : w'.allocations = w₁.prune.allocations) : Gift.unused ⟨b, w, w'⟩ := by
  obtain ⟨hfree, hkernel⟩ := isWhole_spec hwhole
  have hpos : b.kernelAllocId ≠ 0 :=
    (h.layout.ok _ (List.mem_map_of_mem hb)).kernel.mp hkernel
  intro c hc hid
  have hmem : c.region ∈ w₁.blocks.map Block.region := hregions ▸ List.mem_map_of_mem hc
  obtain ⟨c₁, hc₁, heq⟩ := List.mem_map.mp hmem
  simp only [Block.region, Region.mk.injEq] at heq
  have hsame : b = c₁ := h.eq_of_kernelAllocId (w := w₁.prune) hb hc₁ (hid.symm.trans heq.2.2.2.2.symm) hpos
  rw [← heq.1, ← hsame]
  refine ⟨?_, ?_⟩
  · show b.id ∉ w'.vmas
    rw [hvmas]
    exact ((h.refs b hb).free hfree).2.1
  · intro a ha heqa
    have ha : a ∈ w₁.prune.allocations := hallocs ▸ ha
    obtain ⟨d, hd, ho⟩ := h.owned a ha
    have hdb : d = b := h.eq_of_id hd hb (ho.block.trans heqa)
    have hused := ho.used
    rw [hdb, hfree] at hused
    exact absurd hused (by decide)

/-- Free blocks are merged after the references were dropped. -/
theorem Kept.merge {w₁ : World} (h : Kept w₀ s) (hinv : Inv lo w₁.prune)
    (hone : (reservedRegions (w₀.blocks.map Block.region)).length ≤ 1)
    (hregions : w₁.blocks.map Block.region = s.world.blocks.map Block.region)
    (halloc : w₁.kernelAllocId = s.world.kernelAllocId)
    (hbusy : Busy w₁.blocks) :
    Kept w₀ ⟨w₁.merge.prune,
      (mergeFreeMemory w₁.blocks).2.map (⟨·, s.world, w₁.merge.prune⟩) ++ s.given⟩ := by
  have hmerge : mergeFreeMemory w₁.blocks = _ :=
    mergeFreeMemory_eq_filter (pairwise_not_joins (w := w₁.prune) hinv (by
      show (reservedRegions (w₁.blocks.map _)).length ≤ 1
      rw [hregions, h.reserved]
      exact hone))
  have hstay : w₁.merge.prune.blocks = w₁.blocks.filter (!·.isWhole) := congrArg Prod.fst hmerge
  have hkernel : ∀ b ∈ w₁.blocks.filter (·.isWhole), b ∈ w₁.blocks ∧ b.isWhole ∧
      b.kernelAllocId ≠ 0 := by
    intro b hb
    obtain ⟨hb, hw⟩ := List.mem_filter.mp hb
    exact ⟨hb, hw, (hinv.layout.ok _ (List.mem_map_of_mem hb)).kernel.mp (isWhole_spec hw).2⟩
  have hregion : ∀ b ∈ w₁.blocks, b.region ∈ s.world.blocks.map Block.region := fun b hb =>
    hregions ▸ List.mem_map_of_mem hb
  rw [congrArg Prod.snd hmerge]
  dsimp only
  refine ⟨?_, ?_, ?_, ?_, ?_, ?_⟩
  · intro b hb
    rw [hstay] at hb
    exact hbusy b (List.mem_filter.mp hb).1
  · rw [← h.reserved, ← hregions, hstay]
    simp only [reservedRegions, List.filter_map, List.filter_filter]
    congr 1
    refine List.filter_congr fun b _ => ?_
    cases hw : b.isWhole with
    | false => simp
    | true => simp [Block.region, (isWhole_spec hw).2]
  · rw [List.map_append, List.map_map]
    refine List.Nodup.append ?_ h.once ?_
    · refine List.Nodup.map_on ?_ (hinv.nodup_blocks.filter _)
      intro b hb c hc hid
      exact hinv.eq_of_kernelAllocId (hkernel b hb).1 (hkernel c hc).1 hid (hkernel b hb).2.2
    · intro id hid hid'
      obtain ⟨b, hb, rfl⟩ := List.mem_map.mp hid
      obtain ⟨g, hg, hgid⟩ := List.mem_map.mp hid'
      exact h.gone g hg _ (hregion b (hkernel b hb).1) hgid.symm
  · intro g hg
    rcases List.mem_append.mp hg with hg | hg
    · obtain ⟨b, hb, rfl⟩ := List.mem_map.mp hg
      exact ⟨(hkernel b hb).2.2,
        (hinv.layout.old _ (List.mem_map_of_mem (hkernel b hb).1)).2⟩
    · exact ⟨(h.old g hg).1, halloc.symm ▸ (h.old g hg).2⟩
  · intro g hg r hr
    rw [hstay] at hr
    obtain ⟨c, hc, rfl⟩ := List.mem_map.mp hr
    obtain ⟨hc, hcw⟩ := List.mem_filter.mp hc
    rcases List.mem_append.mp hg with hg | hg
    · obtain ⟨b, hb, rfl⟩ := List.mem_map.mp hg
      intro hid
      -- the block would be the one that was given back
      have hcb : b = c := hinv.eq_of_kernelAllocId (hkernel b hb).1 hc hid.symm (hkernel b hb).2.2
      rw [← hcb, (hkernel b hb).2.1] at hcw
      exact absurd hcw (by decide)
    · exact h.gone g hg _ (hregion c hc)
  · intro g hg
    rcases List.mem_append.mp hg with hg | hg
    · obtain ⟨b, hb, rfl⟩ := List.mem_map.mp hg
      exact unused_of_isWhole hinv hregions (hkernel b hb).1 (hkernel b hb).2.1 rfl rfl
    · exact h.unused g hg

/-! ## Steps -/

theorem busy_deref (h : b.available = false → 0 < b.refcnt) (hu : b.deref.available = false) :
    0 < b.deref.refcnt := by
  simp only [Block.deref, Bool.or_eq_false_iff, beq_eq_false_iff_ne] at hu ⊢
  have := h hu.1
  omega

/-- A map over the blocks that keeps what each block stands for. -/
theorem busy_map {g : Block → Block} {blocks : List Block} (h : Busy blocks)
    (hg : ∀ b, (b.available = false → 0 < b.refcnt) → (g b).available = false → 0 < (g b).refcnt) :
    Busy (blocks.map g) := by
  intro b' hb'
  obtain ⟨b, hb, rfl⟩ := List.mem_map.mp hb'
  exact hg b (h b hb)

theorem regions_map {g : Block → Block} {blocks : List Block}
    (hg : ∀ b, (g b).region = b.region) :
    (blocks.map g).map Block.region = blocks.map Block.region := by
  rw [List.map_map]
  exact List.map_congr_left fun b _ => hg b

theorem take_spec {file : Option Nat} {actual : Nat} {cached : Cached}
    (hfit : ∀ r ∈ firstAvailable actual w.blocks, r.2.1.size = actual)
    (hw : w.take file actual cached = some w') :
    w'.blocks.map Block.region = w.blocks.map Block.region ∧
      w'.kernelAllocId = w.kernelAllocId ∧ (Busy w.blocks → Busy w'.blocks) := by
  rw [World.take, getMemory, Option.map_map] at hw
  obtain ⟨⟨pre, b, post⟩, hf, rfl⟩ := Option.map_eq_some_iff.mp hw
  obtain ⟨hblocks, -, -⟩ := firstAvailable_eq_some hf
  have hsize : b.size = actual := hfit _ hf
  simp only [Function.comp, hsize, lt_irrefl, if_false]
  refine ⟨?_, trivial, ?_⟩
  · rw [hblocks]
    simp [Block.region, Block.take, Block.span]
  · intro h c hc
    rcases List.mem_append.mp hc with hc | hc
    · exact h c (by simp [hblocks, hc])
    · rcases List.mem_cons.mp hc with rfl | hc
      · exact fun _ => Int.one_pos
      · exact h c (by simp [hblocks, hc])

theorem Kept.request {file : Option Nat} {needed : Nat} {cached : Cached} {ans : KernelAnswer}
    (h : Kept w₀ s) (hfit : ¬Splits s.world needed ans)
    (hw : requestMemory s.world file needed cached ans = some w') : Kept w₀ ⟨w', s.given⟩ := by
  have hsame : Kept w₀ ⟨s.world, s.given⟩ := h
  unfold requestMemory at hw
  dsimp only at hw
  split at hw
  · cases hw
    exact hsame
  · next hspare =>
    have hspare : ans.spare := by simpa using hspare
    split at hw
    · next w₁ htake =>
      cases hw
      obtain ⟨hregions, halloc, hbusy⟩ := take_spec (fun r hr => by
        by_contra hne
        exact hfit ⟨hspare, Or.inl ⟨r, hr, hne⟩⟩) htake
      exact h.of_regions hregions halloc (hbusy h.busy)
    · next htake =>
      have hnone : firstAvailable (pageAlign needed) s.world.blocks = none := by
        simpa [World.take, getMemory] using htake
      split at hw
      · cases hw
        exact hsame
      · next hmax =>
        split at hw
        · cases hw
          exact hsame
        · next phys hpages =>
          split at hw
          · split at hw
            · next hblock =>
              have hsize : pageSize * 2 ^ getOrder (pageAlign needed) = pageAlign needed := by
                by_contra hne
                exact hfit ⟨hspare, Or.inr ⟨hnone, by simp [hpages], hblock, by omega, hne⟩⟩
              have hbusy : Busy (s.world.addPages phys (getOrder (pageAlign needed))).blocks := by
                intro b hb
                rcases List.mem_cons.mp hb with rfl | hb
                · exact fun _ => Int.one_pos
                · exact h.busy b hb
              cases hw
              cases htake' : (s.world.addPages phys (getOrder (pageAlign needed))).take file
                  (pageAlign needed) cached with
              | none => exact h.cons rfl rfl rfl rfl hbusy
              | some w₂ =>
                obtain ⟨hregions, halloc, hbusy'⟩ := take_spec (fun r hr => by
                  simp only [World.addPages, firstAvailable, makeBlock, hsize, le_refl, and_self,
                    if_true, Option.mem_def, Option.some.injEq] at hr
                  rw [← hr]) htake'
                exact h.cons hregions rfl rfl halloc (hbusy' hbusy)
            · cases hw
              exact hsame
          · cases hw

theorem Kept.vmaOpen (h : Kept w₀ s) (id : Nat) : Kept w₀ ⟨vmaOpen s.world id, s.given⟩ := by
  refine h.of_regions (regions_map fun b => ?_) rfl (busy_map h.busy fun b hb => ?_)
  · split <;> rfl
  · split
    · intro hu
      have := hb hu
      show 0 < b.refcnt + 1
      omega
    · exact hb

theorem Kept.close {id : Nat} (h : Kept w₀ s) (hinv : Inv lo s.world)
    (hone : (reservedRegions (w₀.blocks.map Block.region)).length ≤ 1) (hid : id ∈ s.world.vmas) :
    Kept w₀ ⟨vmaClose s.world id, (givenBack s.world (.close id)).map
      (⟨·, s.world, vmaClose s.world id⟩) ++ s.given⟩ := by
  have hblocks := closeRefs_blocks hinv hid
  have hregions : (closeRefs s.world id).blocks.map Block.region =
      s.world.blocks.map Block.region := by
    rw [hblocks]
    refine regions_map fun b => ?_
    split <;> rfl
  have hbusy : Busy (closeRefs s.world id).blocks := by
    rw [hblocks]
    refine busy_map h.busy fun b hb => ?_
    split
    · exact busy_deref hb
    · exact hb
  rw [vmaClose_eq, givenBack]
  split
  · exact h.merge (inv_closeRefs hinv hid) hone hregions rfl hbusy
  · exact h.of_regions hregions rfl hbusy

theorem Kept.release (h : Kept w₀ s) (hinv : Inv lo s.world)
    (hone : (reservedRegions (w₀.blocks.map Block.region)).length ≤ 1) (file : Nat) :
    Kept w₀ ⟨ioRelease s.world file, (givenBack s.world (.release file)).map
      (⟨·, s.world, ioRelease s.world file⟩) ++ s.given⟩ := by
  have hblocks := dropFile_blocks file hinv
  have hregions : (dropFile s.world file).blocks.map Block.region =
      s.world.blocks.map Block.region := by
    rw [hblocks]
    refine regions_map fun b => ?_
    split <;> rfl
  have hbusy : Busy (dropFile s.world file).blocks := by
    rw [hblocks]
    refine busy_map h.busy fun b hb => ?_
    split
    · exact busy_deref (b := { b with file := none }) hb
    · exact hb
  rw [ioRelease_eq, givenBack]
  split
  · exact h.merge (inv_dropFile hinv) hone hregions rfl hbusy
  · exact h.of_regions hregions rfl hbusy

/-- One step keeps both invariants. -/
theorem kept_step {op : Op} (h : Inv lo s.world ∧ Kept w₀ s)
    (hone : (reservedRegions (w₀.blocks.map Block.region)).length ≤ 1)
    (hfit : ExactFit s.world op) (hs : historyStep s op = some s') :
    Inv lo s'.world ∧ Kept w₀ s' := by
  obtain ⟨w', hw, rfl⟩ := Option.map_eq_some_iff.mp hs
  refine ⟨inv_step h.1 hfit hw, ?_⟩
  obtain ⟨hinv, hk⟩ := h
  cases op with
  | request file needed cached ans =>
    simp only [step, Option.ite_none_right_eq_some] at hw
    exact hk.request hfit hw.2
  | mmap start size remapped =>
    simp only [step, Option.ite_none_right_eq_some, Option.some.injEq] at hw
    rw [← hw.2, ioMmap]
    split
    · split
      · exact hk
      · exact hk.vmaOpen _
    · exact hk
  | mmapDevice id =>
    simp only [step, Option.ite_none_right_eq_some, Option.some.injEq] at hw
    rw [← hw.2]
    exact hk.vmaOpen id
  | fork id =>
    simp only [step, Option.ite_none_right_eq_some, Option.some.injEq] at hw
    rw [← hw.2]
    exact hk.vmaOpen id
  | close id =>
    simp only [step, Option.ite_none_right_eq_some, Option.some.injEq,
      List.contains_iff_mem] at hw
    rw [← hw.2]
    exact hk.close hinv hone hw.1
  | release file =>
    simp only [step, Option.some.injEq] at hw
    rw [← hw]
    exact hk.release hinv hone file

/-! ## Runs -/

theorem kept_booted (h : Booted w₀) : Kept w₀ ⟨w₀, []⟩ where
  busy := by
    intro b hb _
    obtain ⟨t, -, hbt⟩ := h.fresh b hb
    rw [hbt]
    exact Int.one_pos
  reserved := rfl
  once := List.nodup_nil
  old := by simp
  gone := by simp
  unused := by simp

/-- A reserved block that no file and no mapping uses is free. -/
theorem available_of_quiet (hinv : Inv lo w) (hbusy : Busy w.blocks) (hq : w.quiet)
    (hb : b ∈ w.blocks) (ht : b.type = .reserved) : b.available := by
  by_contra ha
  have ha : b.available = false := by simpa using ha
  have hpos := hbusy b hb ha
  have hcount := (hinv.refs b hb).used ha
  have howners : b.owners = 0 := owners_eq_zero.mpr ⟨by simp [ht], hq.2 b hb⟩
  rw [howners, hq.1, List.count_nil] at hcount
  omega

theorem Kept.returned (h : Kept w₀ s) (hinv : Inv lo s.world)
    (hone : (reservedRegions (w₀.blocks.map Block.region)).length ≤ 1) : Returned w₀ s := by
  refine ⟨h.once, h.unused, ?_⟩
  intro hq r hr ht
  have hmem : ∀ {c : Block} {blocks : List Block}, c ∈ blocks → c.type = .reserved →
      c.region ∈ reservedRegions (blocks.map Block.region) := by
    intro c blocks hc hct
    exact List.mem_filter.mpr ⟨List.mem_map_of_mem hc, by simp [Block.region, hct]⟩
  have hr' := hmem hr ht
  obtain ⟨r₀, hr₀⟩ : ∃ r₀, reservedRegions (w₀.blocks.map Block.region) = [r₀] :=
    List.length_eq_one_iff.mp (by have := List.length_pos_of_mem hr'; omega)
  rw [← h.reserved] at hr'
  obtain ⟨b, hb, heq⟩ := List.mem_map.mp (List.mem_filter.mp hr').1
  have hbt : b.type = .reserved := (congrArg Region.type heq).trans ht
  refine ⟨b, hb, available_of_quiet hinv h.busy hq hb hbt, congrArg Region.span heq, ?_⟩
  intro c hc hct
  have hc' := hmem hc hct
  have hb' := hmem hb hbt
  rw [h.reserved, hr₀, List.mem_singleton] at hc' hb'
  exact hinv.eq_of_id hc hb (congrArg Region.id (hc'.trans hb'.symm))

theorem initialised_reservedBoot {pages : Nat} (h : pages < 2 ^ 20) :
    Initialised (reservedBoot pages) :=
  { booted_reservedBoot h with one := by simp [reservedBoot, makeBlock] }

end OpenCpi.Driver
