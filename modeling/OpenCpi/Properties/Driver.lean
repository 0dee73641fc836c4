import Mathlib.Data.List.Nodup
import OpenCpi.Driver.Block

/-!
# The driver never hands out memory twice, as long as it does not split

`getMemory` cuts the block it takes when the block is larger than the request, but never shortens
the block: both parts end at the same address, and what was cut off overlaps what was handed
out. In a run in which every request fits its block exactly, the blocks stay apart, live
allocations do not overlap, and a mapping finds the block of its allocation.

The invariant has two halves. The *layout* is about the memory the blocks stand for and changes
only when kernel pages come or go and when free neighbours are joined. The *references* are about
who uses a block: files and mappings.
-/

namespace OpenCpi.Driver

open Infra

/-! ## The layout -/

/-- Which memory a block stands for. -/
structure Region where
  id : Nat
  span : Span
  endPhys : Nat
  type : BlockType
  kernelAllocId : Nat

def Block.region (b : Block) : Region := ⟨b.id, b.span, b.endPhys, b.type, b.kernelAllocId⟩

/-- `lo` is the lowest address of the reserved memory. -/
structure RegionOk (lo : Nat) (r : Region) : Prop where
  endPhys : r.endPhys = r.span.stop
  bounded : r.span.stop < 2 ^ 64
  window : r.type = .reserved → r.span.Within ⟨lo, 2 ^ 32 - 1⟩
  kernel : r.type = .kernel ↔ r.kernelAllocId ≠ 0

structure Layout (lo nextId lastAlloc : Nat) (held : List Span) (l : List Region) : Prop where
  ids : (l.map (·.id)).Nodup
  apart : ApartList Region.span l
  kernelIds : l.Pairwise fun r r' => r.kernelAllocId = r'.kernelAllocId → r.kernelAllocId = 0
  ok : ∀ r ∈ l, RegionOk lo r
  old : ∀ r ∈ l, r.id < nextId ∧ r.kernelAllocId ≤ lastAlloc
  covered : ∀ r ∈ l, Covered held r.span

variable {lo nextId lastAlloc : Nat} {held : List Span} {l l' : List Region} {r r' : Region}

theorem Layout.perm (h : Layout lo nextId lastAlloc held l) (hp : l.Perm l') :
    Layout lo nextId lastAlloc held l' where
  ids := (hp.map _).nodup h.ids
  apart := h.apart.perm hp
  kernelIds := hp.pairwise h.kernelIds fun hrr' heq => heq.trans (hrr' heq.symm)
  ok := fun r hr => h.ok r (hp.mem_iff.mpr hr)
  old := fun r hr => h.old r (hp.mem_iff.mpr hr)
  covered := fun r hr => h.covered r (hp.mem_iff.mpr hr)

/-- Two free neighbours of one allocation id are joined. -/
theorem Layout.join (h : Layout lo nextId lastAlloc held (r :: r' :: l))
    (hstop : r.span.stop = r'.span.start) (hid : r.kernelAllocId = r'.kernelAllocId)
    (hr : r.type ≠ .mmio) (hr' : r'.type ≠ .mmio) :
    r.span.size + r'.span.size < 2 ^ 32 ∧
      Layout lo nextId lastAlloc held
        ({ r with span := ⟨r.span.start, r.span.size + r'.span.size⟩,
                  endPhys := r.endPhys + r'.span.size } :: l) := by
  have hmem : r ∈ r :: r' :: l := by simp
  have hmem' : r' ∈ r :: r' :: l := by simp
  have hzero := (List.pairwise_cons.mp h.kernelIds).1 r' (by simp) hid
  -- allocation ids of kernel memory are unique, so both regions are reserved
  have hres : r.type = .reserved := by
    have := (h.ok r hmem).kernel
    cases ht : r.type <;> simp_all
  have hres' : r'.type = .reserved := by
    have := (h.ok r' hmem').kernel
    cases ht : r'.type <;> simp_all
  have hw := (h.ok r hmem).window hres
  have hw' := (h.ok r' hmem').window hres'
  have hb := (h.ok r' hmem').bounded
  have he := (h.ok r hmem).endPhys
  simp only [Span.Within, Span.stop] at hw hw' hb he hstop
  have hids := h.ids
  rw [List.map_cons, List.map_cons, List.nodup_cons, List.nodup_cons, List.mem_cons] at hids
  refine ⟨by omega, ?_, h.apart.join hstop rfl, ?_, ?_, ?_, ?_⟩
  · rw [List.map_cons, List.nodup_cons]
    exact ⟨fun hm => hids.1 (Or.inr hm), hids.2.2⟩
  · obtain ⟨h₁, h₂⟩ := List.pairwise_cons.mp h.kernelIds
    exact List.pairwise_cons.mpr
      ⟨fun c hc => h₁ c (List.mem_cons_of_mem _ hc), (List.pairwise_cons.mp h₂).2⟩
  · intro c hc
    rcases List.mem_cons.mp hc with rfl | hc
    · refine ⟨?_, ?_, fun _ => ?_, (h.ok r hmem).kernel⟩ <;>
        simp only [Span.Within, Span.stop] <;> omega
    · exact h.ok c (by simp [hc])
  · intro c hc
    rcases List.mem_cons.mp hc with rfl | hc
    · exact h.old r hmem
    · exact h.old c (by simp [hc])
  · intro c hc
    rcases List.mem_cons.mp hc with rfl | hc
    · exact (h.covered r hmem).join (h.covered r' hmem') hstop
    · exact h.covered c (by simp [hc])

/-- Pages go back to the kernel. -/
theorem Layout.drop (h : Layout lo nextId lastAlloc held (r :: l)) :
    Layout lo nextId lastAlloc (held.erase r.span) l where
  ids := (List.nodup_cons.mp h.ids).2
  apart := (ApartList.cons.mp h.apart).2
  kernelIds := (List.pairwise_cons.mp h.kernelIds).2
  ok := fun c hc => h.ok c (List.mem_cons_of_mem _ hc)
  old := fun c hc => h.old c (List.mem_cons_of_mem _ hc)
  covered := fun c hc =>
    (h.covered c (List.mem_cons_of_mem _ hc)).erase ((ApartList.cons.mp h.apart).1 c hc)

/-- Pages that nobody holds come from the kernel. -/
theorem Layout.add (h : Layout lo nextId lastAlloc held l) (hid : r.id = nextId)
    (halloc : r.kernelAllocId = lastAlloc + 1) (hok : RegionOk lo r)
    (hfree : ∀ c ∈ held, r.span.Apart c) :
    Layout lo (nextId + 1) (lastAlloc + 1) (r.span :: held) (r :: l) where
  ids := by
    rw [List.map_cons, List.nodup_cons]
    refine ⟨?_, h.ids⟩
    intro hm
    obtain ⟨c, hc, hcid⟩ := List.mem_map.mp hm
    have := (h.old c hc).1
    omega
  apart := ApartList.cons.mpr ⟨fun c hc => (h.covered c hc).apart hfree, h.apart⟩
  kernelIds := by
    refine List.pairwise_cons.mpr ⟨?_, h.kernelIds⟩
    intro c hc heq
    have := (h.old c hc).2
    omega
  ok := by
    intro c hc
    rcases List.mem_cons.mp hc with rfl | hc
    · exact hok
    · exact h.ok c hc
  old := by
    intro c hc
    rcases List.mem_cons.mp hc with rfl | hc
    · omega
    · have := h.old c hc
      omega
  covered := by
    intro c hc
    rcases List.mem_cons.mp hc with rfl | hc
    · exact Covered.of_mem List.mem_cons_self
    · exact (h.covered c hc).cons

theorem Layout.weaken (h : Layout lo nextId lastAlloc held l) :
    Layout lo (nextId + 1) lastAlloc held l :=
  { h with old := fun r hr => ⟨Nat.lt_succ_of_lt (h.old r hr).1, (h.old r hr).2⟩ }

/-! ## The references -/

/-- How many references a block has beside its mappings: a device block keeps the one it was made
with, another block has one while the file that requested it is open. -/
def Block.owners (b : Block) : Nat := if b.type = .mmio ∨ b.file.isSome then 1 else 0

theorem owners_eq_zero {b : Block} : b.owners = 0 ↔ b.type ≠ .mmio ∧ b.file = none := by
  unfold Block.owners
  cases b.file <;> simp

/-- A free block is not used by anybody, and the count of a block in use is right. -/
structure Refs (vmas : List Nat) (b : Block) : Prop where
  free : b.available → b.type ≠ .mmio ∧ b.id ∉ vmas ∧ b.file = none
  used : b.available = false → b.refcnt = b.owners + vmas.count b.id
  device : b.type = .mmio → b.file = none

/-- `b` is the block of the allocation `a`. -/
structure Owns (a : Allocation) (b : Block) : Prop where
  block : b.id = a.block
  used : b.available = false
  memory : b.type ≠ .mmio
  span : b.span = a.span
  file : b.file = if a.isOpen then some a.file else none

/-- **The invariant.** -/
structure Inv (lo : Nat) (w : World) : Prop where
  layout : Layout lo w.nextId w.kernelAllocId w.held (w.blocks.map Block.region)
  refs : ∀ b ∈ w.blocks, Refs w.vmas b
  owned : ∀ a ∈ w.allocations, ∃ b ∈ w.blocks, Owns a b
  distinct : (w.allocations.map (·.block)).Nodup
  mapped : ∀ id ∈ w.vmas, id < w.nextId

variable {w w' w₀ : World} {b c : Block}

/-- Two blocks of the list with one identity are the same block. -/
theorem Inv.eq_of_id (h : Inv lo w) (hb : b ∈ w.blocks) (hc : c ∈ w.blocks) (hid : b.id = c.id) :
    b = c := by
  have hids := h.layout.ids
  rw [List.map_map] at hids
  exact List.inj_on_of_nodup_map hids hb hc hid

theorem Inv.apart (h : Inv lo w) : ApartList Block.span w.blocks := by
  have hap := h.layout.apart
  rw [ApartList.map_iff] at hap
  exact hap

/-- Two blocks of the list with different identities are apart. -/
theorem Inv.apart_of_id (h : Inv lo w) (hb : b ∈ w.blocks) (hc : c ∈ w.blocks)
    (hid : b.id ≠ c.id) : b.span.Apart c.span := by
  refine h.apart.of_mem hb hc ?_
  rintro rfl
  exact hid rfl

theorem Inv.endPhys_eq (h : Inv lo w) (hb : b ∈ w.blocks) :
    b.endPhys = b.startPhys + b.size ∧ b.startPhys + b.size < 2 ^ 64 :=
  have hok := h.layout.ok _ (List.mem_map_of_mem hb)
  ⟨hok.endPhys, hok.bounded⟩

/-! ## Merging -/

/-- **The rule for `mergeFreeMemory`.** What survives one join and one release of pages survives
the whole loop. -/
theorem mergeFrom_rule {P : List Block → List Span → Prop}
    (hjoin : ∀ {pre b next post held}, P (pre ++ b :: next :: post) held → b.joins next →
      P (pre ++ b.join next :: post) held)
    (hdrop : ∀ {pre b post held}, P (pre ++ b :: post) held → b.isWhole →
      P (pre ++ post) (held.erase b.span)) :
    ∀ (rest : List Block) (b : Block) (pre : List Block) (held : List Span),
      P (pre ++ b :: rest) held →
      P (pre ++ (mergeFrom b rest).1)
        ((mergeFrom b rest).2.foldl (fun h b => h.erase b.span) held)
  | [], b, pre, held, h => by
    rw [mergeFrom]
    split
    · next hw => exact hdrop h hw
    · exact h
  | next :: rest, b, pre, held, h => by
    rw [mergeFrom]
    split
    · next hj => exact mergeFrom_rule hjoin hdrop rest _ pre held (hjoin h hj)
    · dsimp only
      split
      · next hw => exact mergeFrom_rule hjoin hdrop rest next pre _ (hdrop h hw)
      · have := mergeFrom_rule hjoin hdrop rest next (pre ++ [b]) held (by simpa using h)
        simpa using this

theorem joins_spec (h : b.joins c) : b.available ∧ c.available ∧
    (b.startPhys + b.size) % 2 ^ 64 = c.startPhys ∧ b.kernelAllocId = c.kernelAllocId := by
  simpa [Block.joins, and_assoc] using h

/-- The blocks in use survive when free blocks are replaced. -/
theorem owned_of_free (old new : List Block) {pre post : List Block} {as : List Allocation}
    (hfree : ∀ b ∈ old, b.available)
    (h : ∀ a ∈ as, ∃ b ∈ pre ++ (old ++ post), Owns a b) :
    ∀ a ∈ as, ∃ b ∈ pre ++ (new ++ post), Owns a b := by
  intro a ha
  obtain ⟨b, hb, ho⟩ := h a ha
  refine ⟨b, ?_, ho⟩
  rcases List.mem_append.mp hb with hb | hb
  · simp [hb]
  · rcases List.mem_append.mp hb with hb | hb
    · exact absurd (hfree b hb) (by simp [ho.used])
    · simp [hb]

theorem inv_join {pre post : List Block} {b next : Block} {held : List Span}
    (h : Inv lo { w with blocks := pre ++ b :: next :: post, held }) (hj : b.joins next) :
    Inv lo { w with blocks := pre ++ b.join next :: post, held } := by
  obtain ⟨hb, hnext, hstop, hid⟩ := joins_spec hj
  have hrb := h.refs b (by simp)
  have hrn := h.refs next (by simp)
  have hl : Layout lo w.nextId w.kernelAllocId held
      (b.region :: next.region :: (pre ++ post).map Block.region) := by
    refine h.layout.perm ?_
    have hp : (pre ++ b :: next :: post).Perm (b :: next :: (pre ++ post)) := by
      refine List.perm_middle.trans (List.Perm.cons _ List.perm_middle)
    exact hp.map _
  have hend := h.endPhys_eq (b := b) (by simp)
  have hendn := h.endPhys_eq (b := next) (by simp)
  rw [Nat.mod_eq_of_lt hend.2] at hstop
  obtain ⟨hsize, hl⟩ := hl.join hstop hid (hrb.free hb).1 (hrn.free hnext).1
  have hreg : (b.join next).region = { b.region with
      span := ⟨b.region.span.start, b.region.span.size + next.region.span.size⟩,
      endPhys := b.region.endPhys + next.region.span.size } := by
    simp only [Block.region, Block.span, Block.join] at hsize ⊢
    rw [Nat.mod_eq_of_lt hsize, Nat.mod_eq_of_lt]
    omega
  refine ⟨?_, ?_, ?_, h.distinct, h.mapped⟩
  · rw [← hreg] at hl
    exact hl.perm (List.perm_middle.symm.map Block.region)
  · intro c hc
    rcases List.mem_append.mp hc with hc | hc
    · exact h.refs c (by simp [hc])
    · rcases List.mem_cons.mp hc with rfl | hc
      · exact ⟨hrb.free, hrb.used, hrb.device⟩
      · exact h.refs c (by simp [hc])
  · exact owned_of_free [b, next] [b.join next] (by simp [hb, hnext]) h.owned

theorem inv_drop {pre post : List Block} {b : Block} {held : List Span}
    (h : Inv lo { w with blocks := pre ++ b :: post, held }) (hw : b.isWhole) :
    Inv lo { w with blocks := pre ++ post, held := held.erase b.span } := by
  have hb : b.available := by
    simp only [Block.isWhole, Bool.and_eq_true] at hw
    exact hw.1.1
  have hl : Layout lo w.nextId w.kernelAllocId held
      (b.region :: (pre ++ post).map Block.region) :=
    h.layout.perm (List.perm_middle.map Block.region)
  refine ⟨hl.drop, ?_, ?_, h.distinct, h.mapped⟩
  · intro c hc
    refine h.refs c ?_
    rcases List.mem_append.mp hc with hc | hc <;> simp [hc]
  · exact owned_of_free [b] [] (by simp [hb]) h.owned

theorem inv_merge (h : Inv lo w) : Inv lo w.merge := by
  have hrule := @mergeFrom_rule (fun blocks held => Inv lo { w with blocks, held })
    inv_join inv_drop
  unfold World.merge
  cases hw : w.blocks with
  | nil =>
    show Inv lo { w with blocks := [] }
    rw [← hw]
    exact h
  | cons b rest => exact hrule rest b [] w.held (hw ▸ h)

/-! ## Requests -/

theorem firstAvailable_eq_some {n : Nat} : ∀ {l pre post : List Block} {b : Block},
    firstAvailable n l = some (pre, b, post) → l = pre ++ b :: post ∧ b.available ∧ n ≤ b.size
  | [], _, _, _, h => by simp [firstAvailable] at h
  | c :: rest, pre, post, b, h => by
    rw [firstAvailable] at h
    split at h
    · next hc =>
      simp only [Option.some.injEq, Prod.mk.injEq] at h
      obtain ⟨rfl, rfl, rfl⟩ := h
      exact ⟨rfl, hc⟩
    · obtain ⟨⟨pre', b', post'⟩, hr, heq⟩ := Option.map_eq_some_iff.mp h
      simp only [Prod.mk.injEq] at heq
      obtain ⟨rfl, rfl, rfl⟩ := heq
      obtain ⟨rfl, hb⟩ := firstAvailable_eq_some hr
      exact ⟨rfl, hb⟩

/-- Taking a block of exactly the size that was asked for. -/
theorem inv_take {file : Option Nat} {actual : Nat} {cached : Cached} (h : Inv lo w)
    (hfit : ∀ r ∈ firstAvailable actual w.blocks, r.2.1.size = actual)
    (hw : w.take file actual cached = some w') : Inv lo w' := by
  rw [World.take, getMemory, Option.map_map] at hw
  obtain ⟨⟨pre, b, post⟩, hf, rfl⟩ := Option.map_eq_some_iff.mp hw
  obtain ⟨hblocks, hb, -⟩ := firstAvailable_eq_some hf
  have hsize : b.size = actual := hfit _ hf
  have hmem : b ∈ w.blocks := by simp [hblocks]
  obtain ⟨hmem', hvma, hfile⟩ := (h.refs b hmem).free hb
  simp only [Function.comp, hsize, lt_irrefl, if_false]
  refine ⟨?_, ?_, ?_, ?_, fun id hid => Nat.lt_succ_of_lt (h.mapped id hid)⟩
  · have hl := h.layout.weaken
    rw [hblocks] at hl
    simpa [Block.region, Block.take, Block.span] using hl
  · intro c hc
    rcases List.mem_append.mp hc with hc | hc
    · exact h.refs c (by simp [hblocks, hc])
    · rcases List.mem_cons.mp hc with rfl | hc
      · refine ⟨fun ha => ?_, fun ha => ?_, fun ht => absurd ht hmem'⟩
        · cases file <;> simp_all [Block.take]
        · cases file <;>
            simp_all [Block.take, Block.owners, List.count_eq_zero_of_not_mem]
      · exact h.refs c (by simp [hblocks, hc])
  · intro a ha
    rcases List.mem_append.mp ha with ha | ha
    · have hold := h.owned
      rw [hblocks] at hold
      exact owned_of_free [b] [b.take file cached] (by simp [hb]) hold a ha
    · cases file with
      | none => simp at ha
      | some f =>
        simp only [Option.toList_some, List.map_cons, List.map_nil, List.mem_singleton] at ha
        subst ha
        refine ⟨b.take (some f) cached, by simp, ?_⟩
        exact ⟨rfl, by simp [Block.take], hmem', by simp [Block.span, Block.take,
          Allocation.span, hsize], rfl⟩
  · cases file with
    | none => simpa using h.distinct
    | some f =>
      -- an allocation with this block would have a block in use
      have hnew : ∀ a ∈ w.allocations, a.block ≠ b.id := by
        intro a ha heq
        obtain ⟨c, hc, ho⟩ := h.owned a ha
        have hcb : c = b := h.eq_of_id hc hmem (ho.block.trans heq)
        have := ho.used
        rw [hcb, hb] at this
        exact absurd this (by decide)
      simp only [Option.toList_some, List.map_cons, List.map_nil, List.map_append]
      refine List.Nodup.append h.distinct (List.nodup_singleton _) ?_
      simpa [List.disjoint_singleton] using hnew

theorem inv_addPages {phys order : Nat} (h : Inv lo w) (hg : w.mayGive phys order) :
    Inv lo (w.addPages phys order) := by
  simp only [World.mayGive, Bool.and_eq_true, decide_eq_true_eq, List.all_eq_true] at hg
  obtain ⟨⟨_, hb⟩, hfree⟩ := hg
  have hok : RegionOk lo (makeBlock w.nextId phys (pageSize * 2 ^ order) .kernel true
      (w.kernelAllocId + 1)).region := by
    refine ⟨?_, hb, fun ht => by simp [Block.region, makeBlock] at ht, ?_⟩
    · show (phys + pageSize * 2 ^ order) % 2 ^ 64 = phys + pageSize * 2 ^ order
      exact Nat.mod_eq_of_lt hb
    · simp [Block.region, makeBlock]
  refine ⟨h.layout.add rfl rfl hok hfree, ?_, ?_, h.distinct,
    fun id hid => Nat.lt_succ_of_lt (h.mapped id hid)⟩
  · intro b hm
    rcases List.mem_cons.mp hm with rfl | hm
    · refine ⟨fun _ => ⟨by simp [makeBlock], ?_, rfl⟩, fun ha => by simp [makeBlock] at ha,
        fun _ => rfl⟩
      intro hid
      exact absurd (h.mapped _ hid) (lt_irrefl _)
    · exact h.refs b hm
  · intro a ha
    obtain ⟨b, hm, ho⟩ := h.owned a ha
    exact ⟨b, List.mem_cons_of_mem _ hm, ho⟩

/-! ## Mappings and files -/

/-- Changing who uses the blocks leaves the layout alone. -/
theorem layout_map {g : Block → Block} {bs : List Block} (hg : ∀ b, (g b).region = b.region)
    (h : Layout lo nextId lastAlloc held (bs.map Block.region)) :
    Layout lo nextId lastAlloc held ((bs.map g).map Block.region) := by
  rw [List.map_map]
  have hcomp : Block.region ∘ g = Block.region := funext hg
  rw [hcomp]
  exact h

theorem inv_vmaOpen {id : Nat} (h : Inv lo w) (hid : id < w.nextId)
    (hused : ∀ b ∈ w.blocks, b.id = id → b.available = false) : Inv lo (vmaOpen w id) := by
  refine ⟨layout_map (fun b => ?_) h.layout, ?_, ?_, h.distinct, ?_⟩
  · split <;> rfl
  · intro b' hb'
    obtain ⟨b, hb, rfl⟩ := List.mem_map.mp hb'
    have hr := h.refs b hb
    by_cases heq : b.id = id
    · have hu := hused b hb heq
      simp only [heq, if_true, vmaOpen]
      refine ⟨fun ha => by simp [hu] at ha, fun _ => ?_, hr.device⟩
      have hcount := hr.used hu
      simp only [Block.owners, heq, List.count_cons_self] at hcount ⊢
      omega
    · simp only [heq, if_false, vmaOpen]
      refine ⟨fun ha => ?_, fun ha => ?_, hr.device⟩
      · obtain ⟨h₁, h₂, h₃⟩ := hr.free ha
        exact ⟨h₁, by simp [heq, h₂], h₃⟩
      · rw [List.count_cons_of_ne (Ne.symm heq)]
        exact hr.used ha
  · intro a ha
    obtain ⟨b, hb, ho⟩ := h.owned a ha
    refine ⟨_, List.mem_map_of_mem hb, ?_⟩
    split
    · exact ⟨ho.block, ho.used, ho.memory, ho.span, ho.file⟩
    · exact ho
  · intro i hi
    rcases List.mem_cons.mp hi with rfl | hi
    · exact hid
    · exact h.mapped i hi

/-- What `release_block_locked` does to a block that stays in the list. -/
def Block.deref (b : Block) : Block :=
  { b with refcnt := b.refcnt - 1, available := b.available || b.refcnt == 1 }

theorem release_eq_deref (h : b.type = .mmio → b.refcnt ≠ 1) : b.release.1 = some b.deref := by
  unfold Block.release Block.deref
  dsimp only
  split
  · next hz =>
    have hone : b.refcnt = 1 := by omega
    rw [if_neg fun ht => h ht hone]
    simp [hone]
  · next hz =>
    have hone : (b.refcnt == 1) = false := by
      rw [beq_eq_false_iff_ne]
      omega
    simp [hone]

/-- Merging does not look at allocations. -/
theorem inv_merge_prune {doMerge : Bool} (h : Inv lo w.prune) :
    Inv lo (if doMerge then w.merge else w).prune := by
  split
  · exact inv_merge h
  · exact h

theorem distinct_filter {as : List Allocation} {p : Allocation → Bool}
    (h : (as.map (·.block)).Nodup) : ((as.filter p).map (·.block)).Nodup :=
  h.sublist (List.filter_sublist.map _)

/-- One mapping of the block `b` is closed. -/
theorem refs_close {id : Nat} (h : Refs w.vmas b) (hid : id ∈ w.vmas) :
    Refs (w.vmas.erase id) (if b.id = id then b.deref else b) := by
  split
  · next heq =>
    subst heq
    have hu : b.available = false := by
      cases ha : b.available with
      | false => rfl
      | true => exact absurd hid (h.free ha).2.1
    have hcount := h.used hu
    have hpos : 0 < w.vmas.count b.id := List.count_pos_iff.mpr hid
    have herase : (w.vmas.erase b.id).count b.id = w.vmas.count b.id - 1 :=
      List.count_erase_self
    refine ⟨fun ha => ?_, fun _ => ?_, h.device⟩
    · -- the last reference is gone: neither a file nor a mapping is left
      have hone : b.refcnt = 1 := by simpa [Block.deref, hu] using ha
      obtain ⟨hmem, hfile⟩ : b.type ≠ .mmio ∧ b.file = none := owners_eq_zero.mp (by omega)
      refine ⟨hmem, ?_, hfile⟩
      show b.id ∉ _
      rw [← List.count_eq_zero, herase]
      omega
    · show b.refcnt - 1 = b.owners + (w.vmas.erase b.id).count b.id
      omega
  · next hne =>
    refine ⟨fun ha => ?_, fun ha => ?_, h.device⟩
    · obtain ⟨h₁, h₂, h₃⟩ := h.free ha
      exact ⟨h₁, fun hm => h₂ (List.mem_of_mem_erase hm), h₃⟩
    · rw [List.count_erase_of_ne hne]
      exact h.used ha

/-- The driver after a mapping was closed, before free blocks are merged. -/
def closeRefs (w : World) (id : Nat) : World :=
  { w with
    blocks := w.blocks.filterMap fun b => if b.id = id then b.release.1 else some b
    vmas := w.vmas.erase id }

/-- A device block is not freed by its last mapping. -/
theorem closeRefs_blocks {id : Nat} (h : Inv lo w) (hid : id ∈ w.vmas) :
    (closeRefs w id).blocks = w.blocks.map fun b => if b.id = id then b.deref else b := by
  show w.blocks.filterMap _ = _
  rw [List.filterMap_eq_map_iff_forall_eq_some]
  intro b hb
  split
  · next heq =>
    refine release_eq_deref fun ht => ?_
    have hu : b.available = false := by
      cases ha : b.available with
      | false => rfl
      | true => exact absurd ht ((h.refs b hb).free ha).1
    have hcount := (h.refs b hb).used hu
    have hpos : 0 < w.vmas.count b.id := List.count_pos_iff.mpr (heq ▸ hid)
    simp only [Block.owners, ht, true_or, if_true] at hcount
    omega
  · rfl

theorem inv_closeRefs {id : Nat} (h : Inv lo w) (hid : id ∈ w.vmas) :
    Inv lo (closeRefs w id).prune := by
  have hblocks := closeRefs_blocks h hid
  unfold World.prune
  rw [hblocks]
  dsimp only [closeRefs]
  refine ⟨layout_map (fun b => ?_) h.layout, ?_, ?_, distinct_filter h.distinct, ?_⟩
  · split <;> rfl
  · intro b' hb'
    obtain ⟨b, hb, rfl⟩ := List.mem_map.mp hb'
    exact refs_close (h.refs b hb) hid
  · intro a ha
    obtain ⟨ha, huse⟩ := List.mem_filter.mp ha
    obtain ⟨b, hb, ho⟩ := h.owned a ha
    refine ⟨_, List.mem_map_of_mem hb, ?_⟩
    split
    · next heq =>
      refine ⟨ho.block, ?_, ho.memory, ho.span, ho.file⟩
      have hcount := (h.refs b hb).used ho.used
      have hpos : 0 < w.vmas.count b.id := List.count_pos_iff.mpr (heq ▸ hid)
      have hone : b.refcnt ≠ 1 := by
        simp only [Allocation.inUse, Bool.or_eq_true, List.contains_iff_mem] at huse
        rcases huse with hopen | hmem
        · have hfile := ho.file
          rw [hopen, if_pos rfl] at hfile
          simp only [Block.owners, hfile, Option.isSome_some, or_true, if_true] at hcount
          omega
        · rw [← ho.block, heq, ← List.count_pos_iff, List.count_erase_self, ← heq] at hmem
          omega
      simp [Block.deref, ho.used, hone]
    · exact ho
  · exact fun i hi => h.mapped i (List.mem_of_mem_erase hi)

theorem inv_vmaClose {id : Nat} (h : Inv lo w) (hid : id ∈ w.vmas) : Inv lo (vmaClose w id) :=
  inv_merge_prune (inv_closeRefs h hid)

/-- What `opencpi_io_release` does to a block of the file. -/
def Block.disown (b : Block) : Block := Block.deref { b with file := none }

theorem refs_disown {file : Nat} (h : Refs w.vmas b) (hf : b.file = some file) :
    b.available = false ∧ b.type ≠ .mmio ∧ b.refcnt = 1 + w.vmas.count b.id ∧
      Refs w.vmas b.disown := by
  have hu : b.available = false := by
    cases ha : b.available with
    | false => rfl
    | true => exact absurd (h.free ha).2.2 (by simp [hf])
  have hmem : b.type ≠ .mmio := fun ht => by simp [h.device ht] at hf
  have hcount : b.refcnt = 1 + w.vmas.count b.id := by
    simpa [Block.owners, hf] using h.used hu
  refine ⟨hu, hmem, hcount, fun ha => ?_, fun _ => ?_, fun _ => rfl⟩
  · have hone : b.refcnt = 1 := by simpa [Block.disown, Block.deref, hu] using ha
    refine ⟨hmem, ?_, rfl⟩
    show b.id ∉ _
    rw [← List.count_eq_zero]
    omega
  · have hzero : b.disown.owners = 0 := owners_eq_zero.mpr ⟨hmem, rfl⟩
    show b.refcnt - 1 = b.disown.owners + w.vmas.count b.id
    omega

/-- The driver after a file was closed, before free blocks are merged. -/
def dropFile (w : World) (file : Nat) : World :=
  { w with
    blocks := w.blocks.filterMap fun b =>
      if b.file == some file then ({ b with file := none } : Block).release.1 else some b
    allocations := w.allocations.map fun a =>
      if a.file = file then { a with isOpen := false } else a }

theorem dropFile_blocks (file : Nat) (h : Inv lo w) : (dropFile w file).blocks =
    w.blocks.map fun b => if b.file == some file then b.disown else b := by
  show w.blocks.filterMap _ = _
  rw [List.filterMap_eq_map_iff_forall_eq_some]
  intro b hb
  split
  · next heq =>
    exact release_eq_deref fun ht =>
      absurd ht (refs_disown (h.refs b hb) (beq_iff_eq.mp heq)).2.1
  · rfl

theorem inv_dropFile {file : Nat} (h : Inv lo w) : Inv lo (dropFile w file).prune := by
  have hblocks : (dropFile w file).blocks = _ := dropFile_blocks file h
  unfold World.prune
  rw [hblocks]
  dsimp only [dropFile]
  refine ⟨layout_map (fun b => ?_) h.layout, ?_, ?_, distinct_filter ?_, h.mapped⟩
  · split <;> rfl
  · intro b' hb'
    obtain ⟨b, hb, rfl⟩ := List.mem_map.mp hb'
    split
    · next heq => exact (refs_disown (h.refs b hb) (beq_iff_eq.mp heq)).2.2.2
    · exact h.refs b hb
  · intro a' ha'
    obtain ⟨ha', huse⟩ := List.mem_filter.mp ha'
    obtain ⟨a, ha, rfl⟩ := List.mem_map.mp ha'
    obtain ⟨b, hb, ho⟩ := h.owned a ha
    refine ⟨_, List.mem_map_of_mem hb, ?_⟩
    have hfile := ho.file
    by_cases hbf : b.file = some file
    · -- the file owned the block, so the allocation is its own and is in use by a mapping
      obtain ⟨hu, -, hcount, -⟩ := refs_disown (h.refs b hb) hbf
      have haf : a.file = file := by
        rw [hbf] at hfile
        split at hfile <;> simp_all
      rw [if_pos haf] at huse ⊢
      rw [if_pos (beq_iff_eq.mpr hbf)]
      simp only [Allocation.inUse, Bool.false_or, List.contains_iff_mem] at huse
      rw [← ho.block, ← List.count_pos_iff] at huse
      have hone : b.refcnt ≠ 1 := by omega
      exact ⟨ho.block, by simp [Block.disown, Block.deref, hu, hone], ho.memory, ho.span, rfl⟩
    · have hmine : ¬(b.file == some file) = true := by simpa using hbf
      rw [if_neg hmine]
      split
      · next haf =>
        refine ⟨ho.block, ho.used, ho.memory, ho.span, ?_⟩
        cases hopen : a.isOpen <;> simp_all
      · exact ho
  · have hsame : (w.allocations.map fun a => if a.file = file then { a with isOpen := false }
        else a).map (·.block) = w.allocations.map (·.block) := by
      rw [List.map_map]
      refine List.map_congr_left fun a _ => ?_
      simp only [Function.comp]
      split <;> rfl
    rw [hsame]
    exact h.distinct

theorem inv_ioRelease {file : Nat} (h : Inv lo w) : Inv lo (ioRelease w file) :=
  inv_merge_prune (inv_dropFile h)

/-! ## Runs -/

/-- The request takes a block that is larger than the request and would be cut. -/
def Splits (w : World) (needed : Nat) (ans : KernelAnswer) : Prop :=
  ans.spare ∧
    ((∃ r ∈ firstAvailable (pageAlign needed) w.blocks, r.2.1.size ≠ pageAlign needed) ∨
      (firstAvailable (pageAlign needed) w.blocks = none ∧ ans.pages.isSome ∧ ans.block ∧
        pageAlign needed ≤ maximumMemoryAllocation ∧
        pageSize * 2 ^ getOrder (pageAlign needed) ≠ pageAlign needed))

instance (w : World) (needed : Nat) (ans : KernelAnswer) : Decidable (Splits w needed ans) :=
  inferInstanceAs (Decidable (_ ∧ (_ ∨ _)))

/-- The condition on a step: no request cuts a block. -/
def ExactFit (w : World) : Op → Prop
  | .request _ needed _ ans => ¬Splits w needed ans
  | _ => True

instance (w : World) : (op : Op) → Decidable (ExactFit w op)
  | .request _ needed _ ans => inferInstanceAs (Decidable (¬Splits w needed ans))
  | .mmap .. | .mmapDevice _ | .fork _ | .close _ | .release _ => .isTrue trivial

theorem inv_requestMemory {file : Option Nat} {needed : Nat} {cached : Cached}
    {ans : KernelAnswer} (h : Inv lo w) (hfit : ¬Splits w needed ans)
    (hw : requestMemory w file needed cached ans = some w') : Inv lo w' := by
  unfold requestMemory at hw
  dsimp only at hw
  split at hw
  · cases hw
    exact h
  · next hspare =>
    have hspare : ans.spare := by simpa using hspare
    have hfirst : ∀ r ∈ firstAvailable (pageAlign needed) w.blocks,
        r.2.1.size = pageAlign needed := by
      intro r hr
      by_contra hne
      exact hfit ⟨hspare, Or.inl ⟨r, hr, hne⟩⟩
    split at hw
    · next w₁ htake =>
      cases hw
      exact inv_take h hfirst htake
    · next htake =>
      have hnone : firstAvailable (pageAlign needed) w.blocks = none := by
        simpa [World.take, getMemory] using htake
      split at hw
      · cases hw
        exact h
      · next hmax =>
        split at hw
        · cases hw
          exact h
        · next phys hpages =>
          split at hw
          · next hgive =>
            split at hw
            · next hblock =>
              -- the fresh pages are the first block and fit the request
              have hsize : pageSize * 2 ^ getOrder (pageAlign needed) = pageAlign needed := by
                by_contra hne
                exact hfit ⟨hspare, Or.inr ⟨hnone, by simp [hpages], hblock, by omega, hne⟩⟩
              have hadd := inv_addPages h hgive
              cases hw
              cases htake' : (w.addPages phys (getOrder (pageAlign needed))).take file
                  (pageAlign needed) cached with
              | none => exact hadd
              | some w₂ =>
                refine inv_take hadd ?_ htake'
                intro r hr
                simp only [World.addPages, firstAvailable, makeBlock, hsize, le_refl, and_self,
                  if_true, Option.mem_def, Option.some.injEq] at hr
                rw [← hr]
            · cases hw
              exact h
          · cases hw

theorem lookup_mem {blocks : List Block} {start size : Nat}
    (h : lookup blocks start size = some b) : b ∈ blocks := List.mem_of_find?_eq_some h

/-- One step keeps the invariant. -/
theorem inv_step {op : Op} (h : Inv lo w) (hfit : ExactFit w op) (hs : step w op = some w') :
    Inv lo w' := by
  cases op with
  | request file needed cached ans =>
    simp only [step, Option.ite_none_right_eq_some] at hs
    exact inv_requestMemory h hfit hs.2
  | mmap start size remapped =>
    simp only [step, Option.ite_none_right_eq_some, Option.some.injEq] at hs
    rw [← hs.2, ioMmap]
    split
    · next b hb =>
      split
      · exact h
      · next hn =>
        have hb := lookup_mem hb
        refine inv_vmaOpen h (h.layout.old _ (List.mem_map_of_mem hb)).1 ?_
        intro c hc hid
        rw [h.eq_of_id hc hb hid]
        simp_all
    · exact h
  | mmapDevice id =>
    simp only [step, Option.ite_none_right_eq_some, Option.some.injEq, List.any_eq_true,
      Bool.and_eq_true, decide_eq_true_eq, beq_iff_eq] at hs
    obtain ⟨⟨b, hb, rfl, ht⟩, rfl⟩ := hs
    refine inv_vmaOpen h (h.layout.old _ (List.mem_map_of_mem hb)).1 ?_
    intro c hc hid
    rw [h.eq_of_id hc hb hid]
    cases ha : b.available with
    | false => rfl
    | true => exact absurd ht ((h.refs b hb).free ha).1
  | fork id =>
    simp only [step, Option.ite_none_right_eq_some, Option.some.injEq,
      List.contains_iff_mem] at hs
    obtain ⟨hid, rfl⟩ := hs
    refine inv_vmaOpen h (h.mapped id hid) ?_
    rintro c hc rfl
    cases ha : c.available with
    | false => rfl
    | true => exact absurd hid ((h.refs c hc).free ha).2.1
  | close id =>
    simp only [step, Option.ite_none_right_eq_some, Option.some.injEq,
      List.contains_iff_mem] at hs
    rw [← hs.2]
    exact inv_vmaClose h hs.1
  | release file =>
    simp only [step, Option.some.injEq] at hs
    rw [← hs]
    exact inv_ioRelease h

theorem inv_booted (h : Booted w) : ∃ lo, Inv lo w := by
  obtain ⟨lo, hlo⟩ := h.window
  refine ⟨lo, ⟨?_, ?_, ?_, ?_, ?_, ?_⟩, ?_, ?_, ?_, ?_⟩
  · rw [List.map_map]
    exact h.ids
  · exact ApartList.map_iff.mpr h.apart
  · refine List.pairwise_map.mpr (List.pairwise_of_forall_mem_list ?_)
    intro b hb c hc _
    obtain ⟨t, -, hbt⟩ := h.fresh b hb
    rw [hbt]
    rfl
  · intro r hr
    obtain ⟨b, hb, rfl⟩ := List.mem_map.mp hr
    obtain ⟨t, ht, hbt⟩ := h.fresh b hb
    have hbound := (h.bounded b hb).2
    refine ⟨?_, hbound, hlo b hb, ?_⟩
    · show b.endPhys = b.startPhys + b.size
      rw [← Nat.mod_eq_of_lt hbound, hbt]
      rfl
    · show b.type = .kernel ↔ b.kernelAllocId ≠ 0
      rw [hbt]
      rcases ht with rfl | rfl <;> simp [makeBlock]
  · intro r hr
    obtain ⟨b, hb, rfl⟩ := List.mem_map.mp hr
    obtain ⟨t, -, hbt⟩ := h.fresh b hb
    refine ⟨h.idsOld b hb, ?_⟩
    show b.kernelAllocId ≤ _
    rw [hbt]
    exact Nat.zero_le _
  · intro r hr
    obtain ⟨b, hb, rfl⟩ := List.mem_map.mp hr
    rw [h.held]
    exact Covered.of_mem (List.mem_map_of_mem hb)
  · intro b hb
    obtain ⟨t, ht, hbt⟩ := h.fresh b hb
    rw [h.idle.1, hbt]
    rcases ht with rfl | rfl
    · exact ⟨fun ha => by simp [makeBlock] at ha, fun _ => by simp [makeBlock, Block.owners],
        fun _ => rfl⟩
    · exact ⟨fun _ => by simp [makeBlock], fun ha => by simp [makeBlock] at ha, fun _ => rfl⟩
  · simp [h.idle.2]
  · simp [h.idle.2]
  · simp [h.idle.1]

/-- What the driver promises: blocks are apart and know where they end, live allocations do not
overlap, and the search of `opencpi_io_mmap` for a range inside a live allocation finds the block
of that allocation. -/
structure Safe (w : World) : Prop where
  apart : ApartList Block.span w.blocks
  endPhys : ∀ b ∈ w.blocks, b.endPhys = b.startPhys + b.size
  live : ApartList Allocation.span w.allocations
  found : ∀ a ∈ w.allocations, ∀ start size, 0 < size → Span.Within ⟨start, size⟩ a.span →
    ∃ b, lookup w.blocks start size = some b ∧ b.id = a.block

theorem Inv.safe (h : Inv lo w) : Safe w where
  apart := h.apart
  endPhys := fun b hb => (h.endPhys_eq hb).1
  live := by
    refine List.Pairwise.imp_of_mem ?_ (List.pairwise_map.mp h.distinct)
    intro a a' ha ha' hne
    obtain ⟨b, hb, ho⟩ := h.owned a ha
    obtain ⟨b', hb', ho'⟩ := h.owned a' ha'
    rw [← ho.span, ← ho'.span]
    exact h.apart_of_id hb hb' (by rw [ho.block, ho'.block]; exact hne)
  found := by
    intro a ha start size hsize hin
    obtain ⟨b, hb, ho⟩ := h.owned a ha
    obtain ⟨hend, hbound⟩ := h.endPhys_eq hb
    rw [← ho.span] at hin
    simp only [Span.Within, Span.stop, Block.span] at hin
    cases hl : lookup w.blocks start size with
    | none =>
      have := List.find?_eq_none.mp hl b hb
      simp only [Bool.and_eq_true, decide_eq_true_eq, not_and] at this
      omega
    | some c =>
      have hc := lookup_mem hl
      have hmatch := List.find?_some hl
      simp only [Bool.and_eq_true, decide_eq_true_eq] at hmatch
      obtain ⟨hendc, -⟩ := h.endPhys_eq hc
      refine ⟨c, rfl, ?_⟩
      -- another block would share the first address of the range with `b`
      by_contra hne
      have hap := h.apart_of_id hb hc fun heq => hne (by rw [← heq, ho.block])
      simp only [Span.Apart, Span.stop, Block.span] at hap
      omega

/-- **No memory is handed out twice** in a run in which no request cuts a block. -/
theorem safe_of_exactFit (h₀ : Booted w₀) (h : Reach step ExactFit w₀ w) : Safe w := by
  obtain ⟨lo, hinv⟩ := inv_booted h₀
  have hinv : Inv lo w := h.invariant hinv fun _ _ _ hi hok hs => inv_step hi hok hs
  exact hinv.safe

/-- A driver with `pages` pages of reserved memory from address `0x100000` on. -/
def reservedBoot (pages : Nat) : World :=
  let b := makeBlock 0 0x100000 (pages * pageSize) .reserved true 0
  { blocks := [b], kernelAllocId := 0, nextId := 1, vmas := [], allocations := [],
    held := [b.span] }

theorem booted_reservedBoot {pages : Nat} (h : pages < 2 ^ 20) : Booted (reservedBoot pages) where
  fresh := by simp [reservedBoot, makeBlock]
  bounded := by
    simp only [reservedBoot, makeBlock, pageSize, List.mem_singleton, forall_eq]
    omega
  window := by
    refine ⟨0x100000, ?_⟩
    simp only [reservedBoot, makeBlock, pageSize, List.mem_singleton, forall_eq, Span.Within,
      Block.span, Span.stop]
    omega
  apart := List.pairwise_singleton _ _
  ids := List.nodup_singleton _
  idsOld := by simp [reservedBoot, makeBlock]
  held := rfl
  idle := ⟨rfl, rfl⟩

/-- Two processes get memory, the first one maps it and leaves, a third one gets its memory. -/
theorem safe_after_reuse : ∃ w ∈ exec (checked step ExactFit) (reservedBoot 1)
      [.request (some 1) 4096 .ocpiCached ⟨true, none, true⟩,
       .mmap 0x100000 4096 true,
       .request (some 2) 8000 .ocpiCached ⟨true, some 0x200000, true⟩,
       .release 1, .close 0,
       .request (some 3) 4096 .ocpiUncached ⟨true, none, true⟩],
    w.allocations.map (·.file) = [2, 3] ∧ Safe w := by
  have hrun : ∃ w ∈ exec (checked step ExactFit) (reservedBoot 1)
      [.request (some 1) 4096 .ocpiCached ⟨true, none, true⟩,
       .mmap 0x100000 4096 true,
       .request (some 2) 8000 .ocpiCached ⟨true, some 0x200000, true⟩,
       .release 1, .close 0,
       .request (some 3) 4096 .ocpiUncached ⟨true, none, true⟩],
      w.allocations.map (·.file) = [2, 3] := by decide
  obtain ⟨w, hw, hfiles⟩ := hrun
  exact ⟨w, hw, hfiles,
    safe_of_exactFit (booted_reservedBoot (by decide)) (reach_of_exec_checked _ hw)⟩

/-- Three pages of reserved memory. The first request leaves a block that still claims all three
pages; when its file is closed the next request gets them, the page of the second included. -/
theorem cut_block_handed_out_twice : ∃ w₀ w, Booted w₀ ∧ Reach step anyStep w₀ w ∧
    ¬ApartList Allocation.span w.allocations ∧ ¬Safe w := by
  have hrun : ∃ w ∈ exec step (reservedBoot 3)
      [.request (some 1) 4096 .ocpiCached ⟨true, none, true⟩,
       .request (some 2) 4096 .ocpiCached ⟨true, none, true⟩,
       .release 1,
       .request (some 3) 12288 .ocpiCached ⟨true, none, true⟩],
      ¬ApartList Allocation.span w.allocations := by decide
  obtain ⟨w, hw, hbad⟩ := hrun
  exact ⟨_, w, booted_reservedBoot (by decide), reach_of_exec _ hw, hbad, fun hs => hbad hs.live⟩

end OpenCpi.Driver
