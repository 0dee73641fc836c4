import Mathlib.Algebra.Group.Nat.Defs
import Mathlib.Data.List.Basic
import OpenCpi.Infra.Run
import OpenCpi.Infra.Span

/-!
# The memory blocks of the kernel driver

`opencpi.c`. The driver keeps one list of blocks of physical addresses: device memory, memory
reserved at boot, and pages it got from the kernel. A process asks for memory with an `ioctl`
(`requestMemory`), maps and unmaps it (`ioMmap`, `vmaOpen`, `vmaClose`), and gives up what it
asked for by closing the file (`ioRelease`).

Addresses are 64 bits wide and sizes 32 bits. A block is an object that mappings point to; its
`id` stands for the pointer. Each operation is one step: the driver takes `block_lock` around
what it does to the list, but `opencpi_io_mmap` drops it after the lookup, and what another
process could do before the block is referenced is left out. What the kernel answers (pages or
none, a control structure or none, a page table that could be filled or not) is a parameter of
the operation. `pid` is written for
debugging only and left out, and so are the page protections that `cached` selects.
-/

namespace OpenCpi.Driver

open Infra

/-- `ocpi_type_t` -/
inductive BlockType where
  | mmio
  | reserved
  | kernel
deriving DecidableEq, Repr

/-- `ocpi_cached_t` -/
inductive Cached where
  | ocpiCached
  | ocpiUncached
deriving DecidableEq, Repr

/-- `ocpi_block_t` -/
structure Block where
  id : Nat
  startPhys : Nat
  endPhys : Nat
  size : Nat
  type : BlockType
  refcnt : Int
  cached : Cached
  available : Bool
  file : Option Nat
  kernelAllocId : Nat
  kernelSize : Nat
deriving DecidableEq, Repr

/-- The addresses `[start_phys, start_phys + size)`. -/
def Block.span (b : Block) : Span := ⟨b.startPhys, b.size⟩

def pageSize : Nat := 4096

/-- `OPENCPI_MAXIMUM_MEMORY_ALLOCATION` -/
def maximumMemoryAllocation : Nat := 128 * 1024

/-- `PAGE_ALIGN`, assigned to an `ocpi_size_t`. -/
def pageAlign (needed : Nat) : Nat := (needed + (pageSize - 1)) / pageSize * pageSize % 2 ^ 32

/-- `get_order`: the smallest power of two pages that holds `size` bytes. The kernel gives 52 for
the size 0, an order that `alloc_pages` never satisfies. -/
def getOrder (size : Nat) : Nat :=
  if size = 0 then 52 else ((List.range 52).find? fun k => size ≤ pageSize * 2 ^ k).getD 52

/-! ## Making, joining and freeing blocks -/

def makeBlock (id phys size : Nat) (type : BlockType) (available : Bool) (kernelAllocId : Nat) :
    Block :=
  { id, startPhys := phys, endPhys := (phys + size) % 2 ^ 64, size, type, refcnt := 1,
    cached := .ocpiUncached, available, file := none, kernelAllocId, kernelSize := size }

/-- The condition of the inner loop of `merge_free_memory`. -/
def Block.joins (b next : Block) : Bool :=
  b.available && next.available && (b.startPhys + b.size) % 2 ^ 64 == next.startPhys &&
    b.kernelAllocId == next.kernelAllocId

def Block.join (b next : Block) : Block :=
  { b with size := (b.size + next.size) % 2 ^ 32, endPhys := (b.endPhys + next.size) % 2 ^ 64 }

/-- A completely joined kernel allocation, which `merge_free_memory` gives back. -/
def Block.isWhole (b : Block) : Bool :=
  b.available && b.type == .kernel && b.size == b.kernelSize

/-- The loops of `merge_free_memory` from the block `b` on: the blocks that stay in the list and
the blocks whose pages `free_kernel_block` gives back. -/
def mergeFrom (b : Block) : List Block → List Block × List Block
  | [] => if b.isWhole then ([], [b]) else ([b], [])
  | next :: rest =>
    if b.joins next then mergeFrom (b.join next) rest
    else
      let r := mergeFrom next rest
      if b.isWhole then (r.1, b :: r.2) else (b :: r.1, r.2)

def mergeFreeMemory : List Block → List Block × List Block
  | [] => ([], [])
  | b :: rest => mergeFrom b rest

/-- `release_block_locked` on one block: `none` is a device block that leaves the list, the
Boolean says whether merging is required. -/
def Block.release (b : Block) : Option Block × Bool :=
  let b' := { b with refcnt := b.refcnt - 1 }
  if b'.refcnt = 0 then
    if b'.type = .mmio then (none, false) else (some { b' with available := true }, true)
  else (some b', false)

/-! ## Requests -/

/-- The block of `get_memory`: the first that is available and large enough, with what stands
before and behind it. -/
def firstAvailable (actual : Nat) : List Block → Option (List Block × Block × List Block)
  | [] => none
  | b :: rest =>
    if b.available ∧ actual ≤ b.size then some ([], b, rest)
    else (firstAvailable actual rest).map fun r => (b :: r.1, r.2)

/-- What `get_memory` writes into the block it takes. Its size and its end stay as they are. -/
def Block.take (b : Block) (file : Option Nat) (cached : Cached) : Block :=
  { b with refcnt := 1, file, cached, available := b.available && file.isNone }

/-- `*split = *block` with the start and the size moved on. -/
def Block.splitOff (b : Block) (spare actual : Nat) : Block :=
  { b with id := spare, startPhys := (b.startPhys + actual) % 2 ^ 64, size := b.size - actual }

/-- `get_memory`: the block taken and the new list. `spare` is the identity of the spare block. -/
def getMemory (blocks : List Block) (actual : Nat) (file : Option Nat) (cached : Cached)
    (spare : Nat) : Option (Block × List Block) :=
  (firstAvailable actual blocks).map fun (pre, b, post) =>
    (b, pre ++ b.take file cached ::
      (if actual < b.size then b.splitOff spare actual :: post else post))

/-- What the kernel answers to `request_memory`: whether there is a spare control structure,
the physical address of pages, and whether there is a control structure for them. -/
structure KernelAnswer where
  spare : Bool
  pages : Option Nat
  block : Bool
deriving DecidableEq, Repr

/-! ## The driver, its users and the kernel -/

/-- A memory request that was granted. -/
structure Allocation where
  address : Nat
  actual : Nat
  block : Nat
  file : Nat
  isOpen : Bool
deriving DecidableEq, Repr

def Allocation.span (a : Allocation) : Span := ⟨a.address, a.actual⟩

/-- `blocks` and `kernelAllocId` are the driver's variables, `nextId` the identity of the next
control structure. `vmas` lists the block of every mapping and `allocations` the granted requests
that are still in use. `held` are the ranges that the kernel does not give to anybody: device and
reserved memory, and the pages the driver got and has not given back. -/
structure World where
  blocks : List Block
  kernelAllocId : Nat
  nextId : Nat
  vmas : List Nat
  allocations : List Allocation
  held : List Span
deriving DecidableEq, Repr

/-- An allocation is in use while its file is open or a mapping of its block exists. -/
def Allocation.inUse (vmas : List Nat) (a : Allocation) : Bool :=
  a.isOpen || vmas.contains a.block

/-- Forget the allocations that are no longer in use. -/
def World.prune (w : World) : World :=
  { w with allocations := w.allocations.filter (·.inUse w.vmas) }

/-- `merge_free_memory`, with the pages going back to the kernel. -/
def World.merge (w : World) : World :=
  let r := mergeFreeMemory w.blocks
  { w with blocks := r.1, held := r.2.foldl (fun h b => h.erase b.span) w.held }

/-- Take memory from the list for a request. -/
def World.take (w : World) (file : Option Nat) (actual : Nat) (cached : Cached) : Option World :=
  (getMemory w.blocks actual file cached w.nextId).map fun (b, blocks) =>
    { w with
      blocks
      nextId := w.nextId + 1
      allocations := w.allocations ++
        file.toList.map fun f => ⟨b.startPhys, actual, b.id, f, true⟩ }

/-- The kernel gives only pages that nobody else holds. -/
def World.mayGive (w : World) (phys order : Nat) : Bool :=
  order < 11 && phys % pageSize == 0 && decide (phys + pageSize * 2 ^ order < 2 ^ 64) &&
    w.held.all fun h => decide (Span.Apart ⟨phys, pageSize * 2 ^ order⟩ h)

/-- `make_block` for fresh kernel pages. -/
def World.addPages (w : World) (phys order : Nat) : World :=
  { w with
    blocks := makeBlock w.nextId phys (pageSize * 2 ^ order) .kernel true (w.kernelAllocId + 1)
      :: w.blocks
    kernelAllocId := w.kernelAllocId + 1
    nextId := w.nextId + 1
    held := ⟨phys, pageSize * 2 ^ order⟩ :: w.held }

/-- `request_memory`. A request that fails leaves the list as it is; `none` is an answer the
kernel does not give. -/
def requestMemory (w : World) (file : Option Nat) (needed : Nat) (cached : Cached)
    (ans : KernelAnswer) : Option World :=
  let actual := pageAlign needed
  if !ans.spare then some w
  else
    match w.take file actual cached with
    | some w' => some w'
    | none =>
      if maximumMemoryAllocation < actual then some w
      else
        match ans.pages with
        | none => some w
        | some phys =>
          let order := getOrder actual
          if w.mayGive phys order then
            if ans.block then
              let w' := w.addPages phys order
              some ((w'.take file actual cached).getD w')
            else some w
          else none

/-! ## Mappings and files -/

/-- The search of `opencpi_io_mmap` on the memory device. -/
def lookup (blocks : List Block) (start size : Nat) : Option Block :=
  blocks.find? fun b => decide (b.startPhys ≤ start) &&
    decide ((start + size) % 2 ^ 64 ≤ b.endPhys)

/-- `opencpi_vma_open` -/
def vmaOpen (w : World) (id : Nat) : World :=
  { w with
    blocks := w.blocks.map fun b => if b.id = id then { b with refcnt := b.refcnt + 1 } else b
    vmas := id :: w.vmas }

/-- `opencpi_io_mmap` on the memory device; `remapped` is the success of `remap_pfn_range`. -/
def ioMmap (w : World) (start size : Nat) (remapped : Bool) : World :=
  match lookup w.blocks start size with
  | some b => if b.available || !remapped then w else vmaOpen w b.id
  | none => w

/-- `opencpi_vma_close` and `release_block`. -/
def vmaClose (w : World) (id : Nat) : World :=
  let w' : World :=
    { w with
      blocks := w.blocks.filterMap fun b => if b.id = id then b.release.1 else some b
      vmas := w.vmas.erase id }
  let doMerge := w.blocks.any fun b => b.id = id && b.release.2
  (if doMerge then w'.merge else w').prune

/-- The loop of `opencpi_io_release`. `do_merge` is what the last block of the file said. -/
def ioRelease (w : World) (file : Nat) : World :=
  let mine := fun b : Block => b.file == some file
  let w' : World :=
    { w with
      blocks := w.blocks.filterMap fun b =>
        if mine b then ({ b with file := none } : Block).release.1 else some b
      allocations := w.allocations.map fun a =>
        if a.file = file then { a with isOpen := false } else a }
  let doMerge := (((w.blocks.filter mine).getLast?).map (·.release.2)).getD false
  (if doMerge then w'.merge else w').prune

/-! ## Runs -/

inductive Op where
  | request (file : Option Nat) (needed : Nat) (cached : Cached) (ans : KernelAnswer)
  | mmap (start size : Nat) (remapped : Bool)
  | mmapDevice (id : Nat)
  | fork (id : Nat)
  | close (id : Nat)
  | release (file : Nat)
deriving DecidableEq, Repr

/-- One operation. A mapping is copied or closed only while it exists; the other minor devices
map their own blocks, which are known to be in the list. -/
def step (w : World) : Op → Option World
  | .request file needed cached ans =>
    if needed < 2 ^ 32 then requestMemory w file needed cached ans else none
  | .mmap start size remapped =>
    if start < 2 ^ 64 ∧ size < 2 ^ 32 then some (ioMmap w start size remapped) else none
  | .mmapDevice id =>
    if w.blocks.any fun b => b.id = id && b.type == .mmio then some (vmaOpen w id) else none
  | .fork id => if w.vmas.contains id then some (vmaOpen w id) else none
  | .close id => if w.vmas.contains id then some (vmaClose w id) else none
  | .release file => some (ioRelease w file)

/-- The state after `opencpi_init`: device blocks found by the PCI probe and reserved memory,
nothing allocated. The driver makes at most one reserved block; several are allowed here as long
as the block they can be joined to has a 32-bit size. -/
structure Booted (w : World) : Prop where
  fresh : ∀ b ∈ w.blocks, ∃ type, (type = .mmio ∨ type = .reserved) ∧
    b = makeBlock b.id b.startPhys b.size type (type == .reserved) 0
  bounded : ∀ b ∈ w.blocks, b.size < 2 ^ 32 ∧ b.startPhys + b.size < 2 ^ 64
  window : ∃ lo, ∀ b ∈ w.blocks, b.type = .reserved → b.span.Within ⟨lo, 2 ^ 32 - 1⟩
  apart : ApartList Block.span w.blocks
  ids : (w.blocks.map (·.id)).Nodup
  idsOld : ∀ b ∈ w.blocks, b.id < w.nextId
  held : w.held = w.blocks.map (·.span)
  idle : w.vmas = [] ∧ w.allocations = []

end OpenCpi.Driver
