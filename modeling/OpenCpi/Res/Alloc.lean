import Mathlib.Algebra.Group.Nat.Defs
import Mathlib.Data.List.Sort
import OpenCpi.Infra.Run
import OpenCpi.Infra.Span

/-!
# The block allocator `MemBlockMgr`

`OcpiAlloc.cxx`. A pool keeps a list of free blocks and a list of allocated blocks. `alloc` takes
the first free block that is large enough, first in order of size and, if none is, once more in
order of address after neighbouring blocks were joined. `free` puts the block back and joins.

`ResAddr` is 32 bits wide and `size_t` 64 bits; additions wrap at these widths. `std::list::sort`
is stable, which `List.insertionSort` is too. The assertions are compiled in (the default build):
a failed one stops the program. `Block::rp` only gives access to `sort_by_size`, which is true
except inside `defrag`; the two orders are written out instead. `ResPool::start_off` is never read.
-/

namespace OpenCpi.Res

open Infra

structure Block where
  size : Nat
  addr : Nat
  alignedAddr : Nat
deriving DecidableEq, Repr

/-- The addresses the block stands for. -/
def Block.span (b : Block) : Span := ⟨b.addr, b.size⟩

structure ResPool where
  totalSize : Nat
  used : Nat
  freeList : List Block
  allocList : List Block
deriving DecidableEq, Repr

/-- `ALIGN`. The mask is subtracted, not added: the address is rounded down. -/
def ALIGN (addr alignment : Nat) : Nat :=
  if alignment = 0 then addr else addr &&& (0xffffffff - (alignment - 1))

/-! ## Joining free neighbours -/

/-- `free_list.sort()` with `sort_by_size` set. -/
def sortBySize (l : List Block) : List Block := l.insertionSort (fun a b => a.size ≤ b.size)

/-- `free_list.sort()` with `sort_by_size` cleared. -/
def sortByAddr (l : List Block) : List Block := l.insertionSort (fun a b => a.addr ≤ b.addr)

/-- The `for` loop of `defrag`: join the first two blocks of the list that touch. -/
def joinFirst : List Block → Option (List Block)
  | b₁ :: b₂ :: rest =>
    if (b₁.addr + b₁.size) % 2 ^ 64 = b₂.addr then
      some ({ b₁ with size := (b₁.size + b₂.size) % 2 ^ 64 } :: rest)
    else (joinFirst (b₂ :: rest)).map (b₁ :: ·)
  | _ => none

/-- The `do … while` loop of `defrag`. Every turn but the last removes a block, so as many turns
as there are blocks are enough. -/
def defragLoop : Nat → List Block → List Block
  | 0, l => l
  | n + 1, l =>
    match joinFirst (sortByAddr l) with
    | some l' => defragLoop n l'
    | none => sortByAddr l

def defrag (l : List Block) : List Block := defragLoop l.length l

/-! ## `alloc` -/

/-- The first block of at least `nbytes` bytes, with what stands before and behind it. -/
def firstFit (nbytes : Nat) : List Block → Option (List Block × Block × List Block)
  | [] => none
  | b :: rest =>
    if nbytes ≤ b.size then some ([], b, rest)
    else (firstFit nbytes rest).map fun r => (b :: r.1, r.2)

/-- The body of the search loop for the block `b` it stops at. The result is the address given
to the caller and the pool; `none` is the failed assertion of `OCPI_UTRUNCATE`. -/
def carve (p : ResPool) (nbytes alignment : Nat) (pre : List Block) (b : Block)
    (post : List Block) : Option (Nat × ResPool) :=
  let reqAddr := ALIGN b.addr alignment
  if nbytes < b.size then
    if nbytes < 2 ^ 32 then
      some (reqAddr,
        { p with
          freeList := pre ++
            { b with addr := (b.addr + nbytes) % 2 ^ 32, size := b.size - nbytes } :: post
          allocList := p.allocList ++ [⟨nbytes, b.addr, ALIGN reqAddr alignment⟩]
          used := (p.used + nbytes) % 2 ^ 64 })
    else none
  else
    some (reqAddr,
      { p with
        freeList := pre ++ post
        allocList := p.allocList ++ [{ b with alignedAddr := reqAddr }]
        used := (p.used + nbytes) % 2 ^ 64 })

/-- The bytes `alloc` looks for: `nbytes += alignment/8`. -/
def grossBytes (nbytes alignment : Nat) : Nat := (nbytes + alignment / 8) % 2 ^ 64

/-- The free block `alloc` finds for `n` bytes and the list it stands in: the list by size in
the first pass, the joined list by address in the second. -/
def search (p : ResPool) (n : Nat) : Option (List Block × Block × List Block) :=
  (firstFit n (sortBySize p.freeList)).or (firstFit n (defrag (sortBySize p.freeList)))

/-- `MemBlockMgr::alloc`. The outer `none` is a stopped program, the inner one the result `-1`. -/
def alloc (p : ResPool) (nbytes alignment : Nat) : Option (Option Nat × ResPool) :=
  let n := grossBytes nbytes alignment
  match search p n with
  | some (pre, b, post) => (carve p n alignment pre b post).map fun r => (some r.1, r.2)
  | none => some (none, { p with freeList := defrag (defrag (sortBySize p.freeList)) })

/-! ## `free` -/

/-- `MemBlockMgr::free`. The block goes back under the address the caller knows it by. `none` is
the assertion that the address belongs to an allocated block. -/
def free (p : ResPool) (addr : Nat) : Option ResPool :=
  match p.allocList.find? (·.alignedAddr == addr) with
  | some b =>
    some
      { p with
        used := (p.used + 2 ^ 64 - b.size) % 2 ^ 64
        freeList := defrag (p.freeList ++ [⟨b.size, addr, addr⟩])
        allocList := p.allocList.eraseP (·.alignedAddr == addr) }
  | none => none

/-- The constructor of `MemBlockMgr`. -/
def newPool (start size : Nat) : ResPool :=
  { totalSize := size, used := 0, freeList := [⟨size, start, start⟩], allocList := [] }

/-! ## The pool and its users -/

/-- What a caller holds: the address `alloc` gave it and the bytes it asked for. -/
structure Live where
  addr : Nat
  nbytes : Nat
deriving DecidableEq, Repr

def Live.span (l : Live) : Span := ⟨l.addr, l.nbytes⟩

structure State where
  pool : ResPool
  live : List Live
deriving DecidableEq, Repr

inductive Op where
  | alloc (nbytes alignment : Nat)
  | free (addr : Nat)
deriving DecidableEq, Repr

/-- One call. Callers ask for at least one byte and free only what they hold. -/
def step (s : State) : Op → Option State
  | .alloc nbytes alignment =>
    if 0 < nbytes ∧ nbytes < 2 ^ 64 ∧ alignment < 2 ^ 32 then
      match alloc s.pool nbytes alignment with
      | some (some addr, p) => some { pool := p, live := s.live ++ [⟨addr, nbytes⟩] }
      | some (none, p) => some { s with pool := p }
      | none => none
    else none
  | .free addr =>
    if s.live.any (·.addr == addr) then
      (free s.pool addr).map fun p =>
        { pool := p, live := s.live.eraseP (·.addr == addr) }
    else none

def init (start size : Nat) : State := { pool := newPool start size, live := [] }

/-- The live allocations share no byte. -/
def LiveDisjoint (s : State) : Prop :=
  s.live.Pairwise fun a b => Disjoint a.span.toSet b.span.toSet

/-- The live allocations lie inside the pool. -/
def LiveInside (start size : Nat) (s : State) : Prop :=
  ∀ l ∈ s.live, l.span.Within ⟨start, size⟩

/-- One call on the pool, whatever its arguments. -/
def call (p : ResPool) : Op → Option ResPool
  | .alloc nbytes alignment =>
    if nbytes < 2 ^ 64 ∧ alignment < 2 ^ 32 then (alloc p nbytes alignment).map (·.2) else none
  | .free addr => free p addr

end OpenCpi.Res
