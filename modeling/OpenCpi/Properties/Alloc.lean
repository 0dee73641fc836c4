import OpenCpi.Res.Alloc

/-!
# The allocator never hands out a byte twice, as long as it does not round

`alloc` rounds the address of the block it found *down*, below the block. Where rounding changes
nothing the blocks of the pool stay apart over every history of calls; this file carries that
invariant through `defrag`, `alloc` and `free`. A pool of 100 bytes and two requests with the
alignment 7 of `OcpiPort.cxx` show that the condition is needed.
-/

namespace OpenCpi.Res

open Infra

/-! ## Blocks that fit the pool -/

/-- The blocks are apart and lie inside the pool. -/
structure Fits (start size : Nat) (l : List Block) : Prop where
  apart : ApartList Block.span l
  inside : ∀ b ∈ l, b.span.Within ⟨start, size⟩

variable {start size : Nat} {l l' r : List Block}

theorem Fits.perm (h : Fits start size l) (hp : l.Perm l') : Fits start size l' :=
  ⟨h.apart.perm hp, fun b hb => h.inside b (hp.mem_iff.mpr hb)⟩

/-- In a pool of the 32-bit address space the end of a block is computed without wrapping. -/
theorem Fits.stop_le (h : Fits start size l) (hp : start + size ≤ 2 ^ 32) {b : Block}
    (hb : b ∈ l) : b.addr + b.size ≤ 2 ^ 32 := by
  have := (h.inside b hb).2
  simp only [Span.stop, Block.span] at this
  omega

theorem Fits.shrink {b y : Block} (h : Fits start size (b :: l)) (hy : y.span.Within b.span) :
    Fits start size (y :: l) := by
  refine ⟨h.apart.shrink hy, ?_⟩
  intro c hc
  rcases List.mem_cons.mp hc with rfl | hc
  · exact hy.trans (h.inside b List.mem_cons_self)
  · exact h.inside c (List.mem_cons_of_mem _ hc)

theorem Fits.split {b y z : Block} (h : Fits start size (b :: l)) (hy : y.span.Within b.span)
    (hz : z.span.Within b.span) (hyz : y.span.Apart z.span) :
    Fits start size (y :: z :: l) := by
  refine ⟨h.apart.split hy hz hyz, ?_⟩
  intro c hc
  rcases List.mem_cons.mp hc with rfl | hc
  · exact hy.trans (h.inside b List.mem_cons_self)
  · exact (h.shrink hz).inside c hc

/-! ## `defrag` -/

theorem fits_joinFirst (hp : start + size ≤ 2 ^ 32) : ∀ {l l' r : List Block},
    joinFirst l = some l' → Fits start size (l ++ r) → Fits start size (l' ++ r)
  | [], _, _, h, _ => by simp [joinFirst] at h
  | [_], _, _, h, _ => by simp [joinFirst] at h
  | b₁ :: b₂ :: rest, l', r, h, hf => by
    have h₁ := hf.stop_le hp (b := b₁) (by simp)
    have h₂ := hf.stop_le hp (b := b₂) (by simp)
    rw [joinFirst] at h
    split at h
    · next heq =>
      have heq : b₁.addr + b₁.size = b₂.addr := by omega
      have hsum : (b₁.size + b₂.size) % 2 ^ 64 = b₁.size + b₂.size := by omega
      rw [← Option.some.inj h, hsum]
      refine ⟨hf.apart.join heq rfl, ?_⟩
      intro b hb
      rcases List.mem_cons.mp hb with rfl | hb
      · have hi₁ := (hf.inside b₁ (by simp)).1
        have hi₂ := (hf.inside b₂ (by simp)).2
        simp only [Span.Within, Span.stop, Block.span] at *
        omega
      · exact hf.inside b (List.mem_cons_of_mem _ (List.mem_cons_of_mem _ hb))
    · obtain ⟨l'', hj, rfl⟩ := Option.map_eq_some_iff.mp h
      have hf' : Fits start size ((b₂ :: rest) ++ (b₁ :: r)) :=
        hf.perm List.perm_middle.symm
      exact (fits_joinFirst hp hj hf').perm List.perm_middle

theorem fits_sortBySize (h : Fits start size (l ++ r)) : Fits start size (sortBySize l ++ r) :=
  h.perm ((List.perm_insertionSort _ l).symm.append_right r)

theorem fits_sortByAddr (h : Fits start size (l ++ r)) : Fits start size (sortByAddr l ++ r) :=
  h.perm ((List.perm_insertionSort _ l).symm.append_right r)

theorem fits_defragLoop (hp : start + size ≤ 2 ^ 32) : ∀ (n : Nat) {l : List Block},
    Fits start size (l ++ r) → Fits start size (defragLoop n l ++ r)
  | 0, _, h => h
  | n + 1, l, h => by
    rw [defragLoop]
    cases hj : joinFirst (sortByAddr l) with
    | some l' => exact fits_defragLoop hp n (fits_joinFirst hp hj (fits_sortByAddr h))
    | none => exact fits_sortByAddr h

/-- Joining neighbours keeps the blocks apart. -/
theorem fits_defrag (hp : start + size ≤ 2 ^ 32) (h : Fits start size (l ++ r)) :
    Fits start size (defrag l ++ r) := fits_defragLoop hp _ h

/-! ## The search -/

theorem firstFit_eq_some {n : Nat} : ∀ {l pre post : List Block} {b : Block},
    firstFit n l = some (pre, b, post) → l = pre ++ b :: post ∧ n ≤ b.size
  | [], _, _, _, h => by simp [firstFit] at h
  | c :: rest, pre, post, b, h => by
    rw [firstFit] at h
    split at h
    · next hle =>
      simp only [Option.some.injEq, Prod.mk.injEq] at h
      obtain ⟨rfl, rfl, rfl⟩ := h
      exact ⟨rfl, hle⟩
    · obtain ⟨⟨pre', b', post'⟩, hr, heq⟩ := Option.map_eq_some_iff.mp h
      simp only [Prod.mk.injEq] at heq
      obtain ⟨rfl, rfl, rfl⟩ := heq
      obtain ⟨rfl, hle⟩ := firstFit_eq_some hr
      exact ⟨rfl, hle⟩

/-- The list the search stops in holds the same memory as the free list. -/
theorem fits_search (hp : start + size ≤ 2 ^ 32) {p : ResPool} {n : Nat}
    {pre post : List Block} {b : Block} (hs : search p n = some (pre, b, post))
    (h : Fits start size (p.freeList ++ r)) :
    Fits start size (pre ++ b :: post ++ r) ∧ n ≤ b.size := by
  rw [search, Option.or_eq_some_iff] at hs
  rcases hs with hs | ⟨_, hs⟩
  · obtain ⟨heq, hle⟩ := firstFit_eq_some hs
    exact ⟨heq ▸ fits_sortBySize h, hle⟩
  · obtain ⟨heq, hle⟩ := firstFit_eq_some hs
    exact ⟨heq ▸ fits_defrag hp (fits_sortBySize h), hle⟩

/-! ## The invariant -/

/-- What a caller holds lies in the block the pool recorded for it. -/
def Holds (l : Live) (b : Block) : Prop := l.addr = b.addr ∧ 0 < l.nbytes ∧ l.nbytes ≤ b.size

/-- The pool is consistent: free and allocated blocks are apart, blocks are known by their own
address, and every live allocation has its block. -/
structure Inv (start size : Nat) (s : State) : Prop where
  fits : Fits start size (s.pool.freeList ++ s.pool.allocList)
  known : ∀ b ∈ s.pool.allocList, b.alignedAddr = b.addr
  held : List.Forall₂ Holds s.live s.pool.allocList

theorem inv_init : Inv start size (init start size) where
  fits := ⟨by simp [init, newPool, ApartList], by simp [init, newPool, Block.span, Span.Within.refl]⟩
  known := by simp [init, newPool]
  held := List.Forall₂.nil

/-- The condition on a step: the sum `nbytes + alignment/8` does not wrap, and the block the
search finds starts at an address that `ALIGN` leaves alone. -/
def NoRounding (s : State) : Op → Prop
  | .alloc nbytes alignment =>
    nbytes + alignment / 8 < 2 ^ 64 ∧
      ∀ r ∈ search s.pool (grossBytes nbytes alignment), ALIGN r.2.1.addr alignment = r.2.1.addr
  | .free _ => True

instance (s : State) (op : Op) : Decidable (NoRounding s op) :=
  match op with
  | .alloc _ _ => inferInstanceAs (Decidable (_ ∧ _))
  | .free _ => .isTrue trivial

/-- Carving bytes off a block that `ALIGN` leaves alone: the new block stands where the search
stopped and has the size asked for. -/
theorem carve_spec (hp : start + size ≤ 2 ^ 32) {q p : ResPool} {n alignment addr : Nat}
    {pre post : List Block} {b : Block} (hf : Fits start size (pre ++ b :: post ++ q.allocList))
    (hn : n ≤ b.size) (hal : ALIGN b.addr alignment = b.addr)
    (hc : carve q n alignment pre b post = some (addr, p)) :
    ∃ c : Block, p.allocList = q.allocList ++ [c] ∧ c.addr = addr ∧ c.alignedAddr = addr ∧
      c.size = n ∧ Fits start size (p.freeList ++ p.allocList) := by
  have hstop := hf.stop_le hp (b := b) (by simp)
  have hfb : Fits start size (b :: (pre ++ post ++ q.allocList)) := by
    refine hf.perm ?_
    simp
  unfold carve at hc
  simp only [hal] at hc
  split at hc
  · next hlt =>
    -- the front of the block is allocated, its rest stays free
    split at hc
    · have hmod : (b.addr + n) % 2 ^ 32 = b.addr + n := by omega
      simp only [hmod, Option.some.injEq, Prod.mk.injEq] at hc
      obtain ⟨rfl, rfl⟩ := hc
      refine ⟨⟨n, b.addr, b.addr⟩, rfl, rfl, rfl, rfl, ?_⟩
      refine (hfb.split (y := ⟨b.size - n, b.addr + n, b.alignedAddr⟩)
        (z := ⟨n, b.addr, b.addr⟩) ?_ ?_ ?_).perm ?_
      · simp only [Span.Within, Span.stop, Block.span]
        omega
      · simp only [Span.Within, Span.stop, Block.span]
        omega
      · simp only [Span.Apart, Span.stop, Block.span]
        omega
      · have h₁ := (List.perm_append_singleton (⟨n, b.addr, b.addr⟩ : Block)
          (pre ++ post ++ q.allocList)).symm
        have h₂ := @List.perm_middle Block ⟨b.size - n, b.addr + n, b.alignedAddr⟩ pre
          (post ++ q.allocList ++ [⟨n, b.addr, b.addr⟩])
        exact (h₁.cons _).trans (by simpa using h₂.symm)
    · simp at hc
  · next hlt =>
    -- the whole block is allocated
    simp only [Option.some.injEq, Prod.mk.injEq] at hc
    obtain ⟨rfl, rfl⟩ := hc
    refine ⟨{ b with alignedAddr := b.addr }, rfl, rfl, rfl, by simp only; omega, ?_⟩
    refine (hfb.shrink (y := { b with alignedAddr := b.addr }) (Span.Within.refl _)).perm ?_
    simpa using (List.perm_append_singleton ({ b with alignedAddr := b.addr } : Block)
      (pre ++ post ++ q.allocList)).symm

/-- `alloc` keeps the invariant. -/
theorem inv_alloc (hp : start + size ≤ 2 ^ 32) {s : State} {nbytes alignment : Nat}
    {res : Option Nat} {p : ResPool} (hinv : Inv start size s) (hpos : 0 < nbytes)
    (hok : NoRounding s (.alloc nbytes alignment))
    (ha : alloc s.pool nbytes alignment = some (res, p)) :
    Inv start size { pool := p, live := s.live ++ res.toList.map (⟨·, nbytes⟩) } := by
  obtain ⟨hsum, hal⟩ := hok
  unfold alloc at ha
  cases hs : search s.pool (grossBytes nbytes alignment) with
  | none =>
    simp only [hs, Option.some.injEq, Prod.mk.injEq] at ha
    obtain ⟨rfl, rfl⟩ := ha
    refine ⟨fits_defrag hp (fits_defrag hp (fits_sortBySize hinv.fits)), hinv.known, ?_⟩
    simpa using hinv.held
  | some r =>
    obtain ⟨pre, b, post⟩ := r
    simp only [hs, Option.map_eq_some_iff, Prod.mk.injEq] at ha
    obtain ⟨⟨addr, p'⟩, hc, rfl, rfl⟩ := ha
    obtain ⟨hf, hn⟩ := fits_search hp hs hinv.fits
    obtain ⟨c, hlist, haddr, hknown, hsize, hfits⟩ :=
      carve_spec hp hf hn (hal _ hs) hc
    have hgross : nbytes ≤ c.size := by
      rw [hsize, grossBytes]
      omega
    refine ⟨hfits, ?_, ?_⟩
    · intro d hd
      rw [hlist] at hd
      rcases List.mem_append.mp hd with hd | hd
      · exact hinv.known d hd
      · rw [List.mem_singleton.mp hd, hknown, haddr]
    · rw [hlist]
      exact List.rel_append hinv.held (.cons ⟨haddr.symm, hpos, hgross⟩ .nil)

/-- Erasing the first element from two lists that are related element by element. -/
theorem forall₂_eraseP {R : Live → Block → Prop} {p : Live → Bool} {q : Block → Bool} :
    ∀ {as : List Live} {bs : List Block}, List.Forall₂ R as bs →
      (∀ a b, b ∈ bs → R a b → p a = q b) → List.Forall₂ R (as.eraseP p) (bs.eraseP q)
  | _, _, .nil, _ => .nil
  | a :: as, b :: bs, .cons hab h, hpq => by
    rw [List.eraseP_cons, List.eraseP_cons, hpq a b List.mem_cons_self hab]
    cases q b with
    | true => exact h
    | false =>
      exact .cons hab (forall₂_eraseP h fun a b hb => hpq a b (List.mem_cons_of_mem _ hb))

/-- `free` moves one block from the allocated ones to the free ones. -/
theorem fits_free {q p : ResPool} {addr : Nat}
    (hfits : Fits start size (q.freeList ++ q.allocList))
    (hknown : ∀ b ∈ q.allocList, b.alignedAddr = b.addr) (hf : free q addr = some p) :
    ∃ b ∈ q.allocList, p.freeList = defrag (q.freeList ++ [⟨b.size, addr, addr⟩]) ∧
      p.allocList = q.allocList.eraseP (·.alignedAddr == addr) ∧
      Fits start size (q.freeList ++ [⟨b.size, addr, addr⟩] ++ p.allocList) := by
  unfold free at hf
  cases hfind : q.allocList.find? (·.alignedAddr == addr) with
  | none => simp [hfind] at hf
  | some b =>
    simp only [hfind, Option.some.injEq] at hf
    obtain ⟨hb, pre, post, hlist, hpre⟩ := List.find?_eq_some_iff_append.mp hfind
    have hmem : b ∈ q.allocList := by simp [hlist]
    have hba : b.addr = addr := (hknown b hmem).symm.trans (by simpa using hb)
    have herase : q.allocList.eraseP (·.alignedAddr == addr) = pre ++ post := by
      rw [hlist, List.eraseP_append_right _ (by simpa using hpre)]
      simp [hb]
    subst hf
    refine ⟨b, hmem, rfl, rfl, ?_⟩
    dsimp only
    rw [herase]
    rw [hlist] at hfits
    have hfb : Fits start size (b :: (q.freeList ++ (pre ++ post))) := by
      refine hfits.perm ?_
      have := @List.perm_middle _ b (q.freeList ++ pre) post
      simpa using this
    refine (hfb.shrink (y := ⟨b.size, addr, addr⟩) ?_).perm ?_
    · simp [Block.span, hba, Span.Within.refl]
    · have := @List.perm_middle Block ⟨b.size, addr, addr⟩ q.freeList (pre ++ post)
      simpa using this.symm

/-- `free` keeps the invariant. -/
theorem inv_free (hp : start + size ≤ 2 ^ 32) {s : State} {addr : Nat} {p : ResPool}
    (hinv : Inv start size s) (hf : free s.pool addr = some p) :
    Inv start size { pool := p, live := s.live.eraseP (·.addr == addr) } := by
  obtain ⟨b, -, hfree, hlist, hfits⟩ := fits_free hinv.fits hinv.known hf
  refine ⟨hfree ▸ fits_defrag hp hfits, ?_, ?_⟩
  · intro c hc
    rw [hlist] at hc
    exact hinv.known c (List.mem_of_mem_eraseP hc)
  · rw [hlist]
    refine forall₂_eraseP hinv.held ?_
    intro l c hc hlc
    simp only [hinv.known c hc, hlc.1]

theorem inv_step (hp : start + size ≤ 2 ^ 32) {s s' : State} {op : Op}
    (hinv : Inv start size s) (hok : NoRounding s op) (hstep : step s op = some s') :
    Inv start size s' := by
  cases op with
  | alloc nbytes alignment =>
    simp only [step] at hstep
    split at hstep
    · next hreq =>
      split at hstep
      · next addr p ha =>
        rw [← Option.some.inj hstep]
        exact inv_alloc hp hinv hreq.1 hok ha
      · next p ha =>
        rw [← Option.some.inj hstep]
        simpa using inv_alloc hp hinv hreq.1 hok ha
      · simp at hstep
    · simp at hstep
  | free addr =>
    simp only [step] at hstep
    split at hstep
    · obtain ⟨p, hf, rfl⟩ := Option.map_eq_some_iff.mp hstep
      exact inv_free hp hinv hf
    · simp at hstep

/-! ## Safety -/

theorem Holds.within {l : Live} {b : Block} (h : Holds l b) : l.span.Within b.span := by
  obtain ⟨h₁, -, h₂⟩ := h
  simp only [Span.Within, Span.stop, Live.span, Block.span]
  omega

theorem exists_block : ∀ {live : List Live} {bs : List Block}, List.Forall₂ Holds live bs →
    ∀ l ∈ live, ∃ b ∈ bs, Holds l b
  | _, _, .nil, l, hl => by simp at hl
  | a :: as, b :: bs, .cons hab h, l, hl => by
    rcases List.mem_cons.mp hl with rfl | hl
    · exact ⟨b, List.mem_cons_self, hab⟩
    · obtain ⟨c, hc, hlc⟩ := exists_block h l hl
      exact ⟨c, List.mem_cons_of_mem _ hc, hlc⟩

theorem pairwise_of_held : ∀ {live : List Live} {bs : List Block},
    List.Forall₂ Holds live bs → ApartList Block.span bs →
    live.Pairwise fun a b => Disjoint a.span.toSet b.span.toSet
  | _, _, .nil, _ => List.Pairwise.nil
  | a :: as, b :: bs, .cons hab h, hap => by
    rw [ApartList.cons] at hap
    refine List.pairwise_cons.mpr ⟨?_, pairwise_of_held h hap.2⟩
    intro c hc
    obtain ⟨d, hd, hcd⟩ := exists_block h c hc
    exact Span.apart_iff_disjoint.mp ((hap.1 d hd).mono hab.within hcd.within)

/-- **Allocator safety.** Over every history of calls in which no address is rounded, the live
allocations are disjoint and lie inside the pool. -/
theorem live_disjoint_of_noRounding (start size : Nat) (hp : start + size ≤ 2 ^ 32) (s : State)
    (h : Reach step NoRounding (init start size) s) :
    LiveDisjoint s ∧ LiveInside start size s := by
  have hinv : Inv start size s :=
    h.invariant inv_init fun _ _ _ hi hok hs => inv_step hp hi hok hs
  refine ⟨pairwise_of_held hinv.held
    (hinv.fits.apart.sublist (List.sublist_append_right _ _)), ?_⟩
  intro l hl
  obtain ⟨b, hb, hlb⟩ := exists_block hinv.held l hl
  exact hlb.within.trans (hinv.fits.inside b (List.mem_append_right _ hb))

/-- A history with a join, an exact fit and a request with alignment 8 at address 0. -/
theorem live_disjoint_after_join :
    LiveDisjoint { pool := ⟨64, 24, [⟨40, 24, 0⟩], [⟨16, 8, 8⟩, ⟨8, 0, 0⟩]⟩
                   live := [⟨8, 16⟩, ⟨0, 7⟩] } :=
  (live_disjoint_of_noRounding 0 64 (by decide) _ (reach_of_exec_checked
    [.alloc 8 0, .alloc 16 1, .free 0, .alloc 7 8] (by decide))).1

/-- Two requests of three bytes with `BUF_ALIGNMENT`: the second one is placed at address 3,
rounded down to 1, and overlaps the first. -/
theorem bufAlignment_overlaps :
    ¬ ∀ (start size : Nat) (s : State), Reach step anyStep (init start size) s →
      LiveDisjoint s ∧ LiveInside start size s := by
  intro h
  have hrun : exec step (init 0 100) [.alloc 3 7, .alloc 3 7] = some
      { pool := ⟨100, 6, [⟨94, 6, 0⟩], [⟨3, 0, 0⟩, ⟨3, 3, 1⟩]⟩, live := [⟨0, 3⟩, ⟨1, 3⟩] } := by
    decide
  have hdis := (h 0 100 _ (reach_of_exec _ hrun)).1
  simp only [LiveDisjoint, List.pairwise_pair] at hdis
  exact absurd (Span.apart_iff_disjoint.mpr hdis) (by decide)

end OpenCpi.Res
