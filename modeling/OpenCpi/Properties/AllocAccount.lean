import Mathlib.Algebra.GroupWithZero.Nat
import Mathlib.Algebra.Order.BigOperators.Group.List
import Mathlib.Algebra.Order.Group.Nat
import OpenCpi.Properties.Alloc

/-!
# The allocator keeps count, and joins all it can

What is allocated and what is free adds up to the pool over every history of calls. When `alloc`
answers `-1`, there is no chain of free blocks with room for the request, as long as the free blocks
are apart and none is empty: after a block was rounded down, a free block can stand between two others
that touch, and `defrag`, which compares neighbours in the order of addresses, does not join these.
-/

namespace OpenCpi.Res

open Infra

variable {start size : Nat} {l l' r c : List Block} {p p' : ResPool} {n : Nat}

/-! ## What is counted -/

/-- The memory of some blocks. -/
def sizes (l : List Block) : Nat := (l.map Block.size).sum

/-- `used` is the memory of the allocated blocks, and the rest of the pool is free. -/
structure Accounts (p : ResPool) : Prop where
  used : p.used = sizes p.allocList
  total : p.used + sizes p.freeList = p.totalSize

/-- A chain of blocks of a list: each begins where the one before it ends. -/
structure Chain (l c : List Block) : Prop where
  mem : ∀ b ∈ c, b ∈ l
  touch : c.IsChain fun a b => a.addr + a.size = b.addr

/-- When the answer is `-1`, no chain of free blocks has room for the request, neither before the call
nor after it. -/
def Complete (p : ResPool) : Prop :=
  ∀ nbytes alignment p', nbytes < 2 ^ 64 → alignment < 2 ^ 32 →
    alloc p nbytes alignment = some (none, p') →
    ∀ c, c ≠ [] → Chain p.freeList c ∨ Chain p'.freeList c → sizes c < nbytes + alignment / 8

/-- The condition on a call: some bytes are asked for, and the block that is found starts at an address
that `ALIGN` leaves alone. -/
def CallCond (p : ResPool) : Op → Prop
  | .alloc nbytes alignment =>
    0 < grossBytes nbytes alignment ∧
      ∀ r ∈ search p (grossBytes nbytes alignment), ALIGN r.2.1.addr alignment = r.2.1.addr
  | .free _ => True

instance (p : ResPool) (op : Op) : Decidable (CallCond p op) :=
  match op with
  | .alloc _ _ => inferInstanceAs (Decidable (_ ∧ _))
  | .free _ => .isTrue trivial

@[simp] theorem sizes_nil : sizes [] = 0 := rfl

@[simp] theorem sizes_cons (b : Block) (l : List Block) : sizes (b :: l) = b.size + sizes l := by
  unfold sizes
  rw [List.map_cons, List.sum_cons]

@[simp] theorem sizes_append (l r : List Block) : sizes (l ++ r) = sizes l + sizes r := by
  unfold sizes
  rw [List.map_append, List.sum_append]

theorem sizes_perm (h : l.Perm l') : sizes l = sizes l' := (h.map Block.size).sum_nat

/-! ## `defrag` moves no memory -/

theorem sizes_joinFirst : ∀ {l l' : List Block}, joinFirst l = some l' → sizes l < 2 ^ 64 →
    sizes l' = sizes l
  | [], _, h, _ => by simp [joinFirst] at h
  | [_], _, h, _ => by simp [joinFirst] at h
  | b₁ :: b₂ :: rest, l', h, hlt => by
    rw [sizes_cons, sizes_cons] at hlt
    rw [joinFirst] at h
    by_cases heq : (b₁.addr + b₁.size) % 2 ^ 64 = b₂.addr
    · rw [if_pos heq] at h
      rw [← Option.some.inj h, sizes_cons, sizes_cons, sizes_cons]
      dsimp only
      rw [Nat.mod_eq_of_lt (by omega), Nat.add_assoc]
    · rw [if_neg heq] at h
      obtain ⟨l'', hj, rfl⟩ := Option.map_eq_some_iff.mp h
      rw [sizes_cons, sizes_cons, sizes_joinFirst hj (by rw [sizes_cons]; omega)]

theorem sizes_sortByAddr (l : List Block) : sizes (sortByAddr l) = sizes l :=
  sizes_perm (List.perm_insertionSort _ l)

theorem sizes_sortBySize (l : List Block) : sizes (sortBySize l) = sizes l :=
  sizes_perm (List.perm_insertionSort _ l)

theorem sizes_defragLoop : ∀ (n : Nat) {l : List Block}, sizes l < 2 ^ 64 →
    sizes (defragLoop n l) = sizes l
  | 0, _, _ => rfl
  | n + 1, l, h => by
    have hsort := sizes_sortByAddr l
    rw [defragLoop]
    cases hj : joinFirst (sortByAddr l) with
    | some l' =>
      have hjoin := sizes_joinFirst hj (hsort ▸ h)
      dsimp only
      rw [sizes_defragLoop n (by rw [hjoin, hsort]; exact h), hjoin, hsort]
    | none => exact hsort

/-- **Joining neighbours keeps the memory.** -/
theorem sizes_defrag (h : sizes l < 2 ^ 64) : sizes (defrag l) = sizes l := sizes_defragLoop _ h

/-! ## The account -/

theorem accounts_newPool (start size : Nat) : Accounts (newPool start size) :=
  ⟨rfl, Nat.zero_add _⟩

/-- The list that the search stops in has the memory of the free list. -/
theorem sizes_search {pre post : List Block} {b : Block}
    (hs : search p n = some (pre, b, post)) (h : sizes p.freeList < 2 ^ 64) :
    sizes pre + b.size + sizes post = sizes p.freeList ∧ n ≤ b.size := by
  have hsort := sizes_sortBySize p.freeList
  have hsum : sizes (pre ++ b :: post) = sizes pre + b.size + sizes post := by
    rw [sizes_append, sizes_cons, Nat.add_assoc]
  rw [search, Option.or_eq_some_iff] at hs
  rw [← hsum]
  rcases hs with hs | ⟨_, hs⟩
  · obtain ⟨heq, hle⟩ := firstFit_eq_some hs
    exact ⟨by rw [← heq, hsort], hle⟩
  · obtain ⟨heq, hle⟩ := firstFit_eq_some hs
    exact ⟨by rw [← heq, sizes_defrag (hsort ▸ h), hsort], hle⟩

theorem accounts_carve {pre post : List Block} {b : Block} {alignment addr : Nat}
    (h : Accounts p) (hlt : p.totalSize < 2 ^ 64)
    (hsum : sizes pre + b.size + sizes post = sizes p.freeList) (hn : n ≤ b.size)
    (hc : carve p n alignment pre b post = some (addr, p')) :
    Accounts p' ∧ p'.totalSize = p.totalSize := by
  have htotal := h.total
  have hused := h.used
  have hmod : (p.used + n) % 2 ^ 64 = p.used + n := Nat.mod_eq_of_lt (by omega)
  unfold carve at hc
  dsimp only at hc
  by_cases hpart : n < b.size
  · rw [if_pos hpart] at hc
    by_cases hfits : n < 2 ^ 32
    · rw [if_pos hfits, Option.some_inj, Prod.mk.injEq] at hc
      obtain ⟨-, rfl⟩ := hc
      refine ⟨⟨?_, ?_⟩, rfl⟩
      · dsimp only
        rw [hmod, sizes_append, sizes_cons, sizes_nil, hused]
        rfl
      · dsimp only
        rw [hmod, sizes_append, sizes_cons]
        dsimp only
        omega
    · rw [if_neg hfits] at hc
      cases hc
  · rw [if_neg hpart, Option.some_inj, Prod.mk.injEq] at hc
    obtain ⟨-, rfl⟩ := hc
    have heq : b.size = n := by omega
    refine ⟨⟨?_, ?_⟩, rfl⟩
    · dsimp only
      rw [hmod, sizes_append, sizes_cons, sizes_nil, hused, heq]
      rfl
    · dsimp only
      rw [hmod, sizes_append]
      omega

theorem accounts_free {addr : Nat} (h : Accounts p) (hlt : p.totalSize < 2 ^ 64)
    (hf : free p addr = some p') : Accounts p' ∧ p'.totalSize = p.totalSize := by
  have htotal := h.total
  have hused := h.used
  unfold free at hf
  cases hfind : p.allocList.find? (·.alignedAddr == addr) with
  | none =>
    rw [hfind] at hf
    cases hf
  | some b =>
    rw [hfind] at hf
    obtain rfl := Option.some.inj hf
    obtain ⟨hb, pre, post, hlist, hpre⟩ := List.find?_eq_some_iff_append.mp hfind
    have herase : p.allocList.eraseP (·.alignedAddr == addr) = pre ++ post := by
      rw [hlist, List.eraseP_append_right _ (by simpa using hpre)]
      simp [hb]
    rw [hlist, sizes_append, sizes_cons] at hused
    have hsub : (p.used + 2 ^ 64 - b.size) % 2 ^ 64 = p.used - b.size := by
      rw [show p.used + 2 ^ 64 - b.size = p.used - b.size + 2 ^ 64 from by omega,
        Nat.add_mod_right, Nat.mod_eq_of_lt (by omega)]
    have hfree : sizes (p.freeList ++ [⟨b.size, addr, addr⟩]) = sizes p.freeList + b.size := by
      rw [sizes_append, sizes_cons, sizes_nil, Nat.add_zero]
    refine ⟨⟨?_, ?_⟩, rfl⟩
    · dsimp only
      rw [hsub, herase, sizes_append]
      omega
    · dsimp only
      rw [hsub, sizes_defrag (by rw [hfree]; omega), hfree]
      omega

/-- **Each call keeps the account.** -/
theorem accounts_call {op : Op} (h : Accounts p) (hlt : p.totalSize < 2 ^ 64)
    (hc : call p op = some p') : Accounts p' ∧ p'.totalSize = p.totalSize := by
  have htotal := h.total
  cases op with
  | free addr => exact accounts_free h hlt hc
  | alloc nbytes alignment =>
    unfold call at hc
    dsimp only at hc
    by_cases harg : nbytes < 2 ^ 64 ∧ alignment < 2 ^ 32
    · rw [if_pos harg] at hc
      obtain ⟨⟨res, q⟩, ha, rfl⟩ := Option.map_eq_some_iff.mp hc
      unfold alloc at ha
      dsimp only at ha
      cases hs : search p (grossBytes nbytes alignment) with
      | none =>
        rw [hs, Option.some_inj, Prod.mk.injEq] at ha
        obtain ⟨-, rfl⟩ := ha
        have hsort := sizes_sortBySize p.freeList
        refine ⟨⟨h.used, ?_⟩, rfl⟩
        dsimp only
        rw [sizes_defrag (by rw [sizes_defrag (by omega)]; omega), sizes_defrag (by omega), hsort]
        exact htotal
      | some found =>
        obtain ⟨pre, b, post⟩ := found
        rw [hs] at ha
        obtain ⟨⟨addr, q'⟩, hcarve, heq⟩ := Option.map_eq_some_iff.mp ha
        obtain ⟨-, rfl⟩ := Prod.mk.inj heq
        obtain ⟨hsum, hle⟩ := sizes_search hs (by omega)
        exact accounts_carve h hlt hsum hle hcarve
    · rw [if_neg harg] at hc
      cases hc

/-- **The account over every history of calls**, whatever they ask for. -/
theorem accounts_of_reach (hsize : size < 2 ^ 64)
    (h : Reach call anyStep (newPool start size) p) : Accounts p ∧ p.totalSize = size := by
  have hinit : Accounts (newPool start size) ∧ (newPool start size).totalSize = size :=
    ⟨accounts_newPool start size, rfl⟩
  refine h.invariant (P := fun p => Accounts p ∧ p.totalSize = size) hinit ?_
  rintro q op q' ⟨hacc, htotal⟩ - hcall
  obtain ⟨hacc', htotal'⟩ := accounts_call hacc (htotal ▸ hsize) hcall
  exact ⟨hacc', htotal'.trans htotal⟩

/-! ## What `defrag` leaves -/

theorem joinFirst_length : ∀ {l l' : List Block}, joinFirst l = some l' → l.length = l'.length + 1
  | [], _, h => by simp [joinFirst] at h
  | [_], _, h => by simp [joinFirst] at h
  | b₁ :: b₂ :: rest, l', h => by
    rw [joinFirst] at h
    by_cases heq : (b₁.addr + b₁.size) % 2 ^ 64 = b₂.addr
    · rw [if_pos heq] at h
      rw [← Option.some.inj h]
      rfl
    · rw [if_neg heq] at h
      obtain ⟨l'', hj, rfl⟩ := Option.map_eq_some_iff.mp h
      rw [List.length_cons, joinFirst_length hj, List.length_cons]

/-- A list in the order of addresses in which no neighbours can be joined. -/
structure Joined (l : List Block) : Prop where
  sorted : l.Pairwise fun a b => a.addr ≤ b.addr
  none : joinFirst l = none

theorem sorted_sortByAddr (l : List Block) :
    (sortByAddr l).Pairwise fun a b => a.addr ≤ b.addr := by
  have : Std.Total fun a b : Block => a.addr ≤ b.addr := ⟨fun a b => Nat.le_total a.addr b.addr⟩
  have : IsTrans Block fun a b => a.addr ≤ b.addr := ⟨fun _ _ _ => Nat.le_trans⟩
  exact List.pairwise_insertionSort _ l

theorem joined_defragLoop : ∀ (n : Nat) {l : List Block}, l.length ≤ n → Joined (defragLoop n l)
  | 0, l, h => by
    rw [List.length_eq_zero_iff.mp (Nat.le_zero.mp h)]
    exact ⟨List.Pairwise.nil, rfl⟩
  | n + 1, l, h => by
    have hlen : (sortByAddr l).length = l.length := List.length_insertionSort _ l
    rw [defragLoop]
    cases hj : joinFirst (sortByAddr l) with
    | some l' =>
      have hl' := joinFirst_length hj
      exact joined_defragLoop n (by omega)
    | none => exact ⟨sorted_sortByAddr l, hj⟩

/-- `defrag` goes on until no neighbours are left that it could join. -/
theorem joined_defrag (l : List Block) : Joined (defrag l) := joined_defragLoop _ le_rfl

/-- A second `defrag` changes nothing. -/
theorem Joined.defrag_eq (h : Joined l) : defrag l = l := by
  have hsort : sortByAddr l = l := h.sorted.insertionSort_eq
  unfold defrag
  cases hl : l.length with
  | zero => rfl
  | succ n => rw [defragLoop, hsort, h.none]

/-! ## What touches is joined -/

/-- No block is empty. -/
def Filled (l : List Block) : Prop := ∀ b ∈ l, 0 < b.size

/-- No two blocks touch. -/
def Separate (l : List Block) : Prop := ∀ a ∈ l, ∀ b ∈ l, a.addr + a.size ≠ b.addr

theorem separate_cons {a : Block} (hl : Separate l) (ha : 0 < a.size)
    (hle : ∀ b ∈ l, a.addr ≤ b.addr) (hne : ∀ b ∈ l, a.addr + a.size ≠ b.addr) (hpos : Filled l) :
    Separate (a :: l) := by
  intro x hx y hy
  rcases List.mem_cons.mp hx with rfl | hx'
  · rcases List.mem_cons.mp hy with rfl | hy
    · omega
    · exact hne y hy
  · have := hle x hx'
    have := hpos x hx'
    rcases List.mem_cons.mp hy with rfl | hy
    · omega
    · exact hl x hx' y hy

/-- The blocks of a joined list do not touch, in whatever order they are looked at: what stands between
two blocks in the list stands between them in memory. -/
theorem Joined.separate (hp : start + size ≤ 2 ^ 32) : ∀ {l : List Block}, Joined l →
    Fits start size l → Filled l → Separate l
  | [], _, _, _ => fun a ha => absurd ha List.not_mem_nil
  | [a], _, _, hpos => by
    have := hpos a List.mem_cons_self
    intro x hx y hy
    rw [List.mem_singleton.mp hx, List.mem_singleton.mp hy]
    omega
  | a :: b :: rest, hj, hf, hpos => by
    obtain ⟨hle, hsorted⟩ := List.pairwise_cons.mp hj.sorted
    obtain ⟨hapart, hapartTail⟩ := ApartList.cons.mp hf.apart
    have hnone := hj.none
    rw [joinFirst] at hnone
    by_cases heq : (a.addr + a.size) % 2 ^ 64 = b.addr
    · rw [if_pos heq] at hnone
      cases hnone
    rw [if_neg heq] at hnone
    have ha := hpos a List.mem_cons_self
    have hposTail : Filled (b :: rest) := fun c hc => hpos c (List.mem_cons_of_mem _ hc)
    have hb := hposTail b List.mem_cons_self
    have hstop := hf.stop_le hp (b := a) List.mem_cons_self
    have hab := hapart b List.mem_cons_self
    have hle₁ := hle b List.mem_cons_self
    simp only [Span.Apart, Span.stop, Block.span] at hab
    refine separate_cons (Joined.separate hp ⟨hsorted, Option.map_eq_none_iff.mp hnone⟩
      ⟨hapartTail, fun c hc => hf.inside c (List.mem_cons_of_mem _ hc)⟩ hposTail) ha hle ?_ hposTail
    intro c hc
    rcases List.mem_cons.mp hc with rfl | hc
    · omega
    · -- `b` lies between `a` and `c`
      have hbc := (List.pairwise_cons.mp hsorted).1 c hc
      have hcpos := hposTail c (List.mem_cons_of_mem _ hc)
      have hapartbc := (ApartList.cons.mp hapartTail).1 c hc
      simp only [Span.Apart, Span.stop, Block.span] at hapartbc
      omega

theorem filled_perm (h : Filled l) (hp : l.Perm l') : Filled l' :=
  fun b hb => h b (hp.mem_iff.mpr hb)

theorem filled_joinFirst (hp : start + size ≤ 2 ^ 32) : ∀ {l l' r : List Block},
    joinFirst l = some l' → Fits start size (l ++ r) → Filled l → Filled l'
  | [], _, _, h, _, _ => by simp [joinFirst] at h
  | [_], _, _, h, _, _ => by simp [joinFirst] at h
  | b₁ :: b₂ :: rest, l', r, h, hf, hpos => by
    have hpos₁ := hpos b₁ (by simp)
    have hposTail : Filled (b₂ :: rest) := fun b hb => hpos b (List.mem_cons_of_mem _ hb)
    have hstop := hf.stop_le hp (b := b₂) (by simp)
    have hstop₁ := hf.stop_le hp (b := b₁) (by simp)
    rw [joinFirst] at h
    by_cases heq : (b₁.addr + b₁.size) % 2 ^ 64 = b₂.addr
    · rw [if_pos heq] at h
      rw [← Option.some.inj h]
      intro b hb
      rcases List.mem_cons.mp hb with rfl | hb
      · dsimp only
        rw [Nat.mod_eq_of_lt (by omega)]
        omega
      · exact hposTail b (List.mem_cons_of_mem _ hb)
    · rw [if_neg heq] at h
      obtain ⟨l'', hj, rfl⟩ := Option.map_eq_some_iff.mp h
      have hf' : Fits start size ((b₂ :: rest) ++ (b₁ :: r)) := hf.perm List.perm_middle.symm
      intro b hb
      rcases List.mem_cons.mp hb with rfl | hb
      · exact hpos₁
      · exact filled_joinFirst hp hj hf' hposTail b hb

/-- The memory of each block of the first list lies in one block of the second. -/
def Covers (l l' : List Block) : Prop := ∀ b ∈ l, ∃ d ∈ l', b.span.Within d.span

theorem Covers.refl (l : List Block) : Covers l l := fun b hb => ⟨b, hb, Span.Within.refl _⟩

theorem Covers.trans {l'' : List Block} (h : Covers l l') (h' : Covers l' l'') : Covers l l'' := by
  intro b hb
  obtain ⟨d, hd, hbd⟩ := h b hb
  obtain ⟨e, he, hde⟩ := h' d hd
  exact ⟨e, he, hbd.trans hde⟩

theorem covers_perm (hp : l.Perm l') : Covers l l' :=
  fun b hb => ⟨b, hp.mem_iff.mp hb, Span.Within.refl _⟩

theorem covers_joinFirst (hp : start + size ≤ 2 ^ 32) : ∀ {l l' r : List Block},
    joinFirst l = some l' → Fits start size (l ++ r) → Covers l l'
  | [], _, _, h, _ => by simp [joinFirst] at h
  | [_], _, _, h, _ => by simp [joinFirst] at h
  | b₁ :: b₂ :: rest, l', r, h, hf => by
    have hstop₁ := hf.stop_le hp (b := b₁) (by simp)
    have hstop₂ := hf.stop_le hp (b := b₂) (by simp)
    rw [joinFirst] at h
    by_cases heq : (b₁.addr + b₁.size) % 2 ^ 64 = b₂.addr
    · rw [if_pos heq] at h
      rw [← Option.some.inj h]
      have hsum : (b₁.size + b₂.size) % 2 ^ 64 = b₁.size + b₂.size := Nat.mod_eq_of_lt (by omega)
      intro b hb
      rcases List.mem_cons.mp hb with rfl | hb
      · refine ⟨_, List.mem_cons_self, ?_⟩
        simp only [Span.Within, Span.stop, Block.span, hsum]
        omega
      rcases List.mem_cons.mp hb with rfl | hb
      · refine ⟨_, List.mem_cons_self, ?_⟩
        simp only [Span.Within, Span.stop, Block.span, hsum]
        omega
      · exact ⟨b, List.mem_cons_of_mem _ hb, Span.Within.refl _⟩
    · rw [if_neg heq] at h
      obtain ⟨l'', hj, rfl⟩ := Option.map_eq_some_iff.mp h
      have hf' : Fits start size ((b₂ :: rest) ++ (b₁ :: r)) := hf.perm List.perm_middle.symm
      intro b hb
      rcases List.mem_cons.mp hb with rfl | hb
      · exact ⟨b, List.mem_cons_self, Span.Within.refl _⟩
      · obtain ⟨d, hd, hbd⟩ := covers_joinFirst hp hj hf' b hb
        exact ⟨d, List.mem_cons_of_mem _ hd, hbd⟩

theorem covers_defragLoop (hp : start + size ≤ 2 ^ 32) : ∀ (n : Nat) {l : List Block},
    Fits start size (l ++ r) → Filled l →
      Covers l (defragLoop n l) ∧ Filled (defragLoop n l)
  | 0, l, _, hpos => ⟨Covers.refl l, hpos⟩
  | n + 1, l, hf, hpos => by
    have hperm : l.Perm (sortByAddr l) := (List.perm_insertionSort _ l).symm
    have hsort := fits_sortByAddr hf
    have hposSort := filled_perm hpos hperm
    rw [defragLoop]
    cases hj : joinFirst (sortByAddr l) with
    | some l' =>
      obtain ⟨hcov, hpos'⟩ := covers_defragLoop hp n (fits_joinFirst hp hj hsort)
        (filled_joinFirst hp hj hsort hposSort)
      exact ⟨((covers_perm hperm).trans (covers_joinFirst hp hj hsort)).trans hcov, hpos'⟩
    | none => exact ⟨covers_perm hperm, hposSort⟩

/-- `defrag` keeps each block inside one block, and makes none empty. -/
theorem covers_defrag (hp : start + size ≤ 2 ^ 32) (hf : Fits start size (l ++ r))
    (hpos : Filled l) : Covers l (defrag l) ∧ Filled (defrag l) := covers_defragLoop hp _ hf hpos

/-! ## Chains -/

/-- Two blocks that touch lie in the same block of a list that covers them and in which no blocks
touch. -/
theorem same_block (hap : ApartList Block.span l') (hsep : Separate l') {a b d e : Block}
    (ha : 0 < a.size) (hb : 0 < b.size) (hd : d ∈ l') (he : e ∈ l') (had : a.span.Within d.span)
    (hbe : b.span.Within e.span) (hab : a.addr + a.size = b.addr) : d = e := by
  by_contra hne
  have hapart := hap.of_mem hd he hne
  have hde := hsep d hd e he
  simp only [Span.Within, Span.Apart, Span.stop, Block.span] at *
  omega

/-- A chain has no more memory than the block it lies in. -/
theorem chain_le (hap : ApartList Block.span l') (hsep : Separate l') (hcov : Covers l l')
    (hpos : Filled l) : ∀ {b : Block} {c : List Block}, Chain l (b :: c) →
      ∃ d ∈ l', b.span.Within d.span ∧ b.addr + sizes (b :: c) ≤ d.addr + d.size
  | b, [], h => by
    obtain ⟨d, hd, hbd⟩ := hcov b (h.mem b List.mem_cons_self)
    refine ⟨d, hd, hbd, ?_⟩
    have := hbd.2
    simp only [Span.stop, Block.span, sizes_cons, sizes_nil] at *
    omega
  | b, b' :: c, h => by
    have hb := h.mem b List.mem_cons_self
    have hb' := h.mem b' (List.mem_cons_of_mem _ List.mem_cons_self)
    obtain ⟨htouch, hrest⟩ := List.isChain_cons_cons.mp h.touch
    obtain ⟨d, hd, hbd⟩ := hcov b hb
    obtain ⟨e, he, hbe, hle⟩ := chain_le hap hsep hcov hpos
      (⟨fun x hx => h.mem x (List.mem_cons_of_mem _ hx), hrest⟩ : Chain l (b' :: c))
    have hde := same_block hap hsep (hpos b hb) (hpos b' hb') hd he hbd hbe htouch
    refine ⟨d, hd, hbd, ?_⟩
    rw [sizes_cons, hde]
    omega

theorem firstFit_eq_none : ∀ {l : List Block}, firstFit n l = none → ∀ b ∈ l, b.size < n
  | [], _, b, hb => absurd hb List.not_mem_nil
  | a :: rest, h, b, hb => by
    rw [firstFit] at h
    by_cases hle : n ≤ a.size
    · rw [if_pos hle] at h
      cases h
    · rw [if_neg hle] at h
      rcases List.mem_cons.mp hb with rfl | hb
      · omega
      · exact firstFit_eq_none (Option.map_eq_none_iff.mp h) b hb

/-! ## Completeness -/

/-- The pool is in order: its blocks are apart, none is empty and each is known by its address. -/
structure InOrder (start size : Nat) (p : ResPool) : Prop where
  fits : Fits start size (p.freeList ++ p.allocList)
  filled : Filled (p.freeList ++ p.allocList)
  known : ∀ b ∈ p.allocList, b.alignedAddr = b.addr

/-- **When `alloc` answers `-1`, no chain of free blocks has room.** -/
theorem complete_of_inOrder (hp : start + size ≤ 2 ^ 32) (h : InOrder start size p) :
    Complete p := by
  intro nbytes alignment p' hnbytes hal ha c hne hc
  have hpos : Filled p.freeList := fun b hb => h.filled b (List.mem_append_left _ hb)
  have hperm : p.freeList.Perm (sortBySize p.freeList) := (List.perm_insertionSort _ _).symm
  have hfits := fits_sortBySize h.fits
  obtain ⟨hcov, hpos'⟩ := covers_defrag hp hfits (filled_perm hpos hperm)
  have hfits' := fits_defrag hp hfits
  have hjoined := joined_defrag (sortBySize p.freeList)
  have hap : ApartList Block.span (defrag (sortBySize p.freeList)) :=
    hfits'.apart.sublist (List.sublist_append_left _ _)
  have hsep := hjoined.separate hp
    ⟨hap, fun b hb => hfits'.inside b (List.mem_append_left _ hb)⟩ hpos'
  unfold alloc at ha
  dsimp only at ha
  cases hs : search p (grossBytes nbytes alignment) with
  | some found =>
    rw [hs] at ha
    obtain ⟨r, -, heq⟩ := Option.map_eq_some_iff.mp ha
    cases (Prod.mk.inj heq).1
  | none =>
    rw [hs, Option.some_inj, Prod.mk.injEq] at ha
    have hsmall := firstFit_eq_none (Option.or_eq_none_iff.mp hs).2
    have hgross : grossBytes nbytes alignment ≤ nbytes + alignment / 8 := Nat.mod_le _ _
    have hchain : ∃ l, Chain l c ∧ Covers l (defrag (sortBySize p.freeList)) ∧ Filled l := by
      rcases hc with hc | hc
      · exact ⟨_, hc, (covers_perm hperm).trans hcov, hpos⟩
      · rw [← ha.2] at hc
        dsimp only at hc
        rw [hjoined.defrag_eq] at hc
        exact ⟨_, hc, Covers.refl _, hpos'⟩
    obtain ⟨l, hc, hcovl, hposl⟩ := hchain
    obtain ⟨b, c', rfl⟩ := List.exists_cons_of_ne_nil hne
    obtain ⟨d, hd, hbd, hle⟩ := chain_le hap hsep hcovl hposl hc
    have hlt := hsmall d hd
    have hlow := hbd.1
    simp only [Block.span] at hlow
    omega

/-- A pool without memory has no room for anything either. -/
theorem complete_of_empty (hacc : Accounts p) (hzero : p.totalSize = 0) : Complete p := by
  intro nbytes alignment p' hnbytes hal ha c hne hc
  have htotal := hacc.total
  have hcall : call p (.alloc nbytes alignment) = some p' := by
    unfold call
    dsimp only
    rw [if_pos ⟨hnbytes, hal⟩, ha]
    rfl
  obtain ⟨hacc', htotal'⟩ := accounts_call hacc (by omega) hcall
  have htotal'' := hacc'.total
  have hnil : ∀ {l : List Block}, sizes l = 0 → Chain l c → sizes c = 0 := by
    intro l hl hc
    refine List.sum_eq_zero fun x hx => ?_
    obtain ⟨b, hb, rfl⟩ := List.mem_map.mp hx
    have hle : b.size ≤ sizes l := List.le_sum_of_mem (List.mem_map_of_mem (hc.mem b hb))
    omega
  have hsizes : sizes c = 0 := by
    rcases hc with hc | hc
    · exact hnil (by omega) hc
    · exact hnil (by omega) hc
  rw [hsizes]
  by_contra hgross
  -- for no bytes at all any block would do, so there is none
  have hzero : grossBytes nbytes alignment = 0 := by
    unfold grossBytes
    omega
  have hs : search p 0 = none := by
    unfold alloc at ha
    dsimp only at ha
    rw [hzero] at ha
    cases hs : search p 0 with
    | none => rfl
    | some found =>
      rw [hs] at ha
      obtain ⟨r, -, heq⟩ := Option.map_eq_some_iff.mp ha
      cases (Prod.mk.inj heq).1
  have hempty : p.freeList = [] := by
    refine List.eq_nil_iff_forall_not_mem.mpr fun b hb => ?_
    have hmem := (List.perm_insertionSort (fun a b : Block => a.size ≤ b.size) _).mem_iff.mpr hb
    exact Nat.not_lt_zero _ (firstFit_eq_none (Option.or_eq_none_iff.mp hs).1 b hmem)
  have hempty' : p'.freeList = [] := by
    unfold alloc at ha
    dsimp only at ha
    rw [hzero, hs, Option.some_inj, Prod.mk.injEq] at ha
    rw [← ha.2]
    dsimp only
    rw [hempty]
    rfl
  obtain ⟨b, c', rfl⟩ := List.exists_cons_of_ne_nil hne
  rcases hc with hc | hc
  · have := hc.mem b List.mem_cons_self
    rw [hempty] at this
    cases this
  · have := hc.mem b List.mem_cons_self
    rw [hempty'] at this
    cases this

/-! ## Each call keeps the pool in order -/

theorem filled_search (hp : start + size ≤ 2 ^ 32) {pre post : List Block} {b : Block}
    (hs : search p n = some (pre, b, post)) (hf : Fits start size (p.freeList ++ r))
    (hpos : Filled p.freeList) : Filled (pre ++ b :: post) := by
  have hpos' := filled_perm hpos (List.perm_insertionSort (fun a b => a.size ≤ b.size) _).symm
  rw [search, Option.or_eq_some_iff] at hs
  rcases hs with hs | ⟨_, hs⟩
  · exact (firstFit_eq_some hs).1 ▸ hpos'
  · exact (firstFit_eq_some hs).1 ▸ (covers_defrag hp (fits_sortBySize hf) hpos').2

theorem filled_carve {pre post : List Block} {b : Block} {alignment addr : Nat}
    (hpos : Filled (pre ++ b :: post)) (halloc : Filled p.allocList) (hn : 0 < n)
    (hc : carve p n alignment pre b post = some (addr, p')) :
    Filled (p'.freeList ++ p'.allocList) := by
  have hpre : Filled pre := fun x hx => hpos x (List.mem_append_left _ hx)
  have hb : 0 < b.size := hpos b (List.mem_append_right _ List.mem_cons_self)
  have hpost : Filled post :=
    fun x hx => hpos x (List.mem_append_right _ (List.mem_cons_of_mem _ hx))
  unfold carve at hc
  dsimp only at hc
  by_cases hpart : n < b.size
  · rw [if_pos hpart] at hc
    by_cases hfits : n < 2 ^ 32
    · rw [if_pos hfits, Option.some_inj, Prod.mk.injEq] at hc
      obtain ⟨-, rfl⟩ := hc
      intro x hx
      simp only [List.mem_append, List.mem_cons, List.not_mem_nil, or_false] at hx
      rcases hx with (hx | rfl | hx) | hx | rfl
      · exact hpre x hx
      · exact Nat.sub_pos_of_lt hpart
      · exact hpost x hx
      · exact halloc x hx
      · exact hn
    · rw [if_neg hfits] at hc
      cases hc
  · rw [if_neg hpart, Option.some_inj, Prod.mk.injEq] at hc
    obtain ⟨-, rfl⟩ := hc
    intro x hx
    simp only [List.mem_append, List.mem_cons, List.not_mem_nil, or_false] at hx
    rcases hx with (hx | hx) | hx | rfl
    · exact hpre x hx
    · exact hpost x hx
    · exact halloc x hx
    · exact hb

theorem inOrder_alloc (hp : start + size ≤ 2 ^ 32) {nbytes alignment : Nat} {res : Option Nat}
    (h : InOrder start size p) (hok : CallCond p (.alloc nbytes alignment))
    (ha : alloc p nbytes alignment = some (res, p')) : InOrder start size p' := by
  obtain ⟨hn, hal⟩ := hok
  have hfree : Filled p.freeList := fun b hb => h.filled b (List.mem_append_left _ hb)
  have halloc : Filled p.allocList := fun b hb => h.filled b (List.mem_append_right _ hb)
  unfold alloc at ha
  dsimp only at ha
  cases hs : search p (grossBytes nbytes alignment) with
  | none =>
    rw [hs, Option.some_inj, Prod.mk.injEq] at ha
    obtain ⟨-, rfl⟩ := ha
    have hfits := fits_sortBySize h.fits
    have hpos := filled_perm hfree (List.perm_insertionSort (fun a b => a.size ≤ b.size) _).symm
    have hpos₁ := (covers_defrag hp hfits hpos).2
    have hpos₂ := (covers_defrag hp (fits_defrag hp hfits) hpos₁).2
    refine ⟨fits_defrag hp (fits_defrag hp hfits), ?_, h.known⟩
    intro b hb
    rcases List.mem_append.mp hb with hb | hb
    · exact hpos₂ b hb
    · exact halloc b hb
  | some found =>
    obtain ⟨pre, b, post⟩ := found
    rw [hs] at ha
    obtain ⟨⟨addr, q⟩, hc, heq⟩ := Option.map_eq_some_iff.mp ha
    obtain ⟨-, rfl⟩ := Prod.mk.inj heq
    obtain ⟨hf, hle⟩ := fits_search hp hs h.fits
    obtain ⟨c, hlist, haddr, hknown, -, hfits⟩ := carve_spec hp hf hle (hal _ hs) hc
    refine ⟨hfits, filled_carve (filled_search hp hs h.fits hfree) halloc hn hc, ?_⟩
    intro d hd
    rw [hlist] at hd
    rcases List.mem_append.mp hd with hd | hd
    · exact h.known d hd
    · rw [List.mem_singleton.mp hd, hknown, haddr]

theorem inOrder_free (hp : start + size ≤ 2 ^ 32) {addr : Nat} (h : InOrder start size p)
    (hf : free p addr = some p') : InOrder start size p' := by
  obtain ⟨b, hb, hfree, hlist, hfits⟩ := fits_free h.fits h.known hf
  have hpos : Filled (p.freeList ++ [⟨b.size, addr, addr⟩]) := by
    intro c hc
    rcases List.mem_append.mp hc with hc | hc
    · exact h.filled c (List.mem_append_left _ hc)
    · rw [List.mem_singleton.mp hc]
      exact h.filled b (List.mem_append_right _ hb)
  refine ⟨hfree ▸ fits_defrag hp hfits, ?_, ?_⟩
  · intro c hc
    rcases List.mem_append.mp hc with hc | hc
    · rw [hfree] at hc
      exact (covers_defrag hp hfits hpos).2 c hc
    · rw [hlist] at hc
      exact h.filled c (List.mem_append_right _ (List.mem_of_mem_eraseP hc))
  · intro c hc
    rw [hlist] at hc
    exact h.known c (List.mem_of_mem_eraseP hc)

theorem inOrder_call (hp : start + size ≤ 2 ^ 32) {op : Op} (h : InOrder start size p)
    (hok : CallCond p op) (hc : call p op = some p') : InOrder start size p' := by
  cases op with
  | free addr => exact inOrder_free hp h hc
  | alloc nbytes alignment =>
    unfold call at hc
    dsimp only at hc
    by_cases harg : nbytes < 2 ^ 64 ∧ alignment < 2 ^ 32
    · rw [if_pos harg] at hc
      obtain ⟨⟨res, q⟩, ha, rfl⟩ := Option.map_eq_some_iff.mp hc
      exact inOrder_alloc hp h hok ha
    · rw [if_neg harg] at hc
      cases hc

theorem inOrder_newPool (h : 0 < size) : InOrder start size (newPool start size) where
  fits := ⟨List.pairwise_singleton _ _, fun b hb => by
    rw [List.mem_singleton.mp hb]
    exact Span.Within.refl _⟩
  filled := fun b hb => by
    rw [List.mem_singleton.mp hb]
    exact h
  known := fun b hb => absurd hb List.not_mem_nil

/-- **Accounting and completeness.** Over every history of calls that ask for some bytes and meet a block
that `ALIGN` leaves alone, the pool keeps count, and the answer `-1` means that there is no room. -/
theorem complete_of_callCond (start size : Nat) (hp : start + size ≤ 2 ^ 32) (p : ResPool)
    (h : Reach call CallCond (newPool start size) p) : Accounts p ∧ Complete p := by
  have hreach : Reach call anyStep (newPool start size) p := h.mono fun _ _ _ => trivial
  obtain ⟨hacc, htotal⟩ := accounts_of_reach (by omega) hreach
  refine ⟨hacc, ?_⟩
  by_cases hzero : size = 0
  · exact complete_of_empty hacc (by omega)
  · have hinv : InOrder start size p :=
      h.invariant (inOrder_newPool (by omega)) fun _ _ _ hi hok hc => inOrder_call hp hi hok hc
    exact complete_of_inOrder hp hinv

/-- After a split, a join and an exact fit, ten bytes are free in one block of six and one of four that
do not touch; seven bytes are refused. -/
theorem complete_after_join :
    Accounts ⟨16, 6, [⟨6, 0, 0⟩, ⟨4, 12, 0⟩], [⟨6, 6, 6⟩]⟩ ∧
      Complete ⟨16, 6, [⟨6, 0, 0⟩, ⟨4, 12, 0⟩], [⟨6, 6, 6⟩]⟩ :=
  complete_of_callCond 0 16 (by decide) _ (reach_of_exec_checked
    [.alloc 2 0, .alloc 4 1, .alloc 6 0, .free 0, .free 2] (by decide))

/-- `ALIGN` rounds the third block down to address 4, where it overlaps the block at 5 once they are
free: then the blocks of five and of one byte touch, but six bytes are refused. -/
theorem rounded_block_hides_room :
    ¬ ∀ (start size : Nat) (p : ResPool), start + size ≤ 2 ^ 32 →
      Reach call anyStep (newPool start size) p → Accounts p ∧ Complete p := by
  intro h
  have hrun : exec call (newPool 0 9)
      [.alloc 5 0, .alloc 1 0, .alloc 3 4, .free 4, .free 0, .free 5] = some
      ⟨9, 0, [⟨5, 0, 0⟩, ⟨3, 4, 4⟩, ⟨1, 5, 5⟩], []⟩ := by
    decide
  have hcomplete := (h 0 9 _ (by decide) (reach_of_exec _ hrun)).2
  have hroom := hcomplete 6 0 ⟨9, 0, [⟨5, 0, 0⟩, ⟨3, 4, 4⟩, ⟨1, 5, 5⟩], []⟩ (by decide)
    (by decide) (by decide) [⟨5, 0, 0⟩, ⟨1, 5, 5⟩]
    (by decide) (Or.inl ⟨by decide, by decide⟩)
  exact absurd hroom (by decide)

end OpenCpi.Res
