import Mathlib.Data.List.Infix
import OpenCpi.Infra.Bytes

/-!
# Appending writers and positional readers

A writer appends to a byte string, and what it appends may depend on how long the string is; that is
how alignment works. A reader walks over a finished byte string. A reader decodes a writer when it
reads the value back, in any byte string that begins with what was written so far, and stops where
the writer stopped. This is kept by sequencing and by loops.
-/

namespace OpenCpi.Infra

abbrev Bytes := List UInt8

/-- A byte string that is read, and the position in it. -/
structure Reader where
  data : Bytes
  pos : Nat

abbrev Get (ε α : Type) := StateT Reader (Except ε) α

variable {ε α β : Type} {e : ε}

/-- **`get` decodes `put` to `v`.** -/
structure Decodes (get : Get ε α) (put : Bytes → Bytes) (v : α) : Prop where
  grows : ∀ d, d <+: put d
  get : ∀ d data, put d <+: data → get ⟨data, d.length⟩ = .ok (v, ⟨data, (put d).length⟩)

theorem decodes_pure (v : α) : Decodes (pure v : Get ε α) id v :=
  ⟨fun _ => List.prefix_rfl, fun _ _ _ => rfl⟩

/-- One after the other. -/
theorem Decodes.bind {get : Get ε α} {put : Bytes → Bytes} {v : α} {g : α → Get ε β}
    {p : Bytes → Bytes} {v' : β} (h : Decodes get put v) (h' : Decodes (g v) p v') :
    Decodes (get >>= g) (fun d => p (put d)) v' := by
  refine ⟨fun d => (h.grows d).trans (h'.grows _), fun d data hp => ?_⟩
  have h₁ := h.get d data ((h'.grows _).trans hp)
  have h₂ := h'.get (put d) data hp
  simp only [Bind.bind, StateT.bind, h₁, Except.bind, h₂]

/-- The value is changed at the end. -/
theorem Decodes.map {get : Get ε α} {put : Bytes → Bytes} {v : α} (f : α → β)
    (h : Decodes get put v) : Decodes (get >>= fun a => pure (f a)) put (f v) :=
  Decodes.bind (g := fun a => pure (f a)) (p := id) h (decodes_pure (f v))

/-! ## Plain bytes -/

/-- The next bytes. -/
def take (e : ε) (n : Nat) : Get ε Bytes := fun r =>
  if r.data.length < r.pos + n then .error e
  else .ok ((r.data.drop r.pos).take n, { r with pos := r.pos + n })

theorem decodes_take {n : Nat} {b : Bytes} (h : b.length = n) : Decodes (take e n) (· ++ b) b := by
  refine ⟨fun d => List.prefix_append d b, ?_⟩
  rintro d data ⟨rest, rfl⟩
  unfold take
  dsimp only
  have hlen : ¬(d ++ b ++ rest).length < d.length + n := by
    simp only [List.length_append]
    omega
  rw [if_neg hlen, List.append_assoc, List.drop_left, List.length_append, h, ← h,
    List.take_left]

/-! ## Alignment -/

/-- The next multiple of `m`. -/
def alignUp (m n : Nat) : Nat := m * ((n + m - 1) / m)

theorem le_alignUp {m : Nat} (hm : 0 < m) (n : Nat) : n ≤ alignUp m n := by
  have h₁ := Nat.div_add_mod (n + m - 1) m
  have h₂ := Nat.mod_lt (n + m - 1) hm
  unfold alignUp
  omega

/-- Padding, with any bytes. -/
def pad (fill : Nat → UInt8) (m : Nat) (d : Bytes) : Bytes :=
  d ++ (List.range (alignUp m d.length - d.length)).map fun k => fill (d.length + k)

/-- The reader skips the padding. -/
def skip (m : Nat) : Get ε Unit := fun r => .ok ((), { r with pos := alignUp m r.pos })

theorem pad_length {fill : Nat → UInt8} {m : Nat} (hm : 0 < m) (d : Bytes) :
    (pad fill m d).length = alignUp m d.length := by
  have h := le_alignUp hm d.length
  simp only [pad, List.length_append, List.length_map, List.length_range]
  omega

theorem decodes_skip {fill : Nat → UInt8} {m : Nat} (hm : 0 < m) :
    Decodes (skip m : Get ε Unit) (pad fill m) () := by
  refine ⟨fun d => List.prefix_append _ _, fun d data _ => ?_⟩
  rw [pad_length hm]
  rfl

/-! ## Words -/

/-- The bytes of a number, the low one first. -/
def leBytes (n v : Nat) : Bytes := (List.range n).map fun k => UInt8.ofNat (v / 256 ^ k)

@[simp] theorem leBytes_length (n v : Nat) : (leBytes n v).length = n := by simp [leBytes]

theorem leBytes_succ (n v : Nat) : leBytes (n + 1) v = UInt8.ofNat v :: leBytes n (v / 256) := by
  unfold leBytes
  rw [List.range_succ_eq_map, List.map_cons, List.map_map, Nat.pow_zero, Nat.div_one]
  congr 1
  refine List.map_congr_left fun k _ => ?_
  rw [Function.comp_apply, Nat.div_div_eq_div_mul, Nat.pow_succ, Nat.mul_comm]

theorem wordOf_leBytes (n v : Nat) : wordOf (leBytes n v) = v % 256 ^ n := by
  induction n generalizing v with
  | zero => simp [leBytes, wordOf, Nat.mod_one]
  | succ n ih =>
    have hpow : 256 ^ (n + 1) = 256 * 256 ^ n := by rw [Nat.pow_succ, Nat.mul_comm]
    rw [leBytes_succ, wordOf, ih, UInt8.toNat_ofNat', hpow, Nat.mod_mul]

theorem wordOf_leBytes_of_lt {n v : Nat} (h : v < 256 ^ n) : wordOf (leBytes n v) = v := by
  rw [wordOf_leBytes, Nat.mod_eq_of_lt h]

/-- The bytes of a number in a byte order; `true` is the low byte first. -/
def orderedBytes (little : Bool) (n v : Nat) : Bytes :=
  if little then leBytes n v else (leBytes n v).reverse

@[simp] theorem orderedBytes_length (little : Bool) (n v : Nat) :
    (orderedBytes little n v).length = n := by
  cases little <;> simp [orderedBytes]

/-- The number that some bytes stand for. -/
def orderedWord (little : Bool) (b : Bytes) : Nat := wordOf (if little then b else b.reverse)

theorem orderedWord_orderedBytes {n v : Nat} (little : Bool) (h : v < 256 ^ n) :
    orderedWord little (orderedBytes little n v) = v := by
  cases little <;> simp [orderedWord, orderedBytes, wordOf_leBytes_of_lt h]

/-- A word that is read in the other order. -/
theorem orderedWord_not (little : Bool) (b : Bytes) :
    orderedWord (!little) b.reverse = orderedWord little b := by
  cases little <;> simp [orderedWord]

theorem wordOf_lt : ∀ b : Bytes, wordOf b < 256 ^ b.length
  | [] => Nat.one_pos
  | c :: b => by
    have ih := wordOf_lt b
    have hc := c.toNat_lt
    rw [wordOf, List.length_cons, Nat.pow_succ]
    omega

theorem orderedWord_lt (little : Bool) (b : Bytes) : orderedWord little b < 256 ^ b.length := by
  cases little with
  | true => exact wordOf_lt b
  | false =>
    have h := wordOf_lt b.reverse
    rw [List.length_reverse] at h
    exact h

/-- The word in the first `n` bytes and the bytes behind it. -/
def takeWord (n : Nat) (b : Bytes) : Nat × Bytes := (wordOf (b.take n), b.drop n)

/-- What was put in front is taken off. -/
theorem takeWord_leBytes {n v : Nat} (h : v < 256 ^ n) (rest : Bytes) :
    takeWord n (leBytes n v ++ rest) = (v, rest) := by
  unfold takeWord
  rw [List.take_left' (leBytes_length n v), List.drop_left' (leBytes_length n v), wordOf_leBytes_of_lt h]

/-! ## How far a reader gets -/

/-- A reader that starts at `p` needs the bytes before `q`, and with them it gets there. -/
structure Lands (get : Get ε α) (e : ε) (p q : Nat) : Prop where
  le : p ≤ q
  short : ∀ data : Bytes, p ≤ data.length → data.length < q → get ⟨data, p⟩ = .error e
  long : ∀ data : Bytes, q ≤ data.length → ∃ v, get ⟨data, p⟩ = .ok (v, ⟨data, q⟩)

theorem lands_pure (v : α) (p : Nat) : Lands (pure v : Get ε α) e p p :=
  ⟨Nat.le_refl p, fun _ h h' => absurd h' (Nat.not_lt.mpr h), fun _ _ => ⟨v, rfl⟩⟩

theorem get_bind (get : Get ε α) (g : α → Get ε β) (r : Reader) :
    (get >>= g) r = (get r).bind fun x => g x.1 x.2 := rfl

theorem Lands.bind {get : Get ε α} {g : α → Get ε β} {p q r : Nat} (h : Lands get e p q)
    (h' : ∀ v, Lands (g v) e q r) : Lands (get >>= g) e p r := by
  have hle (v : α) : q ≤ r := (h' v).le
  refine ⟨?_, fun data hp hr => ?_, fun data hr => ?_⟩
  · obtain ⟨v, -⟩ := h.long (List.replicate q 0) (by rw [List.length_replicate])
    exact Nat.le_trans h.le (hle v)
  · rw [get_bind]
    by_cases hq : data.length < q
    · rw [h.short data hp hq]
      rfl
    · obtain ⟨v, hv⟩ := h.long data (Nat.not_lt.mp hq)
      rw [hv]
      exact (h' v).short data (Nat.not_lt.mp hq) hr
  · have hq : q ≤ data.length := by
      obtain ⟨v, -⟩ := h.long (List.replicate q 0) (by rw [List.length_replicate])
      exact Nat.le_trans (hle v) hr
    obtain ⟨v, hv⟩ := h.long data hq
    rw [get_bind, hv]
    exact (h' v).long data hr

theorem Lands.map {get : Get ε α} {p q : Nat} (f : α → β) (h : Lands get e p q) :
    Lands (get >>= fun a => pure (f a)) e p q :=
  h.bind fun v => lands_pure (f v) q

/-- A number of bytes that starts at a multiple of it. -/
theorem lands_skip_take {m n : Nat} (hm : 0 < m) (p : Nat) :
    Lands (skip m >>= fun _ => take e n) e p (alignUp m p + n) := by
  have hle := le_alignUp hm p
  refine ⟨by omega, fun data _ h => if_pos h, fun data h => ⟨(data.drop (alignUp m p)).take n, ?_⟩⟩
  exact if_neg (Nat.not_lt.mpr h)

/-! ## Lists -/

/-- What several writers append, one after the other. -/
def runPuts (puts : List (Bytes → Bytes)) (d : Bytes) : Bytes := puts.foldl (fun d put => put d) d

theorem runPuts_append (ps qs : List (Bytes → Bytes)) (d : Bytes) :
    runPuts (ps ++ qs) d = runPuts qs (runPuts ps d) := List.foldl_append

/-- A value is read, and then those of the other writers. -/
theorem Decodes.cons {get : Get ε α} {put : Bytes → Bytes} {v : α} {g : α → Get ε β}
    {puts : List (Bytes → Bytes)} {v' : β} (h : Decodes get put v) (h' : Decodes (g v) (runPuts puts) v') :
    Decodes (get >>= g) (runPuts (put :: puts)) v' :=
  h.bind h'

/-- Write the elements of a list. -/
def putAll (put : α → Bytes → Bytes) (l : List α) (d : Bytes) : Bytes := l.foldl (fun d a => put a d) d

/-- Read a number of elements. -/
def getAll (get : Get ε α) : Nat → Get ε (List α)
  | 0 => pure []
  | n + 1 => do
    let a ← get
    let rest ← getAll get n
    return a :: rest

theorem decodes_all {get : Get ε α} {put : α → Bytes → Bytes} :
    ∀ {l : List α}, (∀ a ∈ l, Decodes get (put a) a) → Decodes (getAll get l.length) (putAll put l) l
  | [], _ => decodes_pure []
  | a :: l, h => by
    have hl := decodes_all (l := l) fun b hb => h b (List.mem_cons_of_mem a hb)
    exact Decodes.bind (g := fun a => getAll get l.length >>= fun rest => pure (a :: rest))
      (p := putAll put l) (h a List.mem_cons_self) (hl.map (a :: ·))

theorem putAll_grows {put : α → Bytes → Bytes} {k : Nat}
    (h : ∀ a d, d.length + k ≤ (put a d).length) :
    ∀ (l : List α) (d : Bytes), d.length + l.length * k ≤ (putAll put l d).length
  | [], d => by simp [putAll]
  | a :: l, d => by
    have h₁ := h a d
    have h₂ := putAll_grows h l (put a d)
    simp only [putAll, List.foldl_cons, List.length_cons, Nat.succ_mul] at h₂ ⊢
    omega

end OpenCpi.Infra
