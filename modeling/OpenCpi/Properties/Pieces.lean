import OpenCpi.Properties.Walk

/-!
# The pieces of a buffer

A type and the bytes in memory say which pieces stand in a buffer one behind the other, however long the
buffer is: gaps, counts, strings and blocks of scalars. The length of a count and of a string is checked
after they were read. So the walk is safe exactly if the first piece that does not fit is neither of these,
and it comes to no byte count that wraps around and to no loop without end.
-/

namespace OpenCpi.Value

open Infra

/-! ## Pieces -/

/-- What stands at a place. The last three end the data: a count that is refused, a block of scalars whose
byte count wraps around, a loop over elements that take no bytes. -/
inductive Piece where
  | gap (size : Nat)
  | count
  | text (size : Nat)
  | block (size : Nat)
  | refused (message : String)
  | wraps
  | forever
deriving DecidableEq, Repr

def Piece.size : Piece → Nat
  | gap n | text n | block n => n
  | count => 4
  | refused _ | wraps | forever => 0

@[simp] theorem Piece.size_gap (n : Nat) : (gap n).size = n := rfl

@[simp] theorem Piece.size_count : count.size = 4 := rfl

def total : List Piece → Nat
  | [] => 0
  | f :: fs => f.size + total fs

/-- The pieces from an address on. -/
abbrev Pieces := Nat → List Piece

/-- One behind the other. -/
def Pieces.andThen (a b : Pieces) : Pieces := fun p => a p ++ b (p + total (a p))

def Pieces.repeated (a : Pieces) : Nat → Pieces
  | 0 => fun _ => []
  | n + 1 => a.andThen (Pieces.repeated a n)

/-- A gap up to the next multiple. -/
def gapTo (n : Nat) : Pieces := fun p => [.gap (alignSkip p n)]

variable (memory : Memory) (length : Nat)

/-- From 2^32 elements on there are always more. In a buffer of this length none of them is left, or they
take no bytes. -/
def Pieces.loop (a : Pieces) (nElements : Nat) : Pieces :=
  if nElements < 2 ^ 32 then a.repeated nElements
  else (a.repeated (length + 1)).andThen fun _ => [.forever]

/-- The count of a sequence that stands at an address. -/
def countAt (p : Nat) : Nat := wordOf (readBytes memory p 4)

def exceedsMax (d : Decl) : String := s!"Sequence in buffer exceeds max length ({d.sequenceLength})"

/-- A count with the gap behind it, and then the elements. -/
def countedPieces (d : Decl) (elements : Nat → Pieces) : Pieces :=
  (gapTo d.align).andThen fun p =>
    if d.sequenceLength ≠ 0 ∧ d.sequenceLength < countAt memory p then [.count, .refused (exceedsMax d)]
    else Pieces.andThen (fun _ => [.count, .gap (d.align - 4)]) (elements (countAt memory p)) p

def elementPieces (d : Decl) (body : Nat → Pieces) : Pieces :=
  if d.isSequence then
    countedPieces memory d fun nElements =>
      if nElements = 0 then fun _ => [] else (gapTo d.dataAlign).andThen (body nElements)
  else (gapTo d.dataAlign).andThen (body 1)

def scalarPieces (d : Decl) (nElements : Nat) : Pieces :=
  (gapTo d.align).andThen fun _ =>
    if 2 ^ 64 ≤ nElements * d.nItems * (d.nBits / 8) then [.wraps]
    else [.block (nElements * d.nItems * (d.nBits / 8))]

/-- A string with its NUL. Without one in a buffer of this length, it is longer than that. -/
def stringPieces : Pieces := (gapTo 4).andThen fun p => [.text (strlen memory p length + 1)]

mutual

/-- The pieces of a member. -/
def Member.pieces : Member → Pieces
  | .scalar d _ | .enum d _ => elementPieces memory d (scalarPieces d)
  | .string d _ => elementPieces memory d fun nElements =>
    (stringPieces memory length).loop length (nElements * d.nItems % 2 ^ 64)
  | .struct d members => elementPieces memory d fun nElements =>
    Pieces.loop length (membersPieces members) (nElements * d.nItems % 2 ^ 64)
  | .type d t => elementPieces memory d fun nElements =>
    t.pieces.loop length (nElements * d.nItems % 2 ^ 64)

def membersPieces : List Member → Pieces
  | [] => fun _ => []
  | m :: ms => m.pieces.andThen (membersPieces ms)

end

/-- A count and a string have to lie in what is left; nothing wraps around or goes on forever. -/
def Piece.Good (rest : Nat) : Piece → Prop
  | .count => 4 ≤ rest
  | .text n => n ≤ rest
  | .wraps | .forever => False
  | .gap _ | .block _ | .refused _ => True

/-- The walk gets behind some pieces: they fit, and none is refused. -/
def Passed (length : Nat) (before : List Piece) : Prop :=
  total before ≤ length ∧ ∀ message, .refused message ∉ before

/-- **The condition**: every piece that the walk comes to is good. -/
def Proper (length : Nat) (pieces : List Piece) : Prop :=
  ∀ before f after, pieces = before ++ f :: after → Passed length before → f.Good (length - total before)

/-! ## Taking pieces from the front -/

variable {memory : Memory} {length rest : Nat} {a b : Pieces} {w v : Walk} {d : Decl} {fs gs : List Piece}

@[simp] theorem total_nil : total [] = 0 := rfl

@[simp] theorem total_cons (f : Piece) (fs : List Piece) : total (f :: fs) = f.size + total fs := rfl

theorem total_append (gs : List Piece) : ∀ fs : List Piece, total (fs ++ gs) = total fs + total gs
  | [] => (Nat.zero_add _).symm
  | f :: fs => by rw [List.cons_append, total_cons, total_cons, total_append gs fs, Nat.add_assoc]

/-- What is left behind some pieces, or how it ends at one of them. -/
def taken : List Piece → Nat → Except Stop Nat
  | [], rest => .ok rest
  | .gap n :: fs, rest => if rest < n then .error (.thrown exceedsBuffer) else taken fs (rest - n)
  | .block n :: fs, rest => if rest < n then .error (.thrown exceedsBuffer) else taken fs (rest - n)
  | .count :: fs, rest => if rest < 4 then .error .outOfBounds else taken fs (rest - 4)
  | .text n :: fs, rest => if rest < n then .error .outOfBounds else taken fs (rest - n)
  | .refused message :: _, _ => .error (.thrown message)
  | .wraps :: _, _ => .error .wraps
  | .forever :: _, _ => .error .endless

theorem taken_append : ∀ (fs gs : List Piece) (rest : Nat),
    taken (fs ++ gs) rest = taken fs rest >>= fun rest => taken gs rest
  | [], gs, rest => rfl
  | f :: fs, gs, rest => by
    rw [List.cons_append]
    cases f with
    | gap n | block n | text n =>
      rw [taken, taken]
      split
      · rfl
      · exact taken_append fs gs _
    | count =>
      rw [taken, taken]
      split
      · rfl
      · exact taken_append fs gs _
    | refused message => rfl
    | wraps => rfl
    | forever => rfl

theorem taken_ok : ∀ {fs : List Piece} {rest rest' : Nat}, taken fs rest = .ok rest' →
    rest' + total fs = rest
  | [], rest, rest', h => by
    cases h
    rfl
  | f :: fs, rest, rest', h => by
    rw [total_cons]
    cases f with
    | gap n | block n | text n =>
      rw [taken] at h
      split at h
      · cases h
      · have := taken_ok h
        show rest' + (n + total fs) = rest
        omega
    | count =>
      rw [taken] at h
      split at h
      · cases h
      · have := taken_ok h
        show rest' + (4 + total fs) = rest
        omega
    | refused message | wraps | forever => cases h

theorem passed_cons {f : Piece} : Passed length (f :: fs) ↔
    (f.size ≤ length ∧ ∀ message, f ≠ .refused message) ∧ Passed (length - f.size) fs := by
  unfold Passed
  rw [total_cons]
  constructor
  · rintro ⟨hsize, hnone⟩
    exact ⟨⟨by omega, fun message heq => hnone message (heq ▸ List.mem_cons_self)⟩, by omega,
      fun message hmem => hnone message (List.mem_cons_of_mem _ hmem)⟩
  · rintro ⟨⟨hfits, hne⟩, hsize, hnone⟩
    refine ⟨by omega, fun message hmem => ?_⟩
    rcases List.mem_cons.mp hmem with heq | hmem
    · exact hne message heq.symm
    · exact hnone message hmem

/-- The first piece is good, and behind it the others are. -/
theorem proper_cons {f : Piece} : Proper length (f :: fs) ↔
    f.Good length ∧ (f.size ≤ length → (∀ message, f ≠ .refused message) → Proper (length - f.size) fs) := by
  constructor
  · intro h
    refine ⟨h [] f fs rfl ⟨Nat.zero_le _, fun _ => List.not_mem_nil⟩, ?_⟩
    rintro hfits hne before g after rfl hpassed
    have hgood := h (f :: before) g after rfl (passed_cons.mpr ⟨⟨hfits, hne⟩, hpassed⟩)
    rwa [total_cons, ← Nat.sub_sub] at hgood
  · rintro ⟨hgood, hrest⟩ before g after heq hpassed
    cases before with
    | nil =>
      obtain ⟨rfl, -⟩ := List.cons.inj heq
      exact hgood
    | cons f' before =>
      obtain ⟨rfl, rfl⟩ := List.cons.inj heq
      obtain ⟨⟨hfits, hne⟩, hpassed⟩ := passed_cons.mp hpassed
      rw [total_cons, ← Nat.sub_sub]
      exact hrest hfits hne before g after rfl hpassed

/-- How it ends is an exception, as far as it ends. -/
def Thrown {α : Type} (r : Except Stop α) : Prop := ∀ stop, r = .error stop → ∃ text, stop = .thrown text

instance {α : Type} : (r : Except Stop α) → Decidable (Thrown r)
  | .ok _ => .isTrue nofun
  | .error (.thrown text) => .isTrue fun _ heq => ⟨text, (Except.error.inj heq).symm⟩
  | .error .outOfBounds | .error .wraps | .error .endless =>
    .isFalse fun h => by
      obtain ⟨_, heq⟩ := h _ rfl
      cases heq

/-- **Pieces are proper** if and only if they are taken up to the end or an exception. -/
theorem taken_iff_proper : ∀ (fs : List Piece) (rest : Nat), Thrown (taken fs rest) ↔ Proper rest fs
  | [], rest => by
    refine iff_of_true (fun _ => nofun) fun before f after heq => ?_
    exact absurd heq.symm (List.append_ne_nil_of_right_ne_nil _ (List.cons_ne_nil _ _))
  | f :: fs, rest => by
    have hthrown {text : String} : Thrown (.error (.thrown text) : Except Stop Nat) := by
      rintro stop ⟨⟩
      exact ⟨text, rfl⟩
    have hstop {stop : Stop} (hne : ∀ text, stop ≠ .thrown text) :
        ¬Thrown (.error stop : Except Stop Nat) := fun h => by
      obtain ⟨text, heq⟩ := h stop rfl
      exact hne text heq
    rw [proper_cons]
    cases f with
    | gap n | block n =>
      rw [taken]
      by_cases hn : rest < n
      · rw [if_pos hn]
        exact iff_of_true hthrown ⟨trivial, fun hle => absurd hle (Nat.not_le.mpr hn)⟩
      · rw [if_neg hn, taken_iff_proper fs]
        exact ⟨fun h => ⟨trivial, fun _ _ => h⟩, fun h => h.2 (Nat.not_lt.mp hn) (fun _ => nofun)⟩
    | text n =>
      rw [taken]
      by_cases hn : rest < n
      · rw [if_pos hn]
        exact iff_of_false (hstop (fun _ => nofun)) fun h => absurd h.1 (Nat.not_le.mpr hn)
      · rw [if_neg hn, taken_iff_proper fs]
        exact ⟨fun h => ⟨Nat.not_lt.mp hn, fun _ _ => h⟩, fun h => h.2 (Nat.not_lt.mp hn) (fun _ => nofun)⟩
    | count =>
      rw [taken]
      by_cases hn : rest < 4
      · rw [if_pos hn]
        exact iff_of_false (hstop (fun _ => nofun)) fun h => absurd h.1 (Nat.not_le.mpr hn)
      · rw [if_neg hn, taken_iff_proper fs]
        exact ⟨fun h => ⟨Nat.not_lt.mp hn, fun _ _ => h⟩, fun h => h.2 (Nat.not_lt.mp hn) (fun _ => nofun)⟩
    | refused message => exact iff_of_true hthrown ⟨trivial, fun _ h => absurd rfl (h message)⟩
    | wraps | forever => exact iff_of_false (hstop (fun _ => nofun)) fun h => h.1

instance (rest : Nat) (fs : List Piece) : Decidable (Proper rest fs) :=
  decidable_of_iff _ (taken_iff_proper fs rest)

/-! ## Walks over pieces -/

/-- The walk takes these pieces, in a buffer of at most this length. -/
def Walk.Reads (w : Walk) (length : Nat) (a : Pieces) : Prop :=
  ∀ p rest, rest ≤ length →
    w ⟨p, rest⟩ = (taken (a p) rest).map fun rest => ⟨p + total (a p), rest⟩

theorem Walk.Reads.andThen (ha : w.Reads length a) (hb : v.Reads length b) :
    (w.andThen v).Reads length (a.andThen b) := by
  intro p rest hle
  unfold Pieces.andThen
  rw [andThen_run, ha p rest hle, taken_append, total_append, ← Nat.add_assoc]
  cases ht : taken (a p) rest with
  | error stop => rfl
  | ok rest' =>
    have hrest := taken_ok ht
    exact hb (p + total (a p)) rest' (by omega)

theorem reads_pure : Walk.Reads pure length fun _ => [] := fun _ _ _ => rfl

theorem reads_advance (n : Nat) : (Cursor.advance n : Walk).Reads length fun _ => [.gap n] := by
  intro p rest _
  unfold Cursor.advance
  rw [taken, total_cons]
  by_cases hn : rest < n
  · rw [if_pos hn, if_pos hn]
    rfl
  · rw [if_neg hn, if_neg hn]
    rfl

theorem reads_block (n : Nat) : (Cursor.advance n : Walk).Reads length fun _ => [.block n] :=
  reads_advance n

theorem reads_align (n : Nat) : (Cursor.align n : Walk).Reads length (gapTo n) :=
  fun p rest hle => reads_advance (alignSkip p n) p rest hle

theorem Walk.Reads.repeated (h : w.Reads length a) : ∀ n, (w.repeated n).Reads length (a.repeated n)
  | 0 => reads_pure
  | n + 1 => h.andThen (h.repeated n)

theorem repeated_add (w : Walk) (k : Nat) : ∀ (n : Nat) (s : Cursor),
    w.repeated (n + k) s = w.repeated n s >>= w.repeated k
  | 0, s => by
    rw [Nat.zero_add]
    rfl
  | n + 1, s => by
    rw [Nat.succ_add]
    show w s >>= w.repeated (n + k) = (w s >>= w.repeated n) >>= w.repeated k
    cases w s with
    | error stop => rfl
    | ok s' => exact repeated_add w k n s'

/-- A walk that stays where it is does so every time. -/
theorem repeated_of_stays {s : Cursor} (h : w s = .ok s) : ∀ n, w.repeated n s = .ok s
  | 0 => rfl
  | n + 1 => by
    show w s >>= w.repeated n = _
    rw [h]
    exact repeated_of_stays h n

/-- More elements than there are bytes take no bytes in the end, so that there may be any number of them. -/
theorem Walk.Reads.repeated_more (h : w.Reads length a) : ∀ (n : Nat) {s s' : Cursor},
    s.length ≤ length → s.length < n → w.repeated n s = .ok s' →
      ∀ k, ∃ s'', w.repeated (n + k) s = .ok s''
  | 0, s, s', _, hn, _ => absurd hn (Nat.not_lt_zero _)
  | n + 1, ⟨p, rest⟩, s', hle, hn, hrun => by
    intro k
    have hle : rest ≤ length := hle
    have hn : rest < n + 1 := hn
    have hfirst := h p rest hle
    change w ⟨p, rest⟩ >>= w.repeated n = _ at hrun
    rw [Nat.succ_add]
    show ∃ s'', w ⟨p, rest⟩ >>= w.repeated (n + k) = .ok s''
    cases ht : taken (a p) rest with
    | error stop =>
      rw [hfirst, ht] at hrun
      cases hrun
    | ok rest' =>
      rw [ht] at hfirst
      have hrest := taken_ok ht
      by_cases hzero : total (a p) = 0
      · -- nothing was taken: every further element is like this one
        have hstays : w ⟨p, rest⟩ = .ok ⟨p, rest⟩ := by
          rw [hfirst, hzero]
          obtain rfl : rest' = rest := by omega
          rfl
        rw [hstays]
        exact ⟨_, repeated_of_stays hstays (n + k)⟩
      · rw [hfirst] at hrun ⊢
        exact h.repeated_more n (show rest' ≤ length by omega) (show rest' < n by omega) hrun k

/-- **A loop.** -/
theorem Walk.Reads.loop (h : w.Reads length a) (n : Nat) : (w.loop n).Reads length (a.loop length n) := by
  unfold Walk.loop Pieces.loop
  by_cases hn : n < 2 ^ 32
  · rw [if_pos hn, if_pos hn]
    exact h.repeated n
  · rw [if_neg hn, if_neg hn]
    intro p rest hle
    have hforever : Walk.Reads (fun _ => throw .endless) length fun _ => [.forever] := fun _ _ _ => rfl
    rw [← ((h.repeated (length + 1)).andThen hforever) p rest hle]
    show w.repeated (rest + 1) ⟨p, rest⟩ >>= _ = w.repeated (length + 1) ⟨p, rest⟩ >>= _
    -- after one element more than there are bytes it goes on as it did
    obtain ⟨k, hk⟩ : ∃ k, length + 1 = rest + 1 + k := ⟨length - rest, by omega⟩
    cases hrun : w.repeated (rest + 1) ⟨p, rest⟩ with
    | error stop =>
      rw [hk, repeated_add, hrun]
      rfl
    | ok s' =>
      obtain ⟨s'', hmore⟩ := h.repeated_more (rest + 1) hle (Nat.lt_succ_self rest) hrun k
      rw [hk, hmore]
      rfl

/-! ## Members -/

theorem reads_scalars (n : Nat) : (walkScalars d n).Reads length (scalarPieces d n) := by
  refine (reads_align d.align).andThen fun p rest hle => ?_
  split
  · rfl
  · exact reads_block _ p rest hle

/-- The end of a string is found in the rest, or there is none in it. -/
theorem strlen_limit : ∀ (rest length p : Nat), rest ≤ length →
    (strlen memory p length < rest → strlen memory p rest = strlen memory p length) ∧
    (rest ≤ strlen memory p length → strlen memory p rest = rest)
  | 0, length, p, _ => ⟨fun h => absurd h (Nat.not_lt_zero _), fun _ => rfl⟩
  | rest + 1, 0, p, h => absurd h (Nat.not_succ_le_zero _)
  | rest + 1, length + 1, p, h => by
    obtain ⟨hlt, hge⟩ := strlen_limit rest length (p + 1) (Nat.le_of_succ_le_succ h)
    rw [strlen, strlen]
    by_cases hzero : memory p = 0
    · rw [if_pos hzero, if_pos hzero]
      exact ⟨fun _ => rfl, fun h => absurd h (by omega)⟩
    · rw [if_neg hzero, if_neg hzero]
      refine ⟨fun h => ?_, fun h => ?_⟩
      · rw [hlt (by omega)]
      · rw [hge (by omega)]
        omega

theorem reads_string : (walkString memory).Reads length (stringPieces memory length) := by
  refine (reads_align 4).andThen fun p rest hle => ?_
  obtain ⟨hlt, hge⟩ := @strlen_limit memory rest length p hle
  dsimp only
  rw [taken, total_cons]
  by_cases hfits : rest < strlen memory p length + 1
  · rw [if_pos hfits, hge (by omega)]
    unfold Cursor.fetch
    rw [if_pos (Nat.lt_succ_self rest)]
    rfl
  · rw [if_neg hfits, hlt (by omega)]
    have hfetch : (⟨p, rest⟩ : Cursor).fetch (strlen memory p length + 1) = .ok ⟨p, rest⟩ := by
      unfold Cursor.fetch
      rw [if_neg hfits]
      rfl
    rw [hfetch, ok_bind]
    unfold Cursor.advance
    rw [if_neg hfits]
    rfl

theorem walkCount_run (memory : Memory) (d : Decl) (p rest : Nat) :
    walkCount memory d ⟨p, rest⟩ =
      if rest < alignSkip p d.align then .error (.thrown exceedsBuffer)
      else if rest - alignSkip p d.align < 4 then .error .outOfBounds
      else if d.sequenceLength ≠ 0 ∧ d.sequenceLength < countAt memory (p + alignSkip p d.align) then
        .error (.thrown (exceedsMax d))
      else if rest - alignSkip p d.align < d.align then .error (.thrown exceedsBuffer)
      else .ok (countAt memory (p + alignSkip p d.align),
        ⟨p + alignSkip p d.align + d.align, rest - alignSkip p d.align - d.align⟩) := by
  unfold walkCount Cursor.align Cursor.advance Cursor.fetch
  dsimp only
  by_cases hgap : rest < alignSkip p d.align
  · rw [if_pos hgap, if_pos hgap]
    rfl
  rw [if_neg hgap, if_neg hgap]
  by_cases hcount : rest - alignSkip p d.align < 4
  · rw [if_pos hcount]
    simp only [pure_bind, hcount, if_true]
    rfl
  rw [if_neg hcount]
  simp only [pure_bind, hcount, if_false]
  by_cases hmax : d.sequenceLength ≠ 0 ∧ d.sequenceLength < countAt memory (p + alignSkip p d.align)
  · rw [if_pos hmax]
    exact if_pos hmax
  rw [if_neg hmax]
  refine (if_neg hmax).trans ?_
  by_cases hdata : rest - alignSkip p d.align < d.align
  · rw [if_pos hdata, if_pos hdata]
    rfl
  · rw [if_neg hdata, if_neg hdata]
    rfl

/-- **A count** and what stands behind it. -/
theorem reads_counted {walk : Nat → Walk} {elements : Nat → Pieces} (hd : 4 ≤ d.align)
    (h : ∀ n, (walk n).Reads length (elements n)) :
    Walk.Reads (fun s => walkCount memory d s >>= fun counted => walk counted.1 counted.2) length
      (countedPieces memory d elements) := by
  intro p rest hle
  show walkCount memory d ⟨p, rest⟩ >>= _ = _
  have hpieces : countedPieces memory d elements p =
      .gap (alignSkip p d.align) :: (if d.sequenceLength ≠ 0 ∧
          d.sequenceLength < countAt memory (p + alignSkip p d.align) then [.count, .refused (exceedsMax d)]
        else .count :: .gap (d.align - 4) :: elements (countAt memory (p + alignSkip p d.align))
          (p + alignSkip p d.align + d.align)) := by
    have hbehind : total [.count, .gap (d.align - 4)] = d.align := by
      rw [total_cons, total_cons, Piece.size_count, Piece.size_gap, total_nil]
      omega
    have hgap : total [.gap (alignSkip p d.align)] = alignSkip p d.align := by
      rw [total_cons, Piece.size_gap, total_nil, Nat.add_zero]
    unfold countedPieces Pieces.andThen gapTo
    dsimp only
    rw [hbehind, hgap]
    split
    · rfl
    · rfl
  rw [walkCount_run, hpieces, total_cons, Piece.size_gap]
  generalize alignSkip p d.align = skip
  generalize d.align = unit at hd ⊢
  rw [taken]
  by_cases hgap : rest < skip
  · rw [if_pos hgap, if_pos hgap]
    rfl
  rw [if_neg hgap, if_neg hgap]
  by_cases hcount : rest - skip < 4
  · rw [if_pos hcount, apply_ite (taken · (rest - skip)), taken, taken, if_pos hcount, if_pos hcount, ite_self]
    rfl
  rw [if_neg hcount]
  by_cases hmax : d.sequenceLength ≠ 0 ∧ d.sequenceLength < countAt memory (p + skip)
  · rw [if_pos hmax, if_pos hmax, taken, if_neg hcount, taken]
    rfl
  rw [if_neg hmax, if_neg hmax, taken, if_neg hcount, taken]
  have hleft : rest - skip - 4 - (unit - 4) = rest - skip - unit := by omega
  by_cases hdata : rest - skip < unit
  · have hdata' : rest - skip - 4 < unit - 4 := by omega
    rw [if_pos hdata, if_pos hdata']
    rfl
  have hdata' : ¬rest - skip - 4 < unit - 4 := by omega
  rw [if_neg hdata, if_neg hdata', ok_bind, hleft, total_cons, total_cons]
  have hplace (n : Nat) : p + (skip + (4 + (unit - 4 + n))) = p + skip + unit + n := by omega
  rw [Piece.size_count, Piece.size_gap, hplace]
  exact h _ _ _ (by omega)

theorem reads_elements {walk : Nat → Walk} {body : Nat → Pieces} (hd : d.isSequence → 4 ≤ d.align)
    (h : ∀ n, (walk n).Reads length (body n)) :
    (walkElements memory d walk).Reads length (elementPieces memory d body) := by
  unfold walkElements elementPieces
  by_cases hseq : d.isSequence = true
  · rw [if_pos hseq, if_pos hseq]
    have hcounted := @reads_counted memory length d
      (fun n => if n = 0 then pure else (Cursor.align d.dataAlign).andThen (walk n))
      (fun n => if n = 0 then fun _ => [] else (gapTo d.dataAlign).andThen (body n)) (hd hseq) (by
        intro n
        split
        · exact reads_pure
        · exact (reads_align d.dataAlign).andThen (h n))
    intro p rest hle
    rw [← hcounted p rest hle]
    dsimp only
    congr 1
    funext ⟨n, s⟩
    by_cases hn : n = 0
    · rw [if_pos hn]
      dsimp only
      rw [if_pos hn]
    · rw [if_neg hn]
      dsimp only
      rw [if_neg hn]
  · rw [if_neg hseq, if_neg hseq]
    exact (reads_align d.dataAlign).andThen (h 1)

mutual

/-- **The walk takes the pieces** of the member. -/
theorem walk_reads (memory : Memory) (length : Nat) :
    ∀ m : Member, m.aligned → (m.walk memory).Reads length (m.pieces memory length)
  | .scalar _ _, h | .enum _ _, h => reads_elements h reads_scalars
  | .string _ _, h => reads_elements h fun _ => reads_string.loop _
  | .struct _ members, h => reads_elements h.1 fun _ => (walkMembers_reads memory length members h.2).loop _
  | .type _ t, h => reads_elements h.1 fun _ => (walk_reads memory length t h.2).loop _

theorem walkMembers_reads (memory : Memory) (length : Nat) : ∀ ms : List Member, membersAligned ms →
    (walkMembers memory ms).Reads length (membersPieces memory length ms)
  | [], _ => reads_pure
  | m :: ms, h => (walk_reads memory length m h.1).andThen (walkMembers_reads memory length ms h.2)

end

theorem aligned_of_mem {m : Member} : ∀ {ms : List Member}, membersAligned ms → m ∈ ms → m.aligned
  | _ :: _, h, .head _ => h.1
  | _ :: _, h, .tail _ hm => aligned_of_mem h.2 hm

theorem safe_iff_of_aligned {m : Member} (h : m.aligned) (memory : Memory) (p length : Nat) :
    (m.walk memory).Safe ⟨p, length⟩ ↔ Proper length (m.pieces memory length p) := by
  rw [← taken_iff_proper]
  unfold Walk.Safe Thrown
  rw [walk_reads memory length m h p length (Nat.le_refl _)]
  cases taken (m.pieces memory length p) length with
  | error stop =>
    constructor
    · intro h stop' heq
      exact h stop' (by rw [Except.error.inj heq]; rfl)
    · intro h stop' heq
      exact h stop' (by rw [← Except.error.inj heq])
  | ok rest => exact iff_of_true (fun _ => nofun) fun _ => nofun

/-- The pieces are proper in buffers of every length exactly if the type's verdict is another than bad. -/
theorem proper_iff_verdict (ms ms' : List Member) (isTop : Bool) (l l' : Layout) (hu : membersUnplaced ms)
    (h : alignMembers isTop l ms = .ok (ms', l')) (m : Member) (hm : m ∈ ms') (memory : Memory) (p : Nat) :
    (∀ length, Proper length (m.pieces memory length p)) ↔ m.verdict ≠ .bad := by
  have haligned := aligned_of_mem (alignMembers_aligned ms h) hm
  rw [← safe_iff ms ms' isTop l l' hu h m hm memory p]
  exact forall_congr' fun length => (safe_iff_of_aligned haligned memory p length).symm

/-- **When a buffer is read safely**: the first piece that does not fit is no count and no string, and no
byte count that wraps around and no endless loop is come to. -/
theorem safe_iff_proper (ms ms' : List Member) (isTop : Bool) (l l' : Layout)
    (h : alignMembers isTop l ms = .ok (ms', l')) (m : Member) (hm : m ∈ ms') (memory : Memory)
    (p length : Nat) : (m.walk memory).Safe ⟨p, length⟩ ↔ Proper length (m.pieces memory length p) :=
  safe_iff_of_aligned (aligned_of_mem (alignMembers_aligned ms h) hm) memory p length

/-- A number, a sequence of numbers and a string. -/
def report : Member :=
  .struct (plain 114 false)
    [.scalar (plain 110 false) .double, .scalar (plain 115 true) .ulong, .string (plain 116 false) 10]

/-- The report as `alignMembers` lays it out. -/
def reportLaidOut : Member :=
  .struct ⟨[114], [], false, 0, 8, 8, 224, 28, 0⟩
    [.scalar ⟨[110], [], false, 0, 8, 8, 64, 8, 0⟩ .double, .scalar ⟨[115], [], true, 0, 4, 4, 32, 8, 8⟩ .ulong,
      .string ⟨[116], [], false, 0, 4, 4, 32, 12, 16⟩ 10]

theorem alignMembers_report : alignMembers false noLayout [report] =
    .ok ([reportLaidOut], ⟨8, 28, 8, true, false, true⟩) := rfl

/-- Two numbers in the sequence, and a string of three characters. -/
def reportMemory : Memory := fun p => if p = 8 then 2 else if p < 12 ∨ p = 23 then 0 else 65

/-- In 24 bytes the report is read to its end. In four bytes the number does not fit, in 18 the second
number of the sequence. In ten bytes the count is cut, and in 22 the string. -/
theorem safe_report :
    reportLaidOut.pieces reportMemory 24 0 = [.gap 0, .gap 0, .gap 0, .block 8, .gap 0, .count, .gap 0, .gap 0,
      .gap 0, .block 8, .gap 0, .gap 0, .text 4] ∧
    (∀ length ∈ [4, 18, 24], (reportLaidOut.walk reportMemory).Safe ⟨0, length⟩) ∧
    ∀ length ∈ [10, 22], ¬(reportLaidOut.walk reportMemory).Safe ⟨0, length⟩ := by
  have hsafe (length : Nat) := safe_iff_proper [report] _ false noLayout _ alignMembers_report reportLaidOut
    (List.mem_singleton.mpr rfl) reportMemory 0 length
  simp only [hsafe]
  decide

end OpenCpi.Value
