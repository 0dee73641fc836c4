import Mathlib.Data.List.Range
import OpenCpi.Wsi.Adapters

/-!
# What the width adapters keep

What an adapter gives only depends on what it takes, not on when its ports are ready. From 32 to 16 bits the messages
stay as they are. From 16 to 32 bits two beats are joined in any case: behind the other adapter every word comes back
exactly when none of them was sent as one half.
-/

namespace OpenCpi.Wsi

open Infra

variable {σ : Type} {m n : Nat} {W : Worker σ m n}

/-! ## Workers as elastic components -/

/-- A port that is ready. -/
def InPort.here (b : Beat m) : InPort m := { reset := false, ready := true, beat := b }

def OutPort.room : OutPort := { reset := false, ready := true }

/-- What a worker does when both ports are ready. -/
def Worker.elastic (W : Worker σ m n) : Elastic σ (Beat m) (Beat n) where
  take s b := W.take s (.here b) .room
  give s b := if W.give s (.here b) .room then some (W.out s (.here b)) else none
  next s b := W.next s (.here b) .room

/-- A worker does nothing when a port is not ready. -/
structure Worker.Waits (W : Worker σ m n) : Prop where
  take {s i o} : (i.ready && o.ready) = false → W.take s i o = false
  give {s i o} : (i.ready && o.ready) = false → W.give s i o = false
  next {s i o} : (i.ready && o.ready) = false → i.reset = false → o.reset = false → W.next s i o = s

theorem waits_wsi32To16 : wsi32To16.Waits where
  take h := by simp [wsi32To16, h]
  give h := h
  next {s i o} h hi ho := by
    show (if i.reset || o.reset then false else if i.ready && o.ready then _ else s) = s
    rw [hi, ho, h]
    rfl

theorem waits_wsi16To32 : wsi16To32.Waits where
  take h := h
  give h := by simp [wsi16To32, h]
  next {s i o} h hi ho := by
    show (if i.reset || o.reset then s else if i.ready && o.ready then _ else s) = s
    rw [hi, ho, h]
    rfl

/-- A port with nothing in front of it is not ready. -/
theorem of_nil (shown : Bool) (idle : Beat m) : (InPort.of shown idle []).ready = false := Bool.and_false _

theorem of_cons {shown room : Bool} (h : (shown && room) = true) (idle b : Beat m) (bs : List (Beat m)) :
    InPort.of shown idle (b :: bs) = .here b ∧ room = true := by
  obtain ⟨rfl, rfl⟩ := Bool.and_eq_true_iff.mp h
  exact ⟨rfl, rfl⟩

theorem of_not {shown room : Bool} (h : ¬(shown && room) = true) (idle : Beat m) (bs : List (Beat m)) :
    ((InPort.of shown idle bs).ready && room) = false := by
  cases shown <;> cases room <;> simp_all [InPort.of]

section

variable (s : σ) (shown room : Bool) (idle : Beat m) (bs : List (Beat m))

theorem Worker.Waits.left_eq (h : W.Waits) : W.left s (.of shown idle bs) { reset := false, ready := room } bs =
    if shown && room then W.elastic.left s bs else bs := by
  unfold Worker.left
  by_cases hworks : (shown && room) = true
  · rw [if_pos hworks]
    cases bs with
    | nil => exact ite_self []
    | cons b bs =>
      obtain ⟨hport, rfl⟩ := of_cons hworks idle b bs
      rw [hport]
      rfl
  · rw [if_neg hworks, h.take (of_not hworks idle bs), if_neg Bool.false_ne_true]

theorem Worker.Waits.given_eq (h : W.Waits) : W.given s (.of shown idle bs) { reset := false, ready := room } =
    if shown && room then W.elastic.out s bs else [] := by
  unfold Worker.given
  by_cases hworks : (shown && room) = true
  · rw [if_pos hworks]
    cases bs with
    | nil =>
      rw [h.give (by simp [of_nil])]
      rfl
    | cons b bs =>
      obtain ⟨hport, rfl⟩ := of_cons hworks idle b bs
      rw [hport]
      show (if W.give s (.here b) .room then [W.out s (.here b)] else []) =
        (if W.give s (.here b) .room then some (W.out s (.here b)) else none).toList
      split_ifs <;> rfl
  · rw [if_neg hworks, h.give (of_not hworks idle bs), if_neg Bool.false_ne_true]

theorem Worker.Waits.next_eq (h : W.Waits) : W.next s (.of shown idle bs) { reset := false, ready := room } =
    if shown && room then W.elastic.after s bs else s := by
  by_cases hworks : (shown && room) = true
  · rw [if_pos hworks]
    cases bs with
    | nil => exact h.next (by simp [of_nil]) rfl rfl
    | cons b bs =>
      obtain ⟨hport, rfl⟩ := of_cons hworks idle b bs
      rw [hport]
      rfl
  · rw [if_neg hworks, h.next (of_not hworks idle bs) rfl rfl]

end

def Line.place (l : Line σ m n) : Elastic.Place σ (Beat m) (Beat n) := ⟨l.state, l.pending, l.given⟩

theorem Line.clock_place (h : W.Waits) (l : Line σ m n) (o : Offered m) :
    (l.clock W o).place = l.place.clock W.elastic (o.shown && o.room) := by
  unfold Line.clock Line.place Elastic.Place.clock
  dsimp only
  rw [h.left_eq, h.given_eq, h.next_eq]
  split_ifs
  · rfl
  · rw [List.append_nil]

/-- A cycle in which both ports of a worker may be ready. -/
def Offered.works (o : Offered m) : Bool := o.shown && o.room

theorem Line.run_place (h : W.Waits) (cycles : List (Offered m)) (l : Line σ m n) :
    (cycles.foldl (Line.clock W) l).place = (cycles.map Offered.works).foldl (Elastic.Place.clock W.elastic) l.place := by
  induction cycles generalizing l with
  | nil => rfl
  | cons o cycles ih =>
    rw [List.foldl_cons, ih, Line.clock_place h]
    rfl

/-- What a worker gives only depends on what it takes. -/
theorem Line.run (h : W.Waits) {f : σ → List (Beat m) → List (Beat n)} (hf : W.elastic.Yields f)
    (cycles : List (Offered m)) (l : Line σ m n) : (cycles.foldl (Line.clock W) l).given ++
      f (cycles.foldl (Line.clock W) l).state (cycles.foldl (Line.clock W) l).pending = l.given ++ f l.state l.pending := by
  have hrun := hf.run (cycles.map Offered.works) l.place
  rw [← Line.run_place h] at hrun
  exact hrun

theorem Line.length_run (h : W.Waits) {f : σ → List (Beat m) → List (Beat n)} (hf : W.elastic.Yields f)
    (hgive : ∀ s b, (W.elastic.give s b).isSome) (cycles : List (Offered m)) (l : Line σ m n) :
    (f (cycles.foldl (Line.clock W) l).state (cycles.foldl (Line.clock W) l).pending).length =
      (f l.state l.pending).length - cycles.countP Offered.works := by
  have hlength := hf.length_run hgive (cycles.map Offered.works) l.place
  rw [← Line.run_place h] at hlength
  have hcount : (cycles.map Offered.works).count true = cycles.countP Offered.works := by
    rw [List.count_eq_countP, List.countP_map]
    simp [Function.comp_def]
  rwa [hcount] at hlength

/-! ## From 32 to 16 bits -/

/-- A word with both halves. -/
def Full (w : Beat 4) : Prop := w.valid = true ∧ hiAbsent w = false

instance (w : Beat 4) : Decidable (Full w) := inferInstanceAs (Decidable (_ ∧ _))

def lower (w : Beat 4) : Beat 2 := wsi32To16.out false (.here w)

def upper (w : Beat 4) : Beat 2 := wsi32To16.out true (.here w)

def split (w : Beat 4) : List (Beat 2) := if Full w then [lower w, upper w] else [lower w]

/-- What comes out. -/
def narrow (hi16 : Bool) (ws : List (Beat 4)) : List (Beat 2) :=
  match hi16, ws with
  | true, w :: ws => upper w :: ws.flatMap split
  | _, ws => ws.flatMap split

theorem yields_narrow : wsi32To16.elastic.Yields narrow where
  nil hi16 := by cases hi16 <;> rfl
  cons hi16 w ws := by
    cases hi16 with
    | true => rfl
    | false =>
      show split w ++ ws.flatMap split = _
      by_cases h : Full w
      · have hsplit : split w = [lower w, upper w] := if_pos h
        obtain ⟨hvalid, habsent⟩ := h
        rw [hsplit]
        simp [Worker.elastic, wsi32To16, InPort.here, OutPort.room, Elastic.left, hvalid, habsent, narrow, lower, upper]
      · have hsplit : split w = [lower w] := if_neg h
        have htake : (!w.valid || hiAbsent w) = true := by
          cases hvalid : w.valid <;> cases habsent : hiAbsent w <;> simp_all [Full]
        have hnext : (w.valid && !hiAbsent w) = false := by
          cases hvalid : w.valid <;> cases habsent : hiAbsent w <;> simp_all [Full]
        rw [hsplit]
        simp [Worker.elastic, wsi32To16, InPort.here, OutPort.room, Elastic.left, htake, hnext, narrow, lower]

/-! ## From 16 to 32 bits -/

/-- What comes out: the beats in pairs. -/
def widen : Half → List (Beat 2) → List (Beat 4)
  | _, [] => []
  | h, b :: bs =>
    if h.wordReady then join h.beat b :: widen { beat := b, wordReady := false } bs
    else widen { beat := b, wordReady := true } bs

theorem yields_widen : wsi16To32.elastic.Yields widen where
  nil h := by rw [widen]
  cons h b bs := by
    rw [widen]
    cases hready : h.wordReady <;>
      simp [Worker.elastic, wsi16To32, InPort.here, OutPort.room, Elastic.left, hready]

theorem length_widen (bs : List (Beat 2)) (h : Half) :
    (widen h bs).length = (bs.length + h.wordReady.toNat) / 2 := by
  induction bs generalizing h with
  | nil =>
    rw [widen]
    cases h.wordReady <;> rfl
  | cons b bs ih =>
    rw [widen]
    cases hready : h.wordReady with
    | true =>
      rw [if_pos rfl, List.length_cons, ih]
      simp
      omega
    | false =>
      rw [if_neg Bool.false_ne_true, ih]
      simp

theorem length_split (w : Beat 4) : (split w).length = 1 + (decide (Full w)).toNat := by
  unfold split
  by_cases h : Full w <;> simp [h]

/-- The two halves of a word. -/
theorem join_halves {w : Beat 4} (h : Full w) : join (lower w) (upper w) = w := by
  obtain ⟨hvalid, habsent⟩ := h
  have hdata : (show BitVec (16 + 16) from w.data).extractLsb' 16 16 ++ (show BitVec (16 + 16) from w.data).extractLsb' 0 16 =
      (show BitVec (16 + 16) from w.data) := BitVec.extractLsb'_append_extractLsb'
  have hbyteEnable : (show BitVec (2 + 2) from w.byteEnable).extractLsb' 2 2 ++
      (show BitVec (2 + 2) from w.byteEnable).extractLsb' 0 2 = w.byteEnable := BitVec.extractLsb'_append_extractLsb'
  refine Beat.ext hdata hbyteEnable ?_ ?_ ?_ <;>
    simp [join, lower, upper, wsi32To16, InPort.here, hvalid, habsent]

/-! ## Messages -/

/-- What a stream of beats says: where messages begin and end, and their bytes. -/
inductive Token where
  | som
  | byte (b : BitVec 8)
  | eom
deriving DecidableEq

/-- The byte of a lane, if it is enabled. -/
def Beat.lane (b : Beat n) (i : Nat) : List (BitVec 8) :=
  if b.byteEnable.getLsbD i then [b.data.extractLsb' (8 * i) 8] else []

def Beat.bytes (b : Beat n) : List (BitVec 8) := (List.range n).flatMap b.lane

def Beat.tokens (b : Beat n) : List Token :=
  (if b.som then [.som] else []) ++ (if b.valid then b.bytes.map .byte else []) ++ (if b.eom then [.eom] else [])

theorem extractLsb'_extractLsb' {k : Nat} (x : BitVec k) {i j l : Nat} (h : j + 8 ≤ l) :
    (x.extractLsb' i l).extractLsb' j 8 = x.extractLsb' (i + j) 8 := by
  refine BitVec.eq_of_getLsbD_eq fun p hp => ?_
  simp only [BitVec.getLsbD_extractLsb', hp, Nat.add_assoc, decide_true, Bool.true_and]
  rw [decide_eq_true (by omega : j + p < l), Bool.true_and]

theorem lane_lower (w : Beat 4) {i : Nat} (hi : i < 2) : (lower w).lane i = w.lane i := by
  have hdata : (w.data.extractLsb' 0 16).extractLsb' (8 * i) 8 = w.data.extractLsb' (8 * i) 8 := by
    rw [extractLsb'_extractLsb' w.data (by omega), Nat.zero_add]
  simp [Beat.lane, lower, wsi32To16, InPort.here, hdata, hi]

theorem lane_upper (w : Beat 4) {i : Nat} (hi : i < 2) : (upper w).lane i = w.lane (2 + i) := by
  have hdata : (w.data.extractLsb' 16 16).extractLsb' (8 * i) 8 = w.data.extractLsb' (8 * (2 + i)) 8 := by
    rw [extractLsb'_extractLsb' w.data (by omega), Nat.mul_add]
  simp [Beat.lane, upper, wsi32To16, InPort.here, hdata, hi]

theorem bytes_halves (w : Beat 4) : w.bytes = (lower w).bytes ++ (upper w).bytes := by
  show [0, 1, 2, 3].flatMap w.lane = [0, 1].flatMap (lower w).lane ++ [0, 1].flatMap (upper w).lane
  simp [lane_lower, lane_upper]

theorem bytes_upper {w : Beat 4} (h : hiAbsent w = true) : (upper w).bytes = [] := by
  simp only [hiAbsent, Bool.and_eq_true, Bool.not_eq_true'] at h
  show [0, 1].flatMap (upper w).lane = []
  simp only [List.flatMap_cons, List.flatMap_nil, lane_upper, Nat.zero_lt_two, Nat.one_lt_two]
  simp [Beat.lane, h]

/-- The halves of a word say what the word says. -/
theorem tokens_split (w : Beat 4) : (split w).flatMap Beat.tokens = w.tokens := by
  unfold split Beat.tokens
  by_cases h : Full w
  · obtain ⟨hvalid, habsent⟩ := h
    rw [if_pos ⟨hvalid, habsent⟩, bytes_halves w]
    simp [lower, upper, wsi32To16, InPort.here, hvalid, habsent]
  · rw [if_neg h, bytes_halves w]
    cases hvalid : w.valid with
    | false => simp [lower, wsi32To16, InPort.here, hvalid]
    | true =>
      have habsent : hiAbsent w = true := by
        by_contra habsent
        exact h ⟨hvalid, eq_false_of_ne_true habsent⟩
      rw [bytes_upper habsent]
      simp [lower, wsi32To16, InPort.here, hvalid, habsent]

theorem tokens_flatMap_split (ws : List (Beat 4)) :
    (ws.flatMap split).flatMap Beat.tokens = ws.flatMap Beat.tokens := by
  rw [List.flatMap_assoc]
  exact List.flatMap_congr fun w _ => tokens_split w

/-! ## Runs -/

theorem narrow_eq_nil {hi16 : Bool} {ws : List (Beat 4)} (h : narrow hi16 ws = []) : ws = [] := by
  cases ws with
  | nil => rfl
  | cons w ws =>
    cases hi16 with
    | true => cases h
    | false =>
      have h : split w ++ ws.flatMap split = [] := h
      unfold split at h
      split_ifs at h <;> cases h

theorem length_flatMap_split (ws : List (Beat 4)) :
    (ws.flatMap split).length = ws.length + ws.countP fun w => Full w := by
  induction ws with
  | nil => rfl
  | cons w ws ih =>
    rw [List.flatMap_cons, List.length_append, length_split, ih, List.countP_cons, List.length_cons]
    by_cases h : Full w <;> simp [h] <;> omega

/-- **From 32 to 16 bits messages stay as they are.** Whenever the ports are ready, what was given is a part of the
messages; after two such cycles for each word it is all of them. -/
theorem wsi32To16_messages (ws : List (Beat 4)) (cycles : List (Offered 4)) :
    let l := cycles.foldl (Line.clock wsi32To16) { state := false, pending := ws }
    l.given.flatMap Beat.tokens <+: ws.flatMap Beat.tokens ∧
      (2 * ws.length ≤ cycles.countP Offered.works → l.pending = [] ∧
        l.given.flatMap Beat.tokens = ws.flatMap Beat.tokens) := by
  intro l
  have hrun : l.given ++ narrow l.state l.pending = ws.flatMap split := Line.run waits_wsi32To16 yields_narrow cycles _
  have htokens : l.given.flatMap Beat.tokens ++ (narrow l.state l.pending).flatMap Beat.tokens =
      ws.flatMap Beat.tokens := by
    rw [← List.flatMap_append, hrun, tokens_flatMap_split]
  refine ⟨⟨_, htokens⟩, fun hcycles => ?_⟩
  have hlength : (narrow l.state l.pending).length = (ws.flatMap split).length - cycles.countP Offered.works :=
    Line.length_run waits_wsi32To16 yields_narrow (fun _ _ => rfl) cycles _
  have hnil : narrow l.state l.pending = [] := by
    have hle : (ws.flatMap split).length ≤ 2 * ws.length := by
      have hcount := List.countP_le_length (p := fun w => decide (Full w)) (l := ws)
      rw [length_flatMap_split]
      omega
    exact List.length_eq_zero_iff.mp (by omega)
  rw [hnil, List.flatMap_nil, List.append_nil] at htokens
  exact ⟨narrow_eq_nil hnil, htokens⟩

/-! ## Both adapters -/

def Adapters.chain (a : Adapters) : Elastic.Chain Bool Half (Beat 4) (Beat 2) (Beat 4) :=
  ⟨a.hi16, a.half, a.pending, a.between, a.given⟩

theorem Adapters.clock_chain (a : Adapters) (o : Offered 4 × Offered 2) : (a.clock o).chain =
    a.chain.clock wsi32To16.elastic wsi16To32.elastic (o.1.works, o.2.works) := by
  unfold Adapters.clock Adapters.chain Elastic.Chain.clock
  dsimp only
  rw [waits_wsi32To16.left_eq, waits_wsi32To16.given_eq, waits_wsi32To16.next_eq, waits_wsi16To32.left_eq,
    waits_wsi16To32.given_eq, waits_wsi16To32.next_eq]
  rfl

theorem Adapters.run_chain (cycles : List (Offered 4 × Offered 2)) (a : Adapters) :
    (cycles.foldl Adapters.clock a).chain = (cycles.map fun o => (o.1.works, o.2.works)).foldl
      (Elastic.Chain.clock wsi32To16.elastic wsi16To32.elastic) a.chain := by
  induction cycles generalizing a with
  | nil => rfl
  | cons o cycles ih =>
    rw [List.foldl_cons, ih, Adapters.clock_chain]
    rfl

/-- What comes out of both adapters: the pairs of the halves. -/
theorem Adapters.run (ws : List (Beat 4)) (cycles : List (Offered 4 × Offered 2)) {a : Adapters}
    (ha : cycles.foldl Adapters.clock { pending := ws } = a) :
    a.given ++ widen a.half (a.between ++ narrow a.hi16 a.pending) = widen {} (ws.flatMap split) := by
  have htotal := Elastic.Chain.total_run yields_narrow yields_widen (cycles.map fun o => (o.1.works, o.2.works))
    (Adapters.chain { pending := ws })
  rw [← Adapters.run_chain, ha] at htotal
  exact htotal

/-- Words with both halves are joined again, when the first half comes first. -/
theorem widen_split {ws : List (Beat 4)} (hws : ∀ w ∈ ws, Full w) (h : Half) (hready : h.wordReady = false) :
    widen h (ws.flatMap split) = ws := by
  induction ws generalizing h with
  | nil => exact yields_widen.nil h
  | cons w ws ih =>
    have hfull := hws w List.mem_cons_self
    have hsplit : split w = [lower w, upper w] := if_pos hfull
    rw [List.flatMap_cons, hsplit, List.cons_append, List.cons_append, List.nil_append, widen, hready,
      if_neg Bool.false_ne_true, widen, if_pos rfl, join_halves hfull,
      ih (fun w hw => hws w (List.mem_cons_of_mem _ hw)) _ rfl]

/-- **Words come back exactly when each was sent as two halves**: after one that was not, the halves of different words
are joined. -/
theorem adapters_words (ws : List (Beat 4)) (cycles : List (Offered 4 × Offered 2)) :
    let a := cycles.foldl Adapters.clock { pending := ws }
    ((∀ w ∈ ws, Full w) → a.given <+: ws) ∧
      (a.pending = [] → a.between = [] → (a.given = ws ↔ ∀ w ∈ ws, Full w)) := by
  intro a
  have hrun := Adapters.run ws cycles rfl
  refine ⟨fun hws => ⟨_, hrun.trans (widen_split hws {} rfl)⟩, fun hpending hbetween => ?_⟩
  have hgiven : a.given = widen {} (ws.flatMap split) := by
    have hnil : widen a.half (a.between ++ narrow a.hi16 a.pending) = [] := by
      rw [hpending, hbetween, yields_narrow.nil]
      exact yields_widen.nil _
    rw [← hrun]
    show a.given = a.given ++ widen a.half (a.between ++ narrow a.hi16 a.pending)
    rw [hnil, List.append_nil]
  rw [hgiven]
  refine ⟨fun hsame => ?_, fun hws => widen_split hws {} rfl⟩
  -- each word that is one half shortens what comes back
  have hlength := congrArg List.length hsame
  rw [length_widen, length_flatMap_split] at hlength
  have hcount := List.countP_le_length (p := fun w => decide (Full w)) (l := ws)
  have hall : (ws.countP fun w => decide (Full w)) = ws.length := by
    have hready : ({} : Half).wordReady.toNat = 0 := rfl
    omega
  exact fun w hw => of_decide_eq_true (List.countP_eq_length.mp hall w hw)

/-- Two words need five cycles, the last of which empties the queue. -/
example : let w : Beat 4 := { data := 0x04030201, byteEnable := 15, som := true, eom := true, valid := true }
    let o : Offered 4 × Offered 2 :=
      ({ shown := true, idle := w, room := true }, { shown := true, idle := lower w, room := true })
    let a := (List.replicate 5 o).foldl Adapters.clock { pending := [w, w] }
    a.pending = [] ∧ a.between = [] ∧ a.given = [w, w] := by decide

end OpenCpi.Wsi
