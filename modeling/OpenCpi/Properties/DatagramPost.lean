import OpenCpi.Datagram.Post
import OpenCpi.Infra.Stretch

/-!
# Frames are built inside their arrays

Each message takes two entries of `iov`, so that a frame has room for four messages. A transaction of 2^16
messages is never at its end, since `msg` is counted with 16 bits. A frame has to find its slot free.
-/

namespace OpenCpi.Datagram.Post

open Infra

variable {left : Nat} {slots : Nat → Bool} {t g rest done : List Message}

/-- `post` returns, and has stored inside the `iov` of each frame. -/
def Posts (maxPayload : Nat) (slots : Nat → Bool) (t : Transaction) : Prop :=
  ∃ n frames, post maxPayload slots t n = some (.returned frames) ∧ ∀ k ∈ frames, k ≤ Wire.MAX_MSGS + 1

/-- From the frame with a number on, messages fall into longest stretches that fit into a frame, of one to
four messages each, and each of them finds its slot free. -/
inductive Packable (left : Nat) (slots : Nat → Bool) : Nat → List Message → Prop
  | done (k : Nat) : Packable left slots k []
  | frame {k : Nat} {g rest : List Message} (free : slots k = true) (nonempty : g ≠ []) (few : g.length ≤ 4)
      (stretch : Stretch need left g rest) (next : Packable left slots (k + 1) rest) :
      Packable left slots k (g ++ rest)

/-! ## One frame -/

theorem need_pos (m : Message) : 0 < need m := Nat.lt_of_lt_of_le (by decide) (Nat.le_add_right _ _)

/-- A stretch goes into a frame. -/
theorem stuff_stretch : ∀ {g : List Message} {left fuel iovlen : Nat} {done : List Message}, g ≠ [] →
    Stretch need left g rest → left ≤ fuel → iovlen + 2 * g.length ≤ Wire.MAX_MSGS + 1 →
    done.length + g.length < 2 ^ 16 →
    stuff (done ++ (g ++ rest)) fuel done.length left iovlen =
      .ended (done.length + g.length) (iovlen + 2 * g.length)
  | [], _, _, _, _, hne, _, _, _, _ => absurd rfl hne
  | m :: g, left, fuel, iovlen, done, _, h, hfuel, hiov, hlen => by
    have hneed := h.head_le
    have hpos := need_pos m
    have hget : (done ++ (m :: g ++ rest))[done.length]? = some m := by
      rw [List.getElem?_append_right le_rfl, Nat.sub_self, List.cons_append, List.getElem?_cons_zero]
    rw [List.length_cons] at hiov hlen
    obtain ⟨fuel, rfl⟩ : ∃ k, fuel = k + 1 := ⟨fuel - 1, by omega⟩
    rw [stuff, if_neg (by omega), hget]
    dsimp only
    rw [if_neg (by omega), if_pos (by omega), Nat.mod_eq_of_lt (by omega)]
    have hdone : done ++ (m :: g ++ rest) = done ++ [m] ++ (g ++ rest) := by
      rw [List.cons_append, List.append_cons]
    have hlast : done.length + 1 = (done ++ [m]).length := by
      rw [List.length_append, List.length_singleton]
    cases g with
    | cons m' g =>
      rw [hdone, hlast, stuff_stretch (List.cons_ne_nil _ _) h.tail (by omega) (by omega)
        (by rw [← hlast]; omega), ← hlast]
      have hlen' : (m :: m' :: g).length = (m' :: g).length + 1 := rfl
      rw [hlen']
      congr 1 <;> omega
    | nil =>
      -- the stretch is over: the frame is full, or there is no other message
      have hend : ∀ k, stuff (done ++ (m :: [] ++ rest)) k (done.length + 1) (left - need m) (iovlen + 2) =
          .ended (done.length + 1) (iovlen + 2) := by
        intro k
        cases k with
        | zero => rfl
        | succ k =>
          rw [stuff]
          by_cases hleft : left - need m = 0
          · rw [if_pos hleft]
          · rw [if_neg hleft]
            cases rest with
            | nil =>
              rw [List.getElem?_eq_none (by rw [List.length_append]; exact le_rfl)]
            | cons m' rest =>
              have hfull := h.tail.full m' rfl
              rw [List.map_nil, List.sum_nil, Nat.zero_add] at hfull
              rw [hdone, hlast, List.getElem?_append_right le_rfl, Nat.sub_self, List.nil_append,
                List.getElem?_cons_zero]
              dsimp only
              rw [if_pos hfull, ← hlast, if_neg (Nat.succ_ne_zero _)]
      exact hend fuel

/-- A fifth message leaves the array. -/
theorem stuff_overrun : ∀ {g : List Message} {left fuel iovlen : Nat} {done : List Message},
    Stretch need left g rest → left ≤ fuel → iovlen ≤ Wire.MAX_MSGS + 1 →
    Wire.MAX_MSGS + 1 < iovlen + 2 * g.length → done.length + g.length < 2 ^ 16 →
    stuff (done ++ (g ++ rest)) fuel done.length left iovlen = .overrun
  | [], _, _, iovlen, _, _, _, hin, hiov, _ => absurd hiov (Nat.not_lt.mpr hin)
  | m :: g, left, fuel, iovlen, done, h, hfuel, _, hiov, hlen => by
    have hneed := h.head_le
    have hpos := need_pos m
    have hget : (done ++ (m :: g ++ rest))[done.length]? = some m := by
      rw [List.getElem?_append_right le_rfl, Nat.sub_self, List.cons_append, List.getElem?_cons_zero]
    rw [List.length_cons] at hiov hlen
    obtain ⟨fuel, rfl⟩ : ∃ k, fuel = k + 1 := ⟨fuel - 1, by omega⟩
    rw [stuff, if_neg (by omega), hget]
    dsimp only
    rw [if_neg (by omega)]
    by_cases hroom : iovlen + 2 ≤ Wire.MAX_MSGS + 1
    · have hdone : done ++ (m :: g ++ rest) = done ++ [m] ++ (g ++ rest) := by
        rw [List.cons_append, List.append_cons]
      have hlast : done.length + 1 = (done ++ [m]).length := by
        rw [List.length_append, List.length_singleton]
      rw [if_pos hroom, Nat.mod_eq_of_lt (by omega), hdone, hlast]
      exact stuff_overrun h.tail (by omega) hroom (by omega) (by rw [← hlast]; omega)
    · rw [if_neg hroom]

/-- Nothing goes into a frame that is too small for the next message. -/
theorem stuff_small {m : Message} (h : left < need m) {fuel : Nat} (hfuel : left ≤ fuel) (iovlen : Nat) :
    stuff (done ++ m :: rest) fuel done.length left iovlen = .ended done.length iovlen ∨
      stuff (done ++ m :: rest) fuel done.length left iovlen = .asserted := by
  cases fuel with
  | zero => exact Or.inl rfl
  | succ fuel =>
    have hget : (done ++ m :: rest)[done.length]? = some m := by
      rw [List.getElem?_append_right le_rfl, Nat.sub_self, List.getElem?_cons_zero]
    rw [stuff]
    by_cases hleft : left = 0
    · exact Or.inl (if_pos hleft)
    · rw [if_neg hleft, hget]
      dsimp only
      rw [if_pos h]
      by_cases hmsg : done.length = 0
      · exact Or.inr (if_pos hmsg)
      · exact Or.inl (if_neg hmsg)

/-! ## All frames -/

/-- The first message fits into a frame. -/
theorem Packable.head_le {frame : Nat} {m : Message} (h : Packable left slots frame t)
    (hm : t.head? = some m) : need m ≤ left := by
  induction h with
  | done frame => cases hm
  | @frame frame g rest free nonempty few stretch next =>
    cases g with
    | nil => exact absurd rfl nonempty
    | cons m' g =>
      obtain rfl := Option.some.inj hm
      exact stretch.head_le

/-- **Packable messages are posted.** -/
theorem returns_of_packable {frame : Nat} (h : Packable left slots frame rest) : ∀ {done : List Message},
    (done ++ rest).length < 2 ^ 16 → ∃ n frames,
      turns left slots (done ++ rest) n frame done.length = some (.returned frames) ∧
        ∀ k ∈ frames, k ≤ Wire.MAX_MSGS + 1 := by
  induction h with
  | done frame =>
    intro done hlen
    refine ⟨0, [], ?_, fun k hk => nomatch hk⟩
    rw [turns, if_neg (by rw [List.append_nil]; exact Nat.lt_irrefl _)]
  | @frame frame g rest free nonempty few stretch next ih =>
    intro done hlen
    have hpos := List.length_pos_iff.mpr nonempty
    have hassoc : done ++ (g ++ rest) = done ++ g ++ rest := (List.append_assoc _ _ _).symm
    have hshort : done.length + g.length < 2 ^ 16 := by
      rw [List.length_append, List.length_append] at hlen
      omega
    have hiov : 2 + 2 * g.length ≤ Wire.MAX_MSGS + 1 := by
      have : Wire.MAX_MSGS = 10 := rfl
      omega
    have hlen' : (done ++ g ++ rest).length < 2 ^ 16 := by rwa [← hassoc]
    obtain ⟨n, frames, hturns, hframes⟩ := ih hlen'
    rw [List.length_append] at hturns
    have hmore : done.length < (done ++ (g ++ rest)).length := by
      rw [List.length_append, List.length_append]
      omega
    refine ⟨n + 1, (2 + 2 * g.length) :: frames, ?_, ?_⟩
    · rw [turns, if_pos hmore, if_pos free, stuff_stretch nonempty stretch le_rfl hiov hshort]
      dsimp only
      rw [if_neg (by omega), hassoc, hturns]
      rfl
    · intro k hk
      rcases List.mem_cons.mp hk with rfl | hk
      · exact hiov
      · exact hframes k hk

theorem returned_of_cons {r : Option Ending} {iovlen : Nat} {frames : List Nat}
    (h : r.map (Ending.cons iovlen) = some (.returned frames)) : ∃ frames, r = some (.returned frames) := by
  rcases r with _ | ⟨frames⟩ | _ | _
  · cases h
  · exact ⟨frames, rfl⟩
  · cases h
  · cases h

/-- **Messages that are posted are packable**, if they are less than 2^16. -/
theorem packable_of_returns : ∀ (n : Nat) {frame : Nat} {done rest : List Message} {frames : List Nat},
    (done ++ rest).length < 2 ^ 16 →
    turns left slots (done ++ rest) n frame done.length = some (.returned frames) →
    Packable left slots frame rest
  | n, frame, done, [], _, _, _ => .done frame
  | 0, frame, done, m :: rest, _, _, h => by
    rw [turns, if_pos (by rw [List.length_append, List.length_cons]; omega)] at h
    cases h
  | n + 1, frame, done, m :: rest, frames, hlen, h => by
    rw [turns, if_pos (by rw [List.length_append, List.length_cons]; omega)] at h
    have hfree : slots frame = true := by
      by_contra hbusy
      rw [if_neg hbusy] at h
      cases h
    rw [if_pos hfree] at h
    obtain ⟨g, rest', hsplit, hstretch⟩ := exists_stretch need left (m :: rest)
    cases g with
    | nil =>
      -- the message is too large: the loop stays where it is, and never returns
      have hm := hstretch.full m (by rw [← List.nil_append rest', ← hsplit]; rfl)
      rw [List.map_nil, List.sum_nil, Nat.zero_add] at hm
      have hsmall : stuff (done ++ m :: rest) left done.length left 2 = .ended done.length 2 ∨
          stuff (done ++ m :: rest) left done.length left 2 = .asserted := stuff_small hm le_rfl 2
      rcases hsmall with hs | hs
      · rw [hs] at h
        dsimp only at h
        by_cases hzero : done.length = 0
        · rw [if_pos hzero] at h
          cases h
        · rw [if_neg hzero] at h
          obtain ⟨frames', h⟩ := returned_of_cons h
          have hfits := (packable_of_returns n hlen h).head_le rfl
          omega
      · rw [hs] at h
        cases h
    | cons m' g =>
      rw [hsplit] at h hlen ⊢
      have hshort : done.length + (m' :: g).length < 2 ^ 16 := by
        rw [List.length_append, List.length_append] at hlen
        omega
      by_cases hfew : (m' :: g).length ≤ 4
      · have hiov : 2 + 2 * (m' :: g).length ≤ Wire.MAX_MSGS + 1 := by
          have : Wire.MAX_MSGS = 10 := rfl
          omega
        rw [stuff_stretch (List.cons_ne_nil _ _) hstretch le_rfl hiov hshort] at h
        dsimp only at h
        rw [if_neg (by rw [List.length_cons]; omega)] at h
        obtain ⟨frames', h⟩ := returned_of_cons h
        rw [← List.append_assoc] at h hlen
        rw [← List.length_append] at h
        exact .frame hfree (List.cons_ne_nil _ _) hfew hstretch (packable_of_returns n hlen h)
      · have hmany : Wire.MAX_MSGS + 1 < 2 + 2 * (m' :: g).length := by
          have : Wire.MAX_MSGS = 10 := rfl
          omega
        rw [stuff_overrun hstretch le_rfl (by decide) hmany hshort] at h
        cases h

/-- `msg` stays below 2^16. -/
theorem stuff_msg_lt : ∀ {fuel msg left iovlen msg' iovlen' : Nat}, msg < 2 ^ 16 →
    stuff t fuel msg left iovlen = .ended msg' iovlen' → msg' < 2 ^ 16
  | 0, msg, left, iovlen, msg', iovlen', hmsg, h => by
    cases h
    exact hmsg
  | fuel + 1, msg, left, iovlen, msg', iovlen', hmsg, h => by
    rw [stuff] at h
    split at h
    · cases h
      exact hmsg
    · split at h
      · cases h
        exact hmsg
      · split at h
        · split at h
          · cases h
          · cases h
            exact hmsg
        · split at h
          · exact stuff_msg_lt (Nat.mod_lt _ (by decide)) h
          · cases h

/-- **A transaction of 2^16 messages** is never posted to the end. -/
theorem never_returns (ht : 2 ^ 16 ≤ t.length) : ∀ (n : Nat) {frame msg : Nat} {frames : List Nat},
    msg < 2 ^ 16 → turns left slots t n frame msg ≠ some (.returned frames)
  | 0, frame, msg, frames, hmsg, h => by
    rw [turns, if_pos (by omega)] at h
    cases h
  | n + 1, frame, msg, frames, hmsg, h => by
    rw [turns, if_pos (by omega)] at h
    by_cases hfree : slots frame = true
    case neg =>
      rw [if_neg hfree] at h
      cases h
    rw [if_pos hfree] at h
    cases hs : stuff t left msg left 2 with
    | ended msg' iovlen =>
      rw [hs] at h
      dsimp only at h
      split at h
      · cases h
      · obtain ⟨frames', h⟩ := returned_of_cons h
        exact never_returns ht n (stuff_msg_lt hmsg hs) h
    | asserted =>
      rw [hs] at h
      cases h
    | overrun =>
      rw [hs] at h
      cases h

/-- **Posting**: a transaction that some calls of `copy` build is posted inside the arrays exactly when it
has less than 2^16 messages and they are packable into frames with free slots. -/
theorem posts_iff_packable (maxPayload : Nat) (slots : Nat → Bool) (calls : List Call) (t : Transaction)
    (_hbuild : build maxPayload calls = some t) :
    Posts maxPayload slots t ↔ t.messages.length < 2 ^ 16 ∧
      Packable (sizeSub maxPayload (frameHeaderSize + 2)) slots 0 t.messages := by
  constructor
  · rintro ⟨n, frames, h, -⟩
    unfold post at h
    have hlen : t.messages.length < 2 ^ 16 := by
      by_contra hlong
      exact never_returns (Nat.not_lt.mp hlong) n (by decide) h
    have hnone : ([] ++ t.messages).length < 2 ^ 16 := hlen
    exact ⟨hlen, packable_of_returns n hnone h⟩
  · rintro ⟨hlen, hpack⟩
    have hnone : ([] ++ t.messages).length < 2 ^ 16 := hlen
    obtain ⟨n, frames, h, hframes⟩ := returns_of_packable hpack hnone
    exact ⟨n, frames, h, hframes⟩

/-- For the UDP driver: 600 bytes, which are two messages, 16 bytes and 400 bytes. They go into three frames,
and three slots are free. -/
theorem posts_three_frames : ∃ t,
    build 512 [.data 0 0 600, .data 600 700 16, .data 616 800 400, .flag 0 2000] = some t ∧
      t.messages.map Message.dataLen = [470, 130, 16, 400] ∧ Posts 512 (fun k => decide (k < 3)) t := by
  have hbuild : build 512 [.data 0 0 600, .data 600 700 16, .data 616 800 400, .flag 0 2000] =
      some ⟨true, [⟨0, 0, 470⟩, ⟨470, 470, 130⟩, ⟨600, 700, 16⟩, ⟨616, 800, 400⟩]⟩ := rfl
  refine ⟨_, hbuild, rfl, (posts_iff_packable 512 _ _ _ hbuild).mpr ⟨by decide, ?_⟩⟩
  have hthird : Packable 500 (fun k => decide (k < 3)) 2 ([⟨616, 800, 400⟩] ++ []) :=
    .frame rfl (by decide) (by decide) ⟨by decide, by decide⟩ (.done 3)
  have hsecond : Packable 500 (fun k => decide (k < 3)) 1 ([⟨470, 470, 130⟩, ⟨600, 700, 16⟩] ++ [⟨616, 800, 400⟩]) :=
    .frame rfl (by decide) (by decide) ⟨by decide, by decide⟩ hthird
  have hfirst : Packable 500 (fun k => decide (k < 3)) 0
      ([⟨0, 0, 470⟩] ++ [⟨470, 470, 130⟩, ⟨600, 700, 16⟩, ⟨616, 800, 400⟩]) :=
    .frame rfl (by decide) (by decide) ⟨by decide, by decide⟩ hsecond
  exact hfirst

/-- Five blocks of 16 bytes, with all slots free. -/
theorem fifth_block_overruns : ¬∀ (maxPayload : Nat) (calls : List Call) (t : Transaction),
    build maxPayload calls = some t → Posts maxPayload (fun _ => true) t := by
  intro h
  have hbuild : build 512 (List.replicate 5 (.data 0 0 16)) =
      some ⟨true, List.replicate 5 ⟨0, 0, 16⟩⟩ := rfl
  obtain ⟨n, frames, hpost, -⟩ := h 512 _ _ hbuild
  cases n with
  | zero => cases hpost
  | succ n =>
    have hover : post 512 (fun _ => true) ⟨true, List.replicate 5 ⟨0, 0, 16⟩⟩ (n + 1) = some .overrun := rfl
    rw [hover] at hpost
    cases hpost

end OpenCpi.Datagram.Post
