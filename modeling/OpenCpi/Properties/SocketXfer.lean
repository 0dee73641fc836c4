import Mathlib.Algebra.GroupWithZero.Nat
import OpenCpi.Xfer.Socket

/-!
# What the socket transfers

The handler finds each header and its data again however the stream is cut, as long as the client sends each of
them whole.

## Sending
-/

namespace OpenCpi.Socket

open Infra

/-- No result is zero before so many bytes are taken. -/
def NoZero : List Send → Nat → Prop
  | .sent nb :: results, left => left = 0 ∨ nb ≠ 0 ∧ NoZero results (left - nb)
  | _, _ => True

/-- The calls that take so many bytes. -/
def sends : List Send → Nat → Nat
  | .sent nb :: results, left => if left = 0 then 0 else sends results (left - nb) + 1
  | _, _ => 0

/-- The results that come after so many bytes are taken. -/
def after : List Send → Nat → List Send
  | .sent nb :: results, left => if left = 0 then .sent nb :: results else after results (left - nb)
  | results, _ => results

/-- **When a transfer is sent whole** unless `send` throws: its length fits in the header, no result is zero
before the header or the data is sent, and the header takes fewer calls than there are tries. -/
structure Steady (t : Transfer) (results : List Send) : Prop where
  length : t.data.length < 2 ^ 32
  header : NoZero results headerSize
  calls : sends results headerSize < 10
  data : NoZero (after results headerSize) t.data.length

/-- The header and the data of a transfer. -/
def wire (count : Nat) (t : Transfer) : List UInt8 := headerBytes t.dstOff t.data.length count ++ t.data

variable {t : Transfer} {results : List Send} {bytes : List UInt8} {perTry trys count : Nat}

theorem sendLoop_end (h : trys = 0 ∨ bytes = []) : sendLoop perTry results trys bytes = ⟨[], .done trys, results⟩ := by
  cases results with
  | nil => exact congrArg (fun e => (⟨[], e, []⟩ : Loop)) (if_pos h)
  | cons r results => exact if_pos h

theorem after_zero : after results 0 = results := by
  rcases results with _ | ⟨_ | _, results⟩
  · rfl
  · rfl
  · rfl

/-- What a loop does with results that are not zero. -/
theorem sendLoop_cases (hzero : NoZero results bytes.length) (htrys : perTry * sends results bytes.length < trys) :
    (∃ trys', sendLoop perTry results trys bytes = ⟨bytes, .done trys', after results bytes.length⟩ ∧ trys' ≠ 0) ∨
      (sendLoop perTry results trys bytes).sent <+: bytes ∧
        ((sendLoop perTry results trys bytes).ended = .threw ∨
          (sendLoop perTry results trys bytes).ended = .waiting) := by
  have htry : trys ≠ 0 := Nat.ne_of_gt (Nat.lt_of_le_of_lt (Nat.zero_le _) htrys)
  by_cases hbytes : bytes = []
  · subst hbytes
    rw [sendLoop_end (.inr rfl)]
    exact .inl ⟨trys, by rw [List.length_nil, after_zero], htry⟩
  · have hgo : ¬(trys = 0 ∨ bytes = []) := not_or.mpr ⟨htry, hbytes⟩
    induction results generalizing trys bytes with
    | nil =>
      rw [sendLoop, if_neg hgo]
      exact .inr ⟨List.nil_prefix, .inr rfl⟩
    | cons r results ih =>
      cases r with
      | failed =>
        rw [sendLoop, if_neg hgo]
        exact .inr ⟨List.nil_prefix, .inl rfl⟩
      | sent nb =>
        have hlen : bytes.length ≠ 0 := mt List.length_eq_zero_iff.mp hbytes
        obtain ⟨hnb, hzero⟩ := hzero.resolve_left hlen
        rw [sends, if_neg hlen, Nat.mul_succ] at htrys
        have hsplit : bytes.take nb ++ bytes.drop nb = bytes := List.take_append_drop nb bytes
        rw [sendLoop, if_neg hgo]
        dsimp only
        rw [if_neg hnb, after, if_neg hlen]
        rw [← List.length_drop] at hzero htrys ⊢
        by_cases hrest : bytes.drop nb = []
        · rw [hrest, sendLoop_end (.inr rfl)]
          rw [hrest, List.append_nil] at hsplit
          refine .inl ⟨trys - perTry, ?_, by omega⟩
          rw [List.length_nil, after_zero, List.append_nil, hsplit]
        · have htry' : trys - perTry ≠ 0 := by omega
          rcases ih hzero (by omega) htry' hrest (not_or.mpr ⟨htry', hrest⟩) with
            ⟨trys', heq, hne⟩ | ⟨hpre, hend⟩
          · refine .inl ⟨trys', ?_, hne⟩
            rw [heq, hsplit]
          · refine .inr ⟨?_, hend⟩
            calc bytes.take nb ++ (sendLoop perTry results (trys - perTry) (bytes.drop nb)).sent
                <+: bytes.take nb ++ bytes.drop nb := (List.prefix_append_right_inj _).mpr hpre
              _ = bytes := hsplit

theorem afterLoop_cut {l : Loop} (h : l.ended = .threw ∨ l.ended = .waiting) (next : List UInt8 × Outcome) :
    (afterLoop l next).1 = l.sent ∧ (afterLoop l next).2 ≠ .returned := by
  unfold afterLoop
  rcases h with h | h
  · rw [h]
    exact ⟨rfl, nofun⟩
  · rw [h]
    exact ⟨rfl, nofun⟩

theorem afterLoop_done (hne : trys ≠ 0) (next : List UInt8 × Outcome) :
    afterLoop ⟨bytes, .done trys, results⟩ next = (bytes ++ next.1, next.2) := if_neg hne

/-- **A steady transfer** is sent whole when `action_transfer` returns, and else is cut short. -/
theorem actionTransfer_cases (count : Nat) (h : Steady t results) :
    actionTransfer count t results = (wire count t, .returned) ∨
      (actionTransfer count t results).2 ≠ .returned ∧ (actionTransfer count t results).1 <+: wire count t := by
  have hcalls : 1 * sends results headerSize < 10 := (Nat.one_mul _).symm ▸ h.calls
  unfold actionTransfer wire
  rw [Nat.mod_eq_of_lt h.length]
  have hheader : (headerBytes t.dstOff t.data.length count).length = headerSize := rfl
  dsimp only
  rcases sendLoop_cases (hheader ▸ h.header) (hheader ▸ hcalls) with ⟨trys, heq, hne⟩ | ⟨hpre, hend⟩
  · rw [heq, hheader]
    have hdata : 0 * sends (after results headerSize) t.data.length < 10 := by omega
    rcases sendLoop_cases h.data hdata with ⟨trys', heq', hne'⟩ | ⟨hpre, hend⟩
    · refine .inl ?_
      rw [heq', afterLoop_done hne, afterLoop_done hne', List.append_nil]
    · obtain ⟨hsent, hret⟩ := afterLoop_cut hend ([], .returned)
      rw [afterLoop_done hne, hsent]
      exact .inr ⟨hret, (List.prefix_append_right_inj _).mpr hpre⟩
  · obtain ⟨hsent, hret⟩ := afterLoop_cut hend _
    exact .inr ⟨hret, hsent ▸ hpre.trans (List.prefix_append _ _)⟩

/-! ## Receiving -/

variable {h : Handler} {a b : List UInt8} {addr : Nat}

theorem receive_nil : h.receive [] = h := by
  rw [Handler.receive, dif_pos rfl]

theorem receive_turn (hne : bytes ≠ []) : h.receive bytes =
    (h.begin.copy (bytes.take h.begin.bytesLeft)).receive (bytes.drop h.begin.bytesLeft) := by
  rw [Handler.receive, dif_neg hne]

/-- Bytes that are just what is left are copied at once. -/
theorem receive_exact (hne : bytes ≠ []) (hlen : h.begin.bytesLeft = bytes.length) :
    h.receive bytes = h.begin.copy bytes := by
  rw [receive_turn hne, hlen, List.take_length, List.drop_length, receive_nil]

theorem copies_append : copies addr (a ++ b) = copies addr a ++ copies (addr + a.length) b := by
  induction a generalizing addr with
  | nil => rfl
  | cons x a ih =>
    rw [List.cons_append, copies, ih, copies, List.length_cons, Nat.add_assoc, Nat.add_comm 1]
    rfl

theorem begin_of_left (hleft : h.bytesLeft ≠ 0) : h.begin = h := if_neg hleft

theorem copy_header (hin : h.inHeader = true) : h.copy bytes =
    ⟨h.currentPtr + bytes.length, h.bytesLeft - bytes.length, writeBytes h.header h.currentPtr bytes,
      decide (h.bytesLeft - bytes.length ≠ 0), h.copied⟩ := by
  unfold Handler.copy
  rw [if_pos hin, hin]
  by_cases hleft : h.bytesLeft - bytes.length = 0
  · rw [if_pos hleft, decide_eq_false (not_not.mpr hleft)]
    rfl
  · rw [if_neg hleft, decide_eq_true hleft]

theorem copy_data (hin : h.inHeader = false) : h.copy bytes =
    ⟨h.currentPtr + bytes.length, h.bytesLeft - bytes.length, h.header,
      decide (h.bytesLeft - bytes.length = 0), h.copied ++ copies h.currentPtr bytes⟩ := by
  unfold Handler.copy
  rw [hin, if_neg Bool.false_ne_true]
  by_cases hleft : h.bytesLeft - bytes.length = 0
  · rw [if_pos hleft, decide_eq_true hleft]
    rfl
  · rw [if_neg hleft, decide_eq_false hleft]

/-- Two copies in a row are one. -/
theorem copy_append (hlt : a.length < h.bytesLeft) : h.copy (a ++ b) = (h.copy a).copy b := by
  have hleft : h.bytesLeft - a.length ≠ 0 := by omega
  cases hin : h.inHeader with
  | true =>
    have hin' : (h.copy a).inHeader = true := by rw [copy_header hin, decide_eq_true hleft]
    rw [copy_header hin', copy_header hin, copy_header hin]
    dsimp only
    rw [writeBytes_append, List.length_append, Nat.add_assoc, Nat.sub_add_eq]
  | false =>
    have hin' : (h.copy a).inHeader = false := by rw [copy_data hin, decide_eq_false hleft]
    rw [copy_data hin', copy_data hin, copy_data hin]
    dsimp only
    rw [copies_append, List.length_append, List.append_assoc, Nat.add_assoc, Nat.sub_add_eq]

theorem copy_bytesLeft : (h.copy bytes).bytesLeft = h.bytesLeft - bytes.length := by
  unfold Handler.copy
  dsimp only
  split <;> rfl

/-- **How the stream is cut does not matter.** -/
theorem receive_append (h : Handler) (a b : List UInt8) : h.receive (a ++ b) = (h.receive a).receive b := by
  induction h, a using Handler.receive.induct with
  | case1 h => rw [receive_nil, List.nil_append]
  | case2 h a hne ih =>
    rw [receive_turn hne, receive_turn (List.append_ne_nil_of_left_ne_nil hne b)]
    by_cases hlen : h.begin.bytesLeft ≤ a.length
    · rw [List.take_append_of_le_length hlen, List.drop_append_of_le_length hlen]
      exact ih
    · have hlt : a.length < h.begin.bytesLeft := Nat.lt_of_not_le hlen
      rw [List.take_of_length_le (Nat.le_of_lt hlt), List.drop_of_length_le (Nat.le_of_lt hlt), receive_nil]
      have htake : (a ++ b).take h.begin.bytesLeft = a ++ b.take (h.begin.bytesLeft - a.length) := by
        rw [List.take_append, List.take_of_length_le (Nat.le_of_lt hlt)]
      have hdrop : (a ++ b).drop h.begin.bytesLeft = b.drop (h.begin.bytesLeft - a.length) := by
        rw [List.drop_append, List.drop_of_length_le (Nat.le_of_lt hlt), List.nil_append]
      rw [htake, hdrop]
      by_cases hb : b = []
      · subst hb
        rw [List.take_nil, List.append_nil, List.drop_nil]
      · have hleft : (h.begin.copy a).begin = h.begin.copy a := begin_of_left (by rw [copy_bytesLeft]; omega)
        rw [copy_append hlt, receive_turn hb, hleft, copy_bytesLeft]

theorem begin_copied (h : Handler) : h.begin.copied = h.copied := by
  unfold Handler.begin
  split
  · split <;> rfl
  · rfl

/-- Nothing that was copied is taken back. -/
theorem copied_prefix (h : Handler) (bytes : List UInt8) : h.copied <+: (h.receive bytes).copied := by
  induction h, bytes using Handler.receive.induct with
  | case1 h =>
    rewrite [receive_nil]
    exact List.prefix_rfl
  | case2 h bytes hne ih =>
    rw [receive_turn hne]
    refine List.IsPrefix.trans ?_ ih
    cases hin : h.begin.inHeader with
    | true =>
      rw [copy_header hin]
      exact (begin_copied h) ▸ List.prefix_rfl
    | false =>
      rw [copy_data hin, begin_copied]
      exact List.prefix_append _ _

/-- The handler waits for a header, or for a byte after a header of length zero. -/
def Idle (h : Handler) : Prop := h.bytesLeft = 0 ∧ (h.inHeader = true ∨ h.inHeader = false ∧ h.length = 0)

theorem begin_header (hleft : h.bytesLeft = 0) (hin : h.inHeader = true) :
    h.begin = ⟨0, headerSize, h.header, true, h.copied⟩ := by
  rw [Handler.begin, if_pos hleft, if_pos hin, hin]

theorem begin_data (hleft : h.bytesLeft = 0) (hin : h.inHeader = false) :
    h.begin = ⟨h.offset, h.length, h.header, false, h.copied⟩ := by
  rw [Handler.begin, if_pos hleft, hin, if_neg Bool.false_ne_true]

/-- A whole header is received at once. -/
theorem receive_header_of_inHeader (hleft : h.bytesLeft = 0) (hin : h.inHeader = true)
    (hlen : bytes.length = headerSize) :
    h.receive bytes = ⟨headerSize, 0, writeBytes h.header 0 bytes, false, h.copied⟩ := by
  have hne : bytes ≠ [] := List.ne_nil_of_length_eq_add_one hlen
  have hexact : h.begin.bytesLeft = bytes.length := by rw [begin_header hleft hin, hlen]
  rw [receive_exact hne hexact, begin_header hleft hin, copy_header rfl, hlen]
  rfl

theorem receive_header (hidle : Idle h) (hlen : bytes.length = headerSize) :
    h.receive bytes = ⟨headerSize, 0, writeBytes h.header 0 bytes, false, h.copied⟩ := by
  obtain ⟨hleft, hin | ⟨hin, hzero⟩⟩ := hidle
  · exact receive_header_of_inHeader hleft hin hlen
  · have hne : bytes ≠ [] := List.ne_nil_of_length_eq_add_one hlen
    -- the turn for the data of length zero
    have hturn : h.begin.copy [] = ⟨h.offset, 0, h.header, true, h.copied⟩ := by
      rw [begin_data hleft hin, hzero, copy_data rfl, copies, List.append_nil]
      rfl
    have hzero' : h.begin.bytesLeft = 0 := by rw [begin_data hleft hin, hzero]
    rw [receive_turn hne, hzero', List.take_zero, List.drop_zero, hturn]
    exact receive_header_of_inHeader rfl rfl hlen

/-- The fields of a header that was received. -/
theorem header_fields (memory : Memory) (count : Nat) {offset length : Nat} (hoffset : offset < 2 ^ 32)
    (hlength : length < 2 ^ 32) :
    wordOf (readBytes (writeBytes memory 0 (headerBytes offset length count)) 0 4) = offset ∧
      wordOf (readBytes (writeBytes memory 0 (headerBytes offset length count)) 4 4) = length := by
  have hread := readBytes_writeBytes memory 0 (headerBytes offset length count)
  rw [show (headerBytes offset length count).length = 4 + 4 + 4 from rfl, readBytes_add, readBytes_add] at hread
  obtain ⟨hfront, -⟩ := List.append_inj hread (by simp)
  obtain ⟨hoff, hlen⟩ := List.append_inj hfront (by simp)
  rw [Nat.zero_add] at hlen
  rw [hoff, hlen, wordOf_wordBytes hoffset, wordOf_wordBytes hlength]
  exact ⟨rfl, rfl⟩

/-- **A whole transfer is copied to its offset.** -/
theorem receive_wire (count : Nat) (hidle : Idle h) (hlen : t.data.length < 2 ^ 32) :
    Idle (h.receive (wire count t)) ∧ (h.receive (wire count t)).copied = h.copied ++ copies t.dstOff t.data := by
  obtain ⟨hoffset, hlength⟩ := header_fields h.header count t.dstOff_lt hlen
  rw [wire, receive_append, receive_header hidle rfl]
  by_cases hdata : t.data = []
  · rw [hdata, receive_nil, copies, List.append_nil]
    rw [hdata] at hlength
    exact ⟨⟨rfl, .inr ⟨rfl, hlength⟩⟩, rfl⟩
  · have hbegin := begin_data (h := ⟨headerSize, 0, writeBytes h.header 0 (headerBytes t.dstOff t.data.length count),
      false, h.copied⟩) rfl rfl
    rw [Handler.offset, Handler.length, hoffset, hlength] at hbegin
    rw [receive_exact hdata (by rw [hbegin]), hbegin, copy_data rfl]
    dsimp only
    rw [Nat.sub_self]
    exact ⟨⟨rfl, .inl rfl⟩, rfl⟩

/-! ## Whole runs -/

/-- The bytes are the transfers' headers and data in order; the count in a header is not used. -/
inductive Wires : List Transfer → List UInt8 → Prop where
  | nil : Wires [] []
  | snoc {ts bytes t} (count : Nat) : Wires ts bytes → Wires (ts ++ [t]) (bytes ++ wire count t)

/-- What the transfers copy. -/
def allCopies (ts : List Transfer) : List (Nat × UInt8) := ts.flatMap fun t => copies t.dstOff t.data

/-- **The transfers are carried exactly**: what `action_transfer` returned from was sent whole, nothing is sent
after a transfer that it did not return from, and the handler copies the bytes of the transfers in order, each
to its own offset. -/
structure Carried (l : Link) : Prop where
  whole : ∃ bytes part, l.sent = bytes ++ part ∧ Wires l.returned bytes ∧
    (l.broken = none → part = []) ∧ ∀ t, l.broken = some t → ∃ count, part <+: wire count t
  inOrder : l.handler.copied <+: allCopies (l.returned ++ l.broken.toList)
  all : l.flight = [] → allCopies l.returned <+: l.handler.copied

/-- The condition on a transfer; `recv` may return any bytes. -/
def SteadyOp (_ : Link) : LinkOp → Prop
  | .transfer t results => Steady t results
  | _ => True

/-- What holds after every step. -/
structure Kept (h₀ : Handler) (l : Link) : Prop where
  received : ∃ consumed, consumed ++ l.flight = l.sent ∧ l.handler = h₀.receive consumed
  short : ∀ t ∈ l.returned ++ l.broken.toList, t.data.length < 2 ^ 32
  whole : ∃ bytes part, l.sent = bytes ++ part ∧ Wires l.returned bytes ∧
    (l.broken = none → part = []) ∧ ∀ t, l.broken = some t → ∃ count, part <+: wire count t

variable {h₀ : Handler} {l l' : Link} {ts : List Transfer}

theorem allCopies_append (ts : List Transfer) (t : Transfer) :
    allCopies (ts ++ [t]) = allCopies ts ++ copies t.dstOff t.data := by
  rw [allCopies, allCopies, List.flatMap_append, List.flatMap_singleton]

/-- Whole transfers, one after the other. -/
theorem receive_wires (hidle : Idle h) (hwires : Wires ts bytes) (hshort : ∀ t ∈ ts, t.data.length < 2 ^ 32) :
    Idle (h.receive bytes) ∧ (h.receive bytes).copied = h.copied ++ allCopies ts := by
  induction hwires with
  | nil =>
    rw [receive_nil, allCopies, List.flatMap_nil, List.append_nil]
    exact ⟨hidle, rfl⟩
  | snoc count hwires ih =>
    obtain ⟨hts, ht⟩ := List.forall_mem_append.mp hshort
    obtain ⟨hidle', hcopied⟩ := ih hts
    obtain ⟨hidle'', hcopied'⟩ := receive_wire count hidle' (ht _ (List.mem_singleton_self _))
    rw [receive_append, hcopied', hcopied, allCopies_append, List.append_assoc]
    exact ⟨hidle'', rfl⟩

theorem kept_transfer (hk : Kept h₀ l) (hsteady : Steady t results) (hstep : l.step (.transfer t results) = some l') :
    Kept h₀ l' := by
  rw [Link.step] at hstep
  split at hstep
  · cases hstep
  · next hbroken =>
    have hnone : l.broken = none := Option.not_isSome_iff_eq_none.mp hbroken
    obtain ⟨⟨consumed, hsent, hhandler⟩, hshort, bytes, part, hwhole, hwires, hpart, -⟩ := hk
    rw [hpart hnone, List.append_nil] at hwhole
    rw [hnone, Option.toList_none, List.append_nil] at hshort
    have hshort' : ∀ t' ∈ l.returned ++ [t], t'.data.length < 2 ^ 32 :=
      List.forall_mem_append.mpr ⟨hshort, List.forall_mem_singleton.mpr hsteady.length⟩
    obtain rfl := Option.some.inj hstep
    have hreceived : ∀ sent, ∃ c, c ++ (l.flight ++ sent) = l.sent ++ sent ∧ l.handler = h₀.receive c :=
      fun sent => ⟨consumed, by rw [← List.append_assoc, hsent], hhandler⟩
    rcases actionTransfer_cases l.count hsteady with heq | ⟨hne, hpre⟩
    · refine ⟨hreceived _, ?_, bytes ++ wire l.count t, [], ?_, ?_, fun _ => rfl, ?_⟩
      · simpa [heq] using hshort'
      · dsimp only
        rw [heq, hwhole, List.append_nil]
      · dsimp only
        rw [heq, if_pos rfl]
        exact hwires.snoc l.count
      · intro t' ht'
        dsimp only at ht'
        rw [heq, if_pos rfl] at ht'
        cases ht'
    · refine ⟨hreceived _, ?_, bytes, _, congrArg (· ++ _) hwhole, ?_, ?_, ?_⟩
      · dsimp only
        rw [if_neg hne, if_neg hne]
        exact hshort'
      · dsimp only
        rw [if_neg hne]
        exact hwires
      · intro hnone
        dsimp only at hnone
        rw [if_neg hne] at hnone
        cases hnone
      · intro t' ht'
        dsimp only at ht'
        rw [if_neg hne] at ht'
        exact ⟨l.count, Option.some.inj ht' ▸ hpre⟩

theorem kept_recv {n : Nat} (hk : Kept h₀ l) (hstep : l.step (.recv n) = some l') : Kept h₀ l' := by
  rw [Link.step] at hstep
  split at hstep
  · obtain rfl := Option.some.inj hstep
    obtain ⟨⟨consumed, hsent, hhandler⟩, hshort, hwhole⟩ := hk
    refine ⟨⟨consumed ++ l.flight.take n, ?_, ?_⟩, hshort, hwhole⟩
    · dsimp only
      rw [List.append_assoc, List.take_append_drop, hsent]
    · dsimp only
      rw [hhandler, receive_append]
  · cases hstep

theorem kept_step (hk : Kept h₀ l) {op : LinkOp} (hok : SteadyOp l op) (hstep : l.step op = some l') : Kept h₀ l' := by
  cases op with
  | transfer t results => exact kept_transfer hk hok hstep
  | recv n => exact kept_recv hk hstep
  | timeout => exact Option.some.inj hstep ▸ hk

/-- The handler is a prefix behind what was sent. -/
theorem carried_of_kept (hidle : Idle h₀) (hcopied : h₀.copied = []) (hk : Kept h₀ l) : Carried l := by
  obtain ⟨⟨consumed, hsent, hhandler⟩, hshort, hwhole⟩ := hk
  refine ⟨hwhole, ?_, ?_⟩
  · obtain ⟨bytes, part, heq, hwires, hpart, hbroken⟩ := hwhole
    obtain ⟨hidle', hall⟩ := receive_wires hidle hwires (fun t ht => hshort t (List.mem_append_left _ ht))
    rw [hcopied, List.nil_append] at hall
    have hbehind : l.handler.copied <+: ((h₀.receive bytes).receive part).copied := by
      rw [← receive_append, ← heq, ← hsent, receive_append, hhandler]
      exact copied_prefix _ _
    refine hbehind.trans ?_
    cases hlast : l.broken with
    | none =>
      rewrite [hpart hlast, receive_nil, hall, Option.toList_none, List.append_nil]
      exact List.prefix_rfl
    | some t =>
      obtain ⟨count, rest, hrest⟩ := hbroken t hlast
      have ht : t ∈ l.returned ++ l.broken.toList := by
        rw [hlast]
        exact List.mem_append_right _ (List.mem_singleton_self t)
      obtain ⟨-, hcopy⟩ := receive_wire count hidle' (hshort t ht)
      rw [Option.toList_some, allCopies_append, ← hall, ← hcopy, ← hrest, receive_append]
      exact copied_prefix _ _
  · intro hflight
    obtain ⟨bytes, part, heq, hwires, -⟩ := hwhole
    obtain ⟨-, hall⟩ := receive_wires hidle hwires (fun t ht => hshort t (List.mem_append_left _ ht))
    rw [hcopied, List.nil_append] at hall
    rw [hflight, List.append_nil] at hsent
    rw [hhandler, hsent, heq, receive_append, ← hall]
    exact copied_prefix _ _

/-- **Transfers over a socket are carried exactly**, in every run whose transfers are steady. -/
theorem carried_of_steady {header : Memory} {ptr : Nat} (hrun : Reach Link.step SteadyOp (Link.init header ptr) l) :
    Carried l := by
  have hstart : Kept ⟨ptr, 0, header, true, []⟩ (Link.init header ptr) := by
    exact ⟨⟨[], rfl, receive_nil.symm⟩, (fun _ ht => nomatch ht), [], [], rfl, .nil, (fun _ => rfl),
      (fun _ ht => nomatch ht)⟩
  have hk : Kept ⟨ptr, 0, header, true, []⟩ l :=
    hrun.invariant (P := Kept ⟨ptr, 0, header, true, []⟩) hstart fun _ _ _ hk hok hstep => kept_step hk hok hstep
  exact carried_of_kept ⟨rfl, .inl rfl⟩ rfl hk

/-- A transfer in four calls, received in two. -/
theorem two_bytes_carried : ∃ l, Reach Link.step SteadyOp (Link.init (fun _ => 0) 0) l ∧ l.flight = [] ∧
    l.handler.copied = [(8, 1), (9, 2)] := by
  have hsteady : Steady ⟨8, [1, 2], by decide⟩ [.sent 5, .sent 7, .sent 1, .sent 1] :=
    ⟨by decide, .inr ⟨by decide, .inr ⟨by decide, .inl rfl⟩⟩, by decide,
      .inr ⟨by decide, .inr ⟨by decide, trivial⟩⟩⟩
  have hsent : Reach Link.step SteadyOp (Link.init (fun _ => 0) 0) _ := .tail .refl ⟨.transfer _ _, hsteady, rfl⟩
  have hrun : Reach Link.step SteadyOp (Link.init (fun _ => 0) 0) _ :=
    .tail (.tail hsent ⟨.recv 3, trivial, rfl⟩) ⟨.recv 11, trivial, rfl⟩
  have hcarried := carried_of_steady hrun
  exact ⟨_, hrun, rfl, ((hcarried.all rfl).eq_of_length_le hcarried.inOrder.length_le).symm⟩

theorem wires_length (h : Wires ts bytes) : bytes.length = (ts.map fun t => headerSize + t.data.length).sum := by
  induction h with
  | nil => rfl
  | snoc count h ih =>
    rw [List.length_append, ih, wire, List.length_append, List.map_append, List.sum_append]
    rfl

/-- `send` takes the header and then nothing: `action_transfer` returns, and the next header is taken for the
data. -/
theorem data_not_sent : ¬∀ header ptr l, Reach Link.step anyStep (Link.init header ptr) l → Carried l := by
  intro hall
  have hrun : Reach Link.step anyStep (Link.init (fun _ => 0) 0) _ :=
    reach_of_exec [.transfer ⟨0, [1, 2], by decide⟩ [.sent 12, .sent 0]] rfl
  obtain ⟨bytes, part, heq, hwires, hpart, -⟩ := (hall _ _ _ hrun).whole
  have hlen := congrArg List.length heq
  rw [hpart rfl, List.append_nil, wires_length hwires] at hlen
  exact absurd hlen (by decide)

end OpenCpi.Socket
