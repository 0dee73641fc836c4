import OpenCpi.Ior.Decode

/-!
# What the decoders read

A decoder goes wrong at a string whose length field is zero, since the count of characters is that less
one, and at a number of elements from 2^29 on, since eight times that is computed with 32 bits. Everywhere
else it reads inside the string and no number wraps around.
-/

namespace OpenCpi.Ior

open Infra

/-- Bytes that are inside the string, a number that fits. -/
def Event.Ok (data : StdString) : Event → Prop
  | .read pos count => pos + count ≤ data.bytes.length
  | .computed value bits => 0 ≤ value ∧ value < 2 ^ bits

/-- A computation reads inside the string, and its numbers do not wrap around. -/
def Contained {σ α : Type} (data : StdString) (x : Traced σ Exit Event α) (s : σ) : Prop :=
  Traced.Guarded (Event.Ok data) (· = .crash) x s

/-! ## The condition -/

/-- A number of four bytes in the data, in the byte order of the data. -/
def wordAt (data : StdString) (order : Bool) (p : Nat) : Nat :=
  orderedWord order ((data.bytes.drop p).take 4)

/-- If there is a number of four bytes from `p` on, it is as `k` says, and so is what is behind it. -/
def AtWord (data : StdString) (order : Bool) (p : Nat) (k : Nat → Nat → Prop) : Prop :=
  alignUp 4 p + 4 ≤ data.bytes.length → k (wordAt data order (alignUp 4 p)) (alignUp 4 p + 4)

/-- A string has a length field that is not zero; `k` is about what is behind the string. -/
def StringField (data : StdString) (order : Bool) (p : Nat) (k : Nat → Prop) : Prop :=
  AtWord data order p fun n p => n ≠ 0 ∧ (p + n ≤ data.bytes.length → k (p + n))

def OctetField (data : StdString) (order : Bool) (p : Nat) (k : Nat → Prop) : Prop :=
  AtWord data order p fun n p => p + n ≤ data.bytes.length → k (p + n)

/-- A number of elements is less than 2^29. -/
def CountField (data : StdString) (order : Bool) (p : Nat) : Prop :=
  AtWord data order p fun n _ => n < 2 ^ 29

/-- The data starts with a byte order. -/
def Flagged (data : StdString) (k : Bool → Prop) : Prop :=
  ∀ order : Bool, data.bytes.head? = some (if order then 1 else 0) → k order

def IorFields (data : StdString) : Prop :=
  Flagged data fun order => StringField data order 1 (CountField data order)

def ComponentFields (data : StdString) : Prop :=
  Flagged data fun order => CountField data order 1

/-- The fields of a body whose version is known. -/
def BodyFields (data : StdString) : Prop :=
  Flagged data fun order => 3 ≤ data.bytes.length → data.bytes.getD 1 0 = 1 →
    data.bytes.getD 2 0 ≤ 3 → StringField data order 3 fun p =>
      alignUp 2 p + 2 ≤ data.bytes.length → OctetField data order (alignUp 2 p + 2) fun p =>
        1 ≤ data.bytes.getD 2 0 → CountField data order p

/-! ## Steps -/

section

variable {σ α : Type} {native : Bool} {data : StdString} {c : Cursor σ} {n m bits : Nat}

theorem contained_compute_bind {value : Int} {f : Nat → Fill σ α} :
    Contained data (Fill.compute bits value >>= f) c ↔
      (0 ≤ value ∧ value < 2 ^ bits) ∧ Contained data (f value.toNat) c := by
  unfold Contained Fill.compute
  rw [Traced.bind_assoc, Traced.guarded_report_bind]
  refine and_congr_right fun h => ?_
  rw [Traced.pure_bind, Int.emod_eq_of_lt h.1 h.2]

theorem contained_room_bind (hn : c.pos + n < 2 ^ 64) {f : Unit → Fill σ α} :
    Contained data (Fill.room data n >>= f) c ↔
      (c.pos + n ≤ data.bytes.length → Contained data (f ()) c) := by
  unfold Fill.room
  rw [Traced.bind_assoc]
  refine Traced.guarded_read_bind.trans ?_
  rw [Traced.bind_assoc]
  have hsum : ((c.pos : Int) + n).toNat = c.pos + n := by omega
  refine contained_compute_bind.trans ?_
  rw [hsum]
  have hok : 0 ≤ (c.pos : Int) + n ∧ (c.pos : Int) + n < 2 ^ 64 := by omega
  rw [and_iff_right hok]
  by_cases hlen : data.bytes.length < c.pos + n
  · rw [if_pos hlen]
    refine iff_of_true ?_ fun h => absurd hlen (Nat.not_lt.mpr h)
    exact Traced.guarded_raise.mpr fun h => by cases h
  · rw [if_neg hlen, Traced.pure_bind]
    exact ⟨fun h _ => h, fun h => h (Nat.not_lt.mp hlen)⟩

theorem contained_readData_bind {f : Bytes → Fill σ α} :
    Contained data (Fill.readData data n >>= f) c ↔
      c.pos + n ≤ data.bytes.length ∧ Contained data (f ((data.bytes.drop c.pos).take n)) c := by
  unfold Fill.readData
  rw [Traced.bind_assoc]
  refine Traced.guarded_read_bind.trans ?_
  rw [Traced.bind_assoc]
  refine Traced.guarded_report_bind.trans ?_
  refine and_congr_right fun h => ?_
  have hlen : ¬data.bytes.length < c.pos + n := Nat.not_lt.mpr h
  rw [if_neg hlen]
  exact Iff.rfl

theorem contained_change_bind {g : Cursor σ → Cursor σ} {f : Unit → Fill σ α} :
    Contained data (Traced.change g >>= f) c ↔ Contained data (f ()) (g c) := Traced.guarded_change_bind

theorem contained_align_bind (hm : 0 < m) (hsum : c.pos + m ≤ 2 ^ 64) {f : Unit → Fill σ α} :
    Contained data (Fill.align m >>= f) c ↔ Contained data (f ()) { c with pos := alignUp m c.pos } := by
  unfold Fill.align
  rw [Traced.bind_assoc]
  refine Traced.guarded_read_bind.trans ?_
  rw [Traced.bind_assoc]
  refine contained_compute_bind.trans ?_
  have hok : 0 ≤ (c.pos : Int) + m - 1 ∧ (c.pos : Int) + m - 1 < 2 ^ 64 := by omega
  have htoNat : ((c.pos : Int) + m - 1).toNat = c.pos + m - 1 := by omega
  rw [and_iff_right hok, htoNat]
  exact contained_change_bind

theorem alignUp_lt (hm : 0 < m) (p : Nat) : alignUp m p < p + m := by
  have hle := Nat.mul_div_le (p + m - 1) m
  unfold alignUp
  omega

/-- The bytes of a number, in the byte order of the data. -/
theorem orderedWord_order {swap : Bytes → Bytes} {b : Bytes} (hswap : swap b = b.reverse)
    (order : Bool) : orderedWord native (if order = native then b else swap b) = orderedWord order b := by
  by_cases h : order = native
  · rw [if_pos h, h]
  · have hnot : native = !order := by cases order <;> cases native <;> trivial
    rw [if_neg h, hswap, hnot, orderedWord_not]

/-- **A number** is read inside the string. -/
theorem contained_getNumber_bind {swap : Bytes → Bytes} (hn : 0 < n) (hn8 : n ≤ 8)
    (hswap : ∀ b : Bytes, b.length = n → swap b = b.reverse) (hpos : c.pos ≤ data.bytes.length)
    {f : Nat → Fill σ α} :
    Contained data (Fill.getNumber native data swap n >>= f) c ↔
      (alignUp n c.pos + n ≤ data.bytes.length →
        Contained data (f (orderedWord c.order ((data.bytes.drop (alignUp n c.pos)).take n)))
          { c with pos := alignUp n c.pos + n }) := by
  have hshort := data.short
  have halign := alignUp_lt hn c.pos
  unfold Fill.getNumber
  rw [Traced.bind_assoc]
  refine (contained_align_bind hn (by omega)).trans ?_
  rw [Traced.bind_assoc]
  refine (contained_room_bind (show alignUp n c.pos + n < 2 ^ 64 by omega)).trans ?_
  refine imp_congr_right fun hroom => ?_
  rw [Traced.bind_assoc]
  refine contained_readData_bind.trans ?_
  rw [and_iff_right hroom, Traced.bind_assoc]
  refine contained_change_bind.trans ?_
  rw [Traced.bind_assoc]
  refine Traced.guarded_read_bind.trans ?_
  rw [Traced.pure_bind, orderedWord_order]
  · exact Iff.rfl
  · refine hswap _ ?_
    rw [List.length_take, List.length_drop]
    exact Nat.min_eq_left (by omega)

theorem contained_getULong_bind (hpos : c.pos ≤ data.bytes.length) {f : Nat → Fill σ α} :
    Contained data (Fill.getULong native data >>= f) c ↔
      AtWord data c.order c.pos fun n p => Contained data (f n) { c with pos := p } :=
  contained_getNumber_bind (by decide) (by decide) (fun _ _ => rfl) hpos

theorem wordAt_lt (data : StdString) (order : Bool) (p : Nat) : wordAt data order p < 2 ^ 32 := by
  have hlt := orderedWord_lt order ((data.bytes.drop p).take 4)
  have hlen : ((data.bytes.drop p).take 4).length ≤ 4 := List.length_take_le _ _
  exact Nat.lt_of_lt_of_le hlt (Nat.pow_le_pow_right (by decide) hlen)

/-- **A string** whose length field is not zero is read inside the data. -/
theorem contained_getString_bind (hpos : c.pos ≤ data.bytes.length) {f : Bytes → Fill σ α} :
    Contained data (Fill.getString native data >>= f) c ↔
      AtWord data c.order c.pos fun n p => n ≠ 0 ∧ (p + n ≤ data.bytes.length →
        Contained data (f ((data.bytes.drop p).take (n - 1))) { c with pos := p + n }) := by
  have hshort := data.short
  unfold Fill.getString
  rw [Traced.bind_assoc]
  refine (contained_getULong_bind hpos).trans (imp_congr_right fun hword => ?_)
  have hn := wordAt_lt data c.order (alignUp 4 c.pos)
  generalize wordAt data c.order (alignUp 4 c.pos) = n at hn
  dsimp only
  rw [Traced.bind_assoc]
  refine (contained_room_bind (show alignUp 4 c.pos + 4 + n < 2 ^ 64 by omega)).trans ?_
  have hcompute : Contained data ((do
        let count ← Fill.compute 32 (n - 1)
        let value ← Fill.readData data count
        Fill.advance n
        return value) >>= f) { c with pos := alignUp 4 c.pos + 4 } ↔
      (0 ≤ (n : Int) - 1 ∧ (n : Int) - 1 < 2 ^ 32) ∧
        alignUp 4 c.pos + 4 + ((n : Int) - 1).toNat ≤ data.bytes.length ∧
        Contained data (f ((data.bytes.drop (alignUp 4 c.pos + 4)).take ((n : Int) - 1).toNat))
          { c with pos := alignUp 4 c.pos + 4 + n } := by
    rw [Traced.bind_assoc]
    refine contained_compute_bind.trans (and_congr_right fun _ => ?_)
    rw [Traced.bind_assoc]
    refine contained_readData_bind.trans (and_congr_right fun _ => ?_)
    rw [Traced.bind_assoc]
    exact contained_change_bind
  refine (imp_congr_right fun _ => hcompute).trans ?_
  have hpred : ((n : Int) - 1).toNat = n - 1 := by omega
  rw [hpred]
  constructor
  · intro h
    have hne : n ≠ 0 := by
      rintro rfl
      have hneg := (h hword).1.1
      omega
    exact ⟨hne, fun hroom => (h hroom).2.2⟩
  · rintro ⟨hne, h⟩ hroom
    have hinside : alignUp 4 c.pos + 4 + n ≤ data.bytes.length := hroom
    exact ⟨by omega, by omega, h hroom⟩

theorem contained_getOctetSeq_bind (hpos : c.pos ≤ data.bytes.length) {f : Bytes → Fill σ α} :
    Contained data (Fill.getOctetSeq native data >>= f) c ↔
      AtWord data c.order c.pos fun n p => p + n ≤ data.bytes.length →
        Contained data (f ((data.bytes.drop p).take n)) { c with pos := p + n } := by
  have hshort := data.short
  unfold Fill.getOctetSeq
  rw [Traced.bind_assoc]
  refine (contained_getULong_bind hpos).trans (imp_congr_right fun hword => ?_)
  have hn := wordAt_lt data c.order (alignUp 4 c.pos)
  generalize wordAt data c.order (alignUp 4 c.pos) = n at hn
  dsimp only
  rw [Traced.bind_assoc]
  refine (contained_room_bind (show alignUp 4 c.pos + 4 + n < 2 ^ 64 by omega)).trans ?_
  refine imp_congr_right fun hroom => ?_
  rw [Traced.bind_assoc]
  refine contained_readData_bind.trans ?_
  rw [and_iff_right hroom, Traced.bind_assoc]
  exact contained_change_bind

theorem contained_getOctet_bind (hpos : c.pos ≤ data.bytes.length) {f : UInt8 → Fill σ α} :
    Contained data (Fill.getOctet data >>= f) c ↔ (c.pos + 1 ≤ data.bytes.length →
      Contained data (f (((data.bytes.drop c.pos).take 1).headD 0)) { c with pos := c.pos + 1 }) := by
  have hshort := data.short
  unfold Fill.getOctet
  rw [Traced.bind_assoc]
  refine (contained_room_bind (by omega)).trans (imp_congr_right fun hroom => ?_)
  rw [Traced.bind_assoc]
  refine contained_readData_bind.trans ?_
  rw [and_iff_right hroom, Traced.bind_assoc]
  exact contained_change_bind

/-! ## Vectors -/

variable {modify : (List Tagged → List Tagged) → σ → σ}

/-- Profiles and components are read inside the data. -/
theorem contained_taggedLoop : ∀ (k pi : Nat) {c : Cursor σ}, c.pos ≤ data.bytes.length →
    Contained data (Fill.taggedLoop native data modify k pi) c
  | 0, _, _, _ => Traced.guarded_pure ()
  | k + 1, pi, c, hpos => by
    rw [Fill.taggedLoop]
    refine (contained_getULong_bind hpos).mpr fun hword => ?_
    refine contained_change_bind.mpr ?_
    refine (contained_getOctetSeq_bind hword).mpr fun _ hroom => ?_
    exact contained_change_bind.mpr (contained_taggedLoop k (pi + 1) hroom)

/-- **A vector** is read inside the data if the number of its elements is less than 2^29. -/
theorem contained_taggedSeq (hpos : c.pos ≤ data.bytes.length) :
    Contained data (Fill.taggedSeq native data modify) c ↔ CountField data c.order c.pos := by
  unfold Fill.taggedSeq
  refine (contained_getULong_bind hpos).trans (imp_congr_right fun hword => ?_)
  generalize wordAt data c.order (alignUp 4 c.pos) = n
  refine contained_compute_bind.trans ?_
  constructor
  · rintro ⟨⟨-, hn⟩, -⟩
    omega
  · intro hn
    refine ⟨by omega, ?_⟩
    unfold Fill.remainingData
    rw [Traced.bind_assoc]
    refine Traced.guarded_read_bind.mpr ?_
    rw [Traced.pure_bind]
    by_cases hcheck : Fill.remaining data (alignUp 4 c.pos + 4) < ((n : Int) * 8).toNat
    · rw [if_pos hcheck]
      exact Traced.guarded_raise.mpr fun h => by cases h
    · rw [if_neg hcheck]
      exact contained_change_bind.mpr (contained_taggedLoop n 0 hword)

/-! ## Objects -/

/-- The flag at the start of the data. -/
theorem contained_byteorder_bind {object : σ} {f : Unit → Fill σ α} :
    Contained data (Fill.byteorder data >>= f) ⟨0, native, object⟩ ↔
      Flagged data fun order => Contained data (f ()) ⟨1, order, object⟩ := by
  have hset (bo : Bool) : Contained data ((do
        Fill.advance 1
        return bo) >>= fun bo => Traced.change (fun c => { c with order := bo }) >>= f)
      ⟨0, native, object⟩ ↔ Contained data (f ()) ⟨1, bo, object⟩ := by
    rw [Traced.bind_assoc]
    refine contained_change_bind.trans ?_
    rw [Traced.pure_bind]
    exact contained_change_bind
  unfold Fill.byteorder Fill.getBoolean Flagged
  rw [Traced.bind_assoc, Traced.bind_assoc]
  refine (contained_room_bind (show 0 + 1 < 2 ^ 64 by decide)).trans ?_
  dsimp only
  rw [Traced.bind_assoc]
  refine (imp_congr_right fun _ => contained_readData_bind).trans ?_
  dsimp only
  rw [List.drop_zero]
  cases hbytes : data.bytes with
  | nil =>
    refine iff_of_true (fun h => absurd h (by decide)) fun order h => ?_
    cases h
  | cons b rest =>
    have htake : (b :: rest).take 1 = [b] := rfl
    have hroom : 0 + 1 ≤ (b :: rest).length := Nat.le_add_left _ _
    rw [htake, forall_prop_of_true hroom, and_iff_right hroom]
    by_cases hzero : b = 0
    · subst hzero
      rw [if_pos rfl]
      refine (hset false).trans ⟨fun h order ho => ?_, fun h => h false rfl⟩
      cases order with
      | false => exact h
      | true => cases ho
    · have hnot : ¬[b] = [0] := fun h => hzero (List.cons.inj h).1
      rw [if_neg hnot]
      by_cases hone : b = 1
      · subst hone
        rw [if_pos rfl]
        refine (hset true).trans ⟨fun h order ho => ?_, fun h => h true rfl⟩
        cases order with
        | false => cases ho
        | true => exact h
      · have hnot' : ¬[b] = [1] := fun h => hone (List.cons.inj h).1
        rw [if_neg hnot']
        refine iff_of_true (Traced.guarded_raise.mpr fun h => by cases h) fun order ho => ?_
        cases order with
        | false => exact absurd (Option.some.inj ho) hzero
        | true => exact absurd (Option.some.inj ho) hone

/-- The handler of an exception reads nothing. -/
theorem contained_decodeInto {fill : Fill σ Unit} {clear : σ → σ} {object : σ} :
    Contained data (Fill.decodeInto native fill clear) object ↔ Contained data fill ⟨0, native, object⟩ := by
  have hiff : ∀ {log log' : List Event} {r r' : Except Exit Unit}, log = log' →
      (r = .error .crash ↔ r' = .error .crash) →
      ((∀ e ∈ log, e.Ok data) ∧ r ≠ .error .crash ↔ (∀ e ∈ log', e.Ok data) ∧ r' ≠ .error .crash) := by
    rintro log _ r r' rfl h
    exact and_congr_right fun _ => not_congr h
  have hform {τ : Type} {β : Type} (x : Traced τ Exit Event β) (s : τ) : Contained data x s ↔
      (∀ e ∈ (x s).1, e.Ok data) ∧ (x s).2.1 ≠ .error .crash :=
    ⟨fun h => ⟨h.events, fun hc => h.ending _ hc rfl⟩, fun h => ⟨h.1, fun e he hc => h.2 (hc ▸ he)⟩⟩
  rw [hform, hform]
  unfold Fill.decodeInto
  rcases fill ⟨0, native, object⟩ with ⟨log, ⟨⟨⟨⟩ | ⟨text⟩⟩ | ⟨⟩⟩ | ⟨⟨⟩⟩, c⟩
  all_goals exact hiff rfl (by simp)

theorem length_of_head {b : UInt8} (h : data.bytes.head? = some b) : 1 ≤ data.bytes.length := by
  cases hbytes : data.bytes with
  | nil =>
    rw [hbytes] at h
    cases h
  | cons b rest => exact Nat.le_add_left _ _

theorem contained_ior {object : IorObject} :
    Contained data (IorObject.decode native data) object ↔ IorFields data := by
  unfold IorObject.decode IorFields
  rw [contained_decodeInto]
  unfold IorObject.fill
  refine contained_byteorder_bind.trans (forall_congr' fun order => imp_congr_right fun hflag => ?_)
  refine (contained_getString_bind (length_of_head hflag)).trans (imp_congr_right fun _ => and_congr_right fun _ =>
    imp_congr_right fun hroom => ?_)
  exact contained_change_bind.trans (contained_taggedSeq hroom)

theorem contained_mcp {object : MultipleComponentProfile} :
    Contained data (MultipleComponentProfile.decodeObject native data) object ↔ ComponentFields data := by
  unfold MultipleComponentProfile.decodeObject ComponentFields
  rw [contained_decodeInto]
  unfold MultipleComponentProfile.fill
  exact contained_byteorder_bind.trans (forall_congr' fun order => imp_congr_right fun hflag =>
    contained_taggedSeq (length_of_head hflag))

theorem contained_getUShort_bind {c : Cursor σ} (hpos : c.pos ≤ data.bytes.length)
    {f : Nat → Fill σ α} :
    Contained data (Fill.getUShort native data >>= f) c ↔ (alignUp 2 c.pos + 2 ≤ data.bytes.length →
      Contained data (f (orderedWord c.order ((data.bytes.drop (alignUp 2 c.pos)).take 2)))
        { c with pos := alignUp 2 c.pos + 2 }) :=
  contained_getNumber_bind (by decide) (by decide) (fun _ _ => rfl) hpos

/-- The members behind the version. -/
theorem contained_fillBody {c : Cursor ProfileBody} (hpos : c.pos ≤ data.bytes.length) (minor : UInt8) :
    Contained data (ProfileBody.fillBody native data minor) c ↔
      StringField data c.order c.pos fun p => alignUp 2 p + 2 ≤ data.bytes.length →
        OctetField data c.order (alignUp 2 p + 2) fun p =>
          1 ≤ minor → CountField data c.order p := by
  unfold ProfileBody.fillBody
  refine (contained_getString_bind hpos).trans (imp_congr_right fun _ => and_congr_right fun _ =>
    imp_congr_right fun hhost => contained_change_bind.trans ?_)
  refine (contained_getUShort_bind hhost).trans (imp_congr_right fun hport =>
    contained_change_bind.trans ?_)
  refine (contained_getOctetSeq_bind hport).trans (imp_congr_right fun _ =>
    imp_congr_right fun hkey => contained_change_bind.trans ?_)
  unfold ProfileBody.fillComponents
  by_cases hminor : 1 ≤ minor
  · rw [if_pos hminor]
    exact (contained_taggedSeq hkey).trans ⟨fun h _ => h, fun h => h hminor⟩
  · rw [if_neg hminor]
    exact iff_of_true (Traced.guarded_change _) fun h => absurd h hminor

theorem contained_body {object : ProfileBody} :
    Contained data (ProfileBody.decodeObject native data) object ↔ BodyFields data := by
  unfold ProfileBody.decodeObject BodyFields
  rw [contained_decodeInto]
  unfold ProfileBody.fill
  refine contained_byteorder_bind.trans (forall_congr' fun order => imp_congr_right fun hflag => ?_)
  have hone := length_of_head hflag
  refine (contained_getOctet_bind hone).trans ?_
  dsimp only
  have hget (k : Nat) : ((data.bytes.drop k).take 1).headD 0 = data.bytes.getD k 0 := by
    rw [List.headD_eq_head?_getD, List.head?_take, List.head?_drop, List.getD_eq_getElem?_getD]
    rfl
  constructor
  · intro h hlen hmajor hminor
    have hafter := contained_change_bind.mp (h (by omega))
    have hbody := contained_change_bind.mp ((contained_getOctet_bind (show 2 ≤ _ by omega)).mp hafter hlen)
    rw [hget, hget] at hbody
    have hknown : ¬(data.bytes.getD 1 0 ≠ 1 ∨ 3 < data.bytes.getD 2 0) := by
      rintro (h | h)
      · exact h hmajor
      · exact UInt8.not_lt.mpr hminor h
    rw [if_neg hknown] at hbody
    exact (contained_fillBody hlen _).mp hbody
  · intro h htwo
    refine contained_change_bind.mpr ((contained_getOctet_bind htwo).mpr fun hlen => ?_)
    refine contained_change_bind.mpr ?_
    dsimp only
    rw [hget, hget]
    by_cases hknown : data.bytes.getD 1 0 ≠ 1 ∨ 3 < data.bytes.getD 2 0
    · rw [if_pos hknown]
      exact Traced.guarded_raise.mpr fun h => by cases h
    · rw [if_neg hknown]
      have hmajor : data.bytes.getD 1 0 = 1 := not_ne_iff.mp fun h => hknown (Or.inl h)
      have hminor : data.bytes.getD 2 0 ≤ 3 := UInt8.not_lt.mp fun h => hknown (Or.inr h)
      exact (contained_fillBody hlen _).mpr (h hlen hmajor hminor)

/-- **The decoders stay inside the data**, and no number wraps around, exactly when the length fields of
strings are not zero and the numbers of elements are less than 2^29. -/
theorem contained_iff_fields (native : Bool) (data : StdString) :
    (∀ object, Contained data (IorObject.decode native data) object ↔ IorFields data) ∧
    (∀ object, Contained data (MultipleComponentProfile.decodeObject native data) object ↔
      ComponentFields data) ∧
    ∀ object, Contained data (ProfileBody.decodeObject native data) object ↔ BodyFields data :=
  ⟨fun _ => contained_ior, fun _ => contained_mcp, fun _ => contained_body⟩

/-- A type id whose length field is zero. -/
theorem contained_emptyString : ¬∀ (native : Bool) (data : StdString) (object : IorObject),
    Contained data (IorObject.decode native data) object := by
  intro h
  have hfields := contained_ior.mp (h true ⟨[1, 0, 0, 0, 0, 0, 0, 0], by decide⟩ ⟨[], [], []⟩)
  exact absurd (hfields true rfl (by decide)).1 (by decide)

end

end OpenCpi.Ior
