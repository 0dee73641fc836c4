import OpenCpi.Ior.Decode

/-!
# What a failed decoder leaves

The handlers of `decode` are for `InvalidData`. The exception for an unknown IIOP version passes by, and
leaves the version of the rejected data and the other members of the old object. The text that `corbaloc`
keeps in an `IOR` is not cleared by any of them.
-/

namespace OpenCpi.Ior

open Infra

/-- `decode` throws. -/
def Throws {σ : Type} (x : Traced σ Exit Event Unit) (object : σ) : Prop :=
  ∃ text, (x object).2.1 = .error (.fault (.thrown text))

/-- The object that `decode` leaves. -/
def Leaves {σ : Type} (x : Traced σ Exit Event Unit) (object : σ) : σ := (x object).2.2

/-- The data of a body with a version that is not known. -/
def UnknownVersion (data : StdString) : Prop :=
  (data.bytes.head? = some 0 ∨ data.bytes.head? = some 1) ∧ 3 ≤ data.bytes.length ∧
    (data.bytes.getD 1 0 ≠ 1 ∨ 3 < data.bytes.getD 2 0)

/-- The other exceptions that leave a `try` block, and the end of the program. -/
def Exit.Handled (e : Exit) : Prop := ∀ text, e ≠ .fault (.thrown text)

instance (data : StdString) : Decidable (UnknownVersion data) :=
  inferInstanceAs (Decidable (_ ∧ _ ∧ _))

variable {σ : Type} {native : Bool} {data : StdString} {J : σ → Prop} {c : Cursor σ} {n : Nat}

/-! ## What the steps keep -/

/-- A step keeps a condition on the object and throws `InvalidData` only. -/
def Plain {α : Type} (J : σ → Prop) (x : Fill σ α) : Prop :=
  Traced.Preserves (fun c => J c.object) Exit.Handled x

theorem plain_invalid {α : Type} : Plain J (Fill.invalid : Fill σ α) :=
  Traced.preserves_raise fun _ h => by cases h

theorem plain_compute (bits : Nat) (value : Int) : Plain J (Fill.compute bits value : Fill σ Nat) :=
  (Traced.preserves_report _).bind fun _ => Traced.preserves_pure _

theorem plain_room (n : Nat) : Plain J (Fill.room data n : Fill σ Unit) := by
  refine Traced.preserves_read.bind fun c => (plain_compute _ _).bind fun stop => ?_
  split
  · exact plain_invalid
  · exact Traced.preserves_pure _

theorem plain_readData (n : Nat) : Plain J (Fill.readData data n : Fill σ Bytes) := by
  refine Traced.preserves_read.bind fun c => (Traced.preserves_report _).bind fun _ => ?_
  split
  · exact Traced.preserves_raise fun _ h => by cases h
  · exact Traced.preserves_pure _

theorem plain_advance (n : Nat) : Plain J (Fill.advance n : Fill σ Unit) :=
  Traced.preserves_change fun _ h => h

theorem plain_align (m : Nat) : Plain J (Fill.align m : Fill σ Unit) :=
  Traced.preserves_read.bind fun _ => (plain_compute _ _).bind fun _ =>
    Traced.preserves_change fun _ h => h

theorem plain_getNumber (swap : Bytes → Bytes) (n : Nat) :
    Plain J (Fill.getNumber native data swap n : Fill σ Nat) :=
  (plain_align n).bind fun _ => (plain_room n).bind fun _ => (plain_readData n).bind fun _ =>
    (plain_advance n).bind fun _ => Traced.preserves_read.bind fun _ => Traced.preserves_pure _

theorem plain_getString : Plain J (Fill.getString native data : Fill σ Bytes) :=
  (plain_getNumber _ _).bind fun length => (plain_room length).bind fun _ =>
    (plain_compute _ _).bind fun count => (plain_readData count).bind fun _ =>
      (plain_advance length).bind fun _ => Traced.preserves_pure _

theorem plain_getOctetSeq : Plain J (Fill.getOctetSeq native data : Fill σ Bytes) :=
  (plain_getNumber _ _).bind fun length => (plain_room length).bind fun _ =>
    (plain_readData length).bind fun _ => (plain_advance length).bind fun _ => Traced.preserves_pure _

theorem plain_assign {f : σ → σ} (h : ∀ o, J o → J (f o)) : Plain J (Fill.assign f : Fill σ Unit) :=
  Traced.preserves_change fun c hc => h c.object hc

theorem plain_getBoolean : Plain J (Fill.getBoolean data : Fill σ Bool) := by
  refine (plain_room 1).bind fun _ => (plain_readData 1).bind fun b => ?_
  split
  · exact (plain_advance 1).bind fun _ => Traced.preserves_pure _
  · split
    · exact (plain_advance 1).bind fun _ => Traced.preserves_pure _
    · exact plain_invalid

theorem plain_byteorder : Plain J (Fill.byteorder data : Fill σ Unit) :=
  plain_getBoolean.bind fun _ => Traced.preserves_change fun _ h => h

section

variable {modify : (List Tagged → List Tagged) → σ → σ} (hmodify : ∀ f o, J o → J (modify f o))

include hmodify

theorem plain_taggedLoop : ∀ k pi : Nat, Plain J (Fill.taggedLoop native data modify k pi)
  | 0, _ => Traced.preserves_pure ()
  | k + 1, pi =>
    (plain_getNumber _ _).bind fun _ => (plain_assign (hmodify _)).bind fun _ =>
      plain_getOctetSeq.bind fun _ => (plain_assign (hmodify _)).bind fun _ => plain_taggedLoop k (pi + 1)

theorem plain_taggedSeq : Plain J (Fill.taggedSeq native data modify) := by
  refine (plain_getNumber _ _).bind fun n => (plain_compute _ _).bind fun _ => ?_
  refine (Traced.preserves_read.bind fun _ => Traced.preserves_pure _).bind fun _ => ?_
  split
  · exact plain_invalid
  · exact (plain_assign (hmodify _)).bind fun _ => plain_taggedLoop hmodify n 0

end

/-! ## The handlers -/

/-- An exception that leaves `decode` is from the handler, unless the version is not known. -/
theorem leaves_cleared {fill : Fill σ Unit} {clear : σ → σ} {object : σ} (h : Plain J fill)
    (hobject : J object) (ht : Throws (Fill.decodeInto native fill clear) object) :
    ∃ o, J o ∧ Leaves (Fill.decodeInto native fill clear) object = clear o := by
  obtain ⟨hJ, hQ⟩ := h ⟨0, native, object⟩ hobject
  obtain ⟨text, ht⟩ := ht
  unfold Leaves
  unfold Fill.decodeInto at ht ⊢
  rcases hr : fill ⟨0, native, object⟩ with ⟨log, ⟨⟨⟨⟩ | ⟨text'⟩⟩ | ⟨⟩⟩ | ⟨⟨⟩⟩, c⟩
  · rw [hr] at hJ
    exact ⟨c.object, hJ, rfl⟩
  · rw [hr] at hQ
    exact absurd rfl (hQ _ rfl text')
  · rw [hr] at ht
    cases ht
  · rw [hr] at ht
    cases ht

theorem plain_iorFill {J : IorObject → Prop} (htype : ∀ o id, J o → J { o with typeId := id })
    (hprofiles : ∀ (f : List Tagged → List Tagged) o, J o → J { o with profiles := f o.profiles }) :
    Plain J (IorObject.fill native data) :=
  plain_byteorder.bind fun _ => plain_getString.bind fun _ =>
    (plain_assign fun o => htype o _).bind fun _ => plain_taggedSeq hprofiles

theorem plain_mcpFill {J : MultipleComponentProfile → Prop}
    (hcomponents : ∀ (f : List Tagged → List Tagged) o, J o → J { o with components := f o.components }) :
    Plain J (MultipleComponentProfile.fill native data) :=
  plain_byteorder.bind fun _ => plain_taggedSeq hcomponents

theorem leaves_ior {object : IorObject} (ht : Throws (IorObject.decode native data) object) :
    Leaves (IorObject.decode native data) object = ⟨[], [], object.corbaloc⟩ := by
  have hfill : Plain (fun o => o.corbaloc = object.corbaloc) (IorObject.fill native data) :=
    plain_iorFill (fun _ _ h => h) fun _ _ h => h
  obtain ⟨o, ho, hleaves⟩ := leaves_cleared hfill rfl ht
  rw [← ho]
  exact hleaves

theorem leaves_mcp {object : MultipleComponentProfile}
    (ht : Throws (MultipleComponentProfile.decodeObject native data) object) :
    Leaves (MultipleComponentProfile.decodeObject native data) object = ⟨[]⟩ := by
  have hfill : Plain (fun _ => True) (MultipleComponentProfile.fill native data) :=
    plain_mcpFill fun _ _ h => h
  obtain ⟨o, -, hleaves⟩ := leaves_cleared hfill trivial ht
  exact hleaves

/-! ## The version of a body -/

theorem end_room (hn : c.pos + n < 2 ^ 64) : (Fill.room data n c).2 =
    (if data.bytes.length < c.pos + n then .error (.fault .invalidData) else .ok (), c) := by
  have hsum : (((c.pos : Int) + n) % 2 ^ 64).toNat = c.pos + n := by omega
  have hrun : (Fill.room data n c).2 =
      ((if data.bytes.length < (((c.pos : Int) + n) % 2 ^ 64).toNat then Fill.invalid
        else pure () : Fill σ Unit) c).2 := rfl
  rw [hrun, hsum]
  by_cases h : data.bytes.length < c.pos + n
  · rw [if_pos h, if_pos h]
    rfl
  · rw [if_neg h, if_neg h]
    rfl

theorem end_readData (h : c.pos + n ≤ data.bytes.length) :
    (Fill.readData data n c).2 = (.ok ((data.bytes.drop c.pos).take n), c) := by
  have hrun : (Fill.readData data n c).2 =
      ((if data.bytes.length < c.pos + n then Traced.raise .crash
        else pure ((data.bytes.drop c.pos).take n) : Fill σ Bytes) c).2 := rfl
  rw [hrun, if_neg (Nat.not_lt.mpr h)]
  rfl

theorem end_getOctet (h : c.pos + 1 ≤ data.bytes.length) :
    (Fill.getOctet data c).2 = (.ok (data.bytes.getD c.pos 0), { c with pos := c.pos + 1 }) := by
  have hshort := data.short
  have hroom : (Fill.room data 1 c).2 = _ := end_room (by omega)
  rw [if_neg (Nat.not_lt.mpr h)] at hroom
  unfold Fill.getOctet
  rw [Traced.end_bind_ok hroom, Traced.end_bind_ok (end_readData h)]
  have hget : ((data.bytes.drop c.pos).take 1).headD 0 = data.bytes.getD c.pos 0 := by
    rw [List.headD_eq_head?_getD, List.head?_take, List.head?_drop, List.getD_eq_getElem?_getD]
    rfl
  rw [← hget]
  rfl

theorem end_getOctet_short (h : data.bytes.length < c.pos + 1) (hpos : c.pos ≤ data.bytes.length) :
    (Fill.getOctet data c).2 = (.error (.fault .invalidData), c) := by
  have hshort := data.short
  have hroom : (Fill.room data 1 c).2 = _ := end_room (by omega)
  rw [if_pos h] at hroom
  exact Traced.end_bind_error hroom

/-- The flag of the byte order, or `InvalidData`. -/
theorem end_byteorder (object : σ) : (∃ order, (data.bytes.head? = some 0 ∨ data.bytes.head? = some 1) ∧
      (Fill.byteorder data ⟨0, native, object⟩).2 = (.ok (), ⟨1, order, object⟩)) ∨
    (¬(data.bytes.head? = some 0 ∨ data.bytes.head? = some 1) ∧
      (Fill.byteorder data ⟨0, native, object⟩).2 =
        (.error (.fault .invalidData), ⟨0, native, object⟩)) := by
  have hroom : (Fill.room data 1 ⟨0, native, object⟩).2 = _ := end_room (show 0 + 1 < 2 ^ 64 by decide)
  unfold Fill.byteorder
  cases hbytes : data.bytes with
  | nil =>
    rw [hbytes, if_pos (show ([] : Bytes).length < 0 + 1 by decide)] at hroom
    refine Or.inr ⟨fun h => ?_, ?_⟩
    · rcases h with h | h <;> cases h
    · exact Traced.end_bind_error (Traced.end_bind_error hroom)
  | cons b rest =>
    have hlen : 0 + 1 ≤ data.bytes.length := by
      rw [hbytes]
      exact Nat.le_add_left _ _
    rw [if_neg (Nat.not_lt.mpr hlen)] at hroom
    have hread : (Fill.readData data 1 ⟨0, native, object⟩).2 = (.ok [b], ⟨0, native, object⟩) := by
      rw [end_readData hlen, hbytes]
      rfl
    have hboolean : (Fill.getBoolean data ⟨0, native, object⟩).2 =
        ((if [b] = [0] then do
            Fill.advance 1
            return false
          else if [b] = [1] then do
            Fill.advance 1
            return true
          else Fill.invalid : Fill σ Bool) ⟨0, native, object⟩).2 := by
      unfold Fill.getBoolean
      rw [Traced.end_bind_ok hroom, Traced.end_bind_ok hread]
    by_cases hzero : b = 0
    · subst hzero
      refine Or.inl ⟨false, Or.inl rfl, ?_⟩
      rw [if_pos rfl] at hboolean
      rw [Traced.end_bind_ok (a := false) (t := ⟨1, native, object⟩) hboolean]
      rfl
    · rw [if_neg (fun h => hzero (List.cons.inj h).1)] at hboolean
      by_cases hone : b = 1
      · subst hone
        refine Or.inl ⟨true, Or.inr rfl, ?_⟩
        rw [if_pos rfl] at hboolean
        rw [Traced.end_bind_ok (a := true) (t := ⟨1, native, object⟩) hboolean]
        rfl
      · rw [if_neg (fun h => hone (List.cons.inj h).1)] at hboolean
        refine Or.inr ⟨?_, Traced.end_bind_error hboolean⟩
        rintro (h | h)
        · exact hzero (Option.some.inj h)
        · exact hone (Option.some.inj h)

theorem plain_fillComponents {J : ProfileBody → Prop} (h : ∀ o, J o) (minor : UInt8) :
    Plain J (ProfileBody.fillComponents native data minor) := by
  unfold ProfileBody.fillComponents
  split
  · exact plain_taggedSeq fun _ o _ => h _
  · exact plain_assign fun _ _ => h _

theorem plain_fillBody {J : ProfileBody → Prop} (h : ∀ o, J o) (minor : UInt8) :
    Plain J (ProfileBody.fillBody native data minor) :=
  plain_getString.bind fun _ => (plain_assign fun _ _ => h _).bind fun _ =>
    (plain_getNumber _ _).bind fun _ => (plain_assign fun _ _ => h _).bind fun _ =>
      plain_getOctetSeq.bind fun _ => (plain_assign fun _ _ => h _).bind fun _ =>
        plain_fillComponents h minor

/-- The version decides whether the rest is decoded. -/
theorem end_bodyFill (body : ProfileBody) :
    (UnknownVersion data ∧ ∃ order, (ProfileBody.fill native data ⟨0, native, body⟩).2 =
      (.error (.fault (.thrown "unknown IIOP version")),
        ⟨3, order, { body with major := data.bytes.getD 1 0, minor := data.bytes.getD 2 0 }⟩)) ∨
    (¬UnknownVersion data ∧ ∀ e,
      (ProfileBody.fill native data ⟨0, native, body⟩).2.1 = .error e → e.Handled) := by
  have hfault {e : Exit} {s : Cursor ProfileBody}
      (h : (ProfileBody.fill native data ⟨0, native, body⟩).2 = (.error (.fault .invalidData), s))
      (he : (ProfileBody.fill native data ⟨0, native, body⟩).2.1 = .error e) : e.Handled := by
    rw [h] at he
    cases he
    exact fun _ h => by cases h
  unfold ProfileBody.fill at hfault ⊢
  have hbyteorder : (∃ order, (data.bytes.head? = some 0 ∨ data.bytes.head? = some 1) ∧
      (Fill.byteorder data ⟨0, native, body⟩).2 = (.ok (), ⟨1, order, body⟩)) ∨ _ := end_byteorder body
  rcases hbyteorder with ⟨order, hflag, hend⟩ | ⟨hflag, hend⟩
  · have hone : 1 ≤ data.bytes.length := by
      cases hbytes : data.bytes with
      | nil =>
        rw [hbytes] at hflag
        rcases hflag with h | h <;> cases h
      | cons b rest => exact Nat.le_add_left _ _
    by_cases htwo : data.bytes.length < 2
    · refine Or.inr ⟨fun h => by have := h.2.1; omega,
        fun e he => hfault (s := ⟨1, order, body⟩) ?_ he⟩
      rw [Traced.end_bind_ok hend]
      exact Traced.end_bind_error (end_getOctet_short htwo hone)
    have hmajor : (Fill.getOctet data ⟨1, order, body⟩).2 = _ := end_getOctet (Nat.not_lt.mp htwo)
    by_cases hthree : data.bytes.length < 3
    · refine Or.inr ⟨fun h => by have := h.2.1; omega, fun e he =>
        hfault (s := ⟨2, order, { body with major := data.bytes.getD 1 0 }⟩) ?_ he⟩
      rw [Traced.end_bind_ok hend, Traced.end_bind_ok hmajor]
      refine (Traced.end_bind_ok (a := ()) (t := ⟨2, order, { body with major := data.bytes.getD 1 0 }⟩)
        rfl).trans ?_
      exact Traced.end_bind_error (end_getOctet_short hthree (Nat.not_lt.mp htwo))
    have hminor : (Fill.getOctet data
        ⟨2, order, { body with major := data.bytes.getD 1 0 }⟩).2 = _ := end_getOctet (Nat.not_lt.mp hthree)
    have hrun : (ProfileBody.fill native data ⟨0, native, body⟩).2 =
        ((if data.bytes.getD 1 0 ≠ 1 ∨ 3 < data.bytes.getD 2 0 then
            Traced.raise (.fault (.thrown "unknown IIOP version"))
          else ProfileBody.fillBody native data (data.bytes.getD 2 0) : Fill ProfileBody Unit)
          ⟨3, order, { body with major := data.bytes.getD 1 0, minor := data.bytes.getD 2 0 }⟩).2 := by
      unfold ProfileBody.fill
      rw [Traced.end_bind_ok hend, Traced.end_bind_ok hmajor]
      refine (Traced.end_bind_ok (a := ()) (t := ⟨2, order, { body with major := data.bytes.getD 1 0 }⟩)
        rfl).trans ?_
      rw [Traced.end_bind_ok hminor]
      rfl
    unfold ProfileBody.fill at hrun
    rw [hrun]
    by_cases hunknown : data.bytes.getD 1 0 ≠ 1 ∨ 3 < data.bytes.getD 2 0
    · refine Or.inl ⟨⟨hflag, Nat.not_lt.mp hthree, hunknown⟩, order, ?_⟩
      rw [if_pos hunknown]
      rfl
    · refine Or.inr ⟨fun h => hunknown h.2.2, fun e he => ?_⟩
      rw [if_neg hunknown] at he
      exact (plain_fillBody (fun _ => trivial) _ _ trivial).2 e he
  · exact Or.inr ⟨fun h => hflag h.1, fun e he => hfault (Traced.end_bind_error hend) he⟩

/-- **A body that cannot be decoded** is left as the handler leaves it, or with an unknown version. -/
theorem leaves_body {body : ProfileBody} (ht : Throws (ProfileBody.decodeObject native data) body) :
    Leaves (ProfileBody.decodeObject native data) body =
      if UnknownVersion data then
        { body with major := data.bytes.getD 1 0, minor := data.bytes.getD 2 0 }
      else ProfileBody.cleared := by
  obtain ⟨text, ht⟩ := ht
  unfold Leaves
  unfold ProfileBody.decodeObject Fill.decodeInto at ht ⊢
  have hfill : (UnknownVersion data ∧ ∃ order, (ProfileBody.fill native data ⟨0, native, body⟩).2 = _) ∨
      _ := end_bodyFill body
  rcases hfill with ⟨hunknown, order, hend⟩ | ⟨hknown, hend⟩
  · rw [if_pos hunknown]
    rcases hr : ProfileBody.fill native data ⟨0, native, body⟩ with ⟨log, r⟩
    rw [hr] at hend
    cases hend
    rfl
  · rw [if_neg hknown]
    rcases hr : ProfileBody.fill native data ⟨0, native, body⟩ with ⟨log, ⟨⟨⟨⟩ | ⟨text'⟩⟩ | ⟨⟩⟩ | ⟨⟨⟩⟩, c⟩
    · rfl
    · rw [hr] at hend
      exact absurd rfl (hend _ rfl text')
    · rw [hr] at ht
      cases ht
    · rw [hr] at ht
      cases ht

/-- **A failed decoder leaves a cleared object**, except for the text kept by `corbaloc` and for bodies
of an unknown version. -/
theorem cleared_iff (native : Bool) (data : StdString) :
    (∀ ior, Throws (IorObject.decode native data) ior →
      (Leaves (IorObject.decode native data) ior = ⟨[], [], []⟩ ↔ ior.corbaloc = [])) ∧
    (∀ p, Throws (MultipleComponentProfile.decodeObject native data) p →
      Leaves (MultipleComponentProfile.decodeObject native data) p = ⟨[]⟩) ∧
    ∀ body, Throws (ProfileBody.decodeObject native data) body →
      (Leaves (ProfileBody.decodeObject native data) body = ProfileBody.cleared ↔
        (UnknownVersion data → data.bytes.getD 1 0 = 0 ∧ data.bytes.getD 2 0 = 0 ∧
          { body with major := 0, minor := 0 } = ProfileBody.cleared)) := by
  refine ⟨fun ior ht => ?_, fun p ht => leaves_mcp ht, fun body ht => ?_⟩
  · rw [leaves_ior ht]
    exact ⟨fun h => (IorObject.mk.inj h).2.2, fun h => by rw [h]⟩
  · rw [leaves_body ht]
    by_cases hunknown : UnknownVersion data
    · rw [if_pos hunknown, forall_prop_of_true hunknown]
      constructor
      · intro h
        have hmajor := congrArg ProfileBody.major h
        have hminor := congrArg ProfileBody.minor h
        refine ⟨hmajor, hminor, ?_⟩
        rw [← h]
        exact congrArg₂ (fun major minor => { body with major, minor }) hmajor.symm hminor.symm
      · rintro ⟨hmajor, hminor, h⟩
        rw [hmajor, hminor]
        exact h
    · rw [if_neg hunknown]
      exact iff_of_true rfl fun h => absurd h hunknown

/-- Data that ends within the first profile, within the first component or behind the port clears the
object; a version that is not known leaves the old host, port and key. -/
theorem cleared_samples :
    Leaves (IorObject.decode true ⟨[1, 0, 0, 0, 2, 0, 0, 0, 65, 0, 0, 0, 1, 0, 0, 0, 0, 0], by decide⟩)
        ⟨[66], [⟨0, [1]⟩], []⟩ = ⟨[], [], []⟩ ∧
    Leaves (MultipleComponentProfile.decodeObject true ⟨[1, 0, 0, 0, 1, 0, 0, 0, 5, 0], by decide⟩)
        ⟨[⟨0, [1]⟩]⟩ = ⟨[]⟩ ∧
    Leaves (ProfileBody.decodeObject true ⟨[1, 1, 1, 0, 2, 0, 0, 0, 104, 0, 80, 0], by decide⟩)
        ⟨1, 0, [104], 80, [5], []⟩ = ProfileBody.cleared ∧
    Leaves (ProfileBody.decodeObject true ⟨[1, 2, 0], by decide⟩) ⟨1, 0, [104], 80, [5], []⟩ ≠
      ProfileBody.cleared := by
  refine ⟨?_, ?_, ?_, fun hcleared => ?_⟩
  · exact ((cleared_iff true _).1 ⟨[66], [⟨0, [1]⟩], []⟩ ⟨"invalid data", rfl⟩).mpr rfl
  · exact (cleared_iff true _).2.1 ⟨[⟨0, [1]⟩]⟩ ⟨"invalid data", rfl⟩
  · exact ((cleared_iff true _).2.2 ⟨1, 0, [104], 80, [5], []⟩ ⟨"invalid data", rfl⟩).mpr
      fun hunknown => absurd hunknown (by decide)
  · have hempty := (((cleared_iff true _).2.2 ⟨1, 0, [104], 80, [5], []⟩
      ⟨"unknown IIOP version", rfl⟩).mp hcleared (by decide)).1
    exact absurd hempty (by decide)

/-- A body of version 2.0 is rejected and keeps the host, the port and the key of the old object. -/
theorem uncleared_body : ¬∀ (native : Bool) (data : StdString) (body : ProfileBody),
    Throws (ProfileBody.decodeObject native data) body →
      Leaves (ProfileBody.decodeObject native data) body = ProfileBody.cleared := by
  intro h
  have hcleared := h true ⟨[1, 2, 0], by decide⟩ ⟨1, 0, [104], 80, [5], []⟩ ⟨"unknown IIOP version", rfl⟩
  exact absurd (congrArg ProfileBody.host hcleared) (by decide)

end OpenCpi.Ior
