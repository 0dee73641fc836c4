import OpenCpi.Xfer.Factory

/-!
# Mailboxes of local endpoints

The search for a free mailbox stops at the first one that is used. So where another local endpoint
is in the table, `addCompatibleLocalEndPoint` takes its mailbox. Numbers from the counter are not
compared with anything: neither with the remote mailbox, nor with the maximum, nor with the mailboxes
of endpoints that were added by their text.

Everywhere else local endpoints have mailboxes of their own.
-/

namespace OpenCpi.Xfer

open Infra

variable {maxMailBox : Nat} {f f' : Factory} {c : Call} {e : EndPoint}

/-! ## What is asked for -/

/-- Local endpoints have different mailboxes, and are found by them. -/
structure Sound (f : Factory) : Prop where
  distinct : ∀ e ∈ f.endPoints, ∀ e' ∈ f.endPoints, e.isLocal = true → e'.isLocal = true →
    e.mailbox = e'.mailbox → e = e'
  located : ∀ e ∈ f.endPoints, e.isLocal = true → f.at e.mailbox = some e.id

/-- No local endpoint has the mailbox. -/
def Unused (f : Factory) (n : Nat) : Prop := ∀ e ∈ f.endPoints, e.isLocal = true → e.mailbox ≠ n

/-- A call leaves a sound factory, and a compatible endpoint gets a mailbox that is unused, within
the maximum and not the remote one. -/
structure CallOk (maxMailBox : Nat) (f : Factory) (c : Call) : Prop where
  returns : (f.call maxMailBox c).2 ≠ .hangs
  sound : Sound (f.call maxMailBox c).1
  chosen : ∀ name mailBox maxMb e, c = .addCompatible name mailBox maxMb →
    (f.call maxMailBox c).2 = .done (some e) →
      Unused f e.mailbox ∧ e.mailbox ≠ mailBox ∧ e.mailbox ≤ maxMailBox

/-- The next number of the counter can be used. -/
def NextFits (maxMailBox : Nat) (f : Factory) (mailBox : Nat) : Prop :=
  Unused f f.nextMailBox ∧ f.nextMailBox ≠ mailBox ∧ f.nextMailBox ≤ maxMailBox

/-- When a call does so. A local endpoint that is added by its text has an unused mailbox. For a
compatible endpoint the search meets no used mailbox, unless it throws, and the next number fits. -/
def CallCond (maxMailBox : Nat) (f : Factory) : Call → Prop
  | .getEndPoint text isLocal _ => isLocal = true → f.find text = none → Unused f text.mailbox
  | .addCompatible _ mailBox maxMb =>
    maxMb = 0 ∨ maxMb = maxMailBox →
      if mailBox = 0 then NextFits maxMailBox f mailBox
      else f.search mailBox < 2 ^ 16 ∧
        (f.search mailBox ≠ maxSystemSmbs → f.search mailBox ≤ maxMailBox →
          f.locations.length ≤ f.search mailBox ∧ NextFits maxMailBox f mailBox)
  | _ => True

/-! ## The table -/

theorem getD_setLocation (l : List (Option Nat)) (n m : Nat) (v : Option Nat) :
    (setLocation l n v).getD m none = if m = n then v else l.getD m none := by
  unfold setLocation
  by_cases hm : m = n
  · subst hm
    rw [if_pos rfl, List.getD_eq_getElem?_getD, List.getElem?_set_self]
    · rfl
    · simp only [List.length_append, List.length_replicate]
      omega
  · rw [if_neg hm, List.getD_eq_getElem?_getD, List.getElem?_set_ne (Ne.symm hm),
      List.getD_eq_getElem?_getD]
    by_cases hlen : m < l.length
    · rw [List.getElem?_append_left hlen]
    · rw [List.getElem?_append_right (Nat.le_of_not_lt hlen),
        List.getElem?_eq_none (Nat.le_of_not_lt hlen), List.getElem?_replicate]
      split <;> rfl

/-- The factory is sound, the table holds nothing else, and endpoints are told apart by their
address. -/
structure FactoryInv (f : Factory) : Prop extends Sound f where
  fresh : ∀ e ∈ f.endPoints, e.id < f.fresh
  unique : ∀ e ∈ f.endPoints, ∀ e' ∈ f.endPoints, e.id = e'.id → e = e'
  used : ∀ n id, f.at n = some id → ∃ e ∈ f.endPoints, e.isLocal = true ∧ e.mailbox = n ∧ e.id = id

theorem at_addEndPoint (text : Text) (isLocal : Bool) (n : Nat) :
    (f.addEndPoint text isLocal).1.at n =
      if isLocal = true ∧ n = text.mailbox then some f.fresh else f.at n := by
  unfold Factory.at Factory.addEndPoint
  cases isLocal with
  | false => simp
  | true =>
    show (setLocation f.locations text.mailbox (some f.fresh)).getD n none = _
    rw [getD_setLocation]
    simp

/-- **A local endpoint needs an unused mailbox.** -/
theorem unused_of_sound_addEndPoint {text : Text} {isLocal : Bool} (h : FactoryInv f)
    (hs : Sound (f.addEndPoint text isLocal).1) (hl : isLocal = true) : Unused f text.mailbox := by
  intro e he hel hmb
  have hnew : (⟨f.fresh, text, isLocal, 1⟩ : EndPoint) ∈ (f.addEndPoint text isLocal).1.endPoints :=
    List.mem_append_right _ (List.mem_singleton.mpr rfl)
  have hsame := hs.distinct e (List.mem_append_left _ he) _ hnew hel hl hmb
  have hlt := h.fresh e he
  rw [hsame] at hlt
  exact Nat.lt_irrefl _ hlt

theorem factoryInv_addEndPoint {text : Text} {isLocal : Bool} (h : FactoryInv f)
    (hu : isLocal = true → Unused f text.mailbox) : FactoryInv (f.addEndPoint text isLocal).1 := by
  have hmem : ∀ {e}, e ∈ (f.addEndPoint text isLocal).1.endPoints →
      e ∈ f.endPoints ∨ e = ⟨f.fresh, text, isLocal, 1⟩ := by
    intro e he
    rcases List.mem_append.mp he with he | he
    · exact Or.inl he
    · exact Or.inr (List.mem_singleton.mp he)
  refine ⟨⟨?_, ?_⟩, ?_, ?_, ?_⟩
  · intro e he e' he' hl hl' hmb
    rcases hmem he with he | rfl <;> rcases hmem he' with he' | rfl
    · exact h.distinct e he e' he' hl hl' hmb
    · exact absurd hmb (hu hl' e he hl)
    · exact absurd hmb.symm (hu hl e' he' hl')
    · rfl
  · intro e he hl
    rw [at_addEndPoint]
    rcases hmem he with he | rfl
    · rw [if_neg fun hc => hu hc.1 e he hl hc.2]
      exact h.located e he hl
    · rw [if_pos ⟨hl, rfl⟩]
  · intro e he
    rcases hmem he with he | rfl
    · exact Nat.lt_succ_of_lt (h.fresh e he)
    · exact Nat.lt_succ_self _
  · intro e he e' he' hid
    rcases hmem he with he | rfl <;> rcases hmem he' with he' | rfl
    · exact h.unique e he e' he' hid
    · exact absurd hid (Nat.ne_of_lt (h.fresh e he))
    · exact absurd hid.symm (Nat.ne_of_lt (h.fresh e' he'))
    · rfl
  · intro n id hat
    rw [at_addEndPoint] at hat
    split at hat
    · next hc =>
      cases hat
      exact ⟨_, List.mem_append_right _ (List.mem_singleton.mpr rfl), hc.1, hc.2.symm, rfl⟩
    · obtain ⟨e, he, hrest⟩ := h.used n id hat
      exact ⟨e, List.mem_append_left _ he, hrest⟩

theorem factoryInv_draw (h : FactoryInv f) : FactoryInv f.draw.2 := ⟨⟨h.distinct, h.located⟩, h.fresh, h.unique, h.used⟩

/-- Counting references changes nothing else. -/
theorem factoryInv_count (h : FactoryInv f) (id n : Nat) : FactoryInv (f.count id n) := by
  have hmem : ∀ {e}, e ∈ (f.count id n).endPoints → ∃ d ∈ f.endPoints,
      e = if d.id = id then { d with refCount := n } else d := by
    intro e he
    obtain ⟨d, hd, rfl⟩ := List.mem_map.mp he
    exact ⟨d, hd, rfl⟩
  have hid : ∀ d : EndPoint, (if d.id = id then { d with refCount := n } else d).id = d.id := by
    intro d
    split <;> rfl
  have hlocal : ∀ d : EndPoint,
      (if d.id = id then { d with refCount := n } else d).isLocal = d.isLocal := by
    intro d
    split <;> rfl
  have hmb : ∀ d : EndPoint,
      (if d.id = id then { d with refCount := n } else d).mailbox = d.mailbox := by
    intro d
    split <;> rfl
  refine ⟨⟨?_, ?_⟩, ?_, ?_, ?_⟩
  · intro e he e' he' hl hl' hsame
    obtain ⟨d, hd, rfl⟩ := hmem he
    obtain ⟨d', hd', rfl⟩ := hmem he'
    rw [hlocal] at hl hl'
    rw [hmb, hmb] at hsame
    rw [h.distinct d hd d' hd' hl hl' hsame]
  · intro e he hl
    obtain ⟨d, hd, rfl⟩ := hmem he
    rw [hlocal] at hl
    rw [hmb, hid]
    exact h.located d hd hl
  · intro e he
    obtain ⟨d, hd, rfl⟩ := hmem he
    rw [hid]
    exact h.fresh d hd
  · intro e he e' he' hsame
    obtain ⟨d, hd, rfl⟩ := hmem he
    obtain ⟨d', hd', rfl⟩ := hmem he'
    rw [hid, hid] at hsame
    rw [h.unique d hd d' hd' hsame]
  · intro m id' hat
    obtain ⟨d, hd, hl, hm, hi⟩ := h.used m id' hat
    exact ⟨_, List.mem_map.mpr ⟨d, hd, rfl⟩, (hlocal d).trans hl, (hmb d).trans hm, (hid d).trans hi⟩

theorem factoryInv_removeEndPoint (h : FactoryInv f) (he : e ∈ f.endPoints) :
    FactoryInv (f.removeEndPoint e) := by
  have hmem : ∀ {d}, d ∈ (f.removeEndPoint e).endPoints → d ∈ f.endPoints ∧ d.id ≠ e.id := by
    intro d hd
    obtain ⟨hd, hne⟩ := List.mem_filter.mp hd
    exact ⟨hd, by simpa using hne⟩
  have hat : ∀ n, (f.removeEndPoint e).at n =
      if e.isLocal = true ∧ n = e.mailbox then none else f.at n := by
    intro n
    unfold Factory.at Factory.removeEndPoint
    cases e.isLocal with
    | false => simp
    | true =>
      show (setLocation f.locations e.mailbox none).getD n none = _
      rw [getD_setLocation]
      simp
  refine ⟨⟨?_, ?_⟩, ?_, ?_, ?_⟩
  · exact fun d hd d' hd' => h.distinct d (hmem hd).1 d' (hmem hd').1
  · intro d hd hl
    obtain ⟨hd, hne⟩ := hmem hd
    rw [hat, if_neg]
    · exact h.located d hd hl
    · rintro ⟨hel, hmb⟩
      exact hne (by rw [h.distinct d hd e he hl hel hmb])
  · exact fun d hd => h.fresh d (hmem hd).1
  · exact fun d hd d' hd' => h.unique d (hmem hd).1 d' (hmem hd').1
  · intro n id hn
    rw [hat] at hn
    split at hn
    · cases hn
    · next hc =>
      obtain ⟨d, hd, hl, hmb, hid⟩ := h.used n id hn
      refine ⟨d, List.mem_filter.mpr ⟨hd, ?_⟩, hl, hmb, hid⟩
      rw [bne_iff_ne]
      intro hsame
      -- the endpoint itself is not in the table any more
      have heq := h.unique d hd e he hsame
      subst heq
      exact hc ⟨hl, hmb.symm⟩

/-! ## Calls -/

theorem factoryInv_release (h : FactoryInv f) (id : Nat) : FactoryInv (f.release id).1 := by
  unfold Factory.release
  split
  · next e he =>
    split
    · exact factoryInv_removeEndPoint h (List.mem_of_find?_eq_some he)
    · exact factoryInv_count h _ _
  · exact h

/-- A local endpoint is added by its text. -/
theorem getEndPoint_iff (h : FactoryInv f) (text : Text) (isLocal cantExist : Bool) :
    (Sound (f.getEndPoint text isLocal cantExist).1 ↔
      (isLocal = true → f.find text = none → Unused f text.mailbox)) ∧
    ((isLocal = true → f.find text = none → Unused f text.mailbox) →
      FactoryInv (f.getEndPoint text isLocal cantExist).1) ∧
    (f.getEndPoint text isLocal cantExist).2 ≠ .hangs := by
  unfold Factory.getEndPoint
  cases hf : f.find text with
  | some e =>
    dsimp only
    split
    · exact ⟨⟨fun _ _ => nofun, fun _ => h.toSound⟩, fun _ => h, nofun⟩
    · exact ⟨⟨fun _ _ => nofun, fun _ => (factoryInv_count h _ _).toSound⟩,
        fun _ => factoryInv_count h _ _, nofun⟩
  | none =>
    refine ⟨⟨fun hs hl _ => unused_of_sound_addEndPoint h hs hl, fun hu => ?_⟩, fun hu => ?_, nofun⟩
    · exact (factoryInv_addEndPoint h fun hl => hu hl rfl).toSound
    · exact factoryInv_addEndPoint h fun hl => hu hl rfl

/-- Where the search stops inside the table, the mailbox is used. -/
theorem used_of_search {mailBox : Nat} (h : FactoryInv f)
    (hlt : f.search mailBox < f.locations.length) : ¬Unused f (f.search mailBox) := by
  unfold Factory.search at hlt ⊢
  cases hf : ((List.range f.locations.length).filter (1 ≤ ·)).find? (f.stops mailBox) with
  | none =>
    rw [hf] at hlt
    exact absurd hlt (Nat.not_lt.mpr (Nat.le_max_right _ _))
  | some n =>
    have hstop := List.find?_some hf
    unfold Factory.stops at hstop
    rw [Bool.and_eq_true] at hstop
    obtain ⟨id, hid⟩ := Option.isSome_iff_exists.mp hstop.2
    obtain ⟨e, he, hl, hmb, -⟩ := h.used n id hid
    exact fun hu => hu e he hl hmb

/-- A compatible endpoint with the number `n`. -/
structure Chosen (maxMailBox : Nat) (f : Factory) (mailBox n : Nat) : Prop where
  unused : Unused f n
  other : n ≠ mailBox
  small : n ≤ maxMailBox

/-- What is asked for when the call adds a local endpoint with the number `n`. -/
theorem callOk_addLocal_iff {g : Factory} {name mailBox maxMb n : Nat} (hg : FactoryInv g)
    (hends : g.endPoints = f.endPoints)
    (hcall : f.call maxMailBox (.addCompatible name mailBox maxMb) = g.addLocal name n) :
    CallOk maxMailBox f (.addCompatible name mailBox maxMb) ↔ Chosen maxMailBox f mailBox n := by
  constructor
  · intro hok
    obtain ⟨h₁, h₂, h₃⟩ := hok.chosen name mailBox maxMb ⟨g.fresh, ⟨name, n⟩, true, 1⟩ rfl
      (by rw [hcall]; rfl)
    exact ⟨h₁, h₂, h₃⟩
  · intro hc
    refine ⟨by rw [hcall]; exact nofun, ?_, ?_⟩
    · rw [hcall]
      refine (factoryInv_addEndPoint hg fun _ => ?_).toSound
      intro e he
      rw [hends] at he
      exact hc.unused e he
    · intro name' mailBox' maxMb' e heq hdone
      cases heq
      rw [hcall] at hdone
      cases hdone
      exact ⟨hc.unused, hc.other, hc.small⟩

/-- What is asked for when the call throws. -/
theorem callOk_throws {name mailBox maxMb : Nat} {o : Outcome} (h : FactoryInv f)
    (hcall : f.call maxMailBox (.addCompatible name mailBox maxMb) = (f, o)) (ho : o ≠ .hangs)
    (hnot : ∀ e, o ≠ .done e) :
    CallOk maxMailBox f (.addCompatible name mailBox maxMb) := by
  refine ⟨by rw [hcall]; exact ho, by rw [hcall]; exact h.toSound, ?_⟩
  intro _ _ _ e _ hdone
  rw [hcall] at hdone
  exact absurd hdone (hnot _)

theorem callOk_addCompatible_iff (h : FactoryInv f) (name mailBox maxMb : Nat) :
    CallOk maxMailBox f (.addCompatible name mailBox maxMb) ↔
      CallCond maxMailBox f (.addCompatible name mailBox maxMb) := by
  have hcall : f.call maxMailBox (.addCompatible name mailBox maxMb) =
      f.addCompatible maxMailBox name mailBox maxMb := rfl
  have hfits : Chosen maxMailBox f mailBox f.nextMailBox ↔ NextFits maxMailBox f mailBox :=
    ⟨fun hc => ⟨hc.unused, hc.other, hc.small⟩, fun hc => ⟨hc.1, hc.2.1, hc.2.2⟩⟩
  unfold CallCond
  dsimp only
  unfold Factory.addCompatible at hcall
  by_cases hmax : maxMb ≠ 0 ∧ maxMb ≠ maxMailBox
  · rw [if_pos hmax] at hcall
    refine ⟨fun _ hsame => ?_, fun _ => callOk_throws h hcall nofun nofun⟩
    rcases hsame with hsame | hsame
    · exact absurd hsame hmax.1
    · exact absurd hsame hmax.2
  rw [if_neg hmax] at hcall
  have hsame : maxMb = 0 ∨ maxMb = maxMailBox := by
    rcases Nat.eq_zero_or_pos maxMb with hz | hpos
    · exact Or.inl hz
    · exact Or.inr (by_contra fun hne => hmax ⟨Nat.pos_iff_ne_zero.mp hpos, hne⟩)
  rw [imp_iff_right hsame]
  by_cases hzero : mailBox = 0
  · rw [if_pos hzero] at hcall ⊢
    rw [callOk_addLocal_iff (f := f) (n := f.nextMailBox) (factoryInv_draw h) rfl hcall, hfits]
  rw [if_neg hzero] at hcall ⊢
  by_cases hhang : 2 ^ 16 ≤ f.search mailBox
  · rw [if_pos hhang] at hcall
    refine ⟨fun hok => absurd (by rw [hcall]) hok.returns, fun hc => ?_⟩
    exact absurd hc.1 (Nat.not_lt.mpr hhang)
  rw [if_neg hhang] at hcall
  rw [and_iff_right (Nat.lt_of_not_le hhang)]
  by_cases hfull : f.search mailBox = maxSystemSmbs ∨ maxMailBox < f.search mailBox
  · rw [if_pos hfull] at hcall
    refine ⟨fun _ hne hle => ?_, fun _ => callOk_throws h hcall nofun nofun⟩
    rcases hfull with hfull | hfull
    · exact absurd hfull hne
    · exact absurd hle (Nat.not_le.mpr hfull)
  rw [if_neg hfull] at hcall
  rw [not_or, Nat.not_lt] at hfull
  rw [imp_iff_right hfull.1, imp_iff_right hfull.2]
  by_cases hend : f.locations.length ≤ f.search mailBox
  · rw [if_pos hend] at hcall
    rw [callOk_addLocal_iff (f := f) (n := f.nextMailBox) (factoryInv_draw h) rfl hcall, hfits,
      and_iff_right hend]
  · rw [if_neg hend] at hcall
    rw [callOk_addLocal_iff h rfl hcall]
    refine ⟨fun hc => ?_, fun hc => absurd hc.1 hend⟩
    exact absurd hc.unused (used_of_search h (Nat.lt_of_not_le hend))

/-- A call does what is asked for exactly under the condition. -/
theorem callOk_iff (h : FactoryInv f) : CallOk maxMailBox f c ↔ CallCond maxMailBox f c := by
  have hother : (f.call maxMailBox c).2 ≠ .hangs → Sound (f.call maxMailBox c).1 →
      (∀ name mailBox maxMb, c ≠ .addCompatible name mailBox maxMb) → CallOk maxMailBox f c :=
    fun h₁ h₂ h₃ => ⟨h₁, h₂, fun name mailBox maxMb _ heq => absurd heq (h₃ name mailBox maxMb)⟩
  cases c with
  | allocateEndpoints =>
    exact ⟨fun _ => trivial, fun _ => hother nofun (factoryInv_draw h).toSound nofun⟩
  | allocateProxyEndPoint name =>
    obtain ⟨-, hinv, hret⟩ := getEndPoint_iff (factoryInv_draw h) ⟨name, f.nextMailBox⟩ false true
    exact ⟨fun _ => trivial, fun _ => hother hret (hinv nofun).toSound nofun⟩
  | getEndPoint text isLocal cantExist =>
    obtain ⟨hiff, -, hret⟩ := getEndPoint_iff h text isLocal cantExist
    exact ⟨fun hok => hiff.mp hok.sound, fun hc => hother hret (hiff.mpr hc) nofun⟩
  | addCompatible name mailBox maxMb => exact callOk_addCompatible_iff h name mailBox maxMb
  | release id =>
    refine ⟨fun _ => trivial, fun _ => hother ?_ (factoryInv_release h id).toSound nofun⟩
    show (f.release id).2 ≠ .hangs
    unfold Factory.release
    split
    · split <;> exact nofun
    · exact nofun

/-! ## Runs -/

theorem factoryInv_start (nextMailBox : Nat) : FactoryInv (Factory.start nextMailBox) :=
  ⟨⟨nofun, nofun⟩, nofun, nofun, nofun⟩

theorem factoryInv_addCompatible {name mailBox maxMb : Nat} (h : FactoryInv f)
    (hok : CallOk maxMailBox f (.addCompatible name mailBox maxMb)) :
    FactoryInv (f.addCompatible maxMailBox name mailBox maxMb).1 := by
  have hsound : Sound (f.addCompatible maxMailBox name mailBox maxMb).1 := hok.sound
  have hadd : ∀ {g : Factory} {n : Nat}, FactoryInv g → Sound (g.addLocal name n).1 →
      FactoryInv (g.addLocal name n).1 := fun hg hs =>
    factoryInv_addEndPoint hg fun hl => unused_of_sound_addEndPoint hg hs hl
  unfold Factory.addCompatible at hsound ⊢
  by_cases hmax : maxMb ≠ 0 ∧ maxMb ≠ maxMailBox
  · rw [if_pos hmax]
    exact h
  rw [if_neg hmax] at hsound ⊢
  by_cases hzero : mailBox = 0
  · rw [if_pos hzero] at hsound ⊢
    exact hadd (factoryInv_draw h) hsound
  rw [if_neg hzero] at hsound ⊢
  by_cases hhang : 2 ^ 16 ≤ f.search mailBox
  · rw [if_pos hhang]
    exact h
  rw [if_neg hhang] at hsound ⊢
  by_cases hfull : f.search mailBox = maxSystemSmbs ∨ maxMailBox < f.search mailBox
  · rw [if_pos hfull]
    exact h
  rw [if_neg hfull] at hsound ⊢
  by_cases hend : f.locations.length ≤ f.search mailBox
  · rw [if_pos hend] at hsound ⊢
    exact hadd (factoryInv_draw h) hsound
  · rw [if_neg hend] at hsound ⊢
    exact hadd h hsound

theorem factoryInv_call (h : FactoryInv f) (hc : CallCond maxMailBox f c) :
    FactoryInv (f.call maxMailBox c).1 := by
  cases c with
  | allocateEndpoints => exact factoryInv_draw h
  | allocateProxyEndPoint name =>
    exact (getEndPoint_iff (factoryInv_draw h) ⟨name, f.nextMailBox⟩ false true).2.1 nofun
  | getEndPoint text isLocal cantExist => exact (getEndPoint_iff h text isLocal cantExist).2.1 hc
  | addCompatible name mailBox maxMb => exact factoryInv_addCompatible h ((callOk_iff h).mpr hc)
  | release id => exact factoryInv_release h id

theorem Factory.step_ok (h : f.step maxMailBox c = some f') : f' = (f.call maxMailBox c).1 := by
  unfold Factory.step at h
  split at h
  · cases h
  · cases h
    rfl

/-- **Mailboxes are assigned properly** as long as the calls meet the condition, and in the next call
exactly if it does. -/
theorem mailboxes_of_callCond {nextMailBox : Nat}
    (h : Reach (Factory.step maxMailBox) (CallCond maxMailBox) (Factory.start nextMailBox) f) :
    Sound f ∧ ∀ c, CallOk maxMailBox f c ↔ CallCond maxMailBox f c := by
  have hinv : FactoryInv f := by
    refine h.invariant (factoryInv_start nextMailBox) fun f c f' hinv hc hs => ?_
    rw [Factory.step_ok hs]
    exact factoryInv_call hinv hc
  exact ⟨hinv.toSound, fun c => callOk_iff hinv⟩

instance (n : Nat) : Decidable (Unused f n) := inferInstanceAs (Decidable (∀ e ∈ _, _))

instance (n : Nat) : Decidable (NextFits maxMailBox f n) := inferInstanceAs (Decidable (_ ∧ _))

instance (c : Call) : Decidable (CallCond maxMailBox f c) :=
  match c with
  | .allocateEndpoints => .isTrue trivial
  | .allocateProxyEndPoint _ => .isTrue trivial
  | .getEndPoint _ _ _ => inferInstanceAs (Decidable (_ → _))
  | .addCompatible _ _ _ => inferInstanceAs (Decidable (_ → _))
  | .release _ => .isTrue trivial

/-- A compatible endpoint, a proxy, and the endpoint again after it was released. -/
theorem mailboxes_sample : ∃ f : Factory,
    f.endPoints.map (fun e => (e.isLocal, e.mailbox)) = [(false, 2), (true, 3)] ∧ Sound f := by
  have hrun : ∃ f ∈ exec (checked (Factory.step 20) (CallCond 20)) (Factory.start 1)
      [.addCompatible 7 0 0, .allocateProxyEndPoint 8, .release 0, .addCompatible 7 9 20],
      f.endPoints.map (fun e => (e.isLocal, e.mailbox)) = [(false, 2), (true, 3)] := by decide
  obtain ⟨f, hf, hends⟩ := hrun
  exact ⟨f, hends, (mailboxes_of_callCond (reach_of_exec_checked _ hf)).1⟩

/-- The second compatible endpoint gets the mailbox of the first. -/
theorem mailbox_given_twice : ∃ f : Factory,
    Reach (Factory.step 20) anyStep (Factory.start 1) f ∧
      f.endPoints.map (fun e => (e.isLocal, e.mailbox)) = [(true, 1), (true, 1)] ∧ ¬Sound f := by
  have hrun : ∃ f ∈ exec (Factory.step 20) (Factory.start 1)
      [.addCompatible 7 5 20, .addCompatible 8 5 20],
      f.endPoints = [⟨0, ⟨7, 1⟩, true, 1⟩, ⟨1, ⟨8, 1⟩, true, 1⟩] := by decide
  obtain ⟨f, hf, hends⟩ := hrun
  refine ⟨f, reach_of_exec _ hf, by rw [hends]; rfl, fun hs => ?_⟩
  have hsame := hs.distinct ⟨0, ⟨7, 1⟩, true, 1⟩ (by simp [hends]) ⟨1, ⟨8, 1⟩, true, 1⟩
    (by simp [hends]) rfl rfl rfl
  cases hsame

end OpenCpi.Xfer
