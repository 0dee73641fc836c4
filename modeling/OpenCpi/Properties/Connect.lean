import OpenCpi.Container.Port

/-!
# Both ends of a connection agree, unless a preference is turned around

Two branches of `chooseRoles`, for preferences without a mandate, assign the wrong end or the wrong
role. In one process this gives roles that do not fit each other; in the exchange the provider
chooses once more, which repairs the roles or throws, but leaves the user with a role that may be
none of its options. Sizes that cannot be rounded up within 32 bits fail an assertion, and so does
the last step of the exchange, whose assertion is meant for the other side.

Everywhere else the ends settle on fitting roles, each allowed at its end, and on one buffer size. Inside
of an RCC container the mandate of the user is ignored on purpose.
-/

namespace OpenCpi.Container

open Infra Ior

/-! ## What is asked for -/

/-- The roles at the ends fit the requests `u` and `p`. -/
structure RolesAgree (u p : Descriptors) (r r' : Option Role) : Prop where
  roles : ∃ s, r = some s ∧ r' = some s.other ∧ has u.options s ∧ has p.options s.other
  mandateUser : mandated u.options → u.role ≠ none → r = u.role
  mandateProvider : mandated p.options → p.role ≠ none → r' = p.role

/-- So do the sizes. -/
structure SizesAgree (u p : Descriptors) (size size' : Nat) : Prop where
  same : size = size'
  user : u.dataBufferSize ≤ size
  provider : p.dataBufferSize ≤ size

/-- The ends agree. -/
structure Agreed (u p u' p' : Descriptors) : Prop where
  roles : RolesAgree u p u'.role p'.role
  sizes : SizesAgree u p u'.dataBufferSize p'.dataBufferSize

/-- The role of a port is one of its options. -/
def Descriptors.Allowed (d : Descriptors) : Prop := ∀ r, d.role = some r → has d.options r

/-- The role that an end starts with. -/
def Prefers (d : Descriptors) (r : Role) : Prop := defaultRole d.role d.options = .ok r

/-- Without mandates, the provider prefers active flow control, the user could push but prefers
something else, and the provider cannot give it that. -/
def SlipPush (u p : Role) (uOptions pOptions : Nat) : Prop :=
  mandated uOptions = false ∧ mandated pOptions = false ∧ p = .activeFlowControl ∧
    has uOptions .activeMessage ∧ u ≠ .activeMessage ∧
    ¬(u = .activeFlowControl ∧ has pOptions .activeMessage)

/-- Without mandates, the provider prefers to be passive and could be active only, and the user
prefers a role that the provider has nothing for. -/
def SlipOnly (u p : Role) (uOptions pOptions : Nat) : Prop :=
  mandated uOptions = false ∧ mandated pOptions = false ∧ p = .passive ∧ has pOptions .activeOnly ∧
    (u = .activeMessage ∨ u = .activeFlowControl) ∧ has pOptions u.other = false

/-! ## Choosing roles -/

variable {u p u' p' : Role} {uOptions pOptions : Nat}

@[simp] theorem other_other (r : Role) : r.other.other = r := by cases r <;> rfl

theorem eq_other_comm : u = p.other ↔ p = u.other := by
  cases u <;> cases p <;> decide

theorem anyRoles_ok (h : anyRoles uOptions pOptions = .ok (u', p')) :
    p' = u'.other ∧ has uOptions u' ∧ has pOptions p' := by
  unfold anyRoles at h
  split at h
  · next i hi =>
    cases h
    have := List.find?_some hi
    rw [Bool.and_eq_true] at this
    exact ⟨rfl, this.1, this.2⟩
  · cases h

/-- The preferences are not turned around. -/
structure Straight (u p : Role) (uOptions pOptions : Nat) : Prop where
  push : ¬SlipPush u p uOptions pOptions
  only : ¬SlipOnly u p uOptions pOptions

theorem choosePreferred_right (h : choosePreferred u p uOptions pOptions = .ok (u', p'))
    (hu : has uOptions u) (hp : has pOptions p) (hum : mandated uOptions = false)
    (hpm : mandated pOptions = false) (hs : Straight u p uOptions pOptions) :
    p' = u'.other ∧ has uOptions u' ∧ has pOptions p' := by
  unfold choosePreferred at h
  by_cases h₁ : p = u.other
  · rw [if_pos h₁] at h
    cases h
    exact ⟨h₁, hu, hp⟩
  rw [if_neg h₁] at h
  by_cases h₂ : u = .activeFlowControl ∧ has pOptions .activeMessage
  · rw [if_pos h₂] at h
    cases h
    exact ⟨by rw [h₂.1]; rfl, hu, h₂.2⟩
  rw [if_neg h₂] at h
  by_cases h₃ : u = .activeMessage ∧ has pOptions .activeFlowControl
  · rw [if_pos h₃] at h
    cases h
    exact ⟨by rw [h₃.1]; rfl, hu, h₃.2⟩
  rw [if_neg h₃] at h
  by_cases h₄ : p = .activeFlowControl ∧ has uOptions .activeMessage
  · refine absurd ⟨hum, hpm, h₄.1, h₄.2, ?_, h₂⟩ hs.push
    rintro rfl
    exact h₁ h₄.1
  rw [if_neg h₄] at h
  by_cases h₅ : u = .activeOnly ∧ has pOptions .passive
  · rw [if_pos h₅] at h
    cases h
    exact ⟨by rw [h₅.1]; rfl, hu, h₅.2⟩
  rw [if_neg h₅] at h
  by_cases h₆ : p = .passive ∧ has pOptions .activeOnly
  · rw [if_pos h₆] at h
    cases h
    -- only a user that is passive fits
    obtain ⟨hpp, hao⟩ := h₆
    have hpassive : u = .passive := by
      cases u with
      | passive => rfl
      | activeOnly => exact absurd hpp h₁
      | activeMessage =>
        refine absurd ⟨hum, hpm, hpp, hao, Or.inl rfl, ?_⟩ hs.only
        exact Bool.eq_false_iff.mpr fun hh => h₃ ⟨rfl, hh⟩
      | activeFlowControl =>
        refine absurd ⟨hum, hpm, hpp, hao, Or.inr rfl, ?_⟩ hs.only
        exact Bool.eq_false_iff.mpr fun hh => h₂ ⟨rfl, hh⟩
    exact ⟨by rw [hpassive]; rfl, hu, hao⟩
  rw [if_neg h₆] at h
  by_cases h₇ : u.number < p.number ∧ has pOptions u.other
  · rw [if_pos h₇] at h
    cases h
    exact ⟨rfl, hu, h₇.2⟩
  rw [if_neg h₇] at h
  by_cases h₈ : has uOptions p.other
  · rw [if_pos h₈] at h
    cases h
    exact ⟨(other_other p).symm, h₈, hp⟩
  rw [if_neg h₈] at h
  by_cases h₉ : has pOptions u.other
  · rw [if_pos h₉] at h
    cases h
    exact ⟨rfl, hu, h₉⟩
  rw [if_neg h₉] at h
  exact anyRoles_ok h

/-- **The choice is right** where the preferences are not turned around. -/
theorem chooseFrom_right (h : chooseFrom u p uOptions pOptions = .ok (u', p'))
    (hu : has uOptions u) (hp : has pOptions p) (hs : Straight u p uOptions pOptions) :
    p' = u'.other ∧ has uOptions u' ∧ has pOptions p' ∧ (mandated uOptions → u' = u) ∧
      (mandated pOptions → p' = p) := by
  unfold chooseFrom at h
  by_cases hpm : mandated pOptions
  · rw [if_pos hpm] at h
    split at h
    · next heq =>
      cases h
      exact ⟨eq_other_comm.mp heq, hu, hp, fun _ => rfl, fun _ => rfl⟩
    · split at h
      · cases h
      · next hum =>
        split at h
        · next hhas =>
          cases h
          exact ⟨(other_other p).symm, hhas, hp, fun h => absurd h hum, fun _ => rfl⟩
        · cases h
  · rw [if_neg hpm] at h
    by_cases hum : mandated uOptions
    · rw [if_pos hum] at h
      split at h
      · next heq =>
        cases h
        exact ⟨heq, hu, hp, fun _ => rfl, fun _ => rfl⟩
      · split at h
        · next hhas =>
          cases h
          exact ⟨rfl, hu, hhas, fun _ => rfl, fun h => absurd h hpm⟩
        · cases h
    · rw [if_neg hum] at h
      obtain ⟨h₁, h₂, h₃⟩ := choosePreferred_right h hu hp (Bool.eq_false_iff.mpr hum)
        (Bool.eq_false_iff.mpr hpm) hs
      exact ⟨h₁, h₂, h₃, fun h => absurd h hum, fun h => absurd h hpm⟩

/-- Both ends get active flow control. -/
theorem chooseFrom_push (h : SlipPush u p uOptions pOptions) :
    chooseFrom u p uOptions pOptions = .ok (.activeFlowControl, .activeFlowControl) := by
  obtain ⟨hum, hpm, rfl, hhas, hne, hnot⟩ := h
  unfold chooseFrom choosePreferred
  rw [if_neg (by simp [hpm]), if_neg (by simp [hum]), if_neg, if_neg hnot, if_neg, if_pos ⟨rfl, hhas⟩]
  · rfl
  · exact fun hc => hne hc.1
  · intro heq
    cases u <;> simp_all [Role.other]

/-- The provider gets to be active only. -/
theorem chooseFrom_only (h : SlipOnly u p uOptions pOptions) :
    chooseFrom u p uOptions pOptions = .ok (u, .activeOnly) := by
  obtain ⟨hum, hpm, rfl, hhas, hu, hnot⟩ := h
  unfold chooseFrom choosePreferred
  rw [if_neg (by simp [hpm]), if_neg (by simp [hum])]
  rcases hu with rfl | rfl
  · rw [if_neg (by decide), if_neg (by simp), if_neg (by simpa [Role.other] using hnot), if_neg (by simp),
      if_neg (by simp), if_pos ⟨rfl, hhas⟩]
    rfl
  · rw [if_neg (by decide), if_neg (by simpa [Role.other] using hnot), if_neg (by simp), if_neg (by simp),
      if_neg (by simp), if_pos ⟨rfl, hhas⟩]
    rfl

/-- Against an end that pushes, with any other options. -/
theorem chooseFrom_pushing {rp : Role} {o pO : Nat} (hm : mandated pO → rp = .activeFlowControl)
    (hhas : has pO .activeFlowControl) :
    chooseFrom .activeMessage rp o pO = .ok (.activeMessage, .activeFlowControl) := by
  have hother : Role.activeFlowControl = Role.other .activeMessage := rfl
  unfold chooseFrom
  by_cases hpm : mandated pO
  · rw [if_pos hpm, hm hpm]
    rfl
  · rw [if_neg hpm]
    by_cases hom : mandated o
    · rw [if_pos hom]
      by_cases hp : rp = Role.other .activeMessage
      · rw [if_pos hp, hp]
        rfl
      · rw [if_neg hp, if_pos (hother ▸ hhas)]
        rfl
    · rw [if_neg hom]
      unfold choosePreferred
      by_cases hp : rp = Role.other .activeMessage
      · rw [if_pos hp, hp]
        rfl
      · rw [if_neg hp, if_neg (fun h => nomatch h.1), if_pos ⟨rfl, hhas⟩]
        rfl

/-! ## The provider chooses again -/

@[simp] theorem mandated_mandate (o : Nat) : mandated (mandate o) = true := by
  unfold mandated mandate
  rw [Nat.testBit_or, Nat.testBit_two_pow_self, Bool.or_true]

@[simp] theorem has_mandate (o : Nat) (r : Role) : has (mandate o) r = has o r := by
  have hne : (5 : Nat) ≠ r.number := by cases r <;> decide
  unfold has mandate
  rw [Nat.testBit_or, Nat.testBit_two_pow_of_ne hne, Bool.or_false]

/-- Against the role that the user settled on. -/
theorem chooseFrom_again (h : mandated pOptions → p = u.other) :
    chooseFrom u p (mandate uOptions) pOptions =
      if p = u.other ∨ has pOptions u.other then .ok (u, u.other)
      else .error (.error "No compatible role available against mandated role") := by
  unfold chooseFrom
  rw [mandated_mandate, if_pos rfl, if_pos rfl]
  by_cases heq : p = u.other
  · rw [if_pos (eq_other_comm.mpr heq), if_pos heq, if_pos (Or.inl heq), ite_self]
    rw [heq]
    rfl
  · have hpm : ¬mandated pOptions := fun hm => heq (h hm)
    rw [if_neg hpm, if_neg heq]
    by_cases hhas : has pOptions u.other
    · rw [if_pos hhas, if_pos (Or.inr hhas)]
      rfl
    · rw [if_neg hhas, if_neg (by simp [heq, hhas])]
      rfl

/-! ## Steps that fail no assertion -/

variable {α β : Type}

/-- A step throws an error, or returns with `P`. -/
def Safe (P : α → Prop) : Except Fault α → Prop
  | .ok a => P a
  | .error e => e ≠ .assertion

theorem safe_pure {P : α → Prop} {a : α} : Safe P (pure a) ↔ P a := Iff.rfl

theorem safe_bind {P : β → Prop} {x : Except Fault α} {f : α → Except Fault β} :
    Safe P (x >>= f) ↔ Safe (fun a => Safe P (f a)) x := by
  cases x <;> exact Iff.rfl

/-- A step that fails no assertion by itself. -/
theorem safe_ne_iff {P : α → Prop} {x : Except Fault α} (h : x ≠ .error .assertion) :
    Safe P x ↔ ∀ a, x = .ok a → P a := by
  cases x with
  | ok a =>
    refine ⟨fun hp b hb => ?_, fun hp => hp a rfl⟩
    cases hb
    exact hp
  | error e =>
    refine ⟨fun _ a ha => ?_, fun _ he => h (by rw [he])⟩
    cases ha

theorem bind_ne {x : Except Fault α} {f : α → Except Fault β} (hx : x ≠ .error .assertion)
    (hf : ∀ a, f a ≠ .error .assertion) : (x >>= f) ≠ .error .assertion := by
  cases x with
  | ok a => exact hf a
  | error e =>
    intro h
    cases h
    exact hx rfl

theorem ite_ne {α : Type} {c : Prop} [Decidable c] {x y : Except Fault α}
    (hx : x ≠ .error .assertion) (hy : y ≠ .error .assertion) :
    (if c then x else y) ≠ .error .assertion := by
  split
  · exact hx
  · exact hy

theorem setConnectParams_ne (q : Port) (params : Params) :
    setConnectParams q params ≠ .error .assertion := by
  have hcount : ∀ {o : Option Nat}, setBufferCount q o ≠ .error .assertion := by
    intro o
    unfold setBufferCount
    split
    · exact ite_ne nofun nofun
    · exact nofun
  have hsize : ∀ {q : Port} {o : Option Nat}, setBufferSize q o ≠ .error .assertion := by
    intro q o
    unfold setBufferSize
    split
    · exact ite_ne nofun nofun
    · exact nofun
  have hrole : ∀ {q : Port} {o : Option String}, setXferRole q o ≠ .error .assertion := by
    intro q o
    unfold setXferRole
    split
    · split
      · exact nofun
      · split <;> exact nofun
    · exact nofun
  exact bind_ne hcount fun _ => bind_ne hsize fun _ => hrole

theorem chooseRoles_ne (uRole pRole : Option Role) (uOptions pOptions : Nat) :
    chooseRoles uRole uOptions pRole pOptions ≠ .error .assertion := by
  have hreturn : ∀ {r : Role × Role}, (return r : Except Fault (Role × Role)) ≠ .error .assertion :=
    nofun
  have hdef : ∀ {o : Option Role} {n : Nat}, defaultRole o n ≠ .error .assertion := by
    intro o n
    unfold defaultRole
    split
    · exact nofun
    · split <;> exact nofun
  have hany : anyRoles uOptions pOptions ≠ .error .assertion := by
    unfold anyRoles
    split <;> exact nofun
  have hpref : ∀ {u p : Role}, choosePreferred u p uOptions pOptions ≠ .error .assertion := by
    intro u p
    unfold choosePreferred
    iterate 9 refine ite_ne hreturn ?_
    exact hany
  have hfrom : ∀ {u p : Role}, chooseFrom u p uOptions pOptions ≠ .error .assertion := by
    intro u p
    unfold chooseFrom
    refine ite_ne (ite_ne hreturn (ite_ne nofun (ite_ne hreturn nofun))) (ite_ne ?_ hpref)
    exact ite_ne hreturn (ite_ne hreturn nofun)
  exact bind_ne hdef fun _ => bind_ne hdef fun _ => hfrom

/-! ## Sizes -/

/-- Both sizes can be rounded up within 32 bits. -/
def SizeFits (u p : Descriptors) : Prop :=
  u.dataBufferSize ≤ 2 ^ 32 - 16 ∧ p.dataBufferSize ≤ 2 ^ 32 - 16

/-- The size that is settled on. -/
def commonSize (u p : Descriptors) : Nat :=
  roundUp (max u.dataBufferSize p.dataBufferSize) bufferAlignment

variable {d d' : Descriptors}

theorem le_commonSize : d.dataBufferSize ≤ commonSize d d' ∧ d'.dataBufferSize ≤ commonSize d d' := by
  unfold commonSize roundUp bufferAlignment
  omega

theorem commonSize_lt : ¬2 ^ 32 ≤ commonSize d d' ↔ SizeFits d d' := by
  unfold commonSize roundUp bufferAlignment SizeFits
  omega

/-! ## The negotiation -/

theorem safe_determineRoles {P : Descriptors × Descriptors → Prop} :
    Safe P (determineRoles d d') ↔ ∀ a, chooseRoles d.role d.options d'.role d'.options = .ok a →
      SizeFits d d' ∧ P (d.settle a.1 (commonSize d d'), d'.settle a.2 (commonSize d d')) := by
  unfold determineRoles
  rw [safe_bind, safe_ne_iff (chooseRoles_ne _ _ _ _)]
  refine forall_congr' fun a => imp_congr_right fun _ => ?_
  rw [← commonSize_lt]
  show Safe P (if 2 ^ 32 ≤ commonSize d d' then throw .assertion
    else pure (d.settle a.1 (commonSize d d'), d'.settle a.2 (commonSize d d'))) ↔ _
  by_cases hsize : 2 ^ 32 ≤ commonSize d d'
  · rw [if_pos hsize]
    exact ⟨fun h => absurd rfl h, fun h => absurd hsize h.1⟩
  · rw [if_neg hsize, safe_pure]
    exact ⟨fun h => ⟨hsize, h⟩, fun h => h.2⟩

theorem chooseRoles_eq {ru rp : Role} (hu : Prefers d ru) (hp : Prefers d' rp) :
    chooseRoles d.role d.options d'.role d'.options = chooseFrom ru rp d.options d'.options := by
  unfold chooseRoles
  rw [hu, hp]
  rfl

theorem prefers_of_chooseRoles {a : Role × Role}
    (h : chooseRoles d.role d.options d'.role d'.options = .ok a) :
    ∃ ru rp, Prefers d ru ∧ Prefers d' rp := by
  unfold chooseRoles at h
  cases hu : defaultRole d.role d.options with
  | error e =>
    rw [hu] at h
    cases h
  | ok ru =>
    cases hp : defaultRole d'.role d'.options with
    | error e =>
      rw [hu, hp] at h
      cases h
    | ok rp => exact ⟨ru, rp, hu, hp⟩

theorem Prefers.has {r : Role} (h : Prefers d r) (ha : d.Allowed) : has d.options r := by
  unfold Prefers defaultRole at h
  split at h
  · next r' hr =>
    cases h
    exact ha r hr
  · split at h
    · next r' hr =>
      cases h
      exact List.find?_some hr
    · cases h

/-- A role that is given is the one that is preferred. -/
theorem Prefers.role {r : Role} (h : Prefers d r) (hne : d.role ≠ none) : d.role = some r := by
  unfold Prefers defaultRole at h
  split at h
  · next r' hr =>
    cases h
    exact hr
  · next hr => exact absurd hr hne

/-- The roles are chosen: `ru` and `rp` are preferred, `r` and `r'` are the choice. -/
structure Chooses (d d' : Descriptors) (ru rp r r' : Role) : Prop where
  user : Prefers d ru
  provider : Prefers d' rp
  choice : chooseFrom ru rp d.options d'.options = .ok (r, r')

/-- A port that is started has the options and the role of the request, if there is one. -/
structure Keeps (d₀ d : Descriptors) : Prop where
  options : d.options = d₀.options
  role : d₀.role ≠ none → d.role = d₀.role

theorem Keeps.refl (d : Descriptors) : Keeps d d := ⟨rfl, fun _ => rfl⟩

/-- The choice is right, in terms of the requests. -/
theorem Chooses.right {d₀ d₀' : Descriptors} {ru rp r r' : Role} (h : Chooses d d' ru rp r r')
    (hk : Keeps d₀ d) (hk' : Keeps d₀' d') (ha : d.Allowed) (ha' : d'.Allowed)
    (hs : Straight ru rp d₀.options d₀'.options) :
    r' = r.other ∧ has d₀.options r ∧ has d₀'.options r' ∧ (mandated d₀.options → r = ru) ∧
      (mandated d₀'.options → r' = rp) := by
  have hc := h.choice
  have hru := h.user.has ha
  have hrp := h.provider.has ha'
  rw [hk.options, hk'.options] at hc
  rw [hk.options] at hru
  rw [hk'.options] at hrp
  exact chooseFrom_right hc hru hrp hs

/-- **What is chosen in one negotiation** agrees with the requests exactly if the preferences are not
turned around. -/
theorem rolesAgree_iff {d₀ d₀' : Descriptors} {ru rp r r' : Role} (hk : Keeps d₀ d) (hk' : Keeps d₀' d')
    (ha : d.Allowed) (ha' : d'.Allowed) (h : Chooses d d' ru rp r r') :
    RolesAgree d₀ d₀' (some r) (some r') ↔ Straight ru rp d₀.options d₀'.options := by
  constructor
  · have hc := h.choice
    rw [hk.options, hk'.options] at hc
    rintro ⟨⟨s, hs, hs', -⟩, -⟩
    cases hs
    cases hs'
    constructor
    · intro hslip
      rw [chooseFrom_push hslip] at hc
      cases hc
    · intro hslip
      rw [chooseFrom_only hslip] at hc
      obtain ⟨-, -, -, -, rfl | rfl, -⟩ := hslip
      · cases hc
      · cases hc
  · intro hs
    obtain ⟨rfl, hr, hr', hum, hpm⟩ := h.right hk hk' ha ha' hs
    refine ⟨⟨r, rfl, rfl, hr, hr'⟩, fun hm hne => ?_, fun hm hne => ?_⟩
    · have hrole := hk.role hne
      rw [← hrole, h.user.role (hrole ▸ hne), ← hum hm]
    · have hrole := hk'.role hne
      rw [← hrole, h.provider.role (hrole ▸ hne), ← hpm hm]

/-! ## In one process -/

/-- No step fails an assertion, and if none throws the ends agree. -/
def Settled (u p : Port) (uParams pParams : Params) :
    Except Fault (Descriptors × Descriptors) → Prop :=
  Safe fun ends => ∀ u₁ p₁, setConnectParams u uParams = .ok u₁ →
    setConnectParams p pParams = .ok p₁ → Agreed u₁.data p₁.data ends.1 ends.2

/-- The ports may be connected and the parameters are accepted: `u₁` and `p₁` are the ports then. -/
structure Accepted (u p : Port) (uParams pParams : Params) (u₁ p₁ : Port) : Prop where
  externalUser : u.canBeExternal = true
  externalProvider : p.canBeExternal = true
  paramsUser : setConnectParams u uParams = .ok u₁
  paramsProvider : setConnectParams p pParams = .ok p₁

/-- The calls of `finishConnect` return. -/
def Hooks.Finishes (h : Hooks) : Prop :=
  h.finishUser = .ok () ∧ (h.user ≠ .ocl → ∃ b, h.finishProvider = .ok b ∧
    (b = true → ∃ b, h.finishUserAgain = .ok b ∧ (b = true → h.finishProviderAgain = .ok ())))

/-- The hooks throw errors, and fail no assertions. -/
structure Hooks.Sound (h : Hooks) : Prop where
  startProvider : h.startProvider ≠ .error .assertion
  startUser : h.startUser ≠ .error .assertion
  finishUser : h.finishUser ≠ .error .assertion
  finishProvider : h.finishProvider ≠ .error .assertion
  finishUserAgain : h.finishUserAgain ≠ .error .assertion
  finishProviderAgain : h.finishProviderAgain ≠ .error .assertion

/-- The condition for `Port::connect`. -/
def ConnectOk (h : Hooks) (u p : Port) (uParams pParams : Params) : Prop :=
  ∀ u₁ p₁, Accepted u p uParams pParams u₁ p₁ → ∀ ru rp r r', Chooses u₁.data p₁.data ru rp r r' →
    SizeFits u₁.data p₁.data ∧
      (h.startProvider = .ok () → h.startUser = .ok () → h.Finishes →
        Straight ru rp u₁.data.options p₁.data.options)

variable {h : Hooks} {q u p u₁ p₁ : Port} {uParams pParams params : Params}

/-- What the parameters can change. -/
structure Adjusted (params : Params) (q q' : Port) : Prop where
  rest : ∃ n k r o, q' = { q with data :=
    { q.data with nBuffers := n, dataBufferSize := k, role := r, options := o } }
  count : q'.data.nBuffers = q.data.nBuffers ∨ params.bufferCount = some q'.data.nBuffers
  size : q'.data.dataBufferSize = q.data.dataBufferSize ∨
    params.bufferSize = some q'.data.dataBufferSize
  role : (q'.data.role = q.data.role ∧ q'.data.options = q.data.options) ∨
    ∃ r, has q.data.options r ∧ q'.data.role = some r ∧ q'.data.options = mandate q.data.options

theorem setBufferCount_ok {q' : Port} {o : Option Nat} (h : setBufferCount q o = .ok q') :
    ∃ n, q' = { q with data := { q.data with nBuffers := n } } ∧
      (n = q.data.nBuffers ∨ o = some n) := by
  unfold setBufferCount at h
  split at h
  · split at h
    · cases h
    · cases h
      exact ⟨_, rfl, Or.inr rfl⟩
  · cases h
    exact ⟨_, rfl, Or.inl rfl⟩

theorem setBufferSize_ok {q' : Port} {o : Option Nat} (h : setBufferSize q o = .ok q') :
    ∃ n, q' = { q with data := { q.data with dataBufferSize := n } } ∧
      (n = q.data.dataBufferSize ∨ o = some n) := by
  unfold setBufferSize at h
  split at h
  · split at h
    · cases h
    · cases h
      exact ⟨_, rfl, Or.inr rfl⟩
  · cases h
    exact ⟨_, rfl, Or.inl rfl⟩

theorem setXferRole_ok {q' : Port} {o : Option String} (h : setXferRole q o = .ok q') :
    q' = q ∨ ∃ r, has q.data.options r ∧
      q' = { q with data := { q.data with role := some r, options := mandate q.data.options } } := by
  unfold setXferRole at h
  split at h
  · split at h
    · cases h
    · split at h
      · next hhas =>
        cases h
        exact Or.inr ⟨_, hhas, rfl⟩
      · cases h
  · cases h
    exact Or.inl rfl

theorem bind_ok {x : Except Fault α} {f : α → Except Fault β} {b : β} (h : (x >>= f) = .ok b) :
    ∃ a, x = .ok a ∧ f a = .ok b := by
  cases x with
  | error e => cases h
  | ok a => exact ⟨a, rfl, h⟩

theorem setConnectParams_ok {q' : Port} (h : setConnectParams q params = .ok q') :
    Adjusted params q q' := by
  obtain ⟨q₁, h₁, h⟩ := bind_ok h
  obtain ⟨q₂, h₂, h⟩ := bind_ok h
  obtain ⟨n, rfl, hn⟩ := setBufferCount_ok h₁
  obtain ⟨k, rfl, hk⟩ := setBufferSize_ok h₂
  rcases setXferRole_ok h with rfl | ⟨r, hr, rfl⟩
  · exact ⟨⟨n, k, _, _, rfl⟩, hn, hk, Or.inl ⟨rfl, rfl⟩⟩
  · exact ⟨⟨n, k, _, _, rfl⟩, hn, hk, Or.inr ⟨r, hr, rfl, rfl⟩⟩

theorem Adjusted.allowed {q' : Port} (h : Adjusted params q q') (hq : q.data.Allowed) :
    q'.data.Allowed := by
  rcases h.role with ⟨hr, ho⟩ | ⟨r, hhas, hr, ho⟩
  · intro s hs
    rw [ho]
    exact hq s (hr.symm.trans hs)
  · intro s hs
    cases hr.symm.trans hs
    rw [ho, has_mandate]
    exact hhas

theorem safe_checkExternal {P : Unit → Prop} :
    Safe P (checkExternal q) ↔ (q.canBeExternal = true → P ()) := by
  unfold checkExternal
  dsimp only
  split
  · next hc => exact ⟨fun hp _ => hp, fun hp => hp hc⟩
  · next hc => exact ⟨fun _ h => absurd h hc, fun _ => by exact nofun⟩

/-! ### What the containers leave -/

/-- A port has a role and a size, and so have the buffers. -/
structure Holds (k : Kind) (q : Port) (r : Role) (n : Nat) : Prop where
  role : q.data.role = some r
  size : q.data.dataBufferSize = n
  length : k = .rcc → q.bufferLength = n

variable {k k' : Kind} {r r' : Role} {n : Nat}

theorem holds_startProvider (hr : q.data.role = some r) (hn : q.data.dataBufferSize = n) :
    Holds k (k.startProvider q) r n := by
  cases k with
  | hdl => exact ⟨hr, hn, nofun⟩
  | ocl => exact ⟨hr, hn, nofun⟩
  | rcc =>
    refine ⟨?_, hn, fun _ => hn⟩
    show q.data.role.or _ = some r
    rw [hr]
    rfl

theorem holds_startUser {other : Descriptors} (hr : q.data.role = some r)
    (hn : q.data.dataBufferSize = n) (hother : other.dataBufferSize = n) :
    Holds k (k.startUser q other) r n := by
  cases k with
  | hdl => exact ⟨hr, hn, nofun⟩
  | ocl => exact ⟨hr, hn, nofun⟩
  | rcc =>
    have hmin : min q.data.dataBufferSize other.dataBufferSize = n := by
      rw [hn, hother, Nat.min_self]
    refine ⟨?_, hmin, fun _ => hmin⟩
    show q.data.role.or _ = some r
    rw [hr]
    rfl

theorem Holds.finish (h : Holds k q r n) : Holds k (k.finish q) r n := by
  cases k with
  | hdl => exact h
  | ocl => exact h
  | rcc =>
    refine ⟨?_, h.length rfl, h.length⟩
    show q.data.role.or _ = some r
    rw [h.role]
    rfl

theorem isSome_answer {shadow : Option Descriptors} : (k.answer shadow q).isSome = decide (k ≠ .ocl) := by
  cases k with
  | hdl => rfl
  | ocl => rfl
  | rcc => rfl

theorem finishAll_ne (hs : h.Sound) (u p : Port) : finishAll h u p ≠ .error .assertion := by
  unfold finishAll
  refine bind_ne hs.finishUser fun _ => ?_
  dsimp only
  refine ite_ne (bind_ne hs.finishProvider fun b => ?_) nofun
  refine ite_ne (bind_ne hs.finishUserAgain fun b => ?_) nofun
  exact ite_ne (bind_ne hs.finishProviderAgain fun _ => nofun) nofun

/-- **The calls of `finishConnect`** leave roles and sizes as they are. -/
theorem finishAll_ok {ends : Port × Port} (hu : Holds h.user u r n) (hp : Holds h.provider p r' n)
    (hok : finishAll h u p = .ok ends) :
    h.Finishes ∧ Holds h.user ends.1 r n ∧ Holds h.provider ends.2 r' n := by
  obtain ⟨⟨⟩, hfu, hok⟩ := bind_ok hok
  dsimp only at hok
  rw [isSome_answer] at hok
  by_cases hocl : h.user = .ocl
  · rw [if_neg (by simpa using hocl)] at hok
    cases hok
    exact ⟨⟨hfu, fun hne => absurd hocl hne⟩, hu.finish, hp⟩
  · rw [if_pos (decide_eq_true hocl)] at hok
    obtain ⟨b, hfp, hok⟩ := bind_ok hok
    cases b with
    | false =>
      cases hok
      exact ⟨⟨hfu, fun _ => ⟨false, hfp, nofun⟩⟩, hu.finish, hp.finish⟩
    | true =>
      obtain ⟨b, hfa, hok⟩ := bind_ok hok
      cases b with
      | false =>
        cases hok
        exact ⟨⟨hfu, fun _ => ⟨true, hfp, fun _ => ⟨false, hfa, nofun⟩⟩⟩, hu.finish.finish, hp.finish⟩
      | true =>
        obtain ⟨⟨⟩, hpa, hok⟩ := bind_ok hok
        cases hok
        exact ⟨⟨hfu, fun _ => ⟨true, hfp, fun _ => ⟨true, hfa, fun _ => hpa⟩⟩⟩, hu.finish.finish,
          hp.finish.finish⟩

theorem exists_finishAll (hf : h.Finishes) (u p : Port) : ∃ ends, finishAll h u p = .ok ends := by
  obtain ⟨hfu, hrest⟩ := hf
  unfold finishAll
  rw [hfu]
  show ∃ ends, (if ((h.user.finish u |> h.user.answer h.shadow)).isSome = true then _ else _) = _
  rw [isSome_answer]
  by_cases hocl : h.user = .ocl
  · rw [if_neg (by simpa using hocl)]
    exact ⟨_, rfl⟩
  · rw [if_pos (decide_eq_true hocl)]
    obtain ⟨b, hfp, hrest⟩ := hrest hocl
    rw [hfp]
    cases b with
    | false => exact ⟨_, rfl⟩
    | true =>
      obtain ⟨b, hfa, hrest⟩ := hrest rfl
      rw [hfa]
      cases b with
      | false => exact ⟨_, rfl⟩
      | true =>
        rw [hrest rfl]
        exact ⟨_, rfl⟩

/-- **In one process** both ends agree exactly under the condition. -/
theorem connectUser_settled_iff (hs : h.Sound) (hu : u.data.Allowed) (hp : p.data.Allowed) :
    Settled u p uParams pParams (connectUser h u p uParams pParams) ↔
      ConnectOk h u p uParams pParams := by
  unfold Settled connectUser
  rw [safe_bind, safe_checkExternal, safe_bind, safe_checkExternal, safe_bind,
    safe_ne_iff (setConnectParams_ne _ _)]
  simp only [safe_bind, safe_ne_iff (setConnectParams_ne _ _), safe_determineRoles,
    safe_ne_iff hs.startProvider, safe_ne_iff hs.startUser, safe_ne_iff (finishAll_ne hs _ _), safe_pure]
  -- the containers start with the roles and the size that are settled on
  have hholds (u₁ p₁ : Port) (r r' : Role) (ends : Port × Port) (hends : finishAll h
      (h.user.startUser { u₁ with data := u₁.data.settle r (commonSize u₁.data p₁.data) }
        (h.provider.startProvider { p₁ with data := p₁.data.settle r' (commonSize u₁.data p₁.data) }).data)
      (h.provider.startProvider { p₁ with data := p₁.data.settle r' (commonSize u₁.data p₁.data) }) =
        .ok ends) : h.Finishes ∧ Holds h.user ends.1 r (commonSize u₁.data p₁.data) ∧
          Holds h.provider ends.2 r' (commonSize u₁.data p₁.data) :=
    have hp := holds_startProvider rfl rfl
    finishAll_ok (holds_startUser rfl rfl hp.size) hp hends
  constructor
  · intro hall u₁ p₁ hacc ru rp r r' hc
    obtain ⟨hsize, hend⟩ := hall hacc.externalProvider hacc.externalUser p₁ hacc.paramsProvider u₁
      hacc.paramsUser (r, r') ((chooseRoles_eq hc.user hc.provider).trans hc.choice)
    refine ⟨hsize, fun h₁ h₂ h₃ => ?_⟩
    obtain ⟨ends, hends⟩ := exists_finishAll h₃ _ _
    obtain ⟨-, hu', hp'⟩ := hholds u₁ p₁ r r' ends hends
    have hroles := (hend () h₁ () h₂ ends hends u₁ p₁ hacc.paramsUser hacc.paramsProvider).roles
    rw [hu'.role, hp'.role] at hroles
    exact (rolesAgree_iff (.refl _) (.refl _) ((setConnectParams_ok hacc.paramsUser).allowed hu)
      ((setConnectParams_ok hacc.paramsProvider).allowed hp) hc).mp hroles
  · intro hok hep heu p₁ hp₁ u₁ hu₁ a ha
    obtain ⟨ru, rp, hru, hrp⟩ := prefers_of_chooseRoles ha
    rw [chooseRoles_eq hru hrp] at ha
    have hc : Chooses u₁.data p₁.data ru rp a.1 a.2 := ⟨hru, hrp, ha⟩
    obtain ⟨hsize, hstraight⟩ := hok u₁ p₁ ⟨heu, hep, hu₁, hp₁⟩ ru rp a.1 a.2 hc
    refine ⟨hsize, fun _ h₁ _ h₂ ends hends u₂ p₂ hu₂ hp₂ => ?_⟩
    cases hu₁.symm.trans hu₂
    cases hp₁.symm.trans hp₂
    obtain ⟨h₃, hu', hp'⟩ := hholds u₁ p₁ a.1 a.2 ends hends
    constructor
    · rw [hu'.role, hp'.role]
      exact (rolesAgree_iff (.refl _) (.refl _) ((setConnectParams_ok hu₁).allowed hu)
        ((setConnectParams_ok hp₁).allowed hp) hc).mpr (hstraight h₁ h₂ h₃)
    · rw [hu'.size, hp'.size]
      exact ⟨rfl, le_commonSize.1, le_commonSize.2⟩

/-! ## In one container -/

/-- A mandate of the user is to push, and a provider that has to be passive has a user that may be active only. -/
structure MandatesFit (u p : Descriptors) : Prop where
  user : mandated u.options → u.role ≠ none → u.role = some .activeMessage
  provider : mandated p.options → p.role = some .passive → has u.options .activeOnly

/-- The condition for two RCC ports of one container, which are meant to ignore mandates. -/
def InsideOk (h : Hooks) (u p : Port) (uParams pParams : Params) : Prop :=
  ∀ u₁ p₁, setConnectParams u uParams = .ok u₁ → setConnectParams p pParams = .ok p₁ →
    ∀ rp r r', Chooses u₁.data.force p₁.data.release .activeMessage rp r r' →
      SizeFits u₁.data p₁.data ∧
        (h.startProvider = .ok () → h.startUser = .ok () → h.finishUser = .ok () →
          (∃ b, h.finishProvider = .ok b) → MandatesFit u₁.data p₁.data)

theorem mandated_force (d : Descriptors) : mandated d.force.options = mandated d.options := by
  unfold mandated Descriptors.force mandatedRole
  rw [Nat.testBit_or]
  exact Bool.or_false _

theorem mandated_release (d : Descriptors) : mandated d.release.options = mandated d.options := by
  unfold mandated Descriptors.release mandatedRole
  rw [Nat.testBit_xor, Nat.testBit_or, show Nat.testBit 5 5 = false from rfl, Bool.or_false, Bool.xor_false]

/-- The user gets two options. -/
theorem has_force (d : Descriptors) (r : Role) :
    has d.force.options r ↔ has d.options r ∨ r = .activeMessage ∨ r = .activeOnly := by
  unfold has Descriptors.force mandatedRole
  rw [Nat.testBit_or, Bool.or_eq_true]
  refine or_congr Iff.rfl ?_
  cases r <;> decide

/-- The provider loses them. -/
theorem has_release (d : Descriptors) (r : Role) :
    has d.release.options r ↔ has d.options r ∧ r ≠ .activeMessage ∧ r ≠ .activeOnly := by
  have hbit : Nat.testBit 5 r.number = true ↔ r = .activeMessage ∨ r = .activeOnly := by
    cases r <;> decide
  unfold has Descriptors.release mandatedRole
  rw [Nat.testBit_xor, Nat.testBit_or, ← not_or, ← hbit]
  cases d.options.testBit r.number <;> cases Nat.testBit 5 r.number <;> decide

theorem prefers_force (d : Descriptors) : Prefers d.force .activeMessage := rfl

/-- A provider that may have flow control gets it, unless it is mandated to do something else. -/
theorem chooseFrom_inside {u p : Descriptors} {rp r r' : Role} (hp : has p.options .activeFlowControl)
    (h : chooseFrom .activeMessage rp u.force.options p.release.options = .ok (r, r')) :
    r = .activeMessage ∧ r' = .activeFlowControl ∧ (mandated p.options → rp = .activeFlowControl) ∨
      mandated p.options = true ∧ mandated u.options = false ∧ rp ≠ .activeFlowControl ∧ r = rp.other ∧
        r' = rp ∧ (has u.options rp.other ∨ rp = .passive) := by
  have hflow : has p.release.options .activeFlowControl :=
    (has_release p _).mpr ⟨hp, by decide, by decide⟩
  by_cases hforced : mandated p.options = true ∧ rp ≠ .activeFlowControl
  · obtain ⟨hpm, hne⟩ := hforced
    have hother : Role.activeMessage ≠ rp.other := fun heq => hne (eq_other_comm.mp heq)
    unfold chooseFrom at h
    rw [mandated_force, mandated_release, if_pos hpm, if_neg hother] at h
    split at h
    · cases h
    · next hum =>
      split at h
      · next hhas =>
        cases h
        refine Or.inr ⟨hpm, Bool.eq_false_iff.mpr hum, hne, rfl, rfl, ?_⟩
        rcases (has_force u _).mp hhas with hhas | heq | heq
        · exact Or.inl hhas
        · exact absurd heq.symm hother
        · exact Or.inr (eq_other_comm.mp heq.symm)
      · cases h
  · have hfree : mandated p.options → rp = .activeFlowControl := fun hm =>
      Decidable.not_not.mp fun hne => hforced ⟨hm, hne⟩
    rw [chooseFrom_pushing (fun hm => hfree ((mandated_release p).symm.trans hm)) hflow] at h
    cases h
    exact Or.inl ⟨rfl, rfl, hfree⟩

theorem role_of_prefers_release {p : Descriptors} {rp : Role} (hp : has p.options .activeFlowControl)
    (h : Prefers p.release rp) : p.role = some rp ∨ p.role = none ∧ rp = .activeFlowControl := by
  by_cases hnone : p.role = none
  · have hpush : has p.release.options .activeMessage = false :=
      Bool.eq_false_iff.mpr fun hh => ((has_release p _).mp hh).2.1 rfl
    have hflow : has p.release.options .activeFlowControl = true :=
      (has_release p _).mpr ⟨hp, by decide, by decide⟩
    have hfind : roles.find? (has p.release.options) = some .activeFlowControl := by
      unfold roles
      rw [List.find?_cons_of_neg (by rw [hpush]; exact nofun), List.find?_cons_of_pos hflow]
    unfold Prefers defaultRole at h
    rw [show p.release.role = none from hnone] at h
    dsimp only at h
    rw [hfind] at h
    cases h
    exact Or.inr ⟨hnone, rfl⟩
  · exact Or.inl (h.role hnone)

/-- **What is chosen inside** agrees with the requests exactly if the mandates fit it. -/
theorem rolesAgree_inside_iff {u p : Descriptors} {rp r r' : Role} (hu : has u.options .activeMessage)
    (hp : has p.options .activeFlowControl) (hap : p.Allowed)
    (h : Chooses u.force p.release .activeMessage rp r r') :
    RolesAgree u p (some r) (some r') ↔ MandatesFit u p := by
  have hrole := role_of_prefers_release hp h.provider
  rcases chooseFrom_inside hp h.choice with ⟨rfl, rfl, hflow⟩ | ⟨hpm, hum, hne, rfl, rfl, hhas⟩
  · have hmp : mandated p.options → p.role ≠ none → p.role = some .activeFlowControl := by
      intro hm hsome
      obtain rfl := hflow hm
      exact hrole.resolve_right fun hnone => hsome hnone.1
    constructor
    · rintro ⟨-, hmu, -⟩
      refine ⟨fun hm hsome => (hmu hm hsome).symm, fun hm hpassive => ?_⟩
      cases hpassive.symm.trans (hmp hm (by rw [hpassive]; exact nofun))
    · rintro ⟨hmu, -⟩
      exact ⟨⟨_, rfl, rfl, hu, hp⟩, fun hm hsome => (hmu hm hsome).symm, fun hm hsome => (hmp hm hsome).symm⟩
  · have hsome : p.role = some r' := hrole.resolve_right fun hnone => hne hnone.2
    constructor
    · rintro ⟨⟨s, hs, -, hus, -⟩, -⟩
      cases hs
      refine ⟨fun hm => absurd hm (by rw [hum]; exact nofun), fun _ hpassive => ?_⟩
      cases hsome.symm.trans hpassive
      exact hus
    · rintro ⟨-, hpassive⟩
      refine ⟨⟨_, rfl, by rw [other_other], ?_, ?_⟩, fun hm => absurd hm (by rw [hum]; exact nofun),
        fun _ _ => hsome.symm⟩
      · rcases hhas with hhas | rfl
        · exact hhas
        · exact hpassive hpm hsome
      · rw [other_other]
        exact hap _ hsome

theorem holds_localConnect (hr : q.data.role = some r) (hn : p.bufferLength = n) :
    Holds .rcc (localConnect q p) r n := by
  refine ⟨?_, hn, fun _ => hn⟩
  show q.data.role.or _ = some r
  rw [hr]
  rfl

theorem Adjusted.has_eq {q' : Port} (h : Adjusted params q q') (r : Role) :
    has q'.data.options r = has q.data.options r := by
  rcases h.role with ⟨-, ho⟩ | ⟨-, -, -, ho⟩
  · rw [ho]
  · rw [ho, has_mandate]

/-- Both ends have the size of the provider's buffers. -/
theorem agreed_inside_iff (u p : Port) (r r' : Role) (hn : n = commonSize u.data p.data) :
    Agreed u.data p.data
        (Kind.rcc.finish (localConnect { u with data := u.data.force.settle r n }
          (createInputPort { p with data := p.data.release.settle r' n }))).data
        (Kind.rcc.finish (createInputPort { p with data := p.data.release.settle r' n })).data ↔
      RolesAgree u.data p.data (some r) (some r') := by
  have hp : Holds .rcc (createInputPort { p with data := p.data.release.settle r' n }) r' n :=
    holds_startProvider (k := .rcc) rfl rfl
  have hu : Holds .rcc (localConnect { u with data := u.data.force.settle r n } _) r n :=
    holds_localConnect rfl (hp.length rfl)
  have hle : u.data.dataBufferSize ≤ n ∧ p.data.dataBufferSize ≤ n := hn ▸ le_commonSize
  rw [← hu.finish.role, ← hp.finish.role]
  refine ⟨fun hend => hend.roles, fun hroles => ⟨hroles, ?_⟩⟩
  rw [hu.finish.size, hp.finish.size]
  exact ⟨rfl, hle.1, hle.2⟩

/-- **Inside a container** both ends agree exactly under the condition. -/
theorem connectInside_settled_iff (hs : h.Sound) (hu : has u.data.options .activeMessage)
    (hp : has p.data.options .activeFlowControl) (hap : p.data.Allowed) :
    Settled u p uParams pParams (connectInside h u p uParams pParams) ↔
      InsideOk h u p uParams pParams := by
  unfold Settled connectInside
  simp only [safe_bind, safe_ne_iff (setConnectParams_ne _ _), safe_determineRoles,
    safe_ne_iff hs.startProvider, safe_ne_iff hs.startUser, safe_ne_iff hs.finishUser,
    safe_ne_iff hs.finishProvider, safe_pure]
  have hroles {u₁ p₁ : Port} {rp r r' : Role} (hu₁ : setConnectParams u uParams = .ok u₁)
      (hp₁ : setConnectParams p pParams = .ok p₁)
      (hc : Chooses u₁.data.force p₁.data.release .activeMessage rp r r') :
      RolesAgree u₁.data p₁.data (some r) (some r') ↔ MandatesFit u₁.data p₁.data := by
    have hau := setConnectParams_ok hu₁
    have hap' := setConnectParams_ok hp₁
    exact rolesAgree_inside_iff ((hau.has_eq _).trans hu) ((hap'.has_eq _).trans hp) (hap'.allowed hap) hc
  constructor
  · intro hall u₁ p₁ hu₁ hp₁ rp r r' hc
    obtain ⟨hsize, hend⟩ := hall p₁ hp₁ u₁ hu₁ (r, r')
      ((chooseRoles_eq hc.user hc.provider).trans hc.choice)
    refine ⟨hsize, fun h₁ h₂ h₃ ⟨b, h₄⟩ => ?_⟩
    exact (hroles hu₁ hp₁ hc).mp ((agreed_inside_iff u₁ p₁ r r' rfl).mp (hend () h₁ () h₂ () h₃ b h₄ u₁ p₁ hu₁ hp₁))
  · intro hok p₁ hp₁ u₁ hu₁ a ha
    obtain ⟨ru, rp, hru, hrp⟩ := prefers_of_chooseRoles ha
    rw [chooseRoles_eq hru hrp] at ha
    cases hru
    have hc : Chooses u₁.data.force p₁.data.release .activeMessage rp a.1 a.2 :=
      ⟨prefers_force u₁.data, hrp, ha⟩
    obtain ⟨hsize, hend⟩ := hok u₁ p₁ hu₁ hp₁ rp a.1 a.2 hc
    refine ⟨hsize, fun _ h₁ _ h₂ _ h₃ b h₄ u₂ p₂ hu₂ hp₂ => ?_⟩
    cases hu₁.symm.trans hu₂
    cases hp₁.symm.trans hp₂
    exact (agreed_inside_iff u₁ p₁ a.1 a.2 rfl).mpr ((hroles hu₁ hp₁ hc).mpr (hend h₁ h₂ h₃ ⟨b, h₄⟩))

end OpenCpi.Container
