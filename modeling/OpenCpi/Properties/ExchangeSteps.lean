import OpenCpi.Properties.Connect

/-!
# The steps of an exchange

The copies that the ports negotiate on are faithful. Each step then says what it needs and what it
leaves: its checks are those of the negotiation, the sizes at the ends depend on the kinds of the
containers, and the provider settles on the role against the user's, or throws.
-/

namespace OpenCpi.Container

open Infra Ior

/-! ## Packed descriptors -/

/-- The fields fit what they are packed into. -/
structure Descriptors.Ranged (d : Descriptors) : Prop where
  words : ∀ n ∈ d.words, n < 2 ^ 32
  portId : d.portId < 2 ^ 64
  cookie : d.cookie < 2 ^ 64
  oep : d.oep.length + 1 < 2 ^ 32

theorem roleOf_roleNumber (r : Option Role) : roleOf (roleNumber r) = r := by
  rcases r with _ | _ | _ | _ | _ <;> rfl

theorem decodes_descriptors (native : Bool) {d : Descriptors} (hd : d.Ranged) :
    Decodes (getDescriptors native) (fun b => putULongLong (nativeStyle native) d.cookie
      (putString (nativeStyle native) d.oep (putULongLong (nativeStyle native) d.portId
        (putAll (putULong (nativeStyle native)) d.words (putBoolean native b))))) d := by
  have hwords : Decodes (getAll (getULong native native) 17)
      (putAll (putULong (nativeStyle native)) d.words) d.words :=
    decodes_all (l := d.words) fun n hn => decodes_uLong (s := nativeStyle native) (hd.words n hn)
  unfold getDescriptors
  refine Decodes.bind (p := fun b => putULongLong (nativeStyle native) d.cookie
    (putString (nativeStyle native) d.oep (putULongLong (nativeStyle native) d.portId
      (putAll (putULong (nativeStyle native)) d.words b)))) (decodes_boolean native) ?_
  refine Decodes.bind (p := fun b => putULongLong (nativeStyle native) d.cookie
    (putString (nativeStyle native) d.oep (putULongLong (nativeStyle native) d.portId b))) hwords ?_
  refine Decodes.bind (p := fun b => putULongLong (nativeStyle native) d.cookie
    (putString (nativeStyle native) d.oep b)) (decodes_uLongLong (s := nativeStyle native) hd.portId) ?_
  refine Decodes.bind (p := putULongLong (nativeStyle native) d.cookie) (decodes_string (s := nativeStyle native) hd.oep) ?_
  refine Decodes.bind (p := id) (decodes_uLongLong (s := nativeStyle native) hd.cookie) ?_
  simp only [Descriptors.words, roleOf_roleNumber]
  exact decodes_pure d

/-- **What a port packs is unpacked.** -/
theorem unpackPortDesc_packPortDesc (native : Bool) {d : Descriptors} (hd : d.Ranged)
    (d₀ : Descriptors) : unpackPortDesc native (packPortDesc native d) d₀ = d := by
  have hget := (decodes_descriptors native hd).get [] _ List.prefix_rfl
  unfold unpackPortDesc packPortDesc
  rw [List.length_nil] at hget
  simp only [hget]

/-- The numbers among the parameters are of 32 bits. -/
structure Params.Ranged (params : Params) : Prop where
  count : ∀ n, params.bufferCount = some n → n < 2 ^ 32
  size : ∀ n, params.bufferSize = some n → n < 2 ^ 32

theorem mandate_lt {o : Nat} (h : o < 2 ^ 32) : mandate o < 2 ^ 32 :=
  Nat.or_lt_two_pow h (by decide)

theorem roleNumber_lt (r : Option Role) : roleNumber r < 2 ^ 32 := by
  rcases r with _ | _ | _ | _ | _ <;> decide

variable {d : Descriptors} {h : Hooks} {q q' u p u₁ p₁ : Port} {uParams pParams params : Params}
  {native : Bool}

/-- The negotiated fields are changed. -/
theorem Descriptors.Ranged.change (hd : d.Ranged) {n k o : Nat} {r : Option Role} (hn : n < 2 ^ 32)
    (hk : k < 2 ^ 32) (ho : o < 2 ^ 32) :
    ({ d with nBuffers := n, dataBufferSize := k, role := r, options := o } : Descriptors).Ranged := by
  refine ⟨?_, hd.portId, hd.cookie, hd.oep⟩
  have hw := hd.words
  simp only [Descriptors.words, List.mem_cons, List.not_mem_nil, or_false, forall_eq_or_imp,
    forall_eq] at hw ⊢
  obtain ⟨h₁, -, -, -, h₅, h₆, -, hrest⟩ := hw
  exact ⟨h₁, roleNumber_lt r, ho, hn, h₅, h₆, hk, hrest⟩

theorem Descriptors.Ranged.negotiated (hd : d.Ranged) :
    d.nBuffers < 2 ^ 32 ∧ d.dataBufferSize < 2 ^ 32 ∧ d.options < 2 ^ 32 := by
  refine ⟨hd.words _ ?_, hd.words _ ?_, hd.words _ ?_⟩
  all_goals simp [Descriptors.words]

theorem Adjusted.ranged (ha : Adjusted params q q') (hp : params.Ranged) (hq : q.data.Ranged) :
    q'.data.Ranged := by
  obtain ⟨hn, hk, ho⟩ := hq.negotiated
  obtain ⟨n, k, r, o, rfl⟩ := ha.rest
  refine hq.change ?_ ?_ ?_
  · rcases ha.count with h | h
    · exact lt_of_eq_of_lt h hn
    · exact hp.count _ h
  · rcases ha.size with h | h
    · exact lt_of_eq_of_lt h hk
    · exact hp.size _ h
  · rcases ha.role with ⟨-, h⟩ | ⟨-, -, -, h⟩
    · exact lt_of_eq_of_lt h ho
    · exact lt_of_eq_of_lt h (mandate_lt ho)

theorem Descriptors.Ranged.settle (hd : d.Ranged) {r : Role} {k : Nat} (hk : k < 2 ^ 32) :
    (d.settle r k).Ranged :=
  hd.change hd.negotiated.1 hk (mandate_lt hd.negotiated.2.2)

theorem Adjusted.provider (ha : Adjusted params q q') : q'.provider = q.provider := by
  obtain ⟨n, k, r, o, rfl⟩ := ha.rest
  rfl

/-! ## What the containers leave -/

@[simp] theorem provider_startProvider (k : Kind) (q : Port) : (k.startProvider q).provider = q.provider := by
  cases k <;> rfl

@[simp] theorem provider_startUser (k : Kind) (q : Port) (d : Descriptors) :
    (k.startUser q d).provider = q.provider := by
  cases k <;> rfl

@[simp] theorem provider_finish (k : Kind) (q : Port) : (k.finish q).provider = q.provider := by
  cases k <;> rfl

theorem getPortDescriptor_ranged (hq : q.data.Ranged) (hlength : q.bufferLength < 2 ^ 32) :
    (getPortDescriptor q).Ranged :=
  hq.change hq.negotiated.1 hlength hq.negotiated.2.2

theorem startProvider_ranged (k : Kind) (hq : q.data.Ranged) : (k.startProvider q).data.Ranged := by
  cases k with
  | hdl => exact hq
  | ocl => exact hq
  | rcc => exact hq.change hq.negotiated.1 hq.negotiated.2.1 hq.negotiated.2.2

theorem startUser_ranged (k : Kind) (hq : q.data.Ranged) : (k.startUser q d).data.Ranged := by
  cases k with
  | hdl => exact hq
  | ocl => exact hq
  | rcc =>
    exact hq.change hq.negotiated.1 (Nat.lt_of_le_of_lt (Nat.min_le_left ..) hq.negotiated.2.1)
      hq.negotiated.2.2

/-- A port of an RCC container has the role that it is given for want of another. -/
def Defaults (k : Kind) (q : Port) : Prop :=
  k = .rcc → has q.data.options (if q.provider then .activeFlowControl else .activeMessage)

theorem keeps_getPortDescriptor (q : Port) : Keeps q.data (getPortDescriptor q) := by
  refine ⟨rfl, fun hne => ?_⟩
  obtain ⟨r, hr⟩ := Option.ne_none_iff_exists'.mp hne
  unfold getPortDescriptor
  dsimp only
  rw [hr]
  rfl

theorem allowed_getPortDescriptor (hq : q.data.Allowed)
    (hd : has q.data.options (if q.provider then .activeFlowControl else .activeMessage)) :
    (getPortDescriptor q).Allowed := by
  intro r hr
  cases hrole : q.data.role with
  | none =>
    unfold getPortDescriptor at hr
    dsimp only at hr
    rw [hrole] at hr
    cases hr
    exact hd
  | some s =>
    have hs := (keeps_getPortDescriptor q).role (by rw [hrole]; nofun)
    exact hq r (hs.symm.trans hr)

theorem keeps_startProvider (k : Kind) (q : Port) : Keeps q.data (k.startProvider q).data := by
  cases k with
  | hdl => exact .refl _
  | ocl => exact .refl _
  | rcc => exact keeps_getPortDescriptor { q with bufferLength := q.data.dataBufferSize }

theorem keeps_startUser (k : Kind) (q : Port) (d : Descriptors) : Keeps q.data (k.startUser q d).data := by
  cases k with
  | hdl => exact .refl _
  | ocl => exact .refl _
  | rcc => exact keeps_getPortDescriptor { q with bufferLength := min q.data.dataBufferSize d.dataBufferSize }

theorem allowed_startProvider {k : Kind} (hq : q.data.Allowed) (hd : Defaults k q) :
    (k.startProvider q).data.Allowed := by
  cases k with
  | hdl => exact hq
  | ocl => exact hq
  | rcc =>
    exact allowed_getPortDescriptor (q := { q with bufferLength := q.data.dataBufferSize }) hq (hd rfl)

theorem allowed_startUser {k : Kind} (hq : q.data.Allowed) (hd : Defaults k q) :
    (k.startUser q d).data.Allowed := by
  cases k with
  | hdl => exact hq
  | ocl => exact hq
  | rcc =>
    exact allowed_getPortDescriptor (q := { q with bufferLength := min q.data.dataBufferSize d.dataBufferSize }) hq (hd rfl)

theorem role_finish {k : Kind} {r : Role} (h : q.data.role = some r) : (k.finish q).data.role = some r := by
  cases k with
  | hdl => exact h
  | ocl => exact h
  | rcc =>
    exact ((keeps_getPortDescriptor q).role (by rw [h]; nofun)).trans h

theorem options_finish (k : Kind) (q : Port) : (k.finish q).data.options = q.data.options := by
  cases k <;> rfl

theorem size_finish (k : Kind) (q : Port) :
    (k.finish q).data.dataBufferSize = if k = .rcc then q.bufferLength else q.data.dataBufferSize := by
  cases k <;> rfl

theorem size_startProvider (k : Kind) (q : Port) :
    (k.startProvider q).data.dataBufferSize = q.data.dataBufferSize := by
  cases k <;> rfl

theorem size_startUser (k : Kind) (q : Port) (d : Descriptors) : (k.startUser q d).data.dataBufferSize =
    if k = .rcc then min q.data.dataBufferSize d.dataBufferSize else q.data.dataBufferSize := by
  cases k <;> rfl

/-- The buffers of an RCC port have the size that the port starts with. -/
theorem length_startProvider {k : Kind} (hk : k = .rcc) (q : Port) :
    (k.startProvider q).bufferLength = q.data.dataBufferSize := by
  subst hk
  rfl

theorem length_startUser {k : Kind} (hk : k = .rcc) (q : Port) (d : Descriptors) :
    (k.startUser q d).bufferLength = min q.data.dataBufferSize d.dataBufferSize := by
  subst hk
  rfl

/-! ## The steps of the exchange -/

/-- The provider after `startConnect`. -/
def Hooks.provided (h : Hooks) (p : Port) : Port := h.provider.startProvider p

/-- The user after `startConnect`. -/
def Hooks.used (h : Hooks) (u p : Port) : Port := h.user.startUser u (h.provided p).data

theorem safe_check {b : Bool} {P : Unit → Prop} (hb : b = true) : Safe P (check b) ↔ P () := by
  subst hb
  exact Iff.rfl

theorem safe_getInitialProviderInfo {P : Port × Bytes → Prop} (hs : h.Sound)
    (hp : p.provider = true) :
    Safe P (getInitialProviderInfo native h p params) ↔ (p.canBeExternal = true →
      ∀ p₁, setConnectParams p params = .ok p₁ → h.startProvider = .ok () →
        P (h.provided p₁, packPortDesc native (h.provided p₁).data)) := by
  unfold getInitialProviderInfo
  rw [safe_bind, safe_check hp, safe_bind, safe_checkExternal]
  simp only [safe_bind, safe_ne_iff (setConnectParams_ne _ _), safe_ne_iff hs.startProvider, safe_pure]
  exact ⟨fun hall hc p₁ hp₁ h₁ => hall hc p₁ hp₁ () h₁,
    fun hall hc p₁ hp₁ _ h₁ => hall hc p₁ hp₁ h₁⟩

/-- The user after the choice of its role. -/
def Hooks.chosen (h : Hooks) (u : Port) (d : Descriptors) (r : Role) : Port :=
  h.user.finish { u with data := u.data.settle r (commonSize u.data d) }

theorem safe_setInitialProviderInfo {P : Port × Option Bytes → Prop} (hs : h.Sound)
    (hu : u.provider = false) (hd : d.Ranged) :
    Safe P (setInitialProviderInfo native h u params (packPortDesc native d)) ↔
      (u.canBeExternal = true → ∀ u₁, setConnectParams u params = .ok u₁ → h.startUser = .ok () →
        ∀ a, chooseRoles (h.user.startUser u₁ d).data.role (h.user.startUser u₁ d).data.options d.role
            d.options = .ok a →
          SizeFits (h.user.startUser u₁ d).data d ∧ (h.finishUser = .ok () →
            P (h.chosen (h.user.startUser u₁ d) d a.1,
              (h.user.answer h.shadow (h.chosen (h.user.startUser u₁ d) d a.1)).map
                (packPortDesc native)))) := by
  unfold setInitialProviderInfo
  rw [safe_bind, safe_check (by rw [hu]; rfl), safe_bind, safe_checkExternal]
  simp only [safe_bind, safe_ne_iff (setConnectParams_ne _ _), safe_ne_iff hs.startUser,
    unpackPortDesc_packPortDesc native hd, safe_determineRoles, safe_ne_iff hs.finishUser, safe_pure]
  constructor
  · intro hall hc u₁ hu₁ h₁ a ha
    obtain ⟨hsize, hend⟩ := hall hc u₁ hu₁ () h₁ a ha
    exact ⟨hsize, fun h₂ => hend () h₂⟩
  · intro hall hc u₁ hu₁ _ h₁ a ha
    obtain ⟨hsize, hend⟩ := hall hc u₁ hu₁ h₁ a ha
    exact ⟨hsize, fun _ h₂ => hend h₂⟩

/-- The provider after it has chosen once more. -/
def Hooks.answered (h : Hooks) (p : Port) (d : Descriptors) (r : Role) : Port :=
  h.provider.finish { p with data := p.data.settle r (commonSize d p.data) }

theorem safe_setInitialUserInfo {P : Port × Option Bytes → Prop} (hs : h.Sound)
    (hp : p.provider = true) (hd : d.Ranged) :
    Safe P (setInitialUserInfo native h p (packPortDesc native d)) ↔
      ∀ a, chooseRoles d.role d.options p.data.role p.data.options = .ok a →
        SizeFits d p.data ∧ ∀ b, h.finishProvider = .ok b →
          P (h.answered p d a.2, if b then some (packPortDesc native (h.answered p d a.2).data) else none) := by
  unfold setInitialUserInfo
  rw [safe_bind, safe_check hp]
  simp only [safe_bind, unpackPortDesc_packPortDesc native hd, safe_determineRoles,
    safe_ne_iff hs.finishProvider, safe_pure]
  exact Iff.rfl

/-- The last step is on the provider, where its assertion fails. -/
theorem safe_lastSteps {P : Port × Port → Prop} (hs : h.Sound) (hu : u.provider = false)
    (hp : p.provider = true) (hP : P (h.user.finish u, p) ↔ P (u, p)) {b : Bool} {fpi : Bytes} :
    Safe P (lastSteps native h u p (if b then some fpi else none)) ↔
      (b = true → h.finishUserAgain ≠ .ok true) ∧
        ((b = true → h.finishUserAgain = .ok false) → P (u, p)) := by
  cases b with
  | false => exact ⟨fun hpp => ⟨nofun, fun _ => hpp⟩, fun hpp => hpp.2 nofun⟩
  | true =>
    rw [if_pos rfl]
    unfold lastSteps setFinalProviderInfo setFinalUserInfo
    rw [safe_bind, safe_bind, safe_check (by rw [hu]; rfl)]
    simp only [safe_bind, safe_ne_iff hs.finishUserAgain, safe_pure, hp]
    constructor
    · intro hall
      refine ⟨fun _ ht => ?_, fun hf => hP.mp (hall false (hf trivial))⟩
      exact absurd rfl (hall true ht)
    · rintro ⟨hne, hend⟩ b hb
      cases b with
      | false => exact hP.mpr (hend fun _ => hb)
      | true => exact absurd hb (hne trivial)

/-- The last step is not reached, and if the provider's calls return then `Q`. -/
def Hooks.Concludes (h : Hooks) (Q : Prop) : Prop :=
  ∀ b, h.finishProvider = .ok b → (b = true → h.finishUserAgain ≠ .ok true) ∧
    ((b = true → h.finishUserAgain = .ok false) → Q)

theorem Hooks.concludes_congr {Q Q' : Prop} (hq : Q ↔ Q') : h.Concludes Q ↔ h.Concludes Q' :=
  forall₂_congr fun _ _ => and_congr_right fun _ => imp_congr_right fun _ => hq

/-- The steps of the provider and the last ones. -/
theorem safe_laterSteps {P : Port × Port → Prop} (hs : h.Sound) (hu : u.provider = false)
    (hp : p.provider = true) (hd : d.Ranged) (hP : ∀ p', P (h.user.finish u, p') ↔ P (u, p')) :
    Safe P (laterSteps native h u p (some (packPortDesc native d))) ↔
      ∀ a, chooseRoles d.role d.options p.data.role p.data.options = .ok a →
        SizeFits d p.data ∧ h.Concludes (P (u, h.answered p d a.2)) := by
  have hanswered (r : Role) : (h.answered p d r).provider = true := (provider_finish _ _).trans hp
  unfold laterSteps
  rw [safe_bind, safe_setInitialUserInfo hs hp hd]
  refine forall₂_congr fun a _ => and_congr_right fun _ => forall₂_congr fun b _ => ?_
  exact safe_lastSteps hs hu (hanswered a.2) (hP _)

/-! ## Sizes -/

/-- When the sizes at the ends are the same, and cover the requests: the buffers of an RCC port have
the size that it started with. -/
def SizesMeet (user provider : Kind) (u p answered : Nat) : Prop :=
  match user, provider with
  | .rcc, .rcc => u = p
  | .rcc, _ => u = p ∧ 16 ∣ p ∧ answered ≤ p
  | _, .rcc => u ≤ p ∧ 16 ∣ p
  | _, _ => True

theorem min_eq_roundUp_iff {u p answered : Nat} :
    min u p = roundUp (max answered p) bufferAlignment ∧ u ≤ min u p ∧ p ≤ min u p ↔
      u = p ∧ 16 ∣ p ∧ answered ≤ p := by
  unfold roundUp bufferAlignment
  constructor
  · rintro ⟨h₁, h₂, h₃⟩
    omega
  · rintro ⟨h₁, h₂, h₃⟩
    omega

theorem roundUp_eq_iff {u p : Nat} : roundUp (max u p) bufferAlignment = p ∧
    u ≤ roundUp (max u p) bufferAlignment ∧ p ≤ roundUp (max u p) bufferAlignment ↔ u ≤ p ∧ 16 ∣ p := by
  unfold roundUp bufferAlignment
  constructor
  · rintro ⟨h₁, h₂, h₃⟩
    omega
  · rintro ⟨h₁, h₂⟩
    omega

theorem roundUp_again {u p : Nat} : roundUp (max u p) bufferAlignment =
      roundUp (max (roundUp (max u p) bufferAlignment) p) bufferAlignment ∧
    u ≤ roundUp (max u p) bufferAlignment ∧ p ≤ roundUp (max u p) bufferAlignment := by
  unfold roundUp bufferAlignment
  omega

theorem sizesAgree_and_iff {u p : Descriptors} {n n' : Nat} : SizesAgree u p n n' ↔
    n = n' ∧ u.dataBufferSize ≤ n ∧ p.dataBufferSize ≤ n :=
  ⟨fun h => ⟨h.same, h.user, h.provider⟩, fun h => ⟨h.1, h.2.1, h.2.2⟩⟩

/-- What an RCC user returns matters only to another provider. -/
theorem sizesMeet_congr {user provider : Kind} {u p answered answered' : Nat}
    (hle : user = .rcc → (answered ≤ p ↔ answered' ≤ p)) :
    SizesMeet user provider u p answered ↔ SizesMeet user provider u p answered' := by
  unfold SizesMeet
  cases user with
  | rcc => cases provider <;> simp only [hle rfl]
  | hdl => cases provider <;> rfl
  | ocl => cases provider <;> rfl

theorem sizesAgree_iff {user provider : Kind} {u p : Descriptors} {answered : Nat}
    (hanswered : user ≠ .rcc → answered = commonSize u p) :
    SizesAgree u p (if user = .rcc then min u.dataBufferSize p.dataBufferSize else commonSize u p)
        (if provider = .rcc then p.dataBufferSize
          else roundUp (max answered p.dataBufferSize) bufferAlignment) ↔
      SizesMeet user provider u.dataBufferSize p.dataBufferSize answered := by
  rw [sizesAgree_and_iff]
  by_cases huser : user = .rcc
  · subst huser
    rw [if_pos rfl]
    cases provider with
    | rcc =>
      show min _ _ = _ ∧ _ ↔ u.dataBufferSize = p.dataBufferSize
      rw [if_pos rfl]
      omega
    | hdl => exact min_eq_roundUp_iff
    | ocl => exact min_eq_roundUp_iff
  · have hmeet : SizesMeet user provider u.dataBufferSize p.dataBufferSize answered ↔
        (provider = .rcc → u.dataBufferSize ≤ p.dataBufferSize ∧ 16 ∣ p.dataBufferSize) := by
      unfold SizesMeet
      cases user <;> cases provider <;> simp_all
    rw [if_neg huser, hmeet, hanswered huser]
    by_cases hprovider : provider = .rcc
    · rw [if_pos hprovider, forall_prop_of_true hprovider]
      exact roundUp_eq_iff
    · rw [if_neg hprovider]
      exact iff_of_true roundUp_again fun h => absurd h hprovider

/-! ## Roles -/

/-- The provider finds a role against the one that the user has settled on. -/
def ChoosesAgain (ru rp : Role) (uOptions pOptions : Nat) : Prop :=
  (SlipPush ru rp uOptions pOptions → has pOptions .activeMessage) ∧
    ¬SlipOnly ru rp uOptions pOptions

/-- What the user chose is what it holds on to; the provider follows or throws. -/
theorem chooseFrom_settled {ru rp r r' : Role} {uO pO : Nat} (hu : has uO ru) (hp : has pO rp)
    (hc : chooseFrom ru rp uO pO = .ok (r, r')) (a : Role × Role) :
    chooseFrom r rp (mandate uO) pO = .ok a ↔
      ChoosesAgain ru rp uO pO ∧ a = (r, r.other) ∧ has pO r.other := by
  by_cases hpush : SlipPush ru rp uO pO
  · have hnot : ¬SlipOnly ru rp uO pO := by
      intro hslip
      rw [chooseFrom_push hpush] at hc
      cases hpush.2.2.1.symm.trans hslip.2.2.1
    have hpm := hpush.2.1
    obtain rfl : rp = .activeFlowControl := hpush.2.2.1
    rw [chooseFrom_push hpush] at hc
    cases hc
    rw [chooseFrom_again fun hm => absurd hm (by rw [hpm]; decide)]
    by_cases hhas : has pO Role.activeFlowControl.other
    · rw [if_pos (Or.inr hhas)]
      refine ⟨fun h => ?_, fun h => by rw [h.2.1]⟩
      cases h
      exact ⟨⟨fun _ => hhas, hnot⟩, rfl, hhas⟩
    · rw [if_neg (by rintro (h | h); exacts [absurd h (by decide), hhas h])]
      exact ⟨nofun, fun h => absurd h.2.2 hhas⟩
  · by_cases honly : SlipOnly ru rp uO pO
    · have hpm := honly.2.1
      rw [chooseFrom_only honly] at hc
      cases hc
      rw [chooseFrom_again fun hm => absurd hm (by rw [hpm]; decide), if_neg]
      · exact ⟨nofun, fun h => absurd honly h.1.2⟩
      · obtain ⟨-, -, rfl, -, hr, hno⟩ := honly
        rintro (h | h)
        · rcases hr with rfl | rfl <;> exact absurd h (by decide)
        · rw [hno] at h
          cases h
    · obtain ⟨rfl, hr, hr', -, hpm⟩ := chooseFrom_right hc hu hp ⟨hpush, honly⟩
      rw [chooseFrom_again fun hm => (hpm hm).symm, if_pos (Or.inr hr')]
      refine ⟨fun h => ?_, fun h => by rw [h.2.1]⟩
      cases h
      exact ⟨⟨fun h => absurd h hpush, honly⟩, rfl, hr'⟩

variable {d' d₀ d₀' : Descriptors} {ru rp r r' : Role}

/-- What both ends have after the exchange agrees exactly if the user's role is one of its
options. -/
theorem rolesAgree_again_iff (hk : Keeps d₀ d) (hk' : Keeps d₀' d') (ha : d.Allowed) (ha' : d'.Allowed)
    (hc : Chooses d d' ru rp r r') (hagain : ChoosesAgain ru rp d₀.options d₀'.options) :
    RolesAgree d₀ d₀' (some r) (some r.other) ↔
      (SlipPush ru rp d₀.options d₀'.options → has d₀.options .activeFlowControl) := by
  by_cases hpush : SlipPush ru rp d₀.options d₀'.options
  · have hchoice := hc.choice
    rw [hk.options, hk'.options, chooseFrom_push hpush] at hchoice
    cases hchoice
    constructor
    · rintro ⟨⟨s, hs, -, hhas, -⟩, -⟩ -
      cases hs
      exact hhas
    · intro hhas
      refine ⟨⟨.activeFlowControl, rfl, rfl, hhas hpush, hagain.1 hpush⟩, fun hm => ?_, fun hm => ?_⟩
      · rw [hpush.1] at hm
        cases hm
      · rw [hpush.2.1] at hm
        cases hm
  · have hstraight : Straight ru rp d₀.options d₀'.options := ⟨hpush, hagain.2⟩
    obtain rfl := (hc.right hk hk' ha ha' hstraight).1
    exact iff_of_true ((rolesAgree_iff hk hk' ha ha' hc).mpr hstraight) fun h => absurd h hpush

/-- The user pushes, and tells what its shadow has: the provider chooses as before, or throws where it
has slipped and the options that it is told are mandated. -/
theorem chooseFrom_shadow {o : Nat} (hk : d.options = d₀.options) (hk' : d'.options = d₀'.options)
    (ha : d.Allowed) (ha' : d'.Allowed) (hc : Chooses d d' ru rp .activeMessage r') (a : Role × Role) :
    chooseFrom .activeMessage rp o d₀'.options = .ok a ↔
      ¬(SlipOnly ru rp d₀.options d₀'.options ∧ mandated o) ∧ a = (.activeMessage, r') := by
  have hchoice := hc.choice
  have hru := hc.user.has ha
  have hrp := hc.provider.has ha'
  rw [hk, hk'] at hchoice
  rw [hk] at hru
  rw [hk'] at hrp
  by_cases honly : SlipOnly ru rp d₀.options d₀'.options
  · rw [chooseFrom_only honly] at hchoice
    cases hchoice
    have hpm := honly.2.1
    have hao := honly.2.2.2.1
    have hno := honly.2.2.2.2.2
    obtain rfl : rp = .passive := honly.2.2.1
    by_cases hm : mandated o
    · have hthrow : chooseFrom .activeMessage .passive o d₀'.options =
          .error (.error "No compatible role available against mandated role") := by
        unfold chooseFrom
        rw [if_neg (by simp [hpm]), if_pos hm, if_neg (by decide), if_neg (by simpa using hno)]
        rfl
      rw [hthrow]
      exact ⟨nofun, fun h => absurd ⟨honly, hm⟩ h.1⟩
    · have hslip : SlipOnly .activeMessage .passive o d₀'.options :=
        ⟨Bool.eq_false_iff.mpr hm, hpm, rfl, hao, Or.inl rfl, hno⟩
      rw [chooseFrom_only hslip]
      refine ⟨fun h => ⟨fun hand => hm hand.2, ?_⟩, fun h => by rw [h.2]⟩
      cases h
      rfl
  · have hpush : ¬SlipPush ru rp d₀.options d₀'.options := by
      intro hslip
      rw [chooseFrom_push hslip] at hchoice
      cases hchoice
    obtain ⟨rfl, -, hhas, -, hpm⟩ := chooseFrom_right hchoice hru hrp ⟨hpush, honly⟩
    rw [chooseFrom_pushing (fun hm => (hpm hm).symm) hhas]
    refine ⟨fun h => ⟨fun hand => honly hand.1, ?_⟩, fun h => ?_⟩
    · cases h
      rfl
    · rw [h.2]
      rfl

/-- A provider that is told nothing agrees if it happens to have the role. -/
theorem rolesAgree_silent_iff (hk : Keeps d₀ d) (hk' : Keeps d₀' d') (ha : d.Allowed) (ha' : d'.Allowed)
    (hc : Chooses d d' ru rp r r') :
    RolesAgree d₀ d₀' (some r) d'.role ↔ d'.role = some r.other := by
  constructor
  · rintro ⟨⟨s, hs, hs', -⟩, -⟩
    cases hs
    exact hs'
  · intro hrole
    have hrp : some rp = some r.other := (hc.provider.role (by rw [hrole]; nofun)).symm.trans hrole
    obtain rfl := Option.some.inj hrp
    have hchoice := hc.choice
    rw [hk.options, hk'.options] at hchoice
    have hstraight : Straight ru r.other d₀.options d₀'.options := by
      constructor
      · intro hslip
        rw [chooseFrom_push hslip] at hchoice
        cases hchoice
        exact absurd hslip.2.2.1 (by decide)
      · intro hslip
        rw [chooseFrom_only hslip] at hchoice
        cases hchoice
        rcases hslip.2.2.2.2.1 with rfl | rfl
        · exact absurd hslip.2.2.1 (by decide)
        · exact absurd hslip.2.2.1 (by decide)
    obtain rfl := (hc.right hk hk' ha ha' hstraight).1
    rw [hrole]
    exact (rolesAgree_iff hk hk' ha ha' hc).mpr hstraight

end OpenCpi.Container
