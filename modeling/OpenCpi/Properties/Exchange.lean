import OpenCpi.Properties.ExchangeSteps

/-!
# Connecting by exchange

The ports are in different processes, and each negotiates on a copy of the other's descriptor. The
copies are faithful, and the provider settles on what the user settled on, with the same size, or
throws. So the conditions are those of `Connect` in a weaker form, and one about the last step.

But the negotiation comes after `startConnect`, when an RCC port has its buffers already, and keeps
their size. So two of them agree only if the same size is asked for, and one of them agrees with a port
of another container only under conditions on both sizes. And what an RCC user returns when it pushes
to another end point is the descriptor of a shadow, where only the role has been set.
-/

namespace OpenCpi.Container

open Infra Ior

variable {d : Descriptors} {h : Hooks} {q q' u p u₁ p₁ : Port} {uParams pParams params : Params}
  {native : Bool} {ru rp r r' : Role}

/-! ## The condition -/

/-- What is known of two ports that are to be connected, and of the shadow of the input port. -/
structure Ends (h : Hooks) (u p : Port) (uParams pParams : Params) : Prop where
  user : u.provider = false
  provider : p.provider = true
  allowedUser : u.data.Allowed
  allowedProvider : p.data.Allowed
  defaultsUser : Defaults h.user u
  defaultsProvider : Defaults h.provider p
  rangedUser : u.data.Ranged
  rangedProvider : p.data.Ranged
  paramsUser : uParams.Ranged
  paramsProvider : pParams.Ranged
  shadow : ∀ d ∈ h.shadow, d.role = some .activeMessage ∧ d.Ranged

/-- The condition for the exchange once the user has its role: `u` and `p` are the requests, and `p₂`
is what the provider has after `startConnect`. -/
structure Concluded (h : Hooks) (u p p₂ : Descriptors) (ru rp r : Role) : Prop where
  /-- a user that returns nothing: the provider happens to have the other role, and the size -/
  silent : h.user = .ocl → p₂.role = some r.other ∧ u.dataBufferSize ≤ p.dataBufferSize ∧
    16 ∣ p.dataBufferSize
  /-- a user that returns its own descriptor -/
  told : h.user ≠ .ocl → (h.user = .rcc → r = .activeMessage → h.shadow = none) →
    ChoosesAgain ru rp u.options p.options → h.Concludes
      ((SlipPush ru rp u.options p.options → has u.options .activeFlowControl) ∧
        SizesMeet h.user h.provider u.dataBufferSize p.dataBufferSize p.dataBufferSize)
  /-- an RCC user that pushes, and returns the descriptor of the shadow -/
  shadowed : h.user = .rcc → r = .activeMessage → ∀ d ∈ h.shadow,
    ¬(SlipOnly ru rp u.options p.options ∧ mandated d.options) →
      d.dataBufferSize ≤ 2 ^ 32 - 16 ∧ h.Concludes (¬SlipOnly ru rp u.options p.options ∧
        SizesMeet h.user h.provider u.dataBufferSize p.dataBufferSize d.dataBufferSize)

/-- The condition for the exchange. -/
def ExchangeOk (h : Hooks) (u p : Port) (uParams pParams : Params) : Prop :=
  ∀ u₁ p₁, Accepted u p uParams pParams u₁ p₁ → ∀ ru rp r r',
    Chooses (h.used u₁ p₁).data (h.provided p₁).data ru rp r r' →
    h.startProvider = .ok () → h.startUser = .ok () →
      SizeFits (h.used u₁ p₁).data (h.provided p₁).data ∧ (h.finishUser = .ok () →
        Concluded h u₁.data p₁.data (h.provided p₁).data ru rp r)

/-! ## What both ends have -/

theorem Adjusted.defaults {k : Kind} (ha : Adjusted params q q') (hq : Defaults k q) : Defaults k q' := by
  intro hk
  have hhas := hq hk
  rw [← ha.provider] at hhas
  exact (ha.has_eq _).trans hhas

theorem size_provided : (h.provided p).data.dataBufferSize = p.data.dataBufferSize :=
  size_startProvider h.provider p

theorem role_chosen : (h.chosen u d r).data.role = some r := role_finish rfl

theorem role_answered : (h.answered p d r).data.role = some r := role_finish rfl

theorem options_chosen : (h.chosen u d r).data.options = mandate u.data.options := options_finish ..

theorem provider_used : (h.used u p).provider = u.provider := provider_startUser ..

theorem provider_chosen : (h.chosen u d r).provider = u.provider := provider_finish ..

/-- The size that the user has at the end. -/
theorem size_chosen : (h.chosen (h.used u p) (h.provided p).data r).data.dataBufferSize =
    if h.user = .rcc then min u.data.dataBufferSize p.data.dataBufferSize
    else commonSize u.data p.data := by
  rw [Hooks.chosen, size_finish]
  split
  · next hk => rw [← size_provided (h := h) (p := p)]; exact length_startUser hk u _
  · next hk =>
    show commonSize (h.used u p).data (h.provided p).data = commonSize u.data p.data
    unfold commonSize
    rw [size_provided, Hooks.used, size_startUser, if_neg hk]

/-- The size that the provider has at the end. -/
theorem size_answered : (h.answered (h.provided p) d r).data.dataBufferSize =
    if h.provider = .rcc then p.data.dataBufferSize
    else roundUp (max d.dataBufferSize p.data.dataBufferSize) bufferAlignment := by
  rw [Hooks.answered, size_finish]
  split
  · next hk => exact length_startProvider hk p
  · next hk =>
    show roundUp (max d.dataBufferSize (h.provided p).data.dataBufferSize) bufferAlignment = _
    rw [size_provided]

theorem sizeFits_chosen (h' : SizeFits (h.used u p).data (h.provided p).data) :
    SizeFits (h.chosen (h.used u p) (h.provided p).data r).data (h.provided p).data := by
  refine ⟨?_, h'.2⟩
  rw [Hooks.chosen, size_finish]
  split
  · next hk =>
    have hlength : (h.used u p).bufferLength = (h.used u p).data.dataBufferSize := by
      rw [Hooks.used, length_startUser hk, size_startUser, if_pos hk]
    show (h.used u p).bufferLength ≤ _
    rw [hlength]
    exact h'.1
  · have hlt := commonSize_lt.mpr h'
    show commonSize (h.used u p).data (h.provided p).data ≤ _
    unfold commonSize roundUp bufferAlignment at hlt ⊢
    omega

theorem ranged_chosen (hu : u.data.Ranged) (h' : SizeFits (h.used u p).data (h.provided p).data) :
    (h.chosen (h.used u p) (h.provided p).data r).data.Ranged := by
  have hused : (h.used u p).data.Ranged := startUser_ranged h.user hu
  have hsettled := hused.settle (r := r) (Nat.lt_of_not_le (commonSize_lt.mpr h'))
  unfold Hooks.chosen
  cases hk : h.user with
  | hdl => exact hsettled
  | ocl => exact hsettled
  | rcc =>
    refine getPortDescriptor_ranged hsettled ?_
    show (h.used u p).bufferLength < 2 ^ 32
    rw [Hooks.used, length_startUser hk]
    exact Nat.lt_of_le_of_lt (Nat.min_le_left ..) hu.negotiated.2.1

/-- The size and the role of a user that finishes once more do not change. -/
theorem agreed_finish_iff {d₀ d₀' : Descriptors} (p' : Port) :
    Agreed d₀ d₀' (h.user.finish (h.chosen u d r)).data p'.data ↔
      Agreed d₀ d₀' (h.chosen u d r).data p'.data := by
  have hrole : (h.user.finish (h.chosen u d r)).data.role = (h.chosen u d r).data.role :=
    (role_finish role_chosen).trans role_chosen.symm
  have hsize : (h.user.finish (h.chosen u d r)).data.dataBufferSize =
      (h.chosen u d r).data.dataBufferSize := by
    rw [size_finish]
    split
    · next hk => rw [Hooks.chosen, size_finish, if_pos hk, hk]; rfl
    · rfl
  constructor
  · rintro ⟨hr, hn⟩
    exact ⟨hrole ▸ hr, hsize ▸ hn⟩
  · rintro ⟨hr, hn⟩
    exact ⟨hrole.symm ▸ hr, hsize.symm ▸ hn⟩

theorem agreed_and_iff {u p u' p' : Descriptors} : Agreed u p u' p' ↔
    RolesAgree u p u'.role p'.role ∧ SizesAgree u p u'.dataBufferSize p'.dataBufferSize :=
  ⟨fun h => ⟨h.roles, h.sizes⟩, fun h => ⟨h.1, h.2⟩⟩

/-- What is known once the user has its role. -/
structure Negotiated (h : Hooks) (u p : Port) (ru rp r r' : Role) : Prop where
  user : u.provider = false
  provider : p.provider = true
  allowedUser : (h.used u p).data.Allowed
  allowedProvider : (h.provided p).data.Allowed
  ranged : u.data.Ranged
  shadow : ∀ d ∈ h.shadow, d.role = some .activeMessage ∧ d.Ranged
  chooses : Chooses (h.used u p).data (h.provided p).data ru rp r r'
  fits : SizeFits (h.used u p).data (h.provided p).data

theorem keeps_used : Keeps u.data (h.used u p).data := keeps_startUser ..

theorem keeps_provided : Keeps p.data (h.provided p).data := keeps_startProvider ..

theorem prefers_role : Prefers (h.chosen u d r).data r := by
  unfold Prefers
  rw [role_chosen]
  rfl

/-! ## What the user returns -/

/-- Both ends have the user's size and the provider's role against the user's. -/
theorem Negotiated.agreed_told_iff (hn : Negotiated h u p ru rp r r')
    (hagain : ChoosesAgain ru rp u.data.options p.data.options) :
    Agreed u.data p.data (h.chosen (h.used u p) (h.provided p).data r).data
        (h.answered (h.provided p) (h.chosen (h.used u p) (h.provided p).data r).data r.other).data ↔
      (SlipPush ru rp u.data.options p.data.options → has u.data.options .activeFlowControl) ∧
        SizesMeet h.user h.provider u.data.dataBufferSize p.data.dataBufferSize p.data.dataBufferSize := by
  rw [agreed_and_iff, role_chosen, role_answered, rolesAgree_again_iff keeps_used keeps_provided
    hn.allowedUser hn.allowedProvider hn.chooses hagain, size_answered, size_chosen]
  refine and_congr_right fun _ => ?_
  rw [sizesAgree_iff fun hk => if_neg hk]
  refine sizesMeet_congr fun hk => ?_
  rw [if_pos hk]
  exact iff_of_true (Nat.min_le_right ..) (Nat.le_refl _)

/-- **A user that returns its own descriptor.** -/
theorem told_iff (hs : h.Sound) (hn : Negotiated h u p ru rp r r') :
    Safe (fun e => Agreed u.data p.data e.1.data e.2.data)
        (laterSteps native h (h.chosen (h.used u p) (h.provided p).data r) (h.provided p)
          (some (packPortDesc native (h.chosen (h.used u p) (h.provided p).data r).data))) ↔
      (ChoosesAgain ru rp u.data.options p.data.options → h.Concludes
        ((SlipPush ru rp u.data.options p.data.options → has u.data.options .activeFlowControl) ∧
          SizesMeet h.user h.provider u.data.dataBufferSize p.data.dataBufferSize p.data.dataBufferSize)) := by
  have hu' : (h.chosen (h.used u p) (h.provided p).data r).provider = false :=
    (provider_chosen.trans provider_used).trans hn.user
  have hp' : (h.provided p).provider = true := (provider_startProvider ..).trans hn.provider
  rw [safe_laterSteps hs hu' hp' (ranged_chosen hn.ranged hn.fits) agreed_finish_iff,
    chooseRoles_eq prefers_role hn.chooses.provider, options_chosen]
  have hsettled := chooseFrom_settled (hn.chooses.user.has hn.allowedUser)
    (hn.chooses.provider.has hn.allowedProvider) hn.chooses.choice
  rw [keeps_used.options, keeps_provided.options] at hsettled ⊢
  constructor
  · intro hall hagain
    have hhas : has p.data.options r.other := by
      have hchoice := hn.chooses.choice
      rw [keeps_used.options, keeps_provided.options] at hchoice
      by_cases hpush : SlipPush ru rp u.data.options p.data.options
      · rw [chooseFrom_push hpush] at hchoice
        cases hchoice
        exact hagain.1 hpush
      · have hroles := (rolesAgree_iff keeps_used keeps_provided hn.allowedUser hn.allowedProvider
          hn.chooses).mpr ⟨hpush, hagain.2⟩
        obtain ⟨⟨s, hs, -, -, hhas⟩, -⟩ := hroles
        cases hs
        exact hhas
    exact (Hooks.concludes_congr (hn.agreed_told_iff hagain)).mp
      (hall (r, r.other) ((hsettled _).mpr ⟨hagain, rfl, hhas⟩)).2
  · intro hok a ha
    obtain ⟨hagain, rfl, -⟩ := (hsettled a).mp ha
    exact ⟨sizeFits_chosen hn.fits, (Hooks.concludes_congr (hn.agreed_told_iff hagain)).mpr (hok hagain)⟩

/-- The user has its own size, and the provider the role that was chosen against it. -/
theorem Negotiated.agreed_shadowed_iff (hn : Negotiated h u p ru rp .activeMessage r') (hk : h.user = .rcc)
    (d : Descriptors) :
    Agreed u.data p.data (h.chosen (h.used u p) (h.provided p).data .activeMessage).data
        (h.answered (h.provided p) d r').data ↔
      ¬SlipOnly ru rp u.data.options p.data.options ∧
        SizesMeet h.user h.provider u.data.dataBufferSize p.data.dataBufferSize d.dataBufferSize := by
  have hpush : ¬SlipPush ru rp u.data.options p.data.options := by
    intro hslip
    have hchoice := hn.chooses.choice
    rw [keeps_used.options, keeps_provided.options, chooseFrom_push hslip] at hchoice
    cases hchoice
  rw [agreed_and_iff, role_chosen, role_answered, rolesAgree_iff keeps_used keeps_provided hn.allowedUser
    hn.allowedProvider hn.chooses, size_answered, size_chosen, sizesAgree_iff fun hne => absurd hk hne]
  exact and_congr_left' ⟨fun hstraight => hstraight.only, fun honly => ⟨hpush, honly⟩⟩

/-- **A user that pushes, and returns the descriptor of the shadow.** -/
theorem shadowed_iff (hs : h.Sound) (hn : Negotiated h u p ru rp .activeMessage r') (hk : h.user = .rcc)
    {d : Descriptors} (hd : d ∈ h.shadow) :
    Safe (fun e => Agreed u.data p.data e.1.data e.2.data)
        (laterSteps native h (h.chosen (h.used u p) (h.provided p).data .activeMessage) (h.provided p)
          (some (packPortDesc native d))) ↔
      (¬(SlipOnly ru rp u.data.options p.data.options ∧ mandated d.options) →
        d.dataBufferSize ≤ 2 ^ 32 - 16 ∧ h.Concludes (¬SlipOnly ru rp u.data.options p.data.options ∧
          SizesMeet h.user h.provider u.data.dataBufferSize p.data.dataBufferSize d.dataBufferSize)) := by
  have hu' : (h.chosen (h.used u p) (h.provided p).data .activeMessage).provider = false :=
    (provider_chosen.trans provider_used).trans hn.user
  have hp' : (h.provided p).provider = true := (provider_startProvider ..).trans hn.provider
  obtain ⟨hrole, hranged⟩ := hn.shadow d hd
  have hprefers : Prefers d .activeMessage := by
    unfold Prefers
    rw [hrole]
    rfl
  have hchoose := chooseFrom_shadow (o := d.options) keeps_used.options keeps_provided.options
    hn.allowedUser hn.allowedProvider hn.chooses
  rw [safe_laterSteps hs hu' hp' hranged agreed_finish_iff, chooseRoles_eq hprefers hn.chooses.provider,
    keeps_provided.options]
  constructor
  · intro hall hno
    obtain ⟨hfits, hconcludes⟩ := hall _ ((hchoose (.activeMessage, r')).mpr ⟨hno, rfl⟩)
    exact ⟨hfits.1, (Hooks.concludes_congr (hn.agreed_shadowed_iff hk d)).mp hconcludes⟩
  · intro hok a ha
    obtain ⟨hno, rfl⟩ := (hchoose a).mp ha
    obtain ⟨hsize, hconcludes⟩ := hok hno
    exact ⟨⟨hsize, hn.fits.2⟩, (Hooks.concludes_congr (hn.agreed_shadowed_iff hk d)).mpr hconcludes⟩

/-- **A user that returns nothing.** -/
theorem silent_iff (hn : Negotiated h u p ru rp r r') (hk : h.user = .ocl) :
    Agreed u.data p.data (h.chosen (h.used u p) (h.provided p).data r).data (h.provided p).data ↔
      (h.provided p).data.role = some r.other ∧ u.data.dataBufferSize ≤ p.data.dataBufferSize ∧
        16 ∣ p.data.dataBufferSize := by
  rw [agreed_and_iff, role_chosen, rolesAgree_silent_iff keeps_used keeps_provided hn.allowedUser
    hn.allowedProvider hn.chooses, size_chosen, size_provided, sizesAgree_and_iff, hk, if_neg (by decide)]
  exact and_congr_right fun _ => roundUp_eq_iff

theorem answer_rcc (shadow : Option Descriptors) (q : Port) : Kind.answer shadow .rcc q =
    some (if q.data.role = some .activeMessage then shadow.getD q.data else q.data) := rfl

/-- **The rest of the exchange**, once the user has its role. -/
theorem concluded_iff (hs : h.Sound) (hn : Negotiated h u p ru rp r r') :
    Safe (fun e => Agreed u.data p.data e.1.data e.2.data)
        (laterSteps native h (h.chosen (h.used u p) (h.provided p).data r) (h.provided p)
          ((h.user.answer h.shadow (h.chosen (h.used u p) (h.provided p).data r)).map
            (packPortDesc native))) ↔
      Concluded h u.data p.data (h.provided p).data ru rp r := by
  by_cases hocl : h.user = .ocl
  · have hanswer : h.user.answer h.shadow (h.chosen (h.used u p) (h.provided p).data r) = none := by
      rw [hocl]
      rfl
    rw [hanswer]
    refine (silent_iff hn hocl).trans ⟨fun hsilent => ⟨fun _ => hsilent, fun hne => absurd hocl hne, ?_⟩,
      fun hc => hc.silent hocl⟩
    intro hrcc
    cases hocl.symm.trans hrcc
  · by_cases hshadow : h.user = .rcc → r = .activeMessage → h.shadow = none
    · have hanswer : h.user.answer h.shadow (h.chosen (h.used u p) (h.provided p).data r) =
          some (h.chosen (h.used u p) (h.provided p).data r).data := by
        cases hk : h.user with
        | hdl => rfl
        | ocl => exact absurd hk hocl
        | rcc =>
          rw [answer_rcc, role_chosen]
          by_cases hr : r = .activeMessage
          · rw [if_pos (congrArg some hr), hshadow hk hr]
            rfl
          · rw [if_neg fun heq => hr (Option.some.inj heq)]
      rw [hanswer]
      refine (told_iff hs hn).trans ⟨fun htold => ⟨fun h => absurd h hocl, fun _ _ => htold, ?_⟩,
        fun hc => hc.told hocl hshadow⟩
      intro hk hr d hd
      rw [hshadow hk hr] at hd
      cases hd
    · rw [Classical.not_imp, Classical.not_imp] at hshadow
      obtain ⟨hk, rfl, hne⟩ := hshadow
      obtain ⟨d, hd⟩ := Option.ne_none_iff_exists'.mp hne
      have hanswer : h.user.answer h.shadow
          (h.chosen (h.used u p) (h.provided p).data .activeMessage) = some d := by
        rw [hk, hd, answer_rcc, role_chosen, if_pos rfl]
        rfl
      rw [hanswer]
      refine (shadowed_iff hs hn hk hd).trans ⟨fun hc => ⟨fun h => absurd h hocl, ?_, ?_⟩,
        fun hc => hc.shadowed hk rfl d hd⟩
      · intro _ hnone
        rw [hd] at hnone
        cases hnone hk rfl
      · intro _ _ d' hd'
        cases hd.symm.trans hd'
        exact hc

/-! ## The whole exchange -/

/-- The requests are what the parameters left. -/
theorem requests_iff (hu₁ : setConnectParams u uParams = .ok u₁)
    (hp₁ : setConnectParams p pParams = .ok p₁) {P : Port → Port → Prop} :
    (∀ u' p', setConnectParams u uParams = .ok u' → setConnectParams p pParams = .ok p' →
      P u' p') ↔ P u₁ p₁ := by
  refine ⟨fun h => h u₁ p₁ hu₁ hp₁, fun h u' p' hu hp => ?_⟩
  cases hu₁.symm.trans hu
  cases hp₁.symm.trans hp
  exact h

/-- **By exchange** both ends agree exactly under the condition. -/
theorem exchange_settled_iff (hs : h.Sound) (he : Ends h u p uParams pParams) :
    Settled u p uParams pParams (exchange native h u p uParams pParams) ↔
      ExchangeOk h u p uParams pParams := by
  have hnegotiated : ∀ {u₁ p₁ ru rp r r'}, setConnectParams u uParams = .ok u₁ →
      setConnectParams p pParams = .ok p₁ → Chooses (h.used u₁ p₁).data (h.provided p₁).data ru rp r r' →
      SizeFits (h.used u₁ p₁).data (h.provided p₁).data → Negotiated h u₁ p₁ ru rp r r' :=
    fun {u₁ p₁ ru rp r r'} hu₁ hp₁ hc hsize =>
      have hau := setConnectParams_ok hu₁
      have hap := setConnectParams_ok hp₁
      ⟨hau.provider.trans he.user, hap.provider.trans he.provider,
        allowed_startUser (hau.allowed he.allowedUser) (hau.defaults he.defaultsUser),
        allowed_startProvider (hap.allowed he.allowedProvider) (hap.defaults he.defaultsProvider),
        hau.ranged he.paramsUser he.rangedUser, he.shadow, hc, hsize⟩
  have hranged {p₁ : Port} (hp₁ : setConnectParams p pParams = .ok p₁) : (h.provided p₁).data.Ranged :=
    startProvider_ranged h.provider ((setConnectParams_ok hp₁).ranged he.paramsProvider he.rangedProvider)
  unfold Settled exchange
  rw [safe_bind, safe_getInitialProviderInfo hs he.provider]
  constructor
  · intro hall u₁ p₁ hacc ru rp r r' hc h₁ h₂
    have hall := hall hacc.externalProvider p₁ hacc.paramsProvider h₁
    dsimp only at hall
    rw [safe_bind, safe_setInitialProviderInfo hs he.user (hranged hacc.paramsProvider)] at hall
    obtain ⟨hsize, hall⟩ := hall hacc.externalUser u₁ hacc.paramsUser h₂ (r, r')
      ((chooseRoles_eq hc.user hc.provider).trans hc.choice)
    refine ⟨hsize, fun h₃ => ?_⟩
    have hall := hall h₃
    dsimp only at hall
    simp only [safe_bind, safe_pure, requests_iff hacc.paramsUser hacc.paramsProvider] at hall
    exact (concluded_iff hs (hnegotiated hacc.paramsUser hacc.paramsProvider hc hsize)).mp hall
  · intro hok hep p₁ hp₁ h₁
    dsimp only
    rw [safe_bind, safe_setInitialProviderInfo hs he.user (hranged hp₁)]
    intro heu u₁ hu₁ h₂ a ha
    obtain ⟨ru, rp, hru, hrp⟩ := prefers_of_chooseRoles ha
    rw [chooseRoles_eq hru hrp] at ha
    have hc : Chooses (h.used u₁ p₁).data (h.provided p₁).data ru rp a.1 a.2 := ⟨hru, hrp, ha⟩
    obtain ⟨hsize, hend⟩ := hok u₁ p₁ ⟨heu, hep, hu₁, hp₁⟩ ru rp a.1 a.2 hc h₁ h₂
    refine ⟨hsize, fun h₃ => ?_⟩
    dsimp only
    simp only [safe_bind, safe_pure, requests_iff hu₁ hp₁]
    exact (concluded_iff hs (hnegotiated hu₁ hp₁ hc hsize)).mpr (hend h₃)

/-- **Both ends agree**, connected from either side, by exchange or inside of a container, exactly under the
conditions. -/
theorem settled_iff (native : Bool) (h : Hooks) (u p : Port) (uParams pParams : Params)
    (hs : h.Sound) (he : Ends h u p uParams pParams) :
    (Settled u p uParams pParams (connect h u p uParams pParams) ↔
      ConnectOk h u p uParams pParams) ∧
    (Settled u p uParams pParams (connect h p u pParams uParams) ↔
      ConnectOk h u p uParams pParams) ∧
    (Settled u p uParams pParams (exchange native h u p uParams pParams) ↔
      ExchangeOk h u p uParams pParams) ∧
    (h.user = .rcc → h.provider = .rcc →
      (Settled u p uParams pParams (connectInside h u p uParams pParams) ↔
        InsideOk h u p uParams pParams)) := by
  have hfrom : connect h u p uParams pParams = connectUser h u p uParams pParams := by
    simp only [connect, he.user, he.provider, if_true, Bool.false_eq_true, if_false]
  have hto : connect h p u pParams uParams = connectUser h u p uParams pParams := by
    simp only [connect, he.user, he.provider, if_true, Bool.false_eq_true, if_false]
  rw [hfrom, hto]
  have hconnect : Settled u p uParams pParams (connectUser h u p uParams pParams) ↔
      ConnectOk h u p uParams pParams :=
    connectUser_settled_iff hs he.allowedUser he.allowedProvider
  refine ⟨hconnect, hconnect, exchange_settled_iff hs he, fun huser hprovider => ?_⟩
  have hu := he.defaultsUser huser
  have hp := he.defaultsProvider hprovider
  rw [he.user] at hu
  rw [he.provider] at hp
  exact connectInside_settled_iff hs hu hp he.allowedProvider

/-! ## Where they do not -/

/-- A port of a sample connection. -/
def samplePort (provider : Bool) (role : Option Role) (options size : Nat) : Port where
  provider
  canBeExternal := true
  minBufferCount := 1
  minBufferSize := 0
  name := if provider then "in" else "out"
  data := ⟨if provider then 2 else 1, role, options, 2, 0, 0, size, 0, 0, 0, 0, 0, 0, 0, 0, 0, 0, 7,
    [111], 9⟩

def noParams : Params := ⟨none, none, none⟩

/-- Containers that are content, and that answer or not. -/
def content (k : Kind) (shadow : Option Descriptors) (reply : Bool) : Hooks :=
  ⟨k, k, shadow, .ok (), .ok (), .ok (), .ok reply, .ok reply, .ok ()⟩

theorem content_sound (k : Kind) (shadow : Option Descriptors) (reply : Bool) :
    (content k shadow reply).Sound :=
  ⟨nofun, nofun, nofun, nofun, nofun, nofun⟩

/-- The descriptor of a shadow, whose options and size nobody has set. -/
def sampleShadow : Descriptors :=
  ⟨3, some .activeMessage, 2863311530, 0, 0, 0, 2863311530, 0, 0, 0, 0, 0, 0, 4096, 8, 8, 1, 7, [111], 9⟩

theorem ranged_sample {provider : Bool} {role : Option Role} {options size : Nat}
    (ho : options < 2 ^ 32) (hk : size < 2 ^ 32) :
    (samplePort provider role options size).data.Ranged := by
  have hsample : (samplePort provider none 0 0).data.Ranged := by
    cases provider <;> exact ⟨by decide, by decide, by decide, by decide⟩
  exact hsample.change (by decide) hk ho

theorem sampleShadow_ranged : sampleShadow.Ranged := ⟨by decide, by decide, by decide, by decide⟩

theorem ends_sample {k : Kind} {shadow : Option Descriptors} {reply : Bool} {uRole pRole : Option Role}
    {uOptions pOptions uSize pSize : Nat} (hau : (samplePort false uRole uOptions uSize).data.Allowed)
    (hap : (samplePort true pRole pOptions pSize).data.Allowed) (huo : uOptions < 2 ^ 32)
    (hpo : pOptions < 2 ^ 32) (hus : uSize < 2 ^ 32) (hps : pSize < 2 ^ 32)
    (hk : k = .rcc → has uOptions .activeMessage ∧ has pOptions .activeFlowControl)
    (hshadow : ∀ d ∈ shadow, d = sampleShadow) :
    Ends (content k shadow reply) (samplePort false uRole uOptions uSize)
      (samplePort true pRole pOptions pSize) noParams noParams := by
  refine ⟨rfl, rfl, hau, hap, fun h => (hk h).1, fun h => (hk h).2, ranged_sample huo hus,
    ranged_sample hpo hps, ⟨nofun, nofun⟩, ⟨nofun, nofun⟩, fun d hd => ?_⟩
  rw [hshadow d hd]
  exact ⟨rfl, sampleShadow_ranged⟩

theorem allowed_sample {provider : Bool} {r : Role} {options size : Nat} (h : has options r) :
    (samplePort provider (some r) options size).data.Allowed := by
  intro s hs
  cases hs
  exact h

theorem accepted_sample (uRole pRole : Option Role) (uOptions pOptions uSize pSize : Nat) :
    Accepted (samplePort false uRole uOptions uSize) (samplePort true pRole pOptions pSize) noParams noParams
      (samplePort false uRole uOptions uSize) (samplePort true pRole pOptions pSize) :=
  ⟨rfl, rfl, rfl, rfl⟩

/-- A user that pushes, and a provider with flow control, settle; and so do two RCC ports with one size, also
inside of a container. -/
theorem settled_sample :
    (Settled (samplePort false none 5 100) (samplePort true none 10 2048) noParams noParams
        (connect (content .hdl none false) (samplePort false none 5 100) (samplePort true none 10 2048)
          noParams noParams) ∧
      Settled (samplePort false none 5 100) (samplePort true none 10 2048) noParams noParams
        (exchange true (content .hdl none false) (samplePort false none 5 100)
          (samplePort true none 10 2048) noParams noParams)) ∧
    (Settled (samplePort false none 3 2000) (samplePort true none 3 2000) noParams noParams
        (connect (content .rcc (some sampleShadow) false) (samplePort false none 3 2000)
          (samplePort true none 3 2000) noParams noParams) ∧
      Settled (samplePort false none 3 2000) (samplePort true none 3 2000) noParams noParams
        (exchange true (content .rcc (some sampleShadow) false) (samplePort false none 3 2000)
          (samplePort true none 3 2000) noParams noParams) ∧
      Settled (samplePort false none 3 2000) (samplePort true none 3 2000) noParams noParams
        (connectInside (content .rcc (some sampleShadow) false) (samplePort false none 3 2000)
          (samplePort true none 3 2000) noParams noParams)) := by
  constructor
  · have hall := settled_iff true (content .hdl none false) (samplePort false none 5 100)
      (samplePort true none 10 2048) noParams noParams (content_sound ..)
      (ends_sample nofun nofun (by decide) (by decide) (by decide) (by decide) nofun nofun)
    rw [hall.1, hall.2.2.1]
    constructor
    · rintro u₁ p₁ ⟨-, -, hu, hp⟩ ru rp r r' ⟨hru, hrp, -⟩
      cases hu
      cases hp
      cases hru
      cases hrp
      exact ⟨⟨by decide, by decide⟩, fun _ _ _ => ⟨fun h => h.2.2.2.2.1 rfl, fun h => nomatch h.2.2.1⟩⟩
    · rintro u₁ p₁ ⟨-, -, hu, hp⟩ ru rp r r' ⟨hru, hrp, -⟩ _ _
      cases hu
      cases hp
      cases hru
      cases hrp
      refine ⟨⟨by decide, by decide⟩, fun _ => ⟨nofun, fun _ _ _ b hb => ?_, nofun⟩⟩
      cases hb
      exact ⟨nofun, fun _ => ⟨fun h => absurd rfl h.2.2.2.2.1, trivial⟩⟩
  · have hall := settled_iff true (content .rcc (some sampleShadow) false) (samplePort false none 3 2000)
      (samplePort true none 3 2000) noParams noParams (content_sound ..)
      (ends_sample nofun nofun (by decide) (by decide) (by decide) (by decide) (fun _ => ⟨rfl, rfl⟩)
        fun d hd => (Option.some.inj hd).symm)
    rw [hall.1, hall.2.2.1, hall.2.2.2 rfl rfl]
    refine ⟨?_, ?_, ?_⟩
    · rintro u₁ p₁ ⟨-, -, hu, hp⟩ ru rp r r' ⟨hru, hrp, -⟩
      cases hu
      cases hp
      cases hru
      cases hrp
      exact ⟨⟨by decide, by decide⟩, fun _ _ _ => ⟨fun h => h.2.2.2.2.1 rfl, fun h => nomatch h.2.2.1⟩⟩
    · rintro u₁ p₁ ⟨-, -, hu, hp⟩ ru rp r r' ⟨hru, hrp, hc⟩ _ _
      cases hu
      cases hp
      cases hru
      cases hrp
      cases hc
      refine ⟨⟨by decide, by decide⟩, fun _ => ⟨nofun, fun _ hnone => ?_, fun _ _ d hd _ => ?_⟩⟩
      · cases hnone rfl rfl
      · cases hd
        refine ⟨by decide, fun b hb => ?_⟩
        cases hb
        exact ⟨nofun, fun _ => ⟨fun h => absurd h.2.2.1 nofun, rfl⟩⟩
    · intro u₁ p₁ hu hp rp r r' _
      cases hu
      cases hp
      exact ⟨⟨by decide, by decide⟩, fun _ _ _ _ => ⟨nofun, nofun⟩⟩

/-- In one process both ends get active flow control; by exchange the user gets a role that is none
of its options, two RCC ports keep their own sizes, the largest size cannot be rounded up, and the last
step fails its assertion. -/
theorem unsettled_samples :
    ¬Settled (samplePort false (some .activeOnly) 5 64) (samplePort true (some .activeFlowControl) 2 64)
        noParams noParams
        (connect (content .hdl none false) (samplePort false (some .activeOnly) 5 64)
          (samplePort true (some .activeFlowControl) 2 64) noParams noParams) ∧
      ¬Settled (samplePort false (some .activeOnly) 5 64) (samplePort true (some .activeFlowControl) 3 64)
        noParams noParams
        (exchange true (content .hdl none false) (samplePort false (some .activeOnly) 5 64)
          (samplePort true (some .activeFlowControl) 3 64) noParams noParams) ∧
      ¬Settled (samplePort false none 3 2048) (samplePort true none 3 4096) noParams noParams
        (exchange true (content .rcc (some sampleShadow) false) (samplePort false none 3 2048)
          (samplePort true none 3 4096) noParams noParams) ∧
      ¬Settled (samplePort false none 1 (2 ^ 32 - 1)) (samplePort true none 2 64) noParams noParams
        (exchange true (content .hdl none false) (samplePort false none 1 (2 ^ 32 - 1))
          (samplePort true none 2 64) noParams noParams) ∧
      ¬Settled (samplePort false none 1 64) (samplePort true none 2 64) noParams noParams
        (exchange true (content .hdl none true) (samplePort false none 1 64) (samplePort true none 2 64)
          noParams noParams) := by
  refine ⟨fun hsettled => ?_, ?_, ?_, ?_, ?_⟩
  · obtain ⟨⟨⟨r, hr, hr', -⟩, -⟩, -⟩ := hsettled _ _ rfl rfl
    cases hr
    cases hr'
  · have hends : Ends (content .hdl none false) (samplePort false (some .activeOnly) 5 64)
        (samplePort true (some .activeFlowControl) 3 64) noParams noParams :=
      ends_sample (allowed_sample rfl) (allowed_sample rfl) (by decide) (by decide) (by decide) (by decide)
        nofun nofun
    rw [exchange_settled_iff (content_sound ..) hends]
    intro hok
    have hslip : SlipPush .activeOnly .activeFlowControl 5 3 :=
      ⟨rfl, rfl, rfl, rfl, nofun, nofun⟩
    obtain ⟨-, hend⟩ := hok _ _ (accepted_sample ..) _ _ _ _ ⟨rfl, rfl, chooseFrom_push hslip⟩ rfl rfl
    have hhas := (((hend rfl).told nofun nofun ⟨fun _ => rfl, fun h => nomatch h.2.2.1⟩ false rfl).2 nofun).1
      hslip
    cases hhas
  · have hends : Ends (content .rcc (some sampleShadow) false) (samplePort false none 3 2048)
        (samplePort true none 3 4096) noParams noParams :=
      ends_sample nofun nofun (by decide) (by decide) (by decide) (by decide) (fun _ => ⟨rfl, rfl⟩)
        fun d hd => (Option.some.inj hd).symm
    rw [exchange_settled_iff (content_sound ..) hends]
    intro hok
    obtain ⟨-, hend⟩ := hok _ _ (accepted_sample ..) .activeMessage .activeFlowControl .activeMessage
      .activeFlowControl ⟨rfl, rfl, rfl⟩ rfl rfl
    obtain ⟨-, hconcludes⟩ := (hend rfl).shadowed rfl rfl _ rfl fun h => nomatch h.1.2.2.1
    have hsizes : 2048 = 4096 := ((hconcludes false rfl).2 nofun).2
    exact absurd hsizes (by decide)
  · have hends : Ends (content .hdl none false) (samplePort false none 1 (2 ^ 32 - 1))
        (samplePort true none 2 64) noParams noParams :=
      ends_sample nofun nofun (by decide) (by decide) (by decide) (by decide) nofun nofun
    rw [exchange_settled_iff (content_sound ..) hends]
    intro hok
    obtain ⟨⟨hsize, -⟩, -⟩ := hok _ _ (accepted_sample ..) .activeMessage .activeFlowControl .activeMessage
      .activeFlowControl ⟨rfl, rfl, rfl⟩ rfl rfl
    exact absurd hsize (by decide)
  · have hends : Ends (content .hdl none true) (samplePort false none 1 64) (samplePort true none 2 64)
        noParams noParams := ends_sample nofun nofun (by decide) (by decide) (by decide) (by decide) nofun nofun
    rw [exchange_settled_iff (content_sound ..) hends]
    intro hok
    obtain ⟨-, hend⟩ := hok _ _ (accepted_sample ..) .activeMessage .activeFlowControl .activeMessage
      .activeFlowControl ⟨rfl, rfl, rfl⟩ rfl rfl
    exact ((hend rfl).told nofun nofun
      ⟨fun h => absurd rfl h.2.2.2.2.1, fun h => nomatch h.2.2.1⟩ true rfl).1 rfl rfl

end OpenCpi.Container
