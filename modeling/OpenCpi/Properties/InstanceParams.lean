import OpenCpi.Application.Params

/-!
# Which parameters for instances are ignored

The check of a parameter accepts a name that is the beginning of the name of an instance, but the functions
that look for the parameter of an instance want the whole name. And they take the first one that fits, so one
that stands behind another one for the same instance is ignored. Only the properties of an instance are all
looked for.
-/

namespace OpenCpi.Application

open Util

variable {a : Util.Assembly} {kind : Kind} {params before after : List Param} {p : Param} {assign : Text}

/-! ## What a user expects -/

/-- A parameter in the list. -/
structure Assigns (kind : Kind) (params before : List Param) (p : Param) (after : List Param)
    (assign : Text) : Prop where
  split : params = before ++ p :: after
  named : sameName p.name kind.name = true
  value : p.vString = some assign

/-- The assignment is for a name: it is the name and a value, or the wildcard and a value. -/
def IsFor (assign var : Text) : Prop :=
  ∃ name value, assign = name ++ equals :: value ∧ (name = [] ∨ sameName name var = true)

/-- The assignment, behind which `after` stands, is found for an instance: by `findAssign`, or for a property
by the loop over `findAssignNext`. -/
def FoundFor (kind : Kind) (params after : List Param) (var : Text) : Prop :=
  if kind = .property then
    ∃ val found, loopAssign kind.name var params = .ok found ∧ (val, after) ∈ found
  else ∃ val, findAssign kind.name var params = .ok (some (val, after))

/-- The assignment is for an instance, or a mapped property, and is one that is found for it. -/
def Effective (a : Util.Assembly) (kind : Kind) (params after : List Param) (assign : Text) : Prop :=
  (∃ inst ∈ a.instances, IsFor assign inst.name ∧ FoundFor kind params after inst.name) ∨
  kind = .property ∧ ∃ mp ∈ a.mappedProperties, IsFor assign mp.name ∧
    ∃ val, findAssignNext kind.name (some mp.name) params = .ok (some (val, after))

/-- If the parameters are accepted then none of them is ignored. -/
def NoneIgnored (a : Util.Assembly) (params : List Param) : Prop :=
  checkParams a params = .ok () →
    ∀ kind before p after assign, Assigns kind params before p after assign →
      Effective a kind params after assign

/-! ## The condition -/

/-- The names that an assignment can be for. -/
def names (a : Util.Assembly) (kind : Kind) : List Text :=
  a.instances.map (·.name) ++ if kind = .property then a.mappedProperties.map (·.name) else []

/-- A parameter that is refused: it is no string, it has no `=`, or there is no name that begins like it. -/
def Refused (a : Util.Assembly) (kind : Kind) (p : Param) : Prop :=
  sameName p.name kind.name = true ∧ ∀ assign, p.vString = some assign → equals ∈ assign →
    ∀ name ∈ names a kind, beginsName (assign.takeWhile (· ≠ equals)) name = false

/-- No parameter of the kind is found for the name. -/
def FirstFor (kind : Kind) (before : List Param) (var : Text) : Prop :=
  ∀ q ∈ before, sameName q.name kind.name = true →
    ∃ assign, q.vString = some assign ∧ assigned var assign = none

/-- The assignment has the whole name of an instance or of a mapped property, or the wildcard, and stands
before all others for that name. -/
def Visible (a : Util.Assembly) (kind : Kind) (before : List Param) (assign : Text) : Prop :=
  (∃ inst ∈ a.instances, IsFor assign inst.name ∧ (kind = .property ∨ FirstFor kind before inst.name)) ∨
  kind = .property ∧ ∃ mp ∈ a.mappedProperties, IsFor assign mp.name ∧ FirstFor kind before mp.name

/-! ## Finding an assignment -/

def ofPValue (p : PValue) : Param := ⟨p.name, some p.vString⟩

/-- On parameters that are all strings this is the function of `Assembly/Parse`. -/
theorem findAssignNext_ofPValue (name var : Text) : ∀ params : List PValue,
    findAssignNext name (some var) (params.map ofPValue) =
      .ok ((Util.findAssignNext name var params).map fun r => (r.1, r.2.map ofPValue))
  | [] => rfl
  | p :: params => by
    have ih := findAssignNext_ofPValue name var params
    rw [List.map_cons, findAssignNext, Util.findAssignNext, ofPValue]
    dsimp only
    by_cases hp : sameName p.name name = true
    · rw [if_pos hp, if_pos hp]
      cases assigned var p.vString with
      | none => exact ih
      | some val => rfl
    · rw [if_neg hp, if_neg hp]
      exact ih

theorem assigned_of_isFor {var : Text} (h : IsFor assign var) : ∃ val, assigned var assign = some val := by
  obtain ⟨name, value, rfl, hname⟩ := h
  unfold assigned
  by_cases hhead : (name ++ equals :: value).head? = some equals
  · exact ⟨_, by rw [if_pos hhead, if_pos (.inl rfl)]⟩
  · rcases hname with rfl | hname
    · exact absurd rfl hhead
    · have hlen : name.length = var.length := by
        have := congrArg List.length (beq_iff_eq.mp hname)
        simpa using this
      have htake : (name ++ equals :: value).take var.length = name := by
        rw [← hlen, List.take_left]
      have hget : (name ++ equals :: value)[var.length]? = some equals := by
        rw [← hlen, List.getElem?_append_right (Nat.le_refl _), Nat.sub_self]
        rfl
      have hsame : sameName var name = true := beq_iff_eq.mpr (beq_iff_eq.mp hname).symm
      refine ⟨(name ++ equals :: value).drop (var.length + 1), ?_⟩
      rw [if_neg hhead]
      dsimp only
      rw [htake, if_pos (.inr ⟨hsame, hget⟩)]

/-- **An assignment is found for a name** if and only if none before it is. -/
theorem findAssignNext_eq_iff {var val : Text} (hnamed : sameName p.name kind.name = true)
    (hvalue : p.vString = some assign) (hval : assigned var assign = some val) (after : List Param) : ∀ (before : List Param),
    (∃ val', findAssignNext kind.name (some var) (before ++ p :: after) = .ok (some (val', after))) ↔
      FirstFor kind before var
  | [] => by
    refine ⟨fun _ => by simp [FirstFor], fun _ => ⟨val, ?_⟩⟩
    rw [List.nil_append, findAssignNext, if_pos hnamed, hvalue]
    dsimp only
    rw [hval]
  | q :: before => by
    have ih := findAssignNext_eq_iff hnamed hvalue hval after before
    have hcons : FirstFor kind (q :: before) var ↔
        (sameName q.name kind.name = true →
          ∃ assign, q.vString = some assign ∧ assigned var assign = none) ∧ FirstFor kind before var :=
      List.forall_mem_cons
    rw [List.cons_append, findAssignNext, hcons]
    by_cases hq : sameName q.name kind.name = true
    · rw [if_pos hq]
      cases hs : q.vString with
      | none =>
        constructor
        · rintro ⟨val', h⟩
          cases h
        · rintro ⟨h, -⟩
          obtain ⟨s, hs', -⟩ := h hq
          cases hs'
      | some s =>
        dsimp only
        cases hv : assigned var s with
        | none =>
          dsimp only
          rw [ih]
          exact ⟨fun h => ⟨fun _ => ⟨s, rfl, hv⟩, h⟩, fun h => h.2⟩
        | some v =>
          dsimp only
          constructor
          · rintro ⟨val', h⟩
            -- what stands behind the one that is found is longer
            have hrest := (Prod.mk.inj (Option.some.inj (Except.ok.inj h))).2
            have hlen := congrArg List.length hrest
            simp at hlen
            omega
          · rintro ⟨h, -⟩
            obtain ⟨s', hs', hnone⟩ := h hq
            cases hs'
            rw [hv] at hnone
            cases hnone
    · rw [if_neg hq, ih]
      exact ⟨fun h => ⟨fun hq' => absurd hq' hq, h⟩, fun h => h.2⟩

/-- The loop goes through all assignments for a name, if those that it looks at are strings. -/
theorem loopAssign_eq_ok (name var : Text) : ∀ {params : List Param},
    (∀ q ∈ params, sameName q.name name = true → q.vString ≠ none) →
    ∃ found, loopAssign name var params = .ok found ∧
      ∀ before p after assign val, params = before ++ p :: after → sameName p.name name = true →
        p.vString = some assign → assigned var assign = some val → (val, after) ∈ found
  | [], _ => ⟨[], rfl, fun before p after assign val h => by simp at h⟩
  | q :: params, hstrings => by
    obtain ⟨found, hloop, hmem⟩ :=
      loopAssign_eq_ok name var fun q hq => hstrings q (List.mem_cons_of_mem _ hq)
    rw [loopAssign, hloop]
    -- a later assignment is found by the rest of the loop
    have hlater : ∀ before p after assign val, q :: params = before ++ p :: after → before ≠ [] →
        sameName p.name name = true → p.vString = some assign → assigned var assign = some val →
        (val, after) ∈ found := by
      intro before p after assign val hsplit hne hnamed hvalue hval
      cases before with
      | nil => exact absurd rfl hne
      | cons q' before => exact hmem before p after assign val (List.cons.inj hsplit).2 hnamed hvalue hval
    by_cases hq : sameName q.name name = true
    · rw [if_pos hq]
      cases hs : q.vString with
      | none => exact absurd hs (hstrings q List.mem_cons_self hq)
      | some s =>
        cases hv : assigned var s with
        | none =>
          refine ⟨found, by simp only [hv], fun before p after assign val hsplit hnamed hvalue hval => ?_⟩
          cases before with
          | nil =>
            obtain ⟨rfl, rfl⟩ := List.cons.inj hsplit
            rw [hs, Option.some.injEq] at hvalue
            rw [hvalue, hval] at hv
            cases hv
          | cons q' before => exact hlater _ p after assign val hsplit nofun hnamed hvalue hval
        | some v =>
          refine ⟨(v, params) :: found, by simp only [hv]; rfl,
            fun before p after assign val hsplit hnamed hvalue hval => ?_⟩
          cases before with
          | nil =>
            obtain ⟨rfl, rfl⟩ := List.cons.inj hsplit
            rw [hs, Option.some.injEq] at hvalue
            rw [hvalue, hval, Option.some.injEq] at hv
            rw [hv]
            exact List.mem_cons_self
          | cons q' before =>
            exact List.mem_cons_of_mem _ (hlater _ p after assign val hsplit nofun hnamed hvalue hval)
    · rw [if_neg hq]
      refine ⟨found, rfl, fun before p after assign val hsplit hnamed hvalue hval => ?_⟩
      cases before with
      | nil =>
        obtain ⟨rfl, rfl⟩ := List.cons.inj hsplit
        exact absurd hnamed hq
      | cons q' before => exact hlater _ p after assign val hsplit nofun hnamed hvalue hval

theorem effective_iff (h : Assigns kind params before p after assign)
    (hstrings : ∀ q ∈ params, sameName q.name kind.name = true → q.vString ≠ none) :
    Effective a kind params after assign ↔ Visible a kind before assign := by
  obtain ⟨hsplit, hnamed, hvalue⟩ := h
  have hfound : ∀ var, IsFor assign var →
      ((∃ val, findAssignNext kind.name (some var) params = .ok (some (val, after))) ↔
        FirstFor kind before var) := fun var hvar => by
    obtain ⟨val, hval⟩ := assigned_of_isFor hvar
    rw [hsplit]
    exact findAssignNext_eq_iff hnamed hvalue hval after before
  have hinst : ∀ var, IsFor assign var →
      (FoundFor kind params after var ↔ kind = .property ∨ FirstFor kind before var) := fun var hvar => by
    unfold FoundFor findAssign
    by_cases hkind : kind = .property
    · obtain ⟨val, hval⟩ := assigned_of_isFor hvar
      obtain ⟨found, hloop, hmem⟩ := loopAssign_eq_ok kind.name var hstrings
      rw [if_pos hkind]
      exact ⟨fun _ => .inl hkind, fun _ => ⟨val, found, hloop, hmem before p after assign val hsplit hnamed hvalue hval⟩⟩
    · rw [if_neg hkind, hfound var hvar]
      exact ⟨.inr, fun h => h.resolve_left hkind⟩
  unfold Effective Visible
  constructor
  · rintro (⟨inst, hmem, hfor, h⟩ | ⟨hkind, mp, hmp, hfor, h⟩)
    · exact .inl ⟨inst, hmem, hfor, (hinst _ hfor).mp h⟩
    · exact .inr ⟨hkind, mp, hmp, hfor, (hfound _ hfor).mp h⟩
  · rintro (⟨inst, hmem, hfor, h⟩ | ⟨hkind, mp, hmp, hfor, h⟩)
    · exact .inl ⟨inst, hmem, hfor, (hinst _ hfor).mpr h⟩
    · exact .inr ⟨hkind, mp, hmp, hfor, (hfound _ hfor).mpr h⟩

/-! ## What the check accepts -/

theorem checkAssign_eq_ok_iff : checkAssign a kind.name (kind == .property) assign = .ok () ↔
    equals ∈ assign ∧ ∃ name ∈ names a kind, beginsName (assign.takeWhile (· ≠ equals)) name = true := by
  have hnames : (a.instances.any (beginsName (assign.takeWhile (· ≠ equals)) ·.name) ||
      (kind == .property) && a.mappedProperties.any (beginsName (assign.takeWhile (· ≠ equals)) ·.name))
        = true ↔
      ∃ name ∈ names a kind, beginsName (assign.takeWhile (· ≠ equals)) name = true := by
    rw [Bool.or_eq_true, Bool.and_eq_true, List.any_eq_true, List.any_eq_true, beq_iff_eq]
    constructor
    · rintro (⟨inst, hinst, h⟩ | ⟨hkind, mp, hmp, h⟩)
      · exact ⟨inst.name, List.mem_append_left _ (List.mem_map_of_mem hinst), h⟩
      · refine ⟨mp.name, List.mem_append_right _ ?_, h⟩
        rw [if_pos hkind]
        exact List.mem_map_of_mem hmp
    · rintro ⟨name, hname, h⟩
      rcases List.mem_append.mp hname with hname | hname
      · obtain ⟨inst, hinst, rfl⟩ := List.mem_map.mp hname
        exact .inl ⟨inst, hinst, h⟩
      · split at hname
        · next hkind =>
          obtain ⟨mp, hmp, rfl⟩ := List.mem_map.mp hname
          exact .inr ⟨hkind, mp, hmp, h⟩
        · cases hname
  unfold checkAssign
  by_cases heq : equals ∈ assign
  · rw [if_pos heq]
    dsimp only
    split
    · next h => exact ⟨fun _ => ⟨heq, hnames.mp h⟩, fun _ => rfl⟩
    · next h => exact ⟨(fun h' => by cases h'), fun h' => absurd (hnames.mpr h'.2) h⟩
  · rw [if_neg heq]
    exact ⟨(fun h => by cases h), fun h => absurd h.1 heq⟩

/-- A list of parameters passes if none of them is refused. -/
theorem checkInstanceParams_eq_ok_iff : ∀ (params : List Param),
    checkInstanceParams a kind.name (kind == .property) params = .ok () ↔
      ∀ p ∈ params, ¬Refused a kind p
  | [] => by simp [checkInstanceParams]
  | p :: params => by
    have ih := checkInstanceParams_eq_ok_iff params
    rw [checkInstanceParams, List.forall_mem_cons]
    by_cases hp : sameName p.name kind.name = true
    · rw [if_pos hp]
      cases hs : p.vString with
      | none =>
        refine ⟨(fun h => by cases h), fun h => absurd ⟨hp, ?_⟩ h.1⟩
        rw [hs]
        intro assign h'
        cases h'
      | some assign =>
        have hrefused : Refused a kind p ↔
            ¬checkAssign a kind.name (kind == .property) assign = .ok () := by
          rw [checkAssign_eq_ok_iff]
          constructor
          · rintro ⟨-, h⟩ ⟨heq, name, hname, hbegins⟩
            rw [h assign hs heq name hname] at hbegins
            cases hbegins
          · intro h
            refine ⟨hp, fun assign' hs' heq name hname => ?_⟩
            rw [hs] at hs'
            cases hs'
            exact Bool.eq_false_iff.mpr fun hbegins => h ⟨heq, name, hname, hbegins⟩
        rw [hrefused, not_not, ← ih]
        show Except.bind (checkAssign a kind.name (kind == .property) assign) _ = _ ↔ _
        cases checkAssign a kind.name (kind == .property) assign with
        | error e => exact ⟨(fun h => by cases h), fun h => by cases h.1⟩
        | ok u => exact ⟨fun h => ⟨rfl, h⟩, fun h => h.2⟩
    · rw [if_neg hp, ih]
      exact ⟨fun h => ⟨fun hr => hp hr.1, h⟩, fun h => h.2⟩

/-- `init` accepts the parameters if and only if none of them is refused. -/
theorem checkParams_eq_ok_iff :
    checkParams a params = .ok () ↔ ∀ kind, ∀ p ∈ params, ¬Refused a kind p := by
  have hforM : ∀ ks : List Kind,
      (ks.forM fun kind => checkInstanceParams a kind.name (kind == .property) params) =
          (.ok () : Except ParamError Unit) ↔
        ∀ kind ∈ ks, ∀ p ∈ params, ¬Refused a kind p := by
    intro ks
    induction ks with
    | nil => simp [pure, Except.pure]
    | cons kind ks ih =>
      rw [List.forall_mem_cons, ← checkInstanceParams_eq_ok_iff, ← ih]
      show Except.bind (checkInstanceParams a kind.name (kind == .property) params) _ = _ ↔ _
      cases checkInstanceParams a kind.name (kind == .property) params with
      | error e => exact ⟨(fun h => by cases h), fun h => by cases h.1⟩
      | ok u => exact ⟨fun h => ⟨rfl, h⟩, fun h => h.2⟩
  have hall : ∀ kind : Kind, kind ∈ kinds := by
    intro kind
    cases kind <;> decide
  rw [checkParams, hforM]
  exact ⟨fun h kind => h kind (hall kind), fun h kind _ => h kind⟩

/-! ## When nothing is ignored -/

/-- **No parameter is ignored** if and only if one is refused, or each has the whole name of an instance or of
a mapped property and stands before all others for it. -/
theorem noneIgnored_iff (a : Util.Assembly) (params : List Param) :
    NoneIgnored a params ↔
      (∃ kind, ∃ p ∈ params, Refused a kind p) ∨
        ∀ kind before p after assign, Assigns kind params before p after assign →
          Visible a kind before assign := by
  have hstrings : (∀ kind, ∀ p ∈ params, ¬Refused a kind p) → ∀ kind : Kind, ∀ q ∈ params,
      sameName q.name kind.name = true → q.vString ≠ none := by
    intro hok kind q hq hnamed hnone
    refine hok kind q hq ⟨hnamed, fun assign hs => ?_⟩
    rw [hnone] at hs
    cases hs
  unfold NoneIgnored
  rw [checkParams_eq_ok_iff]
  constructor
  · intro h
    by_cases hr : ∃ kind, ∃ p ∈ params, Refused a kind p
    · exact .inl hr
    · have hok : ∀ kind, ∀ p ∈ params, ¬Refused a kind p := fun kind p hp hrp => hr ⟨kind, p, hp, hrp⟩
      exact .inr fun kind before p after assign ha =>
        (effective_iff ha (hstrings hok kind)).mp (h hok kind before p after assign ha)
  · rintro (⟨kind, p, hp, hr⟩ | h) hok kind' before p' after assign ha
    · exact absurd hr (hok kind p hp)
    · exact (effective_iff ha (hstrings hok kind')).mpr (h kind' before p' after assign ha)

/-! ## Parameters that are ignored -/

/-- An assembly with the instance `bias`. -/
def oneInstance : Util.Assembly := { instances := [⟨[98, 105, 97, 115], []⟩] }

/-- `model` is given for `b`, which is the beginning of `bias`; and twice for `bias`, which ignores the
second. -/
theorem accepted_and_ignored :
    ¬NoneIgnored oneInstance [⟨Kind.model.name, some [98, 61, 114, 99, 99]⟩] ∧
    ¬NoneIgnored oneInstance [⟨Kind.model.name, some [98, 105, 97, 115, 61, 114]⟩,
      ⟨Kind.model.name, some [98, 105, 97, 115, 61, 104]⟩] := by
  constructor
  · intro h
    have hlookup : findAssign Kind.model.name [98, 105, 97, 115]
        [⟨Kind.model.name, some [98, 61, 114, 99, 99]⟩] = .ok none := rfl
    rcases h rfl .model [] _ [] _ ⟨rfl, rfl, rfl⟩ with ⟨inst, hinst, -, h⟩ | ⟨hkind, -⟩
    · obtain ⟨val, hval⟩ := h
      rw [List.mem_singleton.mp hinst, hlookup] at hval
      cases hval
    · cases hkind
  · intro h
    have hlookup : findAssign Kind.model.name [98, 105, 97, 115]
        [⟨Kind.model.name, some [98, 105, 97, 115, 61, 114]⟩,
          ⟨Kind.model.name, some [98, 105, 97, 115, 61, 104]⟩] =
        .ok (some ([114], [⟨Kind.model.name, some [98, 105, 97, 115, 61, 104]⟩])) := rfl
    rcases h rfl .model [⟨Kind.model.name, some [98, 105, 97, 115, 61, 114]⟩] _ [] _ ⟨rfl, rfl, rfl⟩ with
      ⟨inst, hinst, -, h⟩ | ⟨hkind, -⟩
    · obtain ⟨val, hval⟩ := h
      rw [List.mem_singleton.mp hinst, hlookup] at hval
      cases hval
    · cases hkind

end OpenCpi.Application
