import OpenCpi.Application.Values

/-!
# The slots of an instance

Which slots `prepareInstanceProperties` fills, when it returns, and what value a property has after
`initialize`. The slots fit into the array unless mapped properties have parameters in another order than
they stand in the assembly: they are counted with a place in the list of parameters that is never set back,
and filled from the beginning of the list for each.
-/

namespace OpenCpi.Application

open Infra Util

variable {α : Type} (props : List (Property α)) (a : Util.Assembly) (nInstance : Nat)
  (inst : Util.Assembly.Instance) (params : List PValue) (k : Nat)

/-! ## Finding parameters -/

theorem assignments_eq (name var : Text) (ps : List PValue) :
    assignments name var ps = match Util.findAssignNext name var ps with
      | some (val, next) => val :: assignments name var next
      | none => [] := by
  induction ps with
  | nil => rfl
  | cons p next ih =>
    rw [assignments, Util.findAssignNext]
    split
    · rfl
    · exact ih

theorem findAssignNext_map_fst (name var : Text) (ps : List PValue) :
    (Util.findAssignNext name var ps).map (·.1) = (assignments name var ps).head? := by
  rw [assignments_eq]
  cases Util.findAssignNext name var ps <;> rfl

/-! ## A single value -/

/-- The name is that of a property that can be set. -/
def writable (pName : Text) : Bool :=
  match findProperty props pName with
  | some (_, uProp) => uProp.settable
  | none => false

/-- The name is that of a property that can be set, and the text is one of its values. -/
def accepts (pName value : Text) : Bool :=
  match findProperty props pName with
  | some (_, uProp) => uProp.settable && (uProp.parse value).isOk
  | none => false

variable {props}

theorem writable_of_accepts {pName value : Text} (h : accepts props pName value) : writable props pName := by
  unfold accepts at h
  unfold writable
  split at h
  · exact (Bool.and_eq_true_iff.mp h).1
  · cases h

theorem returns_checkPropertyValue {pName value : Text} :
    (checkPropertyValue props pName value).Returns ↔ accepts props pName value := by
  unfold checkPropertyValue accepts
  cases findProperty props pName with
  | none => exact iff_of_false (Filling.not_returns_raise _) Bool.false_ne_true
  | some np =>
    obtain ⟨ordinal, uProp⟩ := np
    dsimp only
    by_cases hset : uProp.settable
    · rw [if_pos hset, hset, Bool.true_and]
      cases uProp.parse value with
      | ok v => exact iff_of_true (Filling.returns_report _) rfl
      | error err =>
        refine iff_of_false (fun h => ?_) Bool.false_ne_true
        exact Filling.not_returns_raise _ (Filling.returns_bind.mp h).2
    · rw [if_neg hset]
      refine iff_of_false (Filling.not_returns_raise _) fun h => hset ?_
      exact (Bool.and_eq_true_iff.mp h).1

theorem length_slots_checkPropertyValue (pName value : Text) :
    (checkPropertyValue props pName value).slots.length = if writable props pName then 1 else 0 := by
  unfold checkPropertyValue writable
  cases findProperty props pName with
  | none => rfl
  | some np =>
    obtain ⟨ordinal, uProp⟩ := np
    dsimp only
    by_cases hset : uProp.settable
    · rw [if_pos hset, if_pos hset]
      cases uProp.parse value <;> rfl
    · rw [if_neg hset, if_neg hset]
      rfl

theorem length_slots_checkPropertyValue_le (pName value : Text) :
    (checkPropertyValue props pName value).slots.length ≤ 1 := by
  rw [length_slots_checkPropertyValue]
  split <;> omega

/-- The slot of a value that is accepted. -/
theorem slots_checkPropertyValue {pName value : Text} (h : accepts props pName value) :
    ∃ n p v, findProperty props pName = some (n, p) ∧ p.parse value = .ok v ∧
      (checkPropertyValue props pName value).slots = [⟨n, some v⟩] := by
  unfold accepts at h
  unfold checkPropertyValue
  cases hfind : findProperty props pName with
  | none =>
    rw [hfind] at h
    cases h
  | some np =>
    obtain ⟨n, p⟩ := np
    rw [hfind] at h
    obtain ⟨hset, hok⟩ := Bool.and_eq_true_iff.mp h
    cases hparse : p.parse value with
    | error err =>
      rw [hparse] at hok
      cases hok
    | ok v =>
      refine ⟨n, p, v, rfl, hparse, ?_⟩
      dsimp only
      rw [if_pos hset, hparse]
      rfl

theorem findProperty_eq_some {pName : Text} {n : Nat} {p : Property α} :
    findProperty props pName = some (n, p) ↔ whichProperty props pName = some n ∧ props[n]? = some p := by
  unfold findProperty
  rw [Option.bind_eq_some_iff]
  constructor
  · rintro ⟨m, hm, hp⟩
    obtain ⟨q, hq, hqp⟩ := Option.map_eq_some_iff.mp hp
    cases hqp
    exact ⟨hm, hq⟩
  · rintro ⟨hn, hp⟩
    exact ⟨n, hn, by rw [hp]; rfl⟩

/-! ## The values of an instance -/

/-- The names and values of the properties of the instance in the assembly that are set. -/
def keptSettings : List (Text × Text) :=
  (inst.properties.filter (kept a nInstance inst params)).map fun ap => (ap.name, ap.value)

/-- Those of the parameters of the instance. -/
def assignSettings : List (Text × Text) :=
  (assignments property inst.name params).filterMap splitAssign

/-- Those of the parameters for properties that are mapped to the instance. -/
def mappedSettings : List (Text × Text) :=
  a.mappedProperties.filterMap fun mp => (mappedValue nInstance params mp).map fun value => (mp.instPropName, value)

variable (props)

/-- A property of the instance in the assembly is not refused. -/
def propertyOk (ap : Util.Assembly.Property) : Bool :=
  (ap.dumpFile = [] || (findProperty props ap.name).any (·.2.isReadable)) &&
    (!kept a nInstance inst params ap || accepts props ap.name ap.value)

/-- A parameter of the instance is not refused. -/
def assignOk (propAssign : Text) : Bool :=
  (splitAssign propAssign).any fun (pName, value) => accepts props pName value

/-- A parameter for a mapped property is not refused. -/
def mappedOk (mp : Util.Assembly.MappedProperty) : Bool :=
  (mappedValue nInstance params mp).all (accepts props mp.instPropName)

variable {props a nInstance inst params k}

theorem returns_checkDump {ap : Util.Assembly.Property} :
    (checkDump props ap).Returns ↔
      ap.dumpFile = [] ∨ (findProperty props ap.name).any (·.2.isReadable) := by
  unfold checkDump
  by_cases hdump : ap.dumpFile = []
  · rw [if_pos hdump]
    exact iff_of_true Filling.returns_pure (Or.inl hdump)
  · rw [if_neg hdump, or_iff_right hdump]
    cases findProperty props ap.name with
    | none => exact iff_of_false (Filling.not_returns_raise _) Bool.false_ne_true
    | some np =>
      obtain ⟨n, uProp⟩ := np
      dsimp only [Option.any_some]
      by_cases hread : uProp.isReadable
      · rw [if_pos hread]
        exact iff_of_true Filling.returns_pure hread
      · rw [if_neg hread]
        exact iff_of_false (Filling.not_returns_raise _) hread

theorem slots_checkDump (ap : Util.Assembly.Property) : (checkDump props ap).slots = [] := by
  unfold checkDump
  split
  · rfl
  · split
    · rfl
    · split <;> rfl

theorem returns_prepareProperty {ap : Util.Assembly.Property} :
    (prepareProperty props a nInstance inst params ap).Returns ↔ propertyOk props a nInstance inst params ap := by
  unfold prepareProperty propertyOk
  rw [Filling.returns_bind, returns_checkDump, Bool.and_eq_true, Bool.or_eq_true, decide_eq_true_iff]
  refine and_congr_right fun _ => ?_
  cases hkept : kept a nInstance inst params ap with
  | false => exact iff_of_true Filling.returns_pure rfl
  | true => exact returns_checkPropertyValue

theorem slots_prepareProperty {ap : Util.Assembly.Property}
    (h : propertyOk props a nInstance inst params ap) :
    (prepareProperty props a nInstance inst params ap).slots =
      if kept a nInstance inst params ap then (checkPropertyValue props ap.name ap.value).slots else [] := by
  have hdump := (Filling.returns_bind.mp (returns_prepareProperty.mpr h)).1
  unfold prepareProperty
  rw [Filling.slots_bind_of_returns hdump, slots_checkDump, List.nil_append]
  split <;> rfl

theorem length_slots_prepareProperty_le (ap : Util.Assembly.Property) :
    (prepareProperty props a nInstance inst params ap).slots.length ≤ 1 := by
  unfold prepareProperty
  by_cases hdump : (checkDump props ap).Returns
  · rw [Filling.slots_bind_of_returns hdump, slots_checkDump, List.nil_append]
    split
    · exact length_slots_checkPropertyValue_le _ _
    · exact Nat.zero_le _
  · rw [Filling.slots_bind_of_not_returns hdump, slots_checkDump]
    exact Nat.zero_le _

theorem returns_prepareAssign {propAssign : Text} :
    (prepareAssign props propAssign).Returns ↔ assignOk props propAssign := by
  unfold prepareAssign assignOk
  cases splitAssign propAssign with
  | none => exact iff_of_false (Filling.not_returns_raise _) Bool.false_ne_true
  | some setting => exact returns_checkPropertyValue

theorem length_slots_prepareAssign_le (propAssign : Text) :
    (prepareAssign props propAssign).slots.length ≤ 1 := by
  unfold prepareAssign
  cases splitAssign propAssign with
  | none => exact Nat.zero_le _
  | some setting => exact length_slots_checkPropertyValue_le _ _

theorem returns_prepareMapped {mp : Util.Assembly.MappedProperty} :
    (prepareMapped props nInstance params mp).Returns ↔ mappedOk props nInstance params mp := by
  unfold prepareMapped mappedOk
  cases mappedValue nInstance params mp with
  | none => exact iff_of_true Filling.returns_pure rfl
  | some value => exact returns_checkPropertyValue

/-! ### The three loops -/

/-- The slots of values that are set. -/
def slotsOf (props : List (Property α)) (settings : List (Text × Text)) : List (Slot α) :=
  settings.flatMap fun s => (checkPropertyValue props s.1 s.2).slots

theorem slots_properties (h : ∀ ap ∈ inst.properties, propertyOk props a nInstance inst params ap) :
    (Filling.each (prepareProperty props a nInstance inst params) inst.properties).slots =
      slotsOf props (keptSettings a nInstance inst params) := by
  have hret : (Filling.each (prepareProperty props a nInstance inst params) inst.properties).Returns :=
    Filling.returns_each.mpr fun ap hap => returns_prepareProperty.mpr (h ap hap)
  rw [Filling.slots_each hret, slotsOf, keptSettings, List.flatMap_map]
  generalize inst.properties = ps at h ⊢
  induction ps with
  | nil => rfl
  | cons ap ps ih =>
    obtain ⟨hap, hps⟩ := List.forall_mem_cons.mp h
    rw [List.flatMap_cons, slots_prepareProperty hap, ih hps, List.filter_cons]
    split
    · rw [List.flatMap_cons]
    · rw [List.nil_append]

theorem slots_assigns (h : ∀ t ∈ assignments property inst.name params, assignOk props t) :
    (Filling.each (prepareAssign props) (assignments property inst.name params)).slots =
      slotsOf props (assignSettings inst params) := by
  rw [Filling.slots_each (Filling.returns_each.mpr fun t ht => returns_prepareAssign.mpr (h t ht)), slotsOf,
    assignSettings]
  generalize assignments property inst.name params = ts
  induction ts with
  | nil => rfl
  | cons t ts ih =>
    rw [List.flatMap_cons, ih, prepareAssign]
    cases hsplit : splitAssign t with
    | none => rw [List.filterMap_cons_none hsplit]; rfl
    | some setting => rw [List.filterMap_cons_some hsplit, List.flatMap_cons]

theorem slots_mapped (h : ∀ mp ∈ a.mappedProperties, mappedOk props nInstance params mp) :
    (Filling.each (prepareMapped props nInstance params) a.mappedProperties).slots =
      slotsOf props (mappedSettings a nInstance params) := by
  rw [Filling.slots_each (Filling.returns_each.mpr fun mp hmp => returns_prepareMapped.mpr (h mp hmp)), slotsOf,
    mappedSettings]
  generalize a.mappedProperties = mps
  induction mps with
  | nil => rfl
  | cons mp mps ih =>
    rw [List.flatMap_cons, ih, List.filterMap_cons, prepareMapped]
    cases mappedValue nInstance params mp with
    | none => rfl
    | some value => rw [Option.map_some, List.flatMap_cons]

/-- Nothing that is given to the instance is refused. -/
structure Launchable (props : List (Property α)) (a : Util.Assembly) (nInstance : Nat)
    (inst : Util.Assembly.Instance) (params : List PValue) : Prop where
  properties : ∀ ap ∈ inst.properties, propertyOk props a nInstance inst params ap
  assigns : ∀ t ∈ assignments property inst.name params, assignOk props t
  mapped : ∀ mp ∈ a.mappedProperties, mappedOk props nInstance params mp

theorem returns_prepareInstanceProperties :
    (prepareInstanceProperties props a nInstance inst params).Returns ↔
      Launchable props a nInstance inst params := by
  unfold prepareInstanceProperties
  simp only [Filling.returns_bind, Filling.returns_each, returns_prepareProperty, returns_prepareAssign,
    returns_prepareMapped]
  exact ⟨fun ⟨h, h', h''⟩ => ⟨h, h', h''⟩, fun ⟨h, h', h''⟩ => ⟨h, h', h''⟩⟩

/-- **The slots of an instance** when nothing is refused: the assembly comes first, then the parameters of
the instance, and the mapped ones last. -/
theorem slots_prepareInstanceProperties (h : Launchable props a nInstance inst params) :
    (prepareInstanceProperties props a nInstance inst params).slots =
      slotsOf props (keptSettings a nInstance inst params ++ assignSettings inst params ++
        mappedSettings a nInstance params) := by
  have hproperties := Filling.returns_each.mpr fun ap hap => returns_prepareProperty.mpr (h.properties ap hap)
  have hassigns := Filling.returns_each.mpr fun t ht => returns_prepareAssign.mpr (h.assigns t ht)
  unfold prepareInstanceProperties
  rw [Filling.slots_bind_of_returns hproperties, Filling.slots_bind_of_returns hassigns,
    slots_properties h.properties, slots_assigns h.assigns, slots_mapped h.mapped, slotsOf, slotsOf, slotsOf,
    slotsOf, List.flatMap_append, List.flatMap_append, List.append_assoc]

/-! ## The value that stays -/

/-- The texts for a property, among names and texts. -/
def textsFor (props : List (Property α)) (k : Nat) (settings : List (Text × Text)) : List Text :=
  settings.filterMap fun s => if whichProperty props s.1 = some k then some s.2 else none

theorem textsFor_cons (s : Text × Text) (settings : List (Text × Text)) :
    textsFor props k (s :: settings) =
      if whichProperty props s.1 = some k then s.2 :: textsFor props k settings
      else textsFor props k settings := by
  rw [textsFor, List.filterMap_cons]
  by_cases hk : whichProperty props s.1 = some k
  · rw [if_pos hk, if_pos hk]
    rfl
  · rw [if_neg hk, if_neg hk]
    rfl

theorem textsFor_append (settings settings' : List (Text × Text)) :
    textsFor props k (settings ++ settings') = textsFor props k settings ++ textsFor props k settings' :=
  List.filterMap_append

/-- The ordinals and values of slots. -/
def slotValues (slots : List (Slot α)) : List (Nat × List α) :=
  slots.filterMap fun s => s.value.map fun v => (s.ordinal, v)

variable {p : Property α} {ss : List (Text × Text)}

theorem accepts_text {t : Text} (hp : props[k]? = some p) (hs : ∀ s ∈ ss, accepts props s.1 s.2)
    (ht : t ∈ textsFor props k ss) : ∃ v, p.parse t = .ok v := by
  obtain ⟨s, hsmem, hst⟩ := List.mem_filterMap.mp ht
  obtain ⟨n, q, v, hfind, hparse, -⟩ := slots_checkPropertyValue (hs s hsmem)
  obtain ⟨hwhich, hq⟩ := findProperty_eq_some.mp hfind
  split at hst
  · rename_i hk
    cases hst
    rw [hwhich] at hk
    cases hk
    rw [hp] at hq
    cases hq
    exact ⟨v, hparse⟩
  · cases hst

theorem valuesAt_slotsOf (hp : props[k]? = some p) (hs : ∀ s ∈ ss, accepts props s.1 s.2) :
    valuesAt (slotValues (slotsOf props ss)) k =
      (textsFor props k ss).filterMap fun t => (p.parse t).toOption := by
  induction ss with
  | nil => rfl
  | cons s ss ih =>
    obtain ⟨hs, hss⟩ := List.forall_mem_cons.mp hs
    obtain ⟨n, q, v, hfind, hparse, hslots⟩ := slots_checkPropertyValue hs
    obtain ⟨hwhich, hq⟩ := findProperty_eq_some.mp hfind
    have hcons : slotValues (slotsOf props (s :: ss)) = (n, v) :: slotValues (slotsOf props ss) := by
      rw [slotsOf, List.flatMap_cons, hslots]
      rfl
    rw [hcons, valuesAt_cons, textsFor_cons, hwhich]
    by_cases hk : n = k
    · subst hk
      have hv : (p.parse s.2).toOption = some v := by
        rw [hp] at hq
        cases hq
        rw [hparse]
        rfl
      rw [if_pos rfl, if_pos rfl, List.filterMap_cons, hv, ih hss]
    · rw [if_neg hk, if_neg fun h => hk (Option.some.inj h), ih hss]

theorem any_ordinal_slotsOf (hs : ∀ s ∈ ss, accepts props s.1 s.2) :
    (slotsOf props ss).any (·.ordinal == k) = !(textsFor props k ss).isEmpty := by
  induction ss with
  | nil => rfl
  | cons s ss ih =>
    obtain ⟨hs, hss⟩ := List.forall_mem_cons.mp hs
    obtain ⟨n, q, v, hfind, -, hslots⟩ := slots_checkPropertyValue hs
    have hany : (slotsOf props (s :: ss)).any (·.ordinal == k) =
        (n == k || (slotsOf props ss).any (·.ordinal == k)) := by
      rw [slotsOf, List.flatMap_cons, hslots]
      rfl
    rw [hany, ih hss, textsFor_cons, (findProperty_eq_some.mp hfind).1]
    by_cases hk : n = k
    · rw [hk, if_pos rfl, beq_self_eq_true]
      rfl
    · rw [beq_eq_false_iff_ne.mpr hk, if_neg fun h => hk (Option.some.inj h)]
      rfl

/-- **The last text for a property is its value**, or its default is when there is none. -/
theorem initialValues_slotsOf (hp : props[k]? = some p) (hs : ∀ s ∈ ss, accepts props s.1 s.2) :
    initialValues props (slotsOf props ss) k =
      match (textsFor props k ss).getLast? with
      | some t => (p.parse t).toOption
      | none => p.default := by
  have hdefaults := valuesAt_zipIdx (fun (prop : Property α) n =>
    if (slotsOf props ss).any (·.ordinal == n) then none else prop.default) k props 0
  rw [if_neg (Nat.not_lt_zero k), Nat.sub_zero, hp, Option.bind_some, any_ordinal_slotsOf hs] at hdefaults
  have hsettings : settings props (slotsOf props ss) = slotValues (slotsOf props ss) ++
      props.zipIdx.filterMap fun x => (if (slotsOf props ss).any (·.ordinal == x.2) then none
        else x.1.default).map fun v => (x.2, v) := by
    unfold settings slotValues
    congr 1
    refine List.filterMap_congr fun x _ => ?_
    obtain ⟨prop, n⟩ := x
    dsimp only
    split <;> rfl
  rw [initialValues, written_apply, hsettings, valuesAt_append, hdefaults, valuesAt_slotsOf hp hs,
    Option.or_none]
  rcases List.eq_nil_or_concat (textsFor props k ss) with hnil | ⟨ts, t, hts⟩
  · rw [hnil]
    cases p.default <;> rfl
  · rw [List.concat_eq_append] at hts
    have ht : t ∈ textsFor props k ss := by
      rw [hts]
      exact List.mem_append_right _ (List.mem_singleton_self t)
    obtain ⟨v, hparse⟩ := accepts_text hp hs ht
    have hv : (p.parse t).toOption = some v := by
      rw [hparse]
      rfl
    have hvalues : (textsFor props k ss).filterMap (fun t => (p.parse t).toOption) =
        ts.filterMap (fun t => (p.parse t).toOption) ++ [v] := by
      rw [hts, List.filterMap_append, List.filterMap_cons, hv]
      rfl
    have hempty : (textsFor props k ss).isEmpty = false := List.isEmpty_eq_false_iff.mpr (List.ne_nil_of_mem ht)
    have hlast : (textsFor props k ss).getLast? = some t := by
      rw [hts, List.getLast?_concat]
    rw [hvalues, hempty, hlast, Bool.not_false, if_pos rfl, Option.toList_none, List.append_nil,
      List.getLast?_concat]
    exact hv.symm

/-! ## Counting -/

/-- A parameter for `var`. -/
def isFor (var : Text) (p : PValue) : Bool := sameName p.name property && (assigned var p.vString).isSome

/-- The mapped properties of the instance that have a parameter behind those that were found for the ones
before. `place` is where those end. -/
def inTurn (nInstance : Nat) (params : List PValue) :
    List Util.Assembly.MappedProperty → Nat → List Util.Assembly.MappedProperty
  | [], _ => []
  | mp :: mps, place =>
    if mp.inst = nInstance then
      match (params.drop place).findIdx? (isFor mp.name) with
      | some distance => mp :: inTurn nInstance params mps (place + distance + 1)
      | none => inTurn nInstance params mps place
    else inTurn nInstance params mps place

theorem findAssignNext_map_snd (var : Text) (ps : List PValue) :
    (Util.findAssignNext property var ps).map (·.2) =
      (ps.findIdx? (isFor var)).map fun distance => ps.drop (distance + 1) := by
  induction ps with
  | nil => rfl
  | cons p next ih =>
    rw [Util.findAssignNext, List.findIdx?_cons, isFor]
    cases hname : sameName p.name property with
    | false =>
      rw [if_neg Bool.false_ne_true, Bool.false_and, if_neg Bool.false_ne_true, Option.map_map]
      exact ih
    | true =>
      rw [if_pos rfl, Bool.true_and]
      cases assigned var p.vString with
      | some val => rfl
      | none =>
        rw [Option.isSome_none, if_neg Bool.false_ne_true, Option.map_map]
        exact ih

theorem countMapped_eq (mps : List Util.Assembly.MappedProperty) (place : Nat) :
    countMapped nInstance mps (params.drop place) = (inTurn nInstance params mps place).length := by
  induction mps generalizing place with
  | nil => rfl
  | cons mp mps ih =>
    have hnext := findAssignNext_map_snd mp.name (params.drop place)
    rw [countMapped, inTurn]
    by_cases hinst : mp.inst = nInstance
    · rw [if_pos hinst, if_pos hinst]
      cases hfind : (params.drop place).findIdx? (isFor mp.name) with
      | none =>
        rw [hfind, Option.map_none, Option.map_eq_none_iff] at hnext
        rw [hnext]
        exact ih place
      | some distance =>
        rw [hfind, Option.map_some, List.drop_drop] at hnext
        obtain ⟨⟨val, next⟩, hval, hdrop⟩ := Option.map_eq_some_iff.mp hnext
        rw [hval]
        dsimp only at hdrop ⊢
        rw [hdrop, ← Nat.add_assoc, ih, List.length_cons]
    · rw [if_neg hinst, if_neg hinst]
      exact ih place

/-- How many of the values for mapped properties get to a slot: up to the first that is refused, and that
one too if the property can be set. -/
def reached (props : List (Property α)) : List (Text × Text) → Nat
  | [] => 0
  | (pName, value) :: settings =>
    if accepts props pName value then reached props settings + 1
    else if writable props pName then 1 else 0

theorem length_slots_mapped :
    (Filling.each (prepareMapped props nInstance params) a.mappedProperties).slots.length =
      reached props (mappedSettings a nInstance params) := by
  unfold mappedSettings
  generalize a.mappedProperties = mps
  induction mps with
  | nil => rfl
  | cons mp mps ih =>
    rw [Filling.each, prepareMapped, List.filterMap_cons]
    cases mappedValue nInstance params mp with
    | none =>
      rw [Filling.slots_bind_of_returns Filling.returns_pure, Filling.slots_pure, List.nil_append, ih]
      rfl
    | some value =>
      dsimp only [Option.map_some]
      rw [reached]
      by_cases hok : accepts props mp.instPropName value
      · rw [if_pos hok, Filling.slots_bind_of_returns (returns_checkPropertyValue.mpr hok), List.length_append,
          length_slots_checkPropertyValue, if_pos (writable_of_accepts hok), ih, Nat.add_comm]
      · rw [if_neg hok, Filling.slots_bind_of_not_returns fun h => hok (returns_checkPropertyValue.mp h),
          length_slots_checkPropertyValue]

/-- The properties of the instance in the assembly that get no slot. -/
def dropped (a : Util.Assembly) (nInstance : Nat) (inst : Util.Assembly.Instance) (params : List PValue) :
    List Util.Assembly.Property :=
  inst.properties.filter fun ap => !kept a nInstance inst params ap

theorem length_slotsOf (hs : ∀ s ∈ ss, accepts props s.1 s.2) : (slotsOf props ss).length = ss.length := by
  induction ss with
  | nil => rfl
  | cons s ss ih =>
    obtain ⟨hs, hss⟩ := List.forall_mem_cons.mp hs
    rw [slotsOf, List.flatMap_cons, List.length_append, length_slots_checkPropertyValue,
      if_pos (writable_of_accepts hs), List.length_cons, Nat.add_comm]
    exact congrArg (· + 1) (ih hss)

theorem mappedValue_of_countMapped {mps : List Util.Assembly.MappedProperty}
    (h : countMapped nInstance mps params = 0) : ∀ mp ∈ mps, mappedValue nInstance params mp = none := by
  induction mps with
  | nil => exact fun _ hmp => nomatch hmp
  | cons mp mps ih =>
    rw [countMapped] at h
    unfold mappedValue
    by_cases hinst : mp.inst = nInstance
    · rw [if_pos hinst] at h
      cases hfind : Util.findAssignNext property mp.name params with
      | none =>
        rw [hfind] at h
        refine List.forall_mem_cons.mpr ⟨?_, ih h⟩
        rw [if_pos hinst, hfind]
        rfl
      | some r =>
        rw [hfind] at h
        exact absurd h (Nat.succ_ne_zero _)
    · rw [if_neg hinst] at h
      exact List.forall_mem_cons.mpr ⟨if_neg hinst, ih h⟩

/-- Without an array there is nothing to prepare. -/
theorem prepared_of_nPropValues (h : nPropValues a nInstance inst params = 0) :
    Launchable props a nInstance inst params ∧
      (prepareInstanceProperties props a nInstance inst params).slots = [] := by
  unfold nPropValues at h
  have hproperties : inst.properties = [] := List.eq_nil_of_length_eq_zero (by omega)
  have hassigns : assignments property inst.name params = [] := List.eq_nil_of_length_eq_zero (by omega)
  have hcount : countMapped nInstance a.mappedProperties params = 0 := by omega
  have hmapped := mappedValue_of_countMapped hcount
  have hlaunch : Launchable props a nInstance inst params := by
    refine ⟨?_, ?_, fun mp hmp => ?_⟩
    · rw [hproperties]
      exact fun _ hap => nomatch hap
    · rw [hassigns]
      exact fun _ ht => nomatch ht
    · rw [mappedOk, hmapped mp hmp]
      rfl
  have hsettings : mappedSettings a nInstance params = [] := by
    refine List.filterMap_eq_nil_iff.mpr fun mp hmp => ?_
    rw [hmapped mp hmp]
    rfl
  refine ⟨hlaunch, ?_⟩
  rw [slots_prepareInstanceProperties hlaunch, keptSettings, hproperties, assignSettings, hassigns, hsettings]
  rfl

theorem slots_finalizeProperties : (finalizeProperties props a nInstance inst params).slots =
    (prepareInstanceProperties props a nInstance inst params).slots := by
  unfold finalizeProperties
  split
  · rename_i h
    rw [(prepared_of_nPropValues h).2]
    rfl
  · rfl

/-- **When an instance can be launched.** -/
theorem returns_finalizeProperties : (finalizeProperties props a nInstance inst params).Returns ↔
    Launchable props a nInstance inst params := by
  unfold finalizeProperties
  split
  · rename_i h
    exact iff_of_true Filling.returns_pure (prepared_of_nPropValues h).1
  · exact returns_prepareInstanceProperties

theorem accepts_keptSettings (h : ∀ ap ∈ inst.properties, propertyOk props a nInstance inst params ap) :
    ∀ s ∈ keptSettings a nInstance inst params, accepts props s.1 s.2 := by
  intro s hs
  obtain ⟨ap, hap, rfl⟩ := List.mem_map.mp hs
  obtain ⟨hmem, hkept⟩ := List.mem_filter.mp hap
  have hok := h ap hmem
  unfold propertyOk at hok
  rw [hkept] at hok
  exact (Bool.and_eq_true_iff.mp hok).2

theorem accepts_assignSettings (h : ∀ t ∈ assignments property inst.name params, assignOk props t) :
    (assignSettings inst params).length = (assignments property inst.name params).length ∧
      ∀ s ∈ assignSettings inst params, accepts props s.1 s.2 := by
  unfold assignSettings
  generalize assignments property inst.name params = ts at h ⊢
  induction ts with
  | nil => exact ⟨rfl, fun _ hs => nomatch hs⟩
  | cons t ts ih =>
    obtain ⟨ht, hts⟩ := List.forall_mem_cons.mp h
    obtain ⟨hlength, hacc⟩ := ih hts
    unfold assignOk at ht
    cases hsplit : splitAssign t with
    | none =>
      rw [hsplit] at ht
      cases ht
    | some s =>
      rw [hsplit] at ht
      rw [List.filterMap_cons_some hsplit, List.length_cons, List.length_cons, hlength]
      exact ⟨rfl, List.forall_mem_cons.mpr ⟨ht, hacc⟩⟩

theorem accepts_mappedSettings (h : ∀ mp ∈ a.mappedProperties, mappedOk props nInstance params mp) :
    ∀ s ∈ mappedSettings a nInstance params, accepts props s.1 s.2 := by
  intro s hs
  obtain ⟨mp, hmp, hsmp⟩ := List.mem_filterMap.mp hs
  obtain ⟨value, hvalue, rfl⟩ := Option.map_eq_some_iff.mp hsmp
  have hok := h mp hmp
  unfold mappedOk at hok
  rw [hvalue] at hok
  exact hok

/-- **The slots fit into the array** exactly when the values for mapped properties that get to a slot are no
more than the ones in turn and the dropped properties together. -/
theorem fits_iff : (finalizeProperties props a nInstance inst params).slots.length ≤
      nPropValues a nInstance inst params ↔
    ((∀ ap ∈ inst.properties, propertyOk props a nInstance inst params ap) →
      (∀ t ∈ assignments property inst.name params, assignOk props t) →
      reached props (mappedSettings a nInstance params) ≤
        (inTurn nInstance params a.mappedProperties 0).length + (dropped a nInstance inst params).length) := by
  have hcount : nPropValues a nInstance inst params = inst.properties.length +
      (assignments property inst.name params).length +
      (inTurn nInstance params a.mappedProperties 0).length := by
    rw [nPropValues, ← countMapped_eq, List.drop_zero]
  have hsplit : (keptSettings a nInstance inst params).length + (dropped a nInstance inst params).length =
      inst.properties.length := by
    rw [keptSettings, List.length_map, dropped]
    exact (List.length_eq_length_filter_add _).symm
  have hproperties : (Filling.each (prepareProperty props a nInstance inst params) inst.properties).slots.length ≤
      inst.properties.length := Filling.length_slots_each length_slots_prepareProperty_le
  have hassigns : (Filling.each (prepareAssign props) (assignments property inst.name params)).slots.length ≤
      (assignments property inst.name params).length := Filling.length_slots_each length_slots_prepareAssign_le
  rw [slots_finalizeProperties, prepareInstanceProperties]
  by_cases hp : ∀ ap ∈ inst.properties, propertyOk props a nInstance inst params ap
  · have hpr := Filling.returns_each.mpr fun ap hap => returns_prepareProperty.mpr (hp ap hap)
    rw [Filling.slots_bind_of_returns hpr, slots_properties hp, List.length_append,
      length_slotsOf (accepts_keptSettings hp)]
    by_cases ha : ∀ t ∈ assignments property inst.name params, assignOk props t
    · have har := Filling.returns_each.mpr fun t ht => returns_prepareAssign.mpr (ha t ht)
      obtain ⟨hlength, hacc⟩ := accepts_assignSettings ha
      rw [Filling.slots_bind_of_returns har, slots_assigns ha, List.length_append, length_slotsOf hacc, hlength,
        length_slots_mapped]
      constructor
      · intro h _ _
        omega
      · intro h
        have := h hp ha
        omega
    · have har : ¬(Filling.each (prepareAssign props) (assignments property inst.name params)).Returns :=
        fun h => ha fun t ht => returns_prepareAssign.mp (Filling.returns_each.mp h t ht)
      rw [Filling.slots_bind_of_not_returns har]
      exact iff_of_true (by omega) fun _ h => absurd h ha
  · have hpr : ¬(Filling.each (prepareProperty props a nInstance inst params) inst.properties).Returns :=
      fun h => hp fun ap hap => returns_prepareProperty.mp (Filling.returns_each.mp h ap hap)
    rw [Filling.slots_bind_of_not_returns hpr]
    exact iff_of_true (by omega) fun h => absurd h hp

end OpenCpi.Application
