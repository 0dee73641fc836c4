import OpenCpi.Infra.Yields
import OpenCpi.Properties.ValueSlots
import OpenCpi.Properties.Wiring
import OpenCpi.Value.Datum

/-!
# Where the values of the properties of an instance come from

A parameter for the instance goes before a parameter for a property of the assembly that is mapped to the
instance, that before the values in the assembly, and those before the default. And the values fit into the
array that is allocated for them.

The program lets the mapped parameter win. An element for a mapped property goes to the first entry of its
name in the list of the instance, where a file of values goes behind the text that is there and a dump alone
makes the value forgotten; without such an entry it gets one that has no name. So the program is right
exactly when none of that matters.
-/

namespace OpenCpi.Util

/-- The text that an element gives, unless its file cannot be read. -/
def ValueAttributes.text (file2String : Text → Text × Option Text) (px : ValueAttributes) : Option Text :=
  match px.value, px.valueFile with
  | some cp, _ => some cp
  | none, some cp => if (file2String cp).2 = none then some (file2String cp).1 else none
  | none, none => none

/-- What a text becomes: a value stands for all before it, and what is in a file goes behind it. -/
def ValueAttributes.appended (file2String : Text → Text × Option Text) (text : Text) (px : ValueAttributes) :
    Text :=
  match px.value, px.valueFile with
  | some cp, _ => cp
  | none, some cp => text ++ (file2String cp).1
  | none, none => text

/-- The file for a dump that an element names, unless its file of values cannot be read. -/
def ValueAttributes.dump (file2String : Text → Text × Option Text) (px : ValueAttributes) : Option Text :=
  match px.value, px.valueFile with
  | none, some cp => if (file2String cp).2 = none then px.dumpFile else none
  | _, _ => px.dumpFile

/-- An element of the assembly says something about the value. Only such ones are added to an instance. -/
def ValueAttributes.tells (px : ValueAttributes) : Bool :=
  px.value.isSome || px.valueFile.isSome || px.dumpFile.isSome

end OpenCpi.Util

namespace OpenCpi.Application

open Infra Util

variable {α : Type} (file2String : Text → Text × Option Text)

/-! ## Entries -/

/-- An entry in the list of an instance: its name there, and the elements that write it one after the other, each
with the name of the property that it is for. -/
structure Entry where
  name : Text
  writers : List (Text × ValueAttributes)

namespace Entry

variable (e : Entry)

def text : Text := e.writers.foldl (fun text w => w.2.appended file2String text) []

def hasValue : Bool := e.writers.getLast?.any fun w => w.2.value.isSome || w.2.valueFile.isSome

def dumpFile : Text := (e.writers.filterMap fun w => w.2.dump file2String).getLast?.getD []

def property : Util.Assembly.Property := ⟨e.name, e.hasValue, e.text file2String, e.dumpFile file2String⟩

/-- The last element has the name of the entry, and the text of the entry is the one that it gives. -/
def Faithful : Prop :=
  ∃ w ∈ e.writers.getLast?, w.1 = e.name ∧ w.2.text file2String = some (e.text file2String)

/-- There is no dump, or an element with the name of the entry asks for it. -/
def DumpsNamed : Prop :=
  e.dumpFile file2String = [] ∨ ∃ w ∈ e.writers, w.1 = e.name ∧ w.2.dumpFile = some (e.dumpFile file2String)

end Entry

/-- The entries without a name, for elements that find no entry of their name. An element with an empty name goes to
the first of them. -/
def unnamed : List (Text × ValueAttributes) → List Entry
  | [] => []
  | e :: mapped => ⟨[], e :: mapped.filter (·.1 = [])⟩ :: (mapped.filter (·.1 ≠ [])).map fun w => ⟨[], [w]⟩

/-- The entries for the elements of an instance and for those that are mapped to it: the first entry with a name gets
all that are mapped to the name. -/
def entriesOf : List (Text × ValueAttributes) → List (Text × ValueAttributes) → List Entry
  | [], mapped => unnamed mapped
  | e :: own, mapped => ⟨e.1, e :: mapped.filter (·.1 = e.1)⟩ :: entriesOf own (mapped.filter (·.1 ≠ e.1))

/-- An element of an instance with its name. -/
def ownElement (px : PropertyElement) : Option (Text × ValueAttributes) :=
  px.name.map fun name => (name, px.toValueAttributes)

/-- An element of the assembly that tells something about a property of an instance, with the name of this. -/
def mappedElement (a : Util.Assembly) (n : Nat) (px : MappedElement) : Option (Text × ValueAttributes) :=
  if (px.inst.bind fun name => (a.getInstance name).toOption) = some n ∧ px.tells = true then
    px.name.map fun name => (Util.Assembly.instPropName px name, px.toValueAttributes)
  else none

/-- An instance of an assembly that has been parsed. -/
structure ParsedInstance (file2String : Text → Text × Option Text) where
  element : AssemblyElement
  assembly : Util.Assembly
  parsed : Util.Assembly.parse file2String element = .ok assembly
  nInstance : Nat
  inst : Util.Assembly.Instance
  found : assembly.instances[nInstance]? = some inst

variable {file2String}

namespace ParsedInstance

variable (x : ParsedInstance file2String)

/-- The elements of the instance. -/
def own : List (Text × ValueAttributes) :=
  (x.element.instances[x.nInstance]?).elim [] fun ix => ix.properties.filterMap ownElement

/-- The elements of the assembly that are mapped to the instance. -/
def mapped : List (Text × ValueAttributes) := x.element.properties.filterMap (mappedElement x.assembly x.nInstance)

def elements : List (Text × ValueAttributes) := x.own ++ x.mapped

def entries : List Entry := entriesOf x.own x.mapped

/-- The values in the assembly. -/
def assemblyValues : List (Text × Text) :=
  x.elements.filterMap fun e => (e.2.text file2String).map fun text => (e.1, text)

/-- An entry has to be set. -/
def kept (params : List PValue) (e : Entry) : Bool :=
  Application.kept x.assembly x.nInstance x.inst params (e.property file2String)

/-- An entry is not refused. -/
def entryOk (props : List (Property α)) (params : List PValue) (e : Entry) : Bool :=
  propertyOk props x.assembly x.nInstance x.inst params (e.property file2String)

/-- The last entry for a property that has to be set. -/
def lastEntry (props : List (Property α)) (params : List PValue) (k : Nat) : Option Entry :=
  (x.entries.filter fun e => whichProperty props e.name == some k && x.kept params e).getLast?

/-- The values of the parameters for the instance. -/
def instanceValues (params : List PValue) : List (Text × Text) := assignSettings x.inst params

/-- The values of the parameters for properties of the assembly that are mapped to the instance. -/
def mappedValues (params : List PValue) : List (Text × Text) :=
  x.assembly.mappedProperties.flatMap fun mp =>
    if mp.inst = x.nInstance then
      (assignments property mp.name params).map fun value => (mp.instPropName, value)
    else []

/-- The slots that are filled for the instance. -/
def preparing (props : List (Property α)) (params : List PValue) : Preparing α Unit :=
  finalizeProperties props x.assembly x.nInstance x.inst params

end ParsedInstance

/-- A property has the value of one of the texts. -/
def Property.Takes (p : Property α) (texts : List Text) (value : Option (List α)) : Prop :=
  ∃ t ∈ texts, ∃ v, p.parse t = .ok v ∧ value = some v

/-- A property has a value from the first source that has one for it, or its default. -/
def Property.Follows (p : Property α) (sources : List (List Text)) (value : Option (List α)) : Prop :=
  match sources.find? (!·.isEmpty) with
  | some texts => p.Takes texts value
  | none => value = p.default

variable (props : List (Property α)) (x : ParsedInstance file2String) (params : List PValue)

/-- Everything that is given to the instance is right for a property: values are values of a property that
can be set, and what is dumped can be read. -/
structure Sound : Prop where
  files : ∀ e ∈ x.elements, e.2.value = none → ∀ file ∈ e.2.valueFile, (file2String file).2 = none
  dumps : ∀ e ∈ x.elements, ∀ file ∈ e.2.dumpFile, file ≠ [] → (findProperty props e.1).any (·.2.isReadable)
  assembly : ∀ s ∈ x.assemblyValues, accepts props s.1 s.2
  assigns : ∀ t ∈ assignments property x.inst.name params, assignOk props t
  mapped : ∀ s ∈ x.mappedValues params, accepts props s.1 s.2

/-- The values of the instance fit and follow precedence, and what is right is not refused. -/
structure PropertiesRight : Prop where
  fits : (x.preparing props params).slots.length ≤ nPropValues x.assembly x.nInstance x.inst params
  follows : (x.preparing props params).Returns →
    ∀ (k : Nat) (p : Property α), props[k]? = some p → p.settable →
    p.Follows [textsFor props k (x.instanceValues params), textsFor props k (x.mappedValues params),
      textsFor props k x.assemblyValues] (initialValues props (x.preparing props params).slots k)
  accepted : Sound props x params → (x.preparing props params).Returns

/-- Nothing that is given to the instance is refused. -/
structure Unrefused : Prop where
  entries : ∀ e ∈ x.entries, x.entryOk props params e
  assigns : ∀ t ∈ assignments property x.inst.name params, assignOk props t
  mapped : ∀ mp ∈ x.assembly.mappedProperties, mappedOk props x.nInstance params mp

/-- A property that can be set, for which there is no parameter. -/
structure Unset (k : Nat) (p : Property α) : Prop where
  found : props[k]? = some p
  settable : p.settable
  instanceValues : textsFor props k (x.instanceValues params) = []
  mappedValues : textsFor props k (mappedSettings x.assembly x.nInstance params) = []

/-- The conditions under which the values of an instance are right. -/
structure Undisturbed : Prop where
  /-- the values for mapped properties that get to a slot are no more than the ones that are counted and the
  entries that get none -/
  counted : (∀ e ∈ x.entries, x.entryOk props params e) →
    (∀ t ∈ assignments property x.inst.name params, assignOk props t) →
    reached props (mappedSettings x.assembly x.nInstance params) ≤
      (inTurn x.nInstance params x.assembly.mappedProperties 0).length +
        (x.entries.filter fun e => !x.kept params e).length
  /-- where there are parameters both for the instance and for a mapped property, they agree -/
  agree : Unrefused props x params →
    ∀ (k : Nat) (p : Property α), props[k]? = some p → p.settable →
    textsFor props k (x.instanceValues params) ≠ [] →
    ∀ text ∈ (textsFor props k (mappedSettings x.assembly x.nInstance params)).getLast?,
      ∃ t ∈ textsFor props k (x.instanceValues params), p.parse t = p.parse text
  /-- where there are none, an entry whose text is not the one that its last element gives means the same as one
  that is given -/
  joined : Unrefused props x params → ∀ (k : Nat) (p : Property α), Unset props x params k p →
    ∀ e ∈ x.lastEntry props params k, ¬e.Faithful file2String →
      textsFor props k x.assemblyValues ≠ [] →
      ∃ t ∈ textsFor props k x.assemblyValues, p.parse t = p.parse (e.text file2String)
  /-- ... and the same as the default if none is -/
  valueless : Unrefused props x params → ∀ (k : Nat) (p : Property α), Unset props x params k p →
    ∀ e ∈ x.lastEntry props params k, ¬e.Faithful file2String → textsFor props k x.assemblyValues = [] →
      (p.parse (e.text file2String)).toOption = p.default
  /-- values for a property without an entry that has to be set are its default -/
  lost : Unrefused props x params → ∀ (k : Nat) (p : Property α), Unset props x params k p →
    x.lastEntry props params k = none → textsFor props k x.assemblyValues ≠ [] →
    p.Takes (textsFor props k x.assemblyValues) p.default
  /-- such a text, or one under another name, is not refused -/
  named : Sound props x params → ∀ e ∈ x.entries, x.kept params e → ¬e.Faithful file2String →
    accepts props e.name (e.text file2String)
  /-- nor is a dump under another name -/
  dumped : Sound props x params → ∀ e ∈ x.entries, ¬e.DumpsNamed file2String →
    (findProperty props e.name).any (·.2.isReadable)

variable {props x params} {k : Nat} {p : Property α}

/-! ## What the parser makes of the elements -/

theorem Entry.text_concat (e : Entry) (w : Text × ValueAttributes) :
    Entry.text file2String ⟨e.name, e.writers ++ [w]⟩ = w.2.appended file2String (e.text file2String) := by
  unfold Entry.text
  rw [List.foldl_append]
  rfl

theorem Entry.hasValue_concat (e : Entry) (w : Text × ValueAttributes) :
    Entry.hasValue ⟨e.name, e.writers ++ [w]⟩ = (w.2.value.isSome || w.2.valueFile.isSome) := by
  unfold Entry.hasValue
  rw [List.getLast?_concat]
  rfl

theorem Entry.dumpFile_concat (e : Entry) (w : Text × ValueAttributes) :
    Entry.dumpFile file2String ⟨e.name, e.writers ++ [w]⟩ =
      (w.2.dump file2String).getD (e.dumpFile file2String) := by
  unfold Entry.dumpFile
  rw [List.filterMap_append, List.filterMap_cons, List.filterMap_nil]
  cases w.2.dump file2String with
  | none => exact congrArg (fun l : List Text => l.getLast?.getD []) (List.append_nil _)
  | some df =>
    dsimp only
    rw [List.getLast?_concat]
    rfl

/-- An element that is applied to an entry is its next writer. -/
theorem setValue_property (e : Entry) (w : Text × ValueAttributes) :
    ((e.property file2String).setValue file2String w.2).1 =
      Entry.property file2String ⟨e.name, e.writers ++ [w]⟩ := by
  conv_rhs => rw [Entry.property, Entry.text_concat, Entry.hasValue_concat, Entry.dumpFile_concat]
  obtain ⟨name, value, valueFile, dumpFile⟩ := w
  unfold Util.Assembly.Property.setValue ValueAttributes.appended ValueAttributes.dump
  cases value with
  | some cp => rfl
  | none =>
    cases valueFile with
    | none => cases dumpFile <;> rfl
    | some cp =>
      dsimp only
      rcases file2String cp with ⟨out, _ | err⟩ <;> rfl

theorem filter_same_concat (name : Text) (mapped : List (Text × ValueAttributes)) (w : Text × ValueAttributes) :
    (mapped ++ [w]).filter (·.1 = name) =
      if w.1 = name then mapped.filter (·.1 = name) ++ [w] else mapped.filter (·.1 = name) := by
  rw [List.filter_append]
  split
  · next hname => rw [List.filter_cons_of_pos (by simpa using hname), List.filter_nil]
  · next hname => rw [List.filter_cons_of_neg (by simpa using hname), List.filter_nil, List.append_nil]

theorem filter_other_concat (name : Text) (mapped : List (Text × ValueAttributes)) (w : Text × ValueAttributes) :
    (mapped ++ [w]).filter (·.1 ≠ name) =
      if w.1 = name then mapped.filter (·.1 ≠ name) else mapped.filter (·.1 ≠ name) ++ [w] := by
  rw [List.filter_append]
  split
  · next hname => rw [List.filter_cons_of_neg (by simpa using hname), List.filter_nil, List.append_nil]
  · next hname => rw [List.filter_cons_of_pos (by simpa using hname), List.filter_nil]

theorem property_mk (file2String : Text → Text × Option Text) (name : Text) :
    Entry.property file2String ⟨name, []⟩ = { name } := rfl

/-- The first entry gets an element of its name, and the others the rest. -/
theorem properties_addProperty_cons {n : Text} {e : Entry} {ps : List Util.Assembly.Property}
    {w : Text × ValueAttributes} :
    (Util.Assembly.Instance.addProperty file2String ⟨n, e.property file2String :: ps⟩ w.1 w.2).properties =
      if e.name = w.1 then Entry.property file2String ⟨e.name, e.writers ++ [w]⟩ :: ps
      else e.property file2String ::
        (Util.Assembly.Instance.addProperty file2String ⟨n, ps⟩ w.1 w.2).properties := by
  unfold Util.Assembly.Instance.addProperty
  dsimp only
  rw [List.findIdx?_cons, ← setValue_property]
  by_cases hname : e.name = w.1
  · rw [if_pos hname, if_pos (show ((e.property file2String).name == w.1) = true from beq_iff_eq.mpr hname)]
    rfl
  · rw [if_neg hname, if_neg (show ¬((e.property file2String).name == w.1) = true from
      fun h => hname (beq_iff_eq.mp h))]
    cases ps.findIdx? (·.name == w.1) <;> rfl

/-- Entries without a name are passed by elements that have one. -/
theorem properties_addProperty_unnamed {n : Text} {w : Text × ValueAttributes} (hname : w.1 ≠ [])
    {es : List Entry} (hes : ∀ e ∈ es, e.name = []) :
    (Util.Assembly.Instance.addProperty file2String ⟨n, es.map (Entry.property file2String)⟩ w.1 w.2).properties =
      (es ++ [(⟨[], [w]⟩ : Entry)]).map (Entry.property file2String) := by
  induction es with
  | nil => exact congrArg (· :: []) (setValue_property ⟨[], []⟩ w)
  | cons e es ih =>
    rw [List.map_cons, properties_addProperty_cons,
      if_neg fun h => hname (h.symm.trans (hes e List.mem_cons_self)),
      ih fun e' he' => hes e' (List.mem_cons_of_mem e he')]
    rfl

/-- **What `addProperty` does**: one more element is mapped to the instance. -/
theorem properties_addProperty (n : Text) (own mapped : List (Text × ValueAttributes))
    (w : Text × ValueAttributes) :
    (Util.Assembly.Instance.addProperty file2String
        ⟨n, (entriesOf own mapped).map (Entry.property file2String)⟩ w.1 w.2).properties =
      (entriesOf own (mapped ++ [w])).map (Entry.property file2String) := by
  induction own generalizing mapped with
  | nil =>
    cases mapped with
    | nil => exact congrArg (· :: []) (setValue_property ⟨[], []⟩ w)
    | cons e mapped =>
      show _ = (unnamed (e :: (mapped ++ [w]))).map (Entry.property file2String)
      rw [entriesOf, unnamed, unnamed, filter_same_concat, filter_other_concat]
      by_cases hname : w.1 = []
      · rw [if_pos hname, if_pos hname, List.map_cons, properties_addProperty_cons, if_pos hname.symm]
        rfl
      · rw [if_neg hname, if_neg hname, properties_addProperty_unnamed hname, List.cons_append, List.map_append]
        · rfl
        · refine List.forall_mem_cons.mpr ⟨rfl, fun e he => ?_⟩
          obtain ⟨w', -, rfl⟩ := List.mem_map.mp he
          rfl
  | cons e own ih =>
    rw [entriesOf, entriesOf, List.map_cons, properties_addProperty_cons, filter_same_concat,
      filter_other_concat]
    by_cases hname : w.1 = e.1
    · rw [if_pos hname.symm, if_pos hname, if_pos hname]
      rfl
    · rw [if_neg fun h => hname h.symm, ih, if_neg hname, if_neg hname]
      rfl

theorem entriesOf_nil (own : List (Text × ValueAttributes)) :
    entriesOf own [] = own.map fun e => (⟨e.1, [e]⟩ : Entry) := by
  induction own with
  | nil => rfl
  | cons e own ih => exact congrArg (_ :: ·) ih

/-- The writers of an entry are elements. -/
theorem mem_of_mem_entriesOf {own mapped : List (Text × ValueAttributes)} {e : Entry}
    (he : e ∈ entriesOf own mapped) {w : Text × ValueAttributes} (hw : w ∈ e.writers) : w ∈ own ++ mapped := by
  induction own generalizing mapped with
  | nil =>
    unfold entriesOf at he
    cases mapped with
    | nil => cases he
    | cons e' mapped =>
      rcases List.mem_cons.mp he with rfl | he
      · refine (List.mem_cons.mp hw).elim (fun h => h ▸ List.mem_cons_self) fun hw => ?_
        exact List.mem_cons_of_mem e' (List.mem_filter.mp hw).1
      · obtain ⟨w', hw', rfl⟩ := List.mem_map.mp he
        rw [List.mem_singleton.mp hw]
        exact List.mem_cons_of_mem e' (List.mem_filter.mp hw').1
  | cons e' own ih =>
    rcases List.mem_cons.mp he with rfl | he
    · refine (List.mem_cons.mp hw).elim (fun h => h ▸ List.mem_cons_self) fun hw => ?_
      exact List.mem_append_right (e' :: own) (List.mem_filter.mp hw).1
    · rcases List.mem_append.mp (ih he) with h | h
      · exact List.mem_cons_of_mem e' (List.mem_append_left mapped h)
      · exact List.mem_append_right (e' :: own) (List.mem_filter.mp h).1

/-! ### The whole assembly -/

theorem yields_any {ε β : Type} (r : Except ε β) : Yields (fun v => r = .ok v) (fun _ => True) r := by
  cases r with
  | ok v => rfl
  | error e => trivial

theorem getRequiredString_ok {attr element : String} {value : Option Text} {s : Text}
    (h : Util.Assembly.getRequiredString attr element value = .ok s) : value = some s := by
  cases value with
  | none => cases h
  | some cp => exact congrArg some (Except.ok.inj h)

theorem parse_element (px : PropertyElement) :
    Yields (fun p => some p = (ownElement px).map fun e => Entry.property file2String ⟨e.1, [e]⟩) (fun _ => True)
      (Util.Assembly.Property.parse file2String px) := by
  unfold Util.Assembly.Property.parse
  refine (yields_any _).bind fun name hname => ?_
  have hown : ownElement px = some (name, px.toValueAttributes) := by
    rw [ownElement, getRequiredString_ok hname]
    rfl
  have hset : ((Entry.property file2String ⟨name, []⟩).setValue file2String px.toValueAttributes).1 =
      Entry.property file2String ⟨name, [(name, px.toValueAttributes)]⟩ :=
    setValue_property ⟨name, []⟩ (name, px.toValueAttributes)
  rw [property_mk] at hset
  rw [hown]
  split
  · next p hp =>
    rw [hp] at hset
    exact congrArg some hset
  · trivial

theorem filterMap_of_map_some {β γ : Type} {f : β → Option γ} {l : List β} {l' : List γ}
    (h : l'.map some = l.map f) : l' = l.filterMap f := by
  have hfilter := congrArg (List.filterMap id) h
  rwa [List.filterMap_map, List.filterMap_map, Function.id_comp, Function.id_comp, List.filterMap_some] at hfilter

theorem parse_instance (ix : InstanceElement) :
    Yields (fun inst => inst.properties =
        (entriesOf (ix.properties.filterMap ownElement) []).map (Entry.property file2String)) (fun _ => True)
      (Util.Assembly.Instance.parse file2String ix) := by
  have hall : ∀ px ∈ ix.properties, Yields
      (fun p => some p = ((ownElement px).map fun e => Entry.property file2String ⟨e.1, [e]⟩) ∧ True)
      (fun _ => True) (Util.Assembly.Property.parse file2String px) := fun px _ =>
    (parse_element px).imp (fun _ h => ⟨h, trivial⟩) fun _ h => h
  refine (Yields.mapM hall).bind fun properties h => ?_
  show properties = _
  rw [filterMap_of_map_some h.1, entriesOf_nil, List.map_map, List.map_filterMap]
  rfl

/-- The instances have the names of the parsed ones, and the list of one of them is right after some elements of
the assembly. -/
structure Listed (file2String : Text → Text × Option Text) (instances : List Util.Assembly.Instance) (n : Nat)
    (own : List (Text × ValueAttributes)) (done : List MappedElement) (a : Util.Assembly) : Prop where
  names : Wiring.instanceNames a = Wiring.instanceNames { instances }
  properties : ∀ inst ∈ a.instances[n]?, inst.properties =
    (entriesOf own (done.filterMap (mappedElement { instances } n))).map (Entry.property file2String)

theorem getInstance_congr {a b : Util.Assembly} (h : Wiring.instanceNames a = Wiring.instanceNames b)
    (name : Text) : a.getInstance name = b.getInstance name := by
  have hidx (c : Util.Assembly) : c.instances.findIdx? (·.name == name) =
      (Wiring.instanceNames c).findIdx? (· == name) := by
    rw [Wiring.instanceNames, List.findIdx?_map]
    rfl
  unfold Util.Assembly.getInstance
  rw [hidx, hidx, h]

theorem mappedElement_congr {a b : Util.Assembly} (h : Wiring.instanceNames a = Wiring.instanceNames b) (n : Nat) :
    mappedElement a n = mappedElement b n := by
  funext px
  unfold mappedElement
  simp only [getInstance_congr h]

theorem mappedElement_eq {a : Util.Assembly} {n m : Nat} {px : MappedElement} {name inst : Text}
    (hname : px.name = some name) (hinst : px.inst = some inst) (hm : a.getInstance inst = .ok m) :
    mappedElement a n px = if m = n ∧ px.tells = true then
      some (Util.Assembly.instPropName px name, px.toValueAttributes) else none := by
  unfold mappedElement
  rw [hname, hinst, Option.bind_some, hm]
  exact if_congr (and_congr_left' ⟨Option.some.inj, congrArg some⟩) rfl rfl

theorem listed_parseMapped {instances : List Util.Assembly.Instance} {n : Nat}
    {own : List (Text × ValueAttributes)} {done : List MappedElement} {a : Util.Assembly}
    (h : Listed file2String instances n own done a) (px : MappedElement) :
    Yields (Listed file2String instances n own (done ++ [px])) (fun _ => True)
      (Util.Assembly.parseMapped file2String a px) := by
  unfold Util.Assembly.parseMapped
  refine (yields_any _).bind fun name hname => (yields_any _).bind fun inst hinst => ?_
  refine (yields_any _).bind fun m hm => ?_
  have hget : ({ instances } : Util.Assembly).getInstance inst = .ok m :=
    (getInstance_congr h.names.symm inst).trans hm
  have helement := mappedElement_eq (n := n) (getRequiredString_ok hname) (getRequiredString_ok hinst) hget
  -- an element that tells nothing, or is for another instance
  have hskip (hnone : mappedElement { instances } n px = none) (i : Util.Assembly.Instance)
      (hi : i ∈ a.instances[n]?) : i.properties =
        (entriesOf own ((done ++ [px]).filterMap (mappedElement { instances } n))).map
          (Entry.property file2String) := by
    rw [List.filterMap_append, List.filterMap_cons_none hnone, List.filterMap_nil, List.append_nil]
    exact h.properties i hi
  split
  · next htells =>
    split
    · trivial
    refine ⟨(Wiring.map_name_modify (fun i => Wiring.name_addProperty i _ _) a.instances m).trans h.names, ?_⟩
    intro i hi
    have hi : (a.instances.modify m fun i => i.addProperty file2String (Util.Assembly.instPropName px name)
      px.toValueAttributes)[n]? = some i := hi
    rw [List.getElem?_modify] at hi
    obtain ⟨i', hi', hii'⟩ := Option.map_eq_some_iff.mp hi
    by_cases hmn : m = n
    · rw [if_pos ⟨hmn, htells⟩] at helement
      rw [if_pos hmn] at hii'
      rw [List.filterMap_append, List.filterMap_cons_some helement, List.filterMap_nil,
        ← properties_addProperty i'.name, ← h.properties i' hi', ← hii']
    · rw [if_neg fun hand => hmn hand.1] at helement
      rw [if_neg hmn] at hii'
      exact hii' ▸ hskip helement i' hi'
  · next htells =>
    split
    · trivial
    exact ⟨h.names, hskip (helement.trans (if_neg fun hand => htells hand.2))⟩

theorem ParsedInstance.properties_eq (x : ParsedInstance file2String) :
    x.inst.properties = x.entries.map (Entry.property file2String) := by
  have hall : ∀ ix ∈ x.element.instances, Yields
      (fun inst => inst.properties =
        (entriesOf (ix.properties.filterMap ownElement) []).map (Entry.property file2String) ∧ True)
      (fun _ => True) (Util.Assembly.Instance.parse file2String ix) := fun ix _ =>
    (parse_instance ix).imp (fun _ h => ⟨h, trivial⟩) fun _ h => h
  have hyields : Yields (fun a => ∀ inst ∈ a.instances[x.nInstance]?, inst.properties =
      (entriesOf x.own (x.element.properties.filterMap (mappedElement a x.nInstance))).map
        (Entry.property file2String)) (fun _ => True) (Util.Assembly.parse file2String x.element) := by
    refine (Yields.mapM hall).bind fun instances hinstances => ?_
    have hstart : Listed file2String instances x.nInstance x.own [] { instances } := by
      refine ⟨rfl, fun inst hinst => ?_⟩
      have hget := congrArg (·[x.nInstance]?) hinstances.1
      simp only [List.getElem?_map] at hget
      rw [show instances[x.nInstance]? = some inst from hinst] at hget
      unfold ParsedInstance.own
      cases helement : x.element.instances[x.nInstance]? with
      | none =>
        rw [helement] at hget
        cases hget
      | some ix =>
        rw [helement] at hget
        exact Option.some.inj hget
    refine (Yields.foldlM hstart fun done px a _ ha => listed_parseMapped ha px).imp (fun a ha => ?_) fun _ h => h
    rw [mappedElement_congr ha.names]
    exact ha.properties
  exact hyields.of_ok x.parsed x.inst x.found

theorem forall_properties {q : Util.Assembly.Property → Prop} :
    (∀ ap ∈ x.inst.properties, q ap) ↔ ∀ e ∈ x.entries, q (e.property file2String) := by
  rw [x.properties_eq]
  exact List.forall_mem_map

theorem unrefused_iff : Unrefused props x params ↔ Launchable props x.assembly x.nInstance x.inst params :=
  ⟨fun h => ⟨forall_properties.mpr h.entries, h.assigns, h.mapped⟩,
    fun h => ⟨forall_properties.mp h.properties, h.assigns, h.mapped⟩⟩

theorem length_dropped : (dropped x.assembly x.nInstance x.inst params).length =
    (x.entries.filter fun e => !x.kept params e).length := by
  rw [dropped, x.properties_eq, List.filter_map, List.length_map]
  rfl

theorem textsFor_entries (es : List Entry) :
    textsFor props k (es.map fun e => (e.name, e.text file2String)) =
      (es.filter fun e => whichProperty props e.name == some k).map (Entry.text file2String) := by
  induction es with
  | nil => rfl
  | cons e es ih =>
    rw [List.map_cons, textsFor_cons, List.filter_cons, ih]
    by_cases hk : whichProperty props e.name = some k
    · rw [if_pos hk, if_pos (show (whichProperty props e.name == some k) = true from beq_iff_eq.mpr hk)]
      rfl
    · rw [if_neg hk, if_neg fun h => hk (beq_iff_eq.mp h)]

/-- What is left in the list of the instance for a property is the text of the last entry. -/
theorem getLast?_textsFor_kept : (textsFor props k (keptSettings x.assembly x.nInstance x.inst params)).getLast? =
    (x.lastEntry props params k).map (Entry.text file2String) := by
  have hsettings : keptSettings x.assembly x.nInstance x.inst params =
      (x.entries.filter (x.kept params)).map fun e => (e.name, e.text file2String) := by
    rw [keptSettings, x.properties_eq, List.filter_map, List.map_map]
    rfl
  rw [hsettings, textsFor_entries, List.filter_filter, List.getLast?_map]
  rfl

/-- The text of a faithful entry is one of the values in the assembly, under the name of the entry. -/
theorem mem_assemblyValues {e : Entry} (he : e ∈ x.entries) (hfaithful : e.Faithful file2String) :
    (e.name, e.text file2String) ∈ x.assemblyValues := by
  obtain ⟨w, hw, hname, htext⟩ := hfaithful
  refine List.mem_filterMap.mpr ⟨w, mem_of_mem_entriesOf he (List.mem_of_getLast? hw), ?_⟩
  rw [htext, hname]
  rfl

/-! ## Mapped parameters -/

theorem mem_mappedValues {s : Text × Text} (h : s ∈ mappedSettings x.assembly x.nInstance params) :
    s ∈ x.mappedValues params := by
  obtain ⟨mp, hmp, hs⟩ := List.mem_filterMap.mp h
  obtain ⟨value, hvalue, rfl⟩ := Option.map_eq_some_iff.mp hs
  unfold mappedValue at hvalue
  split at hvalue
  · rename_i hinst
    rw [findAssignNext_map_fst] at hvalue
    refine List.mem_flatMap.mpr ⟨mp, hmp, ?_⟩
    rw [if_pos hinst]
    exact List.mem_map_of_mem (List.mem_of_mem_head? hvalue)
  · cases hvalue

/-- A mapped property that has a parameter is set by the first one. -/
theorem exists_mappedSetting {s : Text × Text} (h : s ∈ x.mappedValues params) :
    ∃ value, (s.1, value) ∈ mappedSettings x.assembly x.nInstance params := by
  obtain ⟨mp, hmp, hs⟩ := List.mem_flatMap.mp h
  split at hs
  · rename_i hinst
    obtain ⟨t, ht, rfl⟩ := List.mem_map.mp hs
    cases hhead : (assignments property mp.name params).head? with
    | none =>
      rw [List.head?_eq_none_iff] at hhead
      rw [hhead] at ht
      cases ht
    | some value =>
      refine ⟨value, List.mem_filterMap.mpr ⟨mp, hmp, ?_⟩⟩
      rw [mappedValue, if_pos hinst, findAssignNext_map_fst, hhead]
      rfl
  · cases hs

theorem mem_textsFor {ss : List (Text × Text)} {t : Text} :
    t ∈ textsFor props k ss ↔ ∃ s ∈ ss, whichProperty props s.1 = some k ∧ s.2 = t := by
  unfold textsFor
  rw [List.mem_filterMap]
  refine exists_congr fun s => and_congr_right fun _ => ?_
  split
  · rename_i hk
    exact ⟨fun h => ⟨hk, Option.some.inj h⟩, fun h => congrArg some h.2⟩
  · rename_i hk
    exact ⟨(fun h => nomatch h), fun h => absurd h.1 hk⟩

theorem mem_mappedTexts {t : Text} (h : t ∈ textsFor props k (mappedSettings x.assembly x.nInstance params)) :
    t ∈ textsFor props k (x.mappedValues params) := by
  obtain ⟨s, hs, hst⟩ := mem_textsFor.mp h
  exact mem_textsFor.mpr ⟨s, mem_mappedValues hs, hst⟩

theorem mappedTexts_eq_nil (h : textsFor props k (mappedSettings x.assembly x.nInstance params) = []) :
    textsFor props k (x.mappedValues params) = [] := by
  refine List.eq_nil_iff_forall_not_mem.mpr fun t ht => ?_
  obtain ⟨s, hs, hk, -⟩ := mem_textsFor.mp ht
  obtain ⟨value, hvalue⟩ := exists_mappedSetting hs
  have hmem : value ∈ textsFor props k (mappedSettings x.assembly x.nInstance params) :=
    mem_textsFor.mpr ⟨_, hvalue, hk, rfl⟩
  rw [h] at hmem
  cases hmem

/-! ## Precedence -/

theorem Property.takes_iff {texts : List Text} {text : Text} {v : List α} (h : p.parse text = .ok v) :
    p.Takes texts (p.parse text).toOption ↔ ∃ t ∈ texts, p.parse t = p.parse text := by
  refine exists_congr fun t => and_congr_right fun _ => ?_
  rw [h]
  constructor
  · rintro ⟨v', hv', hvv'⟩
    rw [hv']
    exact congrArg Except.ok (Option.some.inj hvv').symm
  · exact fun hv' => ⟨v, hv', rfl⟩

theorem Property.follows_cons {texts : List Text} {sources : List (List Text)} {value : Option (List α)}
    (h : texts ≠ []) : p.Follows (texts :: sources) value ↔ p.Takes texts value := by
  unfold Property.Follows
  rw [List.find?_cons_of_pos]
  rw [List.isEmpty_eq_false_iff.mpr h]
  rfl

theorem Property.follows_nil_cons {sources : List (List Text)} {value : Option (List α)} :
    p.Follows ([] :: sources) value ↔ p.Follows sources value := Iff.rfl

/-- **What the value of a property is**, when the instance is launched. -/
theorem initialValues_preparing (h : Launchable props x.assembly x.nInstance x.inst params)
    (hp : props[k]? = some p) : initialValues props (x.preparing props params).slots k =
      match (textsFor props k (mappedSettings x.assembly x.nInstance params)).getLast?.or
        (textsFor props k (x.instanceValues params)).getLast? with
      | some t => (p.parse t).toOption
      | none =>
        match x.lastEntry props params k with
        | some e => (p.parse (e.text file2String)).toOption
        | none => p.default := by
  have hacc : ∀ s ∈ keptSettings x.assembly x.nInstance x.inst params ++ assignSettings x.inst params ++
      mappedSettings x.assembly x.nInstance params, accepts props s.1 s.2 := by
    refine List.forall_mem_append.mpr ⟨List.forall_mem_append.mpr ⟨?_, ?_⟩, ?_⟩
    · exact accepts_keptSettings h.properties
    · exact (accepts_assignSettings h.assigns).2
    · exact accepts_mappedSettings h.mapped
  rw [ParsedInstance.preparing, slots_finalizeProperties, slots_prepareInstanceProperties h,
    initialValues_slotsOf hp hacc, textsFor_append, textsFor_append, List.getLast?_append,
    List.getLast?_append, ParsedInstance.instanceValues, getLast?_textsFor_kept]
  cases (textsFor props k (mappedSettings x.assembly x.nInstance params)).getLast? with
  | some t => rfl
  | none =>
    cases (textsFor props k (assignSettings x.inst params)).getLast? with
    | some t => rfl
    | none => cases x.lastEntry props params k <;> rfl

/-- **What precedence comes to.** A mapped parameter must not win against one for the instance, and where
there are no parameters the parser decides. -/
theorem follows_iff (h : Launchable props x.assembly x.nInstance x.inst params) (hp : props[k]? = some p) :
    p.Follows [textsFor props k (x.instanceValues params), textsFor props k (x.mappedValues params),
        textsFor props k x.assemblyValues] (initialValues props (x.preparing props params).slots k) ↔
      (textsFor props k (x.instanceValues params) ≠ [] →
        ∀ text ∈ (textsFor props k (mappedSettings x.assembly x.nInstance params)).getLast?,
          ∃ t ∈ textsFor props k (x.instanceValues params), p.parse t = p.parse text) ∧
      (textsFor props k (x.instanceValues params) = [] →
        textsFor props k (mappedSettings x.assembly x.nInstance params) = [] →
        p.Follows [textsFor props k x.assemblyValues]
          (match x.lastEntry props params k with
            | some e => (p.parse (e.text file2String)).toOption
            | none => p.default)) := by
  have hassigns := (accepts_assignSettings h.assigns).2
  have hmapped := accepts_mappedSettings h.mapped
  rw [initialValues_preparing h hp]
  by_cases hI : textsFor props k (x.instanceValues params) = []
  · rw [hI, Property.follows_nil_cons]
    refine Iff.trans ?_ (and_iff_right fun h => absurd rfl h).symm
    rcases hlast : (textsFor props k (mappedSettings x.assembly x.nInstance params)).getLast? with _ | text
    · have hM := List.getLast?_eq_none_iff.mp hlast
      rw [hM, mappedTexts_eq_nil hM, Property.follows_nil_cons]
      exact ⟨fun h _ _ => h, fun h => h rfl rfl⟩
    · have hmem := List.mem_of_getLast? hlast
      obtain ⟨v, hv⟩ := accepts_text hp hmapped hmem
      have hM' := mem_mappedTexts hmem
      rw [Property.follows_cons (List.ne_nil_of_mem hM')]
      refine iff_of_true ((Property.takes_iff hv).mpr ⟨text, hM', rfl⟩) fun _ hM => ?_
      rw [hM] at hlast
      cases hlast
  · rw [Property.follows_cons hI]
    refine Iff.trans ?_ (and_iff_left fun h => absurd h hI).symm
    rcases hlast : (textsFor props k (mappedSettings x.assembly x.nInstance params)).getLast? with _ | text
    · cases hlastI : (textsFor props k (x.instanceValues params)).getLast? with
      | none => exact absurd (List.getLast?_eq_none_iff.mp hlastI) hI
      | some t =>
        have hmem := List.mem_of_getLast? hlastI
        obtain ⟨v, hv⟩ := accepts_text hp hassigns hmem
        exact iff_of_true ((Property.takes_iff hv).mpr ⟨t, hmem, rfl⟩) fun _ _ htext => nomatch htext
    · obtain ⟨v, hv⟩ := accepts_text hp hmapped (List.mem_of_getLast? hlast)
      constructor
      · intro htake _ text' htext'
        cases htext'
        exact (Property.takes_iff hv).mp htake
      · exact fun hagree => (Property.takes_iff hv).mpr (hagree hI text rfl)

theorem launchable_of_sound (h : Sound props x params) (hproperties : ∀ ap ∈ x.inst.properties,
    propertyOk props x.assembly x.nInstance x.inst params ap) :
    Launchable props x.assembly x.nInstance x.inst params := by
  refine ⟨hproperties, h.assigns, fun mp hmp => ?_⟩
  unfold mappedOk
  cases hvalue : mappedValue x.nInstance params mp with
  | none => rfl
  | some value =>
    refine h.mapped (mp.instPropName, value) (mem_mappedValues (List.mem_filterMap.mpr ⟨mp, hmp, ?_⟩))
    rw [hvalue]
    rfl

theorem accepts_entry {e : Entry} (hok : x.entryOk props params e) (hkept : x.kept params e) :
    accepts props e.name (e.text file2String) := by
  have hkept' : Application.kept x.assembly x.nInstance x.inst params (e.property file2String) = true := hkept
  rw [ParsedInstance.entryOk, propertyOk, hkept'] at hok
  exact (Bool.and_eq_true_iff.mp hok).2

/-- **What the elements come to** without parameters. -/
theorem unset_follows_iff (h : Unrefused props x params) (hu : Unset props x params k p) :
    p.Follows [textsFor props k x.assemblyValues] (match x.lastEntry props params k with
        | some e => (p.parse (e.text file2String)).toOption
        | none => p.default) ↔
      (∀ e ∈ x.lastEntry props params k, ¬e.Faithful file2String →
        textsFor props k x.assemblyValues ≠ [] →
        ∃ t ∈ textsFor props k x.assemblyValues, p.parse t = p.parse (e.text file2String)) ∧
      (∀ e ∈ x.lastEntry props params k, ¬e.Faithful file2String → textsFor props k x.assemblyValues = [] →
        (p.parse (e.text file2String)).toOption = p.default) ∧
      (x.lastEntry props params k = none → textsFor props k x.assemblyValues ≠ [] →
        p.Takes (textsFor props k x.assemblyValues) p.default) := by
  cases hlast : x.lastEntry props params k with
  | none =>
    rw [and_iff_right fun _ he => absurd he nofun, and_iff_right fun _ he => absurd he nofun,
      forall_prop_of_true rfl]
    by_cases hnil : textsFor props k x.assemblyValues = []
    · rw [hnil]
      exact iff_of_true rfl fun hne => absurd rfl hne
    · rw [forall_prop_of_true hnil]
      exact Property.follows_cons hnil
  | some e =>
    obtain ⟨hmem, hand⟩ := List.mem_filter.mp (List.mem_of_getLast? hlast)
    obtain ⟨hk, hkept⟩ := Bool.and_eq_true_iff.mp hand
    have hacc : ∀ s ∈ [(e.name, e.text file2String)], accepts props s.1 s.2 :=
      List.forall_mem_singleton.mpr (accepts_entry (h.entries e hmem) hkept)
    obtain ⟨v, hv⟩ := accepts_text hu.found hacc
      (mem_textsFor.mpr ⟨_, List.mem_singleton_self _, beq_iff_eq.mp hk, rfl⟩)
    simp only [Option.mem_some_iff, forall_eq']
    by_cases hfaithful : e.Faithful file2String
    · have hgiven : e.text file2String ∈ textsFor props k x.assemblyValues :=
        mem_textsFor.mpr ⟨_, mem_assemblyValues hmem hfaithful, beq_iff_eq.mp hk, rfl⟩
      refine iff_of_true ?_ ⟨fun hnot => absurd hfaithful hnot, fun hnot => absurd hfaithful hnot, nofun⟩
      rw [Property.follows_cons (List.ne_nil_of_mem hgiven), Property.takes_iff hv]
      exact ⟨_, hgiven, rfl⟩
    · by_cases hnil : textsFor props k x.assemblyValues = []
      · rw [hnil]
        exact ⟨fun hf => ⟨fun _ hne => absurd rfl hne, fun _ _ => hf, nofun⟩, fun hand => hand.2.1 hfaithful rfl⟩
      · rw [Property.follows_cons hnil, Property.takes_iff hv]
        exact ⟨fun ht => ⟨fun _ _ => ht, fun _ hnil' => absurd hnil' hnil, nofun⟩, fun hand => hand.1 hfaithful hnil⟩

/-- **What is right is not refused**, except for texts and dumps that are not what their elements say. -/
theorem entries_ok_iff (h : Sound props x params) :
    (∀ e ∈ x.entries, x.entryOk props params e) ↔
      (∀ e ∈ x.entries, x.kept params e → ¬e.Faithful file2String → accepts props e.name (e.text file2String)) ∧
        ∀ e ∈ x.entries, ¬e.DumpsNamed file2String → (findProperty props e.name).any (·.2.isReadable) := by
  rw [← forall₂_and]
  refine forall₂_congr fun e he => ?_
  have hkept : Application.kept x.assembly x.nInstance x.inst params (e.property file2String) =
    x.kept params e := rfl
  have hproperty : e.property file2String = ⟨e.name, e.hasValue, e.text file2String, e.dumpFile file2String⟩ := rfl
  rw [ParsedInstance.entryOk, propertyOk, hkept, hproperty, Bool.and_eq_true, Bool.or_eq_true, Bool.or_eq_true,
    decide_eq_true_iff, Bool.not_eq_true']
  dsimp only
  constructor
  · rintro ⟨hdump, hvalue⟩
    refine ⟨fun hk _ => ?_, fun hnot => ?_⟩
    · rcases hvalue with hk' | haccepts
      · rw [hk] at hk'
        cases hk'
      · exact haccepts
    · exact hdump.resolve_left fun hnil => hnot (Or.inl hnil)
  · rintro ⟨hnamed, hdumped⟩
    refine ⟨?_, ?_⟩
    · by_cases hnil : e.dumpFile file2String = []
      · exact Or.inl hnil
      · refine Or.inr ?_
        by_cases hdumps : e.DumpsNamed file2String
        · obtain ⟨w, hw, hname, hfile⟩ := hdumps.resolve_left hnil
          rw [← hname]
          exact h.dumps w (mem_of_mem_entriesOf he hw) _ hfile hnil
        · exact hdumped hdumps
    · cases hk : x.kept params e with
      | false => exact Or.inl rfl
      | true =>
        refine Or.inr ?_
        by_cases hfaithful : e.Faithful file2String
        · exact h.assembly _ (mem_assemblyValues he hfaithful)
        · exact hnamed hk hfaithful

theorem findProperty_nil (hnames : ∀ q ∈ props, q.name ≠ []) : findProperty props [] = none := by
  have hwhich : whichProperty props [] = none := by
    refine List.findIdx?_eq_none_iff.mpr fun q hq => ?_
    refine beq_eq_false_iff_ne.mpr fun h => hnames q hq ?_
    exact List.map_eq_nil_iff.mp h
  rw [findProperty, hwhich]
  rfl

theorem not_accepts_nil (hnames : ∀ q ∈ props, q.name ≠ []) (value : Text) : ¬accepts props [] value := by
  rw [accepts, findProperty_nil hnames]
  exact Bool.false_ne_true

/-- **With a property that has no name, an instance is never launched.** -/
theorem not_returns_of_unnamed (hnames : ∀ q ∈ props, q.name ≠ []) {ap : Util.Assembly.Property}
    (hap : ap ∈ x.inst.properties) (hname : ap.name = []) : ¬(x.preparing props params).Returns := by
  intro hret
  have hl := returns_finalizeProperties.mp hret
  have hok := hl.properties ap hap
  unfold propertyOk at hok
  rw [hname, findProperty_nil hnames, Option.any_none, Bool.or_false, Bool.and_eq_true, decide_eq_true_iff] at hok
  obtain ⟨hdump, hkept⟩ := hok
  -- it has to be set, unless a parameter overrides it, and that one is refused
  rw [Bool.eq_false_of_not_eq_true (not_accepts_nil hnames ap.value), Bool.or_false, Bool.not_eq_true', kept,
    hdump, hname, decide_eq_true rfl, Bool.true_or, Bool.true_and, Bool.and_eq_false_iff, Bool.not_eq_false',
    Bool.not_eq_false'] at hkept
  rcases hkept with hover | hover
  · obtain ⟨t, ht, hassigns⟩ := List.any_eq_true.mp hover
    have hhead : t[0]? = some equals := beq_iff_eq.mp (Bool.and_eq_true_iff.mp hassigns).2
    obtain ⟨rest, rfl⟩ : ∃ rest, t = equals :: rest := by
      cases t with
      | nil => cases hhead
      | cons c rest => exact ⟨rest, congrArg (· :: rest) (Option.some.inj hhead)⟩
    have hsplit : splitAssign (equals :: rest) = some ([], rest) := by
      rw [splitAssign, if_pos (List.mem_cons_self ..), List.takeWhile_cons, List.dropWhile_cons]
      rfl
    have hassign := hl.assigns _ ht
    unfold assignOk at hassign
    rw [hsplit] at hassign
    exact not_accepts_nil hnames rest hassign
  · obtain ⟨mp, hmp, hmap⟩ := List.any_eq_true.mp hover
    obtain ⟨hsame, hsome⟩ := Bool.and_eq_true_iff.mp hmap
    obtain ⟨value, hvalue⟩ := Option.isSome_iff_exists.mp hsome
    have hempty : mp.instPropName = [] := List.map_eq_nil_iff.mp (beq_iff_eq.mp hsame)
    have hmapped := hl.mapped mp hmp
    unfold mappedOk at hmapped
    rw [hvalue, hempty] at hmapped
    exact not_accepts_nil hnames value hmapped

/-! ## Two mapped properties, with parameters in the other order -/

/-- A property of type Bool. -/
def switch (name : Text) : Property Value.Datum where
  name
  isWritable := true
  decl := { name, arrayDimensions := [], isSequence := false, sequenceLength := 0 }
  base := Value.Scalar.base (fun _ _ => none) .bool

/-- An instance `i` with the properties `a` and `b`, and properties `a` and `b` of the assembly that are
mapped to them. -/
def switches : ParsedInstance fun _ => ([], none) where
  element :=
    { instances := [⟨[105], []⟩]
      properties := [{ name := some [97], inst := some [105] }, { name := some [98], inst := some [105] }] }
  assembly := { instances := [⟨[105], []⟩], mappedProperties := [⟨[97], [97], 0⟩, ⟨[98], [98], 0⟩] }
  parsed := by decide
  nInstance := 0
  inst := ⟨[105], []⟩
  found := rfl

/-- The parameters `b=1` and `a=1`. -/
def switchedOn : List PValue := [⟨property, [98, 61, 49]⟩, ⟨property, [97, 61, 49]⟩]

end OpenCpi.Application
