import Mathlib.Data.List.Nodup
import Mathlib.Data.List.Pairwise
import OpenCpi.Assembly.Connections
import OpenCpi.Infra.Yields
import OpenCpi.Properties.NumberText

/-!
# What a parsed assembly looks like

The names of instances are not compared with each other, and the names of `connection` elements are not compared
with those before them. When an instance has both short cuts, the error of the first one is lost: the connection
that it asks for is missing when another one has its name. A `connection` with three ports fails the assertion, and
an instance without a component is a null pointer. Everything else keeps an assembly well formed.
-/

namespace OpenCpi.Util.Wiring

open Infra
open Application (sameName sameName_iff)

variable {file2String : Text → Text × Option Text} {format : Text → Nat → Option Text} {isImpl : Bool}
  {ax : AssemblyElement} {a : Assembly} {names : List Text} {cs : List Connection} {c : Connection}
  {cx : ConnectionElement} {ix : InstanceElement} {i j n self : Nat} {s t : Text} {C : Prop} {α β : Type}

/-! ## What is asked for -/

/-- What a connection connects: its name, and the instances and ports that it is attached to. -/
structure Link where
  name : Text
  ends : List (Nat × Text)
deriving DecidableEq, Repr

def Connection.link (c : Connection) : Link := ⟨c.name, c.ports.map fun p => (p.inst, p.name)⟩

/-- What the `connect` attribute of an instance asks for. -/
def connectLink (names : List Text) (i : Nat) (ix : InstanceElement) (c : Text) : Link :=
  ⟨portConnectionName (names[i]?.getD []) ix.fromPort,
    [(names.idxOf c, ix.toPort.getD []), (i, ix.fromPort.getD [])]⟩

/-- What the `external` attribute of an instance asks for. -/
def externalLink (i : Nat) (e : Text) : Link := ⟨e, [(i, e)]⟩

/-- In a connection with a number, the pointers of the ports are null or go in pairs. -/
def Connection.Symmetric (self : Nat) (c : Connection) : Prop :=
  ∀ (j : Nat) (p : Port), c.ports[j]? = some p → p.connectedPort = none ∨ ∃ (k : Nat) (q : Port), k ≠ j ∧
    p.connectedPort = some ⟨self, k⟩ ∧ c.ports[k]? = some q ∧ q.connectedPort = some ⟨self, j⟩

/-- The names of the instances. -/
def instanceNames (a : Assembly) : List Text := a.instances.map Assembly.Instance.name

/-- The assembly is well formed, and has the connections that the attributes ask for. -/
structure WellFormed (ax : AssemblyElement) (w : Wired) : Prop where
  instances : (instanceNames w.assembly).Nodup
  connections : w.connections.Pairwise fun c d => sameName c.name d.name = false
  connect : ∀ (i : Nat) (ix : InstanceElement) c, ax.instances[i]? = some ix → ix.connect = some c →
    connectLink (instanceNames w.assembly) i ix c ∈ w.connections.map Connection.link
  external : ∀ (i : Nat) (ix : InstanceElement) e, ax.instances[i]? = some ix → ix.external = some e →
    externalLink i e ∈ w.connections.map Connection.link
  symmetric : ∀ (i : Nat) (c : Connection), w.connections[i]? = some c → c.Symmetric i

/-- No assertion fails, and there is an error or a well-formed assembly. -/
def Meets (ax : AssemblyElement) : Result Wired → Prop
  | .ok w => WellFormed ax w
  | .error (.refused _) => True
  | .error .crashed => False

/-! ## When it is so -/

/-- Two instances have the same name: with a name of their own, or a default name against such a name. Two default
names are the same when their bases are empty, or different and run into each other with their numbers. -/
def Clash (isImpl : Bool) (all : List InstanceElement) (p q : InstanceElement × Nat) : Prop :=
  if p.1.name.getD [] = [] ∧ q.1.name.getD [] = [] then
    (base isImpl p.1 = [] ∧ base isImpl q.1 = []) ∨
      (sameName (base isImpl p.1) (base isImpl q.1) = false ∧
        defaultName isImpl all p.2 (base isImpl p.1) = defaultName isImpl all q.2 (base isImpl q.1))
  else instanceName isImpl all p.2 p.1 = instanceName isImpl all q.2 q.1

/-- The connections with the numbers for their default names. -/
def numbered : Nat → List ConnectionElement → List (ConnectionElement × Nat)
  | _, [] => []
  | n, cx :: rest => (cx, n) :: numbered (nextNumber n cx) rest

/-- Two `connection` elements have the same name, not both by default. -/
def ConnectionClash (p q : ConnectionElement × Nat) : Prop :=
  (p.1.name.isSome ∨ q.1.name.isSome) ∧ sameName (connectionName p.2 p.1) (connectionName q.2 q.1) = true

/-- The names that the instances get. -/
def givenNames (isImpl : Bool) (ax : AssemblyElement) : List Text :=
  ax.instances.zipIdx.map fun ix => instanceName isImpl ax.instances ix.2 ix.1

/-- The name that `Port::parse` takes. -/
def PortElement.theName (x : PortElement) : Text :=
  if x.name.getD [] ≠ [] then x.name.getD []
  else if x.fromPort.getD [] ≠ [] then x.fromPort.getD [] else x.toPort.getD []

/-- What a `connection` element asks for. -/
def elementLink (names : List Text) (cx : ConnectionElement × Nat) : Link :=
  ⟨connectionName cx.2 cx.1, cx.1.ports.map fun x => (names.idxOf (x.inst.getD []), x.theName)⟩

/-- What an `external` element asks for. -/
def topLink (names : List Text) (ex : TopExternal) : Link :=
  ⟨if ex.name.getD [] = [] then ex.port.getD [] else ex.name.getD [],
    [(names.idxOf (ex.inst.getD []), ex.port.getD [])]⟩

/-- What the attributes of an instance ask for. -/
def instanceLinks (names : List Text) (ix : InstanceElement × Nat) : List Link :=
  ix.1.connect.toList.map (connectLink names ix.2 ix.1) ++ ix.1.external.toList.map (externalLink ix.2)

/-- All that is asked for by elements and by the first instances. -/
def earlierLinks (names : List Text) (ax : AssemblyElement) (n : Nat) : List Link :=
  (numbered 0 ax.connections).map (elementLink names) ++ ax.externals.map (topLink names) ++
    (ax.instances.take n).zipIdx.flatMap (instanceLinks names)

/-- The condition: components are named, no connection has three ports, default names of externals can be made, no
names clash, and where an instance has both attributes, no other connection that is asked for before has the name of
the one that its `connect` asks for. -/
structure Sound (isImpl : Bool) (format : Text → Nat → Option Text) (ax : AssemblyElement) : Prop where
  components : isImpl = false → ∀ ix ∈ ax.instances, ix.component.isSome = true
  ports : ∀ cx ∈ ax.connections, cx.ports.length ≤ 2
  formats : ∀ ex ∈ ax.externals, ex.name.getD [] = [] → ∀ port, ex.port = some port →
    (format port 0).isSome = true
  instances : ax.instances.zipIdx.Pairwise fun p q => ¬ Clash isImpl ax.instances p q
  connections : (numbered 0 ax.connections).Pairwise fun p q => ¬ ConnectionClash p q
  requests : ∀ (i : Nat) (ix : InstanceElement) c, ax.instances[i]? = some ix → ix.connect = some c → ix.external.isSome = true →
    ∀ l ∈ earlierLinks (givenNames isImpl ax) ax i,
      sameName l.name (connectLink (givenNames isImpl ax) i ix c).name = true →
        l = connectLink (givenNames isImpl ax) i ix c

/-! ## Rules -/

/-- The computation yields `ok`, and crashes only for the cause `C`. -/
def Safe (C : Prop) (ok : α → Prop) (x : Result α) : Prop := Yields ok (fun e => e = .crashed → C) x

theorem Safe.bind {x : Result α} {f : α → Result β} {P : α → Prop} {Q : β → Prop} (h : Safe C P x)
    (hf : ∀ v, P v → Safe C Q (f v)) : Safe C Q (x >>= f) :=
  Yields.bind h hf

theorem safe_refuse {P : α → Prop} (problem : Problem) : Safe C P (refuse problem) := fun h => nomatch h

theorem safe_check (answer : Option Text) : Safe C (fun _ => True) (check answer) := by
  cases answer with
  | none => trivial
  | some answer => exact safe_refuse (.check answer)

theorem safe_lift (x : Except Assembly.Error α) : Safe C (fun v => x = .ok v) (lift x) := by
  cases x with
  | ok v => rfl
  | error e => exact safe_refuse (.assembly e)

theorem safe_required (attr element : String) (value : Option Text) :
    Safe C (fun s => value = some s) (required attr element value) := by
  cases value with
  | none => exact safe_refuse _
  | some s => rfl

theorem Safe.imp {x : Result α} {P Q : α → Prop} {D : Prop} (h : Safe C P x) (hpq : ∀ v, P v → Q v)
    (hcd : C → D) : Safe D Q x :=
  Yields.imp h hpq fun _ hc he => hcd (hc he)

/-! ## Names -/

theorem sameName_symm (h : sameName s t = true) : sameName t s = true := sameName_iff.mpr (sameName_iff.mp h).symm

theorem sameName_comm (s t : Text) : sameName s t = sameName t s :=
  Bool.eq_iff_iff.mpr ⟨sameName_symm, sameName_symm⟩

theorem length_of_sameName (h : sameName s t = true) : s.length = t.length := by
  simpa using congrArg List.length (sameName_iff.mp h)

theorem tolower_digit {k : Nat} (h : k < 10) : tolower (Misc.digitByte k) = Misc.digitByte k := by
  have hall : ∀ k ∈ List.range 10, tolower (Misc.digitByte k) = Misc.digitByte k := by decide
  exact hall k (List.mem_range.mpr h)

/-- The text of a number has no letters. -/
theorem map_tolower_unsignedText (n : Nat) : (unsignedText n).map tolower = unsignedText n := by
  conv_rhs => rw [← List.map_id (unsignedText n)]
  refine List.map_congr_left fun c hc => ?_
  have hmem : c ∈ Misc.text Misc.Base.ten.val n := hc
  obtain ⟨k, hk, rfl⟩ := Misc.mem_text hmem
  exact tolower_digit hk

/-- Different numbers have different texts. -/
theorem unsignedText_inj {n m : Nat} (h : unsignedText n = unsignedText m) : n = m := by
  have hn := Misc.digits_text .ten n
  have hm := Misc.digits_text .ten m
  have htext : Misc.text Misc.Base.ten.val n = Misc.text Misc.Base.ten.val m := h
  rw [htext, hm] at hn
  exact (Prod.mk.inj hn).1.symm

/-! ## Instances -/

theorem getInstance_safe (a : Assembly) (s : Text) :
    Safe C (fun n => n = (instanceNames a).idxOf s) (getInstance a s) := by
  refine (safe_lift (a.getInstance s)).imp (fun n hn => ?_) id
  unfold Assembly.getInstance at hn
  cases hfind : a.instances.findIdx? (·.name == s) with
  | none => rw [hfind] at hn; exact nomatch hn
  | some m =>
    rw [hfind] at hn
    obtain rfl := Except.ok.inj hn
    have hidx := (List.findIdx?_eq_some_iff_findIdx_eq.mp hfind).2
    rw [← hidx, instanceNames, List.idxOf, List.findIdx_map]
    rfl

theorem checkKind_safe (hC : isImpl = false → ix.component.isSome = false → C) :
    Safe C (fun _ => isImpl = false → ix.component.isSome = true) (checkKind isImpl ix) := by
  unfold checkKind
  cases isImpl with
  | true =>
    simp only [if_true]
    split
    · exact safe_refuse .componentInvalid
    · exact (safe_required "worker" "instance" ix.worker).bind fun _ _ h => nomatch h
  | false =>
    cases hc : ix.component.isSome with
    | true => exact fun _ => rfl
    | false => exact fun _ => hC rfl hc

theorem parseInstance_safe {all : List InstanceElement} (hC : isImpl = false → ix.component.isSome = false → C) :
    Safe C (fun inst => inst.name = instanceName isImpl all i ix ∧ (isImpl = false → ix.component.isSome = true))
      (parseInstance file2String isImpl all i ix) := by
  unfold parseInstance
  refine (safe_check ix.checks).bind fun _ _ => ?_
  refine (checkKind_safe hC).bind fun _ hkind => ?_
  refine (safe_check ix.elements).bind fun _ _ => ?_
  refine (safe_lift _).bind fun properties _ => ?_
  exact (safe_check ix.parameters).bind fun _ _ => ⟨rfl, hkind⟩

/-- **The instances get their names**, and all have a component. -/
theorem parseInstances_safe (isImpl : Bool) (ax : AssemblyElement) (hC : isImpl = false → ∀ ix ∈ ax.instances, ix.component.isSome = false → C) :
    Safe C (fun instances => instances.map Assembly.Instance.name = givenNames isImpl ax ∧
        (isImpl = false → ∀ ix ∈ ax.instances, ix.component.isSome = true))
      (ax.instances.zipIdx.mapM fun ix => parseInstance file2String isImpl ax.instances ix.2 ix.1) := by
  have hall : ∀ p ∈ ax.instances.zipIdx, Safe C
      (fun inst => inst.name = instanceName isImpl ax.instances p.2 p.1 ∧
        (isImpl = false → p.1.component.isSome = true))
      (parseInstance file2String isImpl ax.instances p.2 p.1) := fun p hp =>
    parseInstance_safe fun himpl hnone => hC himpl p.1 (List.fst_mem_of_mem_zipIdx hp) hnone
  refine Safe.imp (C := C) (Yields.mapM hall) (fun instances h => ⟨h.1, fun himpl ix hix => ?_⟩) id
  obtain ⟨n, hn⟩ := List.mem_iff_getElem?.mp hix
  exact h.2 (ix, n) (List.mem_zipIdx_iff_getElem?.mpr hn) himpl

theorem name_addProperty (inst : Assembly.Instance) (name : Text) (px : ValueAttributes) :
    (inst.addProperty file2String name px).name = inst.name := by
  unfold Assembly.Instance.addProperty
  split
  · rfl
  · rfl

/-- Changing an instance without its name changes no names. -/
theorem map_name_modify {f : Assembly.Instance → Assembly.Instance} (hf : ∀ inst, (f inst).name = inst.name)
    (l : List Assembly.Instance) (n : Nat) :
    (l.modify n f).map Assembly.Instance.name = l.map Assembly.Instance.name := by
  refine List.ext_getElem? fun m => ?_
  rw [List.getElem?_map, List.getElem?_map, List.getElem?_modify]
  cases l[m]? with
  | none => rfl
  | some inst =>
    show some (if n = m then f inst else inst).name = some inst.name
    split
    · rw [hf]
    · rfl

/-- Properties of the assembly do not change the names. -/
theorem instanceNames_parseMapped (a : Assembly) (px : MappedElement) :
    Yields (fun a' => instanceNames a' = instanceNames a) (fun _ => True)
      (Assembly.parseMapped file2String a px) := by
  unfold Assembly.parseMapped
  have hany : ∀ {β : Type} (x : Except Assembly.Error β), Yields (fun _ => True) (fun _ => True) x := by
    intro β x
    cases x <;> trivial
  refine (hany _).bind fun name _ => (hany _).bind fun inst _ => (hany _).bind fun n _ => ?_
  split
  · split
    · exact True.intro
    · exact map_name_modify (fun inst => name_addProperty inst (Assembly.instPropName px name)
        px.toValueAttributes) a.instances n
  · split
    · exact True.intro
    · exact rfl

theorem instanceNames_parseProperties (a : Assembly) (properties : List MappedElement) :
    Safe C (fun a' => instanceNames a' = instanceNames a)
      (lift (properties.foldlM (Assembly.parseMapped file2String) a)) := by
  have hkept : Yields (fun a' => instanceNames a' = instanceNames a) (fun _ => True)
      (properties.foldlM (Assembly.parseMapped file2String) a) :=
    Yields.foldlM (P := fun _ b => instanceNames b = instanceNames a) rfl fun _ px b _ hb =>
      (instanceNames_parseMapped b px).imp (fun b' hb' => hb'.trans hb) fun _ h => h
  exact (safe_lift _).imp (fun a' ha' => hkept.of_ok ha') id

/-! ## Pointers -/

theorem symmetric_single {p : Port} (hports : c.ports = [p]) (hp : p.connectedPort = none) :
    c.Symmetric self := by
  intro j q hq
  rw [hports] at hq
  match j, hq with
  | 0, hq => exact Or.inl (Option.some.inj hq ▸ hp)
  | j + 1, hq => exact nomatch hq

theorem symmetric_pair {p q : Port} (hports : c.ports = [p, q]) (hp : p.connectedPort = some ⟨self, 1⟩)
    (hq : q.connectedPort = some ⟨self, 0⟩) : c.Symmetric self := by
  intro j r hr
  rw [hports] at hr ⊢
  match j, hr with
  | 0, hr => exact Or.inr ⟨1, q, by decide, Option.some.inj hr ▸ hp, rfl, hq⟩
  | 1, hr => exact Or.inr ⟨0, p, by decide, Option.some.inj hr ▸ hq, rfl, hp⟩
  | j + 2, hr => exact nomatch hr

/-- Two ports that are joined, in either order. -/
theorem ports_join {p q : Port} (hports : c.ports = [p, q]) (k m : Nat) (h : k = 0 ∧ m = 1 ∨ k = 1 ∧ m = 0) :
    (c.join self k m).ports =
      [{ p with connectedPort := some ⟨self, 1⟩ }, { q with connectedPort := some ⟨self, 0⟩ }] := by
  unfold Connection.join
  rw [hports]
  rcases h with ⟨rfl, rfl⟩ | ⟨rfl, rfl⟩
  · rfl
  · rfl

theorem symmetric_join {p q : Port} (hports : c.ports = [p, q]) (k m : Nat)
    (h : k = 0 ∧ m = 1 ∨ k = 1 ∧ m = 0) : (c.join self k m).Symmetric self :=
  symmetric_pair (ports_join hports k m h) rfl rfl

/-! ## Connections of elements -/

theorem portName_safe (x : PortElement) : Safe C (fun r => r.1 = x.theName) (portName x) := by
  unfold portName PortElement.theName
  by_cases hname : x.name.getD [] ≠ []
  · simp only [if_pos hname]
    split
    · exact safe_refuse .onlyOne
    · rfl
  · by_cases hfrom : x.fromPort.getD [] ≠ []
    · simp only [if_neg hname, if_pos hfrom]
      split
      · exact safe_refuse .onlyOne
      · rfl
    · simp only [if_neg hname, if_neg hfrom]
      split
      · rfl
      · exact safe_refuse .noPortName

theorem parsePort_safe (a : Assembly) (x : PortElement) :
    Safe C (fun p => p.connectedPort = none ∧
      (p.inst, p.name) = ((instanceNames a).idxOf (x.inst.getD []), x.theName)) (parsePort a x) := by
  unfold parsePort
  refine (safe_check x.checks).bind fun _ _ => ?_
  refine (safe_required "instance" "port" x.inst).bind fun iName hname => ?_
  refine (safe_check x.index).bind fun _ _ => ?_
  refine (getInstance_safe a iName).bind fun inst hinst => ?_
  refine (portName_safe x).bind fun r hr => ?_
  refine (safe_check x.parameters).bind fun _ _ => ⟨rfl, ?_⟩
  rw [hinst, hr, hname]
  rfl

/-- What the ports of an element attach a connection to. -/
def elementEnds (names : List Text) (ports : List PortElement) : List (Nat × Text) :=
  ports.map fun x => (names.idxOf (x.inst.getD []), x.theName)

/-- **The ports of a connection**: one, or two that are joined. With a third the assertion fails. -/
theorem parsePorts_safe {ports : List PortElement} {name : Text} {externals : List External}
    (hne : ports ≠ []) (hC : 3 ≤ ports.length → C) :
    Safe C (fun d => d.link = ⟨name, elementEnds (instanceNames a) ports⟩ ∧ d.Symmetric self ∧ ports.length ≤ 2)
      (parsePorts a self none ports { name, externals }) := by
  match ports, hne, hC with
  | [x], _, _ =>
    refine (parsePort_safe a x).bind fun p hp => ?_
    refine ⟨?_, symmetric_single rfl hp.1, by simp⟩
    exact congrArg (fun e => (⟨name, [e]⟩ : Link)) hp.2
  | x :: y :: rest, _, hC =>
    refine (parsePort_safe a x).bind fun p hp => ?_
    show Safe C _ (parsePorts a self (some 0) (y :: rest) { name, externals, ports := [p] })
    refine (parsePort_safe a y).bind fun q hq => ?_
    have hnull : q.connectedPort = none ∧ ([p][0]?.bind Port.connectedPort) = none := ⟨hq.1, hp.1⟩
    show Safe C _ (if q.connectedPort = none ∧ ([p][0]?.bind Port.connectedPort) = none then
      parsePorts a self (some 0) rest (({ name, externals, ports := [p, q] } : Connection).join self 1 0)
      else .error .crashed)
    rw [if_pos hnull]
    match rest, hC with
    | [], _ =>
      refine ⟨?_, symmetric_join rfl 1 0 (Or.inr ⟨rfl, rfl⟩), by simp⟩
      exact congrArg (fun e => (⟨name, e⟩ : Link)) (congrArg₂ (fun e f => [e, f]) hp.2 hq.2)
    | z :: rest, hC =>
      refine (parsePort_safe a z).bind fun r hr => ?_
      show Safe C _ (if r.connectedPort = none ∧ some (⟨self, 1⟩ : PortRef) = none then _ else .error .crashed)
      rw [if_neg fun h => nomatch h.2]
      exact fun _ => hC (by simp)

theorem roleOf_safe (role : Text) : Safe C (fun _ => True) (roleOf role) := by
  unfold roleOf
  simp only
  split
  · trivial
  · split
    · trivial
    · split
      · trivial
      · split
        · exact safe_refuse (.invalidRole role)
        · trivial

theorem parseExternal_safe {default : Nat → Option Text} {x : ExternalElement}
    (hC : x.name.getD [] = [] → (default n).isSome = false → C) :
    Safe C (fun _ => x.name.getD [] = [] → (default n).isSome = true) (parseExternal default n x) := by
  have hrest : ∀ {P : Prop} (r : Text × Nat), P → Safe C (fun _ => P) (do
      check x.numbers
      let role ← roleOf (x.role.getD [])
      check x.parameters
      return (({ name := r.1, role } : External), r.2)) := fun r hP =>
    (safe_check x.numbers).bind fun _ _ => (roleOf_safe _).bind fun _ _ =>
      (safe_check x.parameters).bind fun _ _ => hP
  unfold parseExternal
  by_cases hname : x.name.getD [] = []
  · simp only [if_pos hname]
    cases hd : default n with
    | none => exact fun _ => hC hname (by rw [hd]; rfl)
    | some name => exact hrest (name, n + 1) fun _ => rfl
  · simp only [if_neg hname]
    exact hrest (x.name.getD [], n) fun h => absurd h hname

theorem parseExternals_safe : ∀ (xs : List ExternalElement) (n : Nat),
    Safe C (fun _ => True) (parseExternals n xs)
  | [], _ => trivial
  | x :: rest, n => by
    unfold parseExternals
    refine (parseExternal_safe fun _ h => nomatch h).bind fun r _ => ?_
    exact (parseExternals_safe rest (r.2 + 1)).bind fun _ _ => trivial

theorem ownExternals_safe (name : Text) (role : Option Text) : Safe C (fun _ => True) (ownExternals name role) := by
  cases role with
  | none => trivial
  | some role => exact (roleOf_safe role).bind fun _ _ => trivial

theorem parseConnectionElement_safe (hC : 3 ≤ cx.ports.length → C) :
    Safe C (fun d => d.link = elementLink (instanceNames a) (cx, n) ∧ d.Symmetric self ∧ cx.ports.length ≤ 2)
      (parseConnectionElement a self n cx) := by
  unfold parseConnectionElement
  refine (safe_check cx.checks).bind fun _ _ => ?_
  refine (safe_check cx.parameters).bind fun _ _ => ?_
  refine (ownExternals_safe _ cx.external).bind fun own _ => ?_
  refine (parseExternals_safe cx.externals 0).bind fun externals _ => ?_
  split
  · exact safe_refuse .noPorts
  · next hlen =>
    have hne : cx.ports ≠ [] := fun h => hlen (by rw [h]; exact Nat.zero_lt_one)
    exact parsePorts_safe hne hC

/-- The pointers of all ports are null or go in pairs. -/
def AllSymmetric (cs : List Connection) : Prop := ∀ (i : Nat) (c : Connection), cs[i]? = some c → c.Symmetric i

theorem AllSymmetric.append (h : AllSymmetric cs) (hc : c.Symmetric cs.length) : AllSymmetric (cs ++ [c]) := by
  intro i d hd
  rcases Nat.lt_trichotomy i cs.length with hlt | rfl | hgt
  · rw [List.getElem?_append_left hlt] at hd
    exact h i d hd
  · rw [List.getElem?_concat_length] at hd
    exact Option.some.inj hd ▸ hc
  · rw [List.getElem?_eq_none (by simp; omega)] at hd
    cases hd

/-- **The connections of elements** follow one after the other. -/
theorem parseConnectionElements_safe : ∀ (l : List ConnectionElement) (n : Nat) (cs : List Connection),
    (∀ cx ∈ l, 3 ≤ cx.ports.length → C) → AllSymmetric cs →
    Safe C (fun ds => ds.map Connection.link = cs.map Connection.link ++
        (numbered n l).map (elementLink (instanceNames a)) ∧ AllSymmetric ds ∧ ∀ cx ∈ l, cx.ports.length ≤ 2)
      (parseConnectionElements a n l cs)
  | [], _, cs, _, hcs => ⟨(List.append_nil _).symm, hcs, fun _ h => nomatch h⟩
  | cx :: l, n, cs, hC, hcs => by
    unfold parseConnectionElements
    refine (parseConnectionElement_safe (hC cx List.mem_cons_self)).bind fun c ⟨hlink, hsymm, hlen⟩ => ?_
    have hrest := parseConnectionElements_safe l (nextNumber n cx) (cs ++ [c])
      (fun cx' h => hC cx' (List.mem_cons_of_mem cx h)) (hcs.append hsymm)
    refine hrest.imp (fun ds ⟨hlinks, hall, hports⟩ => ⟨?_, hall, ?_⟩) id
    · rw [hlinks, List.map_append, List.map_singleton, hlink, List.append_assoc]
      rfl
    · exact List.forall_mem_cons.mpr ⟨hlen, hports⟩

/-! ## Connections of short cuts -/

/-- No two connections have the same name. -/
def Distinct (cs : List Connection) : Prop := cs.Pairwise fun c d => sameName c.name d.name = false

/-- The list has got more connections: each has a name of its own and is one of those that are asked for. -/
inductive Grown (asked : List Link) (cs : List Connection) : List Connection → Prop where
  | refl : Grown asked cs cs
  | add {ds : List Connection} {c : Connection} (h : Grown asked cs ds) (hname : isDuplicate ds c.name = false)
      (hsymm : c.Symmetric ds.length) (hlink : c.link ∈ asked) : Grown asked cs (ds ++ [c])

theorem isDuplicate_eq_false : isDuplicate cs s = false ↔ ∀ c ∈ cs, sameName c.name s = false := by
  simp [isDuplicate]

theorem isDuplicate_eq_true : isDuplicate cs s = true ↔ ∃ c ∈ cs, sameName c.name s = true := by
  simp [isDuplicate]

namespace Grown

variable {asked asked' : List Link} {ds es : List Connection}

theorem one (hname : isDuplicate cs c.name = false) (hsymm : c.Symmetric cs.length) (hlink : c.link ∈ asked) :
    Grown asked cs (cs ++ [c]) :=
  .add .refl hname hsymm hlink

theorem trans (h : Grown asked cs ds) (h' : Grown asked ds es) : Grown asked cs es := by
  induction h' with
  | refl => exact h
  | add _ hname hsymm hlink ih => exact .add ih hname hsymm hlink

theorem mono (hsub : ∀ l ∈ asked, l ∈ asked') (h : Grown asked cs ds) : Grown asked' cs ds := by
  induction h with
  | refl => exact .refl
  | add _ hname hsymm hlink ih => exact .add ih hname hsymm (hsub _ hlink)

theorem symmetric (h : Grown asked cs ds) (hcs : AllSymmetric cs) : AllSymmetric ds := by
  induction h with
  | refl => exact hcs
  | add _ _ hsymm _ ih => exact ih.append hsymm

/-- Connections that are added clash with none. -/
theorem distinct_iff (h : Grown asked cs ds) : Distinct ds ↔ Distinct cs := by
  induction h with
  | refl => exact Iff.rfl
  | add _ hname _ _ ih =>
    rw [← ih]
    unfold Distinct
    rw [List.pairwise_append]
    refine ⟨fun h => h.1, fun h => ⟨h, List.pairwise_singleton _ _, fun d hd e he => ?_⟩⟩
    rw [List.mem_singleton.mp he]
    exact isDuplicate_eq_false.mp hname d hd

theorem mem_of_mem (h : Grown asked cs ds) {l : Link} (hl : l ∈ cs.map Connection.link) :
    l ∈ ds.map Connection.link := by
  induction h with
  | refl => exact hl
  | add _ _ _ _ ih =>
    rw [List.map_append]
    exact List.mem_append_left _ ih

theorem mem_or_asked (h : Grown asked cs ds) {l : Link} (hl : l ∈ ds.map Connection.link) :
    l ∈ cs.map Connection.link ∨ l ∈ asked := by
  induction h with
  | refl => exact Or.inl hl
  | add _ _ _ hlink ih =>
    rw [List.map_append, List.map_singleton] at hl
    rcases List.mem_append.mp hl with hold | hnew
    · exact ih hold
    · exact Or.inr (List.mem_singleton.mp hnew ▸ hlink)

end Grown

theorem mem_link_append (cs : List Connection) (c : Connection) : c.link ∈ (cs ++ [c]).map Connection.link :=
  List.mem_map_of_mem (List.mem_append_right cs List.mem_cons_self)

theorem addExternalElement_safe {ex : TopExternal}
    (hC : ex.name.getD [] = [] → ∀ port, ex.port = some port → (format port 0).isSome = false → C) :
    Safe C (fun ds => Grown [topLink (instanceNames a) ex] cs ds ∧
        topLink (instanceNames a) ex ∈ ds.map Connection.link ∧
        (ex.name.getD [] = [] → ∀ port, ex.port = some port → (format port 0).isSome = true))
      (addExternalElement format a cs ex) := by
  unfold addExternalElement
  refine (safe_required "port" "external" ex.port).bind fun port hport => ?_
  simp only
  generalize hname : (if ex.name.getD [] = [] then port else ex.name.getD []) = name
  cases hdup : isDuplicate cs name with
  | true => exact safe_refuse _
  | false =>
    have hdefault : ex.name.getD [] = [] → name = port := fun h => by rw [← hname, if_pos h]
    have hparse : Safe C (fun _ => ex.name.getD [] = [] → (format name 0).isSome = true)
        (parseExternal (format name) 0 ex.toExternalElement) :=
      parseExternal_safe fun hempty hnone => hC hempty port hport (hdefault hempty ▸ hnone)
    refine hparse.bind fun e hformat => ?_
    refine (safe_required "instance" "external" ex.inst).bind fun iName hinst => ?_
    refine (getInstance_safe a iName).bind fun inst hn => ?_
    let c : Connection := ({ name, externals := [e.1] } : Connection).addPort inst (some port) false false
    have hlink : c.link = topLink (instanceNames a) ex := by
      unfold topLink
      rw [hport, hinst]
      show (⟨name, [(inst, port)]⟩ : Link) = ⟨if ex.name.getD [] = [] then port else _, _⟩
      rw [hname, hn]
      rfl
    refine ⟨.one hdup (symmetric_single rfl rfl) (hlink ▸ List.mem_cons_self), hlink ▸ mem_link_append cs c, ?_⟩
    intro hempty port' hport'
    obtain rfl := Option.some.inj (hport.symm.trans hport')
    exact hdefault hempty ▸ hformat hempty

/-- **The externals of the assembly** are added one after the other. -/
theorem addExternalElements_safe
    (hC : ∀ ex ∈ ax.externals, ex.name.getD [] = [] → ∀ port, ex.port = some port →
      (format port 0).isSome = false → C) :
    Safe C (fun ds => Grown (ax.externals.map (topLink (instanceNames a))) cs ds ∧
        (∀ ex ∈ ax.externals, topLink (instanceNames a) ex ∈ ds.map Connection.link) ∧
        ∀ ex ∈ ax.externals, ex.name.getD [] = [] → ∀ port, ex.port = some port → (format port 0).isSome = true)
      (ax.externals.foldlM (addExternalElement format a) cs) := by
  refine Yields.foldlM (P := fun done ds => Grown (done.map (topLink (instanceNames a))) cs ds ∧
      (∀ ex ∈ done, topLink (instanceNames a) ex ∈ ds.map Connection.link) ∧
      ∀ ex ∈ done, ex.name.getD [] = [] → ∀ port, ex.port = some port → (format port 0).isSome = true)
    ⟨.refl, fun _ h => (nomatch h), fun _ h => nomatch h⟩ fun done ex ds hex ⟨hgrown, hlinks, hformats⟩ => ?_
  refine Safe.imp (addExternalElement_safe (hC ex hex)) (fun es ⟨hone, hlink, hformat⟩ => ⟨?_, ?_, ?_⟩) id
  · rw [List.map_append, List.map_singleton]
    exact (hgrown.mono fun l hl => List.mem_append_left _ hl).trans
      (hone.mono fun l hl => List.mem_append_right _ hl)
  · intro ex' hmem
    rcases List.mem_append.mp hmem with h | h
    · exact hone.mem_of_mem (hlinks ex' h)
    · rw [List.mem_singleton.mp h]
      exact hlink
  · intro ex' hmem
    rcases List.mem_append.mp hmem with h | h
    · exact hformats ex' h
    · rw [List.mem_singleton.mp h]
      exact hformat

/-! ## Connections of instances -/

/-- The connection that the `connect` attribute of an instance asks for. It is made, or its name is taken. -/
theorem addPortConnection_spec (cs : List Connection) (fromPort toPort : Option Text) (toInst : Nat) {asked : List Link}
    (hasked : (⟨portConnectionName (nameAt a i) fromPort,
      [(toInst, toPort.getD []), (i, fromPort.getD [])]⟩ : Link) ∈ asked) :
    Grown asked cs (addPortConnection a cs i fromPort toInst toPort).1 ∧
      ((⟨portConnectionName (nameAt a i) fromPort, [(toInst, toPort.getD []), (i, fromPort.getD [])]⟩ : Link) ∈
          (addPortConnection a cs i fromPort toInst toPort).1.map Connection.link ∨
        (addPortConnection a cs i fromPort toInst toPort).2 ≠ none ∧
          ∃ d ∈ cs, sameName d.name (portConnectionName (nameAt a i) fromPort) = true) := by
  unfold addPortConnection
  simp only
  cases hdup : isDuplicate cs (portConnectionName (nameAt a i) fromPort) with
  | true => exact ⟨.refl, Or.inr ⟨fun h => (nomatch h), isDuplicate_eq_true.mp hdup⟩⟩
  | false =>
    simp only [Bool.false_eq_true, if_false]
    exact ⟨.one hdup (symmetric_join rfl 0 1 (Or.inl ⟨rfl, rfl⟩)) hasked,
      Or.inl (mem_link_append cs (Connection.join _ cs.length 0 1))⟩

theorem addExternalConnection_spec (cs : List Connection) (i : Nat) (e : Text) {asked : List Link} (hasked : externalLink i e ∈ asked) :
    Grown asked cs (addExternalConnection cs i e).1 ∧ ((addExternalConnection cs i e).2 = none →
      externalLink i e ∈ (addExternalConnection cs i e).1.map Connection.link) := by
  unfold addExternalConnection
  cases hdup : isDuplicate cs e with
  | true => exact ⟨.refl, fun h => nomatch h⟩
  | false => exact ⟨.one hdup (symmetric_single rfl rfl) hasked, fun _ => mem_link_append cs _⟩

theorem nameAt_eq (a : Assembly) (i : Nat) : nameAt a i = (instanceNames a)[i]?.getD [] := by
  unfold nameAt instanceNames
  rw [List.getElem?_map]

theorem connectLink_mem (h : ix.connect = some s) : connectLink names i ix s ∈ instanceLinks names (ix, i) :=
  List.mem_append_left _ (by simp [h])

theorem externalLink_mem (h : ix.external = some s) : externalLink i s ∈ instanceLinks names (ix, i) :=
  List.mem_append_right _ (by simp [h])

theorem connectPart_safe (a : Assembly) (i : Nat) (ix : InstanceElement) (cs : List Connection) :
    Safe C (fun r => Grown (instanceLinks (instanceNames a) (ix, i)) cs r.1 ∧ (ix.connect = none → r.2 = none) ∧
        ∀ s, ix.connect = some s → connectLink (instanceNames a) i ix s ∈ r.1.map Connection.link ∨
          r.2 ≠ none ∧ ∃ d ∈ cs, sameName d.name (connectLink (instanceNames a) i ix s).name = true)
      (connectPart a i ix cs) := by
  unfold connectPart
  cases hc : ix.connect with
  | none => exact ⟨.refl, fun _ => rfl, fun _ h => nomatch h⟩
  | some s =>
    refine (getInstance_safe a s).bind fun n hn => ?_
    have hlink : (⟨portConnectionName (nameAt a i) ix.fromPort,
        [(n, ix.toPort.getD []), (i, ix.fromPort.getD [])]⟩ : Link) = connectLink (instanceNames a) i ix s := by
      rw [nameAt_eq, hn]
      rfl
    obtain ⟨hgrown, hdone⟩ := addPortConnection_spec cs ix.fromPort ix.toPort n
      (hlink ▸ connectLink_mem hc : _ ∈ instanceLinks (instanceNames a) (ix, i))
    refine ⟨hgrown, fun h => (nomatch h), fun s' hs' => ?_⟩
    obtain rfl := Option.some.inj hs'
    rw [← hlink]
    exact hdone

/-- What `parseConnection` does for an instance: its external is there, and what its `connect` asks for is there
unless it has an external too and the name was taken. -/
structure Wires (names : List Text) (ix : InstanceElement) (i : Nat) (cs ds : List Connection) : Prop where
  grown : Grown (instanceLinks names (ix, i)) cs ds
  external : ∀ e, ix.external = some e → externalLink i e ∈ ds.map Connection.link
  connect : ∀ s, ix.connect = some s → connectLink names i ix s ∈ ds.map Connection.link ∨
    ix.external.isSome = true ∧ ∃ d ∈ cs, sameName d.name (connectLink names i ix s).name = true

theorem parseConnection_safe (a : Assembly) (i : Nat) (ix : InstanceElement) (cs : List Connection) :
    Safe C (fun ds => Wires (instanceNames a) ix i cs ds) (parseConnection a i ix cs) := by
  unfold parseConnection
  refine (connectPart_safe a i ix cs).bind fun r ⟨hgrown, hnone, hconnect⟩ => ?_
  obtain ⟨ms, err⟩ := r
  cases he : ix.external with
  | none =>
    simp only
    cases herr : err with
    | some problem => exact safe_refuse problem
    | none =>
      refine ⟨hgrown, fun _ h => (nomatch he.symm.trans h), fun s hs => Or.inl ?_⟩
      exact (hconnect s hs).resolve_right fun h => h.1 herr
  | some e =>
    simp only
    obtain ⟨hgrown', hlink⟩ := addExternalConnection_spec ms i e
      (externalLink_mem he : externalLink i e ∈ instanceLinks (instanceNames a) (ix, i))
    cases herr : (addExternalConnection ms i e).2 with
    | some problem => exact safe_refuse problem
    | none =>
      refine ⟨hgrown.trans hgrown', fun e' h => ?_, fun s hs => ?_⟩
      · obtain rfl := Option.some.inj (he.symm.trans h)
        exact hlink herr
      · rcases hconnect s hs with h | ⟨-, h⟩
        · exact Or.inl (hgrown'.mem_of_mem h)
        · exact Or.inr ⟨by rw [he]; rfl, h⟩

/-- What the last loop does for the instances from the ordinal `i` on. -/
structure AllWired (names : List Text) (i : Nat) (l : List InstanceElement) (cs ds : List Connection) : Prop where
  grown : Grown ((l.zipIdx i).flatMap (instanceLinks names)) cs ds
  external : ∀ (k : Nat) ix e, l[k]? = some ix → ix.external = some e →
    externalLink (i + k) e ∈ ds.map Connection.link
  connect : ∀ (k : Nat) ix s, l[k]? = some ix → ix.connect = some s →
    connectLink names (i + k) ix s ∈ ds.map Connection.link ∨
      ix.external.isSome = true ∧
        ∃ d ∈ cs.map Connection.link ++ ((l.take k).zipIdx i).flatMap (instanceLinks names),
          d ∈ ds.map Connection.link ∧ sameName d.name (connectLink names (i + k) ix s).name = true

theorem AllWired.cons {l : List InstanceElement} {ms ds : List Connection} (h : Wires names ix i cs ms)
    (hrest : AllWired names (i + 1) l ms ds) : AllWired names i (ix :: l) cs ds where
  grown := by
    rw [List.zipIdx_cons, List.flatMap_cons]
    exact (h.grown.mono fun _ hl => List.mem_append_left _ hl).trans
      (hrest.grown.mono fun _ hl => List.mem_append_right _ hl)
  external k ix' e hk he := by
    match k, hk with
    | 0, hk =>
      obtain rfl := Option.some.inj hk
      exact hrest.grown.mem_of_mem (h.external e he)
    | k + 1, hk =>
      have hmem := hrest.external k ix' e hk he
      rwa [Nat.add_assoc, Nat.add_comm 1 k] at hmem
  connect k ix' s hk hs := by
    match k, hk with
    | 0, hk =>
      obtain rfl := Option.some.inj hk
      rcases h.connect s hs with hmem | ⟨he, d, hd, hname⟩
      · exact Or.inl (hrest.grown.mem_of_mem hmem)
      · have hmem : d.link ∈ cs.map Connection.link := List.mem_map_of_mem hd
        exact Or.inr ⟨he, d.link, List.mem_append_left _ hmem,
          hrest.grown.mem_of_mem (h.grown.mem_of_mem hmem), hname⟩
    | k + 1, hk =>
      have hdone := hrest.connect k ix' s hk hs
      rw [Nat.add_assoc, Nat.add_comm 1 k] at hdone
      refine hdone.imp_right fun ⟨he, d, hd, hmade, hname⟩ => ⟨he, d, ?_, hmade, hname⟩
      rw [List.take_succ_cons, List.zipIdx_cons, List.flatMap_cons]
      rcases List.mem_append.mp hd with hmem | hmem
      · rcases h.grown.mem_or_asked hmem with hold | hnew
        · exact List.mem_append_left _ hold
        · exact List.mem_append_right _ (List.mem_append_left _ hnew)
      · exact List.mem_append_right _ (List.mem_append_right _ hmem)

/-- **The loop over the instances.** -/
theorem parseConnections_safe (a : Assembly) : ∀ (l : List InstanceElement) (i : Nat) (cs : List Connection),
    Safe C (fun ds => AllWired (instanceNames a) i l cs ds) (parseConnections a i l cs)
  | [], _, _ => ⟨.refl, fun _ _ _ h => (nomatch h), fun _ _ _ h => nomatch h⟩
  | ix :: l, i, cs => by
    unfold parseConnections
    refine (parseConnection_safe a i ix cs).bind fun ms hms => ?_
    exact (parseConnections_safe a l (i + 1) ms).imp (fun ds hds => AllWired.cons hms hds) id

/-! ## Names that clash -/

theorem sameBase_congr (h : sameName s t = true) : sameBase isImpl s = sameBase isImpl t := by
  funext x
  unfold sameBase sameName
  rw [sameName_iff.mp h]

theorem sameBase_self (h : base isImpl ix ≠ []) : sameBase isImpl (base isImpl ix) ix = true := by
  simp [sameBase, sameName, h]

/-- An instance counts for those behind it. -/
theorem countP_take_lt {l : List InstanceElement} {P : InstanceElement → Bool} {m : Nat} (hi : l[i]? = some ix)
    (hP : P ix = true) (hlt : i < m) : (l.take i).countP P < (l.take m).countP P := by
  have hsucc : (l.take (i + 1)).countP P = (l.take i).countP P + 1 := by
    rw [List.take_add_one, hi, List.countP_append]
    simp [hP]
  have hle : (l.take (i + 1)).countP P ≤ (l.take m).countP P :=
    (List.take_sublist_take_left hlt).countP_le
  omega

/-- Default names from the same base differ: their numbers do. -/
theorem defaultName_ne {all : List InstanceElement} {p q : InstanceElement × Nat} (hp : all[p.2]? = some p.1)
    (hq : all[q.2]? = some q.1) (hlt : p.2 < q.2) (hne : base isImpl p.1 ≠ [])
    (hsame : sameName (base isImpl p.1) (base isImpl q.1) = true) :
    defaultName isImpl all p.2 (base isImpl p.1) ≠ defaultName isImpl all q.2 (base isImpl q.1) := by
  have hlen := length_of_sameName hsame
  have hne' : base isImpl q.1 ≠ [] := fun h => hne (List.length_eq_zero_iff.mp (by rw [hlen, h]; rfl))
  have hcongr : sameBase isImpl (base isImpl p.1) = sameBase isImpl (base isImpl q.1) := sameBase_congr hsame
  have hpcount := countP_take_lt hp (sameBase_self hne) hlt
  have hqcount : (all.take q.2).countP (sameBase isImpl (base isImpl p.1)) <
      all.countP (sameBase isImpl (base isImpl p.1)) := by
    have hall : all.take all.length = all := List.take_length
    conv_rhs => rw [← hall]
    exact countP_take_lt hq (hcongr ▸ sameBase_self hne') (List.getElem?_eq_some_iff.mp hq).1
  have hmany : 1 < all.countP (sameBase isImpl (base isImpl p.1)) := by omega
  unfold defaultName
  rw [← hcongr, if_pos hmany, if_pos hmany]
  intro h
  have htext := unsignedText_inj (List.append_inj h hlen).2
  omega

theorem instanceName_iff_clash {all : List InstanceElement} {p q : InstanceElement × Nat}
    (hp : all[p.2]? = some p.1) (hq : all[q.2]? = some q.1) (hlt : p.2 < q.2) :
    instanceName isImpl all p.2 p.1 = instanceName isImpl all q.2 q.1 ↔ Clash isImpl all p q := by
  unfold Clash
  split
  · next hdefault =>
    unfold instanceName
    rw [if_pos hdefault.1, if_pos hdefault.2]
    cases hsame : sameName (base isImpl p.1) (base isImpl q.1) with
    | false =>
      have hnot : ¬ (base isImpl p.1 = [] ∧ base isImpl q.1 = []) := fun h => by
        rw [h.1, h.2] at hsame
        exact nomatch hsame
      exact ⟨fun h => Or.inr ⟨rfl, h⟩, fun h => (h.resolve_left hnot).2⟩
    | true =>
      by_cases hempty : base isImpl p.1 = []
      · have hempty' : base isImpl q.1 = [] :=
          List.length_eq_zero_iff.mp (by rw [← length_of_sameName hsame, hempty]; rfl)
        have hcount : all.countP (sameBase isImpl []) = 0 := List.countP_eq_zero.mpr fun x _ hx => by
          simp only [sameBase, Bool.and_eq_true, Bool.not_eq_true', List.isEmpty_eq_false_iff] at hx
          exact hx.1 (List.length_eq_zero_iff.mp (length_of_sameName hx.2))
        refine iff_of_true ?_ (Or.inl ⟨hempty, hempty'⟩)
        rw [hempty, hempty']
        simp [defaultName, hcount]
      · refine iff_of_false (defaultName_ne hp hq hlt hempty hsame) fun h => ?_
        rcases h with h | h
        · exact hempty h.1
        · exact nomatch h.1
  · exact Iff.rfl

/-- **The names of the instances are distinct exactly when none clash.** -/
theorem givenNames_nodup_iff : (givenNames isImpl ax).Nodup ↔
    ax.instances.zipIdx.Pairwise fun p q => ¬ Clash isImpl ax.instances p q := by
  have horder : ax.instances.zipIdx.Pairwise fun p q => p.2 < q.2 := by
    have hrange : (ax.instances.zipIdx.map Prod.snd).Pairwise (· < ·) := by
      rw [List.zipIdx_map_snd]
      exact List.pairwise_lt_range'
    exact List.pairwise_map.mp hrange
  unfold givenNames List.Nodup
  rw [List.pairwise_map]
  constructor
  · intro h
    refine (horder.and h).imp_of_mem fun {p q} hp hq ⟨hlt, hne⟩ hclash => hne ?_
    exact (instanceName_iff_clash (List.mem_zipIdx_iff_getElem?.mp hp) (List.mem_zipIdx_iff_getElem?.mp hq)
      hlt).mpr hclash
  · intro h
    refine (horder.and h).imp_of_mem fun {p q} hp hq ⟨hlt, hnot⟩ hname => hnot ?_
    exact (instanceName_iff_clash (List.mem_zipIdx_iff_getElem?.mp hp) (List.mem_zipIdx_iff_getElem?.mp hq)
      hlt).mp hname

theorem le_of_mem_numbered : ∀ {l : List ConnectionElement} {n : Nat} {q : ConnectionElement × Nat},
    q ∈ numbered n l → n ≤ q.2
  | cx :: l, n, q, h => by
    unfold numbered at h
    rcases List.mem_cons.mp h with rfl | hmem
    · exact Nat.le_refl _
    · have hle := le_of_mem_numbered hmem
      unfold nextNumber at hle
      split at hle
      · exact hle
      · exact Nat.le_of_succ_le hle

/-- Numbers of default names grow. -/
theorem numbered_pairwise : ∀ (l : List ConnectionElement) (n : Nat),
    (numbered n l).Pairwise fun p q => p.1.name.isSome = false → p.2 < q.2
  | [], _ => .nil
  | cx :: l, n => by
    refine .cons (fun q hq hnone => ?_) (numbered_pairwise l (nextNumber n cx))
    have hle := le_of_mem_numbered hq
    have hnone' : cx.name.isSome = false := hnone
    unfold nextNumber at hle
    rw [hnone'] at hle
    exact hle

theorem map_tolower_connectionName (h : cx.name.isSome = false) :
    (connectionName n cx).map tolower = conn ++ unsignedText n := by
  have hnone : cx.name = none := Option.not_isSome_iff_eq_none.mp (Bool.eq_false_iff.mp h)
  unfold connectionName
  rw [hnone]
  show (conn ++ unsignedText n).map tolower = _
  rw [List.map_append, map_tolower_unsignedText]
  rfl

/-- **The names of the elements are distinct exactly when none clash.** -/
theorem elementNames_iff (l : List ConnectionElement) (n : Nat) :
    ((numbered n l).Pairwise fun p q => sameName (connectionName p.2 p.1) (connectionName q.2 q.1) = false) ↔
      (numbered n l).Pairwise fun p q => ¬ ConnectionClash p q := by
  constructor
  · exact fun h => h.imp fun {p q} hname (hclash : ConnectionClash p q) =>
      Bool.false_ne_true (hname.symm.trans hclash.2)
  · intro h
    refine ((numbered_pairwise l n).and h).imp fun {p q} ⟨hlt, hnot⟩ => Bool.eq_false_iff.mpr fun hname => ?_
    by_cases hsome : p.1.name.isSome = true ∨ q.1.name.isSome = true
    · exact hnot ⟨hsome, hname⟩
    · rw [not_or, Bool.not_eq_true, Bool.not_eq_true] at hsome
      have htexts := sameName_iff.mp hname
      rw [map_tolower_connectionName hsome.1, map_tolower_connectionName hsome.2] at htexts
      exact Nat.ne_of_lt (hlt hsome.1) (unsignedText_inj (List.append_cancel_left htexts))

/-! ## The whole assembly -/

/-- What an assembly has that is not refused. -/
structure Parsed (isImpl : Bool) (format : Text → Nat → Option Text) (ax : AssemblyElement) (w : Wired) : Prop where
  components : isImpl = false → ∀ ix ∈ ax.instances, ix.component.isSome = true
  ports : ∀ cx ∈ ax.connections, cx.ports.length ≤ 2
  formats : ∀ ex ∈ ax.externals, ex.name.getD [] = [] → ∀ port, ex.port = some port →
    (format port 0).isSome = true
  names : instanceNames w.assembly = givenNames isImpl ax
  stages : ∃ elements tops, elements.map Connection.link =
      (numbered 0 ax.connections).map (elementLink (givenNames isImpl ax)) ∧ AllSymmetric elements ∧
    Grown (ax.externals.map (topLink (givenNames isImpl ax))) elements tops ∧
    (∀ ex ∈ ax.externals, topLink (givenNames isImpl ax) ex ∈ tops.map Connection.link) ∧
    AllWired (givenNames isImpl ax) 0 ax.instances tops w.connections

/-- **An assembly is parsed in stages**, and crashes only when it is not sound. -/
theorem parse_safe : Safe (¬ Sound isImpl format ax) (Parsed isImpl format ax)
    (parse file2String format isImpl ax) := by
  unfold parse
  refine (safe_check ax.checks).bind fun _ _ => ?_
  refine (parseInstances_safe isImpl ax fun himpl ix hix hnone hsound => by
    rw [hsound.components himpl ix hix] at hnone
    exact nomatch hnone).bind fun instances ⟨hnames, hcomponents⟩ => ?_
  have hdone : Safe (¬ Sound isImpl format ax) (fun _ => True) (parseDone { instances } ax.done) := by
    cases ax.done with
    | none => trivial
    | some s => exact (getInstance_safe _ s).bind fun _ _ => trivial
  refine hdone.bind fun doneInstance _ => ?_
  refine (instanceNames_parseProperties _ ax.properties).bind fun a ha => ?_
  have hgiven : instanceNames a = givenNames isImpl ax := ha.trans hnames
  refine (parseConnectionElements_safe ax.connections 0 [] (fun cx hcx hlen hsound =>
    absurd (hsound.ports cx hcx) (Nat.not_le.mpr hlen)) fun _ _ h => nomatch h).bind
      fun elements ⟨hlinks, hsymm, hports⟩ => ?_
  refine (addExternalElements_safe fun ex hex hempty port hport hnone hsound => by
    rw [hsound.formats ex hex hempty port hport] at hnone
    exact nomatch hnone).bind fun tops ⟨hgrown, htops, hformats⟩ => ?_
  refine (parseConnections_safe a ax.instances 0 tops).bind fun cs hcs => ?_
  rw [hgiven] at hlinks hgrown htops hcs
  exact ⟨hcomponents, hports, hformats, hgiven, elements, tops, hlinks, hsymm, hgrown, htops, hcs⟩

/-- Names are all that `Distinct` looks at. -/
theorem distinct_of_links {l : List (ConnectionElement × Nat)}
    (h : cs.map Connection.link = l.map (elementLink names)) :
    Distinct cs ↔ l.Pairwise fun p q => sameName (connectionName p.2 p.1) (connectionName q.2 q.1) = false := by
  have hcs : Distinct cs ↔ (cs.map Connection.link).Pairwise fun x y => sameName x.name y.name = false := by
    rw [List.pairwise_map]
    rfl
  rw [hcs, h, List.pairwise_map]
  rfl

/-- In a list of distinct names a link is known by its name. -/
theorem link_eq_of_sameName {x y : Link} (hcs : Distinct cs) (hx : x ∈ cs.map Connection.link)
    (hy : y ∈ cs.map Connection.link) (h : sameName x.name y.name = true) : x = y := by
  obtain ⟨c, hc, rfl⟩ := List.mem_map.mp hx
  obtain ⟨d, hd, rfl⟩ := List.mem_map.mp hy
  by_contra hne
  have hcd : c ≠ d := fun h => hne (by rw [h])
  have : Std.Symm fun c d : Connection => sameName c.name d.name = false :=
    ⟨fun c d hfalse => (sameName_comm d.name c.name).trans hfalse⟩
  have hfalse := List.Pairwise.forall hcs hc hd hcd
  exact Bool.false_ne_true (hfalse.symm.trans h)

/-- Names of connections clash where those of elements do. -/
theorem Parsed.distinct_iff {w : Wired} (h : Parsed isImpl format ax w) :
    Distinct w.connections ↔ (numbered 0 ax.connections).Pairwise fun p q => ¬ ConnectionClash p q := by
  obtain ⟨elements, tops, hlinks, -, hgrown, -, hwired⟩ := h.stages
  rw [hwired.grown.distinct_iff, hgrown.distinct_iff, distinct_of_links hlinks, elementNames_iff]

/-- In a well-formed assembly all that is asked for is there. -/
theorem Parsed.mem_of_earlier {w : Wired} (h : Parsed isImpl format ax w) (hwell : WellFormed ax w) {l : Link}
    (hl : l ∈ earlierLinks (givenNames isImpl ax) ax i) : l ∈ w.connections.map Connection.link := by
  obtain ⟨elements, tops, hlinks, -, hgrown, htops, hwired⟩ := h.stages
  rcases List.mem_append.mp hl with hbase | hinst
  · refine hwired.grown.mem_of_mem ?_
    rcases List.mem_append.mp hbase with hmem | hmem
    · exact hgrown.mem_of_mem (hlinks ▸ hmem)
    · obtain ⟨ex, hex, rfl⟩ := List.mem_map.mp hmem
      exact htops ex hex
  · obtain ⟨⟨ix, k⟩, hmem, hlink⟩ := List.mem_flatMap.mp hinst
    have hk : ax.instances[k]? = some ix := by
      have htake := List.mem_zipIdx_iff_getElem?.mp hmem
      rw [List.getElem?_take] at htake
      split at htake
      · exact htake
      · exact nomatch htake
    rcases List.mem_append.mp hlink with hc | he
    · obtain ⟨s, hs, rfl⟩ := List.mem_map.mp hc
      have hmade := hwell.connect k ix s hk (Option.mem_toList.mp hs)
      rwa [h.names] at hmade
    · obtain ⟨e, he', rfl⟩ := List.mem_map.mp he
      exact hwell.external k ix e hk (Option.mem_toList.mp he')

/-- What the `connect` of an instance asks for is made, or something that was asked for before has its name. -/
theorem Parsed.connect {w : Wired} (h : Parsed isImpl format ax w) (hi : ax.instances[i]? = some ix)
    (hs : ix.connect = some s) :
    connectLink (givenNames isImpl ax) i ix s ∈ w.connections.map Connection.link ∨ ix.external.isSome = true ∧
      ∃ l ∈ earlierLinks (givenNames isImpl ax) ax i, l ∈ w.connections.map Connection.link ∧
        sameName l.name (connectLink (givenNames isImpl ax) i ix s).name = true := by
  obtain ⟨elements, tops, hlinks, -, hgrown, -, hwired⟩ := h.stages
  have hdone := hwired.connect i ix s hi hs
  rw [Nat.zero_add] at hdone
  refine hdone.imp_right fun ⟨hext, l, hl, hmade, hname⟩ => ⟨hext, l, ?_, hmade, hname⟩
  rcases List.mem_append.mp hl with hmem | hmem
  · exact List.mem_append_left _ (List.mem_append.mpr (hlinks ▸ hgrown.mem_or_asked hmem))
  · exact List.mem_append_right _ hmem

/-- **An assembly that is not refused is well formed exactly when its XML is sound.** -/
theorem Parsed.wellFormed_iff {w : Wired} (h : Parsed isImpl format ax w) :
    WellFormed ax w ↔ Sound isImpl format ax := by
  constructor
  · intro hwell
    refine ⟨h.components, h.ports, h.formats, ?_, h.distinct_iff.mp hwell.connections, ?_⟩
    · exact givenNames_nodup_iff.mp (h.names ▸ hwell.instances)
    · intro i ix s hi hs _ l hl hname
      have hconnect := hwell.connect i ix s hi hs
      rw [h.names] at hconnect
      exact link_eq_of_sameName hwell.connections (h.mem_of_earlier hwell hl) hconnect hname
  · intro hsound
    obtain ⟨elements, tops, -, hsymm, hgrown, -, hwired⟩ := h.stages
    refine ⟨h.names ▸ givenNames_nodup_iff.mpr hsound.instances, h.distinct_iff.mpr hsound.connections, ?_, ?_,
      hwired.grown.symmetric (hgrown.symmetric hsymm)⟩
    · intro i ix s hi hs
      rw [h.names]
      rcases h.connect hi hs with hmem | ⟨hext, l, hl, hmade, hname⟩
      · exact hmem
      · exact hsound.requests i ix s hi hs hext l hl hname ▸ hmade
    · intro i ix e hi he
      have hmem := hwired.external i ix e hi he
      rwa [Nat.zero_add] at hmem

/-- **When a parsed assembly is well formed**: for every XML, either there is an error, or the assembly meets what
is asked for exactly when the XML is sound. -/
theorem meets_iff (file2String : Text → Text × Option Text) (format : Text → Nat → Option Text) (isImpl : Bool)
    (ax : AssemblyElement) :
    Meets ax (parse file2String format isImpl ax) ↔
      (∃ problem, parse file2String format isImpl ax = refuse problem) ∨ Sound isImpl format ax := by
  have hsafe : Safe (¬ Sound isImpl format ax) (Parsed isImpl format ax) (parse file2String format isImpl ax) :=
    parse_safe
  cases hparse : parse file2String format isImpl ax with
  | ok w =>
    have hw : Parsed isImpl format ax w := hsafe.of_ok hparse
    have hnot : ¬ ∃ problem, (Except.ok w : Result Wired) = refuse problem := fun ⟨_, h⟩ => nomatch h
    rw [or_iff_right hnot]
    exact hw.wellFormed_iff
  | error failure =>
    cases failure with
    | refused problem => exact iff_of_true trivial (Or.inl ⟨problem, rfl⟩)
    | crashed =>
      refine iff_of_false id ?_
      rintro (⟨problem, h⟩ | hsound)
      · exact nomatch h
      · exact hsafe.of_error hparse rfl hsound

/-! ## Three assemblies -/

/-- An instance of the component `c`. -/
def instanceOfC (name : Text) (connect external : Option Text) : InstanceElement :=
  { component := some [99], name := some name, connect, external }

/-- The parser without files and with formats that have no conversions. -/
def parsePlain (ax : AssemblyElement) : Result Wired := parse (fun s => (s, none)) (fun s _ => some s) false ax

/-- Two instances with the name `a`. -/
def twins : AssemblyElement := { instances := [instanceOfC [97] none none, instanceOfC [97] none none] }

/-- A connection of three ports. -/
def threePorts : AssemblyElement :=
  { instances := [instanceOfC [97] none none]
    connections := [{ ports := List.replicate 3 { inst := some [97], name := some [112] } }] }

/-- The instance `a` asks for a connection to `b` and for an external, and there is a connection `a.output`. -/
def taken : AssemblyElement :=
  { instances := [instanceOfC [97] (some [98]) (some [120]), instanceOfC [98] none none]
    connections := [{ name := some (portConnectionName [97] none)
                      ports := [{ inst := some [98], name := some [112] }] }] }

/-- Without the connection of that name both are made. -/
example : (parsePlain { taken with connections := [] }).toOption.map Wired.connections = some
    [{ name := portConnectionName [97] none
       ports := [⟨[], ⟨true, false, true⟩, 1, some ⟨0, 1⟩⟩, ⟨[], ⟨false, false, true⟩, 0, some ⟨0, 0⟩⟩] },
     { name := [120], externals := [{ name := [120] }], ports := [⟨[120], {}, 0, none⟩] }] := by
  rfl

/-- Names of instances coincide, an assertion fails, and a connection that is asked for is missing. -/
theorem defects_not_met : ¬ Meets twins (parsePlain twins) ∧ ¬ Meets threePorts (parsePlain threePorts) ∧
    ¬ Meets taken (parsePlain taken) := by
  refine ⟨fun h => ?_, fun h => h, fun h => ?_⟩
  · have hnames : ([[97], [97]] : List Text).Nodup := WellFormed.instances h
    exact absurd hnames (by decide)
  · have hmem : connectLink [[97], [98]] 0 (instanceOfC [97] (some [98]) (some [120])) [98] ∈
        [(⟨portConnectionName [97] none, [(1, [112])]⟩ : Link), ⟨[120], [(0, [120])]⟩] :=
      WellFormed.connect h 0 _ [98] rfl rfl
    exact absurd hmem (by decide)

end OpenCpi.Util.Wiring
