import Mathlib.Data.List.Forall2
import OpenCpi.Properties.ClockDomains

/-!
# Clocks and the order of connections

What is mapped is the same in any order of the connections, since one clock is all there is. Whether a connection
needs a clock of its own depends on the order: the clock of its first data port may be mapped by a connection before
it, or only by one behind.
-/

namespace OpenCpi.HdlClocks

open Infra

/-! ## Orders of the connections -/

/-- Two assemblies that differ in the order of their connections, and of the ports of each. -/
structure Reordered (a a' : Assembly) : Prop where
  instances : a'.instances = a.instances
  connections : ∃ l, a.connections.Perm l ∧
    List.Forall₂ (fun c c' => c.ports.Perm c'.ports ∧ c.external = c'.external) l a'.connections

/-- Two maps put the same worker clocks together. -/
def SamePartition (m m' : ClockRef → Option Nat) : Prop :=
  ∀ x y, (∃ k, m x = some k ∧ m y = some k) ↔ ∃ k, m' x = some k ∧ m' y = some k

/-- **The parser reports an error for both, or succeeds for both with the same partition.** -/
def Agree : Except Fault Parsed → Except Fault Parsed → Prop
  | .ok p, .ok p' => SamePartition p.map p'.map
  | .error e, .error e' => IsMessage e ∧ IsMessage e'
  | _, _ => False

/-! ## What does not depend on the order -/

variable {a a' : Assembly} {g : Clocks} {x : ClockRef}

/-- Each connection is one of the other assembly, up to the order of its ports. -/
def CoveredBy (a a' : Assembly) : Prop :=
  ∀ c ∈ a.connections, ∃ c' ∈ a'.connections, c.ports.Perm c'.ports

theorem Reordered.covered (h : Reordered a a') : CoveredBy a a' ∧ CoveredBy a' a := by
  obtain ⟨l, hperm, hforall⟩ := h.connections
  constructor
  · intro c hc
    obtain ⟨n, hn, rfl⟩ := List.mem_iff_getElem.mp (hperm.mem_iff.mp hc)
    have hn' : n < a'.connections.length := hforall.length_eq ▸ hn
    exact ⟨a'.connections[n], List.getElem_mem hn', (hforall.get hn hn').1⟩
  · intro c' hc'
    obtain ⟨n, hn', rfl⟩ := List.mem_iff_getElem.mp hc'
    have hn : n < l.length := hforall.length_eq ▸ hn'
    exact ⟨l[n], hperm.mem_iff.mpr (List.getElem_mem hn), (hforall.get hn hn').1.symm⟩

/-- The functions on the ports of the workers look at the instances only. -/
theorem port_congr (h : a'.instances = a.instances) : a'.port = a.port ∧ a'.clockOf = a.clockOf ∧
    usesWci a' = usesWci a ∧ wciConnections a' = wciConnections a ∧ instancePorts a' = instancePorts a ∧
      controlled a' = controlled a ∧ mapUnconnected a' = mapUnconnected a ∧
        ∀ i, (a'.worker i).slaveClock = (a.worker i).slaveClock := by
  obtain ⟨instances, connections⟩ := a
  obtain ⟨instances', connections'⟩ := a'
  obtain rfl : instances' = instances := h
  exact ⟨rfl, rfl, rfl, rfl, rfl, rfl, rfl, fun _ => rfl⟩

theorem covered_allConns (h : a'.instances = a.instances) (hcovered : CoveredBy a a') {c : Connection}
    (hc : c ∈ allConns a) : ∃ c' ∈ allConns a', c.ports.Perm c'.ports := by
  rcases List.mem_append.mp hc with hc | hc
  · obtain ⟨c', hc', hperm⟩ := hcovered c hc
    exact ⟨c', List.mem_append_left _ hc', hperm⟩
  · refine ⟨c, List.mem_append_right _ ?_, .refl _⟩
    rwa [(port_congr h).2.2.2.1]

theorem connected_mono (h : a'.instances = a.instances) (hcovered : CoveredBy a a') (hx : Connected a x) :
    Connected a' x := by
  obtain ⟨hport, hclock, huses, -, -, -, -, hslave⟩ := port_congr h
  rcases hx with (⟨hi, hx⟩ | ⟨c, hc, hc_uses, hx⟩) | ⟨c, hc, hx⟩
  · exact .inl (.inl ⟨h ▸ hi, (hslave x.1).trans hx⟩)
  · obtain ⟨c', hc', hperm⟩ := covered_allConns h hcovered hc
    refine .inl (.inr ⟨c', hc', ?_, ?_⟩)
    · rw [uses, huses, ← hperm.any_eq]
      exact hc_uses
    · rw [clocksOf, hclock]
      exact (hperm.map a.clockOf).mem_iff.mp hx
  · obtain ⟨c', hc', hperm⟩ := covered_allConns h hcovered hc
    refine .inr ⟨c', hc', ?_⟩
    rw [dataClocks, dataPorts, hclock, hport]
    exact ((hperm.filter _).map a.clockOf).mem_iff.mp hx

theorem Reordered.connected_iff (h : Reordered a a') (x : ClockRef) : Connected a x ↔ Connected a' x :=
  ⟨connected_mono h.instances h.covered.1, connected_mono h.instances.symm h.covered.2⟩

theorem unattached_mono {ref : PortRef} (hcovered : CoveredBy a' a) (h : unattached a ref = true) :
    unattached a' ref = true := by
  refine List.all_eq_true.mpr fun c' hc' => ?_
  obtain ⟨c, hc, hperm⟩ := hcovered c' hc'
  have hnot := List.all_eq_true.mp h c hc
  rwa [hperm.contains_eq]

theorem Reordered.unattached_eq (h : Reordered a a') : unattached a' = unattached a := by
  funext ref
  exact Bool.eq_iff_iff.mpr ⟨unattached_mono h.covered.1, unattached_mono h.covered.2⟩

theorem Reordered.externalized_eq (h : Reordered a a') : externalized a' = externalized a := by
  funext ref
  unfold externalized
  rw [h.unattached_eq, (port_congr h.instances).1]

theorem Reordered.processPort_eq (h : Reordered a a') : processPort a' = processPort a := by
  funext g conns ref
  unfold processPort externalizePort
  rw [h.externalized_eq, (port_congr h.instances).1, (port_congr h.instances).2.1]

/-- The passes behind the connections are the same. -/
theorem Reordered.finish_eq (h : Reordered a a') : finish a' = finish a := by
  unfold finish
  obtain ⟨-, -, -, -, hports, -, hunconnected, -⟩ := port_congr h.instances
  rw [h.processPort_eq, hports, hunconnected]

theorem Reordered.attachedTwice_eq (h : Reordered a a') : attachedTwice a' = attachedTwice a := by
  unfold attachedTwice
  obtain ⟨-, -, -, -, -, hcontrolled, -, -⟩ := port_congr h.instances
  rw [h.unattached_eq, hcontrolled]

/-! ## The connections that are added -/

theorem processPort_append (a : Assembly) (g : Clocks) (conns extra : List Conn) (ref : PortRef) :
    processPort a g (conns ++ extra) ref = (processPort a g extra ref).map (conns ++ ·) := by
  unfold processPort
  split
  · rfl
  · split
    · cases externalizePort a g ref with
      | error e => rfl
      | ok c => exact congrArg Except.ok (List.append_assoc conns extra [c])
    · rfl

theorem processPorts_append (a : Assembly) (g : Clocks) (conns extra : List Conn) (refs : List PortRef) :
    refs.foldlM (processPort a g) (conns ++ extra) = (refs.foldlM (processPort a g) extra).map (conns ++ ·) := by
  induction refs generalizing extra with
  | nil => rfl
  | cons ref refs ih =>
    rw [List.foldlM_cons, List.foldlM_cons, processPort_append]
    cases processPort a g extra ref with
    | error e => rfl
    | ok extra' => exact ih extra'

/-- The maps do not depend on the connections, as long as their external ports have their clocks. -/
theorem finish_map (a : Assembly) (g : Clocks) {conns : List Conn} (hcheck : conns.all checkExternal = true) :
    (finish a g conns).map (·.map) = (finish a g []).map (·.map) := by
  unfold finish
  cases (instancePorts a).foldlM (mapUnconnected a) g with
  | error e => rfl
  | ok g' =>
    show Except.map _ ((instancePorts a).foldlM (processPort a g') conns >>= _) =
      Except.map _ ((instancePorts a).foldlM (processPort a g') [] >>= _)
    have happend := processPorts_append a g' conns [] (instancePorts a)
    rw [List.append_nil] at happend
    rw [happend]
    cases (instancePorts a).foldlM (processPort a g') [] with
    | error e => rfl
    | ok extra =>
      show Except.map _ (if (conns ++ extra).all checkExternal = true then _ else _) =
        Except.map _ (if extra.all checkExternal = true then _ else _)
      rw [List.all_append, hcheck, Bool.true_and]
      split <;> rfl

/-! ## The order -/

/-- Where no connection needs a clock of its own, the order makes no difference. -/
theorem Reordered.parse_map (h : Reordered a a') (hfed : Fed a) (hfed' : Fed a') :
    (parseHdlAssy a).map (·.map) = (parseHdlAssy a').map (·.map) := by
  rw [parseHdlAssy_eq, parseHdlAssy_eq, h.attachedTwice_eq]
  split
  · rfl
  · obtain ⟨g, hg, hstanding⟩ := overConns_of_fed hfed
    obtain ⟨g', hg', hstanding'⟩ := overConns_of_fed hfed'
    have hsame : g = g' := by
      obtain ⟨n, clk, map⟩ := g
      obtain ⟨n', clk', map'⟩ := g'
      obtain rfl : n = n' := hstanding.nClocks.trans hstanding'.nClocks.symm
      obtain rfl : clk = clk' := hstanding.clk.trans hstanding'.clk.symm
      obtain rfl : map = map' := hstanding.map.unique (hstanding'.map.congr fun x => (h.connected_iff x).symm)
      rfl
    rw [mapClocks_eq, mapClocks_eq, hg, hg', hsame]
    show (finish a g' (mappedConns a)).map _ = (finish a' g' (mappedConns a')).map _
    rw [finish_map a g' (mappedConns_checked hfed), finish_map a' g' (mappedConns_checked hfed'), h.finish_eq]

/-- The data port uses the WCI clock. -/
def shared : Worker := ⟨false, [⟨.wci, false, false, 0⟩, ⟨.wsi, true, true, 0⟩], [⟨true, false⟩]⟩

/-- The data port has its own clock. -/
def independent : Worker := ⟨false, [⟨.wci, false, false, 0⟩, ⟨.wsi, true, true, 1⟩], [⟨true, false⟩, ⟨true, false⟩]⟩

def sharedPair : Assembly := ⟨[shared, shared], [⟨[(0, 1), (1, 1)], false⟩]⟩

theorem reordered_ports {instances : List Worker} {l r : List Connection} {ports ports' : List PortRef}
    {external : Bool} (h : ports.Perm ports') :
    Reordered ⟨instances, l ++ ⟨ports, external⟩ :: r⟩ ⟨instances, l ++ ⟨ports', external⟩ :: r⟩ where
  instances := rfl
  connections := by
    have hsame : ∀ l : List Connection, List.Forall₂ (fun c c' => c.ports.Perm c'.ports ∧ c.external = c'.external) l l :=
      fun l => List.forall₂_same.mpr fun c _ => ⟨.refl _, rfl⟩
    exact ⟨_, .refl _, List.rel_append (hsame l) (.cons ⟨h, rfl⟩ (hsame r))⟩

def sharedPairBack : Assembly := ⟨[shared, shared], [⟨[(1, 1), (0, 1)], false⟩]⟩

/-- Two data ports share a clock that is not the WCI clock. -/
def relay : Worker :=
  ⟨false, [⟨.wci, false, false, 0⟩, ⟨.wsi, true, false, 1⟩, ⟨.wsi, true, true, 1⟩], [⟨true, false⟩, ⟨true, false⟩]⟩

/-- A worker on the WCI clock, the relay behind it, and a worker with its own clock; the last connection lists the
relay first. -/
def relayFirst : Assembly := ⟨[shared, relay, independent], [⟨[(0, 1), (1, 1)], false⟩, ⟨[(1, 2), (2, 1)], false⟩]⟩

def relayLast : Assembly := ⟨[shared, relay, independent], [⟨[(0, 1), (1, 1)], false⟩, ⟨[(2, 1), (1, 2)], false⟩]⟩

end OpenCpi.HdlClocks
