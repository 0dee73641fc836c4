import OpenCpi.Hdl.Assembly
import OpenCpi.Properties.ClockDomains
import OpenCpi.Properties.PortElements

/-!
# Clocks of a parsed assembly

Before clocks are mapped, the parser may fail at an assertion: at the third port of a connection, or at the second
one where there is an external port. So a connection is a pair of ports, or a port that is external. Where it comes
to the clocks, the connections are those of the description.
-/

namespace OpenCpi.HdlAssy

open Infra
open HdlAssembly (ConnDesc Workers found width Fails Built Matches)
open HdlClocks (Fault Parsed Clocked OneClock IsMessage mapClocks)

/-! ## When it holds -/

/-- The ports that a connection describes. -/
def resolve (w : Workers) (conn : ConnDesc) : HdlClocks.Connection :=
  ⟨conn.ports.filterMap (found w), !conn.externals.isEmpty⟩

/-- The instances with the clocks of their workers, and what is connected. -/
def Assembly.connected (a : Assembly) : HdlClocks.Assembly :=
  ⟨a.instances.map Worker.clocked, a.connections.map (resolve a.workers)⟩

/-- **When the clocks follow the connections**: a connection has one port or two, only one if it has an external
one, which has a count of its own only if that is not below the count of the connection; no port is connected at
its count; each worker has a port; and one clock is enough. -/
structure Orderly (a : Assembly) : Prop where
  pairs : ∀ conn ∈ a.connections, conn.ports.length ≤ 2
  single : ∀ conn ∈ a.connections, conn.externals ≠ [] → conn.ports.length = 1
  room : ∀ conn ∈ a.connections, ∀ ext ∈ conn.externals, ext.count ≠ 0 → width a.workers conn ≤ ext.count
  counts : ∀ conn ∈ a.connections, ∀ ap ∈ conn.ports, ∀ ref, found a.workers ap = some ref →
    (a.workers.port ref).count ≠ ap.index
  workers : ∀ w ∈ a.instances, w.ports ≠ []
  clocks : OneClock a.connected

variable {a : Assembly} {b : HdlAssembly.Assembly}

/-! ## The steps -/

theorem connections_eq {w : Workers} {conns : List ConnDesc} (h : Built w conns b) :
    b.connections.map connectionOf = conns.map (resolve w) := by
  have hsame : ∀ {conn : ConnDesc} {c : HdlAssembly.Connection}, Matches w b.externals conn c →
      connectionOf c = resolve w conn := fun {conn c} hmatches => by
    rw [connectionOf, hmatches.refs, hmatches.external]
    rfl
  have hall : ∀ {conns : List ConnDesc} {cs : List HdlAssembly.Connection},
      List.Forall₂ (Matches w b.externals) conns cs → cs.map connectionOf = conns.map (resolve w) := by
    intro conns cs hforall
    induction hforall with
    | nil => rfl
    | cons hmatches _ ih => rw [List.map_cons, List.map_cons, hsame hmatches, ih]
  exact hall h.connections

theorem checkPorts_yields (conn : ConnDesc) : Yields (fun _ => conn.ports.length ≤ 2)
    (fun e => IsMessage e ∨ 2 < conn.ports.length) (checkPorts conn) := by
  unfold checkPorts
  split
  · exact .inl trivial
  · split
    · next hlt => exact .inr hlt
    · next hle => exact Nat.not_lt.mp hle

/-- The fault of a part that fails only for a reason. -/
theorem faultOf_fails {p q : Prop} {e : HdlAssembly.Fault} (h : Fails p q e) : IsMessage (faultOf e) ∨ p ∨ q := by
  cases e with
  | message text => exact .inl trivial
  | assertion => exact .inr (.inl h)
  | outOfRange => exact .inr (.inr h)

theorem connectControl_yields (hb : Built a.workers a.connections b) {i : Worker × Nat}
    (hi : i ∈ a.instances.zipIdx) : Yields (fun _ => i.1.ports ≠ []) (fun e => IsMessage e ∨ i.1.ports = [])
      (connectControl b i) := by
  obtain ⟨w, n⟩ := i
  have hw : a.instances[n]? = some w := List.mem_zipIdx_iff_getElem?.mp hi
  unfold connectControl
  dsimp only
  cases hports : w.ports with
  | nil => exact .inr rfl
  | cons p ports =>
    dsimp only
    split
    · -- the port has an element, as its count is positive
      have hport : a.workers.port (n, 0) = p.attached := by
        have hworker : a.workers.getD n [] = w.ports.map Port.attached := by
          unfold Assembly.workers
          rw [List.getD_eq_getElem?_getD, List.getElem?_map, hw]
          rfl
        unfold HdlAssembly.Workers.port
        rw [hworker, hports]
        rfl
      have hlength : 1 ≤ (b.ports (n, 0)).connected.length := by
        rw [hb.length, hport]
        exact Nat.one_le_iff_ne_zero.mpr fun hzero => p.positive (UInt64.toNat_inj.mp hzero)
      have hattach : Yields (fun _ => True) (fun e => IsMessage e ∨ p :: ports = [])
          (((b.ports (n, 0)).attach 1 0).mapError faultOf) := by
        refine ((HdlAssembly.attach_yields _ 1 0).imp (fun _ _ => trivial) fun _ he => he).mapError fun e he => ?_
        rcases faultOf_fails he with hmessage | hzero | ⟨-, hlt⟩
        · exact .inl hmessage
        · exact absurd hzero (by decide)
        · exact absurd hlt (Nat.not_lt.mpr hlength)
      exact hattach.bind fun _ _ => List.cons_ne_nil _ _
    · exact List.cons_ne_nil _ _

/-! ## The parser -/

theorem not_orderly_of_unbuilt {conn : ConnDesc} (hconn : conn ∈ a.connections)
    (h : HdlAssembly.Unbuilt a.workers conn) : ¬Orderly a := by
  intro horderly
  rcases h with ⟨hexternals, hlength⟩ | ⟨ap, hap, ref, hfound, hcount⟩
  · exact hlength (horderly.single conn hconn hexternals)
  · exact horderly.counts conn hconn ap hap ref hfound hcount

theorem not_orderly_of_overrun {conn : ConnDesc} (hconn : conn ∈ a.connections)
    (h : HdlAssembly.Overrun a.workers conn) : ¬Orderly a := by
  intro horderly
  obtain ⟨ext, hext, hcount, hlt⟩ := h
  exact absurd hlt (UInt64.not_lt.mpr (horderly.room conn hconn ext hext hcount))

/-- The parser reports an error, or fails because the assembly is not orderly; or it tells from the clocks. -/
theorem parse_yields (a : Assembly) : Yields (fun p => Clocked a.connected p ↔ Orderly a)
    (fun e => IsMessage e ∨ ¬Orderly a) (parseHdlAssy a) := by
  unfold parseHdlAssy
  refine (Yields.forM (Q := fun conn => conn.ports.length ≤ 2) fun conn hconn => ?_).bind fun _ hpairs => ?_
  · refine (checkPorts_yields conn).imp (fun _ h => h) fun e he => he.imp id fun hlt horderly => ?_
    exact absurd (horderly.pairs conn hconn) (Nat.not_le.mpr hlt)
  refine ((HdlAssembly.parseAssy_yields a.workers a.connections).mapError fun e he => ?_).bind fun b hb => ?_
  · refine (faultOf_fails he).imp id ?_
    rintro (⟨conn, hconn, hunbuilt⟩ | ⟨conn, hconn, hover⟩)
    · exact not_orderly_of_unbuilt hconn hunbuilt
    · exact not_orderly_of_overrun hconn hover
  refine (Yields.forM (Q := fun i : Worker × Nat => i.1.ports ≠ []) fun i hi => ?_).bind fun _ hworkers => ?_
  · refine (connectControl_yields hb hi).imp (fun _ h => h) fun e he => he.imp id fun hnone horderly => ?_
    exact horderly.workers i.1 (List.fst_mem_of_mem_zipIdx hi) hnone
  rw [connections_eq hb]
  refine (HdlClocks.mapClocks_clocked a.connected).imp (fun p hp => hp.trans ⟨fun hone => ?_, fun h => h.clocks⟩)
    fun e he => he.imp id fun hnot horderly => hnot horderly.clocks
  have hmatches : ∀ conn ∈ a.connections, ∃ c, Matches a.workers b.externals conn c := fun conn hconn =>
    let ⟨c, _, hc⟩ := HdlAssembly.exists_of_mem_right hb.connections.flip hconn
    ⟨c, hc⟩
  refine ⟨hpairs, fun conn hconn => ?_, fun conn hconn => ?_, fun conn hconn ap hap ref hfound hcount => ?_,
    fun w hw => ?_, hone⟩
  · obtain ⟨c, hc⟩ := hmatches conn hconn
    exact hc.single
  · obtain ⟨c, hc⟩ := hmatches conn hconn
    exact hc.room
  · obtain ⟨c, hc⟩ := hmatches conn hconn
    have hle := HdlAssembly.width_le hap hfound
    rw [hcount, UInt64.sub_self] at hle
    exact hc.positive (UInt64.le_zero_iff.mp hle)
  · obtain ⟨n, hn⟩ := List.mem_iff_getElem?.mp hw
    exact hworkers (w, n) (List.mem_zipIdx_iff_getElem?.mpr hn)

def control : Port :=
  ⟨"ctl", .wci, 1, false, false, false, false, false, 0, by decide⟩

/-- A data port on a clock of the worker. -/
def data (name : String) (isProducer : Bool) (clock : Nat) : Port :=
  ⟨name, .wsi, 1, true, isProducer, false, false, isProducer, clock, by decide⟩

/-- The data ports use the WCI clock. -/
def generator : Worker := ⟨false, [control, data "out" true 0], [⟨true, false⟩]⟩

def filter : Worker := ⟨false, [control, data "in" false 0, data "out" true 0], [⟨true, false⟩]⟩

/-- The data ports have their own clocks. -/
def source : Worker := ⟨false, [control, data "out" true 1], [⟨true, false⟩, ⟨true, false⟩]⟩

def sink : Worker := ⟨false, [control, data "in" false 1], [⟨true, false⟩, ⟨true, false⟩]⟩

/-- A port by its name, with the role to be found out. -/
def named (inst : Nat) (name : String) : HdlAssembly.ConnPort := ⟨inst, name, 0, ⟨false, false, false⟩⟩

def outside (name : String) : HdlAssembly.External := ⟨name, 0, 1, ⟨false, false, false⟩⟩

/-- A generator, and a filter whose output is external. -/
def chain : Assembly :=
  ⟨[generator, filter], [⟨"conn0", [named 0 "out", named 1 "in"], []⟩, ⟨"out", [named 1 "out"], [outside "out"]⟩]⟩

/-- Two ports with their own clocks are connected. -/
def ownPair : Assembly := ⟨[source, sink], [⟨"conn0", [named 0 "out", named 1 "in"], []⟩]⟩

/-- A port with its own clock is external. -/
def ownOutside : Assembly := ⟨[source], [⟨"out", [named 0 "out"], [outside "out"]⟩]⟩

/-- A connection of two ports has an external one. -/
def pairOutside : Assembly :=
  ⟨[generator, filter], [⟨"conn0", [named 0 "out", named 1 "in"], [outside "conn0"]⟩,
    ⟨"out", [named 1 "out"], [outside "out"]⟩]⟩

end OpenCpi.HdlAssy
