import Mathlib.Logic.Relation
import OpenCpi.Properties.ClockMapping

/-!
# Clock domains

Where the mapping would need a clock of its own for a connection, it takes the one that was added last, or goes to
an external port that does not exist, or leaves the external port without the clock. What is left is one clock: an
assembly comes out right when all its connected clocks belong together.
-/

namespace OpenCpi.HdlClocks

open Infra

/-! ## Linked clocks -/

/-- Ports on one connection have these clocks. -/
def Joined (a : Assembly) (x y : ClockRef) : Prop :=
  ∃ c ∈ a.connections, x ∈ clocksOf a c ∧ y ∈ clocksOf a c

/-- A chain of connections, through ports that share a worker clock. -/
def Linked (a : Assembly) : ClockRef → ClockRef → Prop := Relation.ReflTransGen (Joined a)

/-- The clock of a WCI port, or the `wci_Clk` of a worker without control. -/
def IsWci (a : Assembly) (x : ClockRef) : Prop :=
  (∃ p ∈ (a.worker x.1).ports, p.type = .wci ∧ p.clock = x.2) ∨
    ((a.worker x.1).noControl = true ∧ (a.clock x).wci = true)

instance (a : Assembly) (x : ClockRef) : Decidable (IsWci a x) := inferInstanceAs (Decidable (_ ∨ _))

/-- The chain contains a WCI clock. -/
def LinkedToWci (a : Assembly) (x : ClockRef) : Prop := ∃ z, Linked a x z ∧ IsWci a z

/-- Clocks that may be one clock of the assembly. -/
def Together (a : Assembly) (x y : ClockRef) : Prop := Linked a x y ∨ (LinkedToWci a x ∧ LinkedToWci a y)

/-- The clocks follow the connections. -/
structure Clocked (a : Assembly) (p : Parsed) : Prop where
  conns : a.connections <+: p.conns.map (·.desc)
  follows : ∀ c ∈ p.conns, ∀ ref ∈ c.desc.ports, (a.port ref).isData = true →
    ∃ k, c.clock = some k ∧ p.map (a.clockOf ref) = some k
  separate : ∀ x y k, p.map x = some k → p.map y = some k → Together a x y
  externals : ∀ c ∈ p.conns, c.desc.external = true → c.extClock = c.clock

/-- **The parser reports an error, or the clocks follow the connections.** -/
def Right (a : Assembly) : Except Fault Parsed → Prop
  | .ok p => Clocked a p
  | .error e => IsMessage e

/-! ## When it holds -/

/-- **When the clocks follow the connections**: no connection needs a clock of its own, the clocks of ports that
are made external are mapped, and all connected clocks may be one clock. -/
structure OneClock (a : Assembly) : Prop where
  fed : Fed a
  externals : ExternalsMapped a
  domain : ∀ x y, Connected a x → Connected a y → Together a x y

variable {a : Assembly} {p : Parsed}

theorem clocked_desc (c : Conn) : (clocked a c).desc = c.desc := by
  unfold clocked
  split <;> rfl

theorem mappedConns_descs (a : Assembly) : (mappedConns a).map (·.desc) = allConns a := by
  rw [mappedConns, List.map_map, ← wciDone_descs]
  exact List.map_congr_left fun c _ => clocked_desc c

/-- A connection of data ports has the WCI clock, and they are connected. -/
theorem mappedConns_follow {c : Conn} (hc : c ∈ mappedConns a) {ref : PortRef} (href : ref ∈ c.desc.ports)
    (hdata : (a.port ref).isData = true) : c.clock = some 0 ∧ Connected a (a.clockOf ref) := by
  have hdesc : c.desc ∈ allConns a := by
    rw [← mappedConns_descs]
    exact List.mem_map_of_mem hc
  obtain ⟨c', -, rfl⟩ := List.mem_map.mp hc
  have hports : ref ∈ dataPorts a (clocked a c').desc := List.mem_filter.mpr ⟨href, hdata⟩
  refine ⟨?_, .inr ⟨_, hdesc, List.mem_map_of_mem hports⟩⟩
  rw [clocked_desc] at hports
  rw [clocked, if_neg (List.ne_nil_of_mem hports)]

/-- What the parser describes follows the connections if and only if all connected clocks may be one. -/
theorem Described.clocked_iff (h : Described a (mappedConns a) p) :
    Clocked a p ↔ ∀ x y, Connected a x → Connected a y → Together a x y := by
  obtain ⟨g, hmap, hfilled⟩ := h.filled
  obtain ⟨extra, hconns, hextra⟩ := h.conns
  constructor
  · intro hclocked x y hx hy
    exact hclocked.separate x y 0 (hmap ▸ hfilled.connected x hx) (hmap ▸ hfilled.connected y hy)
  · intro hdomain
    refine ⟨?_, fun c hc ref href hdata => ?_, fun x y k hx hy => ?_, fun c hc hext => ?_⟩
    · rw [hconns, List.map_append, mappedConns_descs, allConns, List.append_assoc]
      exact List.prefix_append _ _
    · rw [hconns] at hc
      rcases List.mem_append.mp hc with hc | hc
      · obtain ⟨hclock, hconnected⟩ := mappedConns_follow hc href hdata
        exact ⟨0, hclock, hmap ▸ hfilled.connected _ hconnected⟩
      · obtain ⟨ref', k, rfl, hk⟩ := hextra c hc
        obtain rfl := List.mem_singleton.mp href
        exact ⟨k, rfl, hk⟩
    · rw [hmap] at hx hy
      rcases (hfilled.mapped x k hx).2 with ⟨rfl, hx'⟩ | ⟨-, hunique⟩
      · rcases (hfilled.mapped y 0 hy).2 with ⟨-, hy'⟩ | ⟨-, hunique⟩
        · exact hdomain x y hx' hy'
        · exact hunique x hx ▸ .inl .refl
      · exact hunique y hy ▸ .inl .refl
    · have hcheck := List.all_eq_true.mp h.checked c hc
      unfold checkExternal at hcheck
      rw [hext, Bool.not_true, Bool.false_or, beq_iff_eq] at hcheck
      exact hcheck

/-- **What the mapping of the clocks gives follows the connections** if and only if they are one clock. -/
theorem mapClocks_clocked (a : Assembly) : Yields (fun p => Clocked a p ↔ OneClock a)
    (fun e => IsMessage e ∨ ¬OneClock a) (mapClocks a) := by
  cases hmap : mapClocks a with
  | ok p =>
    have hfed := fed_of_mapClocks hmap
    have hdescribed := (mapClocks_yields hfed).of_ok hmap
    exact hdescribed.clocked_iff.trans ⟨fun hdomain => ⟨hfed, hdescribed.externals, hdomain⟩, OneClock.domain⟩
  | error e =>
    by_cases hfed : Fed a
    · exact ((mapClocks_yields hfed).of_error hmap).imp id fun hnone hone => hnone.2 hone.externals
    · exact .inr fun hone => hfed hone.fed

/-- All clocks on connections are WCI clocks. -/
theorem oneClock_of_wci (huses : ∀ c ∈ allConns a, uses a c = true)
    (hexternals : ∀ ref ∈ instancePorts a, externalized a ref = false)
    (hwci : ∀ c ∈ allConns a, ∀ x ∈ clocksOf a c, IsWci a x) : OneClock a := by
  have hconnected : ∀ x, Connected a x → IsWci a x := by
    rintro x ((⟨-, hslave⟩ | ⟨c, hc, -, hx⟩) | ⟨c, hc, hx⟩)
    · unfold Worker.slaveClock at hslave
      split at hslave
      · exact nomatch hslave
      · next p ports hports =>
        split at hslave
        · next hport =>
          exact .inl ⟨p, hports ▸ List.mem_cons_self, hport.1, Option.some.inj hslave⟩
        · exact nomatch hslave
    · exact hwci c hc x hx
    · obtain ⟨ref, href, rfl⟩ := List.mem_map.mp hx
      exact hwci c hc _ (List.mem_map_of_mem (List.mem_filter.mp href).1)
  exact ⟨fed_of_uses huses, externalsMapped_of_none hexternals, fun x y hx hy =>
    .inr ⟨⟨x, .refl, hconnected x hx⟩, ⟨y, .refl, hconnected y hy⟩⟩⟩

end OpenCpi.HdlClocks
