import Mathlib.Data.List.Basic
import OpenCpi.Hdl.Clocks
import OpenCpi.Infra.Yields

/-!
# The passes of the clock mapping

As long as no pass has to make a clock, there is one clock in the assembly, that of its WCI port. What is mapped
to it is said without the passes: the clocks of connections that use the WCI clock, and of the data ports that are
connected.
-/

namespace OpenCpi.HdlClocks

open Infra

/-! ## What is mapped -/

def uses (a : Assembly) (c : Connection) : Bool := c.ports.any (usesWci a)

def clocksOf (a : Assembly) (c : Connection) : List ClockRef := c.ports.map a.clockOf

/-- The data ports of a connection, those that `mapPort` looks at. -/
def dataPorts (a : Assembly) (c : Connection) : List PortRef := c.ports.filter fun ref => (a.port ref).isData

def dataClocks (a : Assembly) (c : Connection) : List ClockRef := (dataPorts a c).map a.clockOf

/-- The connections of the assembly, and those to its WCI port. -/
def allConns (a : Assembly) : List Connection := a.connections ++ wciConnections a

/-- The clock of a WCI slave, or of a port of a connection that uses the WCI clock. -/
def OnWci (a : Assembly) (x : ClockRef) : Prop :=
  (x.1 < a.instances.length ∧ (a.worker x.1).slaveClock = some x.2) ∨
    ∃ c ∈ allConns a, uses a c = true ∧ x ∈ clocksOf a c

/-- A clock that is mapped when the connections `done` are. -/
def MappedBy (a : Assembly) (done : List Connection) (x : ClockRef) : Prop :=
  OnWci a x ∨ ∃ c ∈ done, x ∈ dataClocks a c

/-- A connection can be mapped without another clock: its first data port has a clock that is mapped, or the port
is not the owner of its clock; and there is no external port. -/
def FedAt (a : Assembly) (done : List Connection) (c : Connection) : Prop :=
  uses a c = false → ∀ ref, (dataPorts a c).head? = some ref →
    c.external = false ∧ ((a.clock (a.clockOf ref)).owned = false ∨ MappedBy a done (a.clockOf ref))

/-- **No connection needs a clock of its own.** -/
def Fed (a : Assembly) : Prop :=
  ∀ before c after, allConns a = before ++ c :: after → FedAt a before c

/-- The map takes some clocks to the WCI clock, and no others. -/
def MapIs (m : ClockRef → Option Nat) (P : ClockRef → Prop) : Prop :=
  ∀ x, (P x → m x = some 0) ∧ (¬P x → m x = none)

theorem MapIs.congr {m : ClockRef → Option Nat} {P Q : ClockRef → Prop} (h : MapIs m P) (hPQ : ∀ x, P x ↔ Q x) :
    MapIs m Q := fun x =>
  ⟨fun hQ => (h x).1 ((hPQ x).mpr hQ), fun hQ => (h x).2 fun hP => hQ ((hPQ x).mp hP)⟩

/-- A map of this kind is known from what it takes. -/
theorem MapIs.unique {m m' : ClockRef → Option Nat} {P : ClockRef → Prop} (h : MapIs m P) (h' : MapIs m' P) :
    m = m' := by
  funext x
  by_cases hP : P x
  · rw [(h x).1 hP, (h' x).1 hP]
  · rw [(h x).2 hP, (h' x).2 hP]

/-! ## The WCI pass -/

variable {a : Assembly} {g : Clocks} {x : ClockRef} {P : ClockRef → Prop}

theorem MapIs.set (h : MapIs g.map P) (x : ClockRef) : MapIs (g.set x 0).map (fun y => P y ∨ y = x) := by
  intro y
  show (_ → Function.update g.map x (some 0) y = some 0) ∧ (_ → Function.update g.map x (some 0) y = none)
  by_cases hy : y = x
  · rw [hy, Function.update_self]
    exact ⟨fun _ => rfl, fun hnot => absurd (.inr rfl) hnot⟩
  · rw [Function.update_of_ne hy]
    exact ⟨fun hor => (h y).1 (hor.resolve_right hy), fun hnot => (h y).2 fun hP => hnot (.inl hP)⟩

/-- Clocks that are mapped to the WCI clock one after the other. -/
def Clocks.setAll (g : Clocks) (l : List ClockRef) : Clocks := l.foldl (fun g x => g.set x 0) g

theorem setAll_fixed (g : Clocks) (l : List ClockRef) :
    (g.setAll l).nClocks = g.nClocks ∧ (g.setAll l).clk = g.clk := by
  induction l generalizing g with
  | nil => exact ⟨rfl, rfl⟩
  | cons x l ih => exact ih (g.set x 0)

theorem MapIs.setAll {l : List ClockRef} (h : MapIs g.map P) : MapIs (g.setAll l).map (fun y => P y ∨ y ∈ l) := by
  induction l generalizing g P with
  | nil => exact h.congr fun y => ⟨.inl, fun hor => hor.resolve_right List.not_mem_nil⟩
  | cons x l ih =>
    refine (ih (h.set x)).congr fun y => ?_
    rw [List.mem_cons, or_assoc]

theorem mapSlaves_eq (a : Assembly) (g : Clocks) : mapSlaves a g =
    g.setAll ((List.range a.instances.length).filterMap fun i => (a.worker i).slaveClock.map fun k => (i, k)) := by
  unfold mapSlaves Clocks.setAll
  rw [List.foldl_filterMap]
  congr 1
  funext g i
  cases (a.worker i).slaveClock with
  | none => rfl
  | some k => rfl

/-- A connection after the WCI pass. -/
def wciDone (a : Assembly) (c : Conn) : Conn :=
  if uses a c.desc then { c with clock := some 0, extClock := if c.desc.external then some 0 else c.extClock } else c

theorem overConns_wci (a : Assembly) (g : Clocks) (cs : List Conn) : overConns (wciConnection a) g cs =
    .ok (g.setAll ((cs.filter fun c => uses a c.desc).flatMap fun c => clocksOf a c.desc), cs.map (wciDone a)) := by
  induction cs generalizing g with
  | nil => rfl
  | cons c cs ih =>
    have hstep : wciConnection a g c =
        .ok (if uses a c.desc then g.setAll (clocksOf a c.desc) else g, wciDone a c) := by
      unfold wciConnection wciDone uses
      split
      · unfold Clocks.setAll clocksOf
        rw [List.foldl_map]
      · rfl
    rw [overConns, hstep]
    show (overConns (wciConnection a) _ cs >>= _) = _
    rw [ih, List.filter_cons, List.map_cons]
    split
    · unfold Clocks.setAll
      rw [List.flatMap_cons, List.foldl_append]
      rfl
    · rfl

/-- The only clock is that of the WCI port, and it is known which clocks are mapped. -/
structure Standing (g : Clocks) (P : ClockRef → Prop) : Prop where
  nClocks : g.nClocks = 1
  clk : g.clk = 0
  map : MapIs g.map P

theorem Standing.setAll {l : List ClockRef} (h : Standing g P) : Standing (g.setAll l) (fun y => P y ∨ y ∈ l) :=
  ⟨(setAll_fixed g l).1.trans h.nClocks, (setAll_fixed g l).2.trans h.clk, h.map.setAll⟩

/-- The connections before the passes. -/
def startConns (a : Assembly) : List Conn :=
  a.connections.map (fun c => ⟨c, none, none⟩) ++ (wciConnections a).map (fun c => ⟨c, none, some 0⟩)

theorem startConns_desc (a : Assembly) : (startConns a).map (·.desc) = allConns a := by
  unfold startConns allConns
  rw [List.map_append, List.map_map, List.map_map]
  congr 1
  · exact List.map_id' _
  · exact List.map_id' _

/-- The clocks after the WCI pass. -/
def wciClocks (a : Assembly) : Clocks :=
  (mapSlaves a ⟨1, 0, fun _ => none⟩).setAll
    (((startConns a).filter fun c => uses a c.desc).flatMap fun c => clocksOf a c.desc)

theorem mem_startConns {c : Connection} : c ∈ allConns a ↔ ∃ conn ∈ startConns a, conn.desc = c := by
  rw [← startConns_desc, List.mem_map]

/-- **The WCI pass** maps the clocks of the connections that use the WCI clock. -/
theorem wciClocks_standing (a : Assembly) : Standing (wciClocks a) (OnWci a) := by
  have hstart : Standing ⟨1, 0, fun _ => none⟩ (fun _ => False) := ⟨rfl, rfl, fun _ => ⟨False.elim, fun _ => rfl⟩⟩
  have hslaves := hstart.setAll (l := (List.range a.instances.length).filterMap fun i =>
    (a.worker i).slaveClock.map fun k => (i, k))
  rw [← mapSlaves_eq] at hslaves
  refine ⟨hslaves.setAll.nClocks, hslaves.setAll.clk, hslaves.setAll.map.congr fun x => ?_⟩
  rw [false_or, List.mem_filterMap, List.mem_flatMap, OnWci]
  refine or_congr ?_ ?_
  · constructor
    · rintro ⟨i, hi, hk⟩
      obtain ⟨k, hslave, rfl⟩ := Option.map_eq_some_iff.mp hk
      exact ⟨List.mem_range.mp hi, hslave⟩
    · rintro ⟨hi, hslave⟩
      exact ⟨x.1, List.mem_range.mpr hi, by rw [hslave]; rfl⟩
  · constructor
    · rintro ⟨c, hc, hx⟩
      obtain ⟨hmem, huses⟩ := List.mem_filter.mp hc
      exact ⟨c.desc, mem_startConns.mpr ⟨c, hmem, rfl⟩, huses, hx⟩
    · rintro ⟨c, hc, huses, hx⟩
      obtain ⟨conn, hconn, rfl⟩ := mem_startConns.mp hc
      exact ⟨conn, List.mem_filter.mpr ⟨hconn, huses⟩, hx⟩

/-- A connection after the WCI pass: it has the WCI clock, with its external port, or no clock. -/
structure Ready (a : Assembly) (c : Conn) : Prop where
  used : uses a c.desc = true → c.clock = some 0 ∧ checkExternal c = true
  unused : uses a c.desc = false → c.clock = none ∧ c.extClock = none

/-- A connection to the WCI port of the assembly uses the WCI clock. -/
theorem uses_wciConnection {c : Connection} (h : c ∈ wciConnections a) : uses a c = true := by
  obtain ⟨i, hi, rfl⟩ := List.mem_map.mp h
  have htype := (List.mem_filter.mp hi).2
  unfold uses
  rw [List.any_cons, List.any_nil, Bool.or_false, usesWci, Assembly.port]
  cases hports : (a.worker i).ports with
  | nil =>
    rw [hports] at htype
    exact nomatch htype
  | cons p rest =>
    rw [hports] at htype
    show (p.type == .wci || _ || _) = true
    rw [(Bool.and_eq_true_iff.mp htype).1]
    rfl

theorem ready_wciDone {c : Conn} (h : c ∈ startConns a) : Ready a (wciDone a c) := by
  have hdesc : (wciDone a c).desc = c.desc := by
    unfold wciDone
    split <;> rfl
  constructor
  · intro huses
    rw [hdesc] at huses
    unfold wciDone
    rw [if_pos huses]
    refine ⟨rfl, ?_⟩
    unfold checkExternal
    cases c.desc.external <;> rfl
  · intro huses
    rw [hdesc] at huses
    unfold wciDone
    rw [if_neg (by rw [huses]; exact Bool.false_ne_true)]
    rcases List.mem_append.mp h with h | h
    · obtain ⟨c', _, rfl⟩ := List.mem_map.mp h
      exact ⟨rfl, rfl⟩
    · obtain ⟨c', hc', rfl⟩ := List.mem_map.mp h
      exact absurd (uses_wciConnection hc') (by rw [huses]; exact Bool.false_ne_true)

/-! ## A connection -/

variable {c c' : Conn} {ref : PortRef} {done : List Connection}

theorem mapPort_other (h : (a.port ref).isData ≠ true) (s : Clocks × Conn) : mapPort a s ref = .ok s := if_neg h

theorem mapConnection_eq (a : Assembly) (g : Clocks) (c : Conn) :
    mapConnection a g c = (dataPorts a c.desc).foldlM (mapPort a) (g, c) := by
  have hall : ∀ (refs : List PortRef) (s : Clocks × Conn),
      refs.foldlM (mapPort a) s = (refs.filter fun ref => (a.port ref).isData).foldlM (mapPort a) s := by
    intro refs
    induction refs with
    | nil => exact fun _ => rfl
    | cons ref refs ih =>
      intro s
      rw [List.filter_cons, List.foldlM_cons]
      split
      · rw [List.foldlM_cons]
        exact congrArg _ (funext ih)
      · next hdata =>
        rw [mapPort_other hdata]
        exact ih s
  exact hall c.desc.ports (g, c)

/-- A data port of a connection that has a clock. -/
theorem mapPort_clocked {k : Nat} (hdata : (a.port ref).isData = true) (hclock : c.clock = some k) :
    mapPort a (g, c) ref = match g.map (a.clockOf ref) with
      | some k' => if k' ≠ k then .error (.message "Connection has clock conflict") else .ok (g, c)
      | none => .ok (g.set (a.clockOf ref) k, c) := by
  unfold mapPort
  dsimp only
  rewrite [if_pos hdata, hclock]
  rfl

/-- A connection that has a clock keeps it. -/
theorem kept_of_clocked {k : Nat} {refs : List PortRef} {g' : Clocks} (hdata : ∀ ref ∈ refs, (a.port ref).isData = true)
    (hclock : c.clock = some k) (h : refs.foldlM (mapPort a) (g, c) = .ok (g', c')) : c' = c := by
  induction refs generalizing g with
  | nil => exact (Prod.mk.inj (Except.ok.inj h)).2.symm
  | cons ref refs ih =>
    rw [List.foldlM_cons, mapPort_clocked (hdata ref (List.mem_cons_self ..)) hclock] at h
    have hrest := fun ref' hmem => hdata ref' (List.mem_cons_of_mem ref hmem)
    split at h
    · split at h
      · exact nomatch h
      · exact ih hrest h
    · exact ih hrest h

/-- The data ports of a connection with the WCI clock are mapped to it. -/
theorem mapped_of_clocked {refs : List PortRef} (hdata : ∀ ref ∈ refs, (a.port ref).isData = true)
    (hclock : c.clock = some 0) (hg : Standing g P) :
    ∃ g', refs.foldlM (mapPort a) (g, c) = .ok (g', c) ∧ Standing g' (fun y => P y ∨ y ∈ refs.map a.clockOf) := by
  induction refs generalizing g P with
  | nil => exact ⟨g, rfl, hg.nClocks, hg.clk, hg.map.congr fun y => (or_iff_left List.not_mem_nil).symm⟩
  | cons ref refs ih =>
    have hrest := fun ref' hmem => hdata ref' (List.mem_cons_of_mem ref hmem)
    have hstep : ∃ g₁, mapPort a (g, c) ref = .ok (g₁, c) ∧ Standing g₁ (fun y => P y ∨ y = a.clockOf ref) := by
      rw [mapPort_clocked (hdata ref (List.mem_cons_self ..)) hclock]
      by_cases hP : P (a.clockOf ref)
      · rw [(hg.map _).1 hP]
        refine ⟨g, rfl, hg.nClocks, hg.clk, hg.map.congr fun y => ⟨.inl, ?_⟩⟩
        rintro (hy | rfl)
        · exact hy
        · exact hP
      · rw [(hg.map _).2 hP]
        exact ⟨_, rfl, hg.nClocks, hg.clk, hg.map.set _⟩
    obtain ⟨g₁, hfirst, hg₁⟩ := hstep
    obtain ⟨g', hfold, hg'⟩ := ih hrest hg₁
    refine ⟨g', ?_, hg'.nClocks, hg'.clk, hg'.map.congr fun y => ?_⟩
    · rw [List.foldlM_cons, hfirst]
      exact hfold
    · rw [List.map_cons, List.mem_cons, or_assoc]

theorem mappedBy_snoc {desc : Connection} :
    MappedBy a (done ++ [desc]) x ↔ MappedBy a done x ∨ x ∈ dataClocks a desc := by
  unfold MappedBy
  rw [or_assoc]
  refine or_congr Iff.rfl ?_
  simp only [List.mem_append, List.mem_singleton, or_and_right, exists_or, exists_eq_left]

theorem dataPorts_isData (a : Assembly) (desc : Connection) : ∀ ref ∈ dataPorts a desc, (a.port ref).isData = true :=
  fun _ h => (List.mem_filter.mp h).2

/-- A connection after the passes that make no clock. -/
def clocked (a : Assembly) (c : Conn) : Conn := if dataPorts a c.desc = [] then c else { c with clock := some 0 }

theorem clocked_of_uses (hready : Ready a c) (huses : uses a c.desc = true) : clocked a c = c := by
  unfold clocked
  split
  · rfl
  · rw [← (hready.used huses).1]

/-- **A connection that needs no clock of its own** is mapped to the WCI clock. -/
theorem mapConnection_fed (hg : Standing g (MappedBy a done)) (hready : Ready a c) (hfed : FedAt a done c.desc) :
    ∃ g', mapConnection a g c = .ok (g', clocked a c) ∧ Standing g' (MappedBy a (done ++ [c.desc])) := by
  have hsnoc : ∀ {g'}, Standing g' (fun y => MappedBy a done y ∨ y ∈ dataClocks a c.desc) →
      Standing g' (MappedBy a (done ++ [c.desc])) := fun h =>
    ⟨h.nClocks, h.clk, h.map.congr fun y => mappedBy_snoc.symm⟩
  rw [mapConnection_eq]
  cases huses : uses a c.desc with
  | true =>
    obtain ⟨g', hfold, hg'⟩ := mapped_of_clocked (dataPorts_isData a c.desc) (hready.used huses).1 hg
    exact ⟨g', by rw [clocked_of_uses hready huses]; exact hfold, hsnoc hg'⟩
  | false =>
    cases hrefs : dataPorts a c.desc with
    | nil =>
      refine ⟨g, by rw [clocked, if_pos hrefs]; rfl, hg.nClocks, hg.clk, hg.map.congr fun y => ?_⟩
      rw [mappedBy_snoc, dataClocks, hrefs]
      exact (or_iff_left List.not_mem_nil).symm
    | cons ref refs =>
      have hdata := dataPorts_isData a c.desc
      rw [hrefs] at hdata
      obtain ⟨-, hfirst⟩ := hfed huses ref (by rw [hrefs]; rfl)
      have hclocked : clocked a c = { c with clock := some 0 } := if_neg (by rw [hrefs]; exact List.cons_ne_nil _ _)
      have hstep : ∃ g₁, mapPort a (g, c) ref = .ok (g₁, clocked a c) ∧
          Standing g₁ (fun y => MappedBy a done y ∨ y = a.clockOf ref) := by
        unfold mapPort
        dsimp only
        rw [if_pos (hdata ref (List.mem_cons_self ..)), (hready.unused huses).1, hclocked]
        by_cases hmapped : MappedBy a done (a.clockOf ref)
        · rw [(hg.map _).1 hmapped]
          refine ⟨g, rfl, hg.nClocks, hg.clk, hg.map.congr fun y => ⟨.inl, ?_⟩⟩
          rintro (hy | rfl)
          · exact hy
          · exact hmapped
        · rw [(hg.map _).2 hmapped, hfirst.resolve_right hmapped, if_neg Bool.false_ne_true, hg.clk]
          exact ⟨_, rfl, hg.nClocks, hg.clk, hg.map.set _⟩
      obtain ⟨g₁, hport, hg₁⟩ := hstep
      have hclock : (clocked a c).clock = some 0 := by rw [hclocked]
      obtain ⟨g', hfold, hg'⟩ := mapped_of_clocked (fun ref' hmem => hdata ref' (List.mem_cons_of_mem _ hmem)) hclock hg₁
      refine ⟨g', ?_, hsnoc ⟨hg'.nClocks, hg'.clk, hg'.map.congr fun y => ?_⟩⟩
      · rw [List.foldlM_cons, hport]
        exact hfold
      · rw [dataClocks, hrefs, List.map_cons, List.mem_cons, or_assoc]

/-- A connection that needs a clock of its own fails, or its external port has another clock. -/
theorem mapConnection_unfed {g' : Clocks} (hg : Standing g (MappedBy a done)) (hready : Ready a c)
    (hfed : ¬FedAt a done c.desc) (h : mapConnection a g c = .ok (g', c')) : checkExternal c' = false := by
  obtain ⟨huses, hfed⟩ := Classical.not_imp.mp hfed
  obtain ⟨ref, hfed⟩ := not_forall.mp hfed
  obtain ⟨hhead, hneeds⟩ := Classical.not_imp.mp hfed
  rw [mapConnection_eq] at h
  cases hrefs : dataPorts a c.desc with
  | nil =>
    rw [hrefs] at hhead
    exact nomatch hhead
  | cons ref' refs =>
    rw [hrefs] at hhead h
    obtain rfl : ref' = ref := Option.some.inj hhead
    have hdata := dataPorts_isData a c.desc
    rw [hrefs] at hdata
    have hstep : ∃ k g₁, c.desc.external = true ∧ mapPort a (g, c) ref' = .ok (g₁, { c with clock := some k }) := by
      have hexternal : (a.clock (a.clockOf ref')).owned = false ∨ MappedBy a done (a.clockOf ref') →
          c.desc.external = true := fun hor =>
        eq_true_of_ne_false fun hnone => hneeds ⟨hnone, hor⟩
      rw [List.foldlM_cons] at h
      unfold mapPort at h ⊢
      dsimp only at h ⊢
      rewrite [if_pos (hdata ref' (List.mem_cons_self ..)), (hready.unused huses).1] at h ⊢
      dsimp only at h ⊢
      by_cases hmapped : MappedBy a done (a.clockOf ref')
      · rewrite [(hg.map _).1 hmapped]
        exact ⟨_, _, hexternal (.inr hmapped), rfl⟩
      · rewrite [(hg.map _).2 hmapped] at h ⊢
        dsimp only at h ⊢
        split at h
        · next howned =>
          split at h
          · next hext => exact ⟨_, _, hext, by rw [if_pos howned, if_pos hext]⟩
          · exact nomatch h
        · next howned =>
          exact ⟨_, _, hexternal (.inl (eq_false_of_ne_true howned)), by rw [if_neg howned]⟩
    obtain ⟨k, g₁, hexternal, hport⟩ := hstep
    rw [List.foldlM_cons, hport] at h
    rw [kept_of_clocked (fun ref' hmem => hdata ref' (List.mem_cons_of_mem _ hmem)) rfl h]
    unfold checkExternal
    rw [hexternal, (hready.unused huses).2]
    rfl

/-! ## All the connections -/

/-- No connection needs a clock of its own, from some on. -/
def FedFrom (a : Assembly) : List Connection → List Connection → Prop
  | _, [] => True
  | done, c :: cs => FedAt a done c ∧ FedFrom a (done ++ [c]) cs

theorem fedFrom_iff {descs : List Connection} : FedFrom a done descs ↔
    ∀ before c after, descs = before ++ c :: after → FedAt a (done ++ before) c := by
  induction descs generalizing done with
  | nil =>
    refine iff_of_true trivial fun before c after h => ?_
    exact absurd h.symm (List.append_ne_nil_of_right_ne_nil _ (List.cons_ne_nil _ _))
  | cons desc descs ih =>
    rw [FedFrom, ih]
    constructor
    · rintro ⟨hfirst, hrest⟩ before c after h
      cases before with
      | nil =>
        obtain ⟨rfl, -⟩ := List.cons.inj h
        rwa [List.append_nil]
      | cons _ before =>
        obtain ⟨rfl, hdescs⟩ := List.cons.inj h
        have hfed := hrest before c after hdescs
        rwa [List.append_assoc] at hfed
    · intro h
      refine ⟨?_, fun before c after hdescs => ?_⟩
      · have hfed := h [] desc descs rfl
        rwa [List.append_nil] at hfed
      · rw [List.append_assoc]
        exact h (desc :: before) c after (congrArg _ hdescs)

/-- No clock is needed where every connection uses the WCI clock. -/
theorem fed_of_uses (h : ∀ c ∈ allConns a, uses a c = true) : Fed a := by
  intro before c after hsplit huses
  have hmem : c ∈ allConns a := hsplit ▸ List.mem_append_right _ (List.mem_cons_self ..)
  rw [h c hmem] at huses
  exact nomatch huses

theorem fed_iff : Fed a ↔ FedFrom a [] (allConns a) := by
  rw [fedFrom_iff]
  rfl

/-- **Where no connection needs a clock of its own**, all of them are mapped to the WCI clock. -/
theorem overConns_fed {cs : List Conn} (hg : Standing g (MappedBy a done)) (hready : ∀ c ∈ cs, Ready a c)
    (hfed : FedFrom a done (cs.map (·.desc))) :
    ∃ g', overConns (mapConnection a) g cs = .ok (g', cs.map (clocked a)) ∧
      Standing g' (MappedBy a (done ++ cs.map (·.desc))) := by
  induction cs generalizing g done with
  | nil => exact ⟨g, rfl, by rwa [List.map_nil, List.append_nil]⟩
  | cons c cs ih =>
    obtain ⟨g₁, hfirst, hg₁⟩ := mapConnection_fed hg (hready c (List.mem_cons_self ..)) hfed.1
    obtain ⟨g', hrest, hg'⟩ := ih hg₁ (fun c' hc' => hready c' (List.mem_cons_of_mem _ hc')) hfed.2
    refine ⟨g', ?_, ?_⟩
    · rw [overConns, hfirst]
      show (overConns (mapConnection a) g₁ cs >>= _) = _
      rw [hrest]
      rfl
    · rwa [List.append_assoc] at hg'

/-- Where one needs a clock of its own, the loop fails or an external port has another clock. -/
theorem fed_of_overConns {cs cs' : List Conn} {g' : Clocks} (hg : Standing g (MappedBy a done))
    (hready : ∀ c ∈ cs, Ready a c) (h : overConns (mapConnection a) g cs = .ok (g', cs'))
    (hcheck : cs'.all checkExternal = true) : FedFrom a done (cs.map (·.desc)) := by
  induction cs generalizing g done cs' with
  | nil => trivial
  | cons c cs ih =>
    rw [overConns] at h
    cases hfirst : mapConnection a g c with
    | error e =>
      rw [hfirst] at h
      exact nomatch h
    | ok r =>
      obtain ⟨g₁, c₁⟩ := r
      rw [hfirst] at h
      change (overConns (mapConnection a) g₁ cs >>= _) = _ at h
      cases hrest : overConns (mapConnection a) g₁ cs with
      | error e =>
        rw [hrest] at h
        exact nomatch h
      | ok r =>
        obtain ⟨g₂, cs₂⟩ := r
        rw [hrest] at h
        obtain ⟨rfl, rfl⟩ := Prod.mk.inj (Except.ok.inj h)
        rw [List.all_cons, Bool.and_eq_true] at hcheck
        have hready_c := hready c (List.mem_cons_self ..)
        have hfed : FedAt a done c.desc := by
          by_contra hnot
          rw [mapConnection_unfed hg hready_c hnot hfirst] at hcheck
          exact nomatch hcheck.1
        obtain ⟨g₃, hfed_eq, hg₃⟩ := mapConnection_fed hg hready_c hfed
        obtain ⟨rfl, -⟩ := Prod.mk.inj (Except.ok.inj (hfirst.symm.trans hfed_eq))
        exact ⟨hfed, ih hg₃ (fun c' hc' => hready c' (List.mem_cons_of_mem _ hc')) hrest hcheck.2⟩

theorem checkExternal_clocked (hready : Ready a c) (hfed : FedAt a done c.desc) :
    checkExternal (clocked a c) = true := by
  cases huses : uses a c.desc with
  | true =>
    rw [clocked_of_uses hready huses]
    exact (hready.used huses).2
  | false =>
    unfold clocked
    split
    · unfold checkExternal
      rw [(hready.unused huses).1, (hready.unused huses).2]
      exact Bool.or_true _
    · next hdata =>
      obtain ⟨ref, refs, hrefs⟩ := List.exists_cons_of_ne_nil hdata
      unfold checkExternal
      rw [(hfed huses ref (by rw [hrefs]; rfl)).1]
      rfl

/-! ## Ports that are not connected -/

/-- The clock of a connected port, or of a WCI slave. -/
def Connected (a : Assembly) (x : ClockRef) : Prop := MappedBy a (allConns a) x

def IsMessage : Fault → Prop
  | .message _ => True
  | _ => False

/-- What the pass over the unconnected data ports has done when `refs` are done: connected clocks are mapped to the
WCI clock, and every other clock to one of its own. -/
structure Filled (a : Assembly) (refs : List PortRef) (g : Clocks) : Prop where
  positive : 0 < g.nClocks
  connected : ∀ x, Connected a x → g.map x = some 0
  data : ∀ ref ∈ refs, (a.port ref).isData = true → g.map (a.clockOf ref) ≠ none
  mapped : ∀ x k, g.map x = some k → k < g.nClocks ∧ ((k = 0 ∧ Connected a x) ∨
    ((∃ ref ∈ refs, (a.port ref).isData = true ∧ a.clockOf ref = x) ∧ ∀ y, g.map y = some k → y = x))

theorem filled_nil (hg : Standing g (Connected a)) : Filled a [] g where
  positive := hg.nClocks ▸ Nat.one_pos
  connected := fun x hx => (hg.map x).1 hx
  data := fun _ h => absurd h List.not_mem_nil
  mapped := fun x k hk => by
    by_cases hx : Connected a x
    · rw [(hg.map x).1 hx] at hk
      obtain rfl := Option.some.inj hk
      exact ⟨hg.nClocks ▸ Nat.one_pos, .inl ⟨rfl, hx⟩⟩
    · rw [(hg.map x).2 hx] at hk
      exact nomatch hk

theorem Filled.snoc {refs : List PortRef} (h : Filled a refs g)
    (hdata : (a.port ref).isData = true → g.map (a.clockOf ref) ≠ none) : Filled a (refs ++ [ref]) g where
  positive := h.positive
  connected := h.connected
  data := fun ref' hmem => by
    rcases List.mem_append.mp hmem with hmem | hmem
    · exact h.data ref' hmem
    · rw [List.mem_singleton.mp hmem]
      exact hdata
  mapped := fun x k hk => by
    obtain ⟨hlt, hor⟩ := h.mapped x k hk
    refine ⟨hlt, hor.imp id ?_⟩
    rintro ⟨⟨ref', hmem, hx⟩, hunique⟩
    exact ⟨⟨ref', List.mem_append_left _ hmem, hx⟩, hunique⟩

theorem Filled.add {refs : List PortRef} (h : Filled a refs g) (hdata : (a.port ref).isData = true)
    (hnone : g.map (a.clockOf ref) = none) : Filled a (refs ++ [ref]) (g.add (a.clockOf ref)) := by
  have hsame : (g.add (a.clockOf ref)).map (a.clockOf ref) = some g.nClocks := Function.update_self ..
  have hother : ∀ x, x ≠ a.clockOf ref → (g.add (a.clockOf ref)).map x = g.map x := fun x hx =>
    Function.update_of_ne hx _ _
  have hkept : ∀ x k, g.map x = some k → (g.add (a.clockOf ref)).map x = some k := by
    intro x k hk
    rw [hother x (by rintro rfl; rw [hnone] at hk; exact nomatch hk), hk]
  refine ⟨Nat.succ_pos _, fun x hx => hkept x 0 (h.connected x hx), fun ref' hmem hdata' => ?_, fun x k hk => ?_⟩
  · rcases List.mem_append.mp hmem with hmem | hmem
    · obtain ⟨k, hk⟩ := Option.ne_none_iff_exists'.mp (h.data ref' hmem hdata')
      rw [hkept _ k hk]
      exact Option.some_ne_none k
    · rw [List.mem_singleton.mp hmem, hsame]
      exact Option.some_ne_none _
  · by_cases hx : x = a.clockOf ref
    · subst hx
      rw [hsame] at hk
      obtain rfl := Option.some.inj hk
      refine ⟨Nat.lt_succ_self _, .inr ⟨⟨ref, List.mem_append_right _ (List.mem_singleton_self ref), hdata, rfl⟩,
        fun y hy => ?_⟩⟩
      by_contra hne
      rw [hother y hne] at hy
      exact absurd (h.mapped y _ hy).1 (Nat.lt_irrefl _)
    · rw [hother x hx] at hk
      obtain ⟨hlt, hor⟩ := h.mapped x k hk
      refine ⟨Nat.lt_succ_of_lt hlt, hor.imp id ?_⟩
      rintro ⟨⟨ref', hmem, hx'⟩, hunique⟩
      refine ⟨⟨ref', List.mem_append_left _ hmem, hx'⟩, fun y hy => ?_⟩
      by_cases hy' : y = a.clockOf ref
      · rw [hy', hsame] at hy
        exact absurd hlt (Nat.not_lt.mpr (Nat.le_of_eq (Option.some.inj hy)))
      · rw [hother y hy'] at hy
        exact hunique y hy

/-- **The pass over the unconnected data ports.** -/
theorem mapUnconnected_yields (hg : Standing g (Connected a)) (refs : List PortRef) :
    Yields (Filled a refs) IsMessage (refs.foldlM (mapUnconnected a) g) := by
  refine Yields.foldlM (P := fun done g' => Filled a done g') (filled_nil hg) ?_
  intro done ref g₁ _ hdone
  unfold mapUnconnected
  split
  · next hcond =>
    obtain ⟨hdata, hnone⟩ := Bool.and_eq_true_iff.mp hcond
    split
    · trivial
    · exact hdone.add hdata (Option.isNone_iff_eq_none.mp hnone)
  · next hcond =>
    refine hdone.snoc fun hdata hnone => hcond ?_
    rw [hdata, hnone]
    rfl
/-! ## External ports -/

/-- What the loop over the ports has done to the connections when `refs` are done. -/
structure Extended (a : Assembly) (map : ClockRef → Option Nat) (conns : List Conn) (refs : List PortRef)
    (conns' : List Conn) : Prop where
  shape : ∃ extra, conns' = conns ++ extra ∧
    ∀ c ∈ extra, ∃ ref k, c = ⟨⟨[ref], true⟩, some k, some k⟩ ∧ map (a.clockOf ref) = some k
  mapped : ∀ ref ∈ refs, externalized a ref = true → map (a.clockOf ref) ≠ none

theorem Extended.snoc {map : ClockRef → Option Nat} {conns conns' conns'' : List Conn} {refs : List PortRef}
    (h : Extended a map conns refs conns')
    (hmapped : externalized a ref = true → map (a.clockOf ref) ≠ none)
    (hextra : ∃ extra, conns'' = conns' ++ extra ∧
      ∀ c ∈ extra, ∃ ref k, c = ⟨⟨[ref], true⟩, some k, some k⟩ ∧ map (a.clockOf ref) = some k) :
    Extended a map conns (refs ++ [ref]) conns'' := by
  obtain ⟨extra, rfl, hshape⟩ := h.shape
  obtain ⟨more, rfl, hmore⟩ := hextra
  refine ⟨⟨extra ++ more, List.append_assoc .., List.forall_mem_append.mpr ⟨hshape, hmore⟩⟩, fun ref' hmem => ?_⟩
  rcases List.mem_append.mp hmem with hmem | hmem
  · exact h.mapped ref' hmem
  · rw [List.mem_singleton.mp hmem]
    exact hmapped

theorem processPorts_yields (a : Assembly) (g : Clocks) (conns : List Conn) (refs : List PortRef) :
    Yields (Extended a g.map conns refs)
      (fun e => IsMessage e ∨ e = .assertion ∧ ∃ ref ∈ refs, externalized a ref = true ∧ g.map (a.clockOf ref) = none)
      (refs.foldlM (processPort a g) conns) := by
  refine Yields.foldlM (P := fun done conns' => Extended a g.map conns done conns') ?_ ?_
  · exact ⟨⟨[], (List.append_nil conns).symm, fun _ h => absurd h List.not_mem_nil⟩, fun _ h => absurd h List.not_mem_nil⟩
  · intro done ref conns' href hdone
    unfold processPort
    split
    · exact .inl trivial
    · split
      · next hext =>
        unfold externalizePort
        cases hmap : g.map (a.clockOf ref) with
        | none => exact .inr ⟨rfl, ref, href, hext, hmap⟩
        | some k =>
          refine hdone.snoc (fun _ => by rw [hmap]; exact Option.some_ne_none k) ⟨_, rfl, fun c hc => ?_⟩
          exact ⟨ref, k, List.mem_singleton.mp hc, hmap⟩
      · next hext =>
        refine hdone.snoc (fun h => absurd h hext) ⟨[], (List.append_nil _).symm, fun _ h => absurd h List.not_mem_nil⟩

/-! ## The parser -/

/-- The passes from that over the unconnected data ports on. -/
def finish (a : Assembly) (g : Clocks) (conns : List Conn) : Except Fault Parsed := do
  let g ← (instancePorts a).foldlM (mapUnconnected a) g
  let conns ← (instancePorts a).foldlM (processPort a g) conns
  if conns.all checkExternal then return ⟨g.map, conns⟩ else throw .assertion

/-- A WCI port is attached before the connection of the assembly is made to it. -/
def attachedTwice (a : Assembly) : Bool := (controlled a).any fun i => !unattached a (i, 0)

theorem mapClocks_eq (a : Assembly) : mapClocks a =
    (overConns (mapConnection a) (wciClocks a) ((startConns a).map (wciDone a))).bind fun r =>
      finish a r.1 r.2 := by
  show (overConns (wciConnection a) _ (startConns a) >>= _) = _
  rw [overConns_wci]
  rfl

theorem parseHdlAssy_eq (a : Assembly) : parseHdlAssy a =
    if attachedTwice a then .error (.message "Multiple connections not allowed for port") else mapClocks a := rfl

/-- The clock of each port that is made external is mapped: it is connected, or that of a data port. -/
def ExternalsMapped (a : Assembly) : Prop :=
  ∀ ref ∈ instancePorts a, externalized a ref = true → Connected a (a.clockOf ref) ∨
    ∃ ref' ∈ instancePorts a, (a.port ref').isData = true ∧ a.clockOf ref' = a.clockOf ref

theorem externalsMapped_of_none (h : ∀ ref ∈ instancePorts a, externalized a ref = false) : ExternalsMapped a := by
  intro ref href hext
  rw [h ref href] at hext
  exact nomatch hext

/-- What the parser makes of an assembly whose connections are mapped. -/
structure Described (a : Assembly) (conns : List Conn) (p : Parsed) : Prop where
  filled : ∃ g, p.map = g.map ∧ Filled a (instancePorts a) g
  conns : ∃ extra, p.conns = conns ++ extra ∧
    ∀ c ∈ extra, ∃ ref k, c = ⟨⟨[ref], true⟩, some k, some k⟩ ∧ p.map (a.clockOf ref) = some k
  checked : p.conns.all checkExternal = true
  externals : ExternalsMapped a

theorem Filled.externalsMapped_iff (h : Filled a (instancePorts a) g) : ExternalsMapped a ↔
    ∀ ref ∈ instancePorts a, externalized a ref = true → g.map (a.clockOf ref) ≠ none := by
  have hiff : ∀ x, g.map x ≠ none ↔ Connected a x ∨
      ∃ ref' ∈ instancePorts a, (a.port ref').isData = true ∧ a.clockOf ref' = x := by
    intro x
    constructor
    · intro hne
      obtain ⟨k, hk⟩ := Option.ne_none_iff_exists'.mp hne
      exact (h.mapped x k hk).2.imp And.right And.left
    · rintro (hx | ⟨ref', hmem, hdata, rfl⟩)
      · rw [h.connected x hx]
        exact Option.some_ne_none 0
      · exact h.data ref' hmem hdata
  exact forall₃_congr fun ref _ _ => (hiff (a.clockOf ref)).symm

theorem finish_yields {conns : List Conn} (hg : Standing g (Connected a)) (hcheck : conns.all checkExternal = true) :
    Yields (Described a conns) (fun e => IsMessage e ∨ e = .assertion ∧ ¬ExternalsMapped a) (finish a g conns) := by
  unfold finish
  refine ((mapUnconnected_yields hg (instancePorts a)).imp (fun _ h => h) (fun _ h => .inl h)).bind fun g' hg' => ?_
  refine ((processPorts_yields a g' conns (instancePorts a)).imp (fun _ h => h) (fun e he => ?_)).bind
    fun conns' hconns' => ?_
  · refine he.imp id ?_
    rintro ⟨rfl, ref, href, hext, hnone⟩
    exact ⟨rfl, fun hmapped => hg'.externalsMapped_iff.mp hmapped ref href hext hnone⟩
  · obtain ⟨extra, rfl, hshape⟩ := hconns'.shape
    have hall : (conns ++ extra).all checkExternal = true := by
      rw [List.all_append, hcheck, Bool.true_and, List.all_eq_true]
      intro c hc
      obtain ⟨ref, k, rfl, -⟩ := hshape c hc
      exact beq_self_eq_true (some k)
    rw [if_pos hall]
    exact ⟨⟨g', rfl, hg'⟩, ⟨extra, rfl, hshape⟩, hall, hg'.externalsMapped_iff.mpr hconns'.mapped⟩

theorem checked_of_finish {conns : List Conn} {p : Parsed} (h : finish a g conns = .ok p) :
    conns.all checkExternal = true := by
  unfold finish at h
  cases hg : (instancePorts a).foldlM (mapUnconnected a) g with
  | error e =>
    rw [hg] at h
    exact nomatch h
  | ok g' =>
    rw [hg] at h
    change ((instancePorts a).foldlM (processPort a g') conns >>= _) = _ at h
    cases hconns : (instancePorts a).foldlM (processPort a g') conns with
    | error e =>
      rw [hconns] at h
      exact nomatch h
    | ok conns' =>
      rw [hconns] at h
      obtain ⟨extra, rfl, -⟩ := ((processPorts_yields a g' conns (instancePorts a)).of_ok hconns).shape
      change (if _ then _ else _) = _ at h
      split at h
      · next hall => exact (Bool.and_eq_true_iff.mp (List.all_append ▸ hall)).1
      · exact nomatch h

theorem ready_start (a : Assembly) : ∀ c ∈ (startConns a).map (wciDone a), Ready a c := by
  intro c hc
  obtain ⟨c', hc', rfl⟩ := List.mem_map.mp hc
  exact ready_wciDone hc'

theorem wciDone_desc (a : Assembly) (c : Conn) : (wciDone a c).desc = c.desc := by
  unfold wciDone
  split <;> rfl

theorem wciDone_descs (a : Assembly) : ((startConns a).map (wciDone a)).map (·.desc) = allConns a := by
  rw [List.map_map, ← startConns_desc]
  exact List.map_congr_left fun c _ => wciDone_desc a c

theorem wciClocks_mapped (a : Assembly) : Standing (wciClocks a) (MappedBy a []) :=
  ⟨(wciClocks_standing a).nClocks, (wciClocks_standing a).clk, (wciClocks_standing a).map.congr fun _ =>
    (or_iff_left fun ⟨_, h, _⟩ => absurd h List.not_mem_nil).symm⟩

/-- The connections as they are mapped. -/
def mappedConns (a : Assembly) : List Conn := ((startConns a).map (wciDone a)).map (clocked a)

theorem overConns_of_fed (hfed : Fed a) : ∃ g,
    overConns (mapConnection a) (wciClocks a) ((startConns a).map (wciDone a)) = .ok (g, mappedConns a) ∧
      Standing g (Connected a) := by
  have hfrom := fed_iff.mp hfed
  rw [← wciDone_descs] at hfrom
  obtain ⟨g, hg, hstanding⟩ := overConns_fed (wciClocks_mapped a) (ready_start a) hfrom
  rw [List.nil_append, wciDone_descs] at hstanding
  exact ⟨g, hg, hstanding⟩

theorem mappedConns_checked (hfed : Fed a) : (mappedConns a).all checkExternal = true := by
  rw [List.all_eq_true]
  intro c hc
  obtain ⟨c', hc', rfl⟩ := List.mem_map.mp hc
  have hmem : c'.desc ∈ allConns a := by
    rw [← wciDone_descs]
    exact List.mem_map_of_mem hc'
  obtain ⟨before, after, hsplit⟩ := List.append_of_mem hmem
  exact checkExternal_clocked (ready_start a c' hc') (hfed before _ after hsplit)

/-- **Where no connection needs a clock of its own**, the clocks are mapped as described or an error is reported,
unless a port that is made external has a clock that is not mapped. -/
theorem mapClocks_yields (hfed : Fed a) : Yields (Described a (mappedConns a))
    (fun e => IsMessage e ∨ e = .assertion ∧ ¬ExternalsMapped a) (mapClocks a) := by
  rw [mapClocks_eq]
  obtain ⟨g, hg, hstanding⟩ := overConns_of_fed hfed
  rw [hg]
  exact finish_yields hstanding (mappedConns_checked hfed)

theorem parse_yields (hfed : Fed a) : Yields (Described a (mappedConns a))
    (fun e => IsMessage e ∨ e = .assertion ∧ ¬ExternalsMapped a) (parseHdlAssy a) := by
  rw [parseHdlAssy_eq]
  split
  · exact .inl trivial
  · exact mapClocks_yields hfed

/-- **The clocks are mapped only where no connection needs a clock of its own.** -/
theorem fed_of_mapClocks {p : Parsed} (h : mapClocks a = .ok p) : Fed a := by
  rw [mapClocks_eq] at h
  cases hconns : overConns (mapConnection a) (wciClocks a) ((startConns a).map (wciDone a)) with
  | error e =>
    rw [hconns] at h
    exact nomatch h
  | ok r =>
    rw [hconns] at h
    have hfrom := fed_of_overConns (wciClocks_mapped a) (ready_start a) hconns (checked_of_finish h)
    rw [wciDone_descs] at hfrom
    exact fed_iff.mpr hfrom

theorem fed_of_parse {p : Parsed} (h : parseHdlAssy a = .ok p) : Fed a := by
  rw [parseHdlAssy_eq] at h
  split at h
  · exact nomatch h
  · exact fed_of_mapClocks h

theorem described_of_parse {p : Parsed} (h : parseHdlAssy a = .ok p) : Described a (mappedConns a) p :=
  (parse_yields (fed_of_parse h)).of_ok h

end OpenCpi.HdlClocks
