import Mathlib.Data.List.Forall2
import Mathlib.Tactic.SplitIfs
import OpenCpi.Hdl.Connection
import OpenCpi.Infra.Yields

/-!
# Port elements are connected once

`attach` marks the elements of a port from the index up to the count, not up to the index and the count. What it
marks is connected once; the elements behind are not looked at.
-/

namespace OpenCpi.HdlAssembly

open Infra

/-! ## Ranges and elements -/

/-- The port of the worker, or of the assembly, that an attachment is for. -/
def Assembly.portOf (a : Assembly) : Target → Port
  | .inst ref => (a.ports ref).port
  | .ext n => ((a.externals[n]?).map (·.port)).getD .none

/-- The ranges of attachments lie inside their ports. -/
def Inside (a : Assembly) : Prop :=
  ∀ c ∈ a.connections, ∀ at_ ∈ c.attachments,
    at_.index.toNat + c.count.toNat ≤ (a.portOf at_.target).count.toNat

/-- Two ranges of elements have none in common. -/
def NoneShared (i m j n : UInt64) : Prop := i.toNat + m.toNat ≤ j.toNat ∨ j.toNat + n.toNat ≤ i.toNat

instance (i m j n : UInt64) : Decidable (NoneShared i m j n) := inferInstanceAs (Decidable (_ ∨ _))

def timeMaster (p : Port) : Bool := p.isTime && p.master

/-- Two connections have no element in common, except for those of a time master port. -/
def ApartPair (a : Assembly) (c c' : Connection) : Prop :=
  ∀ at_ ∈ c.attachments, ∀ at' ∈ c'.attachments, at_.target = at'.target →
    timeMaster (a.portOf at_.target) ≠ true → NoneShared at_.index c.count at'.index c'.count

/-- No element belongs to two connections. -/
def Apart (a : Assembly) : Prop := a.connections.Pairwise (ApartPair a)

/-- **Port elements are connected once and in range.** -/
def Sound : Except Fault Assembly → Prop
  | .ok a => Inside a ∧ Apart a
  | .error e => e ≠ .outOfRange

/-- The parser fails with a message or at an assertion. -/
def Rejected : Except Fault Assembly → Prop
  | .ok _ => False
  | .error e => e ≠ .outOfRange

/-! ## When it holds -/

/-- The port that a connection's port stands for. -/
def found (w : Workers) (ap : ConnPort) : Option PortRef :=
  match findPort w ap with
  | .ok ref => ref
  | .error _ => none

def narrow (w : Workers) (minCount : UInt64) (ap : ConnPort) : UInt64 :=
  match found w ap with
  | some ref => min ((w.port ref).count - ap.index) minCount
  | none => minCount

/-- The count that a connection gets: that of its narrowest port from the index on. -/
def width (w : Workers) (conn : ConnDesc) : UInt64 := conn.ports.foldl (narrow w) 1000

/-- Connections that share a port, not both from its first element on, have no element in common. -/
def ProperPair (w : Workers) (conn conn' : ConnDesc) : Prop :=
  ∀ ap ∈ conn.ports, ∀ ap' ∈ conn'.ports, ∀ ref,
    found w ap = some ref → found w ap' = some ref → timeMaster (w.port ref) ≠ true → ap.index ≠ 0 ∨ ap'.index ≠ 0 →
      NoneShared ap.index (width w conn) ap'.index (width w conn')

/-- **When ports are connected once and in range**: no index is the greatest one of its type, an external port
has at least the count of its connection, and connections that share a port, not both from its first element on,
have no element in common. -/
structure Proper (w : Workers) (conns : List ConnDesc) : Prop where
  indices : ∀ conn ∈ conns, ∀ ap ∈ conn.ports, ap.index + 1 ≠ 0
  externals : ∀ conn ∈ conns, ∀ ext ∈ conn.externals, ext.count ≠ 0 → width w conn ≤ ext.count
  apart : conns.Pairwise (ProperPair w)

/-! ## Attaching -/

variable {ip : InstancePort} {n : Nat} {count index : UInt64} {w : Workers}

/-- How something may fail: with a message, and otherwise only for a reason. -/
def Fails (unbuilt overrun : Prop) : Fault → Prop
  | .message _ => True
  | .assertion => unbuilt
  | .outOfRange => overrun

theorem Fails.imp {p p' q q' : Prop} {e : Fault} (h : Fails p q e) (hp : p → p') (hq : q → q') : Fails p' q' e := by
  cases e with
  | message text => trivial
  | assertion => exact hp h
  | outOfRange => exact hq h

/-- An element that is marked exists, and was not marked before unless the port is a time master. -/
theorem mark_yields (ip : InstancePort) (n : Nat) : Yields (fun ip' => ip'.port = ip.port ∧
      ip'.connected = ip.connected.set n true ∧ n < ip.connected.length ∧
        (ip.connected[n]? = some true → timeMaster ip.port = true))
    (Fails False (ip.connected.length ≤ n)) (ip.mark n) := by
  unfold InstancePort.mark
  cases hn : ip.connected[n]? with
  | none => exact List.getElem?_eq_none_iff.mp hn
  | some connected =>
    dsimp only
    have hlt : n < ip.connected.length := (List.getElem?_eq_some_iff.mp hn).1
    split
    · trivial
    · next hfree =>
      refine ⟨rfl, rfl, hlt, fun hmarked => ?_⟩
      have htrue : connected = true := Option.some.inj hmarked
      rw [htrue, Bool.true_and, Bool.not_eq_true', Bool.not_eq_false] at hfree
      exact hfree

/-- What the loop of `attach` has done to a port when the elements `done` are marked. -/
structure Attached (ip ip' : InstancePort) (done : List Nat) : Prop where
  port : ip'.port = ip.port
  length : ip'.connected.length = ip.connected.length
  kept : ∀ n : Nat, ip.connected[n]? = some true → ip'.connected[n]? = some true
  marked : ∀ n ∈ done, ip'.connected[n]? = some true
  fresh : timeMaster ip.port ≠ true → ∀ n ∈ done, ip.connected[n]? ≠ some true

theorem attached_nil (ip : InstancePort) : Attached ip ip [] where
  port := rfl
  length := rfl
  kept := fun _ h => h
  marked := fun _ h => absurd h List.not_mem_nil
  fresh := fun _ _ h => absurd h List.not_mem_nil

theorem set_kept {l : List Bool} {n m : Nat} (h : l[m]? = some true) : (l.set n true)[m]? = some true := by
  by_cases hnm : n = m
  · subst hnm
    rw [List.getElem?_set_self (List.getElem?_eq_some_iff.mp h).1]
  · rw [List.getElem?_set_ne hnm]
    exact h

/-- Marking one more element. -/
theorem Attached.snoc {ip ip₁ ip₂ : InstancePort} {done : List Nat} (h : Attached ip ip₁ done)
    (hport : ip₂.port = ip₁.port) (hset : ip₂.connected = ip₁.connected.set n true)
    (hlt : n < ip₁.connected.length) (htime : ip₁.connected[n]? = some true → timeMaster ip₁.port = true) :
    Attached ip ip₂ (done ++ [n]) where
  port := hport.trans h.port
  length := by rw [hset, List.length_set, h.length]
  kept := fun m hm => by
    rw [hset]
    exact set_kept (h.kept m hm)
  marked := fun m hm => by
    rw [hset]
    rcases List.mem_append.mp hm with hm | hm
    · exact set_kept (h.marked m hm)
    · rw [List.mem_singleton.mp hm, List.getElem?_set_self hlt]
  fresh := fun hmaster m hm => by
    rcases List.mem_append.mp hm with hm | hm
    · exact h.fresh hmaster m hm
    · rw [List.mem_singleton.mp hm]
      intro hmarked
      exact hmaster (h.port ▸ htime (h.kept n hmarked))

theorem attach_yields (ip : InstancePort) (count index : UInt64) :
    Yields (fun ip' => Attached ip ip' (List.range' index.toNat (count.toNat - index.toNat)))
      (Fails (count = 0) (index < count ∧ ip.connected.length < count.toNat)) (ip.attach count index) := by
  unfold InstancePort.attach
  split
  · next hzero => exact hzero
  refine Yields.foldlM (P := fun done ip' => Attached ip ip' done) (attached_nil ip) ?_
  intro done n ip₁ hn hdone
  refine (mark_yields ip₁ n).imp (fun ip₂ h => ?_) (fun e he => he.imp False.elim fun hle => ?_)
  · obtain ⟨hport, hset, hlt, htime⟩ := h
    exact hdone.snoc hport hset hlt htime
  · rw [hdone.length] at hle
    have hrange := List.mem_range'_1.mp hn
    exact ⟨UInt64.lt_iff_toNat_lt.mpr (by omega), by omega⟩

/-! ## The first pass -/

theorem min_eq_ite (a b : UInt64) : min a b = if a < b then a else b := by
  rw [show min a b = if a ≤ b then a else b from rfl]
  split_ifs with hle hlt hlt
  · rfl
  · exact UInt64.le_antisymm hle (UInt64.not_lt.mp hlt)
  · exact absurd (UInt64.le_of_lt hlt) hle
  · rfl

theorem min_le (a b : UInt64) : min a b ≤ a ∧ min a b ≤ b := by
  rw [show min a b = if a ≤ b then a else b from rfl]
  split_ifs with hle
  · exact ⟨UInt64.le_refl a, hle⟩
  · exact ⟨UInt64.le_of_lt (UInt64.not_le.mp hle), UInt64.le_refl b⟩

theorem narrow_le (w : Workers) (minCount : UInt64) (ap : ConnPort) : narrow w minCount ap ≤ minCount := by
  unfold narrow
  split
  · exact (min_le _ _).2
  · exact UInt64.le_refl minCount

theorem findPort_yields (w : Workers) (ap : ConnPort) :
    Yields (fun ref => found w ap = ref) (Fails False False) (findPort w ap) := by
  have hfail : Yields (fun _ => True) (Fails False False) (findPort w ap) := by
    refine Yields.foldlM (P := fun _ _ => True) trivial fun _ p found _ _ => ?_
    unfold findStep
    split_ifs
    all_goals trivial
  unfold found
  cases h : findPort w ap with
  | ok ref => exact rfl
  | error e => exact hfail.of_error h

/-- The first pass gives the width, and finds every port, its index below the count. -/
theorem scan_yields (w : Workers) (ports : List ConnPort) :
    Yields (fun count => count = ports.foldl (narrow w) 1000 ∧
        ∀ ap ∈ ports, ∃ ref, found w ap = some ref ∧ ap.index + 1 ≤ (w.port ref).count)
      (Fails False False) (ports.foldlM (scanPort w) 1000) := by
  refine Yields.foldlM (P := fun done count => count = done.foldl (narrow w) 1000 ∧
    ∀ ap ∈ done, ∃ ref, found w ap = some ref ∧ ap.index + 1 ≤ (w.port ref).count)
    ⟨rfl, fun _ h => absurd h List.not_mem_nil⟩ ?_
  rintro done ap minCount - ⟨hcount, hdone⟩
  unfold scanPort
  refine (findPort_yields w ap).bind fun ref hfound => ?_
  cases ref with
  | none => trivial
  | some ref =>
    dsimp only
    split
    · trivial
    · next hindex =>
      refine ⟨?_, fun ap' hap' => ?_⟩
      · rw [List.foldl_append, ← hcount, List.foldl_cons, List.foldl_nil, narrow, hfound]
        exact (min_eq_ite _ _).symm
      · rcases List.mem_append.mp hap' with h | h
        · exact hdone ap' h
        · rw [List.mem_singleton.mp h]
          exact ⟨ref, hfound, UInt64.not_lt.mp hindex⟩

theorem foldl_narrow_le (w : Workers) (ports : List ConnPort) (minCount : UInt64) :
    ports.foldl (narrow w) minCount ≤ minCount := by
  induction ports generalizing minCount with
  | nil => exact UInt64.le_refl minCount
  | cons ap ports ih => exact UInt64.le_trans (ih _) (narrow_le w minCount ap)

/-- A width of 0 is that of a port from its count on. -/
theorem exists_of_narrow_eq_zero (w : Workers) : ∀ (ports : List ConnPort) (minCount : UInt64),
    ports.foldl (narrow w) minCount = 0 → minCount ≠ 0 →
      ∃ ap ∈ ports, ∃ ref, found w ap = some ref ∧ (w.port ref).count = ap.index
  | [], minCount, hzero, hne => absurd hzero hne
  | ap :: ports, minCount, hzero, hne => by
    by_cases hnarrow : narrow w minCount ap = 0
    · unfold narrow at hnarrow
      cases hfound : found w ap with
      | none =>
        rw [hfound] at hnarrow
        exact absurd hnarrow hne
      | some ref =>
        rw [hfound] at hnarrow
        refine ⟨ap, List.mem_cons_self, ref, hfound, ?_⟩
        dsimp only at hnarrow
        rw [min_eq_ite] at hnarrow
        split at hnarrow
        · have hadd := UInt64.sub_add_cancel (w.port ref).count ap.index
          rw [hnarrow, UInt64.zero_add] at hadd
          exact hadd.symm
        · exact absurd hnarrow hne
    · obtain ⟨ap', hap', hshown⟩ := exists_of_narrow_eq_zero w ports _ hzero hnarrow
      exact ⟨ap', List.mem_cons_of_mem ap hap', hshown⟩

theorem width_le {conn : ConnDesc} {ap : ConnPort} {ref : PortRef} (hap : ap ∈ conn.ports)
    (hfound : found w ap = some ref) : width w conn ≤ (w.port ref).count - ap.index := by
  obtain ⟨before, after, hports⟩ := List.append_of_mem hap
  rw [width, hports, List.foldl_append, List.foldl_cons]
  refine UInt64.le_trans (foldl_narrow_le w after _) ?_
  rw [narrow, hfound]
  exact (min_le _ _).1

/-! ## The second pass -/

/-- The elements that `attach` marks for a port of a connection. -/
def Marks (count : UInt64) (ap : ConnPort) (n : Nat) : Prop := ap.index.toNat ≤ n ∧ n < count.toNat

theorem mem_marked {ap : ConnPort} :
    n ∈ List.range' ap.index.toNat (count.toNat - ap.index.toNat) ↔ Marks count ap n := by
  rw [List.mem_range'_1, Marks]
  omega

/-- What the second pass attaches for a port of a connection. -/
def attachmentOf (w : Workers) (ap : ConnPort) : Option Attachment :=
  (found w ap).map fun ref => ⟨.inst ref, ap.index⟩

/-- What the second pass has done when the ports `done` are attached. -/
structure Passed (w : Workers) (count : UInt64) (ports : PortRef → InstancePort) (done : List ConnPort)
    (s : Pass) : Prop where
  port : ∀ ref, (s.ports ref).port = (ports ref).port
  length : ∀ ref, (s.ports ref).connected.length = (ports ref).connected.length
  kept : ∀ ref, ∀ n : Nat, (ports ref).connected[n]? = some true → (s.ports ref).connected[n]? = some true
  attachments : s.attachments = done.filterMap (attachmentOf w)
  seen : s.seen.length = done.length
  marked : ∀ ap ∈ done, ∀ ref, found w ap = some ref → ∀ n, Marks count ap n →
    (s.ports ref).connected[n]? = some true
  fresh : ∀ ap ∈ done, ∀ ref, found w ap = some ref → timeMaster (ports ref).port ≠ true → ∀ n, Marks count ap n →
    (ports ref).connected[n]? ≠ some true

theorem passed_nil (w : Workers) (count : UInt64) (ports : PortRef → InstancePort) :
    Passed w count ports [] ⟨ports, [], []⟩ where
  port := fun _ => rfl
  length := fun _ => rfl
  kept := fun _ _ h => h
  attachments := rfl
  seen := rfl
  marked := fun _ h => absurd h List.not_mem_nil
  fresh := fun _ h => absurd h List.not_mem_nil

/-- Attaching one more port. -/
theorem Passed.snoc {ports : PortRef → InstancePort} {done : List ConnPort} {s s' : Pass} {ap : ConnPort}
    {ref : PortRef} {ip : InstancePort} (h : Passed w count ports done s) (hfound : found w ap = some ref)
    (hattached : Attached (s.ports ref) ip (List.range' ap.index.toNat (count.toNat - ap.index.toNat)))
    (hports : s'.ports = Function.update s.ports ref ip)
    (hattachments : s'.attachments = s.attachments ++ [⟨.inst ref, ap.index⟩])
    (hseen : s'.seen.length = s.seen.length + 1) :
    Passed w count ports (done ++ [ap]) s' := by
  have hsame : s'.ports ref = ip := by rw [hports, Function.update_self]
  have hother : ∀ ref', ref' ≠ ref → s'.ports ref' = s.ports ref' := fun ref' hne => by
    rw [hports, Function.update_of_ne hne]
  have hkept : ∀ ref', ∀ n : Nat, (s.ports ref').connected[n]? = some true →
      (s'.ports ref').connected[n]? = some true := by
    intro ref' n hn
    by_cases href : ref' = ref
    · subst href
      rw [hsame]
      exact hattached.kept n hn
    · rwa [hother ref' href]
  refine ⟨fun ref' => ?_, fun ref' => ?_, fun ref' n hn => hkept ref' n (h.kept ref' n hn), ?_, ?_, ?_, ?_⟩
  · by_cases href : ref' = ref
    · rw [href, hsame, hattached.port, h.port]
    · rw [hother ref' href, h.port]
  · by_cases href : ref' = ref
    · rw [href, hsame, hattached.length, h.length]
    · rw [hother ref' href, h.length]
  · have hnew : attachmentOf w ap = some ⟨.inst ref, ap.index⟩ := by
      rw [attachmentOf, hfound]
      rfl
    rw [hattachments, h.attachments, List.filterMap_append, List.filterMap_cons_some hnew, List.filterMap_nil]
  · rw [hseen, h.seen, List.length_append, List.length_singleton]
  · intro ap' hap' ref' hfound' n hn
    rcases List.mem_append.mp hap' with hap' | hap'
    · exact hkept ref' n (h.marked ap' hap' ref' hfound' n hn)
    · obtain rfl := List.mem_singleton.mp hap'
      obtain rfl : ref = ref' := Option.some.inj (hfound.symm.trans hfound')
      rw [hsame]
      exact hattached.marked n (mem_marked.mpr hn)
  · intro ap' hap' ref' hfound' hmaster n hn
    rcases List.mem_append.mp hap' with hap' | hap'
    · exact h.fresh ap' hap' ref' hfound' hmaster n hn
    · obtain rfl := List.mem_singleton.mp hap'
      obtain rfl : ref = ref' := Option.some.inj (hfound.symm.trans hfound')
      rw [← h.port] at hmaster
      exact fun hmarked => hattached.fresh hmaster n (mem_marked.mpr hn) (h.kept ref n hmarked)

theorem meetRoles_yields (p : Port) (role role' : Role) :
    Yields (fun _ => True) (Fails False False) (meetRoles p role role') := by
  unfold meetRoles
  split_ifs
  all_goals trivial

theorem attachConnPort_yields {ports : PortRef → InstancePort} {done : List ConnPort} {s : Pass}
    (h : Passed w count ports done s) {ap : ConnPort} {ref : PortRef} (hfound : found w ap = some ref) :
    Yields (Passed w count ports (done ++ [ap]))
      (Fails (count = 0) (ap.index < count ∧ (ports ref).connected.length < count.toNat))
      (attachConnPort w count s ap) := by
  unfold attachConnPort
  refine ((findPort_yields w ap).imp (fun _ h => h) (fun _ he => he.imp False.elim False.elim)).bind
    fun ref' hfound' => ?_
  obtain rfl : some ref = ref' := hfound.symm.trans hfound'
  refine ((meetRoles_yields _ _ _).imp (fun _ h => h) (fun _ he => he.imp False.elim False.elim)).bind
    fun roles _ => ?_
  refine ((attach_yields _ count ap.index).imp (fun _ h => h) (fun e he => he.imp id fun hout => ?_)).bind
    fun ip hip => ?_
  · exact ⟨hout.1, h.length ref ▸ hout.2⟩
  · exact h.snoc hfound ⟨hip.port, hip.length, hip.kept, hip.marked, hip.fresh⟩ rfl rfl
      (List.length_append.trans rfl)

/-- **The second pass** attaches every port of the connection. -/
theorem attachConnPorts_yields (w : Workers) (count : UInt64) (ports : PortRef → InstancePort)
    {conn : List ConnPort} (hall : ∀ ap ∈ conn, ∃ ref, found w ap = some ref) :
    Yields (Passed w count ports conn)
      (Fails (count = 0) (∃ ap ∈ conn, ∃ ref, found w ap = some ref ∧ ap.index < count ∧
        (ports ref).connected.length < count.toNat))
      (conn.foldlM (attachConnPort w count) ⟨ports, [], []⟩) := by
  refine Yields.foldlM (P := fun done s => Passed w count ports done s) (passed_nil w count ports) ?_
  intro done ap s hap hdone
  obtain ⟨ref, hfound⟩ := hall ap hap
  exact (attachConnPort_yields hdone hfound).imp (fun _ h => h) fun e he => he.imp id fun hout =>
    ⟨ap, hap, ref, hfound, hout⟩

/-! ## A connection -/

/-- The count of the port that is made for an external one. -/
def externalCount (count : UInt64) (ext : External) : UInt64 := if ext.count = 0 then count else ext.count

theorem externalPort_yields (p : Port) (count : UInt64) (ext : External) :
    Yields (fun p' => p'.count = externalCount count ext) (Fails False False)
      (externalPort p count ext) := by
  unfold externalPort
  rw [← externalCount]
  generalize externalCount count ext = c
  dsimp only
  split_ifs
  all_goals first
    | exact rfl
    | trivial

theorem init_length (p : Port) (ext : Option External) :
    (InstancePort.init p ext).connected.length = p.count.toNat :=
  List.length_replicate

/-- A port whose elements from the first one on are marked has at least these. -/
theorem Attached.le_count {ip ip' : InstancePort} (h : Attached ip ip' (List.range' 0 (count.toNat - 0))) :
    count.toNat ≤ ip.connected.length := by
  by_cases hzero : count.toNat = 0
  · omega
  · have hmarked := h.marked (count.toNat - 1) (List.mem_range'_1.mpr (by omega))
    have hlt := (List.getElem?_eq_some_iff.mp hmarked).1
    rw [h.length] at hlt
    omega

/-- The external port of a connection of one port is attached if its own count, where it has one, is not below
that of the connection. -/
theorem attachExternal_yields (s : Pass) (hpositive : count ≠ 0) (ext : External) :
    Yields (fun ip => ip.port.count = externalCount count ext ∧ (ext.count ≠ 0 → count ≤ ext.count) ∧
        s.seen.length = 1)
      (Fails (¬∃ ap ref index, s.seen = [ap] ∧ s.attachments = [⟨.inst ref, index⟩])
        (ext.count ≠ 0 ∧ ext.count < count)) (attachExternal s count ext) := by
  unfold attachExternal
  split
  · next ap ref _ hseen _ =>
    have hcount : (if ext.role.knownRole then ext else { ext with role := ap.role }).count = ext.count := by
      split_ifs <;> rfl
    revert hcount
    generalize (if ext.role.knownRole then ext else { ext with role := ap.role }) = ext'
    intro hcount
    dsimp only
    split
    · trivial
    · refine ((externalPort_yields _ count ext').imp (fun _ h => h) (fun _ he => he.imp False.elim False.elim)).bind
        fun p hp => ?_
      rw [externalCount, hcount] at hp
      refine (attach_yields _ count 0).imp (fun ip hip => ?_) (fun e he => he.imp (absurd · hpositive) fun hout => ?_)
      · refine ⟨hip.port ▸ hp, fun hne => ?_, by rw [hseen]; rfl⟩
        have hle : count.toNat ≤ p.count.toNat := init_length p _ ▸ hip.le_count
        rw [hp, if_neg hne] at hle
        exact UInt64.le_iff_toNat_le.mpr hle
      · have hlt : p.count.toNat < count.toNat := init_length p _ ▸ hout.2
        rw [hp] at hlt
        split_ifs at hlt with hzero
        · exact absurd hlt (Nat.lt_irrefl _)
        · exact ⟨hzero, UInt64.lt_iff_toNat_lt.mpr hlt⟩
  · next hnone =>
    rintro ⟨ap, ref, index, hseen, hattachments⟩
    exact hnone ap ref index hseen hattachments

/-- What a connection that is parsed has to do with its description. -/
structure Matches (w : Workers) (externals : List InstancePort) (conn : ConnDesc) (c : Connection) : Prop where
  count : c.count = width w conn
  positive : width w conn ≠ 0
  indices : ∀ ap ∈ conn.ports, ∃ ref, found w ap = some ref ∧ ap.index + 1 ≤ (w.port ref).count
  insts : ∀ ref index, ⟨.inst ref, index⟩ ∈ c.attachments ↔
    ∃ ap ∈ conn.ports, found w ap = some ref ∧ ap.index = index
  refs : c.attachments.filterMap (·.target.instPort) = conn.ports.filterMap (found w)
  external : c.attachments.any (·.target.isExternal) = !conn.externals.isEmpty
  single : conn.externals ≠ [] → conn.ports.length = 1
  room : ∀ ext ∈ conn.externals, ext.count ≠ 0 → width w conn ≤ ext.count
  exts : ∀ n index, ⟨.ext n, index⟩ ∈ c.attachments → index = 0 ∧
    ∃ ext ∈ conn.externals, ∃ ip, externals[n]? = some ip ∧ ip.port.count = externalCount (width w conn) ext
  externals : ∀ ext ∈ conn.externals, ∃ n ip, ⟨.ext n, 0⟩ ∈ c.attachments ∧ externals[n]? = some ip ∧
    ip.port.count = externalCount (width w conn) ext

/-- Later external ports come behind. -/
theorem Matches.mono {externals more : List InstancePort} {conn : ConnDesc} {c : Connection}
    (h : Matches w externals conn c) : Matches w (externals ++ more) conn c := by
  have hstill : ∀ {n : Nat} {ip}, externals[n]? = some ip → (externals ++ more)[n]? = some ip := fun {n ip} hn => by
    rw [List.getElem?_append_left (List.getElem?_eq_some_iff.mp hn).1, hn]
  refine ⟨h.count, h.positive, h.indices, h.insts, h.refs, h.external, h.single, h.room, fun n index hat => ?_,
    fun ext hext => ?_⟩
  · obtain ⟨hindex, ext, hext, ip, hip, hcount⟩ := h.exts n index hat
    exact ⟨hindex, ext, hext, ip, hstill hip, hcount⟩
  · obtain ⟨n, ip, hat, hip, hcount⟩ := h.externals ext hext
    exact ⟨n, ip, hat, hstill hip, hcount⟩

/-- What parsing a connection does to an assembly. -/
structure Parsed (w : Workers) (a : Assembly) (conn : ConnDesc) (c : Connection) (a' : Assembly) : Prop where
  passed : ∃ s, Passed w (width w conn) a.ports conn.ports s ∧ a'.ports = s.ports
  connections : a'.connections = a.connections ++ [c]
  externals : ∃ more, a'.externals = a.externals ++ more
  matches_ : Matches w a'.externals conn c
  behind : ∀ n index, ⟨.ext n, index⟩ ∈ c.attachments → a.externals.length ≤ n

/-- Why an access is out of range: the count of an external port is below that of the connection. -/
def Overrun (w : Workers) (conn : ConnDesc) : Prop :=
  ∃ ext ∈ conn.externals, ext.count ≠ 0 ∧ ext.count < width w conn

/-- Why an assertion fails: a connection with an external port has not exactly one other, or the connection has no
elements. -/
def Unbuilt (w : Workers) (conn : ConnDesc) : Prop :=
  (conn.externals ≠ [] ∧ conn.ports.length ≠ 1) ∨
    ∃ ap ∈ conn.ports, ∃ ref, found w ap = some ref ∧ (w.port ref).count = ap.index

theorem toNat_succ {i : UInt64} (h : i + 1 ≠ 0) : (i + 1).toNat = i.toNat + 1 := by
  have hlt : i.toNat < 2 ^ 64 := i.toNat_lt
  have hadd : (i + 1).toNat = (i.toNat + 1) % 2 ^ 64 := UInt64.toNat_add i 1
  by_cases hlast : i.toNat + 1 = 2 ^ 64
  · rw [hlast, Nat.mod_self] at hadd
    exact absurd (UInt64.toNat_inj.mp hadd) h
  · rw [hadd, Nat.mod_eq_of_lt (by omega)]

/-- An index that is checked without wrapping is inside the port with the width of the connection. -/
theorem inside_of_checked {conn : ConnDesc} {ap : ConnPort} {ref : PortRef} (hap : ap ∈ conn.ports)
    (hfound : found w ap = some ref) (hchecked : ap.index + 1 ≤ (w.port ref).count) (hindex : ap.index + 1 ≠ 0) :
    ap.index.toNat + (width w conn).toNat ≤ (w.port ref).count.toNat := by
  have hwidth : (width w conn).toNat ≤ ((w.port ref).count - ap.index).toNat :=
    UInt64.le_iff_toNat_le.mp (width_le hap hfound)
  have hle : ap.index.toNat + 1 ≤ (w.port ref).count.toNat :=
    toNat_succ hindex ▸ UInt64.le_iff_toNat_le.mp hchecked
  rw [UInt64.toNat_sub_of_le _ _ (UInt64.le_iff_toNat_le.mpr (by omega))] at hwidth
  omega

theorem succ_ne_zero_of_lt {i n : UInt64} (h : i < n) : i + 1 ≠ 0 := by
  intro hzero
  have hlt : i.toNat < n.toNat := UInt64.lt_iff_toNat_lt.mp h
  have hn : n.toNat < 2 ^ 64 := n.toNat_lt
  have hadd : (i + 1).toNat = (i.toNat + 1) % 2 ^ 64 := UInt64.toNat_add i 1
  rw [hzero, Nat.mod_eq_of_lt (by omega)] at hadd
  exact absurd hadd.symm (Nat.succ_ne_zero _)

theorem ne_zero_of_inside {i c n : UInt64} (h : i.toNat + c.toNat ≤ n.toNat) (hc : c ≠ 0) : i + 1 ≠ 0 := by
  intro hzero
  have hlt : n.toNat < 2 ^ 64 := n.toNat_lt
  have hpos : c.toNat ≠ 0 := fun hc' => hc (UInt64.toNat_inj.mp hc')
  have hadd : (i + 1).toNat = (i.toNat + 1) % 2 ^ 64 := UInt64.toNat_add i 1
  rw [hzero, Nat.mod_eq_of_lt (by omega)] at hadd
  exact absurd hadd.symm (Nat.succ_ne_zero _)

theorem Passed.insts {ports : PortRef → InstancePort} {done : List ConnPort} {s : Pass}
    (h : Passed w count ports done s) (ref : PortRef) (index : UInt64) :
    ⟨.inst ref, index⟩ ∈ s.attachments ↔ ∃ ap ∈ done, found w ap = some ref ∧ ap.index = index := by
  rw [h.attachments, List.mem_filterMap]
  refine exists_congr fun ap => and_congr_right fun _ => ?_
  rw [attachmentOf, Option.map_eq_some_iff]
  constructor
  · rintro ⟨ref', hfound, heq⟩
    injection heq with htarget hindex
    injection htarget with href
    exact ⟨href ▸ hfound, hindex⟩
  · rintro ⟨hfound, rfl⟩
    exact ⟨ref, hfound, rfl⟩

theorem Passed.refs {ports : PortRef → InstancePort} {done : List ConnPort} {s : Pass}
    (h : Passed w count ports done s) : s.attachments.filterMap (·.target.instPort) = done.filterMap (found w) := by
  rw [h.attachments, List.filterMap_filterMap]
  congr 1
  funext ap
  rw [attachmentOf]
  cases found w ap with
  | none => rfl
  | some ref => rfl

theorem Passed.no_ext {ports : PortRef → InstancePort} {done : List ConnPort} {s : Pass}
    (h : Passed w count ports done s) (n : Nat) (index : UInt64) : ⟨.ext n, index⟩ ∉ s.attachments := by
  rw [h.attachments, List.mem_filterMap]
  rintro ⟨ap, _, hat⟩
  obtain ⟨ref, _, heq⟩ := Option.map_eq_some_iff.mp hat
  injection heq with htarget
  exact nomatch htarget

theorem Passed.external {ports : PortRef → InstancePort} {done : List ConnPort} {s : Pass}
    (h : Passed w count ports done s) : s.attachments.any (·.target.isExternal) = false := by
  refine List.any_eq_false.mpr fun at_ hat hext => ?_
  obtain ⟨target, index⟩ := at_
  cases target with
  | inst ref => exact nomatch hext
  | ext n => exact h.no_ext n index hat

/-- `parseConnection` as its passes, the count being the width. -/
theorem parseConnection_yields {a : Assembly}
    (hlength : ∀ ref, (a.ports ref).connected.length = (w.port ref).count.toNat) (conn : ConnDesc) :
    Yields (fun a' => ∃ c, Parsed w a conn c a') (Fails (Unbuilt w conn) (Overrun w conn))
      (parseConnection w a conn) := by
  have hunbuilt (hzero : width w conn = 0) : Unbuilt w conn :=
    .inr (exists_of_narrow_eq_zero w conn.ports 1000 hzero (by decide))
  unfold parseConnection
  refine ((scan_yields w conn.ports).imp (fun _ h => h) (fun _ he => he.imp False.elim False.elim)).bind
    fun count hscan => ?_
  obtain ⟨rfl, hindices⟩ := hscan
  have hall : ∀ ap ∈ conn.ports, ∃ ref, found w ap = some ref := fun ap hap =>
    let ⟨ref, hfound, _⟩ := hindices ap hap
    ⟨ref, hfound⟩
  refine ((attachConnPorts_yields w (width w conn) a.ports hall).imp (fun _ h => h)
    (fun e he => he.imp hunbuilt fun hout => ?_)).bind fun s hs => ?_
  · -- an element below the width is inside the port
    obtain ⟨ap, hap, ref, hfound, hindex, hlt⟩ := hout
    obtain ⟨ref', hfound', hchecked⟩ := hindices ap hap
    obtain rfl : ref = ref' := Option.some.inj (hfound.symm.trans hfound')
    have hinside := inside_of_checked hap hfound hchecked (succ_ne_zero_of_lt hindex)
    rw [hlength ref] at hlt
    omega
  · split
    · next hzero => exact hunbuilt hzero
    · next hpositive =>
      split
      · next hnone =>
        refine ⟨_, ⟨s, hs, rfl⟩, rfl, ⟨[], (List.append_nil _).symm⟩,
          ⟨rfl, hpositive, hindices, hs.insts, hs.refs, ?_, ?_, ?_, ?_, ?_⟩, ?_⟩
        · rw [hs.external, hnone]
          rfl
        · exact fun hne => absurd hnone hne
        · exact fun ext hext => absurd (hnone ▸ hext) List.not_mem_nil
        · exact fun n index hat => absurd hat (hs.no_ext n index)
        · exact fun ext hext => absurd (hnone ▸ hext) List.not_mem_nil
        · exact fun n index hat => absurd hat (hs.no_ext n index)
      · next ext hone =>
        have hmem : ext ∈ conn.externals := hone ▸ List.mem_singleton_self ext
        refine ((attachExternal_yields s hpositive ext).imp (fun _ h => h) (fun e he =>
          he.imp (fun hnone => ?_) fun hout => ⟨ext, hmem, hout⟩)).bind fun ip ⟨hip, hroom, hseen⟩ => ?_
        · refine .inl ⟨List.ne_nil_of_mem hmem, fun hsingle => hnone ?_⟩
          obtain ⟨ap, hports⟩ := List.length_eq_one_iff.mp hsingle
          obtain ⟨ref, hfound⟩ := hall ap (hports ▸ List.mem_singleton_self ap)
          obtain ⟨ap', hseen⟩ := List.length_eq_one_iff.mp (hs.seen.trans hsingle)
          refine ⟨ap', ref, ap.index, hseen, ?_⟩
          rw [hs.attachments, hports, List.filterMap_cons_some (b := ⟨.inst ref, ap.index⟩), List.filterMap_nil]
          rw [attachmentOf, hfound]
          rfl
        · have hnew : (a.externals ++ [ip])[a.externals.length]? = some ip := by
            rw [List.getElem?_append_right (Nat.le_refl _), Nat.sub_self, List.getElem?_cons_zero]
          have hlast : ∀ n index, ⟨.ext n, index⟩ ∈ s.attachments ++ [(⟨.ext a.externals.length, 0⟩ : Attachment)] →
              n = a.externals.length ∧ index = 0 := by
            intro n index hat
            rcases List.mem_append.mp hat with hat | hat
            · exact absurd hat (hs.no_ext n index)
            · injection List.mem_singleton.mp hat with htarget hindex
              injection htarget with hn
              exact ⟨hn, hindex⟩
          refine ⟨_, ⟨s, hs, rfl⟩, rfl, ⟨[ip], rfl⟩,
            ⟨rfl, hpositive, hindices, ?_, ?_, ?_, fun _ => hs.seen.symm.trans hseen, ?_, ?_, ?_⟩, ?_⟩
          · intro ref index
            rw [List.mem_append, hs.insts, or_iff_left]
            intro hat
            injection List.mem_singleton.mp hat with htarget
            exact nomatch htarget
          · rw [List.filterMap_append, hs.refs]
            exact List.append_nil _
          · rw [List.any_append, hs.external, hone]
            rfl
          · intro ext' hext'
            rw [hone] at hext'
            obtain rfl := List.mem_singleton.mp hext'
            exact hroom
          · intro n index hat
            obtain ⟨rfl, rfl⟩ := hlast n index hat
            exact ⟨rfl, ext, hmem, ip, hnew, hip⟩
          · intro ext' hext'
            rw [hone] at hext'
            obtain rfl := List.mem_singleton.mp hext'
            exact ⟨_, ip, List.mem_append_right _ (List.mem_singleton_self _), hnew, hip⟩
          · intro n index hat
            exact Nat.le_of_eq (hlast n index hat).1.symm
      · trivial

/-! ## All the connections -/

/-- Two connections have no element that is marked for both. -/
def Exclusive (w : Workers) (conn conn' : ConnDesc) : Prop :=
  ∀ ap ∈ conn.ports, ∀ ap' ∈ conn'.ports, ∀ ref, found w ap = some ref → found w ap' = some ref →
    timeMaster (w.port ref) ≠ true → ∀ n, Marks (width w conn) ap n → ¬Marks (width w conn') ap' n

/-- Two connections have no external port in common. -/
def ExternalsApart (c c' : Connection) : Prop :=
  ∀ n i i', ⟨.ext n, i⟩ ∈ c.attachments → ⟨.ext n, i'⟩ ∉ c'.attachments

/-- The assembly that is built from the connections `done`. -/
structure Built (w : Workers) (done : List ConnDesc) (a : Assembly) : Prop where
  port : ∀ ref, (a.ports ref).port = w.port ref
  length : ∀ ref, (a.ports ref).connected.length = (w.port ref).count.toNat
  connections : List.Forall₂ (Matches w a.externals) done a.connections
  marked : ∀ conn ∈ done, ∀ ap ∈ conn.ports, ∀ ref, found w ap = some ref → ∀ n, Marks (width w conn) ap n →
    (a.ports ref).connected[n]? = some true
  apart : done.Pairwise (Exclusive w)
  exts : a.connections.Pairwise ExternalsApart

theorem built_nil (w : Workers) : Built w [] ⟨fun ref => .init (w.port ref) none, [], []⟩ where
  port := fun _ => rfl
  length := fun ref => init_length (w.port ref) none
  connections := .nil
  marked := fun _ h => absurd h List.not_mem_nil
  apart := .nil
  exts := .nil

theorem exists_of_mem_right {α β : Type} {R : α → β → Prop} {l : List α} {l' : List β} (h : List.Forall₂ R l l')
    {b : β} (hb : b ∈ l') : ∃ a ∈ l, R a b := by
  induction h with
  | nil => exact absurd hb List.not_mem_nil
  | cons hab _ ih =>
    rcases List.mem_cons.mp hb with rfl | hb
    · exact ⟨_, List.mem_cons_self .., hab⟩
    · obtain ⟨a, ha, hR⟩ := ih hb
      exact ⟨a, List.mem_cons_of_mem _ ha, hR⟩

/-- One more connection. -/
theorem Built.snoc {done : List ConnDesc} {a a' : Assembly} {conn : ConnDesc} {c : Connection}
    (h : Built w done a) (hparsed : Parsed w a conn c a') : Built w (done ++ [conn]) a' := by
  obtain ⟨s, hs, hports⟩ := hparsed.passed
  obtain ⟨more, hmore⟩ := hparsed.externals
  refine ⟨fun ref => ?_, fun ref => ?_, ?_, ?_, ?_, ?_⟩
  · rw [hports, hs.port, h.port]
  · rw [hports, hs.length, h.length]
  · rw [hparsed.connections]
    refine List.rel_append (h.connections.imp fun conn' c' hc' => ?_) (.cons hparsed.matches_ .nil)
    exact hmore ▸ hc'.mono
  · intro conn' hconn' ap hap ref hfound n hn
    rw [hports]
    rcases List.mem_append.mp hconn' with hconn' | hconn'
    · exact hs.kept ref n (h.marked conn' hconn' ap hap ref hfound n hn)
    · obtain rfl := List.mem_singleton.mp hconn'
      exact hs.marked ap hap ref hfound n hn
  · refine List.pairwise_append.mpr ⟨h.apart, List.pairwise_singleton _ _, ?_⟩
    intro conn' hconn' conn₁ hconn₁ ap hap ap' hap' ref hfound hfound' hmaster n hn hn'
    obtain rfl := List.mem_singleton.mp hconn₁
    rw [← h.port ref] at hmaster
    exact hs.fresh ap' hap' ref hfound' hmaster n hn' (h.marked conn' hconn' ap hap ref hfound n hn)
  · rw [hparsed.connections]
    refine List.pairwise_append.mpr ⟨h.exts, List.pairwise_singleton _ _, ?_⟩
    intro c' hc' c₁ hc₁ n i i' hat hat'
    obtain rfl := List.mem_singleton.mp hc₁
    obtain ⟨conn', _, hmatches⟩ := exists_of_mem_right h.connections hc'
    obtain ⟨_, _, _, ip, hip, _⟩ := hmatches.exts n i hat
    exact absurd (List.getElem?_eq_some_iff.mp hip).1 (Nat.not_lt.mpr (hparsed.behind n i' hat'))

/-- **The assembly is built from all the connections**, or the parser fails; out of range only in an overrun. -/
theorem parseAssy_yields (w : Workers) (conns : List ConnDesc) :
    Yields (Built w conns) (Fails (∃ conn ∈ conns, Unbuilt w conn) (∃ conn ∈ conns, Overrun w conn))
      (parseAssy w conns) := by
  unfold parseAssy
  have hloop : Yields (Built w conns) (Fails (∃ conn ∈ conns, Unbuilt w conn) (∃ conn ∈ conns, Overrun w conn))
      (conns.foldlM (parseConnection w) ⟨fun ref => .init (w.port ref) none, [], []⟩) := by
    refine Yields.foldlM (P := fun done a => Built w done a) (built_nil w) ?_
    intro done conn a hconn hdone
    refine (parseConnection_yields hdone.length conn).imp (fun a' h => ?_)
      (fun e he => he.imp (fun h => ⟨conn, hconn, h⟩) fun h => ⟨conn, hconn, h⟩)
    obtain ⟨c, hc⟩ := h
    exact hdone.snoc hc
  refine hloop.bind fun a ha => ?_
  split
  · trivial
  · exact ha

theorem pairwise_of_forall₂ {α β : Type} {R : α → β → Prop} {P : α → α → Prop} {Q : β → β → Prop} {l : List α}
    {l' : List β} (h : List.Forall₂ R l l') (hP : l.Pairwise P)
    (himp : ∀ a b a' b', R a b → R a' b' → P a a' → Q b b') : l'.Pairwise Q := by
  induction h with
  | nil => exact .nil
  | cons hab htail ih =>
    obtain ⟨hhead, hrest⟩ := List.pairwise_cons.mp hP
    refine List.pairwise_cons.mpr ⟨fun b' hb' => ?_, ih hrest⟩
    obtain ⟨a', ha', hR⟩ := exists_of_mem_right htail hb'
    exact himp _ _ _ _ hab hR (hhead a' ha')

/-! ## The ranges of a built assembly -/

variable {a : Assembly} {conns : List ConnDesc}

theorem portOf_ext {m : Nat} {p : InstancePort} (h : a.externals[m]? = some p) : a.portOf (.ext m) = p.port := by
  rw [Assembly.portOf, h]
  rfl

theorem Built.inside_iff (h : Built w conns a) : Inside a ↔
    (∀ conn ∈ conns, ∀ ap ∈ conn.ports, ap.index + 1 ≠ 0) ∧
      ∀ conn ∈ conns, ∀ ext ∈ conn.externals, ext.count ≠ 0 → width w conn ≤ ext.count := by
  constructor
  · intro hinside
    refine ⟨fun conn hconn ap hap => ?_, fun conn hconn ext hext hcount => ?_⟩
    · obtain ⟨c, hc, hmatches⟩ := exists_of_mem_right h.connections.flip hconn
      obtain ⟨ref, hfound, _⟩ := hmatches.indices ap hap
      have hle := hinside c hc _ ((hmatches.insts ref ap.index).mpr ⟨ap, hap, hfound, rfl⟩)
      rw [hmatches.count] at hle
      exact ne_zero_of_inside hle hmatches.positive
    · obtain ⟨c, hc, hmatches⟩ := exists_of_mem_right h.connections.flip hconn
      obtain ⟨n, ip, hat, hip, hip_count⟩ := hmatches.externals ext hext
      have hle := hinside c hc _ hat
      rw [portOf_ext hip, hip_count, externalCount, if_neg hcount, hmatches.count] at hle
      exact UInt64.le_iff_toNat_le.mpr (Nat.le_trans (Nat.le_add_left _ _) hle)
  · rintro ⟨hindices, hexternals⟩ c hc ⟨target, index⟩ hat
    obtain ⟨conn, hconn, hmatches⟩ := exists_of_mem_right h.connections hc
    rw [hmatches.count]
    cases target with
    | inst ref =>
      obtain ⟨ap, hap, hfound, rfl⟩ := (hmatches.insts ref index).mp hat
      obtain ⟨ref', hfound', hchecked⟩ := hmatches.indices ap hap
      obtain rfl : ref = ref' := Option.some.inj (hfound.symm.trans hfound')
      have hle := inside_of_checked hap hfound hchecked (hindices conn hconn ap hap)
      rwa [← h.port ref] at hle
    | ext n =>
      obtain ⟨rfl, ext, hext, ip, hip, hcount⟩ := hmatches.exts n index hat
      have hle : width w conn ≤ externalCount (width w conn) ext := by
        unfold externalCount
        split_ifs with hzero
        · exact UInt64.le_refl _
        · exact hexternals conn hconn ext hext hzero
      rw [portOf_ext hip, hcount]
      simpa using UInt64.le_iff_toNat_le.mp hle

theorem Built.apart_iff (h : Built w conns a) : Apart a ↔ conns.Pairwise (ProperPair w) := by
  have hsame : ∀ ref, timeMaster (w.port ref) ≠ true → timeMaster (a.portOf (.inst ref)) ≠ true := fun ref => by
    rw [Assembly.portOf, h.port ref]
    exact id
  constructor
  · intro hapart
    refine pairwise_of_forall₂ h.connections.flip hapart ?_
    intro c conn c' conn' hmatches hmatches' hpair ap hap ap' hap' ref hfound hfound' hmaster _
    have hnone := hpair _ ((hmatches.insts ref ap.index).mpr ⟨ap, hap, hfound, rfl⟩) _
      ((hmatches'.insts ref ap'.index).mpr ⟨ap', hap', hfound', rfl⟩) rfl (hsame ref hmaster)
    rwa [hmatches.count, hmatches'.count] at hnone
  · intro hproper
    have hinsts : a.connections.Pairwise fun c c' => ∀ ref i i', ⟨.inst ref, i⟩ ∈ c.attachments →
        ⟨.inst ref, i'⟩ ∈ c'.attachments → timeMaster (w.port ref) ≠ true → NoneShared i c.count i' c'.count := by
      refine pairwise_of_forall₂ h.connections (hproper.and h.apart) ?_
      intro conn c conn' c' hmatches hmatches' ⟨hpair, hexclusive⟩ ref i i' hat hat' hmaster
      obtain ⟨ap, hap, hfound, rfl⟩ := (hmatches.insts ref i).mp hat
      obtain ⟨ap', hap', hfound', rfl⟩ := (hmatches'.insts ref i').mp hat'
      rw [hmatches.count, hmatches'.count]
      by_cases hboth : ap.index = 0 ∧ ap'.index = 0
      · -- both mark the first element
        have hmarks : ∀ {conn : ConnDesc} {ap : ConnPort}, width w conn ≠ 0 → ap.index = 0 →
            Marks (width w conn) ap 0 := fun hpositive hzero =>
          ⟨by rw [hzero]; exact Nat.le_refl 0, Nat.pos_of_ne_zero fun hw => hpositive (UInt64.toNat_inj.mp hw)⟩
        exact absurd (hmarks hmatches'.positive hboth.2)
          (hexclusive ap hap ap' hap' ref hfound hfound' hmaster 0 (hmarks hmatches.positive hboth.1))
      · exact hpair ap hap ap' hap' ref hfound hfound' hmaster (Decidable.not_and_iff_not_or_not.mp hboth)
    refine (hinsts.and h.exts).imp ?_
    rintro c c' ⟨hinst, hext⟩ ⟨target, i⟩ hat ⟨target', i'⟩ hat' rfl hmaster
    cases target with
    | inst ref => exact hinst ref i i' hat hat' (h.port ref ▸ hmaster)
    | ext n => exact absurd hat' (hext n i i' hat)

/-- **Where the parser does not reject an assembly, port elements are connected once and in range if and only if
the assembly is proper.** -/
theorem elements_sound_iff {w : Workers} {conns : List ConnDesc} (h : ¬Rejected (parseAssy w conns)) :
    Sound (parseAssy w conns) ↔ Proper w conns := by
  have hyields := parseAssy_yields w conns
  cases hparse : parseAssy w conns with
  | ok a =>
    have hbuilt : Built w conns a := hyields.of_ok hparse
    constructor
    · rintro ⟨hinside, hapart⟩
      exact ⟨(hbuilt.inside_iff.mp hinside).1, (hbuilt.inside_iff.mp hinside).2, hbuilt.apart_iff.mp hapart⟩
    · intro hproper
      exact ⟨hbuilt.inside_iff.mpr ⟨hproper.indices, hproper.externals⟩, hbuilt.apart_iff.mpr hproper.apart⟩
  | error e =>
    have hout : e = .outOfRange := Decidable.byContradiction fun hne => h (hparse ▸ hne)
    refine ⟨fun hsound => absurd hout hsound, fun hproper => ?_⟩
    subst hout
    obtain ⟨conn, hconn, ext, hext, hcount, hlt⟩ := hyields.of_error hparse
    exact absurd hlt (UInt64.not_lt.mpr (hproper.externals conn hconn ext hext hcount))

/-! ## A port of two elements -/

def source : Port := ⟨"out", 2, true, true, false, false, true, false⟩

def sink : Port := ⟨"in", 2, true, false, false, false, false, false⟩

/-- A port of one element. -/
def single : Port := { sink with count := 1 }

def outOf (inst : Nat) (index : UInt64) : ConnPort := ⟨inst, "out", index, ⟨true, false, false⟩⟩

def into (inst : Nat) (index : UInt64) : ConnPort := ⟨inst, "in", index, ⟨true, false, true⟩⟩

/-- Each element of one port is connected to another instance. -/
def bothElements : List ConnDesc := [⟨"c", [outOf 0 0, into 1 0], []⟩, ⟨"d", [outOf 0 1, into 2 0], []⟩]

theorem both_connected : (∃ a, parseAssy [[source], [single], [single]] bothElements = .ok a) ∧
    Sound (parseAssy [[source], [single], [single]] bothElements) := by
  have haccepted : ¬Rejected (parseAssy [[source], [single], [single]] bothElements) := id
  refine ⟨⟨_, rfl⟩, (elements_sound_iff haccepted).mpr ⟨by decide, by decide, List.pairwise_pair.mpr ?_⟩⟩
  intro ap hap ap' hap' ref hfound hfound' _ _
  have hother (ref' : PortRef) (h : found [[source], [single], [single]] ap' = some ref') (hne : ref ≠ ref') :
      NoneShared ap.index (width [[source], [single], [single]] ⟨"c", [outOf 0 0, into 1 0], []⟩) ap'.index
        (width [[source], [single], [single]] ⟨"d", [outOf 0 1, into 2 0], []⟩) :=
    absurd (Option.some.inj (hfound'.symm.trans h)) hne
  rcases List.mem_pair.mp hap with rfl | rfl
  · obtain rfl : (0, 0) = ref := Option.some.inj hfound
    rcases List.mem_pair.mp hap' with rfl | rfl
    · decide
    · exact hother (2, 0) rfl (by decide)
  · obtain rfl : (1, 0) = ref := Option.some.inj hfound
    rcases List.mem_pair.mp hap' with rfl | rfl
    · exact hother (0, 0) rfl (by decide)
    · exact hother (2, 0) rfl (by decide)

/-- Two connections of the second element of one port. -/
def secondTwice : List ConnDesc := [⟨"c", [outOf 0 1, into 1 1], []⟩, ⟨"d", [outOf 0 1, into 2 1], []⟩]

/-- An external port of one element for both. -/
def bothOutside : List ConnDesc := [⟨"c", [outOf 0 0], [⟨"out", 0, 1, ⟨true, false, false⟩⟩]⟩]

/-- **The second element of a port is connected twice; and an element is marked behind the end of a port.** -/
theorem second_connected_twice : (∃ a, parseAssy [[source], [sink], [sink]] secondTwice = .ok a ∧ ¬Apart a) ∧
    parseAssy [[source]] bothOutside = .error .outOfRange := by
  refine ⟨⟨_, rfl, fun hapart => ?_⟩, rfl⟩
  have hbuilt := (parseAssy_yields [[source], [sink], [sink]] secondTwice).of_ok rfl
  have hpair := (List.pairwise_cons.mp (hbuilt.apart_iff.mp hapart)).1 _ (List.mem_singleton_self _)
  have hnone := hpair (outOf 0 1) (List.mem_cons_self ..) (outOf 0 1) (List.mem_cons_self ..) (0, 0) rfl rfl
    (by decide) (by decide)
  exact absurd hnone (by decide)

end OpenCpi.HdlAssembly
