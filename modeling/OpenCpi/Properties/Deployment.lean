import Mathlib.Data.List.Forall2
import Mathlib.Data.List.Pairwise
import Mathlib.Data.Nat.Bitwise
import OpenCpi.Application.Search

/-!
# The deployment that is found

The search places one instance after another and looks at what was placed before. It tries every container
for a fixed implementation; otherwise it stops at the first container that is suitable, as the container
makes no difference to what comes later. So it finds a deployment with the largest score among those that
pass the constraints, as long as the words of 32 bits tell the truth wherever it looks at them.
-/

namespace OpenCpi.Application

open Infra Util

variable {a : Assembly}

/-- A candidate for an instance and where it is placed. -/
abbrev Placement := Candidate × Deployment

def total (ps : List Placement) : Nat := (ps.map fun p => p.1.score).sum

theorem total_concat (ps : List Placement) (p : Placement) : total (ps ++ [p]) = total ps + p.1.score := by
  unfold total
  rw [List.map_append, List.sum_append]
  rfl

/-! ## The constraints -/

/-- Two placements do not book the same container twice: fixed implementations on a container are different
ones of one artifact. -/
def Compatible (p q : Placement) : Prop :=
  p.1.impl.staticInstance = true → q.1.impl.staticInstance = true → p.2.container = q.2.container →
    p.1.impl.artifact = q.1.impl.artifact ∧ p.1.impl.ordinal ≠ q.1.impl.ordinal

instance : Std.Symm Compatible :=
  ⟨fun _ _ h hq hp hcont => ⟨(h hp hq hcont.symm).1.symm, (h hp hq hcont.symm).2.symm⟩⟩

theorem compatible_dynamic {q : Placement} {c : Candidate} {d : Deployment}
    (h : c.impl.staticInstance = false) : Compatible q (c, d) := fun _ hstatic => by
  have hstatic : c.impl.staticInstance = true := hstatic
  rw [h] at hstatic
  cases hstatic

/-- The connected ports of an instance and of an instance before are not wired otherwise. -/
def ConnectionsPass (a : Assembly) (ps : List Placement) (n : Nat) (impl : Implementation) : Prop :=
  ∀ port < impl.ports.length, ∀ other name, a.connectedPort n port = some (other, name) → other < n →
    ∀ q ∈ ps[other]?, badConnection impl q.1.impl name port = some false

/-- A candidate on a suitable container for each instance. -/
def Places (a : Assembly) (instances : List (List Candidate)) (ps : List Placement) : Prop :=
  List.Forall₂ (fun cs p => cs[p.2.candidate]? = some p.1 ∧ p.2.container < a.nContainers ∧
    p.1.suitable p.2.container = true) instances ps

/-- An assignment passes the constraints. -/
structure Passes (a : Assembly) (instances : List (List Candidate)) (ps : List Placement) : Prop where
  places : Places a instances ps
  connections : ∀ n, ∀ p ∈ ps[n]?, ConnectionsPass a ps n p.1.impl
  bookings : ps.Pairwise Compatible

/-- A fixed implementation is placed on a container. -/
def FixedAt (cont : Nat) (p : Placement) : Prop := p.1.impl.staticInstance = true ∧ p.2.container = cont

/-- The bookings after the placements of the instances before. -/
def bookingsOf (ps : List Placement) : Nat → Booking :=
  ps.foldl (fun bookings p => book bookings p.2.container p.1.impl) fun _ => {}

/-- The search gets to a container: the implementation is fixed, or no container before is suitable. -/
def Tried (c : Candidate) (cont : Nat) : Prop :=
  c.impl.staticInstance = true ∨ ∀ k < cont, c.suitable k = false

/-- **The words tell the truth** for a candidate that comes after some placements. -/
structure Telling (a : Assembly) (ps : List Placement) (c : Candidate) : Prop where
  /-- each port that is looked at is found by its name -/
  ports : connectionsOk a (ps.map fun p => p.1.impl) c.impl ≠ none
  /-- a container that is tried, booked for nothing else and not suitable has the bit of none that is -/
  containers : ConnectionsPass a ps ps.length c.impl → ∀ cont < a.nContainers, Tried c cont →
    bookingOk (bookingsOf ps cont) c.impl = true → c.suitable cont = false →
      ∀ k < a.nContainers, c.suitable k = true → k % 32 ≠ cont % 32
  /-- on a container where the candidate may be placed, no implementation has the bit of its ordinal -/
  ordinals : ConnectionsPass a ps ps.length c.impl → ∀ d : Deployment, d.container < a.nContainers →
    c.suitable d.container = true → c.impl.staticInstance = true → (∀ q ∈ ps, Compatible q (c, d)) →
      ∀ q ∈ ps, FixedAt d.container q → q.1.impl.ordinal % 32 ≠ c.impl.ordinal % 32

/-- Each instance has a candidate that some container suits. Otherwise nothing is searched. -/
def Offered (a : Assembly) : Prop :=
  ∀ cs ∈ a.instances, ∃ c ∈ cs, ∃ cont < a.nContainers, c.suitable cont = true

/-- The words tell the truth after all placements that pass the constraints, the sums of scores fit, and one of
them is positive. -/
structure Fits (a : Assembly) : Prop where
  telling : ∀ before cs rest, a.instances = before ++ cs :: rest → ∀ ps, Passes a before ps → ∀ c ∈ cs,
    Telling a ps c
  scores : ∀ ps, Passes a a.instances ps → total ps < 2 ^ 32
  positive : ∀ ps, Passes a a.instances ps → ∃ ps', Passes a a.instances ps' ∧ 0 < total ps'

/-! ## Words -/

theorem and_bit_ne_zero {mask n : Nat} : mask &&& bit n ≠ 0 ↔ mask.testBit (n % 32) = true := by
  unfold bit
  rw [Nat.and_two_pow]
  cases mask.testBit (n % 32) with
  | true => simp
  | false => simp

theorem testBit_foldl_bit {suitable : Nat → Bool} : ∀ {conts : List Nat} {curMap k : Nat},
    (conts.foldl (fun curMap cont => if suitable cont then curMap ||| bit cont else curMap) curMap).testBit k =
        true ↔
      curMap.testBit k = true ∨ ∃ cont ∈ conts, suitable cont = true ∧ cont % 32 = k
  | [], curMap, k => by simp
  | cont :: conts, curMap, k => by
    rw [List.foldl_cons, testBit_foldl_bit]
    simp only [List.mem_cons, exists_eq_or_imp]
    by_cases hsuitable : suitable cont = true
    · rw [if_pos hsuitable, Nat.testBit_or, Bool.or_eq_true, or_assoc]
      unfold bit
      rw [Nat.testBit_two_pow, decide_eq_true_eq, and_iff_right hsuitable]
    · rw [if_neg hsuitable]
      exact or_congr_right (or_iff_right fun h => hsuitable h.1).symm

theorem feasibleContainers_testBit {c : Candidate} {nContainers k : Nat} :
    (c.feasibleContainers nContainers).testBit k = true ↔
      ∃ cont < nContainers, c.suitable cont = true ∧ cont % 32 = k := by
  unfold Candidate.feasibleContainers
  rw [testBit_foldl_bit, Nat.zero_testBit]
  simp

theorem feasibleContainers_ne_zero {c : Candidate} {nContainers cont : Nat} (hcont : cont < nContainers)
    (hsuitable : c.suitable cont = true) : c.feasibleContainers nContainers ≠ 0 := by
  intro hzero
  have hbit := feasibleContainers_testBit.mpr ⟨cont, hcont, hsuitable, rfl⟩
  rw [hzero, Nat.zero_testBit] at hbit
  cases hbit

/-! ## Bookings -/

theorem bookingsOf_concat (ps : List Placement) (p : Placement) :
    bookingsOf (ps ++ [p]) = book (bookingsOf ps) p.2.container p.1.impl := by
  unfold bookingsOf
  rw [List.foldl_append]
  rfl

/-- A booking has the last artifact that was placed on the container, and the ordinals of all that were. -/
theorem bookingsOf_spec (cont : Nat) : ∀ ps : List Placement,
    (∀ art ∈ (bookingsOf ps cont).artifact, ∃ p ∈ ps, FixedAt cont p ∧ p.1.impl.artifact = art) ∧
      ((bookingsOf ps cont).artifact = none → ∀ p ∈ ps, ¬FixedAt cont p) ∧
        ∀ k, (bookingsOf ps cont).usedImpls.testBit k = true ↔
          ∃ p ∈ ps, FixedAt cont p ∧ p.1.impl.ordinal % 32 = k := by
  intro ps
  induction ps using List.reverseRecOn with
  | nil =>
    refine ⟨(fun art hart => nomatch hart), fun _ p hp => absurd hp List.not_mem_nil, fun k => ?_⟩
    show (0 : Nat).testBit k = true ↔ _
    simp
  | append_singleton ps p ih =>
    obtain ⟨hartifact, hnone, hused⟩ := ih
    rw [bookingsOf_concat]
    by_cases hp : FixedAt cont p
    · obtain ⟨hstatic, rfl⟩ := hp
      have hbook : book (bookingsOf ps) p.2.container p.1.impl p.2.container =
          ⟨some p.1.impl.artifact, (bookingsOf ps p.2.container).usedImpls ||| bit p.1.impl.ordinal⟩ := by
        unfold book
        rw [if_pos hstatic, Function.update_self]
      rw [hbook]
      refine ⟨?_, (fun h => nomatch h), fun k => ?_⟩
      · intro art hart
        cases hart
        exact ⟨p, List.mem_append_right ps List.mem_cons_self, ⟨hstatic, rfl⟩, rfl⟩
      · rw [Nat.testBit_or, Bool.or_eq_true, hused k]
        unfold bit
        rw [Nat.testBit_two_pow, decide_eq_true_eq]
        simp only [List.mem_append, List.mem_singleton, or_and_right, exists_or, exists_eq_left]
        exact or_congr_right (and_iff_right ⟨hstatic, rfl⟩).symm
    · have hbook : book (bookingsOf ps) p.2.container p.1.impl cont = bookingsOf ps cont := by
        unfold book
        split
        · next hstatic => exact Function.update_of_ne (fun heq => hp ⟨hstatic, heq.symm⟩) ..
        · rfl
      rw [hbook]
      refine ⟨fun art hart => ?_, fun h q hq => ?_, fun k => ?_⟩
      · obtain ⟨q, hq, hfixed⟩ := hartifact art hart
        exact ⟨q, List.mem_append_left [p] hq, hfixed⟩
      · rcases List.mem_append.mp hq with hq | hq
        · exact hnone h q hq
        · rw [List.mem_singleton.mp hq]
          exact hp
      · rw [hused k]
        simp only [List.mem_append, List.mem_singleton, or_and_right, exists_or, exists_eq_left]
        exact (or_iff_left fun h => hp h.1).symm

/-- The check of a booking compares with all that was placed before. -/
theorem bookingOk_iff {ps : List Placement} {p : Placement} (hps : ps.Pairwise Compatible)
    (hordinals : p.1.impl.staticInstance = true → (∀ q ∈ ps, Compatible q p) →
      ∀ q ∈ ps, FixedAt p.2.container q → q.1.impl.ordinal % 32 ≠ p.1.impl.ordinal % 32) :
    bookingOk (bookingsOf ps p.2.container) p.1.impl = true ↔ ∀ q ∈ ps, Compatible q p := by
  obtain ⟨hartifact, hnone, hused⟩ := bookingsOf_spec p.2.container ps
  have hbooked : (bookingsOf ps p.2.container).usedImpls &&& bit p.1.impl.ordinal ≠ 0 ↔
      ∃ q ∈ ps, FixedAt p.2.container q ∧ q.1.impl.ordinal % 32 = p.1.impl.ordinal % 32 :=
    and_bit_ne_zero.trans (hused _)
  unfold bookingOk
  cases hstatic : p.1.impl.staticInstance with
  | false =>
    refine ⟨fun _ q _ _ hp => ?_, fun _ => rfl⟩
    rw [hstatic] at hp
    cases hp
  | true =>
    cases hart : (bookingsOf ps p.2.container).artifact with
    | none =>
      refine ⟨fun _ q hq hfixed _ hcont => absurd ⟨hfixed, hcont⟩ (hnone hart q hq), fun _ => rfl⟩
    | some art =>
      obtain ⟨r, hr, ⟨hrstatic, hrcont⟩, hrart⟩ := hartifact art hart
      -- all that is placed there is of one artifact
      have hsame (q : Placement) (hq : q ∈ ps) (hfixed : FixedAt p.2.container q) :
          q.1.impl.artifact = art := by
        by_cases heq : q = r
        · rw [heq]
          exact hrart
        · have hcompat : Compatible q r := hps.forall hq hr heq
          rw [← hrart]
          exact (hcompat hfixed.1 hrstatic (hfixed.2.trans hrcont.symm)).1
      have hsplit : (!(true && (some art).isSome && (some art != some p.1.impl.artifact ||
          (bookingsOf ps p.2.container).usedImpls &&& bit p.1.impl.ordinal != 0))) = true ↔
            art = p.1.impl.artifact ∧
              ¬(bookingsOf ps p.2.container).usedImpls &&& bit p.1.impl.ordinal ≠ 0 := by
        simp
      rw [hsplit, hbooked]
      constructor
      · rintro ⟨rfl, hfree⟩ q hq hqstatic _ hcont
        refine ⟨hsame q hq ⟨hqstatic, hcont⟩, fun heq => hfree ⟨q, hq, ⟨hqstatic, hcont⟩, by rw [heq]⟩⟩
      · intro hall
        refine ⟨?_, ?_⟩
        · rw [← hrart]
          exact (hall r hr hrstatic hstatic hrcont).1
        · rintro ⟨q, hq, hfixed, hmod⟩
          exact hordinals hstatic hall q hq hfixed hmod

/-- Where a fixed implementation may be placed, no other one has its bit. -/
theorem bit_free_of_bookingOk {ps : List Placement} {impl : Implementation} {cont : Nat}
    (hstatic : impl.staticInstance = true) (h : bookingOk (bookingsOf ps cont) impl = true) :
    ∀ q ∈ ps, FixedAt cont q → q.1.impl.ordinal % 32 ≠ impl.ordinal % 32 := by
  intro q hq hfixed hmod
  obtain ⟨-, hnone, hused⟩ := bookingsOf_spec cont ps
  have hbit : (bookingsOf ps cont).usedImpls &&& bit impl.ordinal ≠ 0 :=
    and_bit_ne_zero.mpr ((hused _).mpr ⟨q, hq, hfixed, hmod⟩)
  have hartifact : (bookingsOf ps cont).artifact.isSome = true :=
    Option.isSome_iff_ne_none.mpr fun hempty => hnone hempty q hq hfixed
  unfold bookingOk at h
  rw [hstatic, hartifact, bne_iff_ne.mpr hbit, Bool.or_true] at h
  exact Bool.false_ne_true h

/-! ## Connections -/

theorem connectionsLoop_iff {impls : List Implementation} {impl : Implementation} : ∀ {ports : List Nat},
    connectionsLoop a impls impl ports = some true ↔
      ∀ port ∈ ports, ∀ other name, a.connectedPort impls.length port = some (other, name) →
        ∀ o ∈ impls[other]?, badConnection impl o name port = some false
  | [] => ⟨fun _ _ hport => absurd hport List.not_mem_nil, fun _ => rfl⟩
  | nn :: ports => by
    have hrest : connectionsLoop a impls impl ports = some true ↔
        ∀ port ∈ ports, ∀ other name, a.connectedPort impls.length port = some (other, name) →
          ∀ o ∈ impls[other]?, badConnection impl o name port = some false := connectionsLoop_iff
    rw [List.forall_mem_cons, ← hrest]
    conv_lhs => unfold connectionsLoop
    cases hconn : a.connectedPort impls.length nn with
    | none =>
      refine ⟨fun h => ⟨fun other name hsome => ?_, h⟩, And.right⟩
      cases hsome
    | some conn =>
      obtain ⟨other, name⟩ := conn
      cases hother : impls[other]? with
      | none =>
        refine ⟨fun h => ⟨fun other' name' heq o ho => ?_, ?_⟩, fun h => ?_⟩
        · cases heq
          rw [hother] at ho
          cases ho
        · dsimp only at h
          rw [hother] at h
          exact h
        · dsimp only
          rw [hother]
          exact h.2
      | some o =>
        dsimp only
        rw [hother]
        dsimp only
        constructor
        · intro h
          obtain ⟨bad, hbad, hrest⟩ := Option.bind_eq_some_iff.mp h
          cases bad with
          | true => exact absurd (Option.some.inj hrest) Bool.false_ne_true
          | false =>
            refine ⟨fun other' name' heq o' ho' => ?_, hrest⟩
            cases heq
            rw [hother] at ho'
            cases ho'
            exact hbad
        · rintro ⟨hfirst, hrest⟩
          rw [hfirst other name rfl o hother, Option.bind_some]
          exact hrest

/-- The check of an instance looks at the connections to the instances before. -/
theorem connectionsOk_iff {ps : List Placement} {impl : Implementation} :
    connectionsOk a (ps.map fun p => p.1.impl) impl = some true ↔ ConnectionsPass a ps ps.length impl := by
  unfold connectionsOk
  rw [connectionsLoop_iff, List.length_map]
  constructor
  · intro h port hport other name hconn _ q hq
    refine h port (List.mem_range.mpr hport) other name hconn q.1.impl ?_
    rw [List.getElem?_map, hq]
    rfl
  · intro h port hport other name hconn o ho
    rw [List.getElem?_map] at ho
    obtain ⟨q, hq, rfl⟩ := Option.map_eq_some_iff.mp ho
    have hlt : other < ps.length := (List.getElem?_eq_some_iff.mp hq).1
    exact h port (List.mem_range.mp hport) other name hconn hlt q hq

/-- Only the placements before an instance matter to it. -/
theorem connectionsPass_append {ps qs : List Placement} {n : Nat} {impl : Implementation}
    (hn : n ≤ ps.length) : ConnectionsPass a (ps ++ qs) n impl ↔ ConnectionsPass a ps n impl := by
  have hsame {other : Nat} (hother : other < n) : (ps ++ qs)[other]? = ps[other]? :=
    List.getElem?_append_left (Nat.lt_of_lt_of_le hother hn)
  constructor
  · intro h port hport other name hconn hother q hq
    exact h port hport other name hconn hother q (by rw [hsame hother]; exact hq)
  · intro h port hport other name hconn hother q hq
    rw [hsame hother] at hq
    exact h port hport other name hconn hother q hq

/-! ## Placing one more instance -/

/-- A placement of the next instance that passes the constraints. -/
structure Admitted (a : Assembly) (cs : List Candidate) (ps : List Placement) (p : Placement) : Prop where
  candidate : cs[p.2.candidate]? = some p.1
  container : p.2.container < a.nContainers
  suitable : p.1.suitable p.2.container = true
  connections : ConnectionsPass a ps ps.length p.1.impl
  bookings : ∀ q ∈ ps, Compatible q p

theorem Passes.left {before rest : List (List Candidate)} {ps qs : List Placement}
    (h : Passes a (before ++ rest) (ps ++ qs)) (hlength : before.length = ps.length) : Passes a before ps := by
  refine ⟨?_, fun n p hp => ?_, (List.pairwise_append.mp h.bookings).1⟩
  · have htake := List.forall₂_take before.length h.places
    rw [List.take_left] at htake
    rw [hlength, List.take_left] at htake
    exact htake
  · have hlt : n < ps.length := (List.getElem?_eq_some_iff.mp hp).1
    have hmem : p ∈ (ps ++ qs)[n]? := by
      rw [List.getElem?_append_left hlt]
      exact hp
    exact (connectionsPass_append hlt.le).mp (h.connections n p hmem)

/-- **One more instance** passes the constraints when it is admitted. -/
theorem passes_concat {before : List (List Candidate)} {cs : List Candidate} {ps : List Placement}
    (hps : Passes a before ps) (p : Placement) : Passes a (before ++ [cs]) (ps ++ [p]) ↔ Admitted a cs ps p := by
  constructor
  · intro hall
    have hlast : (ps ++ [p])[ps.length]? = some p := List.getElem?_concat_length
    have hplaces : Places a [cs] [p] := by
      have hdrop := List.forall₂_drop before.length hall.places
      rw [List.drop_left] at hdrop
      rw [hps.places.length_eq, List.drop_left] at hdrop
      exact hdrop
    obtain ⟨hcandidate, hcontainer, hsuitable⟩ : cs[p.2.candidate]? = some p.1 ∧
        p.2.container < a.nContainers ∧ p.1.suitable p.2.container = true := by
      cases hplaces with
      | cons hhead _ => exact hhead
    refine ⟨hcandidate, hcontainer, hsuitable, ?_, fun q hq => ?_⟩
    · exact (connectionsPass_append (le_refl _)).mp (hall.connections ps.length p hlast)
    · exact (List.pairwise_append.mp hall.bookings).2.2 q hq p List.mem_cons_self
  · intro hadmitted
    refine ⟨List.rel_append hps.places
        (.cons ⟨hadmitted.candidate, hadmitted.container, hadmitted.suitable⟩ .nil),
      fun n q hq => ?_, List.pairwise_append.mpr ⟨hps.bookings, List.pairwise_singleton _ _,
        fun q hq r hr => ?_⟩⟩
    · have hle : n ≤ ps.length := by
        have hlt := (List.getElem?_eq_some_iff.mp hq).1
        rw [List.length_append, List.length_singleton] at hlt
        omega
      rw [connectionsPass_append hle]
      rcases Nat.lt_or_eq_of_le hle with hlt | rfl
      · rw [List.getElem?_append_left hlt] at hq
        exact hps.connections n q hq
      · rw [List.getElem?_concat_length] at hq
        cases hq
        exact hadmitted.connections
    · rw [List.mem_singleton.mp hr]
      exact hadmitted.bookings q hq

/-- A candidate that is not fixed may be placed on any container that is suitable. -/
theorem Passes.move {before rest : List (List Candidate)} {cs : List Candidate} {ps qs : List Placement}
    {c : Candidate} {m cont cont' : Nat} (h : Passes a (before ++ cs :: rest) (ps ++ (c, ⟨m, cont⟩) :: qs))
    (hlength : before.length = ps.length) (hdynamic : c.impl.staticInstance = false)
    (hcont : cont' < a.nContainers) (hsuitable : c.suitable cont' = true) :
    Passes a (before ++ cs :: rest) (ps ++ (c, ⟨m, cont'⟩) :: qs) := by
  have hfirst : (ps ++ (c, (⟨m, cont'⟩ : Deployment)) :: qs).map Prod.fst =
      (ps ++ (c, (⟨m, cont⟩ : Deployment)) :: qs).map Prod.fst := by
    rw [List.map_append, List.map_append, List.map_cons, List.map_cons]
  have hsame {n : Nat} {q : Placement} (hq : (ps ++ (c, (⟨m, cont'⟩ : Deployment)) :: qs)[n]? = some q) :
      ∃ q', (ps ++ (c, (⟨m, cont⟩ : Deployment)) :: qs)[n]? = some q' ∧ q'.1 = q.1 := by
    have hmap := congrArg (fun l => l[n]?) hfirst
    simp only [List.getElem?_map] at hmap
    rw [hq] at hmap
    obtain ⟨q', hq', heq⟩ := Option.map_eq_some_iff.mp hmap.symm
    exact ⟨q', hq', heq⟩
  refine ⟨?_, fun n p hp port hport other name hconn hother q hq => ?_, ?_⟩
  · have hdrop := List.forall₂_drop before.length h.places
    rw [List.drop_left, hlength, List.drop_left] at hdrop
    cases hdrop with
    | cons hhead htail =>
      exact List.rel_append (h.left hlength).places (.cons ⟨hhead.1, hcont, hsuitable⟩ htail)
  · obtain ⟨p', hp', heq⟩ := hsame hp
    obtain ⟨q', hq', heq'⟩ := hsame hq
    rw [← heq] at hport ⊢
    rw [← heq']
    exact h.connections n p' hp' port hport other name hconn hother q' hq'
  · obtain ⟨hps, hqs, hacross⟩ := List.pairwise_append.mp h.bookings
    refine List.pairwise_append.mpr ⟨hps, ?_, fun q hq r hr => ?_⟩
    · exact List.pairwise_cons.mpr ⟨fun q _ => symm (compatible_dynamic (q := q) hdynamic),
        (List.pairwise_cons.mp hqs).2⟩
    · rcases List.mem_cons.mp hr with rfl | hr
      · exact compatible_dynamic hdynamic
      · exact hacross q hq r (List.mem_cons_of_mem _ hr)

/-! ## The containers of a candidate -/

section

variable {bookings : Nat → Booking} {c : Candidate} {place : Nat → BestDeployments → Option BestDeployments}

/-- **The loop over the containers** goes through what is recorded on those that are right, if its test tells
them as long as it goes on. -/
theorem searches_tryContainers (ok : Nat → Prop) (S : Nat → Set BestDeployments)
    (hcover : c.impl.staticInstance = false → ∀ cont cont', ok cont → ok cont' →
      ∀ x ∈ S cont, ∃ y ∈ S cont', x.score ≤ y.score) : ∀ conts : List Nat,
    (∀ cont ∈ conts, ok cont → Searches (place cont) (S cont)) →
    (∀ before cont after, conts = before ++ cont :: after →
      (c.impl.staticInstance = true ∨ ∀ k ∈ before, ¬ok k) →
        (c.feasibleContainers a.nContainers &&& bit cont ≠ 0 ∧ bookingOk (bookings cont) c.impl = true ↔
          ok cont)) →
    Searches (tryContainers a bookings c place conts) {x | ∃ cont ∈ conts, ok cont ∧ x ∈ S cont}
  | [], _, _ => searches_empty.congr (by simp)
  | cont :: conts, hplace, htest => by
    have hhead := htest [] cont conts rfl (.inr fun _ hk => absurd hk List.not_mem_nil)
    have htail := searches_tryContainers ok S hcover conts fun k hk => hplace k (List.mem_cons_of_mem cont hk)
    by_cases hok : ok cont
    · have hfirst := hplace cont List.mem_cons_self hok
      cases hstatic : c.impl.staticInstance with
      | true =>
        have heq : tryContainers a bookings c place (cont :: conts) =
            fun best => (place cont best).bind (tryContainers a bookings c place conts) := by
          funext best
          rw [tryContainers, if_pos (hhead.mpr hok), hstatic]
          rfl
        have hrest := htail fun before k after hconts _ =>
          htest (cont :: before) k after (congrArg (cont :: ·) hconts) (.inl hstatic)
        rw [heq]
        refine (hfirst.bind hrest).congr ?_
        ext x
        simp only [Set.mem_union, Set.mem_ofPred_eq, List.mem_cons, exists_eq_or_imp]
        exact or_congr_left (and_iff_right hok).symm
      | false =>
        have heq : tryContainers a bookings c place (cont :: conts) =
            fun best => (place cont best).bind some := by
          funext best
          rw [tryContainers, if_pos (hhead.mpr hok), hstatic]
          rfl
        rw [heq]
        refine (hfirst.bind searches_empty).cover ?_ ?_
        · rintro x (hx | hx)
          · exact ⟨cont, List.mem_cons_self, hok, hx⟩
          · exact hx.elim
        · rintro x ⟨cont', -, hok', hx⟩
          obtain ⟨y, hy, hle⟩ := hcover hstatic cont' cont hok' hok x hx
          exact ⟨y, Or.inl hy, hle⟩
    · have heq : tryContainers a bookings c place (cont :: conts) =
          tryContainers a bookings c place conts := by
        funext best
        rw [tryContainers, if_neg (mt hhead.mp hok)]
      have hrest := htail fun before k after hconts hearlier =>
        htest (cont :: before) k after (congrArg (cont :: ·) hconts)
          (hearlier.imp id fun hnone => List.forall_mem_cons.mpr ⟨hok, hnone⟩)
      rw [heq]
      refine hrest.congr ?_
      ext x
      simp only [Set.mem_ofPred_eq, List.mem_cons, exists_eq_or_imp]
      exact (or_iff_right fun h => hok h.1).symm

end

/-- Before a container, the loop has tried those with smaller numbers. -/
theorem mem_before_range {n cont k : Nat} {before after : List Nat} (h : List.range n = before ++ cont :: after)
    (hk : k < cont) : k ∈ before := by
  have hget {i : Nat} {x : Nat} (hx : (before ++ cont :: after)[i]? = some x) : x = i := by
    rw [← h] at hx
    obtain ⟨hi, heq⟩ := List.getElem?_eq_some_iff.mp hx
    rw [← heq, List.getElem_range]
  have hcont : cont = before.length := hget (by
    rw [List.getElem?_append_right (Nat.le_refl _), Nat.sub_self, List.getElem?_cons_zero])
  have hlt : k < before.length := hcont ▸ hk
  have hk' := hget (show (before ++ cont :: after)[k]? = some before[k] by
    rw [List.getElem?_append_left hlt, List.getElem?_eq_getElem hlt])
  rw [← hk']
  exact List.getElem_mem hlt

/-- **The words tell the truth exactly if each test on the way says what the constraints say**: that of the ports,
and those of the containers. -/
theorem telling_iff {ps : List Placement} {c : Candidate} (hps : ps.Pairwise Compatible) :
    Telling a ps c ↔ connectionsOk a (ps.map fun p => p.1.impl) c.impl ≠ none ∧
      (ConnectionsPass a ps ps.length c.impl → ∀ d : Deployment, d.container < a.nContainers →
        Tried c d.container →
          (c.feasibleContainers a.nContainers &&& bit d.container ≠ 0 ∧
              bookingOk (bookingsOf ps d.container) c.impl = true ↔
            c.suitable d.container = true ∧ ∀ q ∈ ps, Compatible q (c, d))) := by
  have hbit {cont : Nat} : c.feasibleContainers a.nContainers &&& bit cont ≠ 0 ↔
      ∃ k < a.nContainers, c.suitable k = true ∧ k % 32 = cont % 32 := by
    rw [and_bit_ne_zero, feasibleContainers_testBit]
  constructor
  · intro h
    refine ⟨h.ports, fun hconnections d hd htried => ?_⟩
    have hbooking (hsuitable : c.suitable d.container = true) :=
      bookingOk_iff (p := (c, d)) hps fun hstatic hcompatible =>
        h.ordinals hconnections d hd hsuitable hstatic hcompatible
    constructor
    · rintro ⟨hfeasible, hbooked⟩
      have hsuitable : c.suitable d.container = true := by
        by_contra hnot
        obtain ⟨k, hk, hsuitable, hmod⟩ := hbit.mp hfeasible
        exact h.containers hconnections d.container hd htried hbooked (Bool.eq_false_of_not_eq_true hnot) k hk
          hsuitable hmod
      exact ⟨hsuitable, (hbooking hsuitable).mp hbooked⟩
    · rintro ⟨hsuitable, hcompatible⟩
      exact ⟨hbit.mpr ⟨d.container, hd, hsuitable, rfl⟩, (hbooking hsuitable).mpr hcompatible⟩
  · rintro ⟨hports, htests⟩
    refine ⟨hports, fun hconnections cont hcont htried hbooked hnot k hk hsuitable hmod => ?_,
      fun hconnections d hd hsuitable hstatic hcompatible q hq hfixed hmod => ?_⟩
    · have hright := (htests hconnections ⟨0, cont⟩ hcont htried).mp ⟨hbit.mpr ⟨k, hk, hsuitable, hmod⟩, hbooked⟩
      rw [hnot] at hright
      exact Bool.false_ne_true hright.1
    · have htest := (htests hconnections d hd (.inl hstatic)).mpr ⟨hsuitable, hcompatible⟩
      exact bit_free_of_bookingOk hstatic htest.2 q hq hfixed hmod

/-! ## The search -/

/-- What the search can record for the instances that are left. -/
def solutions (a : Assembly) (before rest : List (List Candidate)) (ps : List Placement) : Set BestDeployments :=
  {x | ∃ qs, Passes a (before ++ rest) (ps ++ qs) ∧
    x = ⟨total (ps ++ qs) % 2 ^ 32, (ps ++ qs).map Prod.snd⟩}

/-- After the last instance. -/
theorem solutions_nil {before : List (List Candidate)} {ps : List Placement} (h : Passes a before ps) :
    solutions a before [] ps = {⟨total ps % 2 ^ 32, ps.map Prod.snd⟩} := by
  ext x
  constructor
  · rintro ⟨qs, hqs, rfl⟩
    have hlength := hqs.places.length_eq
    rw [List.append_nil, h.places.length_eq, List.length_append] at hlength
    rw [List.length_eq_zero_iff.mp (show qs.length = 0 by omega), List.append_nil]
    rfl
  · rintro rfl
    refine ⟨[], ?_, ?_⟩
    · rwa [List.append_nil, List.append_nil]
    · rw [List.append_nil]

/-- What can be recorded has a placement of the next instance that is admitted. -/
theorem mem_solutions_cons {before rest : List (List Candidate)} {cs : List Candidate} {ps : List Placement}
    (h : Passes a before ps) {x : BestDeployments} : x ∈ solutions a before (cs :: rest) ps ↔
      ∃ p, Admitted a cs ps p ∧ x ∈ solutions a (before ++ [cs]) rest (ps ++ [p]) := by
  have hinsts : before ++ cs :: rest = (before ++ [cs]) ++ rest := by
    rw [List.append_assoc]
    rfl
  have hassoc (p : Placement) (qs : List Placement) : ps ++ p :: qs = (ps ++ [p]) ++ qs := by
    rw [List.append_assoc]
    rfl
  constructor
  · rintro ⟨qs, hqs, rfl⟩
    cases qs with
    | nil =>
      have hlength := hqs.places.length_eq
      rw [List.length_append, h.places.length_eq, List.append_nil, List.length_cons] at hlength
      omega
    | cons p qs =>
      rw [hinsts, hassoc] at hqs
      have hlength : (before ++ [cs]).length = (ps ++ [p]).length := by
        rw [List.length_append, List.length_append, h.places.length_eq]
        rfl
      refine ⟨p, (passes_concat h p).mp (hqs.left hlength), qs, hqs, ?_⟩
      rw [hassoc p qs]
  · rintro ⟨p, -, qs, hqs, rfl⟩
    refine ⟨p :: qs, ?_, ?_⟩
    · rw [hinsts, hassoc]
      exact hqs
    · rw [hassoc p qs]

/-- **The search goes through all placements that pass the constraints.** -/
theorem searches_doInstance (h : Fits a) : ∀ {rest before : List (List Candidate)} {ps : List Placement},
    rest ≠ [] → a.instances = before ++ rest → Passes a before ps →
      Searches (doInstance a rest (ps.map fun p => p.1.impl) (bookingsOf ps) (ps.map Prod.snd)
        (total ps % 2 ^ 32)) (solutions a before rest ps)
  | [], _, _, hne, _, _ => absurd rfl hne
  | cs :: rest, before, ps, _, hinst, hps => by
    have hinst' : a.instances = (before ++ [cs]) ++ rest := by
      rw [hinst, List.append_assoc]
      rfl
    -- a candidate on a container where it is admitted
    have hplace (c : Candidate) (m cont : Nat) (hadmitted : Admitted a cs ps (c, ⟨m, cont⟩)) :
        Searches (fun best =>
          if rest.isEmpty then
            some (record ⟨(total ps % 2 ^ 32 + c.score) % 2 ^ 32, ps.map Prod.snd ++ [⟨m, cont⟩]⟩ best)
          else doInstance a rest ((ps.map fun p => p.1.impl) ++ [c.impl]) (book (bookingsOf ps) cont c.impl)
            (ps.map Prod.snd ++ [⟨m, cont⟩]) ((total ps % 2 ^ 32 + c.score) % 2 ^ 32) best)
        (solutions a (before ++ [cs]) rest (ps ++ [(c, ⟨m, cont⟩)])) := by
      have hpassed := (passes_concat hps _).mpr hadmitted
      have hscore : (total ps % 2 ^ 32 + c.score) % 2 ^ 32 =
          total (ps ++ [(c, (⟨m, cont⟩ : Deployment))]) % 2 ^ 32 := by
        rw [Nat.mod_add_mod, total_concat]
      have hdeployments : ps.map Prod.snd ++ [(⟨m, cont⟩ : Deployment)] =
          (ps ++ [(c, (⟨m, cont⟩ : Deployment))]).map Prod.snd := by
        rw [List.map_append]
        rfl
      cases rest with
      | nil =>
        rw [solutions_nil hpassed, hscore, hdeployments]
        exact searches_record _
      | cons cs' rest =>
        have hnext := searches_doInstance h (List.cons_ne_nil _ _) hinst' hpassed
        rw [List.map_append, bookingsOf_concat, ← hscore, ← hdeployments] at hnext
        exact hnext
    -- the candidates one after the other
    show Searches (fun best => cs.zipIdx.foldlM _ best) _
    refine (searches_foldlM (R := fun cm => {x | ∃ cont ∈ List.range a.nContainers,
      Admitted a cs ps (cm.1, ⟨cm.2, cont⟩) ∧
        x ∈ solutions a (before ++ [cs]) rest (ps ++ [(cm.1, ⟨cm.2, cont⟩)])}) ?_).congr ?_
    · rintro ⟨c, m⟩ hcm
      have hcandidate : cs[m]? = some c := List.mk_mem_zipIdx_iff_getElem?.mp hcm
      have htelling := h.telling before cs rest hinst ps hps c (List.fst_mem_of_mem_zipIdx hcm)
      dsimp only
      cases hok : connectionsOk a (ps.map fun p => p.1.impl) c.impl with
      | none => exact absurd hok htelling.ports
      | some ok =>
        cases ok with
        | false =>
          refine searches_empty.congr ?_
          ext x
          refine ⟨fun hx => hx.elim, ?_⟩
          rintro ⟨cont, -, hadmitted, -⟩
          have htrue := connectionsOk_iff.mpr hadmitted.connections
          rw [hok] at htrue
          exact absurd (Option.some.inj htrue) Bool.false_ne_true
        | true =>
          have hconnections : ConnectionsPass a ps ps.length c.impl := connectionsOk_iff.mp hok
          refine searches_tryContainers (fun cont => Admitted a cs ps (c, ⟨m, cont⟩))
            (fun cont => solutions a (before ++ [cs]) rest (ps ++ [(c, ⟨m, cont⟩)])) ?_ (List.range a.nContainers)
            (fun cont _ hadmitted => hplace c m cont hadmitted) ?_
          · -- the container of a candidate that is not fixed makes no difference
            rintro hdynamic cont cont' - hadmitted x ⟨qs, hqs, rfl⟩
            rw [List.append_assoc, List.append_assoc] at hqs
            refine ⟨_, ⟨qs, ?_, rfl⟩, le_of_eq ?_⟩
            · rw [List.append_assoc, List.append_assoc]
              exact hqs.move hps.places.length_eq hdynamic hadmitted.container hadmitted.suitable
            · show total _ % 2 ^ 32 = total _ % 2 ^ 32
              unfold total
              rw [List.map_append, List.map_append, List.map_append, List.map_append]
              rfl
          · intro earlier cont later hrange hfirst
            have hcont : cont < a.nContainers :=
              List.mem_range.mp (hrange ▸ List.mem_append_right _ List.mem_cons_self)
            have htried : Tried c cont := by
              rcases hfirst with hstatic | hnone
              · exact .inl hstatic
              · refine (Bool.eq_false_or_eq_true c.impl.staticInstance).imp id fun hdynamic k hk => ?_
                refine Bool.eq_false_of_not_eq_true fun hsuitable => ?_
                exact hnone k (mem_before_range hrange hk) ⟨hcandidate, Nat.lt_trans hk hcont, hsuitable,
                  hconnections, fun q _ => compatible_dynamic hdynamic⟩
            refine (((telling_iff hps.bookings).mp htelling).2 hconnections ⟨m, cont⟩ hcont htried).trans
              ⟨fun htest => ?_, fun h => ?_⟩
            · exact ⟨hcandidate, hcont, htest.1, hconnections, htest.2⟩
            · exact ⟨h.suitable, h.bookings⟩
    · ext x
      rw [mem_solutions_cons hps]
      constructor
      · rintro ⟨⟨c, m⟩, -, cont, -, hadmitted, hx⟩
        exact ⟨(c, ⟨m, cont⟩), hadmitted, hx⟩
      · rintro ⟨⟨c, m, cont⟩, hadmitted, hx⟩
        exact ⟨(c, m), List.mk_mem_zipIdx_iff_getElem?.mpr hadmitted.candidate, cont,
          List.mem_range.mpr hadmitted.container, hadmitted, hx⟩

/-! ## The result -/

/-- `init` says that there is no feasible deployment when no assignment passes the constraints, and otherwise
records one that does, with the largest sum of scores. -/
def Right (a : Assembly) : Prop :=
  ∃ r, init a = some r ∧ ((∃ e, r = .error e) ↔ ¬∃ ps, Passes a a.instances ps) ∧
    ∀ ds, r = .ok ds → ∃ ps, ps.map Prod.snd = ds ∧ Passes a a.instances ps ∧
      ∀ qs, Passes a a.instances qs → total qs ≤ total ps

theorem offered_of_found (h : (a.instances.findIdx? fun cs =>
    cs.all fun c => c.feasibleContainers a.nContainers == 0) = none) : Offered a := by
  intro cs hcs
  have hnot := List.findIdx?_eq_none_iff.mp h cs hcs
  obtain ⟨c, hc, hne⟩ := List.all_eq_false.mp hnot
  obtain ⟨k, hbit⟩ := Nat.exists_testBit_of_ne_zero fun hzero => hne (beq_iff_eq.mpr hzero)
  obtain ⟨cont, hcont, hsuitable, -⟩ := feasibleContainers_testBit.mp hbit
  exact ⟨c, hc, cont, hcont, hsuitable⟩

/-- **When the words tell the truth, the deployment that is found is right.** -/
theorem right_of_fits (a : Assembly) (hne : a.instances ≠ []) (h : Offered a → Fits a) : Right a := by
  unfold Right init
  cases hfirst : a.instances.findIdx? fun cs => cs.all fun c => c.feasibleContainers a.nContainers == 0 with
  | some instNum =>
    -- no container is suitable for any candidate of an instance
    obtain ⟨hlt, hzero, -⟩ := List.findIdx?_eq_some_iff_getElem.mp hfirst
    have hnone : ¬∃ ps, Passes a a.instances ps := by
      rintro ⟨ps, hps⟩
      have hlt' : instNum < ps.length := by rw [← hps.places.length_eq]; exact hlt
      obtain ⟨hcandidate, hcontainer, hsuitable⟩ := (List.forall₂_iff_get.mp hps.places).2 instNum hlt hlt'
      have hc := List.all_eq_true.mp hzero _ (List.mem_of_getElem? hcandidate)
      exact feasibleContainers_ne_zero hcontainer hsuitable (beq_iff_eq.mp hc)
    refine ⟨_, rfl, ⟨fun _ => hnone, fun _ => ⟨_, rfl⟩⟩, fun ds hds => ?_⟩
    cases hds
  | none =>
    have hfits := h (offered_of_found hfirst)
    have hstart : Passes a [] [] := ⟨.nil, (fun n p hp => nomatch hp), .nil⟩
    obtain ⟨best, hbest, hkeep, hall⟩ :=
      searches_doInstance hfits hne (List.nil_append a.instances).symm hstart ⟨0, []⟩
    have hbest : doInstance a a.instances [] (fun _ => {}) [] 0 ⟨0, []⟩ = some best := hbest
    have hle {ps : List Placement} (hps : Passes a a.instances ps) : total ps ≤ best.score := by
      have hscore : total ps % 2 ^ 32 ≤ best.score := hall _ ⟨ps, hps, rfl⟩
      rwa [Nat.mod_eq_of_lt (hfits.scores ps hps)] at hscore
    dsimp only
    rw [hbest, Option.map_some]
    refine ⟨_, rfl, ?_, ?_⟩
    · by_cases hzero : best.score = 0
      · rw [if_pos hzero]
        refine ⟨fun _ => ?_, fun _ => ⟨_, rfl⟩⟩
        rintro ⟨ps, hps⟩
        obtain ⟨ps', hps', hpos⟩ := hfits.positive ps hps
        have := hle hps'
        omega
      · rw [if_neg hzero]
        refine ⟨fun herr => ?_, fun hnone => ?_⟩
        · obtain ⟨e, he⟩ := herr
          cases he
        · rcases hkeep with rfl | ⟨⟨ps, hps, -⟩, -⟩
          · exact absurd rfl hzero
          · exact absurd ⟨ps, hps⟩ hnone
    · intro ds hds
      by_cases hzero : best.score = 0
      · rw [if_pos hzero] at hds
        cases hds
      · rw [if_neg hzero] at hds
        cases hds
        rcases hkeep with rfl | ⟨⟨ps, hps, rfl⟩, -⟩
        · exact absurd rfl hzero
        · refine ⟨ps, rfl, hps, fun qs hqs => ?_⟩
          have hqs := hle hqs
          dsimp only [List.nil_append] at hqs
          rwa [Nat.mod_eq_of_lt (hfits.scores ps hps)] at hqs

/-- A fixed implementation of an artifact, with one port that is not wired. -/
def fixedImpl (ordinal : Nat) : Implementation where
  address := ordinal
  metadataImpl := ordinal
  ports := [[112]]
  artifact := 0
  staticInstance := true
  internals := 0
  connections := fun _ => ⟨0, 0, 0⟩
  ordinal := ordinal

/-- Two connected instances with two candidates for the second one, and two containers. The ordinals of the
candidates have the same bit, but only one of them is placed. -/
def twoInstances : Assembly where
  instances := [[⟨{ fixedImpl 0 with artifact := 1 }, 1, fun _ => true⟩],
    [⟨fixedImpl 0, 2, fun cont => cont == 0⟩, ⟨fixedImpl 32, 1, fun _ => true⟩]]
  connectedPort := fun n port => if n = 1 ∧ port = 0 then some (0, [112]) else none
  nContainers := 2

theorem twoInstances_fits : Fits twoInstances := by
  have hcontainers (c : Candidate) (k cont : Nat) (hk : k < 2) (hcont : cont < 2)
      (hnot : c.suitable cont = false) (hsuitable : c.suitable k = true) : k % 32 ≠ cont % 32 := by
    intro hmod
    obtain rfl : k = cont := by omega
    rw [hnot] at hsuitable
    cases hsuitable
  have hscores {ps : List Placement} (hps : Passes twoInstances twoInstances.instances ps) :
      0 < total ps ∧ total ps < 2 ^ 32 := by
    obtain ⟨p, l, hp, hl, rfl⟩ := List.forall₂_cons_left_iff.mp hps.places
    obtain ⟨q, l', hq, hl', rfl⟩ := List.forall₂_cons_left_iff.mp hl
    obtain rfl := List.forall₂_nil_left_iff.mp hl'
    have hfirst := List.mem_of_getElem? hp.1
    have hsecond := List.mem_of_getElem? hq.1
    simp only [List.mem_cons, List.not_mem_nil, or_false] at hfirst hsecond
    unfold total
    simp only [List.map_cons, List.map_nil]
    rw [hfirst]
    rcases hsecond with hsecond | hsecond <;> rw [hsecond] <;> decide
  refine ⟨fun before cs rest hinst ps hps c hc => ?_, fun ps hps => (hscores hps).2,
    fun ps hps => ⟨ps, hps, (hscores hps).1⟩⟩
  cases before with
  | nil =>
    obtain ⟨rfl, -⟩ := List.cons.inj hinst
    obtain rfl := List.forall₂_nil_left_iff.mp hps.places
    obtain rfl := List.mem_singleton.mp hc
    exact ⟨by decide, fun _ cont hcont _ _ hnot k hk => hcontainers _ k cont hk hcont hnot,
      fun _ _ _ _ _ _ q hq => absurd hq List.not_mem_nil⟩
  | cons first before =>
    obtain ⟨rfl, hrest⟩ := List.cons.inj hinst
    cases before with
    | cons second before =>
      obtain ⟨-, hnil⟩ := List.cons.inj hrest
      exact absurd hnil.symm (List.append_ne_nil_of_right_ne_nil before (List.cons_ne_nil cs rest))
    | nil =>
      obtain ⟨rfl, -⟩ := List.cons.inj hrest
      obtain ⟨⟨c', d'⟩, l, hp, hl, rfl⟩ := List.forall₂_cons_left_iff.mp hps.places
      obtain rfl := List.forall₂_nil_left_iff.mp hl
      obtain rfl := List.mem_singleton.mp (List.mem_of_getElem? hp.1)
      refine ⟨?_, fun _ cont hcont _ _ hnot k hk => hcontainers _ k cont hk hcont hnot, ?_⟩
      · rcases List.mem_pair.mp hc with rfl | rfl
        · show connectionsOk twoInstances [{ fixedImpl 0 with artifact := 1 }] (fixedImpl 0) ≠ none
          decide
        · show connectionsOk twoInstances [{ fixedImpl 0 with artifact := 1 }] (fixedImpl 32) ≠ none
          decide
      · -- the artifacts are different, so that they are not on one container
        intro _ d _ _ hstatic hcompatible q hq hfixed
        have hartifact := (hcompatible q hq hfixed.1 hstatic hfixed.2).1
        rw [List.mem_singleton.mp hq] at hartifact
        rcases List.mem_pair.mp hc with rfl | rfl
        · exact absurd (show 1 = 0 from hartifact) (by decide)
        · exact absurd (show 1 = 0 from hartifact) (by decide)

/-- The first instance makes room for the better candidate of the second one. -/
theorem right_twoInstances : init twoInstances = some (.ok [⟨0, 1⟩, ⟨0, 0⟩]) ∧ Right twoInstances :=
  ⟨rfl, right_of_fits twoInstances (List.cons_ne_nil _ _) fun _ => twoInstances_fits⟩

/-- One dynamic instance that only the last of 33 containers suits. -/
def lastOfMany : Assembly where
  instances := [[⟨{ fixedImpl 0 with staticInstance := false }, 1, fun cont => cont == 32⟩]]
  connectedPort := fun _ _ => none
  nContainers := 33

/-- The instance is placed on the first container. -/
theorem placed_on_unsuitable : ¬∀ a : Assembly, a.instances ≠ [] → Right a := by
  intro h
  have hinit : init lastOfMany = some (.ok [⟨0, 0⟩]) := rfl
  obtain ⟨r, hr, -, hok⟩ := h lastOfMany (List.cons_ne_nil _ _)
  rw [hinit] at hr
  cases hr
  obtain ⟨ps, hps, hpasses, -⟩ := hok _ rfl
  obtain ⟨p, l, ⟨hcandidate, -, hsuitable⟩, -, rfl⟩ := List.forall₂_cons_left_iff.mp hpasses.places
  rw [(List.cons_eq_cons.mp hps).1] at hcandidate hsuitable
  rw [← Option.some.inj hcandidate] at hsuitable
  cases hsuitable

end OpenCpi.Application
