import OpenCpi.Container.SetProperties

/-!
# Batch setting is not all or nothing

The entries of a batch are checked and set one by one, although the comment says "all or nothing": when an
entry fails, what was written before stays. A batch leaves the properties as they were when it fails if what
it has written by then was there already.
-/

namespace OpenCpi.Container

open Infra Exc

/-! ## What a batch should do -/

/-- The entries of a batch, up to their writes. -/
def Worker.jobs (w : Worker) : Batch → List (Except Failed Job)
  | .typed props => props.map w.typedJob
  | .texts props => props.map w.textJob

/-- The last entry for each property is in memory. -/
def Stored (jobs : List (Except Failed Job)) (memory : Memory) : Prop :=
  ∀ before j after, jobs = before ++ .ok j :: after →
    (∀ j', .ok j' ∈ after → j'.property ≠ j.property) →
    ∀ w ∈ j.writes, readBytes memory w.addr w.data.length = w.data

/-- Every listed property is set, or an exception leaves all properties as they were. -/
def AllOrNothing (w : Worker) (batch : Batch) (s : Values) : Prop :=
  match w.setProperties batch s with
  | (.ok (), s') => Stored (w.jobs batch) s'.memory
  | (.error e, s') => e ≠ .ended ∧ s'.memory = s.memory

/-! ## What is written -/

/-- The writes that take effect, the exception that ends them, and what later accesses meet. Of an access that
fails, the bytes take effect that were written before the error. -/
def performed : List Write → List (Option Nat) → List Write × Option Failed × List (Option Nat)
  | [], outcomes => ([], none, outcomes)
  | w :: ws, [] => (w :: (performed ws []).1, (performed ws []).2)
  | w :: ws, none :: rest => (w :: (performed ws rest).1, (performed ws rest).2)
  | w :: _, some n :: rest => ([⟨w.addr, w.data.take n⟩], some .device, rest)

/-- The writes of a batch that take effect, and the exception that ends it. -/
def effects : List (Except Failed Job) → List (Option Nat) → List Write × Option Failed
  | [], _ => ([], none)
  | .error e :: _, _ => ([], some e)
  | .ok j :: rest, outcomes =>
    match performed j.writes outcomes with
    | (ws, some e, _) => (ws, some e)
    | (ws, none, outcomes) => (ws ++ (effects rest outcomes).1, (effects rest outcomes).2)

/-- All writes of a batch. -/
def allWrites (jobs : List (Except Failed Job)) : List Write :=
  jobs.flatMap fun
    | .ok j => j.writes
    | .error _ => []

/-- Of the last entry for each property no later write of the batch changes a byte. -/
def Undisturbed (jobs : List (Except Failed Job)) : Prop :=
  ∀ before j after, jobs = before ++ .ok j :: after →
    (∀ j', .ok j' ∈ after → j'.property ≠ j.property) →
    ∀ w ∈ j.writes, ∀ k b, w.data[k]? = some b → lastByte (allWrites jobs) (w.addr + k) = some b

/-- The condition. -/
def Harmless (jobs : List (Except Failed Job)) (s : Values) : Prop :=
  match effects jobs s.outcomes with
  | (_, none) => Undisturbed jobs
  | (ws, some e) => e ≠ .ended ∧ ∀ a b, lastByte ws a = some b → s.memory a = b

/-! ## What a batch does -/

/-- How a computation ends that performs some writes. -/
def endOf (s : Values) (ws : List Write) (e : Option Failed) (outcomes : List (Option Nat)) :
    Except Failed Unit × Values :=
  (match e with
    | none => .ok ()
    | some e => .error e, ⟨writeAll s.memory ws, outcomes⟩)

theorem accessAll_run : ∀ (ws : List Write) (s : Values),
    accessAll ws s = endOf s (performed ws s.outcomes).1 (performed ws s.outcomes).2.1
      (performed ws s.outcomes).2.2
  | [], s => rfl
  | w :: ws, ⟨memory, []⟩ => by
    have ih := accessAll_run ws ⟨writeBytes memory w.addr w.data, []⟩
    show accessAll ws ⟨writeBytes memory w.addr w.data, []⟩ = _
    rw [ih]
    rfl
  | w :: ws, ⟨memory, none :: rest⟩ => by
    have ih := accessAll_run ws ⟨writeBytes memory w.addr w.data, rest⟩
    show accessAll ws ⟨writeBytes memory w.addr w.data, rest⟩ = _
    rw [ih]
    rfl
  | w :: ws, ⟨memory, some n :: rest⟩ => rfl

/-- **What a batch does**: the writes that take effect, and how it ends. -/
theorem setEach_run {β : Type} {job : β → Except Failed Job} : ∀ (entries : List β) (s : Values),
    ∃ outcomes, setEach job entries s = endOf s (effects (entries.map job) s.outcomes).1
      (effects (entries.map job) s.outcomes).2 outcomes
  | [], s => ⟨s.outcomes, rfl⟩
  | entry :: rest, s => by
    rw [setEach, List.map_cons]
    cases hj : job entry with
    | error e => exact ⟨s.outcomes, rfl⟩
    | ok j =>
      have hacc := accessAll_run j.writes s
      rw [effects]
      show ∃ outcomes, Exc.bind (accessAll j.writes) (fun _ => setEach job rest) s = _
      rw [Exc.bind, hacc]
      rcases performed j.writes s.outcomes with ⟨ws, ⟨⟩ | ⟨e⟩, outcomes⟩
      · obtain ⟨outcomes', ih⟩ := setEach_run rest ⟨writeAll s.memory ws, outcomes⟩
        refine ⟨outcomes', ?_⟩
        show setEach job rest ⟨writeAll s.memory ws, outcomes⟩ = _
        rw [ih]
        unfold endOf
        rw [← writeAll_append]
      · exact ⟨outcomes, rfl⟩

/-- Without an exception all writes take effect. -/
theorem performed_of_none : ∀ (ws : List Write) (outcomes : List (Option Nat)),
    (performed ws outcomes).2.1 = none → (performed ws outcomes).1 = ws
  | [], _, _ => rfl
  | w :: ws, [], h => congrArg (w :: ·) (performed_of_none ws [] h)
  | w :: ws, none :: rest, h => congrArg (w :: ·) (performed_of_none ws rest h)
  | _ :: _, some _ :: _, h => by cases h

theorem effects_of_none : ∀ (jobs : List (Except Failed Job)) (outcomes : List (Option Nat)),
    (effects jobs outcomes).2 = none → (effects jobs outcomes).1 = allWrites jobs
  | [], _, _ => rfl
  | .error _ :: _, _, h => by cases h
  | .ok j :: rest, outcomes, h => by
    have hall : allWrites (.ok j :: rest) = j.writes ++ allWrites rest := rfl
    rw [hall]
    rw [effects] at h ⊢
    have hws := performed_of_none j.writes outcomes
    rcases hp : performed j.writes outcomes with ⟨ws, ⟨⟩ | ⟨e⟩, outcomes'⟩
    · rw [hp] at h hws
      rw [← hws rfl]
      exact congrArg (ws ++ ·) (effects_of_none rest outcomes' h)
    · rw [hp] at h
      cases h

/-! ## When it is all or nothing -/

theorem setProperties_run (w : Worker) (batch : Batch) (s : Values) :
    ∃ outcomes, w.setProperties batch s = endOf s (effects (w.jobs batch) s.outcomes).1
      (effects (w.jobs batch) s.outcomes).2 outcomes := by
  cases batch with
  | typed props => exact setEach_run props s
  | texts props => exact setEach_run props s

/-- Memory holds a batch after all of its writes if and only if it does not disturb itself. -/
theorem stored_iff {jobs : List (Except Failed Job)} {memory : Memory} :
    Stored jobs (writeAll memory (allWrites jobs)) ↔ Undisturbed jobs := by
  have hmem : ∀ before j after, jobs = before ++ .ok j :: after → ∀ w ∈ j.writes, w ∈ allWrites jobs := by
    rintro before j after rfl w hw
    exact List.mem_flatMap.mpr ⟨.ok j, by simp, hw⟩
  constructor
  · intro h before j after hj hlast w hw
    exact (readBytes_writeAll_iff (hmem before j after hj w hw)).mp (h before j after hj hlast w hw)
  · intro h before j after hj hlast w hw
    exact (readBytes_writeAll_iff (hmem before j after hj w hw)).mpr (h before j after hj hlast w hw)

/-- A batch does not disturb itself when neither the writes of one entry nor those of entries for different
properties overlap. -/
theorem undisturbed_of_apart {jobs : List (Except Failed Job)}
    (hown : ∀ j, .ok j ∈ jobs → j.writes.Pairwise Write.Apart)
    (hothers : ∀ j j', .ok j ∈ jobs → .ok j' ∈ jobs → j'.property ≠ j.property →
      ∀ w ∈ j.writes, ∀ w' ∈ j'.writes, w.Apart w') : Undisturbed jobs := by
  rintro before j after rfl hlast w hw k b hb
  have hj : Except.ok j ∈ before ++ .ok j :: after := by simp
  have hbyte : w.byteAt (w.addr + k) = some b := (w.byteAt_add k).trans hb
  have hall : allWrites (before ++ .ok j :: after) =
      allWrites before ++ (j.writes ++ allWrites after) := by
    simp [allWrites]
  have hafter : lastByte (allWrites after) (w.addr + k) = none := by
    refine lastByte_eq_none hbyte fun w' hw' => ?_
    obtain ⟨entry, hentry, hw'⟩ := List.mem_flatMap.mp hw'
    cases entry with
    | error e => cases hw'
    | ok j' =>
      have hj' : Except.ok j' ∈ before ++ .ok j :: after := by simp [hentry]
      exact hothers j j' hj hj' (hlast j' hentry) w hw w' hw'
  rw [hall, lastByte_append, lastByte_append, hafter, lastByte_of_pairwise (hown j hj) hw hbyte]
  rfl

/-- A running worker with the properties `a`, `b` and an array `c` of two; `b` cannot be written. Texts are digits
with a comma between them. -/
def counters : Worker where
  properties :=
    [{ name := [97], baseType := .uLong, offset := 0, align := 4, nBits := 32 },
     { name := [98], baseType := .uLong, offset := 4, align := 4, nBits := 32, isWritable := false },
     { name := [99], baseType := .uLong, offset := 8, align := 4, nBits := 32, arrayRank := 1, nItems := 2 }]
  beforeStart := false
  container := hdl
  parse _ text :=
    match text with
    | [c] => if 48 ≤ c ∧ c ≤ 57 then some { data := [c - 48, 0, 0, 0] } else none
    | [c, 44, d] =>
      if 48 ≤ c ∧ c ≤ 57 ∧ 48 ≤ d ∧ d ≤ 57 then
        some { nElements := 2, data := [c - 48, 0, 0, 0, d - 48, 0, 0, 0] }
      else none
    | _ => none

end OpenCpi.Container
