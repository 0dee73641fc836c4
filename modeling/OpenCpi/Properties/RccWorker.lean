import OpenCpi.Rcc.Worker

/-!
# A worker is enabled exactly while it operates, as long as its methods answer properly

Three exits of the code change only one of `enabled` and the control state, or run into an assertion:

* a control method with a result that is none of `RCC_OK`, `RCC_ERROR` and `RCC_FATAL` disables an
  operating worker and leaves it `OPERATING`;
* `portError` disables the worker before it calls `stop`, and leaves it `OPERATING` when `stop`
  fails;
* in `run`, a port that fails while it is asked whether it is ready, and a port callback that fails,
  disable the worker in front of `assert(enabled)`.

In a run without these, `enabled` and the control state agree after every operation, `run` is called
only in that state and no assertion fails.
-/

namespace OpenCpi.Rcc

open Infra Exc

/-! ## What methods do -/

/-- No port fails. -/
def Behaviour.quiet : Behaviour → Bool
  | .returns .. => true
  | .portError .. => false

/-- What the method returns if it gets there. -/
def Behaviour.result : Behaviour → RCCResult
  | .returns rc _ => rc
  | .portError _ _ rest => rest.result

/-- Every `portError` in the method returns: its `stop` and `release` return `RCC_OK`. -/
def Behaviour.survives (d : Dispatch) : Behaviour → Bool
  | .returns .. => true
  | .portError stop release rest =>
    (!d.has (.op .stop) || stop.survives d && stop.result == .ok) &&
      (!d.has (.op .release) || release.survives d && release.result == .ok) && rest.survives d

/-- The first `stop` that returns inside the method, called by `portError`, succeeds or fails for
good. -/
def Behaviour.Safe (d : Dispatch) : Behaviour → Prop
  | .returns .. => True
  | .portError (.returns rc _) _ _ => d.has (.op .stop) → rc = .ok ∨ rc = .fatal
  | .portError (.portError a b c) _ _ => d.has (.op .stop) → (Behaviour.portError a b c).Safe d

instance Behaviour.decidableSafe (d : Dispatch) : (b : Behaviour) → Decidable (b.Safe d)
  | .returns .. => .isTrue trivial
  | .portError (.returns rc _) _ _ =>
    inferInstanceAs (Decidable (d.has (.op .stop) → rc = .ok ∨ rc = .fatal))
  | .portError (.portError a b c) _ _ =>
    haveI := Behaviour.decidableSafe d (.portError a b c)
    inferInstanceAs (Decidable (d.has (.op .stop) → (Behaviour.portError a b c).Safe d))

/-- The port callbacks return `RCC_OK` without a failing port, or one of them is left by an
exception. -/
def CallbacksOk (d : Dispatch) : List Behaviour → Prop
  | [] => True
  | b :: rest => b.Safe d ∧
      if b.quiet ∧ b.result = .ok then CallbacksOk d rest else ∃ c ∈ b :: rest, ¬c.survives d

instance decidableCallbacksOk (d : Dispatch) : (bs : List Behaviour) → Decidable (CallbacksOk d bs)
  | [] => .isTrue trivial
  | b :: rest =>
    haveI := decidableCallbacksOk d rest
    inferInstanceAs (Decidable (_ ∧ if b.quiet ∧ b.result = .ok then CallbacksOk d rest else _))

/-! ## The invariant -/

/-- The `run` method was called only in an operating worker. -/
def RunsOk (calls : List Event) : Prop :=
  ∀ state enabled, Event.call .run state enabled ∈ calls → state = .operating ∧ enabled = true

/-- The worker operates; it may be on its way out. -/
structure On (w : Worker) : Prop where
  state : w.state = .operating
  runs : RunsOk w.calls

/-- The worker neither operates nor is it enabled. -/
structure Off (w : Worker) : Prop where
  state : w.state ≠ .operating
  enabled : w.enabled = false
  runs : RunsOk w.calls

variable {d : Dispatch} {w w' : Worker} {b : Behaviour}

theorem runsOk_call {o : ControlOperation} {state : ControlState} {enabled : Bool}
    {calls : List Event} (h : RunsOk calls) : RunsOk (.call (.op o) state enabled :: calls) := by
  intro s e hm
  rcases List.mem_cons.mp hm with heq | hm
  · cases heq
  · exact h s e hm

theorem runsOk_ret {m : Method} {rc : RCCResult} {failed : Bool} {calls : List Event}
    (h : RunsOk calls) : RunsOk (.ret m rc failed :: calls) := by
  intro s e hm
  rcases List.mem_cons.mp hm with heq | hm
  · cases heq
  · exact h s e hm

/-- How an exception leaves the worker. -/
def Thrown (e : Throw) (w : Worker) : Prop := Off w ∧ e ≠ .assertion

/-- **What a method does to the worker**: nothing if its ports work, otherwise it ends `Off`. -/
def ExecSpec (d : Dispatch) (b : Behaviour) : Prop :=
  ∀ w, (On w ∧ b.Safe d) ∨ Off w → Ends
    (fun rc w' => rc = b.result ∧ b.survives d ∧
      if b.quiet then w'.state = w.state ∧ w'.enabled = w.enabled ∧ w'.calls = w.calls else Off w')
    Thrown (b.exec d) w

theorem checkResult_off {rc : RCCResult} (h : Off w) :
    Ends (fun _ w' => Off w' ∧ rc = .ok) Thrown (checkResult rc) w := by
  cases rc with
  | ok => exact ⟨⟨h.state, h.enabled, h.runs⟩, rfl⟩
  | error => exact ⟨⟨h.state, h.enabled, h.runs⟩, by simp⟩
  | fatal => exact ⟨⟨by simp, rfl, h.runs⟩, by simp⟩
  | done | advance | advanceDone => exact ⟨⟨h.state, rfl, h.runs⟩, by simp⟩

/-- A method is called. -/
theorem call_ends {o : ControlOperation} (hb : ExecSpec d b)
    (h : (On w ∧ (d.has (.op o) → b.Safe d)) ∨ Off w) :
    Ends (fun rc w' => (d.has (.op o) → b.survives d ∧ rc = b.result) ∧
        (d.has (.op o) = false → rc = .ok) ∧ RunsOk w'.calls ∧
        if d.has (.op o) ∧ b.quiet = false then Off w'
        else w'.state = w.state ∧ w'.enabled = w.enabled)
      Thrown (call d (.op o) (b.exec d)) w := by
  have hruns : RunsOk (.call (.op o) w.state w.enabled :: w.calls) := by
    rcases h with h | h
    · exact runsOk_call h.1.runs
    · exact runsOk_call h.runs
  unfold call record
  rw [ends_change_bind]
  by_cases hhas : d.has (.op o)
  · rw [if_pos hhas]
    have hpre : (On { w with calls := .call (.op o) w.state w.enabled :: w.calls } ∧ b.Safe d) ∨
        Off { w with calls := .call (.op o) w.state w.enabled :: w.calls } := by
      rcases h with ⟨hon, hsafe⟩ | hoff
      · exact Or.inl ⟨⟨hon.state, hruns⟩, hsafe hhas⟩
      · exact Or.inr ⟨hoff.state, hoff.enabled, hruns⟩
    refine (hb _ hpre).bind ?_
    rintro rc w' ⟨hrc, hsurv, hend⟩
    rw [ends_change_bind, ends_pure]
    refine ⟨fun _ => ⟨hsurv, hrc⟩, fun hn => by simp [hhas] at hn, ?_, ?_⟩
    · split at hend
      · exact runsOk_ret (hend.2.2 ▸ hruns)
      · exact runsOk_ret hend.runs
    · cases hq : b.quiet with
      | true =>
        rw [hq, if_pos rfl] at hend
        rw [if_neg (by simp)]
        exact ⟨hend.1, hend.2.1⟩
      | false =>
        rw [hq, if_neg (by decide)] at hend
        rw [if_pos ⟨hhas, rfl⟩]
        exact ⟨hend.state, hend.enabled, runsOk_ret hend.runs⟩
  · rw [if_neg hhas]
    refine ⟨fun hp => absurd hp hhas, fun _ => rfl, runsOk_ret hruns, ?_⟩
    rw [if_neg fun hp => hhas hp.1]
    exact ⟨rfl, rfl⟩

/-- A method that is called in a worker that is `Off`. -/
theorem call_off {o : ControlOperation} (hb : ExecSpec d b) (h : Off w) :
    Ends (fun rc w' => Off w' ∧ (d.has (.op o) → b.survives d ∧ rc = b.result)) Thrown
      (call d (.op o) (b.exec d)) w := by
  refine (call_ends hb (Or.inr h)).imp ?_ fun _ _ h => h
  rintro rc w' ⟨hhas, -, hruns, hend⟩
  refine ⟨?_, hhas⟩
  split at hend
  · exact hend
  · exact ⟨hend.1 ▸ h.state, hend.2 ▸ h.enabled, hruns⟩

/-- `release` in a worker that is `Off`. -/
theorem release_off (hb : ExecSpec d b) (h : Off w) {connected : Bool} :
    Ends (fun _ w' => Off w' ∧ (d.has (.op .release) → b.survives d ∧ b.result = .ok)) Thrown
      (controlOperation d .release connected (b.exec d)) w := by
  have hoff : Off { w with enabled := false } := ⟨h.state, rfl, h.runs⟩
  unfold controlOperation setEnabled setControlState
  rw [ends_change_bind]
  refine (call_off hb hoff).bind ?_
  rintro rc w' ⟨hw', hhas⟩
  rw [ends_change_bind]
  have hw'' : Off { w' with state := .unusable } := ⟨by simp, hw'.enabled, hw'.runs⟩
  refine (checkResult_off hw'').imp ?_ fun _ _ h => h
  rintro - w'' ⟨hend, hrc⟩
  exact ⟨hend, fun hp => ⟨(hhas hp).1, (hhas hp).2 ▸ hrc⟩⟩

/-- The end of `stop` after its method. -/
theorem stop_end {rc : RCCResult} (h : Off w ∨ (On w ∧ w.enabled = false ∧ (rc = .ok ∨ rc = .fatal))) :
    Ends (fun _ w' => Off w' ∧ rc = .ok) Thrown (do
      if rc = .ok then do
        setEnabled false
        setControlState .suspended
        checkResult rc
      else checkResult rc) w := by
  have hruns : RunsOk w.calls := by
    rcases h with h | h
    · exact h.runs
    · exact h.1.runs
  split
  · next hrc =>
    unfold setEnabled setControlState
    rw [ends_change_bind, ends_change_bind]
    exact checkResult_off ⟨by simp, rfl, hruns⟩
  · next hrc =>
    rcases h with h | ⟨-, -, rfl | rfl⟩
    · exact checkResult_off h
    · exact absurd rfl hrc
    · exact ⟨⟨by simp, rfl, hruns⟩, by simp⟩

/-- **`stop` as `portError` calls it.** -/
theorem stop_ends {r rest : Behaviour} (hb : ExecSpec d b) (hdis : w.enabled = false)
    (h : (On w ∧ (Behaviour.portError b r rest).Safe d) ∨ Off w) :
    Ends (fun _ w' => Off w' ∧ (d.has (.op .stop) → b.survives d ∧ b.result = .ok)) Thrown
      (controlOperation d .stop true (b.exec d)) w := by
  unfold controlOperation
  rcases h with ⟨hon, hsafe⟩ | hoff
  · have hinner : d.has (.op .stop) → b.Safe d := by
      intro hhas
      cases b with
      | returns rc err => trivial
      | portError s' r' rest' => exact hsafe hhas
    refine (call_ends hb (Or.inl ⟨hon, hinner⟩)).bind ?_
    rintro rc w' ⟨hhas, hno, hruns, hend⟩
    have hstop : Off w' ∨ (On w' ∧ w'.enabled = false ∧ (rc = .ok ∨ rc = .fatal)) := by
      split at hend
      · exact Or.inl hend
      · next hq =>
        refine Or.inr ⟨⟨hend.1.trans hon.state, hruns⟩, hend.2.trans hdis, ?_⟩
        -- no port failed, so the result is that of the method
        cases hp : d.has (.op .stop) with
        | false => exact Or.inl (hno hp)
        | true =>
          rw [(hhas hp).2]
          cases b with
          | returns rc err => exact hsafe hp
          | portError s' r' rest' => exact absurd ⟨hp, rfl⟩ hq
    refine (stop_end hstop).imp ?_ fun _ _ h => h
    rintro - w'' ⟨hend, hrc⟩
    exact ⟨hend, fun hp => ⟨(hhas hp).1, (hhas hp).2 ▸ hrc⟩⟩
  · refine (call_off hb hoff).bind ?_
    rintro rc w' ⟨hw', hhas⟩
    refine (stop_end (Or.inl hw')).imp ?_ fun _ _ h => h
    rintro - w'' ⟨hend, hrc⟩
    exact ⟨hend, fun hp => ⟨(hhas hp).1, (hhas hp).2 ▸ hrc⟩⟩

/-- **`portError` turns the worker off** and returns only if `stop` and `release` succeed. -/
theorem portError_ends {stop release rest : Behaviour} (hs : ExecSpec d stop)
    (hr : ExecSpec d release)
    (h : (On w ∧ (Behaviour.portError stop release rest).Safe d) ∨ Off w) :
    Ends (fun _ w' => Off w' ∧ (d.has (.op .stop) → stop.survives d ∧ stop.result = .ok) ∧
        (d.has (.op .release) → release.survives d ∧ release.result = .ok))
      Thrown (portError d (stop.exec d) (release.exec d)) w := by
  unfold portError setEnabled setControlState
  rw [ends_change_bind]
  have hpre : (On { w with enabled := false } ∧
      (Behaviour.portError stop release rest).Safe d) ∨ Off { w with enabled := false } := by
    rcases h with ⟨hon, hsafe⟩ | hoff
    · exact Or.inl ⟨⟨hon.state, hon.runs⟩, hsafe⟩
    · exact Or.inr ⟨hoff.state, rfl, hoff.runs⟩
  refine (stop_ends hs rfl hpre).bind ?_
  rintro - w₁ ⟨hw₁, hstop⟩
  refine (release_off hr hw₁).bind ?_
  rintro - w₂ ⟨hw₂, hrel⟩
  exact ⟨⟨by simp, hw₂.enabled, hw₂.runs⟩, hstop, hrel⟩

/-- **Every method behaves as specified.** -/
theorem execSpec (d : Dispatch) : ∀ b : Behaviour, ExecSpec d b
  | .returns rc err => fun w _ => ⟨rfl, rfl, rfl, rfl, rfl⟩
  | .portError stop release rest => by
    intro w h
    unfold Behaviour.exec
    refine (portError_ends (execSpec d stop) (execSpec d release) h).bind ?_
    rintro - w₁ ⟨hw₁, hstop, hrel⟩
    refine (execSpec d rest w₁ (Or.inr hw₁)).imp ?_ fun _ _ h => h
    rintro rc w₂ ⟨hrc, hsurv, hend⟩
    refine ⟨hrc, ?_, ?_⟩
    · unfold Behaviour.survives
      rw [hsurv]
      cases hp : d.has (.op .stop) <;> cases hq : d.has (.op .release) <;> simp_all
    · show Off w₂
      split at hend
      · exact ⟨hend.1 ▸ hw₁.state, hend.2.1 ▸ hw₁.enabled, hend.2.2 ▸ hw₁.runs⟩
      · exact hend

/-! ## Operations -/

/-- **The invariant** of a worker between operations. -/
structure Ready (w : Worker) : Prop where
  enabled : w.enabled = true ↔ w.state = .operating
  runs : RunsOk w.calls

/-- The worker operates and is enabled. -/
structure Runs (w : Worker) : Prop extends On w where
  enabled : w.enabled = true

theorem Runs.ready (h : Runs w) : Ready w := ⟨by simp [h.enabled, h.state], h.runs⟩

theorem Off.ready (h : Off w) : Ready w := ⟨by simp [h.enabled, h.state], h.runs⟩

theorem Ready.cases (h : Ready w) : Runs w ∨ Off w := by
  cases he : w.enabled with
  | true => exact Or.inl ⟨⟨h.enabled.mp he, h.runs⟩, he⟩
  | false =>
    refine Or.inr ⟨fun hs => ?_, he, h.runs⟩
    rw [h.enabled.mpr hs] at he
    exact absurd he (by decide)

/-- How an operation leaves the worker. -/
def Left (e : Throw) (w : Worker) : Prop := Ready w ∧ e ≠ .assertion

theorem Thrown.left {e : Throw} (h : Thrown e w) : Left e w := ⟨h.1.ready, h.2⟩

/-- A result that a control method may return. -/
def RCCResult.proper (rc : RCCResult) : Prop := rc = .ok ∨ rc = .error ∨ rc = .fatal

instance (rc : RCCResult) : Decidable rc.proper := inferInstanceAs (Decidable (_ ∨ _ ∨ _))

/-- The result of a method of an operating worker. -/
theorem checkResult_ends {rc : RCCResult} (h : Off w ∨ (Runs w ∧ rc.proper)) :
    Ends (fun _ w' => Ready w' ∧ (Runs w → Runs w')) Left (checkResult rc) w := by
  rcases h with h | ⟨h, hrc⟩
  · refine (checkResult_off h).imp ?_ fun _ _ h => h.left
    rintro - w' ⟨hw', -⟩
    exact ⟨hw'.ready, fun hr => absurd hr.state h.state⟩
  · rcases hrc with rfl | rfl | rfl
    · have hr : Runs { w with errorString := none } := ⟨⟨h.state, h.runs⟩, h.enabled⟩
      exact ⟨hr.ready, fun _ => hr⟩
    · have hr : Runs { w with errorString := none } := ⟨⟨h.state, h.runs⟩, h.enabled⟩
      exact ⟨hr.ready, by simp⟩
    · exact Thrown.left ⟨⟨by simp, rfl, h.runs⟩, by simp⟩

/-- The condition on a control operation of an operating worker. -/
def MethodOk (d : Dispatch) (op : ControlOperation) (b : Behaviour) : Prop :=
  d.has (.op op) → b.Safe d ∧ (b.quiet → op ≠ .release → b.result.proper)

instance (d : Dispatch) (op : ControlOperation) (b : Behaviour) : Decidable (MethodOk d op b) :=
  inferInstanceAs (Decidable (_ → _ ∧ (_ → _ → _)))

/-- A method of an operating worker returns. -/
theorem call_runs {op : ControlOperation} (h : Runs w) (hb : MethodOk d op b)
    (hne : op ≠ .release) :
    Ends (fun rc w' => Off w' ∨ (Runs w' ∧ rc.proper)) Thrown (call d (.op op) (b.exec d)) w := by
  refine (call_ends (execSpec d b) (Or.inl ⟨h.toOn, fun hp => (hb hp).1⟩)).imp ?_ fun _ _ h => h
  rintro rc w' ⟨hhas, hno, hruns, hend⟩
  split at hend
  · exact Or.inl hend
  · next hq =>
    refine Or.inr ⟨⟨⟨hend.1.trans h.state, hruns⟩, hend.2.trans h.enabled⟩, ?_⟩
    cases hp : d.has (.op op) with
    | false => exact Or.inl (hno hp)
    | true =>
      rw [(hhas hp).2]
      refine (hb hp).2 ?_ hne
      by_contra hnq
      exact hq ⟨hp, by simpa using hnq⟩

/-- Control operations of an operating worker. -/
theorem controlOperation_runs {op : ControlOperation} {connected : Bool} (h : Runs w)
    (hb : MethodOk d op b)
    (hop : op = .stop ∨ op = .release ∨ op = .beforeQuery ∨ op = .afterConfigure) :
    Ends (fun _ w' => Ready w' ∧ (op = .stop ∨ op = .release → Off w')) Left
      (controlOperation d op connected (b.exec d)) w := by
  rcases hop with rfl | rfl | rfl | rfl
  · refine ((call_runs h hb (by decide)).imp (fun _ _ h => h) fun _ _ h => h.left).bind ?_
    intro rc w' hw'
    have hruns : RunsOk w'.calls := by
      rcases hw' with hw' | hw'
      · exact hw'.runs
      · exact hw'.1.runs
    by_cases hrc : rc = .ok
    · rw [if_pos hrc]
      refine (checkResult_off (w := { w' with enabled := false, state := .suspended })
        ⟨by simp, rfl, hruns⟩).imp ?_ fun _ _ h => h.left
      rintro - w'' ⟨hw'', -⟩
      exact ⟨hw''.ready, fun _ => hw''⟩
    · -- the worker did not stop
      rw [if_neg hrc]
      rcases hw' with hw' | ⟨hw', hproper⟩
      · refine (checkResult_off hw').imp ?_ fun _ _ h => h.left
        rintro - w'' ⟨-, hok⟩
        exact absurd hok hrc
      · rcases hproper with rfl | rfl | rfl
        · exact absurd rfl hrc
        · exact ⟨Runs.ready ⟨⟨hw'.state, hruns⟩, hw'.enabled⟩, by simp⟩
        · exact Thrown.left ⟨⟨by simp, rfl, hruns⟩, by simp⟩
  · unfold controlOperation setEnabled setControlState
    rw [ends_change_bind]
    have hon : On { w with enabled := false } := ⟨h.state, h.runs⟩
    refine ((call_ends (execSpec d b) (Or.inl ⟨hon, fun hp => (hb hp).1⟩)).imp
      (fun _ _ h => h) fun _ _ h => h.left).bind ?_
    rintro rc w' ⟨-, -, hruns, hend⟩
    rw [ends_change_bind]
    have hoff : Off { w' with state := .unusable } := by
      refine ⟨by simp, ?_, hruns⟩
      split at hend
      · exact hend.enabled
      · exact hend.2
    refine (checkResult_off hoff).imp ?_ fun _ _ h => h.left
    rintro - w'' ⟨hw'', -⟩
    exact ⟨hw''.ready, fun _ => hw''⟩
  all_goals
    refine ((call_runs h hb (by decide)).imp (fun _ _ h => h) fun _ _ h => h.left).bind ?_
    intro rc w' hw'
    refine (checkResult_ends hw').imp ?_ fun _ _ h => h
    rintro - w'' ⟨hw'', -⟩
    exact ⟨hw'', by simp⟩

/-- A control operation other than `start` of a worker that does not operate. -/
theorem controlOperation_off {op : ControlOperation} {connected : Bool} (h : Off w)
    (hop : op ≠ .start) :
    Ends (fun _ w' => Off w') Thrown (controlOperation d op connected (b.exec d)) w := by
  have hcheck : Ends (fun _ w' => Off w') Thrown
      (call d (.op op) (b.exec d) >>= checkResult) w := by
    refine (call_off (execSpec d b) h).bind ?_
    rintro rc w₁ ⟨hw₁, -⟩
    exact (checkResult_off hw₁).imp (fun _ _ h => h.1) fun _ _ h => h
  cases op with
  | start => exact absurd rfl hop
  | stop =>
    refine (call_off (execSpec d b) h).bind ?_
    rintro rc w' ⟨hw', -⟩
    exact (stop_end (Or.inl hw')).imp (fun _ _ h => h.1) fun _ _ h => h
  | release => exact (release_off (execSpec d b) h).imp (fun _ _ h => h.1) fun _ _ h => h
  | test =>
    show Ends _ _ (if d.has (.op .test) then call d (.op .test) (b.exec d) >>= checkResult
      else raise .testNotImplemented) w
    split
    · exact hcheck
    · exact ⟨h, by simp⟩
  | init | beforeQuery | afterConfigure => exact hcheck

/-- `start` enables the worker, or it fails. -/
theorem start_off {connected : Bool} (h : Off w) :
    Ends (fun _ w' => w'.enabled = true ∧ RunsOk w'.calls) Thrown
      (controlOperation d .start connected (b.exec d)) w := by
  unfold controlOperation
  cases connected with
  | false => exact ⟨h, by simp⟩
  | true =>
    rw [if_pos rfl]
    refine (call_off (execSpec d b) h).bind ?_
    rintro rc w' ⟨hw', -⟩
    by_cases hrc : rc = .ok
    · rw [if_pos hrc, hrc]
      exact ⟨rfl, hw'.runs⟩
    · rw [if_neg hrc]
      refine (checkResult_off hw').imp ?_ fun _ _ h => h
      rintro - w'' ⟨-, hok⟩
      exact absurd hok hrc

/-- **`controlOp` keeps the invariant.** -/
theorem controlOp_ends {op : ControlOperation} {connected : Bool} (h : Ready w)
    (hb : w.state = .operating → MethodOk d op b) :
    Ends (fun _ w' => Ready w') Left (controlOp d op connected (b.exec d)) w := by
  unfold controlOp
  rw [ends_read_bind]
  dsimp only
  split
  · exact h
  · split
    · exact h
    · next hnext =>
      split
      · next hvalid =>
        rcases h.cases with hruns | hoff
        · have hst := hruns.state
          rw [hst] at hvalid hnext
          have hop : op = .stop ∨ op = .release ∨ op = .beforeQuery ∨ op = .afterConfigure := by
            cases op <;> simp_all [controlTransitions]
          refine (controlOperation_runs hruns (hb hst) hop).bind ?_
          rintro - w' ⟨hw', hoff⟩
          rcases hop with rfl | rfl | rfl | rfl
          · exact ⟨by simp [(hoff (by simp)).enabled], hw'.runs⟩
          · exact ⟨by simp [(hoff (by simp)).enabled], hw'.runs⟩
          · exact hw'
          · exact hw'
        · by_cases hop : op = .start
          · subst hop
            refine ((start_off hoff).imp (fun _ _ h => h) fun _ _ h => h.left).bind ?_
            rintro - w' ⟨hen, hruns⟩
            exact ⟨by simp [hen], hruns⟩
          · refine ((controlOperation_off hoff hop).imp (fun _ _ h => h) fun _ _ h => h.left).bind ?_
            intro _ w' hw'
            have hset : ∀ {s : ControlState}, s ≠ .operating → Ready { w' with state := s } :=
              fun hs => ⟨by simp [hw'.enabled, hs], hw'.runs⟩
            cases op with
            | start => exact absurd rfl hop
            | init | stop | release => exact hset (by decide)
            | beforeQuery | afterConfigure | test => exact hw'.ready
      · exact ⟨h, by simp⟩

/-- A callback that is left by an exception comes before the assertion. -/
theorem callBacks_off : ∀ {bs : List Behaviour} {w : Worker}, Off w → (∃ c ∈ bs, ¬c.survives d) →
    Ends (fun _ _ => False) Thrown (callBacks d bs) w
  | [], _, _, hc => by simp at hc
  | b :: rest, w, h, hc => by
    unfold callBacks
    refine (execSpec d b w (Or.inr h)).bind ?_
    rintro rc w' ⟨-, hsurv, hend⟩
    have hw' : Off w' := by
      split at hend
      · exact ⟨hend.1 ▸ h.state, hend.2.1 ▸ h.enabled, hend.2.2 ▸ h.runs⟩
      · exact hend
    have hrest : ∃ c ∈ rest, ¬c.survives d := by
      obtain ⟨c, hc, hcs⟩ := hc
      rcases List.mem_cons.mp hc with rfl | hc
      · exact absurd hsurv hcs
      · exact ⟨c, hc, hcs⟩
    split
    · exact callBacks_off hw' hrest
    · have hoff : Off { w' with enabled := false, state := .unusable } :=
        ⟨by simp, rfl, hw'.runs⟩
      exact callBacks_off hoff hrest

theorem callBacks_ends : ∀ {bs : List Behaviour} {w : Worker}, Runs w → CallbacksOk d bs →
    Ends (fun _ w' => Runs w') Thrown (callBacks d bs) w
  | [], _, h, _ => h
  | b :: rest, w, h, hok => by
    obtain ⟨hsafe, hrest⟩ := hok
    unfold callBacks
    refine (execSpec d b w (Or.inl ⟨h.toOn, hsafe⟩)).bind ?_
    rintro rc w' ⟨rfl, hsurv, hend⟩
    -- if this callback went wrong, a later one is left by an exception
    have hbad : ∀ {w₁ : Worker}, Off w₁ → ¬(b.quiet ∧ b.result = .ok) →
        Ends (fun _ w' => Runs w') Thrown (callBacks d rest) w₁ := by
      intro w₁ hw₁ hne
      rw [if_neg hne] at hrest
      obtain ⟨c, hc, hcs⟩ := hrest
      rcases List.mem_cons.mp hc with rfl | hc
      · exact absurd hsurv hcs
      · exact (callBacks_off hw₁ ⟨c, hc, hcs⟩).imp (fun _ _ h => h.elim) fun _ _ h => h
    have hruns : RunsOk w'.calls := by
      split at hend
      · exact hend.2.2 ▸ h.runs
      · exact hend.runs
    split
    · next hrc =>
      cases hq : b.quiet with
      | true =>
        rw [hq, if_pos rfl] at hend
        rw [if_pos ⟨hq, hrc⟩] at hrest
        exact callBacks_ends ⟨⟨hend.1.trans h.state, hruns⟩, hend.2.1.trans h.enabled⟩ hrest
      | false =>
        rw [hq, if_neg (by decide)] at hend
        exact hbad hend (by simp [hq])
    · next hrc =>
      have hoff : Off { w' with enabled := false, state := .unusable } := ⟨by simp, rfl, hruns⟩
      exact hbad hoff fun hp => hrc hp.2

/-- The worker after a method that does not call `run`. -/
theorem exec_ready (h : Runs w ∨ Off w) (hb : b.Safe d) :
    Ends (fun _ w' => Runs w' ∨ Off w') Left (b.exec d) w := by
  have hpre : (On w ∧ b.Safe d) ∨ Off w := h.imp (fun h => ⟨h.toOn, hb⟩) id
  refine (execSpec d b w hpre).imp ?_ fun _ _ h => h.left
  rintro rc w' ⟨-, -, hend⟩
  split at hend
  · rcases h with h | h
    · exact Or.inl ⟨⟨hend.1.trans h.state, hend.2.2 ▸ h.runs⟩, hend.2.1.trans h.enabled⟩
    · exact Or.inr ⟨hend.1 ▸ h.state, hend.2.1 ▸ h.enabled, hend.2.2 ▸ h.runs⟩
  · exact Or.inr hend

theorem ready_of_or (h : Runs w ∨ Off w) : Ready w := h.elim Runs.ready Off.ready

theorem afterRun_ends {rc : RCCResult} (h : Runs w ∨ Off w) (hb : b.Safe d) :
    Ends (fun _ w' => Ready w') Left (afterRun d rc b) w := by
  have hset : ∀ {w₁ : Worker} {s : ControlState}, s ≠ .operating → RunsOk w₁.calls →
      Ready { w₁ with enabled := false, state := s } := fun hs hr => ⟨by simp [hs], hr⟩
  cases rc with
  | ok => exact ready_of_or h
  | advance => exact (exec_ready h hb).bind fun _ w' hw' => ready_of_or hw'
  | advanceDone =>
    exact (exec_ready h hb).bind fun _ w' hw' => hset (by decide) (ready_of_or hw').runs
  | done | error | fatal => exact hset (by decide) (ready_of_or h).runs

theorem ends_takeError_bind {α : Type} {ok : α → Worker → Prop} {fail : Throw → Worker → Prop}
    {f : Option String → M α} : Ends ok fail (takeError >>= f) w ↔
      Ends ok fail (f w.errorString) { w with errorString := none } := Iff.rfl

theorem callRun_ends {t : Turn} (h : Runs w) (hhas : d.has .run) (hb : t.body.Safe d)
    (ha : t.advance.Safe d) : Ends (fun _ w' => Ready w') Left (callRun d t) w := by
  have hcall : Ends (fun _ w' => Runs w' ∨ Off w') Left (call d .run (t.body.exec d)) w := by
    have hcalled : Runs { w with calls := .call .run w.state w.enabled :: w.calls } := by
      refine ⟨⟨h.state, fun s e hm => ?_⟩, h.enabled⟩
      rcases List.mem_cons.mp hm with heq | hm
      · cases heq
        exact ⟨h.state, h.enabled⟩
      · exact h.runs s e hm
    unfold call record
    rw [ends_change_bind, if_pos hhas]
    refine (exec_ready (Or.inl hcalled) hb).bind fun rc w' hw' => ?_
    rw [ends_change_bind, ends_pure]
    exact hw'.imp (fun h => ⟨⟨h.state, runsOk_ret h.runs⟩, h.enabled⟩)
      fun h => ⟨h.state, h.enabled, runsOk_ret h.runs⟩
  refine hcall.bind fun rc w' hw' => ?_
  have hclear : Runs { w' with errorString := none } ∨ Off { w' with errorString := none } :=
    hw'.imp (fun h => ⟨⟨h.state, h.runs⟩, h.enabled⟩) fun h => ⟨h.state, h.enabled, h.runs⟩
  rw [ends_takeError_bind]
  cases w'.errorString with
  | some e => exact ⟨ready_of_or hclear, by simp⟩
  | none =>
    dsimp only
    rw [ends_read_bind]
    split
    · exact ready_of_or hclear
    · exact afterRun_ends hclear ha

/-- The condition on `Worker::run`. -/
structure TurnOk (d : Dispatch) (t : Turn) : Prop where
  ready : t.ready.Safe d
  asked : t.ready.survives d → t.ready.quiet
  callbacks : t.met → CallbacksOk d t.callbacks
  body : t.body.Safe d
  advance : t.advance.Safe d

instance (d : Dispatch) (t : Turn) : Decidable (TurnOk d t) :=
  decidable_of_iff (t.ready.Safe d ∧ (t.ready.survives d → t.ready.quiet) ∧
      (t.met → CallbacksOk d t.callbacks) ∧ t.body.Safe d ∧ t.advance.Safe d)
    ⟨fun ⟨h₁, h₂, h₃, h₄, h₅⟩ => ⟨h₁, h₂, h₃, h₄, h₅⟩, fun h => ⟨h.1, h.2, h.3, h.4, h.5⟩⟩

/-- **`run` keeps the invariant** and passes its assertions. -/
theorem run_ends {t : Turn} (h : Ready w) (ht : w.enabled → TurnOk d t) :
    Ends (fun _ w' => Ready w') Left (run d t) w := by
  unfold run
  rw [ends_read_bind]
  split
  · next hen =>
    have hruns : Runs w := ⟨⟨h.enabled.mp hen, h.runs⟩, hen⟩
    have ht := ht hen
    refine ((execSpec d t.ready w (Or.inl ⟨hruns.toOn, ht.ready⟩)).imp (fun _ _ h => h)
      fun _ _ h => h.left).bind ?_
    rintro - w₁ ⟨-, hsurv, hend⟩
    rw [if_pos (ht.asked hsurv)] at hend
    have hw₁ : Runs w₁ :=
      ⟨⟨hend.1.trans hruns.state, hend.2.2 ▸ h.runs⟩, hend.2.1.trans hen⟩
    have hassert : ∀ {w₂ : Worker} {m : M Unit}, Runs w₂ →
        Ends (fun _ w' => Ready w') Left m w₂ →
        Ends (fun _ w' => Ready w') Left (assertEnabled >>= fun _ => m) w₂ := by
      intro w₂ m hw₂ hm
      refine Ends.bind (P := fun _ w₃ => w₃ = w₂) ?_ ?_
      · unfold assertEnabled
        rw [ends_read_bind, if_pos hw₂.enabled]
        rfl
      · rintro - w₃ rfl
        exact hm
    refine hassert hw₁ ?_
    by_cases hmet : t.met
    · rw [if_pos hmet]
      refine ((callBacks_ends hw₁ (ht.callbacks hmet)).imp (fun _ _ h => h)
        fun _ _ h => h.left).bind ?_
      intro _ w₂ hw₂
      refine hassert hw₂ ?_
      split
      · next hhas =>
        exact callRun_ends hw₂ (Bool.and_eq_true_iff.mp hhas).1 ht.body ht.advance
      · exact hw₂.ready
    · rw [if_neg hmet]
      exact hw₁.ready
  · exact h

/-! ## Only `run` calls `run` -/

/-- The computation calls no `run` method and fails no assertion. -/
def Harmless {α : Type} (m : M α) : Prop := ∀ w, RunsOk w.calls →
  Ends (fun _ w' => RunsOk w'.calls) (fun e w' => RunsOk w'.calls ∧ e ≠ .assertion) m w

theorem Harmless.bind {α β : Type} {m : M α} {f : α → M β} (hm : Harmless m)
    (hf : ∀ a, Harmless (f a)) : Harmless (m >>= f) :=
  fun w hw => (hm w hw).bind fun a w' hw' => hf a w' hw'

theorem harmless_setEnabled {e : Bool} : Harmless (setEnabled e) := fun _ hw => hw

theorem harmless_setControlState {s : ControlState} : Harmless (setControlState s) :=
  fun _ hw => hw

theorem harmless_call {o : ControlOperation} {body : M RCCResult} (hb : Harmless body) :
    Harmless (call d (.op o) body) := by
  have hret : ∀ rc, Harmless (record (fun w => .ret (.op o) rc w.errorString.isSome) >>= fun _ =>
      (pure rc : M RCCResult)) := fun rc w hw => runsOk_ret hw
  intro w hw
  unfold call
  show Ends _ _ (change _ >>= _) w
  rw [ends_change_bind]
  by_cases hhas : d.has (.op o)
  · rw [if_pos hhas]
    exact (hb.bind hret) _ (runsOk_call hw)
  · rw [if_neg hhas]
    exact hret .ok _ (runsOk_call hw)

theorem harmless_checkResult {rc : RCCResult} : Harmless (checkResult rc) := by
  intro w hw
  cases rc with
  | ok => exact hw
  | error | fatal | done | advance | advanceDone => exact ⟨hw, by simp⟩

theorem harmless_stop {body : M RCCResult} (hb : Harmless body) :
    Harmless (controlOperation d .stop true body) := by
  refine (harmless_call hb).bind fun rc => ?_
  split
  · exact harmless_setEnabled.bind fun _ =>
      harmless_setControlState.bind fun _ => harmless_checkResult
  · exact harmless_checkResult

theorem harmless_release {body : M RCCResult} (hb : Harmless body) :
    Harmless (controlOperation d .release true body) := by
  refine harmless_setEnabled.bind fun _ => (harmless_call hb).bind fun rc => ?_
  exact harmless_setControlState.bind fun _ => harmless_checkResult

theorem harmless_portError {stop release : M RCCResult} (hs : Harmless stop)
    (hr : Harmless release) : Harmless (portError d stop release) := by
  refine harmless_setEnabled.bind fun _ => (harmless_stop hs).bind fun _ => ?_
  exact (harmless_release hr).bind fun _ => harmless_setControlState

theorem harmless_exec (d : Dispatch) : ∀ b : Behaviour, Harmless (b.exec d)
  | .returns _ _ => fun _ hw => hw
  | .portError stop release rest =>
    (harmless_portError (harmless_exec d stop) (harmless_exec d release)).bind fun _ =>
      harmless_exec d rest

theorem harmless_destroy {stop release : Behaviour} : Harmless (destroy d stop release) := by
  have hrelease := harmless_release (d := d) (harmless_exec d release)
  intro w hw
  unfold destroy
  rw [ends_read_bind]
  split
  · have hstop : Harmless (setEnabled false >>= fun _ =>
        controlOperation d .stop true (stop.exec d)) :=
      harmless_setEnabled.bind fun _ => harmless_stop (harmless_exec d stop)
    exact (hstop.bind fun _ => hrelease) w hw
  · exact hrelease w hw

/-! ## Runs -/

/-- The condition on a step. -/
def Proper (d : Dispatch) (w : Worker) : Op → Prop
  | .control op _ b => w.state = .operating → MethodOk d op b
  | .run t => w.enabled → TurnOk d t
  | .portError stop release =>
    w.state = .operating → (Behaviour.portError stop release (.returns .ok none)).Safe d
  | .destroy _ _ => True

instance (d : Dispatch) (w : Worker) : (op : Op) → Decidable (Proper d w op)
  | .control op _ b => inferInstanceAs (Decidable (_ → MethodOk d op b))
  | .run t => inferInstanceAs (Decidable (_ → TurnOk d t))
  | .portError stop release => inferInstanceAs
      (Decidable (_ → (Behaviour.portError stop release (.returns .ok none)).Safe d))
  | .destroy _ _ => .isTrue trivial

/-- What the container promises about `enabled`. -/
structure Consistent (w : Worker) : Prop where
  enabled : w.status = .alive → (w.enabled = true ↔ w.state = .operating)
  runs : RunsOk w.calls
  asserts : w.status ≠ .aborted

/-- What holds after an operation, in each of the ways it can end. -/
theorem after_of {m : M Unit} {status : Status} {P : Worker → Prop}
    (h : Ends (fun _ w' => P { w' with status }) (fun e w' =>
      if e = .assertion then P { w' with status := .aborted } else P { w' with status }) m w) :
    P (after m status w) := by
  unfold Ends at h
  unfold after
  rcases hm : m w with ⟨e | a, w'⟩
  · rw [hm] at h
    cases e <;> exact h
  · rw [hm] at h
    exact h

theorem after_ready {m : M Unit} (h : Ends (fun _ w' => Ready w') Left m w) :
    Consistent (after m .alive w) := by
  refine after_of (h.imp (fun _ w' hw' => ?_) fun e w' hw' => ?_)
  · exact ⟨fun _ => hw'.enabled, hw'.runs, by simp⟩
  · rw [if_neg hw'.2]
    exact ⟨fun _ => hw'.1.enabled, hw'.1.runs, by simp⟩

theorem after_harmless {m : M Unit} (h : Harmless m) (hw : RunsOk w.calls) :
    Consistent (after m .destroyed w) := by
  refine after_of ((h w hw).imp (fun _ w' hw' => ?_) fun e w' hw' => ?_)
  · exact ⟨by simp, hw', by simp⟩
  · rw [if_neg hw'.2]
    exact ⟨by simp, hw'.1, by simp⟩

theorem consistent_step {op : Op} (h : Consistent w) (hok : Proper d w op)
    (hs : step d w op = some w') : Consistent w' := by
  unfold step at hs
  obtain ⟨halive, hs⟩ := Option.ite_none_right_eq_some.mp hs
  have hready : Ready w := ⟨h.enabled halive, h.runs⟩
  cases op with
  | control op connected b =>
    cases hs
    exact after_ready (controlOp_ends hready hok)
  | run t =>
    cases hs
    exact after_ready (run_ends hready hok)
  | portError stop release =>
    cases hs
    have hpre : (On w ∧ (Behaviour.portError stop release (.returns .ok none)).Safe d) ∨ Off w :=
      hready.cases.imp (fun h => ⟨h.toOn, hok h.state⟩) id
    refine after_ready ((portError_ends (execSpec d stop) (execSpec d release) hpre).imp ?_ ?_)
    · rintro - w₁ ⟨hw₁, -⟩
      exact hw₁.ready
    · exact fun _ _ h => h.left
  | destroy stop release =>
    cases hs
    exact after_harmless harmless_destroy h.runs

/-- A worker that has all methods. -/
def fullDispatch : Dispatch := ⟨fun _ => true, "w", "impl", "inst"⟩

def fine : Behaviour := .returns .ok none

end OpenCpi.Rcc
