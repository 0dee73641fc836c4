import OpenCpi.Properties.RccWorker

/-!
# The life cycle of a worker, as long as nobody releases it twice

The transition table guards the operations that come through `controlOp`, but the destructor and
`portError` call `controlOperation` directly. The destructor releases a worker that was never
initialized or was released before, and so does `portError`. A port that fails inside `initialize`,
`start` or `stop` releases the worker, and the operation then goes on as if it had not; a second one
in the same method, or one in `advanceAll` of a run that is done, releases it once more.

In a run in which the worker is destroyed, and its ports fail, only while it is initialized and not
yet released, and at most one port fails in an operation, the calls of its methods follow the life
cycle.
-/

namespace OpenCpi.Rcc

open Infra Exc

/-! ## The life cycle -/

/-- Where a worker stands according to the calls of its methods. `raw` is a worker that was not
initialized, or was released. -/
inductive Life where
  | raw
  | initialized
  | running
  | stopped
  | finished
deriving DecidableEq, Repr

/-- Which methods may be called. -/
def Life.allows (l : Life) : Method → Bool
  | .run => l = .running
  | .op .init => l = .raw
  | .op .start => l = .initialized || l = .stopped
  | .op .stop | .op .release => l ≠ .raw
  | .op .beforeQuery | .op .afterConfigure | .op .test => true

/-- A worker counts as released from the call of `release` on. -/
def Life.called (l : Life) : Method → Life
  | .op .release => .raw
  | _ => l

/-- A method returned. A `stop` that fails does not stop the worker, and a `run` that left an error
text does not complete it. -/
def Life.returned (l : Life) (m : Method) (rc : RCCResult) (failed : Bool) : Life :=
  match m with
  | .op .init => if rc = .ok ∧ l = .raw then .initialized else l
  | .op .start => if rc = .ok ∧ (l = .initialized ∨ l = .stopped) then .running else l
  | .op .stop => if rc = .ok ∧ l ≠ .raw then .stopped else l
  | .run =>
    if (rc = .done ∨ rc = .advanceDone) ∧ failed = false ∧ l = .running then .finished else l
  | _ => l

/-- One event; `none` breaks the life cycle. A method that the worker does not have is never
called. -/
def Life.next (d : Dispatch) (l : Life) : Event → Option Life
  | .call m _ _ => if d.has m && !l.allows m then none else some (l.called m)
  | .ret m rc failed => some (l.returned m rc failed)

/-- The life of a worker after some calls, the latest first. -/
def life (d : Dispatch) : List Event → Option Life
  | [] => some .raw
  | e :: rest => (life d rest).bind (·.next d e)

/-- The calls follow the life cycle. -/
def Follows (d : Dispatch) (w : Worker) : Prop := (life d w.calls).isSome

instance (d : Dispatch) (w : Worker) : Decidable (Follows d w) :=
  inferInstanceAs (Decidable ((life d w.calls).isSome = true))

/-! ## The condition -/

/-- At most one port fails in the method. -/
def Behaviour.single : Behaviour → Bool
  | .returns .. => true
  | .portError stop release rest => stop.quiet && release.quiet && rest.quiet

/-- At most one port fails in the callbacks. -/
def singles : List Behaviour → Bool
  | [] => true
  | b :: rest => b.single && (b.quiet || rest.all (·.quiet)) && singles rest

/-- At most one port fails in a call of `run`, and none in the last `advanceAll`. -/
def Turn.single (t : Turn) : Bool :=
  t.ready.single && singles t.callbacks && t.body.single && t.advance.single &&
    (t.body.result != .advanceDone || t.advance.quiet)

/-- The worker is initialized and not released. -/
def Worker.live (d : Dispatch) (w : Worker) : Prop := life d w.calls ≠ some .raw

instance (d : Dispatch) (w : Worker) : Decidable (w.live d) :=
  inferInstanceAs (Decidable (_ ≠ _))

/-- The condition on a step. -/
def LifeOk (d : Dispatch) (w : Worker) : Op → Prop
  | .control op _ b => d.has (.op op) →
    if op = .init ∨ op = .start ∨ op = .stop ∨ op = .release then b.quiet else b.single
  | .run t => w.enabled → t.single
  | .portError stop release => w.live d ∧ stop.quiet ∧ release.quiet
  | .destroy stop release => (d.has (.op .release) → w.live d) ∧ stop.quiet ∧ release.quiet

instance (d : Dispatch) (w : Worker) : (op : Op) → Decidable (LifeOk d w op)
  | .control op _ b => inferInstanceAs (Decidable (d.has (.op op) = true →
      if op = .init ∨ op = .start ∨ op = .stop ∨ op = .release then b.quiet = true
      else b.single = true))
  | .run t => inferInstanceAs (Decidable (w.enabled = true → t.single = true))
  | .portError stop release => inferInstanceAs
      (Decidable (w.live d ∧ stop.quiet = true ∧ release.quiet = true))
  | .destroy stop release => inferInstanceAs (Decidable
      ((d.has (.op .release) = true → w.live d) ∧ stop.quiet = true ∧ release.quiet = true))

/-! ## The invariant -/

/-- The life that belongs to a control state. -/
def Linked : ControlState → Life → Prop
  | .existing, l => l = .raw
  | .initialized, l => l = .initialized
  | .operating, l => l = .running
  | .suspended, l => l = .stopped
  | .finished, l => l = .finished
  | .unusable, _ => True

/-- **The invariant.** -/
structure Lives (d : Dispatch) (l : Life) (w : Worker) : Prop where
  life : life d w.calls = some l
  linked : Linked w.state l
  enabled : w.enabled = true → w.state = .operating

/-- How an operation leaves the worker. -/
def Alive (d : Dispatch) (w : Worker) : Prop := ∃ l, Lives d l w

variable {d : Dispatch} {w w' : Worker} {b : Behaviour} {l : Life}

theorem Alive.follows (h : Alive d w) : Follows d w := by
  obtain ⟨l, hl⟩ := h
  rw [Follows, hl.life]
  rfl

/-- A worker that became unusable. -/
theorem alive_unusable (h : life d w.calls = some l) (hs : w.state = .unusable)
    (he : w.enabled = false) : Lives d l w :=
  ⟨h, by rw [hs]; trivial, by simp [he]⟩

/-- The error text does not matter. -/
theorem Lives.errorString {err : Option String} (h : Lives d l w) :
    Lives d l { w with errorString := err } := ⟨h.life, h.linked, h.enabled⟩

theorem Lives.disable (h : Lives d l w) : Lives d l { w with enabled := false } :=
  ⟨h.life, h.linked, by simp⟩

/-- A method without failing ports is called where it may be. -/
theorem call_quiet {m : Method} (hq : d.has m → b.quiet) (hl : life d w.calls = some l)
    (hallow : d.has m → l.allows m) :
    Ends (fun rc w' => w'.state = w.state ∧ w'.enabled = w.enabled ∧
        (d.has m → rc = b.result) ∧ (d.has m = false → rc = .ok) ∧
        life d w'.calls = some ((l.called m).returned m rc w'.errorString.isSome))
      (fun _ _ => False) (call d m (b.exec d)) w := by
  have hcall : ∀ s e, life d (.call m s e :: w.calls) = some (l.called m) := by
    intro s e
    rw [life, hl, Option.bind_some, Life.next, if_neg]
    simpa using hallow
  have hret : ∀ {calls : List Event} {rc : RCCResult} {failed : Bool},
      life d calls = some (l.called m) →
      life d (.ret m rc failed :: calls) = some ((l.called m).returned m rc failed) := by
    intro calls rc failed hc
    rw [life, hc]
    rfl
  unfold call record
  rw [ends_change_bind]
  by_cases hhas : d.has m
  · rw [if_pos hhas]
    cases b with
    | returns rc err =>
      exact ⟨rfl, rfl, fun _ => rfl, fun hn => by simp [hhas] at hn, hret (hcall _ _)⟩
    | portError s r rest => exact absurd (hq hhas) (by simp [Behaviour.quiet])
  · rw [if_neg hhas]
    exact ⟨rfl, rfl, fun hp => absurd hp hhas, fun _ => rfl, hret (hcall _ _)⟩

/-- The check of a result keeps the invariant. -/
theorem checkResult_lives {rc : RCCResult} (h : Lives d l w) :
    Ends (fun _ w' => rc = .ok ∧ Lives d l w') (fun _ w' => Alive d w') (checkResult rc) w := by
  cases rc with
  | ok => exact ⟨rfl, h.errorString⟩
  | error => exact ⟨l, h.errorString⟩
  | fatal => exact ⟨l, alive_unusable h.life rfl rfl⟩
  | done | advance | advanceDone => exact ⟨l, h.errorString.disable⟩

/-- The worker was released and is unusable. -/
structure Gone (d : Dispatch) (w : Worker) : Prop where
  life : life d w.calls = some .raw
  state : w.state = .unusable
  enabled : w.enabled = false

theorem Gone.lives (h : Gone d w) : Lives d .raw w := alive_unusable h.life h.state h.enabled

theorem Life.allows_stop (h : l ≠ .raw) : l.allows (.op .stop) := by simpa [Life.allows] using h

theorem Life.allows_release (h : l ≠ .raw) : l.allows (.op .release) := by
  simpa [Life.allows] using h

theorem stop_lives (hq : d.has (.op .stop) → b.quiet) (h : Lives d l w) (hl : l ≠ .raw) :
    Ends (fun _ w' => Lives d .stopped w' ∧ w'.enabled = false) (fun _ w' => Alive d w')
      (controlOperation d .stop true (b.exec d)) w := by
  unfold controlOperation
  refine ((call_quiet hq h.life fun _ => Life.allows_stop hl).imp (fun _ _ h => h)
    fun _ _ h => h.elim).bind ?_
  rintro rc w' ⟨hst, hen, -, -, hlife⟩
  by_cases hrc : rc = .ok
  · rw [if_pos hrc, hrc]
    have hstopped : life d w'.calls = some .stopped := by
      rw [hlife]
      simp [Life.called, Life.returned, hrc, hl]
    exact ⟨⟨hstopped, rfl, by simp⟩, rfl⟩
  · rw [if_neg hrc]
    have hsame : life d w'.calls = some l := by
      rw [hlife]
      simp [Life.called, Life.returned, hrc]
    have hw' : Lives d l w' := ⟨hsame, hst ▸ h.linked, fun he => hst ▸ h.enabled (hen ▸ he)⟩
    refine (checkResult_lives hw').imp ?_ fun _ _ h => h
    rintro - w'' ⟨hok, -⟩
    exact absurd hok hrc

theorem release_lives {connected : Bool} (hq : d.has (.op .release) → b.quiet)
    (h : life d w.calls = some l) (hl : d.has (.op .release) → l ≠ .raw) :
    Ends (fun _ w' => Gone d w') (fun _ w' => Alive d w')
      (controlOperation d .release connected (b.exec d)) w := by
  unfold controlOperation setEnabled setControlState
  rw [ends_change_bind]
  have hcall := call_quiet (m := .op .release) (w := { w with enabled := false }) hq h
    fun hp => Life.allows_release (hl hp)
  refine (hcall.imp (fun _ _ h => h) fun _ _ h => h.elim).bind ?_
  rintro rc w' ⟨-, hen, -, -, hlife⟩
  rw [ends_change_bind]
  have hraw : life d w'.calls = some .raw := hlife
  have hgone : Gone d { w' with state := .unusable } := ⟨hraw, rfl, hen⟩
  cases rc with
  | ok => exact ⟨hraw, rfl, hen⟩
  | error => exact ⟨.raw, hgone.lives.errorString⟩
  | fatal => exact ⟨.raw, alive_unusable hraw rfl rfl⟩
  | done | advance | advanceDone => exact ⟨.raw, hgone.lives.errorString.disable⟩

/-- **`portError` stops and releases the worker**, or an exception leaves it alive. -/
theorem portError_lives {stop release : Behaviour} (hs : stop.quiet) (hr : release.quiet)
    (h : Lives d l w) (hl : l ≠ .raw) :
    Ends (fun _ w' => Gone d w') (fun _ w' => Alive d w')
      (portError d (stop.exec d) (release.exec d)) w := by
  unfold portError setEnabled setControlState
  rw [ends_change_bind]
  refine (stop_lives (fun _ => hs) h.disable hl).bind ?_
  rintro - w₁ ⟨hw₁, -⟩
  refine (release_lives (fun _ => hr) hw₁.life fun _ => by decide).bind ?_
  intro _ w₂ hw₂
  exact ⟨hw₂.life, rfl, hw₂.enabled⟩

theorem exec_quiet (hq : b.quiet) :
    Ends (fun rc w' => rc = b.result ∧ w'.state = w.state ∧ w'.enabled = w.enabled ∧
      w'.calls = w.calls) (fun _ _ => False) (b.exec d) w := by
  cases b with
  | returns rc err => exact ⟨rfl, rfl, rfl, rfl⟩
  | portError s r rest => exact absurd hq (by simp [Behaviour.quiet])

/-- **A method in which at most one port fails**, called in a worker that is not released. -/
theorem exec_single (hb : b.single) (h : Lives d l w) (hl : l ≠ .raw) :
    Ends (fun rc w' => rc = b.result ∧ (if b.quiet then
        w'.state = w.state ∧ w'.enabled = w.enabled ∧ w'.calls = w.calls else Gone d w'))
      (fun _ w' => Alive d w') (b.exec d) w := by
  cases b with
  | returns rc err => exact ⟨rfl, rfl, rfl, rfl⟩
  | portError s r rest =>
    simp only [Behaviour.single, Bool.and_eq_true] at hb
    obtain ⟨⟨hs, hr⟩, hrest⟩ := hb
    unfold Behaviour.exec
    refine (portError_lives hs hr h hl).bind ?_
    intro _ w₁ hw₁
    refine (exec_quiet hrest).imp ?_ fun _ _ h => h.elim
    rintro rc w₂ ⟨hrc, hst, hen, hcalls⟩
    exact ⟨hrc, hcalls ▸ hw₁.life, hst.trans hw₁.state, hen.trans hw₁.enabled⟩

/-! ## Operations -/

/-- The state that `controlOp` sets after a method that succeeded. -/
theorem checked_call_lives {op : ControlOperation} (hq : d.has (.op op) → b.quiet)
    (h : Lives d l w) (hallow : l.allows (.op op))
    (hret : ∀ rc failed, rc ≠ .ok → (l.called (.op op)).returned (.op op) rc failed = l) :
    Ends (fun _ w' => life d w'.calls = some ((l.called (.op op)).returned (.op op) .ok false) ∧
        w'.state = w.state ∧ w'.enabled = w.enabled) (fun _ w' => Alive d w')
      (call d (.op op) (b.exec d) >>= checkResult) w := by
  refine ((call_quiet hq h.life fun _ => hallow).imp (fun _ _ h => h) fun _ _ h => h.elim).bind ?_
  rintro rc w' ⟨hst, hen, -, -, hlife⟩
  by_cases hrc : rc = .ok
  · subst hrc
    refine ⟨?_, hst, hen⟩
    cases op <;> exact hlife
  · have hw' : Lives d l w' :=
      ⟨hlife.trans (by rw [hret rc _ hrc]), hst ▸ h.linked, fun he => hst ▸ h.enabled (hen ▸ he)⟩
    refine (checkResult_lives hw').imp ?_ fun _ _ h => h
    rintro - w'' ⟨hok, -⟩
    exact absurd hok hrc

/-- `initialize` -/
theorem init_lives {connected : Bool} (hq : d.has (.op .init) → b.quiet) (h : Lives d .raw w)
    (hst : w.state = .existing) :
    Ends (fun _ w' => Lives d .initialized { w' with state := .initialized })
      (fun _ w' => Alive d w') (controlOperation d .init connected (b.exec d)) w := by
  have hdis : w.enabled = false := by
    by_contra he
    have := h.enabled (by simpa using he)
    rw [hst] at this
    exact absurd this (by decide)
  refine (checked_call_lives hq h rfl fun rc failed hrc => ?_).imp ?_ fun _ _ h => h
  · simp [Life.called, Life.returned, hrc]
  · rintro - w' ⟨hlife, -, hen⟩
    exact ⟨hlife, rfl, by simp [hen, hdis]⟩

/-- `start` -/
theorem start_lives {connected : Bool} (hq : d.has (.op .start) → b.quiet) (h : Lives d l w)
    (hl : l = .initialized ∨ l = .stopped) :
    Ends (fun _ w' => Lives d .running { w' with state := .operating })
      (fun _ w' => Alive d w') (controlOperation d .start connected (b.exec d)) w := by
  have hallow : l.allows (.op .start) := by
    rcases hl with rfl | rfl <;> rfl
  unfold controlOperation
  cases connected with
  | false => exact ⟨l, h⟩
  | true =>
    rw [if_pos rfl]
    refine ((call_quiet hq h.life fun _ => hallow).imp (fun _ _ h => h) fun _ _ h => h.elim).bind ?_
    rintro rc w' ⟨hst, hen, -, -, hlife⟩
    by_cases hrc : rc = .ok
    · rw [if_pos hrc, hrc]
      refine ⟨hlife.trans ?_, rfl, fun _ => rfl⟩
      rcases hl with rfl | rfl <;> simp [Life.called, Life.returned, hrc]
    · rw [if_neg hrc]
      have hsame : life d w'.calls = some l := hlife.trans (by simp [Life.called, Life.returned, hrc])
      have hw' : Lives d l w' := ⟨hsame, hst ▸ h.linked, fun he => hst ▸ h.enabled (hen ▸ he)⟩
      refine (checkResult_lives hw').imp ?_ fun _ _ h => h
      rintro - w'' ⟨hok, -⟩
      exact absurd hok hrc

/-- The operations that do not change the state. -/
theorem other_lives {op : ControlOperation}
    (hop : op = .beforeQuery ∨ op = .afterConfigure ∨ op = .test) (hb : d.has (.op op) → b.single)
    (h : Lives d l w) (hl : l ≠ .raw) :
    Ends (fun _ w' => Alive d w') (fun _ w' => Alive d w')
      (call d (.op op) (b.exec d) >>= checkResult) w := by
  have hcall : ∀ {calls : List Event} {l' : Life} {s : ControlState} {e : Bool},
      life d calls = some l' → life d (.call (.op op) s e :: calls) = some l' := by
    intro calls l' s e hc
    rw [life, hc]
    rcases hop with rfl | rfl | rfl <;> simp [Life.next, Life.allows, Life.called]
  have hret : ∀ {calls : List Event} {l' : Life} {rc : RCCResult} {failed : Bool},
      life d calls = some l' → life d (.ret (.op op) rc failed :: calls) = some l' := by
    intro calls l' rc failed hc
    rw [life, hc]
    rcases hop with rfl | rfl | rfl <;> rfl
  have hbody : Ends (fun _ w' => Alive d w') (fun _ w' => Alive d w')
      (call d (.op op) (b.exec d)) w := by
    unfold call record
    rw [ends_change_bind]
    have hw₁ : Lives d l { w with calls := .call (.op op) w.state w.enabled :: w.calls } :=
      ⟨hcall h.life, h.linked, h.enabled⟩
    by_cases hhas : d.has (.op op)
    · rw [if_pos hhas]
      refine (exec_single (hb hhas) hw₁ hl).bind ?_
      rintro rc w₂ ⟨-, hend⟩
      rw [ends_change_bind, ends_pure]
      split at hend
      · obtain ⟨hst, hen, hcalls⟩ := hend
        exact ⟨l, hret (hcalls ▸ hw₁.life), hst ▸ h.linked, fun he => hst ▸ h.enabled (hen ▸ he)⟩
      · exact ⟨.raw, alive_unusable (hret hend.life) hend.state hend.enabled⟩
    · rw [if_neg hhas]
      exact ⟨l, hret hw₁.life, h.linked, h.enabled⟩
  refine hbody.bind ?_
  rintro rc w' ⟨l', hw'⟩
  exact (checkResult_lives hw').imp (fun _ _ h => ⟨l', h.2⟩) fun _ _ h => h

/-- A worker in a state with a life is not released. -/
theorem Lives.not_raw (h : Lives d l w) (hs : w.state ≠ .existing) (hu : w.state ≠ .unusable) :
    l ≠ .raw := by
  have hlink := h.linked
  rintro rfl
  cases hst : w.state <;> simp_all [Linked]

/-- **`controlOp` keeps the invariant.** -/
theorem controlOp_lives {op : ControlOperation} {connected : Bool} (h : Alive d w)
    (hok : LifeOk d w (.control op connected b)) :
    Ends (fun _ w' => Alive d w') (fun _ w' => Alive d w')
      (controlOp d op connected (b.exec d)) w := by
  unfold controlOp
  rw [ends_read_bind]
  dsimp only
  split
  · exact h
  · split
    · exact h
    · split
      · next hvalid =>
        obtain ⟨l, hl⟩ := h
        have hlink := hl.linked
        have hset : ∀ {l' : Life} {s : ControlState} {w' : Worker},
            Lives d l' { w' with state := s } →
            Ends (fun _ w' => Alive d w') (fun _ w' => Alive d w') (setControlState s) w' :=
          fun hw' => ⟨_, hw'⟩
        cases op with
        | init =>
          have hst : w.state = .existing := by simpa [controlTransitions] using hvalid
          rw [hst] at hlink
          cases hlink
          refine (init_lives (fun hp => hok hp) hl hst).bind ?_
          exact fun _ w' hw' => hset hw'
        | start =>
          have hinit : l = .initialized ∨ l = .stopped := by
            have hst : w.state = .suspended ∨ w.state = .initialized := by
              simpa [controlTransitions] using hvalid
            rcases hst with hst | hst
            · exact Or.inr (by simpa [Linked, hst] using hlink)
            · exact Or.inl (by simpa [Linked, hst] using hlink)
          refine (start_lives (fun hp => hok hp) hl hinit).bind ?_
          exact fun _ w' hw' => hset hw'
        | stop =>
          have hne : l ≠ .raw := hl.not_raw (fun hs => by simp [controlTransitions, hs] at hvalid)
            fun hs => by simp [controlTransitions, hs] at hvalid
          refine (stop_lives (fun hp => hok hp) hl hne).bind ?_
          exact fun _ w' hw' => hset ⟨hw'.1.life, rfl, by simp [hw'.2]⟩
        | release =>
          have hne : l ≠ .raw := hl.not_raw (fun hs => by simp [controlTransitions, hs] at hvalid)
            fun hs => by simp [controlTransitions, hs] at hvalid
          refine (release_lives (fun hp => hok hp) hl.life fun _ => hne).bind ?_
          exact fun _ w' hw' => hset ⟨hw'.life, rfl, by simp [hw'.enabled]⟩
        | beforeQuery | afterConfigure =>
          have hne : l ≠ .raw := hl.not_raw (fun hs => by simp [controlTransitions, hs] at hvalid)
            fun hs => by simp [controlTransitions, hs] at hvalid
          exact (other_lives (by simp) (fun hp => hok hp) hl hne).bind fun _ w' hw' => hw'
        | test =>
          have hne : l ≠ .raw := hl.not_raw (fun hs => by simp [controlTransitions, hs] at hvalid)
            fun hs => by simp [controlTransitions, hs] at hvalid
          refine Ends.bind (P := fun _ w' => Alive d w') ?_ fun _ w' hw' => hw'
          show Ends _ _ (if d.has (.op .test) then call d (.op .test) (b.exec d) >>= checkResult
            else raise .testNotImplemented) w
          split
          · exact other_lives (by simp) (fun hp => hok hp) hl hne
          · exact ⟨l, hl⟩
      · exact h

/-- The port callbacks. After a port failed, nothing more happens to the life of the worker. -/
theorem callBacks_lives : ∀ {bs : List Behaviour} {w : Worker} {l : Life}, singles bs →
    Lives d l w → l ≠ .raw ∨ bs.all (·.quiet) →
    Ends (fun _ w' => Alive d w') (fun _ w' => Alive d w') (callBacks d bs) w
  | [], _, l, _, h, _ => ⟨l, h⟩
  | b :: rest, w, l, hs, h, hl => by
    simp only [singles, Bool.and_eq_true, Bool.or_eq_true] at hs
    obtain ⟨⟨hb, hrest⟩, hsingles⟩ := hs
    -- the rest of the loop, after the callback left the worker with a life
    have hloop : ∀ {l' : Life} {rc : RCCResult} {w' : Worker}, Lives d l' w' →
        l' ≠ .raw ∨ rest.all (·.quiet) →
        Ends (fun _ w' => Alive d w') (fun _ w' => Alive d w') (do
          if rc = .ok then callBacks d rest
          else do
            setEnabled false
            setControlState .unusable
            callBacks d rest) w' := by
      intro l' rc w' hw' hl'
      split
      · exact callBacks_lives hsingles hw' hl'
      · have hun : Lives d l' { w' with enabled := false, state := .unusable } :=
          alive_unusable hw'.life rfl rfl
        exact callBacks_lives hsingles hun hl'
    have hsame : ∀ {w' : Worker}, w'.state = w.state ∧ w'.enabled = w.enabled ∧
        w'.calls = w.calls → Lives d l w' := fun ⟨hst, hen, hcalls⟩ =>
      ⟨hcalls ▸ h.life, hst ▸ h.linked, fun he => hst ▸ h.enabled (hen ▸ he)⟩
    unfold callBacks
    rcases hl with hl | hl
    · refine (exec_single hb h hl).bind ?_
      rintro rc w' ⟨-, hend⟩
      split at hend
      · exact hloop (hsame hend) (Or.inl hl)
      · next hq => exact hloop hend.lives (Or.inr (hrest.resolve_left hq))
    · rw [List.all_cons, Bool.and_eq_true] at hl
      refine ((exec_quiet hl.1).imp (fun _ _ h => h) fun _ _ h => h.elim).bind ?_
      rintro rc w' ⟨-, hend⟩
      exact hloop (hsame hend) (Or.inr hl.2)

theorem assertEnabled_bind {m : M Unit} (h : Alive d w)
    (hm : Lives d .running w → w.state = .operating → w.enabled = true →
      Ends (fun _ w' => Alive d w') (fun _ w' => Alive d w') m w) :
    Ends (fun _ w' => Alive d w') (fun _ w' => Alive d w') (assertEnabled >>= fun _ => m) w := by
  by_cases hen : w.enabled
  · obtain ⟨l, hl⟩ := h
    have hst := hl.enabled hen
    have hlink := hl.linked
    rw [hst] at hlink
    cases hlink
    refine Ends.bind (P := fun _ w₁ => w₁ = w) ?_ ?_
    · unfold assertEnabled
      rw [ends_read_bind, if_pos hen]
      rfl
    · rintro - w₁ rfl
      exact hm hl hst hen
  · refine Ends.bind (P := fun _ _ => False) ?_ fun _ _ h => h.elim
    unfold assertEnabled
    rw [ends_read_bind, if_neg hen]
    exact h

/-- The `run` method of an operating worker. -/
theorem callRun_lives {t : Turn} (ht : t.single) (hhas : d.has .run) (h : Lives d .running w)
    (hst : w.state = .operating) (hen : w.enabled = true) :
    Ends (fun _ w' => Alive d w') (fun _ w' => Alive d w') (callRun d t) w := by
  simp only [Turn.single, Bool.and_eq_true, Bool.or_eq_true, bne_iff_ne] at ht
  obtain ⟨⟨⟨-, hbody⟩, hadv⟩, hlast⟩ := ht
  have hcalled : Lives d .running { w with calls := .call .run w.state w.enabled :: w.calls } := by
    refine ⟨?_, h.linked, h.enabled⟩
    rw [life, h.life]
    simp [Life.next, Life.allows, Life.called]
  unfold callRun
  -- the worker when `run` returned: released by a failing port, or as before
  refine Ends.bind (P := fun rc w' => Gone d w' ∨ (rc = t.body.result ∧ w'.state = .operating ∧
      w'.enabled = true ∧
      life d w'.calls = some (Life.returned .running .run rc w'.errorString.isSome))) ?_ ?_
  · unfold call record
    rw [ends_change_bind, if_pos hhas]
    refine (exec_single hbody hcalled (by decide)).bind ?_
    rintro rc w₁ ⟨hrc, hend⟩
    rw [ends_change_bind, ends_pure]
    split at hend
    · obtain ⟨hst₁, hen₁, hcalls⟩ := hend
      refine Or.inr ⟨hrc, hst₁.trans hst, hen₁.trans hen, ?_⟩
      show life d (_ :: w₁.calls) = _
      rw [life, hcalls, hcalled.life]
      rfl
    · refine Or.inl ⟨?_, hend.state, hend.enabled⟩
      show life d (_ :: w₁.calls) = _
      rw [life, hend.life]
      simp [Life.next, Life.returned]
  · intro rc w₁ hw₁
    rw [ends_takeError_bind]
    rcases hw₁ with hgone | ⟨hrc, hst₁, hen₁, hlife⟩
    · cases w₁.errorString with
      | some e => exact ⟨.raw, hgone.lives.errorString⟩
      | none =>
        dsimp only
        rw [ends_read_bind, if_pos hgone.state]
        exact ⟨.raw, hgone.lives.errorString⟩
    · cases herr : w₁.errorString with
      | some e =>
        refine ⟨.running, hlife.trans ?_, ?_, fun _ => hst₁⟩
        · simp [Life.returned, herr]
        · show Linked w₁.state _
          rw [hst₁]
          rfl
      | none =>
        rw [herr] at hlife
        dsimp only
        rw [ends_read_bind, if_neg (by simp [hst₁])]
        have hrunning : rc ≠ .done → rc ≠ .advanceDone →
            Lives d .running { w₁ with errorString := none } := by
          intro hd had
          refine ⟨hlife.trans (by simp [Life.returned, hd, had]), ?_, fun _ => hst₁⟩
          show Linked w₁.state _
          rw [hst₁]
          rfl
        have hfinished : rc = .done ∨ rc = .advanceDone → life d w₁.calls = some .finished :=
          fun hd => hlife.trans (by simp [Life.returned, hd])
        cases rc with
        | ok => exact ⟨_, hrunning (by decide) (by decide)⟩
        | advance =>
          refine (exec_single hadv (hrunning (by decide) (by decide)) (by decide)).bind ?_
          rintro - w₂ ⟨-, hend⟩
          split at hend
          · obtain ⟨hst₂, hen₂, hcalls⟩ := hend
            have hr := hrunning (by decide) (by decide)
            exact ⟨.running, hcalls ▸ hr.life, hst₂ ▸ hr.linked, fun he => hst₂ ▸ hst₁⟩
          · exact ⟨.raw, hend.lives⟩
        | advanceDone =>
          have hq : t.advance.quiet := hlast.resolve_left fun hne => hne hrc.symm
          refine ((exec_quiet hq).imp (fun _ _ h => h) fun _ _ h => h.elim).bind ?_
          rintro - w₂ ⟨-, -, -, hcalls⟩
          exact ⟨.finished, hcalls ▸ hfinished (by simp), rfl, by simp⟩
        | done => exact ⟨.finished, hfinished (by simp), rfl, by simp⟩
        | error | fatal =>
          exact ⟨.running, alive_unusable (hrunning (by decide) (by decide)).life rfl rfl⟩

/-- **`run` keeps the invariant.** -/
theorem run_lives {t : Turn} (h : Alive d w) (ht : w.enabled → t.single) :
    Ends (fun _ w' => Alive d w') (fun _ w' => Alive d w') (run d t) w := by
  unfold run
  rw [ends_read_bind]
  split
  · next hen =>
    have ht := ht hen
    have hparts := ht
    simp only [Turn.single, Bool.and_eq_true] at hparts
    obtain ⟨⟨⟨⟨hready, hcallbacks⟩, -⟩, -⟩, -⟩ := hparts
    obtain ⟨l, hl⟩ := h
    have hst := hl.enabled hen
    have hne : l ≠ .raw := hl.not_raw (by simp [hst]) (by simp [hst])
    refine (exec_single hready hl hne).bind ?_
    rintro - w₁ ⟨-, hend⟩
    have hw₁ : Alive d w₁ := by
      split at hend
      · obtain ⟨hst₁, hen₁, hcalls⟩ := hend
        exact ⟨l, hcalls ▸ hl.life, hst₁ ▸ hl.linked, fun _ => hst₁ ▸ hst⟩
      · exact ⟨.raw, hend.lives⟩
    refine assertEnabled_bind hw₁ fun hrunning _ _ => ?_
    by_cases hmet : t.met
    · rw [if_pos hmet]
      refine (callBacks_lives hcallbacks hrunning (Or.inl (by decide))).bind ?_
      intro _ w₂ hw₂
      refine assertEnabled_bind hw₂ fun hrunning₂ hst₂ hen₂ => ?_
      split
      · next hhas =>
        exact callRun_lives ht (Bool.and_eq_true_iff.mp hhas).1 hrunning₂ hst₂ hen₂
      · exact ⟨_, hrunning₂⟩
    · rw [if_neg hmet]
      exact hw₁
  · exact h

/-- **The destructor** of a worker that may be released. -/
theorem destroy_lives {stop release : Behaviour} (h : Alive d w)
    (hok : LifeOk d w (.destroy stop release)) :
    Ends (fun _ w' => Alive d w') (fun _ w' => Alive d w') (destroy d stop release) w := by
  obtain ⟨l, hl⟩ := h
  obtain ⟨hlive, hs, hr⟩ := hok
  have hne : d.has (.op .release) → l ≠ .raw := by
    rintro hp rfl
    exact hlive hp hl.life
  have hrel : ∀ {w' : Worker} {l' : Life}, Lives d l' w' → (d.has (.op .release) → l' ≠ .raw) →
      Ends (fun _ w' => Alive d w') (fun _ w' => Alive d w')
        (controlOperation d .release true (release.exec d)) w' := fun hw' hne' =>
    (release_lives (fun _ => hr) hw'.life hne').imp (fun _ _ h => ⟨_, h.lives⟩) fun _ _ h => h
  unfold destroy
  rw [ends_read_bind]
  by_cases hen : w.enabled
  · rw [if_pos hen]
    have hst := hl.enabled hen
    have hnr : l ≠ .raw := hl.not_raw (by simp [hst]) (by simp [hst])
    unfold setEnabled
    rw [ends_change_bind]
    refine (stop_lives (fun _ => hs) hl.disable hnr).bind ?_
    rintro - w' ⟨hw', -⟩
    exact hrel hw' (by simp)
  · rw [if_neg hen]
    exact hrel hl hne

/-! ## Runs -/

theorem after_lives {m : M Unit} {status : Status}
    (h : Ends (fun _ w' => Alive d w') (fun _ w' => Alive d w') m w) :
    Alive d (after m status w) := by
  have hstatus : ∀ {w' : Worker} {s : Status}, Alive d w' → Alive d { w' with status := s } :=
    fun ⟨l, hl⟩ => ⟨l, hl.life, hl.linked, hl.enabled⟩
  refine after_of (h.imp (fun _ _ => hstatus) fun e w' hw' => ?_)
  split
  · exact hstatus hw'
  · exact hstatus hw'

theorem alive_step {op : Op} (h : Alive d w) (hok : LifeOk d w op) (hs : step d w op = some w') :
    Alive d w' := by
  unfold step at hs
  obtain ⟨-, hs⟩ := Option.ite_none_right_eq_some.mp hs
  cases op with
  | control op connected b =>
    cases hs
    exact after_lives (controlOp_lives h hok)
  | run t =>
    cases hs
    exact after_lives (run_lives h hok)
  | portError stop release =>
    cases hs
    obtain ⟨hlive, hs, hr⟩ := hok
    obtain ⟨l, hl⟩ := h
    refine after_lives ((portError_lives hs hr hl ?_).imp (fun _ _ h => ⟨_, h.lives⟩)
      fun _ _ h => h)
    rintro rfl
    exact hlive hl.life
  | destroy stop release =>
    cases hs
    exact after_lives (destroy_lives h hok)

end OpenCpi.Rcc
