import OpenCpi.Sim.Command
import OpenCpi.Properties.Marshal
import Mathlib.Data.List.TakeWhile

/-!
# Commands are executed once and answered with their result, as long as nothing comes in between

The server remembers one command. When another client's command came in between, a datagram that is
sent again is taken for a new one. When the remembered command was put off, or the tag is used
again, the reply of an earlier command is sent. The replies for a failed transfer and for an invalid
size are not put together right.

If none of this happens, every command is executed at most once, and every reply that is sent for it
is its letter with its message behind it.
-/

namespace OpenCpi.Sim

open Infra Value

variable {A : Type}

/-! ## What is asked for -/

/-- The bytes of a right reply. -/
def Outcome.body (o : Outcome) : Text := o.letter :: o.message ++ [0]

def Executed.key (x : Executed A) : A × Nat := (x.client, x.number)

/-- Each command is executed at most once, and each reply carries what came of its command. -/
structure Channel.Sound (s : Channel A) : Prop where
  once : (s.executed.map Executed.key).Nodup
  right : ∀ r ∈ s.replies, ∃ x ∈ s.executed, x.key = (r.client, r.number) ∧ r.body = x.outcome.body

/-- The reply of the command is put together right: the size is valid, or the transfer has not
failed. -/
def Clean (t : Transfer) : Text → Bool
  | 76 :: rest => (loadSize rest).1.isSome
  | 82 :: _ => t.error = [] ∧ (t.size = 0 ∨ t.srvr ∨ t.size = t.count)
  | _ => true

/-- The tag of a command is not that of the last command, if that was one of the same client. -/
def OtherTag (issue : A → Nat → Issue) (s : Channel A) (client : A) (number : Nat) : Prop :=
  ∀ last ∈ s.current, last.1 = client → (issue client last.2.1).tag ≠ (issue client number).tag

/-- The condition for a datagram that arrives: if its command was executed, that is still the last one; if
not, its tag is a new one, and its reply will be put together right. -/
def Arrives (issue : A → Nat → Issue) (s : Channel A) (client : A) (number : Nat) : Prop :=
  ((client, number) ∈ s.executed.map Executed.key → s.current = some (client, number, true)) ∧
    ((client, number) ∉ s.executed.map Executed.key →
      OtherTag issue s client number ∧ Clean s.transfer (issue client number).text = true)

instance [DecidableEq A] (issue : A → Nat → Issue) (s : Channel A) (client : A) (number : Nat) :
    Decidable (OtherTag issue s client number) :=
  inferInstanceAs (Decidable (∀ last ∈ s.current, _ → _))

instance [DecidableEq A] (issue : A → Nat → Issue) (s : Channel A) (client : A) (number : Nat) :
    Decidable (Arrives issue s client number) :=
  inferInstanceAs (Decidable ((_ → _) ∧ (_ → _)))

/-- **The condition** for an event. -/
def StepCond (issue : A → Nat → Issue) (s : Channel A) : Event A → Prop
  | .command client number _ => Arrives issue s client number
  | .accept _ => True
  | .receive _ => True

instance [DecidableEq A] (issue : A → Nat → Issue) (s : Channel A) (e : Event A) :
    Decidable (StepCond issue s e) :=
  match e with
  | .command client number _ => inferInstanceAs (Decidable (Arrives issue s client number))
  | .accept _ => .isTrue trivial
  | .receive _ => .isTrue trivial

/-! ## Replies -/

variable {r r' : Reply} {t t' : Transfer} {text error : Text} {env : Env} {letter : UInt8}
  {outcome : Outcome} {start : Nat} {o : Option UInt8}

theorem zero_not_mem_cString (t : Text) : 0 ∉ cString t := by
  intro h
  have hne := List.mem_takeWhile_imp h
  simp at hne

/-- **A usual reply** is the letter, the message and a NUL. -/
theorem compose_body (hl : letter ≠ 0) (h : r.compose 0 (some letter) error = some r') :
    r'.body = letter :: cString error ++ [0] ∧ r'.tag = r.tag := by
  unfold Reply.compose at h
  split at h
  · cases h
  split at h
  · cases h
  injection h with h
  subst h
  refine ⟨?_, rfl⟩
  have hwrite : writeBytes (writeBytes r.text 0 [letter]) (0 + 1) (cString error ++ [0]) =
      writeBytes r.text 0 ((letter :: cString error) ++ [0]) := by
    have happend : writeBytes (writeBytes r.text 0 [letter]) (0 + [letter].length)
        (cString error ++ [0]) = writeBytes r.text 0 ([letter] ++ (cString error ++ [0])) :=
      writeBytes_append
    exact happend
  have hread := readBytes_writeBytes r.text 0 ((letter :: cString error) ++ [0])
  have hlen : strlen (writeBytes r.text 0 ((letter :: cString error) ++ [0])) 0
      ((cString error).length + 2) = (letter :: cString error).length := by
    refine strlen_eq ?_ ?_ (Nat.lt_succ_self _)
    · rw [List.mem_cons, not_or]
      exact ⟨fun h => hl h.symm, zero_not_mem_cString error⟩
    · rw [List.length_append] at hread
      exact hread
  unfold Reply.body
  dsimp only
  rw [hwrite, hlen]
  have hcount : headerSize + (letter :: cString error).length + 1 - 2 + 2 - headerSize =
      ((letter :: cString error) ++ [0]).length := by
    rw [List.length_append, List.length_singleton]
    unfold headerSize
    omega
  rw [hcount]
  exact hread

/-- What a clean command leads to. -/
inductive Usual : Effect → Prop
  | answered (letter : UInt8) (error : Text) (h : letter ≠ 0) : Usual (answered letter error)
  | putOff : Usual .putOff
  | stop : Usual .stop

theorem usual_finishLoadRun (t : Transfer) (env : Env) : Usual (finishLoadRun t env).1 := by
  unfold finishLoadRun
  split
  · exact .stop
  · split
    · exact .answered _ _ (by decide)
    · exact .answered _ _ (by decide)

theorem usual_loadRun (t : Transfer) (file : Text) (size : Nat) (env : Env) :
    Usual (loadRun t file size env).1 := by
  unfold loadRun
  split
  · exact .answered _ _ (by decide)
  · split
    · exact .stop
    · split
      · exact .answered _ _ (by decide)
      · split
        · exact usual_finishLoadRun t env
        · exact .answered _ _ (by decide)

/-- **A clean command** gets a usual reply, or none. -/
theorem usual_runCommand (env : Env) (h : Clean t text = true) : Usual (runCommand t text env).1 := by
  unfold runCommand
  split
  · next rest =>
    have hsome : (loadSize rest).1.isSome := h
    dsimp only
    split
    · next heq =>
      rw [heq] at hsome
      cases hsome
    · exact usual_loadRun _ _ _ _
  · exact .answered _ _ (by decide)
  · next rest =>
    have hclean : t.error = [] ∧ (t.size = 0 ∨ t.srvr ∨ t.size = t.count) := by
      simpa [Clean] using h
    rw [if_neg (not_not.mpr hclean.1)]
    by_cases hoff : t.size = 0 ∨ t.srvr = true
    · rw [if_pos hoff]
      exact .putOff
    · rw [if_neg hoff]
      have hcount : t.size = t.count := by
        rcases hclean.2 with h | h | h
        · exact absurd (Or.inl h) hoff
        · exact absurd (Or.inr h) hoff
        · exact h
      rw [if_neg (not_not.mpr hcount)]
      exact usual_finishLoadRun t env
  · exact .stop

/-! ## The invariant -/

/-- What the server remembers is the client and the tag of the last command. -/
def Channel.Remembers (issue : A → Nat → Issue) (s : Channel A) : Prop :=
  match s.current with
  | none => s.haveTag = false
  | some (c, n, _) => s.haveTag = true ∧ s.lastClient = c ∧ s.reply.tag = (issue c n).tag

/-- **The invariant.** While the server runs, it remembers the last command, and the reply of that is
there if it was answered. -/
structure Channel.Inv (issue : A → Nat → Issue) (s : Channel A) : Prop extends s.Sound where
  remembers : s.stopped = false → s.Remembers issue
  cached : s.stopped = false → ∀ c n, s.current = some (c, n, true) →
    ∃ x ∈ s.executed, x.key = (c, n) ∧ s.reply.body = x.outcome.body

variable {issue : A → Nat → Issue} {s s' : Channel A} {client : A} {number : Nat}

theorem channel_start (nobody : A) (r : Reply) : (Channel.start nobody r).Inv issue :=
  ⟨⟨List.nodup_nil, nofun⟩, fun _ => rfl, fun _ _ _ => nofun⟩

/-- Only the background changes. -/
theorem Channel.Inv.transfer (h : s.Inv issue) (t : Transfer) :
    Channel.Inv issue { s with transfer := t } :=
  ⟨⟨h.once, h.right⟩, h.remembers, h.cached⟩

/-- The server stops. -/
theorem Channel.Sound.stop (h : s.Sound) (he : s'.executed = s.executed)
    (hr : s'.replies = s.replies) (hs : s'.stopped = true) : s'.Inv issue := by
  have hruns : ¬s'.stopped = false := by simp [hs]
  refine ⟨⟨?_, ?_⟩, fun hc => absurd hc hruns, fun hc => absurd hc hruns⟩
  · rw [he]
    exact h.once
  · rw [he, hr]
    exact h.right

/-- **The remembered command** is taken for one that came again, and no other. -/
theorem Channel.Remembers.known_iff [DecidableEq A] (h : s.Remembers issue) :
    s.known client (issue client number) = true ↔
      ∃ n b, s.current = some (client, n, b) ∧ (issue client n).tag = (issue client number).tag := by
  unfold Channel.Remembers at h
  unfold Channel.known
  cases hc : s.current with
  | none =>
    rw [hc] at h
    rw [h]
    simp
  | some last =>
    obtain ⟨c, n, b⟩ := last
    rw [hc] at h
    obtain ⟨htag, rfl, hreply⟩ := h
    rw [htag, hreply]
    constructor
    · intro hknown
      obtain ⟨heq, rfl⟩ : (issue client number).tag = (issue s.lastClient n).tag ∧
          client = s.lastClient := by simpa using hknown
      exact ⟨n, b, rfl, heq.symm⟩
    · rintro ⟨n', b', hsome, heq⟩
      obtain ⟨rfl, rfl, rfl⟩ : s.lastClient = client ∧ n = n' ∧ b = b' := by simpa using hsome
      simp [heq]

/-- **A reply is sent** that carries what came of the command. -/
theorem Channel.Inv.send (h : s.Inv issue) {x : Executed A} (hx : x ∈ s.executed)
    (hkey : x.key = (client, number)) (hbody : s.reply.body = x.outcome.body) (sends : Bool) :
    (s.send client number sends).Inv issue := by
  unfold Channel.send
  cases sends with
  | false => exact h.toSound.stop rfl rfl rfl
  | true =>
    refine ⟨⟨h.once, ?_⟩, h.remembers, h.cached⟩
    intro r hr
    rcases List.mem_cons.mp hr with rfl | hr
    · exact ⟨x, hx, hkey, hbody⟩
    · exact h.right r hr

/-- **A command is executed** for the first time. -/
theorem Channel.Inv.executed (h : s.Inv issue) (x : Executed A)
    (hx : x.key ∉ s.executed.map Executed.key) (he : s'.executed = x :: s.executed)
    (hr : s'.replies = s.replies) : s'.Sound := by
  constructor
  · rw [he, List.map_cons, List.nodup_cons]
    exact ⟨hx, h.once⟩
  · rw [hr, he]
    intro r hr
    obtain ⟨y, hy, hkey, hbody⟩ := h.right r hr
    exact ⟨y, List.mem_cons_of_mem _ hy, hkey, hbody⟩

theorem channel_execute (h : s.Inv issue) (hnew : (client, number) ∉ s.executed.map Executed.key)
    (hclean : Clean s.transfer (issue client number).text = true) (env : Env) :
    (s.execute client number (issue client number) env).Inv issue := by
  have husual := usual_runCommand env hclean
  unfold Channel.execute
  dsimp only
  rcases hrun : runCommand s.transfer (issue client number).text env with ⟨effect, t⟩
  rw [hrun] at husual
  cases husual with
  | stop => exact h.toSound.stop rfl rfl rfl
  | putOff =>
    refine ⟨⟨h.once, h.right⟩, fun _ => ⟨rfl, rfl, rfl⟩, fun _ c n hcurrent => ?_⟩
    cases hcurrent
  | answered letter error hl =>
    dsimp only
    cases hcompose : Reply.compose { s.reply with tag := (issue client number).tag } 0 (some letter) error with
    | none =>
      let x : Executed A := ⟨client, number, ⟨letter, cString error⟩⟩
      have hsound : Channel.Sound { s with executed := x :: s.executed } :=
        h.executed x hnew rfl rfl
      exact hsound.stop rfl rfl rfl
    | some reply =>
      obtain ⟨hbody, htag⟩ := compose_body hl hcompose
      refine Channel.Inv.send (x := ⟨client, number, ⟨letter, cString error⟩⟩) ?_ List.mem_cons_self
        rfl hbody env.sends
      refine ⟨h.executed ⟨client, number, ⟨letter, cString error⟩⟩ hnew rfl rfl,
        fun _ => ⟨rfl, rfl, htag⟩, ?_⟩
      intro _ c n hcurrent
      cases hcurrent
      exact ⟨_, List.mem_cons_self, rfl, hbody⟩

variable [DecidableEq A]

/-- **One datagram.** -/
theorem channel_doServer (h : s.Inv issue) (hs : s.stopped = false)
    (harrives : Arrives issue s client number) (env : Env) :
    (s.doServer client number (issue client number) env).Inv issue := by
  have hknown := @Channel.Remembers.known_iff _ _ _ client number _ (h.remembers hs)
  unfold Channel.doServer
  split
  · exact h.toSound.stop rfl rfl rfl
  · by_cases hexec : (client, number) ∈ s.executed.map Executed.key
    · -- it is the last command, so that it is recognised
      have hcurrent := harrives.1 hexec
      rw [if_pos (hknown.mpr ⟨number, true, hcurrent, rfl⟩)]
      obtain ⟨x, hx, hkey, hbody⟩ := h.cached hs client number hcurrent
      exact h.send hx hkey hbody env.sends
    · obtain ⟨htag, hclean⟩ := harrives.2 hexec
      rw [if_neg fun hk => ?_]
      · exact channel_execute h hexec hclean env
      · obtain ⟨n, b, hcurrent, heq⟩ := hknown.mp hk
        exact htag _ hcurrent rfl heq

/-- **One event.** -/
theorem channel_step {e : Event A} (h : s.Inv issue) (hcond : StepCond issue s e)
    (hstep : s.step issue e = some s') : s'.Inv issue := by
  cases e with
  | command client number env =>
    unfold Channel.step at hstep
    dsimp only at hstep
    split at hstep
    · cases hstep
    · next hs =>
      cases hstep
      exact channel_doServer h (Bool.eq_false_iff.mpr hs) hcond env
  | accept creat =>
    unfold Channel.step at hstep
    dsimp only at hstep
    split at hstep
    · cases hstep
    · cases hstep
      exact h.transfer _
  | receive r =>
    unfold Channel.step at hstep
    dsimp only at hstep
    split at hstep
    · cases hstep
    · cases hstep
      exact h.transfer _

/-- **Commands are executed at most once and answered with their result**, in every run whose steps
meet the condition. -/
theorem sound_of_stepCond {nobody : A} {r : Reply}
    (h : Reach (Channel.step issue) (StepCond issue) (Channel.start nobody r) s) : s.Sound := by
  have hinv : s.Inv issue := h.invariant (channel_start nobody r) fun s e s' hs hc hstep =>
    channel_step hs hc hstep
  exact hinv.toSound

/-! ## Runs -/

/-- Nothing fails. -/
def allWell : Env := ⟨none, none, true, 5000, true⟩

/-- A buffer that was not written yet. -/
def blank : Reply := ⟨0, 0, fun _ => 0⟩

/-- Client 0 loads an executable of 5 bytes and runs it, with tags that count up; client 1 flushes. -/
def sampleIssue : Nat → Nat → Issue
  | 0, 0 => ⟨1, ascii "L5 a-b.c"⟩
  | 0, n => ⟨UInt8.ofNat (n + 1), ascii "R"⟩
  | _, n => ⟨UInt8.ofNat (n + 1), ascii "F"⟩

/-- The load is sent twice, and run after the transfer. -/
theorem sound_sample : ∃ s : Channel Nat,
    s.executed.length = 2 ∧ s.replies.map Answered.body = [[79, 0], [88, 53, 48, 48, 48, 0],
      [88, 53, 48, 48, 48, 0]] ∧ s.Sound := by
  have hrun : ∃ s ∈ exec (checked (Channel.step sampleIssue) (StepCond sampleIssue))
      (Channel.start 7 blank)
      [.command 0 0 allWell, .command 0 0 allWell, .accept none, .receive (.data 5 none), .receive .eof,
        .command 0 1 allWell],
      s.executed.length = 2 ∧ s.replies.map Answered.body = [[79, 0], [88, 53, 48, 48, 48, 0],
        [88, 53, 48, 48, 48, 0]] := by decide
  obtain ⟨s, hs, hlen, hbody⟩ := hrun
  exact ⟨s, hlen, hbody, sound_of_stepCond (reach_of_exec_checked _ hs)⟩

/-- What came of the load. -/
def loaded : Executed Nat := ⟨0, 0, ⟨letterX, decimal 5000⟩⟩

/-- What came of a run after a transfer of no bytes. -/
def failed : Executed Nat :=
  ⟨0, 1, ⟨letterE, ascii "Executable transfer got 0 bytes, expected 5"⟩⟩

/-- The load of client 0 is sent again after a command of client 1, and is executed twice. A run that
is put off and sent again is answered with the reply of the load. The reply for a transfer that
failed has a byte of the reply before between the letter and the message. -/
theorem unsound_samples :
    (∃ s : Channel Nat, Reach (Channel.step sampleIssue) anyStep (Channel.start 7 blank) s ∧
      s.executed.map Executed.key = [(0, 0), (1, 0), (0, 0)] ∧ ¬s.Sound) ∧
    (∃ s : Channel Nat, Reach (Channel.step sampleIssue) anyStep (Channel.start 7 blank) s ∧
      s.executed = [loaded] ∧ ⟨0, 1, loaded.outcome.body⟩ ∈ s.replies ∧ ¬s.Sound) ∧
    (∃ s : Channel Nat, Reach (Channel.step sampleIssue) anyStep (Channel.start 7 blank) s ∧
      s.executed = [failed, loaded] ∧
      ⟨0, 1, letterE :: 53 :: failed.outcome.message⟩ ∈ s.replies ∧ ¬s.Sound) := by
  refine ⟨?_, ?_, ?_⟩
  · have hrun : ∃ s ∈ exec (Channel.step sampleIssue) (Channel.start 7 blank)
        [.command 0 0 allWell, .command 1 0 allWell, .command 0 0 allWell],
        s.executed.map Executed.key = [(0, 0), (1, 0), (0, 0)] := by decide
    obtain ⟨s, hs, hkeys⟩ := hrun
    refine ⟨s, reach_of_exec _ hs, hkeys, fun hsound => ?_⟩
    have honce := hsound.once
    rw [hkeys] at honce
    exact absurd honce (by decide)
  · have hrun : ∃ s ∈ exec (Channel.step sampleIssue) (Channel.start 7 blank)
        [.command 0 0 allWell, .command 0 1 allWell, .command 0 1 allWell],
        s.executed = [loaded] ∧ ⟨0, 1, loaded.outcome.body⟩ ∈ s.replies := by decide
    obtain ⟨s, hs, hexec, hreply⟩ := hrun
    refine ⟨s, reach_of_exec _ hs, hexec, hreply, fun hsound => ?_⟩
    obtain ⟨x, hx, hkey, -⟩ := hsound.right _ hreply
    rw [hexec, List.mem_singleton] at hx
    rw [hx] at hkey
    exact absurd hkey (by decide)
  · have hrun : ∃ s ∈ exec (Channel.step sampleIssue) (Channel.start 7 blank)
        [.command 0 0 allWell, .accept none, .receive .eof, .command 0 1 allWell],
        s.executed = [failed, loaded] ∧
          ⟨0, 1, letterE :: 53 :: failed.outcome.message⟩ ∈ s.replies := by decide
    obtain ⟨s, hs, hexec, hreply⟩ := hrun
    refine ⟨s, reach_of_exec _ hs, hexec, hreply, fun hsound => ?_⟩
    obtain ⟨x, hx, hkey, hbody⟩ := hsound.right _ hreply
    rw [hexec] at hx
    rcases List.mem_pair.mp hx with rfl | rfl
    · exact absurd hbody (by decide)
    · exact absurd hkey (by decide)

end OpenCpi.Sim
