/-
**Receive loops as tasks.**

A receive loop runs as a task of its own: messages arrive at its feed while it works, it receives
one at a time, and what the body sends goes out value by value, with steps of other tasks in
between.  Here the loop of `MarketMaker/ReceiveLoop.lean` is cut into such steps.  The task keeps
what it has received and what it has sent, so that the state says what happened so far.

A feed that has closed delivers nothing more; the task may still be behind.

* `ReceiveTask`, `ReceiveTask.step` — the task and one step of it;
* `ReceiveTask.step_cases` — what a step can do;
* `ReceiveTask.FollowsLoop` — the task is where the handling of the messages received so far leads;
* `ReceiveTask.FollowsLoop.step` — **a task follows its loop**, step by step;
* `ReceiveTask.FollowsLoop.loop_of_ended` — **a task that has ended has sent what the loop sends**,
  and ended as the loop does;
* `ReceiveTask.Idle.step` — a task that has ended, or has received everything of a closed feed,
  stays silent;
* `ReceiveTask.FollowsLoop.exists_catch_up` — **a task can always catch up** with its feed.
-/

import MarketMaker.ReceiveLoop
import MarketMaker.Transition

set_option relaxedAutoImplicit false
set_option autoImplicit false

/-- Where a task is: at `recv`; sending what is left of what the body sends, after which the body
ends as given, a panic being an absent end; or done. -/
inductive TaskPhase (O σ : Type)
  | receiving (s : σ)
  | sending (left : List O) (flow : Option (LoopFlow σ))
  | ended (exit : Exit)

/-- How an iteration leaves the task. -/
def TaskPhase.after {O σ : Type} : Option (LoopFlow σ) → TaskPhase O σ
  | none => .ended .panicked
  | some .stop => .ended .returned
  | some (.next s) => .receiving s

/-- A task with its feed. -/
structure ReceiveTask (M O σ : Type) where
  /-- The messages delivered and not yet received, oldest first. -/
  feed : List M
  /-- Whether the feed has closed. -/
  closed : Bool
  phase : TaskPhase O σ
  /-- The messages received, oldest first. -/
  received : List M
  /-- The values sent, oldest first. -/
  sent : List O

/-- A step: a message arrives; the feed closes; the task receives, sends a value, or ends the
iteration. -/
inductive TaskAction (M : Type)
  | deliver (m : M)
  | close
  | recv
  | send
  | settle
deriving DecidableEq

namespace ReceiveTask

variable {M O σ : Type}

/-- A task that has just been spawned. -/
def spawn (s : σ) : ReceiveTask M O σ := ⟨[], false, .receiving s, [], []⟩

/-- The iteration of the body on what `recv` answered. -/
def iterate (t : ReceiveTask M O σ) (x : Sends O (LoopFlow σ)) : ReceiveTask M O σ :=
  { t with phase := .sending x.sent x.result }

/-- One step.  A task at `recv` waits while its feed is empty and open. -/
def step (body : σ → Option M → Sends O (LoopFlow σ)) (t : ReceiveTask M O σ) :
    TaskAction M → Option (ReceiveTask M O σ)
  | .deliver m => if t.closed then none else some { t with feed := t.feed ++ [m] }
  | .close => some { t with closed := true }
  | .recv =>
      match t.phase, t.feed with
      | .receiving s, m :: feed =>
          some ({ t with feed := feed, received := t.received ++ [m] }.iterate (body s (some m)))
      | .receiving s, [] => if t.closed then some (t.iterate (body s none)) else none
      | _, _ => none
  | .send =>
      match t.phase with
      | .sending (o :: left) flow =>
          some { t with phase := .sending left flow, sent := t.sent ++ [o] }
      | _ => none
  | .settle =>
      match t.phase with
      | .sending [] flow => some { t with phase := .after flow }
      | _ => none

/-- The value the task sends next, if it is sending. -/
def nextSend (t : ReceiveTask M O σ) : Option O :=
  match t.phase with
  | .sending (o :: _) _ => some o
  | _ => none

/-- The value a step sends, if any. -/
def emits (t : ReceiveTask M O σ) : TaskAction M → Option O
  | .send => t.nextSend
  | _ => none

/-- The task has ended. -/
def isEnded (t : ReceiveTask M O σ) : Bool :=
  match t.phase with
  | .ended _ => true
  | _ => false

theorem exists_of_isEnded {t : ReceiveTask M O σ} (h : t.isEnded = true) :
    ∃ exit, t.phase = .ended exit := by
  rw [isEnded] at h
  split at h
  · exact ⟨_, ‹_›⟩
  · cases h

variable {body : σ → Option M → Sends O (LoopFlow σ)}

/-- **What a step can do.** -/
theorem step_cases {t u : ReceiveTask M O σ} {a : TaskAction M} (h : t.step body a = some u) :
    (∃ m, a = .deliver m ∧ t.closed = false ∧ u = { t with feed := t.feed ++ [m] }) ∨
      (a = .close ∧ u = { t with closed := true }) ∨
      (∃ s m feed, a = .recv ∧ t.phase = .receiving s ∧ t.feed = m :: feed ∧
        u = { t with feed := feed, received := t.received ++ [m] }.iterate (body s (some m))) ∨
      (∃ s, a = .recv ∧ t.phase = .receiving s ∧ t.feed = [] ∧ t.closed = true ∧
        u = t.iterate (body s none)) ∨
      (∃ o left flow, a = .send ∧ t.phase = .sending (o :: left) flow ∧
        u = { t with phase := .sending left flow, sent := t.sent ++ [o] }) ∨
      (∃ flow, a = .settle ∧ t.phase = .sending [] flow ∧ u = { t with phase := .after flow }) := by
  cases a with
  | deliver m =>
      rw [step] at h
      split_ifs at h with hclosed
      exact Or.inl ⟨m, rfl, by simpa using hclosed, (Option.some.inj h).symm⟩
  | close => exact Or.inr (Or.inl ⟨rfl, (Option.some.inj h).symm⟩)
  | recv =>
      refine Or.inr (Or.inr ?_)
      rw [step] at h
      split at h
      · rename_i s m feed hphase hfeed
        exact Or.inl ⟨s, m, feed, rfl, hphase, hfeed, (Option.some.inj h).symm⟩
      · rename_i s hphase hfeed
        split_ifs at h with hclosed
        exact Or.inr (Or.inl ⟨s, rfl, hphase, hfeed, hclosed, (Option.some.inj h).symm⟩)
      · cases h
  | send =>
      refine Or.inr (Or.inr (Or.inr (Or.inr (Or.inl ?_))))
      rw [step] at h
      split at h
      · rename_i o left flow hphase
        exact ⟨o, left, flow, rfl, hphase, (Option.some.inj h).symm⟩
      · cases h
  | settle =>
      refine Or.inr (Or.inr (Or.inr (Or.inr (Or.inr ?_))))
      rw [step] at h
      split at h
      · rename_i flow hphase
        exact ⟨flow, rfl, hphase, (Option.some.inj h).symm⟩
      · cases h

/-- A step adds the value it sends to those sent. -/
theorem sent_of_step {t u : ReceiveTask M O σ} {a : TaskAction M} (h : t.step body a = some u) :
    u.sent = t.sent ++ (t.emits a).toList := by
  rcases step_cases h with ⟨m, rfl, -, rfl⟩ | ⟨rfl, rfl⟩ | ⟨s, m, feed, rfl, -, -, rfl⟩ |
    ⟨s, rfl, -, -, -, rfl⟩ | ⟨o, left, flow, rfl, hphase, rfl⟩ | ⟨flow, rfl, -, rfl⟩
  · simp [emits]
  · simp [emits]
  · simp [emits, iterate]
  · simp [emits, iterate]
  · simp [emits, nextSend, hphase]
  · simp [emits]

/-! ### A task follows its loop -/

/-- The feed has closed, and everything it delivered has been received. -/
def Drained (t : ReceiveTask M O σ) : Prop := t.closed = true ∧ t.feed = []

/-- The task is where the handling of the messages received so far leads: what it has sent, and is
about to send, is what they make the handler send; and it ends by a panic if one of them makes the
handler panic, and by returning only on a closed feed. -/
def FollowsLoop (body : σ → Option M → Sends O (LoopFlow σ)) (onMessage : σ → M → Sends O σ)
    (s₀ : σ) (t : ReceiveTask M O σ) : Prop :=
  let x := ReceiveLoop.onMessages onMessage s₀ t.received
  match t.phase with
  | .receiving s => x = ⟨t.sent, some s⟩
  | .sending left flow => x.sent = t.sent ++ left ∧
      (flow = x.result.map LoopFlow.next ∨
        t.Drained ∧ ∃ s, x.result = some s ∧ body s none = pure .stop ∧ flow = some .stop)
  | .ended .panicked => x = ⟨t.sent, none⟩
  | .ended .returned => t.Drained ∧ ∃ s, x = ⟨t.sent, some s⟩ ∧ body s none = pure .stop
  | .ended .running => False

/-- On a closed feed the body sends nothing: it leaves the loop, or goes round it again. -/
def QuietWhenClosed (body : σ → Option M → Sends O (LoopFlow σ)) : Prop :=
  ∀ s, body s none = pure .stop ∨ body s none = pure (.next s)

variable {onMessage : σ → M → Sends O σ} {s₀ : σ}

theorem followsLoop_spawn : (spawn s₀ : ReceiveTask M O σ).FollowsLoop body onMessage s₀ := rfl

theorem onMessages_concat (s : σ) (msgs : List M) (m : M) :
    ReceiveLoop.onMessages onMessage s (msgs ++ [m]) =
      ReceiveLoop.onMessages onMessage s msgs >>= fun t => onMessage t m := by
  simp [ReceiveLoop.onMessages]

/-- Only the phase, what was received and sent, and whether the task is drained count. -/
theorem FollowsLoop.congr {t u : ReceiveTask M O σ} (h : t.FollowsLoop body onMessage s₀)
    (hphase : u.phase = t.phase) (hreceived : u.received = t.received) (hsent : u.sent = t.sent)
    (hdrained : t.Drained → u.Drained) : u.FollowsLoop body onMessage s₀ := by
  rcases t with ⟨feed, closed, s | ⟨left, flow⟩ | (_ | _ | _), received, sent⟩ <;>
    simp only [FollowsLoop, hphase, hreceived, hsent] at h ⊢
  · exact h
  · exact ⟨h.1, h.2.imp id fun hd => ⟨hdrained hd.1, hd.2⟩⟩
  · exact ⟨hdrained h.1, h.2⟩
  · exact h

/-- **A task follows its loop**: no step leads away from it. -/
theorem FollowsLoop.step (hbody : ∀ s m, body s (some m) = LoopFlow.next <$> onMessage s m)
    (hquiet : QuietWhenClosed body) {t u : ReceiveTask M O σ} {a : TaskAction M}
    (ht : t.FollowsLoop body onMessage s₀) (h : t.step body a = some u) :
    u.FollowsLoop body onMessage s₀ := by
  rcases step_cases h with ⟨m, rfl, hopen, rfl⟩ | ⟨rfl, rfl⟩ | ⟨s, m, feed, rfl, hphase, -, rfl⟩ |
    ⟨s, rfl, hphase, hfeed, hclosed, rfl⟩ | ⟨o, left, flow, rfl, hphase, rfl⟩ |
    ⟨flow, rfl, hphase, rfl⟩
  · -- a message can only arrive while the feed is open, so the task is not drained
    have hnot : ¬ t.Drained := fun hd => Bool.false_ne_true (hopen.symm.trans hd.1)
    exact ht.congr rfl rfl rfl fun hd => absurd hd hnot
  · exact ht.congr rfl rfl rfl fun hd => ⟨rfl, hd.2⟩
  · simp only [FollowsLoop, hphase] at ht
    refine ⟨?_, Or.inl ?_⟩ <;>
      rw [iterate, onMessages_concat, ht, Sends.bind_of_result rfl, hbody]
    · cases hm : (onMessage s m).result with
      | none => simp [Sends.bind_of_panic hm, map_eq_pure_bind]
      | some s' => simp [Sends.bind_of_result hm, map_eq_pure_bind, Sends.pure_def]
    · cases hm : (onMessage s m).result with
      | none => simp [Sends.bind_of_panic hm, map_eq_pure_bind]
      | some s' => simp [Sends.bind_of_result hm, map_eq_pure_bind, Sends.pure_def]
  · simp only [FollowsLoop, hphase] at ht
    rcases hquiet s with hstop | hnext
    · refine ⟨?_, Or.inr ⟨⟨hclosed, hfeed⟩, s, ?_, hstop, ?_⟩⟩ <;>
        simp [iterate, ht, hstop, Sends.pure_def]
    · refine ⟨?_, Or.inl ?_⟩ <;> simp [iterate, ht, hnext, Sends.pure_def]
  · simp only [FollowsLoop, hphase] at ht
    exact ⟨by rw [ht.1]; simp, ht.2⟩
  · simp only [FollowsLoop, hphase, List.append_nil] at ht
    obtain ⟨hsent, hflow | ⟨hdrained, s, hs, hstop, rfl⟩⟩ := ht
    · cases hresult : (ReceiveLoop.onMessages onMessage s₀ t.received).result with
      | none =>
          rw [hresult] at hflow
          subst hflow
          exact Sends.ext hsent hresult
      | some s =>
          rw [hresult] at hflow
          subst hflow
          exact Sends.ext hsent hresult
    · exact ⟨hdrained, s, Sends.ext hsent hs, hstop⟩

/-- What a task has sent is a first part of what the messages received make the handler send. -/
theorem FollowsLoop.sent_isPrefix {t : ReceiveTask M O σ} (h : t.FollowsLoop body onMessage s₀) :
    t.sent <+: (ReceiveLoop.onMessages onMessage s₀ t.received).sent := by
  rcases t with ⟨feed, closed, s | ⟨left, flow⟩ | (_ | _ | _), received, sent⟩ <;>
    simp only [FollowsLoop] at h
  · exact h ▸ List.prefix_rfl
  · exact h.1 ▸ List.prefix_append ..
  · obtain ⟨-, s, hs, -⟩ := h
    exact hs ▸ List.prefix_rfl
  · exact h ▸ List.prefix_rfl

/-- **A task that has ended has done what the loop does**: run on the messages received, the loop
sends the values sent and ends in the same way. -/
theorem FollowsLoop.loop_of_ended
    (hbody : ∀ s m, body s (some m) = LoopFlow.next <$> onMessage s m) {t : ReceiveTask M O σ}
    (h : t.FollowsLoop body onMessage s₀) {exit : Exit} (hended : t.phase = .ended exit) :
    ReceiveLoop.loop body (t.received.length + 1) s₀ t.received = (t.sent, exit) := by
  rw [ReceiveLoop.loop_messages hbody]
  cases exit with
  | panicked =>
      simp only [FollowsLoop, hended] at h
      rw [h]
  | returned =>
      simp only [FollowsLoop, hended] at h
      obtain ⟨-, s, hs, hstop⟩ := h
      simp [hs, ReceiveLoop.loop, hstop, Sends.pure_def]
  | running => simp only [FollowsLoop, hended] at h

/-- A task that has returned has received everything of a closed feed. -/
theorem FollowsLoop.drained_of_returned {t : ReceiveTask M O σ}
    (h : t.FollowsLoop body onMessage s₀) (hended : t.phase = .ended .returned) : t.Drained := by
  simp only [FollowsLoop, hended] at h
  exact h.1

/-! ### A task with nothing more to do -/

/-- The task has ended, or it has received everything of a closed feed and has nothing to send. -/
def Idle (t : ReceiveTask M O σ) : Prop :=
  (∃ exit, t.phase = .ended exit) ∨ (t.Drained ∧ ∀ o left flow, t.phase ≠ .sending (o :: left) flow)

/-- A task that has ended only watches its feed. -/
theorem step_of_ended {t u : ReceiveTask M O σ} {a : TaskAction M} {exit : Exit}
    (ht : t.phase = .ended exit) (h : t.step body a = some u) :
    u.phase = .ended exit ∧ t.emits a = none := by
  rcases step_cases h with ⟨m, rfl, -, rfl⟩ | ⟨rfl, rfl⟩ | ⟨s, m, feed, rfl, hphase, -, rfl⟩ |
    ⟨s, rfl, hphase, -, -, rfl⟩ | ⟨o, left, flow, rfl, hphase, rfl⟩ | ⟨flow, rfl, hphase, rfl⟩
  · exact ⟨ht, rfl⟩
  · exact ⟨ht, rfl⟩
  all_goals
    rw [ht] at hphase
    cases hphase

/-- A task that has received everything of a closed feed has nothing more to send. -/
theorem Drained.step (hquiet : QuietWhenClosed body) {t u : ReceiveTask M O σ} {a : TaskAction M}
    (ht : t.Drained) (hleft : ∀ o left flow, t.phase ≠ .sending (o :: left) flow)
    (h : t.step body a = some u) :
    (u.Drained ∧ ∀ o left flow, u.phase ≠ .sending (o :: left) flow) ∧ t.emits a = none := by
  obtain ⟨hclosed, hfeed⟩ := ht
  rcases step_cases h with ⟨m, rfl, hopen, rfl⟩ | ⟨rfl, rfl⟩ |
    ⟨s, m, feed, rfl, -, hsome, rfl⟩ | ⟨s, rfl, -, -, -, rfl⟩ | ⟨o, left, flow, rfl, hphase, rfl⟩ |
    ⟨flow, rfl, -, rfl⟩
  · exact absurd (hopen.symm.trans hclosed) Bool.false_ne_true
  · exact ⟨⟨⟨rfl, hfeed⟩, hleft⟩, rfl⟩
  · rw [hfeed] at hsome
    cases hsome
  · refine ⟨⟨⟨hclosed, hfeed⟩, fun o left flow => ?_⟩, rfl⟩
    rcases hquiet s with hstop | hnext
    · simp [iterate, hstop, Sends.pure_def]
    · simp [iterate, hnext, Sends.pure_def]
  · exact absurd hphase (hleft o left flow)
  · refine ⟨⟨⟨hclosed, hfeed⟩, fun o left flow' => ?_⟩, rfl⟩
    rcases flow with _ | (_ | _) <;> simp [TaskPhase.after]

/-- **An idle task stays idle**, and sends nothing. -/
theorem Idle.step (hquiet : QuietWhenClosed body) {t u : ReceiveTask M O σ} {a : TaskAction M}
    (ht : t.Idle) (h : t.step body a = some u) : u.Idle ∧ t.emits a = none := by
  rcases ht with ⟨exit, hended⟩ | ⟨hdrained, hleft⟩
  · exact (step_of_ended hended h).imp_left fun hu => Or.inl ⟨exit, hu⟩
  · exact (hdrained.step hquiet hleft h).imp_left Or.inr

/-! ### A task can catch up -/

/-- The steps of the task itself, as opposed to those of its feed. -/
def Works (a : TaskAction M) : Prop := a = .recv ∨ a = .send ∨ a = .settle

/-- What is left to send can be sent. -/
theorem exists_send_all (body : σ → Option M → Sends O (LoopFlow σ)) {t : ReceiveTask M O σ}
    {left : List O} {flow : Option (LoopFlow σ)} (hphase : t.phase = .sending left flow) :
    ∃ acts, (∀ a ∈ acts, Works a) ∧ Transition.exec (ReceiveTask.step body) t acts =
      some { t with phase := .after flow, sent := t.sent ++ left } := by
  induction left generalizing t with
  | nil =>
      refine ⟨[.settle], by simp [Works], ?_⟩
      simp [Transition.exec_cons, ReceiveTask.step, hphase]
  | cons o left ih =>
      obtain ⟨acts, hacts, hrun⟩ :=
        ih (t := { t with phase := .sending left flow, sent := t.sent ++ [o] }) rfl
      refine ⟨.send :: acts, ?_, ?_⟩
      · rintro a (_ | ⟨_, ha⟩)
        · exact Or.inr (Or.inl rfl)
        · exact hacts a ha
      · simpa [Transition.exec_cons, ReceiveTask.step, hphase] using hrun

/-- The iteration under way can be brought to its end. -/
theorem exists_settled (body : σ → Option M → Sends O (LoopFlow σ)) (t : ReceiveTask M O σ) :
    ∃ acts u, (∀ a ∈ acts, Works a) ∧ Transition.exec (ReceiveTask.step body) t acts = some u ∧
      u.feed = t.feed ∧ u.received = t.received ∧ ∀ left flow, u.phase ≠ .sending left flow := by
  cases hphase : t.phase with
  | sending left flow =>
      obtain ⟨acts, hacts, hrun⟩ := exists_send_all body hphase
      refine ⟨acts, _, hacts, hrun, rfl, rfl, fun left' flow' => ?_⟩
      rcases flow with _ | (_ | _) <;> simp [TaskPhase.after]
  | receiving s => exact ⟨[], t, by simp, rfl, rfl, rfl, by simp [hphase]⟩
  | ended exit => exact ⟨[], t, by simp, rfl, rfl, rfl, by simp [hphase]⟩

/-- Between iterations everything has been sent that the messages received make the handler send. -/
theorem FollowsLoop.sent_eq {t : ReceiveTask M O σ} (h : t.FollowsLoop body onMessage s₀)
    (hsettled : ∀ left flow, t.phase ≠ .sending left flow) :
    t.sent = (ReceiveLoop.onMessages onMessage s₀ t.received).sent := by
  rcases t with ⟨feed, closed, s | ⟨left, flow⟩ | (_ | _ | _), received, sent⟩ <;>
    simp only [FollowsLoop] at h
  · rw [h]
  · exact absurd rfl (hsettled left flow)
  · obtain ⟨-, s, hs, -⟩ := h
    rw [hs]
  · rw [h]

/-- Between iterations a task with messages to receive is at `recv`. -/
theorem FollowsLoop.receiving_of_feed {t : ReceiveTask M O σ}
    (h : t.FollowsLoop body onMessage s₀) (hsettled : ∀ left flow, t.phase ≠ .sending left flow)
    (hok : (ReceiveLoop.onMessages onMessage s₀ t.received).result.isSome)
    (hfeed : t.feed ≠ []) : ∃ s, t.phase = .receiving s := by
  rcases t with ⟨feed, closed, s | ⟨left, flow⟩ | (_ | _ | _), received, sent⟩ <;>
    simp only [FollowsLoop] at h
  · exact ⟨s, rfl⟩
  · exact absurd rfl (hsettled left flow)
  · exact absurd h.1.2 hfeed
  · simp [h] at hok

/-- **A task can always catch up**: by steps of its own it comes to have received all messages that
have arrived, and sent what they make the handler send, if they are handled without a panic. -/
theorem FollowsLoop.exists_catch_up
    (hbody : ∀ s m, body s (some m) = LoopFlow.next <$> onMessage s m)
    (hquiet : QuietWhenClosed body) {t : ReceiveTask M O σ} (h : t.FollowsLoop body onMessage s₀)
    (hok : (ReceiveLoop.onMessages onMessage s₀ (t.received ++ t.feed)).result.isSome) :
    ∃ acts u, (∀ a ∈ acts, Works a) ∧ Transition.exec (ReceiveTask.step body) t acts = some u ∧
      u.feed = [] ∧ u.received = t.received ++ t.feed ∧
      u.sent = (ReceiveLoop.onMessages onMessage s₀ u.received).sent := by
  generalize hfeed : t.feed = feed at hok
  induction feed generalizing t with
  | nil =>
      obtain ⟨acts, u, hacts, hrun, hufeed, hreceived, hsettled⟩ := exists_settled body t
      refine ⟨acts, u, hacts, hrun, by rw [hufeed, hfeed], by simp [hreceived], ?_⟩
      exact FollowsLoop.sent_eq (Transition.exec_invariant
        (fun _ _ _ ht hstep => FollowsLoop.step hbody hquiet ht hstep) h hrun) hsettled
  | cons m feed ih =>
      obtain ⟨acts, u, hacts, hrun, hufeed, hreceived, hsettled⟩ := exists_settled body t
      have hu : u.FollowsLoop body onMessage s₀ := Transition.exec_invariant
        (fun _ _ _ ht hstep => FollowsLoop.step hbody hquiet ht hstep) h hrun
      obtain ⟨s, hs⟩ := hu.receiving_of_feed hsettled
        (ReceiveLoop.isSome_of_append (hreceived ▸ hok)) (by simp [hufeed, hfeed])
      -- receive the first message, and go on from there
      have hrecv : u.step body .recv = some ({ u with
          feed := feed, received := u.received ++ [m] }.iterate (body s (some m))) := by
        simp [ReceiveTask.step, hs, hufeed, hfeed]
      obtain ⟨acts', v, hacts', hrun', hvfeed, hvreceived, hvsent⟩ :=
        ih (hu.step hbody hquiet hrecv) rfl (by simpa [iterate, hreceived] using hok)
      refine ⟨acts ++ .recv :: acts', v, ?_, ?_, hvfeed, ?_, hvsent⟩
      · intro a ha
        rcases List.mem_append.1 ha with ha | ha
        · exact hacts a ha
        · rcases List.mem_cons.1 ha with rfl | ha
          · exact Or.inl rfl
          · exact hacts' a ha
      · refine Transition.exec_append_eq_some.2 ⟨u, hrun, ?_⟩
        rw [Transition.exec_cons, hrecv]
        exact hrun'
      · simpa [iterate, hreceived] using hvreceived

end ReceiveTask
