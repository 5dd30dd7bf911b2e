/-
**What the reads of the Redis map can show.**

A `get` that reaches the server is answered by it, while the worker feeds it message by message and
callers go on setting values.  So a `get` may answer for a moment that has passed; but the moments
never go back, for one key or across keys, whichever commands of the worker fail.  And the worker
catches up: with its commands succeeding it takes two steps for a message and then has nothing left
to do, at which point every value that was still waiting is there.

* `server_eq` — in every state the server holds what the sets that reached it leave there;
* `gets_never_go_back` — **the sets a `get` answers for are those of a growing list**, whatever
  fails;
* `gets_show_earlier_moments` — **with every command succeeding a `get` answers what the native map
  held at an earlier moment**, and later `get`s are for no earlier moments;
* `RedisMemoryMap.work`, `work_step` — each step of the worker leaves one step less to do;
* `worker_catches_up` — **every value still waiting gets to the server**.
-/

import MarketMaker.MemoryMapFailures
import MarketMaker.MemoryMapReads
import Mathlib.Data.Nat.Find

set_option relaxedAutoImplicit false
set_option autoImplicit false

namespace MarketMaker

variable {V : Type}

/-! ### The sets that reached the server -/

theorem landedOf_append {sets sets' : List (String × V)} {outcomes outcomes' : List SetOutcome}
    (hlen : sets.length = outcomes.length) :
    landedOf (sets ++ sets') (outcomes ++ outcomes') =
      landedOf sets outcomes ++ landedOf sets' outcomes' := by
  simp [landedOf, List.zip_append hlen]

/-- Only sets with an outcome count. -/
theorem landedOf_append_of_length {sets rest : List (String × V)} {outcomes : List SetOutcome}
    (hlen : sets.length = outcomes.length) :
    landedOf (sets ++ rest) outcomes = landedOf sets outcomes := by
  have happend : landedOf (sets ++ rest) (outcomes ++ []) =
      landedOf sets outcomes ++ landedOf rest [] := landedOf_append hlen
  rwa [List.append_nil, show landedOf rest [] = [] by simp [landedOf], List.append_nil] at happend

theorem landedOf_sublist {sets : List (String × V)} {outcomes : List SetOutcome}
    (hlen : sets.length = outcomes.length) : (landedOf sets outcomes).Sublist sets := by
  have hsub := (List.filter_sublist (l := sets.zip outcomes)
    (p := fun e => e.2.applied)).map Prod.fst
  rwa [List.map_fst_zip hlen.le] at hsub

variable [SerdeJson V]

/-- The commands answered are those for the first of the sets made. -/
theorem exists_answered {acts : List (MapAction V)} {m : RedisMemoryMap}
    (h : Transition.exec mapStep .new acts = some m) :
    ∃ answered waiting, setsOf acts = answered ++ waiting ∧
      answered.length = (outcomesOf acts).length ∧ waiting.map messageOf = m.pending ∧
        landedIn acts = landedOf answered (outcomesOf acts) ∧
          m.server = serverAfter (landedIn acts) := by
  obtain ⟨answered, waiting, hsets, hlen, hwait, hserver⟩ := map_history h
  have hlanded : landedIn acts = landedOf answered (outcomesOf acts) := by
    rw [landedIn, hsets, landedOf_append_of_length hlen]
  exact ⟨answered, waiting, hsets, hlen, hwait, hlanded, hlanded ▸ hserver⟩

/-- **In every state** the server holds what the sets that reached it leave there. -/
theorem server_eq {acts : List (MapAction V)} {m : RedisMemoryMap}
    (h : Transition.exec mapStep .new acts = some m) : m.server = serverAfter (landedIn acts) := by
  obtain ⟨-, -, -, -, -, -, hserver⟩ := exists_answered h
  exact hserver

/-- What has reached the server is among the sets made. -/
theorem landedIn_sublist {acts : List (MapAction V)} {m : RedisMemoryMap}
    (h : Transition.exec mapStep .new acts = some m) : (landedIn acts).Sublist (setsOf acts) := by
  obtain ⟨answered, waiting, hsets, hlen, -, hlanded, -⟩ := exists_answered h
  rw [hlanded, hsets]
  exact (landedOf_sublist hlen).trans (List.sublist_append_left ..)

/-- What has reached the server stays there first as a run goes on. -/
theorem landedIn_isPrefix {acts later : List (MapAction V)} {m : RedisMemoryMap}
    (h : Transition.exec mapStep .new acts = some m) :
    landedIn acts <+: landedIn (acts ++ later) := by
  obtain ⟨answered, waiting, hsets, hlen, -, hlanded, -⟩ := exists_answered h
  have hmore : landedIn (acts ++ later) = landedOf answered (outcomesOf acts) ++
      landedOf (waiting ++ setsOf later) (outcomesOf later) := by
    rw [landedIn, setsOf, outcomesOf, List.filterMap_append, List.filterMap_append, ← setsOf,
      ← outcomesOf, hsets, List.append_assoc]
    exact landedOf_append hlen
  rw [hmore, hlanded]
  exact List.prefix_append ..

/-- A run has a state at each moment. -/
theorem exists_exec_take {acts : List (MapAction V)} {m : RedisMemoryMap}
    (h : Transition.exec mapStep .new acts = some m) (n : ℕ) :
    ∃ s, Transition.exec mapStep .new (acts.take n) = some s := by
  rw [← List.take_append_drop n acts] at h
  obtain ⟨s, hs, -⟩ := Transition.exec_append_eq_some.1 h
  exact ⟨s, hs⟩

omit [SerdeJson V] in
/-- A later moment of a run continues an earlier one. -/
theorem exists_take_append {A : Type} (acts : List A) {n n' : ℕ} (hle : n ≤ n') :
    ∃ later, acts.take n' = acts.take n ++ later := by
  obtain ⟨later, hlater⟩ := List.take_prefix_take_left (l := acts) hle
  exact ⟨later, hlater.symm⟩

/-- **The sets a `get` answers for are those of a growing list.**  In every run, whatever fails,
there are lists of sets, one for each moment of the run, of which later ones continue earlier ones
and each is among the sets made by then; at each moment a `get` of any key answers what the last set
of the key in the list says. -/
theorem gets_never_go_back {acts : List (MapAction V)} {m : RedisMemoryMap}
    (h : Transition.exec mapStep .new acts = some m) :
    ∃ shown : ℕ → List (String × V), (∀ n n', n ≤ n' → shown n <+: shown n') ∧
      ∀ n s, Transition.exec mapStep .new (acts.take n) = some s →
        (shown n).Sublist (setsOf (acts.take n)) ∧
          ∀ key, s.get V key = some ((LastWrite.last Prod.fst (shown n) key).map Prod.snd) := by
  refine ⟨fun n => landedIn (acts.take n), fun n n' hle => ?_, fun n s hs => ?_⟩
  · obtain ⟨s, hs⟩ := exists_exec_take h n
    obtain ⟨later, hlater⟩ := exists_take_append acts hle
    simp only [hlater]
    exact landedIn_isPrefix hs
  · exact ⟨landedIn_sublist hs, fun key => get_of_serverAfter (server_eq hs) key⟩

/-- A command fails without having been carried out, the next one after it was. -/
private def failingRun : List (MapAction ℕ) :=
  [.connect true, .set "k" 5, .set "k" 6, .recv, .query (.err false), .connect false, .recv,
    .query (.err true), .set "k" 7]

theorem gets_never_go_back_sample :
    ∃ shown : ℕ → List (String × ℕ), (∀ n n', n ≤ n' → shown n <+: shown n') ∧
      ∀ n s, Transition.exec mapStep .new (failingRun.take n) = some s →
        (shown n).Sublist (setsOf (failingRun.take n)) ∧
          ∀ key, s.get ℕ key = some ((LastWrite.last Prod.fst (shown n) key).map Prod.snd) :=
  gets_never_go_back (show Transition.exec mapStep .new failingRun = some _ from rfl)

/-! ### Earlier moments -/

omit [SerdeJson V] in
/-- One action makes one set at most. -/
theorem length_setsOf_take_succ (acts : List (MapAction V)) (n : ℕ) :
    (setsOf (acts.take (n + 1))).length ≤ (setsOf (acts.take n)).length + 1 := by
  rw [List.take_add_one, setsOf, List.filterMap_append, ← setsOf, List.length_append]
  refine Nat.add_le_add_left ((List.length_filterMap_le _ _).trans ?_) _
  cases acts[n]? <;> simp

/-- The last moment at which no more sets had been made than are answered at a given one. -/
def answeredMoment (acts : List (MapAction V)) (n : ℕ) : ℕ :=
  Nat.findGreatest
    (fun j => (setsOf (acts.take j)).length ≤ (outcomesOf (acts.take n)).length) n

omit [SerdeJson V] in
theorem answeredMoment_mono (acts : List (MapAction V)) : Monotone (answeredMoment acts) := by
  intro n n' hle
  refine Nat.findGreatest_mono (fun j hj => hj.trans ?_) hle
  obtain ⟨later, hlater⟩ := exists_take_append acts hle
  rw [hlater, outcomesOf, outcomesOf, List.filterMap_append, List.length_append]
  exact Nat.le_add_right ..

/-- At that moment exactly the sets had been made that are answered. -/
theorem setsOf_answeredMoment {acts : List (MapAction V)} {n : ℕ} {s : RedisMemoryMap}
    (hs : Transition.exec mapStep .new (acts.take n) = some s) :
    setsOf (acts.take (answeredMoment acts n)) =
      (setsOf (acts.take n)).take (outcomesOf (acts.take n)).length := by
  obtain ⟨answered, waiting, hsets, hlen, -⟩ := exists_answered hs
  have hle : answeredMoment acts n ≤ n := Nat.findGreatest_le n
  have hmost : (setsOf (acts.take (answeredMoment acts n))).length ≤
      (outcomesOf (acts.take n)).length :=
    Nat.findGreatest_spec (P := fun j => (setsOf (acts.take j)).length ≤ _) (Nat.zero_le n)
      (by simp [setsOf])
  have hleast : (outcomesOf (acts.take n)).length ≤
      (setsOf (acts.take (answeredMoment acts n))).length := by
    rcases Nat.lt_or_eq_of_le hle with hlt | heq
    · -- at the next moment there is one set too many
      have hnext := Nat.findGreatest_is_greatest (Nat.lt_add_one (answeredMoment acts n)) hlt
      have hone := length_setsOf_take_succ acts (answeredMoment acts n)
      omega
    · rw [heq, hsets, List.length_append, hlen]
      exact Nat.le_add_right ..
  obtain ⟨later, hlater⟩ := exists_take_append acts hle
  have hsplit : setsOf (acts.take n) =
      setsOf (acts.take (answeredMoment acts n)) ++ setsOf later := by
    rw [hlater, setsOf, List.filterMap_append]
    rfl
  rw [hsplit, Nat.le_antisymm hleast hmost, List.take_left']
  rfl

/-- **A `get` answers what the native map held at an earlier moment**: in every run of callers and
worker in which every command succeeds there is for each moment an earlier one, later ones for later
moments, such that a `get` of any key at the moment answers what the native map, on the same calls,
held at the earlier one. -/
theorem gets_show_earlier_moments {acts : List (MapAction V)} (hok : AllSucceed acts) :
    ∃ moment : ℕ → ℕ, Monotone moment ∧ (∀ n, moment n ≤ n) ∧
      ∀ n s, Transition.exec mapStep .new (acts.take n) = some s →
        ∀ key, s.get V key = some ((nativeAfter (acts.take (moment n))).get key) := by
  refine ⟨answeredMoment acts, answeredMoment_mono acts, fun n => Nat.findGreatest_le n,
    fun n s hs key => ?_⟩
  obtain ⟨answered, waiting, hsets, hlen, -, hlanded, hserver⟩ := exists_answered hs
  have hok' : AllSucceed (acts.take n) := fun a ha => hok a (List.mem_of_mem_take ha)
  rw [hok'.landedOf_eq hlen] at hlanded
  rw [get_of_serverAfter hserver, hlanded, nativeAfter_get, setsOf_answeredMoment hs, hsets, ← hlen,
    List.take_left']
  rfl

/-- Two values of one key, the first of which has reached the server. -/
private def laggingRun : List (MapAction ℕ) :=
  [.connect true, .set "k" 5, .set "k" 6, .recv, .query .ok]

theorem gets_show_earlier_moments_sample :
    ∃ moment : ℕ → ℕ, Monotone moment ∧ (∀ n, moment n ≤ n) ∧
      ∀ n s, Transition.exec mapStep .new (laggingRun.take n) = some s →
        ∀ key, s.get ℕ key = some ((nativeAfter (laggingRun.take (moment n))).get key) :=
  gets_show_earlier_moments (by simp [AllSucceed, laggingRun])

/-! ### The worker catches up -/

/-- The steps of the worker that succeed. -/
def MapAction.Works (a : MapAction V) : Prop := a = .connect true ∨ a = .recv ∨ a = .query .ok

/-- The steps the worker has still to take: to connect, and two for each message. -/
def RedisMemoryMap.work (m : RedisMemoryMap) : ℕ :=
  2 * m.tx.length + if m.phase = .receiving then 0 else 1

/-- **Each step of the worker leaves one step less to do.** -/
theorem work_step {m n : RedisMemoryMap} {a : MapAction V} (ha : a.Works)
    (h : mapStep m a = some n) : n.work + 1 = m.work := by
  obtain ⟨tx, phase, connected, server⟩ := m
  rcases ha with rfl | rfl | rfl
  · cases phase <;> simp only [mapStep, Option.some.injEq, reduceCtorEq, if_true] at h <;>
      subst h <;> rfl
  · rcases tx with _ | ⟨w, tx⟩ <;> cases phase <;>
      simp only [mapStep, Option.some.injEq, reduceCtorEq] at h
    subst h
    simp [RedisMemoryMap.work]
    omega
  · cases phase <;> simp only [mapStep, Option.some.injEq, reduceCtorEq] at h
    subst h
    rfl

/-- While there is something to do, the worker can take a step. -/
theorem exists_work {m : RedisMemoryMap} (h : m.work ≠ 0) :
    ∃ (a : MapAction V) (n : RedisMemoryMap), a.Works ∧ mapStep m a = some n := by
  obtain ⟨tx, phase, connected, server⟩ := m
  cases phase with
  | connecting => exact ⟨.connect true, _, Or.inl rfl, rfl⟩
  | reconnecting => exact ⟨.connect true, _, Or.inl rfl, rfl⟩
  | setting key value => exact ⟨.query .ok, _, Or.inr (Or.inr rfl), rfl⟩
  | receiving =>
      cases tx with
      | nil => exact absurd rfl h
      | cons w tx => exact ⟨.recv, _, Or.inr (Or.inl rfl), rfl⟩

/-- With nothing left to do there is nothing pending. -/
theorem pending_of_work_eq_zero {m : RedisMemoryMap} (h : m.work = 0) : m.pending = [] := by
  obtain ⟨tx, phase, connected, server⟩ := m
  obtain ⟨hlength, hphase⟩ := Nat.add_eq_zero_iff.1 h
  have htx : tx = [] :=
    List.length_eq_zero_iff.1 ((Nat.mul_eq_zero.1 hlength).resolve_left two_ne_zero)
  have hreceiving : phase = .receiving := by
    by_contra hne
    exact absurd ((if_neg hne).symm.trans hphase) (by decide)
  rw [htx, hreceiving]
  rfl

/-- Over a run of the worker. -/
theorem work_run {m n : RedisMemoryMap} {steps : List (MapAction V)} (hworks : ∀ a ∈ steps, a.Works)
    (h : Transition.exec mapStep m steps = some n) : n.work + steps.length = m.work := by
  induction steps generalizing m with
  | nil =>
      obtain rfl := Option.some.inj h
      rfl
  | cons a steps ih =>
      obtain ⟨ha, hrest⟩ := List.forall_mem_cons.1 hworks
      rw [Transition.exec_cons, Option.bind_eq_some_iff] at h
      obtain ⟨u, hu, hn⟩ := h
      have hstep := work_step ha hu
      have hrun := ih hrest hn
      rw [List.length_cons]
      omega

/-- The worker can take all of its steps. -/
theorem exists_run_to_end (V : Type) [SerdeJson V] (m : RedisMemoryMap) :
    ∃ (steps : List (MapAction V)) (n : RedisMemoryMap), (∀ a ∈ steps, a.Works) ∧
      Transition.exec mapStep m steps = some n ∧ steps.length = m.work := by
  induction hwork : m.work generalizing m with
  | zero => exact ⟨[], m, by simp, rfl, rfl⟩
  | succ k ih =>
      obtain ⟨a, u, ha, hu⟩ := exists_work (V := V) (m := m) (by omega)
      have hstep := work_step ha hu
      obtain ⟨steps, n, hworks, hn, hlength⟩ := ih u (by omega)
      refine ⟨a :: steps, n, List.forall_mem_cons.2 ⟨ha, hworks⟩, ?_, by simp [hlength]⟩
      rw [Transition.exec_cons, hu]
      exact hn

/-- The sets whose commands have not been answered. -/
def unansweredIn (acts : List (MapAction V)) : List (String × V) :=
  (setsOf acts).drop (outcomesOf acts).length

omit [SerdeJson V] in
/-- The worker makes no sets, and its commands reach the server. -/
theorem works_sets_outcomes {steps : List (MapAction V)} (hworks : ∀ a ∈ steps, a.Works) :
    setsOf steps = [] ∧ ∀ o ∈ outcomesOf steps, o.applied = true := by
  constructor
  · refine List.filterMap_eq_nil_iff.2 fun a ha => ?_
    rcases hworks a ha with rfl | rfl | rfl <;> rfl
  · intro o ho
    obtain ⟨a, ha, hout⟩ := List.mem_filterMap.1 ho
    rcases hworks a ha with rfl | rfl | rfl
    · cases hout
    · cases hout
    · cases hout
      rfl

/-- Once the worker has nothing left to do, all that was waiting has reached the server. -/
theorem landedIn_of_caught_up {acts steps : List (MapAction V)} {m n : RedisMemoryMap}
    (h : Transition.exec mapStep .new acts = some m) (hworks : ∀ a ∈ steps, a.Works)
    (hsteps : Transition.exec mapStep m steps = some n) (hdone : n.work = 0) :
    landedIn (acts ++ steps) = landedIn acts ++ unansweredIn acts := by
  obtain ⟨hnosets, happlied⟩ := works_sets_outcomes hworks
  obtain ⟨answered, waiting, hsets, hlen, -, hlanded, -⟩ := exists_answered h
  obtain ⟨answered', waiting', hsets', hlen', hwait', -, -⟩ :=
    exists_answered (Transition.exec_append_eq_some.2 ⟨m, h, hsteps⟩)
  rw [pending_of_work_eq_zero hdone, List.map_eq_nil_iff] at hwait'
  have hsame : setsOf (acts ++ steps) = answered ++ waiting := by
    rw [setsOf, List.filterMap_append, ← setsOf, ← setsOf, hnosets, List.append_nil, hsets]
  have houtcomes : outcomesOf (acts ++ steps) = outcomesOf acts ++ outcomesOf steps :=
    List.filterMap_append
  -- one outcome of the worker's for each set that was waiting
  have hlength : waiting.length = (outcomesOf steps).length := by
    rw [hwait', List.append_nil] at hsets'
    rw [← hsets', hsame, houtcomes, List.length_append, List.length_append, hlen] at hlen'
    omega
  rw [landedIn, hsame, houtcomes, landedOf_append hlen, landedOf_of_applied hlength happlied,
    ← hlanded, unansweredIn, hsets, ← hlen, List.drop_left']
  rfl

/-- **The worker catches up.**  In every state a run can reach, whatever has failed before, the
worker can take as many succeeding steps as it has work left, and no more; and whichever it takes,
after that many every `get` answers for the sets that had reached the server and those that were
waiting.  If nothing has failed, the `get`s then answer what the native map holds. -/
theorem worker_catches_up {acts : List (MapAction V)} {m : RedisMemoryMap}
    (h : Transition.exec mapStep .new acts = some m) :
    (∃ (steps : List (MapAction V)) (n : RedisMemoryMap), (∀ a ∈ steps, a.Works) ∧
        Transition.exec mapStep m steps = some n ∧ steps.length = m.work) ∧
      ∀ (steps : List (MapAction V)) (n : RedisMemoryMap), (∀ a ∈ steps, a.Works) →
        Transition.exec mapStep m steps = some n → steps.length ≤ m.work ∧
          (steps.length = m.work →
            (∀ key, n.get V key = some ((LastWrite.last Prod.fst
              (landedIn acts ++ unansweredIn acts) key).map Prod.snd)) ∧
            (AllSucceed acts → ∀ key, n.get V key = some ((nativeAfter acts).get key))) := by
  refine ⟨exists_run_to_end V m, fun steps n hworks hsteps => ?_⟩
  have hwork := work_run hworks hsteps
  refine ⟨by omega, fun hall => ?_⟩
  have hget : ∀ key, n.get V key = some ((LastWrite.last Prod.fst
      (landedIn acts ++ unansweredIn acts) key).map Prod.snd) := by
    intro key
    rw [← landedIn_of_caught_up h hworks hsteps (by omega)]
    exact get_of_serverAfter
      (server_eq (Transition.exec_append_eq_some.2 ⟨m, h, hsteps⟩)) key
  refine ⟨hget, fun hok key => ?_⟩
  obtain ⟨answered, waiting, hsets, hlen, -, hlanded, -⟩ := exists_answered h
  have hevery : landedIn acts ++ unansweredIn acts = setsOf acts := by
    rw [hlanded, hok.landedOf_eq hlen, unansweredIn, hsets, ← hlen, List.drop_left']
    rfl
  rw [hget, hevery, nativeAfter_get]

/-- After the two steps for the second value it is read. -/
theorem worker_catches_up_sample :
    ∃ m n, Transition.exec mapStep .new laggingRun = some m ∧
      Transition.exec mapStep m ([.recv, .query .ok] : List (MapAction ℕ)) = some n ∧
        n.get ℕ "k" = some (some 6) := by
  refine ⟨_, _, rfl, rfl, ?_⟩
  have hsucceed : AllSucceed laggingRun := by simp [AllSucceed, laggingRun]
  exact (((worker_catches_up (show Transition.exec mapStep .new laggingRun = some _ from rfl)).2
    [.recv, .query .ok] _ (by simp [MapAction.Works]) rfl).2 rfl).2 hsucceed "k"

end MarketMaker
