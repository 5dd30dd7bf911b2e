/-
**Several Redis maps on one server.**

Each map has a queue and a worker of its own; the server is shared, and outlives the processes.  A
process that ends takes its queue with it and does nothing more; one that starts again makes a new
map.  Nothing but the server connects the maps, so that all of them read one log: the sets that
reached the server, in the order in which they did.

* `SharedMaps`, `sharedStep` — the maps made on a server;
* `ownActs` — the actions of one map;
* `step_elsewhere` — **a map works as it would alone**, whatever the server holds;
* `sharedLog` — the sets that reached the server, with the maps that made them;
* `SharedHistory` — what holds of the history of a run and the state it leads to;
* `maps_read_one_log` — **all maps read one growing log**, to which each adds its sets in order;
* `maps_do_not_interfere` — **a key only one map sets is read there as if that map were alone**.
-/

import MarketMaker.MemoryMapProgress

set_option relaxedAutoImplicit false
set_option autoImplicit false

namespace MarketMaker

variable {V : Type}

/-- A map without the server: its queue and its worker. -/
structure MapClient where
  tx : List (String × String)
  phase : WorkerPhase
  connected : Bool
deriving DecidableEq

namespace MapClient

def new : MapClient := ⟨[], .connecting, false⟩

/-- The client with a server. -/
def on (c : MapClient) (server : RedisServer) : RedisMemoryMap :=
  ⟨c.tx, c.phase, c.connected, server⟩

/-- The client of a map. -/
def of (m : RedisMemoryMap) : MapClient := ⟨m.tx, m.phase, m.connected⟩

@[simp] theorem of_on (c : MapClient) (server : RedisServer) : of (c.on server) = c := rfl

@[simp] theorem on_of (m : RedisMemoryMap) : (of m).on m.server = m := rfl

end MapClient

/-- The maps made on a server, oldest first. -/
structure SharedMaps where
  clients : List MapClient
  server : RedisServer

/-- A map is made, or something happens to the `i`-th one. -/
inductive SharedAction (V : Type)
  | new
  | act (i : ℕ) (a : MapAction V)
deriving DecidableEq

/-- Nothing is stored, and no map has been made. -/
def SharedMaps.start : SharedMaps := ⟨[], .fresh⟩

variable [SerdeJson V]

/-- One action. -/
def sharedStep (s : SharedMaps) : SharedAction V → Option SharedMaps
  | .new => some { s with clients := s.clients ++ [.new] }
  | .act i a =>
      match s.clients[i]? with
      | none => none
      | some c => (mapStep (c.on s.server) a).map fun m => ⟨s.clients.set i (.of m), m.server⟩

/-- **What an action can do.** -/
theorem sharedStep_cases {s t : SharedMaps} {a : SharedAction V} (h : sharedStep s a = some t) :
    (a = .new ∧ t = { s with clients := s.clients ++ [.new] }) ∨
      ∃ i b c m, a = .act i b ∧ s.clients[i]? = some c ∧ mapStep (c.on s.server) b = some m ∧
        t = ⟨s.clients.set i (.of m), m.server⟩ := by
  cases a with
  | new => exact Or.inl ⟨rfl, (Option.some.inj h).symm⟩
  | act i b =>
      rw [sharedStep] at h
      split at h
      · cases h
      · rename_i c hc
        obtain ⟨m, hm, rfl⟩ := Option.map_eq_some_iff.1 h
        exact Or.inr ⟨i, b, c, m, rfl, hc, hm, rfl⟩

/-! ### One map -/

omit [SerdeJson V] in
/-- The next set to reach the server, if the action makes one do so: the first one whose command has
not been answered. -/
def landsNext (acts : List (MapAction V)) : MapAction V → Option (String × V)
  | .query outcome =>
      if outcome.applied then (setsOf acts)[(outcomesOf acts).length]? else none
  | _ => none

/-- A client can take the same steps on every server. -/
theorem mapStep_on {c : MapClient} {server : RedisServer} {a : MapAction V} {n : RedisMemoryMap}
    (h : mapStep (c.on server) a = some n) (server' : RedisServer) :
    ∃ n', mapStep (c.on server') a = some n' ∧ MapClient.of n' = .of n := by
  obtain ⟨tx, phase, connected⟩ := c
  cases a with
  | set key value =>
      cases h
      exact ⟨_, rfl, rfl⟩
  | get key =>
      cases h
      exact ⟨_, rfl, rfl⟩
  | connect succeeds =>
      cases phase <;> cases succeeds <;> cases h <;> exact ⟨_, rfl, rfl⟩
  | recv =>
      rcases tx with _ | ⟨w, tx⟩ <;> cases phase <;> cases h
      exact ⟨_, rfl, rfl⟩
  | query outcome =>
      cases phase <;> cases outcome <;> cases h <;> exact ⟨_, rfl, rfl⟩

/-- **A map works as it would alone**, whatever the server holds: its client takes the same step,
and a set that reaches the server is the next one of the map. -/
theorem step_elsewhere {acts : List (MapAction V)} {m : RedisMemoryMap}
    (h : Transition.exec mapStep .new acts = some m) {server : RedisServer} {a : MapAction V}
    {n : RedisMemoryMap} (hstep : mapStep ((MapClient.of m).on server) a = some n) :
    (∃ m', Transition.exec mapStep .new (acts ++ [a]) = some m' ∧ MapClient.of m' = .of n) ∧
      landedIn (acts ++ [a]) = landedIn acts ++ (landsNext acts a).toList ∧
        n.server = (landsNext acts a).elim server fun w =>
          server.set w.1 (SerdeJson.toString w.2) := by
  obtain ⟨answered, waiting, hsets, hlen, hwait, hlanded, -⟩ := exists_answered h
  refine ⟨?_, ?_⟩
  · obtain ⟨m', hm', hclient⟩ := mapStep_on hstep m.server
    exact ⟨m', Transition.exec_concat_eq_some.2 ⟨m, h, hm'⟩, hclient⟩
  rw [landedIn, setsOf_concat, outcomesOf_concat]
  rcases mapStep_cases hstep with ⟨key, value, rfl, rfl⟩ |
    ⟨outcome, key, value, rfl, hphase, -, hserver⟩ | ⟨hset, hout, -, hserver⟩
  · -- one more set waits
    refine ⟨?_, rfl⟩
    show landedOf (setsOf acts ++ [(key, value)]) (outcomesOf acts ++ []) = landedIn acts ++ []
    rw [List.append_nil, List.append_nil, hsets, List.append_assoc,
      landedOf_append_of_length hlen, hlanded]
  · -- the first set that waits has its answer
    have hpending : m.pending = (key, value) :: m.tx := by
      rw [RedisMemoryMap.pending, show m.phase = .setting key value from hphase]
    rw [hpending] at hwait
    obtain ⟨w, rest, rfl, hw, -⟩ := List.map_eq_cons_iff.1 hwait
    obtain ⟨rfl, rfl⟩ := Prod.mk.inj hw
    have hnext : (setsOf acts)[(outcomesOf acts).length]? = some w := by
      rw [hsets, ← hlen, List.getElem?_append_right le_rfl, Nat.sub_self, List.getElem?_cons_zero]
    have hland : landedOf (setsOf acts ++ []) (outcomesOf acts ++ [outcome]) =
        landedIn acts ++ if outcome.applied then [w] else [] := by
      rw [List.append_nil, hsets, List.append_cons, landedOf_append_of_length (by simp [hlen]),
        landedOf_concat hlen, hlanded]
    rw [landsNext, hnext, hserver]
    refine ⟨hland.trans ?_, ?_⟩ <;> cases outcome.applied <;> rfl
  · have hnone : landsNext acts a = none := by
      cases a with
      | query outcome => cases hout
      | _ => rfl
    rw [hset, hout, hnone]
    simp only [Option.toList_none, List.append_nil]
    exact ⟨rfl, hserver⟩

/-! ### All maps -/

section Histories

omit [SerdeJson V]

/-- What the action is to the `i`-th map. -/
def SharedAction.own (i : ℕ) : SharedAction V → Option (MapAction V)
  | .new => none
  | .act j a => if j = i then some a else none

/-- The actions of the `i`-th map. -/
def ownActs (i : ℕ) (acts : List (SharedAction V)) : List (MapAction V) :=
  acts.filterMap (SharedAction.own i)

theorem ownActs_concat (i : ℕ) (acts : List (SharedAction V)) (a : SharedAction V) :
    ownActs i (acts ++ [a]) = ownActs i acts ++ (a.own i).toList := by
  rw [ownActs, List.filterMap_append]
  cases h : a.own i <;> simp [ownActs, h]

/-- The set that the action makes reach the server, if any, with the map that made it. -/
def landsBy (before : List (SharedAction V)) : SharedAction V → Option (ℕ × String × V)
  | .new => none
  | .act i a => (landsNext (ownActs i before) a).map (Prod.mk i)

/-- The sets that reached the server, in the order in which they did. -/
def sharedLog (acts : List (SharedAction V)) : List (ℕ × String × V) :=
  Transition.recorded landsBy [] acts

theorem sharedLog_concat (acts : List (SharedAction V)) (a : SharedAction V) :
    sharedLog (acts ++ [a]) = sharedLog acts ++ (landsBy acts a).toList :=
  Transition.recorded_concat landsBy acts a

/-- The log only grows. -/
theorem sharedLog_isPrefix (acts later : List (SharedAction V)) :
    sharedLog acts <+: sharedLog (acts ++ later) := by
  rw [sharedLog, sharedLog, Transition.recorded_append]
  exact List.prefix_append ..

end Histories

/-- What one more set does to the server. -/
theorem serverAfter_concat (landed : List (String × V)) (w? : Option (String × V)) :
    serverAfter (landed ++ w?.toList) =
      w?.elim (serverAfter landed) fun w =>
        (serverAfter landed).set w.1 (SerdeJson.toString w.2) := by
  cases w? with
  | none => rw [Option.toList_none, List.append_nil, Option.elim_none]
  | some w =>
      rw [serverAfter, Option.toList_some, LastWrite.apply_concat]
      rfl

/-- What holds of the actions taken so far and the maps: each map is where its own actions lead,
what it has landed is in the log, and the log makes the server. -/
structure SharedHistory (acts : List (SharedAction V)) (s : SharedMaps) : Prop where
  own : ∀ i c, s.clients[i]? = some c →
    ∃ m, Transition.exec mapStep .new (ownActs i acts) = some m ∧ MapClient.of m = c
  unmade : ∀ i, s.clients.length ≤ i → ownActs i acts = []
  landed : ∀ i,
    ((sharedLog acts).filter fun e => e.1 = i).map Prod.snd = landedIn (ownActs i acts)
  server : s.server = serverAfter ((sharedLog acts).map Prod.snd)

/-- A map is made. -/
theorem SharedHistory.new {acts : List (SharedAction V)} {s : SharedMaps}
    (h : SharedHistory acts s) :
    SharedHistory (acts ++ [.new]) { s with clients := s.clients ++ [.new] } := by
  have hown : ∀ i, ownActs i (acts ++ [.new]) = ownActs i acts := by
    simp [ownActs_concat, SharedAction.own]
  have hlog : sharedLog (acts ++ [.new]) = sharedLog acts := by
    simp [sharedLog_concat, landsBy]
  refine ⟨fun i c hc => ?_, fun i hi => ?_, fun i => ?_, ?_⟩
  · rw [hown]
    rcases Nat.lt_trichotomy i s.clients.length with hlt | rfl | hgt
    · exact h.own i c (by rwa [List.getElem?_append_left hlt] at hc)
    · -- nothing has happened to the new map
      obtain rfl : MapClient.new = c := by simpa using hc
      rw [h.unmade _ le_rfl]
      exact ⟨.new, rfl, rfl⟩
    · simp [List.getElem?_append_right hgt.le, Nat.sub_ne_zero_of_lt hgt] at hc
  · rw [hown]
    exact h.unmade i (by simp at hi; omega)
  · rw [hown, hlog]
    exact h.landed i
  · rw [hlog]
    exact h.server

/-- Something happens to a map. -/
theorem SharedHistory.act {acts : List (SharedAction V)} {s : SharedMaps}
    (h : SharedHistory acts s) {i : ℕ} {c : MapClient} (hc : s.clients[i]? = some c)
    {b : MapAction V} {n : RedisMemoryMap} (hstep : mapStep (c.on s.server) b = some n) :
    SharedHistory (acts ++ [.act i b]) ⟨s.clients.set i (.of n), n.server⟩ := by
  obtain ⟨m, hm, rfl⟩ := h.own i c hc
  obtain ⟨hrun, hlanded, hserver⟩ := step_elsewhere hm hstep
  have hother : ∀ j, j ≠ i → ownActs j (acts ++ [.act i b]) = ownActs j acts := by
    intro j hne
    simp [ownActs_concat, SharedAction.own, hne.symm]
  have hself : ownActs i (acts ++ [.act i b]) = ownActs i acts ++ [b] := by
    simp [ownActs_concat, SharedAction.own]
  have hlt : i < s.clients.length := (List.getElem?_eq_some_iff.1 hc).1
  refine ⟨fun j d hd => ?_, fun j hj => ?_, fun j => ?_, ?_⟩
  · by_cases hj : j = i
    · subst hj
      rw [List.getElem?_set_self hlt, Option.some.injEq] at hd
      rw [hself, ← hd]
      exact hrun
    · rw [List.getElem?_set_ne (Ne.symm hj)] at hd
      rw [hother j hj]
      exact h.own j d hd
  · rw [List.length_set] at hj
    rw [hother j (by omega)]
    exact h.unmade j hj
  · rw [sharedLog_concat, List.filter_append, List.map_append, h.landed, landsBy]
    by_cases hj : j = i
    · subst hj
      rw [hself, hlanded]
      cases landsNext (ownActs j acts) b <;> simp
    · rw [hother j hj]
      cases landsNext (ownActs i acts) b <;> simp [Ne.symm hj]
  · have hlog : (sharedLog (acts ++ [.act i b])).map Prod.snd =
        (sharedLog acts).map Prod.snd ++ (landsNext (ownActs i acts) b).toList := by
      rw [sharedLog_concat, List.map_append, landsBy]
      cases landsNext (ownActs i acts) b <;> rfl
    rw [hlog, serverAfter_concat, ← h.server]
    exact hserver

/-- **What a run leaves in the maps and on the server.** -/
theorem shared_history {acts : List (SharedAction V)} {s : SharedMaps}
    (h : Transition.exec sharedStep .start acts = some s) : SharedHistory acts s := by
  refine Transition.exec_history (I := fun acts s => SharedHistory acts s) ?_ ?_ h
  · exact ⟨by simp [SharedMaps.start], fun i _ => rfl, fun i => rfl, rfl⟩
  · intro acts s a t hs hstep
    rcases sharedStep_cases hstep with ⟨rfl, rfl⟩ | ⟨i, b, c, n, rfl, hc, hn, rfl⟩
    · exact hs.new
    · exact hs.act hc hn

omit [SerdeJson V] in
/-- Who made the sets does not matter to which is the last one. -/
theorem last_map_snd (log : List (ℕ × String × V)) (key : String) :
    LastWrite.last Prod.fst (log.map Prod.snd) key =
      (LastWrite.last (fun e => e.2.1) log key).map Prod.snd :=
  LastWrite.last_map _ (fun _ => rfl) log key

/-- **All maps read one growing log.**  In every run of any number of maps on a server, with any
failures and with maps made at any time, there is a log for each moment, of which later ones
continue earlier ones; the sets of each map in it are those of its sets whose commands were carried
out, in order; and at each moment a `get` of any key, from whichever map, answers what the last set
of the key in the log says. -/
theorem maps_read_one_log (acts : List (SharedAction V)) :
    ∃ shown : ℕ → List (ℕ × String × V), (∀ n n', n ≤ n' → shown n <+: shown n') ∧
      ∀ n s, Transition.exec sharedStep .start (acts.take n) = some s →
        (∀ i, ((shown n).filter fun e => e.1 = i).map Prod.snd =
          landedIn (ownActs i (acts.take n))) ∧
        ∀ c ∈ s.clients, ∀ key, (c.on s.server).get V key =
          some ((LastWrite.last (fun e => e.2.1) (shown n) key).map fun e => e.2.2) := by
  refine ⟨fun n => sharedLog (acts.take n), fun n n' hle => ?_, fun n s hs => ?_⟩
  · obtain ⟨later, hlater⟩ := exists_take_append acts hle
    simp only [hlater]
    exact sharedLog_isPrefix _ _
  · have hhistory := shared_history hs
    refine ⟨hhistory.landed, fun c _ key => ?_⟩
    have hserver : (c.on s.server).server = serverAfter ((sharedLog (acts.take n)).map Prod.snd) :=
      hhistory.server
    rw [get_of_serverAfter hserver, last_map_snd, Option.map_map]
    rfl

/-- A set in the log is a set its map made. -/
theorem SharedHistory.set_mem {acts : List (SharedAction V)} {s : SharedMaps}
    (h : SharedHistory acts s) {e : ℕ × String × V} (he : e ∈ sharedLog acts) :
    .act e.1 (.set e.2.1 e.2.2) ∈ acts := by
  have hmem : e.2 ∈ landedIn (ownActs e.1 acts) := by
    rw [← h.landed]
    exact List.mem_map_of_mem (List.mem_filter.2 ⟨he, by simp⟩)
  have hset : e.2 ∈ setsOf (ownActs e.1 acts) := by
    cases hc : s.clients[e.1]? with
    | none =>
        rw [h.unmade e.1 (List.getElem?_eq_none_iff.1 hc)] at hmem
        cases hmem
    | some c =>
        obtain ⟨m, hm, -⟩ := h.own e.1 c hc
        exact (landedIn_sublist hm).subset hmem
  obtain ⟨a, ha, hasSet⟩ := List.mem_filterMap.1 hset
  obtain ⟨b, hb, hown⟩ := List.mem_filterMap.1 ha
  cases a with
  | set key value =>
      cases b with
      | new => cases hown
      | act j b =>
          obtain ⟨rfl, hact⟩ := Option.ite_none_right_eq_some.1 hown
          obtain rfl := Option.some.inj hact
          rwa [← Option.some.inj hasSet]
  | _ => cases hasSet

/-- **A key only one map sets is read there as if that map were alone**: the map is where its own
actions lead, and for each key that no other map of the run sets, a `get` answers what it answers
after these actions alone. -/
theorem maps_do_not_interfere {acts : List (SharedAction V)} {s : SharedMaps}
    (h : Transition.exec sharedStep .start acts = some s) {i : ℕ} {c : MapClient}
    (hc : s.clients[i]? = some c) :
    ∃ m, Transition.exec mapStep .new (ownActs i acts) = some m ∧ MapClient.of m = c ∧
      ∀ key, (∀ j v, .act j (.set key v) ∈ acts → j = i) →
        (c.on s.server).get V key = m.get V key := by
  have hhistory := shared_history h
  obtain ⟨m, hm, hclient⟩ := hhistory.own i c hc
  refine ⟨m, hm, hclient, fun key hkey => ?_⟩
  have hserver : (c.on s.server).server = serverAfter ((sharedLog acts).map Prod.snd) :=
    hhistory.server
  rw [get_of_serverAfter hserver, get_of_serverAfter (server_eq hm), ← hhistory.landed,
    last_map_snd, last_map_snd, LastWrite.last_filter]
  intro e he heq
  have hset := hhistory.set_mem he
  rw [heq] at hset
  simpa using hkey _ _ hset

/-- Two maps at work, the second of which loses the answer to its command. -/
private def twoMaps : List (SharedAction ℕ) :=
  [.new, .act 0 (.connect true), .act 0 (.set "a" 1), .new, .act 1 (.set "b" 2), .act 0 .recv,
    .act 1 (.connect true), .act 1 .recv, .act 0 (.query .ok), .act 1 (.query (.err true)),
    .act 0 (.set "a" 3)]

theorem maps_do_not_interfere_sample :
    ∃ s c m, Transition.exec sharedStep .start twoMaps = some s ∧ s.clients[0]? = some c ∧
      Transition.exec mapStep .new (ownActs 0 twoMaps) = some m ∧
        (c.on s.server).get ℕ "a" = m.get ℕ "a" := by
  have hkey : ∀ j v, .act j (.set "a" v) ∈ twoMaps → j = 0 := by
    intro j v hmem
    simp [twoMaps] at hmem
    omega
  obtain ⟨m, hm, -, hget⟩ := maps_do_not_interfere
    (show Transition.exec sharedStep .start twoMaps = some _ from rfl) (i := 0) rfl
  exact ⟨_, _, m, rfl, rfl, hm, hget "a" hkey⟩

end MarketMaker
