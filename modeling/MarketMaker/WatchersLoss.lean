/-
**When the watchers of a shared channel lose messages.**

A message is lost as soon as a call for another symbol is bound to receive it.  Calls and messages
both stand in line, and the first call takes messages until one has its symbol; so as long as the
two lines agree in their symbols, place by place, each call takes exactly one message, its own.  At
the first place where they do not, the message is received by a call that passes it over.

* `NothingLost` — the messages returned for each symbol are the first ones sent for it, and every
  message sent can still be returned;
* `Aligned` — the calls and the messages in line agree in their symbols, place by place;
* `trade_of_another_symbol_is_lost` — two symbols, one trade, and the wrong call first in line;
* `Aligned.exists_drain` — aligned messages can all be returned;
* `Doomed`, `Doomed.not_returned` — a message at the first place that does not agree is never
  returned;
* `nothing_lost_iff_aligned` — **in every run, nothing is lost in any state if and only if every
  state is aligned**;
* `aligned_of_one_symbol` — with a single symbol every state is.
-/

import MarketMaker.Watchers

set_option relaxedAutoImplicit false
set_option autoImplicit false

namespace MarketMaker

variable {M : Type} [HasSymbol M]

/-- **Nothing is lost**: for every symbol, what the calls for it returned is a first part of what
was sent for it; and every message sent has been returned to a call for its symbol, or is in some
continuation of the run. -/
def NothingLost (acts : List (WatchAction M)) (s : WatchState M) : Prop :=
  (∀ symbol, s.returnedFor symbol <+:
      (sentIn acts).filter fun m => HasSymbol.symbol m = symbol) ∧
    ∀ n m, (sentIn acts)[n]? = some m →
      ∃ acts' t c, Transition.exec watchStep s acts' = some t ∧
        c.symbol = HasSymbol.symbol m ∧ (c, m, n) ∈ t.returned

/-- The calls and the messages in line agree in their symbols. -/
def Aligned (s : WatchState M) : Prop :=
  ∀ e ∈ s.line.zip s.queue, HasSymbol.symbol e.2.1 = e.1.symbol

/-! ### Aligned messages can be returned -/

/-- Some call can come to hold the receiver, with the lines still aligned: the first of those that
wait, or else a new call for the symbol of the first message. -/
theorem Aligned.exists_holder {s : WatchState M} (h : Aligned s) {e : M × ℕ}
    {queue : List (M × ℕ)} (hqueue : s.queue = e :: queue) :
    ∃ acts t c, (∀ a ∈ acts, a.message = none) ∧ Transition.exec watchStep s acts = some t ∧
      Aligned t ∧ t.holder = some c ∧ t.queue = s.queue ∧ t.returned = s.returned := by
  obtain ⟨sent, _, calls, waiting, holder, returned⟩ := s
  subst hqueue
  rcases holder with _ | c
  · rcases waiting with _ | ⟨c, waiting⟩
    · refine ⟨[.call (HasSymbol.symbol e.1), .lock], _, _, by simp [WatchAction.message], rfl, ?_,
        rfl, rfl, rfl⟩
      intro e' he'
      obtain rfl : e' = (⟨calls, HasSymbol.symbol e.1⟩, e) := by
        simpa [WatchState.line] using he'
      rfl
    · exact ⟨[.lock], _, c, by simp [WatchAction.message], rfl, h, rfl, rfl, rfl⟩
  · exact ⟨[], _, c, by simp, rfl, h, rfl, rfl, rfl⟩

/-- The message at the front of an aligned channel can be returned next. -/
theorem Aligned.exists_take {s : WatchState M} (h : Aligned s) {e : M × ℕ} {queue : List (M × ℕ)}
    (hqueue : s.queue = e :: queue) :
    ∃ acts t c, (∀ a ∈ acts, a.message = none) ∧ Transition.exec watchStep s acts = some t ∧
      Aligned t ∧ t.queue = queue ∧ t.returned = s.returned ++ [(c, e)] := by
  obtain ⟨acts, u, c, hnosend, hu, hal, hholder, huqueue, hret⟩ := h.exists_holder hqueue
  rw [hqueue] at huqueue
  have hc : HasSymbol.symbol e.1 = c.symbol :=
    hal (c, e) (by simp [WatchState.line, hholder, huqueue])
  refine ⟨acts ++ [.recv], ⟨u.sent, queue, u.calls, u.waiting, none, s.returned ++ [(c, e)]⟩, c,
    ?_, Transition.exec_concat_eq_some.2 ⟨u, hu, ?_⟩, ?_, rfl, rfl⟩
  · intro a ha
    rcases List.mem_append.1 ha with ha | ha
    · exact hnosend a ha
    · rw [List.mem_singleton.1 ha]
      rfl
  · simp [watchStep, hholder, huqueue, watchTurn_of_eq hc, hret]
  · intro e' he'
    refine hal e' ?_
    rw [WatchState.line, hholder, huqueue]
    exact List.mem_cons_of_mem _ he'

/-- **Aligned messages can all be returned**, in order, without another being sent. -/
theorem Aligned.exists_empty {s : WatchState M} (h : Aligned s) :
    ∃ acts t, (∀ a ∈ acts, a.message = none) ∧ Transition.exec watchStep s acts = some t ∧
      t.queue = [] ∧ s.returned <+: t.returned ∧
      t.returned.map Prod.snd = s.returned.map Prod.snd ++ s.queue := by
  generalize hqueue : s.queue = queue
  induction queue generalizing s with
  | nil => exact ⟨[], s, by simp, rfl, hqueue, List.prefix_rfl, by simp⟩
  | cons e queue ih =>
      obtain ⟨acts, u, c, hnosend, hu, hal, huqueue, hret⟩ := h.exists_take hqueue
      obtain ⟨acts', t, hnosend', ht, hempty, hpre, hall⟩ := ih hal huqueue
      refine ⟨acts ++ acts', t, ?_, Transition.exec_append_eq_some.2 ⟨u, hu, ht⟩, hempty, ?_, ?_⟩
      · exact fun a ha => (List.mem_append.1 ha).elim (hnosend a) (hnosend' a)
      · exact (hret ▸ List.prefix_append ..).trans hpre
      · rw [hall, hret]
        simp

/-- **Aligned messages can all be returned.** -/
theorem Aligned.exists_drain {s : WatchState M} (h : Aligned s) :
    ∃ acts t, Transition.exec watchStep s acts = some t ∧ s.returned <+: t.returned ∧
      ∀ e ∈ s.queue, ∃ c, (c, e) ∈ t.returned := by
  obtain ⟨acts, t, -, ht, -, hpre, hall⟩ := h.exists_empty
  refine ⟨acts, t, ht, hpre, fun e he => ?_⟩
  have hmem : e ∈ t.returned.map Prod.snd := by
    rw [hall]
    exact List.mem_append_right _ he
  obtain ⟨⟨c, e'⟩, hc, rfl⟩ := List.mem_map.1 hmem
  exact ⟨c, hc⟩

/-! ### Aligned runs pass over nothing -/

/-- Every state of the run is aligned. -/
def AlwaysAligned (acts : List (WatchAction M)) : Prop :=
  ∀ before later, acts = before ++ later →
    ∀ s, Transition.exec watchStep .start before = some s → Aligned s

/-- A receive from an aligned channel returns the message. -/
theorem Aligned.not_passed {s : WatchState M} (h : Aligned s) {c : WatchCall} {e : M × ℕ}
    {queue : List (M × ℕ)} (hholder : s.holder = some c) (hqueue : s.queue = e :: queue) :
    HasSymbol.symbol e.1 = c.symbol :=
  h (c, e) (by simp [WatchState.line, hholder, hqueue])

/-- In an aligned run every message sent has been returned, or is in the channel. -/
theorem AlwaysAligned.conserved {acts : List (WatchAction M)} (h : AlwaysAligned acts)
    {s : WatchState M} (hrun : Transition.exec watchStep .start acts = some s) :
    s.returned.map Prod.snd ++ s.queue = (sentIn acts).zipIdx := by
  induction acts using List.reverseRecOn generalizing s with
  | nil =>
      obtain rfl := Option.some.inj hrun
      rfl
  | append_singleton acts a ih =>
      obtain ⟨u, hu, hstep⟩ := Transition.exec_concat_eq_some.1 hrun
      have hkept := ih (fun before later hsplit =>
        h before (later ++ [a]) (by rw [hsplit, List.append_assoc])) hu
      rw [sentIn_concat]
      rcases watchStep_cases hstep with ⟨m, rfl, rfl⟩ | ⟨symbol, rfl, rfl⟩ |
        ⟨c, waiting, rfl, -, -, rfl⟩ | ⟨c, e, queue, rfl, hholder, hqueue, hturn⟩
      · show u.returned.map Prod.snd ++ (u.queue ++ [(m, u.sent)]) = (sentIn acts ++ [m]).zipIdx
        rw [zipIdx_concat, ← List.append_assoc, hkept, (channel_history hu).count]
      · simpa [WatchAction.message] using hkept
      · simpa [WatchAction.message] using hkept
      · have hal : Aligned u := h acts [.recv] rfl u hu
        rcases hturn with ⟨-, rfl⟩ | ⟨hne, -⟩
        · rw [hqueue] at hkept
          simpa [WatchAction.message] using hkept
        · exact absurd (hal.not_passed hholder hqueue) hne

/-- In an aligned run nothing is lost. -/
theorem AlwaysAligned.nothingLost {acts : List (WatchAction M)} (h : AlwaysAligned acts)
    {s : WatchState M} (hrun : Transition.exec watchStep .start acts = some s) :
    NothingLost acts s := by
  have hkept := h.conserved hrun
  have hhist := channel_history hrun
  constructor
  · intro symbol
    have hsent : sentIn acts = (s.returned.map fun e => e.2.1) ++ s.queue.map Prod.fst := by
      have := congrArg (List.map Prod.fst) hkept
      rw [List.map_append, List.map_map, List.zipIdx_map_fst] at this
      exact this.symm
    rw [hhist.returnedFor_eq, hsent, List.filter_append]
    exact List.prefix_append ..
  · intro n m hm
    have hmem : (m, n) ∈ s.returned.map Prod.snd ++ s.queue := by
      rw [hkept]
      exact List.mk_mem_zipIdx_iff_getElem?.2 hm
    obtain ⟨acts', t, ht, hpre, hall⟩ := (h acts [] (by simp) s hrun).exists_drain
    obtain ⟨c, hc⟩ : ∃ c, (c, m, n) ∈ t.returned := by
      rcases List.mem_append.1 hmem with hold | hqueued
      · obtain ⟨⟨c, e⟩, he, rfl⟩ := List.mem_map.1 hold
        exact ⟨c, hpre.subset he⟩
      · exact hall (m, n) hqueued
    have hcont := channel_history (Transition.exec_append_eq_some.2 ⟨s, hrun, ht⟩)
    exact ⟨acts', t, c, ht, (hcont.matched _ hc).symm, hc⟩

/-! ### A message out of line is never returned -/

/-- The message of number `n` stands at the first place where the lines do not agree. -/
def Doomed (n : ℕ) (s : WatchState M) : Prop :=
  ∃ calls call later msgs m rest, s.line = calls ++ call :: later ∧
    s.queue = msgs ++ (m, n) :: rest ∧ calls.length = msgs.length ∧
    (∀ e ∈ calls.zip msgs, HasSymbol.symbol e.2.1 = e.1.symbol) ∧
    HasSymbol.symbol m ≠ call.symbol

/-- The message of number `n` has been received and was not returned. -/
def PassedOver (n : ℕ) (s : WatchState M) : Prop :=
  n < s.sent ∧ (∀ e ∈ s.queue, e.2 ≠ n) ∧ ∀ e ∈ s.returned, e.2.2 ≠ n

/-- Lines that do not agree everywhere have a first place where they do not. -/
theorem exists_doomed {s : WatchState M} (h : ¬ Aligned s) : ∃ n, Doomed n s := by
  have hfirst : ∀ (line : List WatchCall) (queue : List (M × ℕ)),
      ¬ (∀ e ∈ line.zip queue, HasSymbol.symbol e.2.1 = e.1.symbol) →
      ∃ n calls call later msgs m rest, line = calls ++ call :: later ∧
        queue = msgs ++ (m, n) :: rest ∧ calls.length = msgs.length ∧
        (∀ e ∈ calls.zip msgs, HasSymbol.symbol e.2.1 = e.1.symbol) ∧
        HasSymbol.symbol m ≠ call.symbol := by
    intro line
    induction line with
    | nil => intro queue hne; simp at hne
    | cons call line ih =>
        rintro (_ | ⟨⟨m, n⟩, queue⟩) hne
        · simp at hne
        · by_cases hhead : HasSymbol.symbol m = call.symbol
          · obtain ⟨k, calls, call', later, msgs, m', rest, hl, hq, hlen, hall, hm'⟩ :=
              ih queue fun hrest => hne fun e he => by
                rcases List.mem_cons.1 he with rfl | he
                · exact hhead
                · exact hrest e he
            refine ⟨k, call :: calls, call', later, (m, n) :: msgs, m', rest, by rw [hl]; rfl,
              by rw [hq]; rfl, by simp [hlen], ?_, hm'⟩
            intro e he
            rcases List.mem_cons.1 he with rfl | he
            · exact hhead
            · exact hall e he
          · exact ⟨n, [], call, line, [], m, queue, rfl, rfl, rfl, by simp, hhead⟩
  exact hfirst s.line s.queue h

/-- **A receive brings a doomed message one place forward, or passes it over.** -/
theorem Doomed.recv {sent : List M} {s t : WatchState M} {n : ℕ} (hist : ChannelHistory sent s)
    (h : Doomed n s) {c : WatchCall} {e : M × ℕ} {queue : List (M × ℕ)}
    (hholder : s.holder = some c) (hqueue : s.queue = e :: queue)
    (hturn : (HasSymbol.symbol e.1 = c.symbol ∧
        t = { s with queue := queue, holder := none, returned := s.returned ++ [(c, e)] }) ∨
      (HasSymbol.symbol e.1 ≠ c.symbol ∧ t = { s with queue := queue })) :
    Doomed n t ∨ PassedOver n t := by
  have hcline : s.line = c :: s.waiting := by simp [WatchState.line, hholder]
  obtain ⟨calls, call, later, msgs, m, rest, hline, hq, hlen, hall, hne⟩ := h
  rw [hcline] at hline
  rcases calls with _ | ⟨c', calls⟩
  · -- the call that holds the receiver is the one that passes the message over
    obtain rfl := List.length_eq_zero_iff.1 hlen.symm
    obtain ⟨rfl, -⟩ := List.cons.inj hline
    have hfront := hq
    rw [hqueue] at hfront
    obtain ⟨rfl, rfl⟩ := List.cons.inj hfront
    rcases hturn with ⟨heq, -⟩ | ⟨-, rfl⟩
    · exact absurd heq hne
    · obtain ⟨hlt, -⟩ := List.getElem?_eq_some_iff.1
        (hist.sent_of_queued (hqueue ▸ List.mem_cons_self))
      obtain ⟨-, htail, hdisj⟩ := List.nodup_append.1 hist.numbers
      rw [hqueue, List.map_cons] at htail hdisj
      refine Or.inr ⟨hist.count ▸ hlt, fun e he heq => ?_, fun e he heq => ?_⟩
      · exact (List.nodup_cons.1 htail).1 (List.mem_map.2 ⟨e, he, heq⟩)
      · exact hdisj _ (List.mem_map_of_mem he) _ List.mem_cons_self heq
  · -- the calls before it take their messages
    rcases msgs with _ | ⟨e', msgs⟩
    · simp at hlen
    obtain ⟨rfl, hwaiting⟩ := List.cons.inj hline
    rw [hqueue] at hq
    obtain ⟨rfl, hrest⟩ := List.cons.inj hq
    have hhead := hall (c, e) List.mem_cons_self
    rcases hturn with ⟨-, rfl⟩ | ⟨hnot, -⟩
    · exact Or.inl ⟨calls, call, later, msgs, m, rest, hwaiting, hrest, Nat.succ.inj hlen,
        fun e'' he'' => hall e'' (List.mem_cons_of_mem _ he''), hne⟩
    · exact absurd hhead hnot

/-- What an action makes of a message that is doomed or has been passed over. -/
theorem lost_step {sent : List M} {s t : WatchState M} {a : WatchAction M} {n : ℕ}
    (hist : ChannelHistory sent s) (h : Doomed n s ∨ PassedOver n s)
    (hstep : watchStep s a = some t) : Doomed n t ∨ PassedOver n t := by
  rcases watchStep_cases hstep with ⟨m', rfl, rfl⟩ | ⟨symbol, rfl, rfl⟩ |
    ⟨c, waiting, rfl, hholder, hwaiting, rfl⟩ | ⟨c, e, queue, rfl, hholder, hqueue, hturn⟩
  · -- a message sent goes behind the others
    rcases h with ⟨calls, call, later, msgs, m, rest, hline, hq, hlen, hall, hne⟩ | ⟨hlt, hq, hret⟩
    · exact Or.inl ⟨calls, call, later, msgs, m, rest ++ [(m', s.sent)], hline, by simp [hq], hlen,
        hall, hne⟩
    · refine Or.inr ⟨Nat.lt_succ_of_lt hlt, fun e he => ?_, hret⟩
      rcases List.mem_append.1 he with he | he
      · exact hq e he
      · rw [List.mem_singleton] at he
        exact he ▸ hlt.ne'
  · -- a call goes behind the others
    rcases h with ⟨calls, call, later, msgs, m, rest, hline, hq, hlen, hall, hne⟩ | hpassed
    · refine Or.inl ⟨calls, call, later ++ [⟨s.calls, symbol⟩], msgs, m, rest, ?_, hq, hlen, hall,
        hne⟩
      simp only [WatchState.line] at hline ⊢
      rw [← List.append_assoc, hline]
      simp
    · exact Or.inr hpassed
  · -- the line is the same whether its first call waits or holds the receiver
    have hline : WatchState.line { s with holder := some c, waiting := waiting } = s.line := by
      simp [WatchState.line, hholder, hwaiting]
    rcases h with ⟨calls, call, later, msgs, m, rest, hl, hq, hlen, hall, hne⟩ | hpassed
    · exact Or.inl ⟨calls, call, later, msgs, m, rest, hline.trans hl, hq, hlen, hall, hne⟩
    · exact Or.inr hpassed
  · rcases h with hdoomed | ⟨hlt, hq, hret⟩
    · exact hdoomed.recv hist hholder hqueue hturn
    · rw [hqueue] at hq
      obtain ⟨hhead, htail⟩ := List.forall_mem_cons.1 hq
      rcases hturn with ⟨-, rfl⟩ | ⟨-, rfl⟩
      · refine Or.inr ⟨hlt, htail, fun e' he' => ?_⟩
        rcases List.mem_append.1 he' with he' | he'
        · exact hret e' he'
        · rw [List.mem_singleton] at he'
          exact he' ▸ hhead
      · exact Or.inr ⟨hlt, htail, hret⟩

/-- **A doomed message is never returned**, however the run goes on. -/
theorem Doomed.not_returned {sent : List M} {s t : WatchState M} {n : ℕ} (h : Doomed n s)
    (hist : ChannelHistory sent s) {acts : List (WatchAction M)}
    (hrun : Transition.exec watchStep s acts = some t) : ∀ e ∈ t.returned, e.2.2 ≠ n := by
  obtain ⟨⟨sent', hist'⟩, hlost⟩ := Transition.exec_invariant
    (I := fun s => (∃ sent, ChannelHistory sent s) ∧ (Doomed n s ∨ PassedOver n s))
    (fun s a t ⟨⟨sent, hs⟩, hl⟩ hstep => ⟨⟨_, hs.step hstep⟩, lost_step hs hl hstep⟩)
    ⟨⟨sent, hist⟩, Or.inl h⟩ hrun
  rcases hlost with ⟨calls, call, later, msgs, m, rest, -, hq, -⟩ | ⟨-, -, hret⟩
  · have hmem : n ∈ t.queue.map Prod.snd := by simp [hq]
    obtain ⟨-, -, hdisj⟩ := List.nodup_append.1 hist'.numbers
    exact fun e he => hdisj _ (List.mem_map_of_mem he) _ hmem
  · exact hret

/-- Where nothing is lost the lines agree. -/
theorem NothingLost.aligned {acts : List (WatchAction M)} {s : WatchState M}
    (hrun : Transition.exec watchStep .start acts = some s) (h : NothingLost acts s) :
    Aligned s := by
  by_contra hnot
  obtain ⟨n, hdoomed⟩ := exists_doomed hnot
  have hist := channel_history hrun
  obtain ⟨calls, call, later, msgs, m, rest, -, hq, -⟩ := id hdoomed
  have hsent := hist.sent_of_queued (show (m, n) ∈ s.queue by simp [hq])
  obtain ⟨acts', t, c, ht, -, hret⟩ := h.2 n m hsent
  exact hdoomed.not_returned hist ht (c, m, n) hret rfl

/-! ### Whole runs -/

/-- A trade of one symbol, sent while a call for another is first in line and one for its own symbol
is second. -/
private def ethTrade : List (WatchAction (CcxtTrade ℚ)) :=
  [.call "BTC-USD", .call "ETH-USD", .lock,
    .send ⟨"1", 0, ⟨0⟩, "ETH-USD", none, some .buy, 3000, 1⟩]

/-- **A trade of another symbol is lost.** -/
theorem trade_of_another_symbol_is_lost :
    ∃ s, Transition.exec watchStep .start ethTrade = some s ∧ ¬ NothingLost ethTrade s := by
  refine ⟨_, rfl, fun h => ?_⟩
  have hsymbol := h.aligned rfl (⟨0, "BTC-USD"⟩, ⟨"1", 0, ⟨0⟩, "ETH-USD", none, some .buy, 3000, 1⟩,
    0) (List.mem_cons_self)
  exact absurd hsymbol (by decide)

/-- **Nothing is lost exactly where the lines agree.**  In every run, of any number of feed tasks
and calls for any symbols, no message is lost in any state of the run if and only if in every state
of the run the calls and the messages in line agree in their symbols, place by place. -/
theorem nothing_lost_iff_aligned (acts : List (WatchAction M)) :
    (∀ before later, acts = before ++ later →
        ∀ s, Transition.exec watchStep .start before = some s → NothingLost before s) ↔
      ∀ before later, acts = before ++ later →
        ∀ s, Transition.exec watchStep .start before = some s → Aligned s := by
  constructor
  · intro h before later hsplit s hrun
    exact (h before later hsplit s hrun).aligned hrun
  · intro h before later hsplit s hrun
    refine AlwaysAligned.nothingLost (fun before' later' hsplit' => ?_) hrun
    exact h before' (later' ++ later) (by rw [hsplit, hsplit', List.append_assoc])

/-- **With a single symbol nothing is lost**: if all messages sent and all calls made are for one
symbol, every state is aligned. -/
theorem aligned_of_one_symbol (symbol : String) {acts : List (WatchAction M)}
    (hsent : ∀ m, .send m ∈ acts → HasSymbol.symbol m = symbol)
    (hcalls : ∀ symbol', .call symbol' ∈ acts → symbol' = symbol) {s : WatchState M}
    (hrun : Transition.exec watchStep .start acts = some s) : Aligned s := by
  have hline : ∀ c ∈ s.line, c.symbol = symbol := by
    induction acts using List.reverseRecOn generalizing s with
    | nil =>
        obtain rfl := Option.some.inj hrun
        simp [WatchState.line, WatchState.start]
    | append_singleton acts a ih =>
        obtain ⟨u, hu, hstep⟩ := Transition.exec_concat_eq_some.1 hrun
        have hbefore := ih (fun m hm => hsent m (List.mem_append_left _ hm))
          (fun symbol' hm => hcalls symbol' (List.mem_append_left _ hm)) hu
        rcases watchStep_cases hstep with ⟨m, rfl, rfl⟩ | ⟨symbol', rfl, rfl⟩ |
          ⟨c, waiting, rfl, hholder, hwaiting, rfl⟩ | ⟨c, e, queue, rfl, hholder, hqueue, hturn⟩
        · exact hbefore
        · obtain rfl := hcalls symbol' (by simp)
          simpa [WatchState.line, ← or_assoc, or_imp, forall_and] using hbefore
        · simpa [WatchState.line, hholder, hwaiting] using hbefore
        · rcases hturn with ⟨-, rfl⟩ | ⟨-, rfl⟩
          · exact fun c' hc' => hbefore c' (List.mem_append_right _ hc')
          · exact hbefore
  intro e he
  have hqueued := (channel_history hrun).sent_of_queued (List.of_mem_zip he).2
  obtain ⟨a, ha, hmsg⟩ := List.mem_filterMap.1 (List.mem_of_getElem? hqueued)
  rw [hline _ (List.of_mem_zip he).1]
  cases a with
  | send m =>
      obtain rfl := Option.some.inj hmsg
      exact hsent _ ha
  | _ => cases hmsg

end MarketMaker
