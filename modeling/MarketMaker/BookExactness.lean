/-
**The numbers the watchers of the order books get.**

Between the feed and the watchers every price and size goes through text, and the conversion has
two ways to go wrong: it may panic, and it may be inexact.  For numbers the decimals can represent
only the second happens, where the text has more digits than a coefficient and an exponent behind
them.  So a feed of such numbers never stops the books, and a side of a book is exact unless the
number at its top loses its exponent; the numbers below the top are not converted.

* `FeedNumbers` — what holds of the prices and sizes of a feed;
* `ExactlyBest` — a list of levels is the best live price of a side and its live size, as numbers;
* `exactlyBest_iff` — **the levels of a record are, if and only if the exponents are kept**;
* `watched_books_are_exact` — **every book a watcher gets is exact**, in every run of the exchange;
* `representable_feed_never_panics` — **a task that has ended has sent a book for every message, and
  a side of a book is exact if and only if the numbers at its top keep their exponents**.
-/

import MarketMaker.BookAcceptance
import MarketMaker.DecimalConversion
import MarketMaker.MarketData

set_option relaxedAutoImplicit false
set_option autoImplicit false

namespace MarketMaker

variable {D : Type} [DecimalText D] {num : D → ℚ} {P Q : BigDecimal → Prop}

/-! ### The numbers of a feed -/

/-- What holds of the prices and sizes of the levels of nonzero size. -/
def LevelNumbers (P : BigDecimal → Prop) (h : List OrderbookResponsePriceLevel) : Prop :=
  ∀ l ∈ h, l.size.isZero = false → P l.price.inner ∧ P l.size.inner

/-- The same of all messages of a feed. -/
def FeedNumbers (P : BigDecimal → Prop) (msgs : List OrdersMessage) : Prop :=
  ∀ m ∈ msgs, ∀ side, LevelNumbers P (m.levels side)

theorem FeedNumbers.mono {msgs : List OrdersMessage} (h : FeedNumbers P msgs)
    (hPQ : ∀ d, P d → Q d) : FeedNumbers Q msgs := fun m hm side l hl hzero =>
  (h m hm side l hl hzero).imp (hPQ _) (hPQ _)

theorem FeedNumbers.take {msgs : List OrdersMessage} (h : FeedNumbers P msgs) (n : ℕ) :
    FeedNumbers P (msgs.take n) := fun m hm => h m (List.mem_of_mem_take hm)

theorem FeedNumbers.levelsSince {msgs : List OrdersMessage} (h : FeedNumbers P msgs)
    (side : Side) : LevelNumbers P (levelsSince side msgs) := by
  intro l hl
  obtain ⟨m, hm, hlm⟩ := mem_levelsSince hl
  exact h m hm side l hlm

/-- What holds of the numbers holds of those at the top. -/
theorem FeedNumbers.top {msgs : List OrdersMessage} (h : FeedNumbers P msgs) {side : Side}
    {e : Price × Quantity × UInt64} (he : e ∈ topOf ((OrderBook.after msgs).side side) side) :
    P e.1.inner ∧ P e.2.1.inner := by
  obtain ⟨-, hsize, l, hl, hkey, hzero⟩ :=
    (OrderBook.represents_after msgs side).isBest_of_topOf he
  obtain ⟨l', hl', -, hsz, hzero'⟩ := exists_level_of_liveSize hsize
  exact ⟨hkey ▸ (h.levelsSince side l hl hzero).1, hsz ▸ (h.levelsSince side l' hl' hzero').2⟩

/-- The number is representable and keeps its exponent. -/
def BigDecimal.Exact (d : BigDecimal) : Prop := Representable d.val ∧ d.KeepsExponent

/-- Small coefficients with at most 28 decimal places are exact. -/
theorem BigDecimal.exact_of_small {d : BigDecimal} (h : d.intVal.natAbs < coefficientBound ∧
    0 ≤ d.scale ∧ d.scale ≤ 28) : d.Exact :=
  ⟨representable h.1 h.2.1 h.2.2, Or.inr h.1⟩

/-- The numbers of a feed convert when they are representable. -/
theorem TextConventions.convertible (hconv : TextConventions num) {msgs : List OrdersMessage}
    (h : FeedNumbers (fun d => Representable d.val) msgs) : Convertible D msgs := by
  intro m hm side l hl hzero
  obtain ⟨hprice, hsize⟩ := h m hm side l hl hzero
  exact ⟨Option.isSome_iff_exists.2 (hconv.exists_of_representable hprice),
    Option.isSome_iff_exists.2 (hconv.exists_of_representable hsize)⟩

/-! ### Exact levels -/

/-- The numbers of a level. -/
def levelNumbers (num : D → ℚ) (level : CcxtOrderBookLevel D) : ℚ × ℚ :=
  (num level.price, num level.amount)

/-- The numbers of the levels are the best live price of the side with its live size, and no other
numbers. -/
structure ExactlyBest (num : D → ℚ) (side : Side) (h : List OrderbookResponsePriceLevel)
    (levels : List (CcxtOrderBookLevel D)) : Prop where
  length_le : levels.length ≤ 1
  mem_iff : ∀ p q, (p, q) ∈ levels.map (levelNumbers num) ↔
    IsBest side h p ∧ (liveSize h p).map (fun size => size.inner.val) = some q

/-- The numbers at the top of a side after the messages keep their exponents. -/
def TopKeepsExponents (side : Side) (msgs : List OrdersMessage) : Prop :=
  ∀ e ∈ topOf ((OrderBook.after msgs).side side) side,
    e.1.inner.KeepsExponent ∧ e.2.1.inner.KeepsExponent

/-- **The levels listed are exact** if and only if the numbers at the top keep their exponents. -/
theorem exactlyBest_iff (hconv : TextConventions num) {msgs : List OrdersMessage}
    (hd : FeedNumbers (fun d => Representable d.val) msgs) {symbol : String} {nonce : UInt64}
    {ob : CcxtOrderBook D} (hob : bookToCcxt (OrderBook.after msgs) symbol nonce = some ob)
    (side : Side) :
    ExactlyBest num side (levelsSince side msgs) (ob.side side) ↔ TopKeepsExponents side msgs := by
  have hside := (bookToCcxt_eq_some_iff.1 hob).2 side
  have hrep := OrderBook.represents_after msgs side
  unfold TopKeepsExponents
  cases htop : topOf ((OrderBook.after msgs).side side) side with
  | none =>
      -- no live price, and no level
      rw [htop] at hside
      have hnil : ob.side side = [] := by simpa using hside.symm
      have hnone := (hrep.topOf_eq_none_iff side).1 htop
      refine iff_of_true ⟨by simp [hnil], fun p q => ?_⟩ (by simp)
      rw [hnil]
      refine iff_of_false List.not_mem_nil ?_
      rintro ⟨hbest, -⟩
      rw [IsBest, hnone p] at hbest
      cases hbest.1
  | some e =>
      rw [htop, mapM_levelToCcxt_some, Option.map_eq_some_iff] at hside
      obtain ⟨level, hlevel, hlist⟩ := hside
      obtain ⟨hprice, hamount⟩ := levelToCcxt_eq_some_iff.1 hlevel
      obtain ⟨hbest, hsize, -⟩ := hrep.isBest_of_topOf htop
      obtain ⟨hp, hq⟩ := hd.top htop
      -- both conversions are exact
      have hboth : levelNumbers num level = (e.1.val, e.2.1.inner.val) ↔
          e.1.inner.KeepsExponent ∧ e.2.1.inner.KeepsExponent := by
        rw [levelNumbers, Prod.mk.injEq, ← hconv.eq_val_iff hp hprice,
          ← hconv.eq_val_iff hq hamount]
        rfl
      simp only [Option.mem_some_iff, forall_eq', ← hboth, ← hlist]
      constructor
      · intro hexact
        have hmem := (hexact.mem_iff e.1.val e.2.1.inner.val).2
          ⟨hbest, by rw [hsize, Option.map_some]⟩
        rw [List.map_singleton, List.mem_singleton] at hmem
        exact hmem.symm
      · intro hnumbers
        refine ⟨le_rfl, fun p q => ?_⟩
        rw [List.map_singleton, List.mem_singleton, hnumbers, Prod.mk.injEq]
        constructor
        · rintro ⟨rfl, rfl⟩
          exact ⟨hbest, by rw [hsize, Option.map_some]⟩
        · rintro ⟨hp, hq⟩
          obtain rfl := hp.eq hbest
          rw [hsize, Option.map_some, Option.some.injEq] at hq
          exact ⟨rfl, hq.symm⟩

/-- **Every book a watcher gets is exact.**  In every run of the exchange, with any symbols
registered once each and exact numbers on the feed of a symbol, the books returned to calls for the
symbol are those after ever later messages of the feed, and their levels are, number for number, the
best live prices then with their live sizes. -/
theorem watched_books_are_exact (hconv : TextConventions num) {symbols : List String}
    (hnodup : symbols.Nodup) {acts : List (ConnectorAction OrdersMessage)}
    {s : Connector OrdersMessage (CcxtOrderBook D) OrderBook (CcxtOrderBook D)}
    (hrun : Transition.exec (connectorStep (ordersFeed D)) (.start symbols) acts = some s) {i : ℕ}
    {symbol : String} (hsymbol : symbols[i]? = some symbol)
    (hd : FeedNumbers BigDecimal.Exact (deliveredTo i acts)) :
    ∃ f : ℕ ↪o ℕ, ∀ k ob, (s.channel.returnedFor symbol)[k]? = some ob →
      f k < (deliveredTo i acts).length ∧ ∀ side,
        ExactlyBest num side (levelsSince side ((deliveredTo i acts).take (f k + 1)))
          (ob.side side) := by
  obtain ⟨f, hf⟩ := exists_books_returned hnodup hrun hsymbol
  refine ⟨f, fun k ob hob => ?_⟩
  obtain ⟨m, hm, hbook⟩ := hf k ob hob
  obtain ⟨hlt, -⟩ := List.getElem?_eq_some_iff.1 hm
  have htake := hd.take (f k + 1)
  have hrepresentable := htake.mono fun _ h => h.1
  exact ⟨hlt, fun side => (exactlyBest_iff hconv hrepresentable hbook side).2 fun _ he =>
    (htake.top he).imp And.right And.right⟩

/-- A book whose best bid and ask are written with some decimal places, and whose bid is moved to a
price that is displayed with an exponent. -/
private def exactOrders : List (ConnectorAction OrdersMessage) :=
  [.subscribe true, .task 0 (.deliver (.initial 1 [⟨⟨⟨1, 9⟩⟩, ⟨⟨5, 0⟩⟩⟩] [])), .task 0 .recv,
    .task 0 .send, .task 0 .settle, .call "BTC-USD", .lock, .recv,
    .task 0 (.deliver (.update 2 (some [⟨⟨⟨10075, 12⟩⟩, ⟨⟨25, 2⟩⟩⟩]) none)), .task 0 .recv,
    .task 0 .send, .call "BTC-USD", .lock, .recv]

theorem watched_books_are_exact_sample :
    ∃ s, Transition.exec (connectorStep (ordersFeed ℚ)) (.start ["BTC-USD"]) exactOrders =
        some s ∧
      ∃ f : ℕ ↪o ℕ, ∀ k ob, (s.channel.returnedFor "BTC-USD")[k]? = some ob →
        f k < (deliveredTo 0 exactOrders).length ∧ ∀ side,
          ExactlyBest id side (levelsSince side ((deliveredTo 0 exactOrders).take (f k + 1)))
            (ob.side side) := by
  have hrun : (Transition.exec (connectorStep (ordersFeed ℚ)) (.start ["BTC-USD"])
      exactOrders).isSome := by decide +kernel
  obtain ⟨s, hs⟩ := Option.isSome_iff_exists.1 hrun
  have hd : FeedNumbers BigDecimal.Exact (deliveredTo 0 exactOrders) := by
    refine FeedNumbers.mono ?_ fun d => BigDecimal.exact_of_small
    unfold FeedNumbers LevelNumbers
    decide +kernel
  exact ⟨s, hs, watched_books_are_exact readDecimal_conventions (by decide) hs rfl hd⟩

/-! ### No panic -/

/-- **Representable numbers never stop the books.**  In every run of the exchange, an order-book
task that has ended, the numbers delivered to it being representable, has returned, with one book
sent for each message delivered; and a side of a book is, number for number, the best live price
then with its live size if and only if these numbers keep their exponents. -/
theorem representable_feed_never_panics (hconv : TextConventions num) {symbols : List String}
    {acts : List (ConnectorAction OrdersMessage)}
    {s : Connector OrdersMessage (CcxtOrderBook D) OrderBook (CcxtOrderBook D)}
    (hrun : Transition.exec (connectorStep (ordersFeed D)) (.start symbols) acts = some s) {i : ℕ}
    {symbol : String} {t : ReceiveTask OrdersMessage (CcxtOrderBook D) OrderBook}
    (htask : s.tasks[i]? = some (symbol, t)) {exit : Exit} (hended : t.phase = .ended exit)
    (hd : FeedNumbers (fun d => Representable d.val) (deliveredTo i acts)) :
    exit = .returned ∧ t.sent.length = (deliveredTo i acts).length ∧
      ∀ n ob, t.sent[n]? = some ob → ∀ side,
        (ExactlyBest num side (levelsSince side ((deliveredTo i acts).take (n + 1)))
          (ob.side side) ↔ TopKeepsExponents side ((deliveredTo i acts).take (n + 1))) := by
  obtain ⟨hloop, ⟨rest, hrest⟩, hall⟩ := loop_of_ended_task hrun htask hended
  have hreceived : Convertible D t.received :=
    hconv.convertible fun m hm => hd m (hrest ▸ List.mem_append_left rest hm)
  have hhandler : handleOrderBookFeed symbol (t.received.length + 1) t.received = (t.sent, exit) :=
    hloop
  rw [handleOrderBookFeed_eq hreceived symbol (Nat.lt_succ_self _), Prod.mk.injEq] at hhandler
  obtain ⟨hsent, rfl⟩ := hhandler
  rw [← hall rfl]
  refine ⟨rfl, ?_, fun n ob hob side => ?_⟩
  · rw [← hsent]
    exact (onMessages_of_convertible hreceived symbol).2
  · rw [← hsent] at hob
    obtain ⟨m, -, hbook⟩ := bookToCcxt_of_sent hob
    rw [← hall rfl] at hd
    exact exactlyBest_iff hconv (hd.take _) hbook side

/-- A book with one ask, then a better one of a hundred-millionth with 37 decimal places, and the
closing of the feed. -/
private def tinyTop : List (ConnectorAction OrdersMessage) :=
  [.subscribe true, .task 0 (.deliver (.initial 1 [] [⟨⟨⟨2, 0⟩⟩, ⟨⟨5, 0⟩⟩⟩])),
    .task 0 (.deliver (.update 2 none (some [⟨⟨⟨10 ^ 29, 37⟩⟩, ⟨⟨5, 0⟩⟩⟩]))), .task 0 .close,
    .task 0 .recv, .task 0 .send, .task 0 .settle, .task 0 .recv, .task 0 .send, .task 0 .settle,
    .task 0 .recv, .task 0 .settle]

theorem representable_feed_never_panics_sample :
    ∃ s t, Transition.exec (connectorStep (ordersFeed ℚ)) (.start ["BTC-USD"]) tinyTop = some s ∧
      s.tasks[0]? = some ("BTC-USD", t) ∧ t.phase = .ended .returned ∧ t.sent.length = 2 ∧
        ∀ ob, t.sent[1]? = some ob →
          ¬ ExactlyBest id .ask (levelsSince .ask ((deliveredTo 0 tinyTop).take 2))
            (ob.side .ask) := by
  have hrun : ((Transition.exec (connectorStep (ordersFeed ℚ)) (.start ["BTC-USD"]) tinyTop).bind
      fun s => s.tasks[0]?.map fun e => (e.1, e.2.isEnded)) = some ("BTC-USD", true) := by
    decide +kernel
  obtain ⟨s, hs, hentry⟩ := Option.bind_eq_some_iff.1 hrun
  obtain ⟨⟨symbol, t⟩, htask, heq⟩ := Option.map_eq_some_iff.1 hentry
  obtain ⟨rfl, hended⟩ := Prod.mk.inj heq
  obtain ⟨exit, hphase⟩ := ReceiveTask.exists_of_isEnded hended
  have hnumbers : FeedNumbers (· ∈ [⟨2, 0⟩, ⟨5, 0⟩, ⟨10 ^ 29, 37⟩]) (deliveredTo 0 tinyTop) := by
    unfold FeedNumbers LevelNumbers
    decide +kernel
  have hd : FeedNumbers (fun d => Representable d.val) (deliveredTo 0 tinyTop) := by
    refine hnumbers.mono fun d hmem => ?_
    simp only [List.mem_cons, List.not_mem_nil, or_false] at hmem
    rcases hmem with rfl | rfl | rfl
    · exact (BigDecimal.exact_of_small (by decide)).1
    · exact (BigDecimal.exact_of_small (by decide)).1
    · exact ⟨1, 8, by norm_num [coefficientBound], by omega, by norm_num [BigDecimal.val]⟩
  obtain ⟨rfl, hlength, hexact⟩ :=
    representable_feed_never_panics readDecimal_conventions hs htask hphase hd
  refine ⟨s, t, hs, htask, hphase, hlength, fun ob hob hbest => ?_⟩
  -- the price at the top has lost its exponent
  have htop : (topOf ((OrderBook.after ((deliveredTo 0 tinyTop).take 2)).side .ask) .ask).map
      (fun e => e.1.inner) = some ⟨10 ^ 29, 37⟩ := by decide +kernel
  obtain ⟨e, he, hprice⟩ := Option.map_eq_some_iff.1 htop
  have hkeeps := ((hexact 1 ob hob .ask).1 hbest e he).1
  rw [hprice] at hkeeps
  norm_num [BigDecimal.KeepsExponent, BigDecimal.val, coefficientBound] at hkeeps

end MarketMaker
