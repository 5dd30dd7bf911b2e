/-
**The state is the projection of the run, symbol by symbol.**

The values of all symbols share one map, and its keys are put together from names: the key of a
symbol's last trade is a first part of the keys of everything else that is stored for the symbol.
Symbols that end in `-USD` do not end in what those keys end in, and of the endings of keys none
ends another; so each key says which symbol and which value it is for, and what is stored there is
what the last message for it says.

* `symbol_of_bookKey_eq`, `tradeKey_not_mem_bookKeys`, `tradeKey_not_mem_parameterKeys` — keys of
  different symbols or values differ;
* `lastTrade`, `lastBook` — the last messages for a symbol;
* `Projection` — **what a run leaves in the state**;
* `Projection.step` — one message keeps it;
* `state_is_projection` — the state is the projection of every run of messages over such symbols.
-/

import MarketMaker.LastWrite
import MarketMaker.LifeCycle
import MarketMaker.OrderBookAtomicity

set_option relaxedAutoImplicit false
set_option autoImplicit false

namespace MarketMaker

open Panicking

variable {D F : Type}

/-! ### The keys -/

/-- What the keys of a book end in. -/
def bookSuffixes : List String :=
  ["_bid_price", "_bid_size", "_ask_price", "_ask_size", "_mid_price"]

theorem mem_bookKeys {exchangeName symbol key : String} :
    key ∈ bookKeys exchangeName symbol ↔
      ∃ suffix ∈ bookSuffixes, exchangeName ++ "_" ++ symbol ++ suffix = key :=
  List.mem_map

/-- The symbol is quoted in dollars. -/
def EndsInUsd (symbol : String) : Prop := ∃ base, symbol = base ++ "-USD"

theorem EndsInUsd.getLast? {symbol : String} (h : EndsInUsd symbol) :
    symbol.toList.getLast? = some 'D' := by
  obtain ⟨base, rfl⟩ := h
  exact getLast?_append_of_isSome (by decide)

/-- **A key of a book belongs to one symbol**: of the endings none ends another. -/
theorem symbol_of_bookKey_eq {exchangeName symbol symbol' suffix suffix' : String}
    (hs : suffix ∈ bookSuffixes) (hs' : suffix' ∈ bookSuffixes)
    (h : exchangeName ++ "_" ++ symbol ++ suffix = exchangeName ++ "_" ++ symbol' ++ suffix') :
    symbol = symbol' := by
  have hend : ∀ a ∈ bookSuffixes, ∀ b ∈ bookSuffixes, a.toList <:+ b.toList → a = b := by decide
  exact (symbol_suffix_of_key_eq hend hs hs' h).1

/-- The key of a trade ends in the symbol, the other keys do not end in one. -/
theorem tradeKey_ne {exchangeName symbol symbol' suffix : String} (husd : EndsInUsd symbol)
    (hs : suffix ∈ bookSuffixes ++ parameterSuffixes) :
    exchangeName ++ "_" ++ symbol' ++ suffix ≠ exchangeName ++ "_" ++ symbol := by
  intro h
  have hends : ∀ s ∈ bookSuffixes ++ parameterSuffixes,
      s.toList.getLast?.isSome ∧ s.toList.getLast? ≠ some 'D' := by decide
  obtain ⟨hsome, hne⟩ := hends suffix hs
  obtain ⟨c, hc⟩ := Option.isSome_iff_exists.1 hsome
  rw [String.append_assoc, String.append_right_inj] at h
  have hlast := husd.getLast?
  rw [← h, getLast?_append_of_isSome hc] at hlast
  exact hne (hc.trans hlast)

theorem tradeKey_not_mem_bookKeys {exchangeName symbol : String} (husd : EndsInUsd symbol)
    (symbol' : String) : exchangeName ++ "_" ++ symbol ∉ bookKeys exchangeName symbol' := by
  intro h
  obtain ⟨suffix, hsuffix, heq⟩ := mem_bookKeys.1 h
  exact tradeKey_ne husd (List.mem_append_left _ hsuffix) heq

theorem tradeKey_not_mem_parameterKeys {exchangeName symbol : String} (husd : EndsInUsd symbol)
    (symbol' : String) : exchangeName ++ "_" ++ symbol ∉ parameterKeys exchangeName symbol' := by
  intro h
  obtain ⟨suffix, hsuffix, heq⟩ := List.mem_map.1 h
  exact tradeKey_ne husd (List.mem_append_right _ hsuffix) heq

theorem bookKeys_disjoint {exchangeName symbol symbol' key : String} (hne : symbol ≠ symbol')
    (h : key ∈ bookKeys exchangeName symbol) : key ∉ bookKeys exchangeName symbol' := by
  intro h'
  obtain ⟨suffix, hs, rfl⟩ := mem_bookKeys.1 h
  obtain ⟨suffix', hs', heq⟩ := mem_bookKeys.1 h'
  exact hne (symbol_of_bookKey_eq hs hs' heq.symm)

/-! ### The last messages for a symbol -/

/-- The trade a message is, if it is one. -/
def CcxtMessage.trade : CcxtMessage D F → Option (CcxtTrade D)
  | .ccxtTrade update => some update
  | _ => none

/-- The order book a message is, if it is one. -/
def CcxtMessage.orderBook : CcxtMessage D F → Option (CcxtOrderBook D)
  | .ccxtOrderBook update => some update
  | _ => none

/-- The last trade of a symbol. -/
def lastTrade (msgs : List (CcxtMessage D F × ℕ)) (symbol : String) : Option (CcxtTrade D) :=
  LastWrite.last CcxtTrade.symbol (msgs.filterMap fun e => e.1.trade) symbol

/-- The last order book of a symbol. -/
def lastBook (msgs : List (CcxtMessage D F × ℕ)) (symbol : String) : Option (CcxtOrderBook D) :=
  LastWrite.last CcxtOrderBook.symbol (msgs.filterMap fun e => e.1.orderBook) symbol

theorem lastTrade_concat (msgs : List (CcxtMessage D F × ℕ)) (m : CcxtMessage D F) (now : ℕ)
    (symbol : String) :
    lastTrade (msgs ++ [(m, now)]) symbol =
      (m.trade.filter fun t => t.symbol = symbol).or (lastTrade msgs symbol) := by
  rw [lastTrade, List.filterMap_append, LastWrite.last_append]
  cases h : m.trade <;> simp [h, LastWrite.last_cons, lastTrade, Option.filter]

theorem lastBook_concat (msgs : List (CcxtMessage D F × ℕ)) (m : CcxtMessage D F) (now : ℕ)
    (symbol : String) :
    lastBook (msgs ++ [(m, now)]) symbol =
      (m.orderBook.filter fun ob => ob.symbol = symbol).or (lastBook msgs symbol) := by
  rw [lastBook, List.filterMap_append, LastWrite.last_append]
  cases h : m.orderBook <;> simp [h, LastWrite.last_cons, lastBook, Option.filter]

/-! ### What a run leaves -/

section Projection

variable [DecimalOps D]

/-- The message is one that is handled, over the given symbols: a trade, a two-sided order book, a
balance or a position. -/
def Concerns (symbols : List String) : CcxtMessage D F → Prop
  | .ccxtTrade update => update.symbol ∈ symbols
  | .ccxtOrderBook update => update.symbol ∈ symbols ∧ update.bids ≠ [] ∧ update.asks ≠ []
  | .ccxtBalance _ => True
  | .ccxtPosition _ => True
  | .ccxtEmpty => False
  | .ccxtOrder => False

/-- **What a run of messages leaves**: at each key what the last message for it says, and what was
there before if there was none. -/
structure Projection (exchangeName : String) (symbols : List String)
    (msgs : List (CcxtMessage D F × ℕ)) (stores t : Stores D) : Prop where
  trade : ∀ symbol ∈ symbols, t.lookup (exchangeName ++ "_" ++ symbol) =
    ((lastTrade msgs symbol).map CcxtTrade.price).or
      (stores.lookup (exchangeName ++ "_" ++ symbol))
  book : ∀ symbol ∈ symbols, ∀ update, lastBook msgs symbol = some update →
    BookStored t exchangeName update
  noBook : ∀ symbol ∈ symbols, lastBook msgs symbol = none →
    ∀ key ∈ bookKeys exchangeName symbol, t.lookup key = stores.lookup key
  parameters : ∀ symbol ∈ symbols, ∀ key ∈ parameterKeys exchangeName symbol,
    t.lookup key = stores.lookup key
  others : ∀ key, (∀ symbol ∈ symbols, key ≠ exchangeName ++ "_" ++ symbol ∧
    key ∉ bookKeys exchangeName symbol) → t.lookup key = stores.lookup key

variable {exchangeName : String} {symbols : List String} {msgs : List (CcxtMessage D F × ℕ)}
  {stores t u : Stores D}

/-- The values of a book stay stored while its keys do not change. -/
theorem BookStored.congr {update : CcxtOrderBook D} (h : BookStored t exchangeName update)
    (hkeys : ∀ key ∈ bookKeys exchangeName update.symbol, u.lookup key = t.lookup key) :
    BookStored u exchangeName update := by
  obtain ⟨bid, ask, midPrice, hbid, hask, hmid, h₁, h₂, h₃, h₄, h₅⟩ := h
  have hkey : ∀ suffix ∈ bookSuffixes,
      u.lookup (exchangeName ++ "_" ++ update.symbol ++ suffix) =
        t.lookup (exchangeName ++ "_" ++ update.symbol ++ suffix) :=
    fun suffix hsuffix => hkeys _ (mem_bookKeys.2 ⟨suffix, hsuffix, rfl⟩)
  refine ⟨bid, ask, midPrice, hbid, hask, hmid, ?_, ?_, ?_, ?_, ?_⟩
  · rw [hkey "_bid_price" (by decide), h₁]
  · rw [hkey "_bid_size" (by decide), h₂]
  · rw [hkey "_ask_price" (by decide), h₃]
  · rw [hkey "_ask_size" (by decide), h₄]
  · rw [hkey "_mid_price" (by decide), h₅]

/-- A message that is neither a trade nor a book. -/
theorem Projection.skip (h : Projection exchangeName symbols msgs stores t)
    {m : CcxtMessage D F} (htrade : m.trade = none) (hbook : m.orderBook = none) (now : ℕ) :
    Projection exchangeName symbols (msgs ++ [(m, now)]) stores t := by
  have hlast : ∀ symbol, lastTrade (msgs ++ [(m, now)]) symbol = lastTrade msgs symbol := by
    simp [lastTrade_concat, htrade]
  have hlast' : ∀ symbol, lastBook (msgs ++ [(m, now)]) symbol = lastBook msgs symbol := by
    simp [lastBook_concat, hbook]
  refine ⟨?_, ?_, ?_, h.parameters, h.others⟩
  · simpa only [hlast] using h.trade
  · simpa only [hlast'] using h.book
  · simpa only [hlast'] using h.noBook

/-- A trade sets the key of its symbol. -/
theorem Projection.addTrade (husd : ∀ symbol ∈ symbols, EndsInUsd symbol) (ht : t.Initialized)
    (h : Projection exchangeName symbols msgs stores t) {trade : CcxtTrade D}
    (hsymbol : trade.symbol ∈ symbols) (now : ℕ) :
    Projection exchangeName symbols (msgs ++ [(.ccxtTrade trade, now)]) stores
      ((t.set (exchangeName ++ "_" ++ trade.symbol) trade.price).addTrade now trade.price) := by
  have hother : ∀ key, key ≠ exchangeName ++ "_" ++ trade.symbol →
      ((t.set (exchangeName ++ "_" ++ trade.symbol) trade.price).addTrade now
        trade.price).lookup key = t.lookup key :=
    fun key hkey => Stores.lookup_set_of_ne t hkey trade.price
  have hbookKey : ∀ {symbol key}, key ∈ bookKeys exchangeName symbol →
      key ≠ exchangeName ++ "_" ++ trade.symbol := by
    rintro symbol key hkey rfl
    exact tradeKey_not_mem_bookKeys (husd _ hsymbol) symbol hkey
  have hlast : ∀ symbol, lastBook (msgs ++ [(.ccxtTrade trade, now)]) symbol =
      lastBook msgs symbol := fun symbol => by
    rw [lastBook_concat]
    rfl
  refine ⟨fun symbol hs => ?_, fun symbol hs update hupdate => ?_,
    fun symbol hs hnone key hkey => ?_, fun symbol hs key hkey => ?_, fun key hkey => ?_⟩
  · rw [lastTrade_concat]
    by_cases heq : trade.symbol = symbol
    · subst heq
      simp [CcxtMessage.trade, Option.filter, Stores.lookup_set_self ht.1]
    · have hne : exchangeName ++ "_" ++ symbol ≠ exchangeName ++ "_" ++ trade.symbol :=
        fun hkey => heq ((String.append_right_inj _).1 hkey).symm
      rw [hother _ hne, h.trade symbol hs]
      simp [CcxtMessage.trade, Option.filter, heq]
  · rw [hlast] at hupdate
    exact (h.book symbol hs update hupdate).congr fun key hkey => hother key (hbookKey hkey)
  · rw [hlast] at hnone
    rw [hother key (hbookKey hkey), h.noBook symbol hs hnone key hkey]
  · rw [hother key, h.parameters symbol hs key hkey]
    rintro rfl
    exact tradeKey_not_mem_parameterKeys (husd _ hsymbol) symbol hkey
  · rw [hother key (hkey _ hsymbol).1, h.others key hkey]

/-- A book that is handled sets the keys of its symbol. -/
theorem Projection.setBook (husd : ∀ symbol ∈ symbols, EndsInUsd symbol)
    (h : Projection exchangeName symbols msgs stores t) {update : CcxtOrderBook D}
    (hsymbol : update.symbol ∈ symbols) (hu : BookHandled t u exchangeName update) (now : ℕ) :
    Projection exchangeName symbols (msgs ++ [(.ccxtOrderBook update, now)]) stores u := by
  have hlast : ∀ symbol, lastTrade (msgs ++ [(.ccxtOrderBook update, now)]) symbol =
      lastTrade msgs symbol := fun symbol => by
    rw [lastTrade_concat]
    rfl
  refine ⟨fun symbol hs => ?_, fun symbol hs ob hob => ?_, fun symbol hs hnone key hkey => ?_,
    fun symbol hs key hkey => ?_, fun key hkey => ?_⟩
  · rw [hlast, hu.others _ (tradeKey_not_mem_bookKeys (husd _ hs) _), h.trade symbol hs]
  · rw [lastBook_concat] at hob
    by_cases heq : update.symbol = symbol
    · obtain rfl : update = ob := by
        simpa [CcxtMessage.orderBook, Option.filter, heq] using hob
      exact hu.stored
    · have hold : lastBook msgs symbol = some ob := by
        simpa [CcxtMessage.orderBook, Option.filter, heq] using hob
      refine (h.book symbol hs ob hold).congr fun key hkey => hu.others key ?_
      rw [(LastWrite.last_eq_some _ hold).2] at hkey
      exact bookKeys_disjoint (Ne.symm heq) hkey
  · rw [lastBook_concat, Option.or_eq_none_iff] at hnone
    have hne : update.symbol ≠ symbol := fun heq => by
      simp [CcxtMessage.orderBook, Option.filter, heq] at hnone
    rw [hu.others key (bookKeys_disjoint (Ne.symm hne) hkey), h.noBook symbol hs hnone.2 key hkey]
  · rw [hu.others key (not_mem_bookKeys hkey), h.parameters symbol hs key hkey]
  · rw [hu.others key (hkey _ hsymbol).2, h.others key hkey]

/-- The faults of the arithmetic depend on the parameters alone. -/
theorem ArithmeticFaults.congr {update : CcxtOrderBook D}
    (hparams : ∀ key ∈ parameterKeys exchangeName update.symbol, t.lookup key = stores.lookup key)
    (h : ArithmeticFaults t update exchangeName) : ArithmeticFaults stores update exchangeName := by
  have hkey : ∀ suffix ∈ parameterSuffixes,
      t.lookup (exchangeName ++ "_" ++ update.symbol ++ suffix) =
        stores.lookup (exchangeName ++ "_" ++ update.symbol ++ suffix) :=
    fun suffix hsuffix => hparams _ (List.mem_map_of_mem hsuffix)
  simpa only [ArithmeticFaults, hkey "_q" (by decide), hkey "_γ" (by decide),
    hkey "_σ" (by decide), hkey "_κ" (by decide)] using h

/-- **One message keeps the projection.** -/
theorem Projection.step (husd : ∀ symbol ∈ symbols, EndsInUsd symbol)
    (hparams : ∀ symbol ∈ symbols, ParametersStored stores exchangeName symbol)
    (ht : t.Initialized) (h : Projection exchangeName symbols msgs stores t)
    {m : CcxtMessage D F} (hm : Concerns symbols m)
    (harith : ∀ update, m = .ccxtOrderBook update → ¬ ArithmeticFaults stores update exchangeName)
    (now : ℕ) :
    (after (handleMessage m exchangeName now) t).Initialized ∧
      Projection exchangeName symbols (msgs ++ [(m, now)]) stores
        (after (handleMessage m exchangeName now) t) := by
  have hrun := run_handleMessage ht m exchangeName now
  cases m with
  | ccxtEmpty => exact absurd hm id
  | ccxtOrder => exact absurd hm id
  | ccxtBalance update =>
      rw [after_of_ok hrun]
      exact ⟨ht, h.skip rfl rfl now⟩
  | ccxtPosition update =>
      rw [after_of_ok hrun]
      exact ⟨ht, h.skip rfl rfl now⟩
  | ccxtTrade update =>
      rw [after_of_ok hrun]
      exact ⟨(ht.set _ _).addTrade _ _, h.addTrade husd ht hm now⟩
  | ccxtOrderBook update =>
      obtain ⟨hsymbol, hbids, hasks⟩ := hm
      have hsame := h.parameters update.symbol hsymbol
      have hstored : ∀ key ∈ parameterKeys exchangeName update.symbol, (t.lookup key).isSome := by
        intro key hkey
        rw [hsame key hkey]
        exact hparams update.symbol hsymbol key hkey
      have hsound : ¬ ArithmeticFaults t update exchangeName :=
        fun hfault => harith update rfl (ArithmeticFaults.congr hsame hfault)
      rcases handleOrderBook_spec ht update exchangeName with ⟨u, hu, hhandled, hok⟩ | ⟨e, he, -⟩
      · rw [after_of_ok (hrun.trans hok)]
        exact ⟨hu, h.setBook husd hsymbol hhandled now⟩
      · exact absurd he (not_faults hbids hasks hstored hsound e)

/-- **The state is the projection of the run.**  For every exchange name, all symbols quoted in
dollars whose parameters are stored, and every run of trades, two-sided order books whose arithmetic
does not fault, balances and positions over these symbols, the state left is the projection of the
run: the last trade and the last book of each symbol, its parameters, and nothing else. -/
theorem state_is_projection (exchangeName : String) (symbols : List String)
    (husd : ∀ symbol ∈ symbols, EndsInUsd symbol) (stores : Stores D) (hs : stores.Initialized)
    (hparams : ∀ symbol ∈ symbols, ParametersStored stores exchangeName symbol)
    (msgs : List (CcxtMessage D F × ℕ)) (hmsgs : ∀ e ∈ msgs, Concerns symbols e.1)
    (harith : ∀ update now, (.ccxtOrderBook update, now) ∈ msgs →
      ¬ ArithmeticFaults stores update exchangeName) :
    Projection exchangeName symbols msgs stores (handleAll exchangeName msgs stores) := by
  have hrun : (handleAll exchangeName msgs stores).Initialized ∧
      Projection exchangeName symbols msgs stores (handleAll exchangeName msgs stores) := by
    induction msgs using List.reverseRecOn with
    | nil =>
        refine ⟨hs, fun _ _ => rfl, fun _ _ update h => ?_, fun _ _ _ _ _ => rfl,
          fun _ _ _ _ => rfl, fun _ _ => rfl⟩
        cases h
    | append_singleton msgs e ih =>
        obtain ⟨hinit, hproj⟩ := ih (fun e' he' => hmsgs e' (List.mem_append_left _ he'))
          fun update now hmem => harith update now (List.mem_append_left _ hmem)
        rw [handleAll, List.foldl_concat, ← handleAll]
        refine hproj.step husd hparams hinit (hmsgs e (by simp)) (fun update heq => ?_) e.2
        exact harith update e.2 (by simp [← heq])
  exact hrun.2

end Projection

/-- Stores with all parameters of one symbol set to one, and a trade and a book of the symbol. -/
private def storesOfOnes : Stores ℚ :=
  ⟨some ⟨fun key => if key ∈ parameterKeys "dydx" "BTC-USD" then some 1 else none⟩, some (.new 0)⟩

private def tradeThenBook : List (CcxtMessage ℚ ℚ × ℕ) :=
  [(.ccxtTrade ⟨"1", 0, ⟨0⟩, "BTC-USD", none, some .buy, 100, 1⟩, 0),
    (.ccxtOrderBook ⟨[⟨100, 1⟩], [⟨102, 1⟩], "BTC-USD", none, none, none⟩, 1)]

/-- The midpoint of the last book is stored. -/
theorem state_is_projection_sample :
    letI := exactOps some
    (handleAll "dydx" tradeThenBook storesOfOnes).lookup "dydx_BTC-USD_mid_price" = some 101 := by
  let : DecimalOps ℚ := exactOps some
  have hproj := state_is_projection (F := ℚ) "dydx" ["BTC-USD"]
    (fun symbol hs => ⟨"BTC", List.mem_singleton.1 hs⟩) storesOfOnes ⟨rfl, rfl⟩
    (by simp only [List.mem_singleton, forall_eq, ParametersStored]; decide) tradeThenBook
    (by simp [tradeThenBook, Concerns]) ?_
  · obtain ⟨bid, ask, mid, hbid, hask, hmid, -, -, -, -, h⟩ := hproj.book "BTC-USD" (by simp) _ rfl
    obtain rfl := Option.some.inj hbid
    obtain rfl := Option.some.inj hask
    have hmid' : midPoint (100 : ℚ) 102 = some 101 := by decide +kernel
    exact h.trans (hmid.symm.trans hmid')
  · rintro update now hmem ⟨bid, ask, hbid, hask, hfault⟩
    obtain ⟨rfl, -⟩ : update = ⟨[⟨100, 1⟩], [⟨102, 1⟩], "BTC-USD", none, none, none⟩ ∧ now = 1 := by
      simpa [tradeThenBook] using hmem
    obtain rfl := Option.some.inj hbid
    obtain rfl := Option.some.inj hask
    have hmid : midPoint (100 : ℚ) 102 = some 101 := by decide +kernel
    rcases hfault with hfault | ⟨mid, q, γ, σ, κ, hmid', hq, hγ, hσ, hκ, hfault⟩
    · rw [hmid] at hfault
      cases hfault
    · obtain rfl := Option.some.inj (hmid.symm.trans hmid')
      obtain rfl := Option.some.inj hq
      obtain rfl := Option.some.inj hγ
      obtain rfl := Option.some.inj hσ
      obtain rfl := Option.some.inj hκ
      have hquotes : (asmmQuotes (101 : ℚ) 1 1 1 1).isSome := by decide +kernel
      rw [hfault] at hquotes
      cases hquotes

end MarketMaker
