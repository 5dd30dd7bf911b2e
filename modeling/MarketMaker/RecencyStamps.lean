/-
**The recency stamps of the order book.**

Every level of nonzero size takes the next number of a counter that both sides share; a level of
size zero takes none, and a snapshot clears the sides but not the counter.  So the stamp of a live
level is the number of levels of nonzero size that were handled before it, over the whole run and
both sides, and stamps are in the order in which the live levels were written.

* `appliedLevels` — the levels of a run, in the order in which they are handled;
* `LastAt` — the last of them for a price of a side;
* `Stamped` — the invariant: stamps and counter count the levels of nonzero size;
* `Stamped.level`, `Stamped.receive` — one level and one message keep it;
* `recency_stamps` — **the stamps are distinct, below the counter, and in the order of writing**.
-/

import MarketMaker.BookLog

set_option relaxedAutoImplicit false
set_option autoImplicit false

namespace MarketMaker

/-- The levels of a run, in the order in which they are handled. -/
def appliedLevels (msgs : List OrdersMessage) : List SideLevel := msgs.flatMap OrdersMessage.log

/-- The level `w` stands at the index `i` of the log, and is the last one for the key `k`. -/
structure LastAt (log : List SideLevel) (k : Side × ℚ) (i : ℕ) (w : SideLevel) : Prop where
  level : log[i]? = some w
  key : w.key = k
  last : ∀ j w', i < j → log[j]? = some w' → w'.key ≠ k

section LastAt

variable {log : List SideLevel} {k k' : Side × ℚ} {i i' : ℕ} {w w' : SideLevel}

theorem LastAt.unique (h : LastAt log k i w) (h' : LastAt log k i' w') : i = i' := by
  rcases Nat.lt_trichotomy i i' with hlt | heq | hlt
  · exact absurd h'.key (h.last i' w' hlt h'.level)
  · exact heq
  · exact absurd h.key (h'.last i w hlt h.level)

theorem LastAt.lt_length (h : LastAt log k i w) : i < log.length :=
  (List.getElem?_eq_some_iff.1 h.level).1

/-- A level at the end is the last one for its key. -/
theorem lastAt_concat (log : List SideLevel) (w : SideLevel) :
    LastAt (log ++ [w]) w.key log.length w := by
  refine ⟨List.getElem?_concat_length, rfl, fun j w' hj hw' => ?_⟩
  have hlt := (List.getElem?_eq_some_iff.1 hw').1
  rw [List.length_append, List.length_singleton] at hlt
  omega

/-- A level for another key comes after it. -/
theorem LastAt.concat (h : LastAt log k i w) (hne : w'.key ≠ k) : LastAt (log ++ [w']) k i w := by
  refine ⟨?_, h.key, fun j v hj hv => ?_⟩
  · rw [List.getElem?_append_left h.lt_length, h.level]
  · rcases Nat.lt_or_ge j log.length with hlt | hge
    · rw [List.getElem?_append_left hlt] at hv
      exact h.last j v hj hv
    · rw [List.getElem?_append_right hge, List.getElem?_singleton] at hv
      split_ifs at hv
      obtain rfl := Option.some.inj hv
      exact hne

end LastAt

/-! ### The invariant -/

/-- How many of the first levels of a log have a nonzero size. -/
def writesBefore (log : List SideLevel) (i : ℕ) : ℕ := (log.take i).countP SideLevel.isWrite

/-- Later levels have more levels of nonzero size before them. -/
theorem writesBefore_lt {log : List SideLevel} {i j : ℕ} {w : SideLevel} (hi : log[i]? = some w)
    (hw : w.isWrite) (hij : i < j) : writesBefore log i < writesBefore log j := by
  have hnext : writesBefore log (i + 1) = writesBefore log i + 1 := by
    rw [writesBefore, List.take_add_one, hi, List.countP_append]
    simp [writesBefore, hw]
  have hle : writesBefore log (i + 1) ≤ writesBefore log j :=
    (List.take_sublist_take_left hij).countP_le
  omega

theorem writesBefore_le (log : List SideLevel) (i : ℕ) :
    writesBefore log i ≤ log.countP SideLevel.isWrite := (List.take_sublist i log).countP_le

/-- The counter is the number of levels of nonzero size handled, and the stamp of a live level the
number of those before the last level for its price. -/
structure Stamped (log : List SideLevel) (book : OrderBook) : Prop where
  offset : book.offset = UInt64.ofNat (log.countP SideLevel.isWrite)
  entry : ∀ k e, book.entry k = some e → ∃ i w, LastAt log k i w ∧ w.isWrite ∧ w.2.size = e.2.1 ∧
    e.2.2 = UInt64.ofNat (writesBefore log i)

namespace Stamped

variable {log : List SideLevel} {book : OrderBook}

/-- **One level keeps the invariant.** -/
theorem level (h : Stamped log book) (w : SideLevel) : Stamped (log ++ [w]) (book.level w) := by
  constructor
  · have happ := OrderBook.offset_apply book [w]
    rw [List.countP_append, UInt64.ofNat_add, ← h.offset]
    exact happ
  · intro k e he
    rw [OrderBook.entry_level] at he
    split_ifs at he with hk hw
    · -- the level was written here, and its stamp is the counter
      subst hk
      obtain rfl := Option.some.inj he
      refine ⟨log.length, w, lastAt_concat log w, hw, rfl, ?_⟩
      rw [writesBefore, List.take_left']
      · exact h.offset
      · rfl
    · obtain ⟨i, w', hlast, hw', hsize, hstamp⟩ := h.entry k e he
      refine ⟨i, w', hlast.concat hk, hw', hsize, ?_⟩
      rw [hstamp, writesBefore, writesBefore, List.take_append_of_le_length hlast.lt_length.le]

theorem apply (h : Stamped log book) (log' : List SideLevel) :
    Stamped (log ++ log') (book.apply log') := by
  induction log' using List.reverseRecOn with
  | nil => simpa [OrderBook.apply] using h
  | append_singleton log' w ih =>
      rw [OrderBook.apply_append, ← List.append_assoc]
      exact ih.level w

/-- A snapshot clears the sides, but not the counter. -/
theorem start (h : Stamped log book) (m : OrdersMessage) : Stamped log (book.start m) := by
  cases m with
  | update messageId bids asks => exact h
  | initial messageId bids asks =>
      refine ⟨h.offset, fun k e he => ?_⟩
      obtain ⟨side, p⟩ := k
      cases side <;> cases he

/-- **One message keeps the invariant.** -/
theorem receive (h : Stamped log book) (m : OrdersMessage) :
    Stamped (log ++ m.log) (book.receive m) := by
  rw [OrderBook.receive_eq]
  exact (h.start m).apply m.log

end Stamped

/-- **Every run keeps the invariant.** -/
theorem stamped_after (msgs : List OrdersMessage) :
    Stamped (appliedLevels msgs) (OrderBook.after msgs) := by
  induction msgs using List.reverseRecOn with
  | nil =>
      refine ⟨rfl, fun k e he => ?_⟩
      obtain ⟨side, p⟩ := k
      cases side <;> cases he
  | append_singleton msgs m ih =>
      rw [appliedLevels, List.flatMap_append, List.flatMap_singleton, OrderBook.after,
        List.foldl_concat]
      exact ih.receive m

/-! ### Fewer than `2 ^ 64` levels -/

/-- What is wanted of the stamps of the live levels: they are distinct and below the counter, and in
the order in which the levels were last written. -/
structure RecencyStamps (log : List SideLevel) (book : OrderBook) : Prop where
  distinct : ((book.bids.entries ++ book.asks.entries).map fun e => e.2.2).Nodup
  lt_offset : ∀ e ∈ book.bids.entries ++ book.asks.entries, e.2.2 < book.offset
  written : ∀ side, ∀ e ∈ (book.side side).entries, ∃ i w,
    LastAt log (side, e.1.val) i w ∧ w.2.size = e.2.1 ∧ w.2.size.isZero = false
  ordered : ∀ side side' e e' i i' w w', e ∈ (book.side side).entries →
    e' ∈ (book.side side').entries → LastAt log (side, e.1.val) i w →
    LastAt log (side', e'.1.val) i' w' → (e.2.2 < e'.2.2 ↔ i < i')
  offset : book.offset.toNat = log.countP fun w => !w.2.size.isZero

namespace Stamped

variable {log : List SideLevel} {book : OrderBook}

theorem toNat_offset (h : Stamped log book) (hfew : log.length < 2 ^ 64) :
    book.offset.toNat = log.countP SideLevel.isWrite := by
  rw [h.offset]
  exact UInt64.toNat_ofNat_of_lt' (lt_of_le_of_lt List.countP_le_length hfew)

/-- The stamp of a live level, as a number. -/
theorem exists_lastAt (h : Stamped log book) (hfew : log.length < 2 ^ 64) {side : Side}
    {e : Price × Quantity × UInt64} (he : e ∈ (book.side side).entries) :
    ∃ i w, LastAt log (side, e.1.val) i w ∧ w.isWrite ∧ w.2.size = e.2.1 ∧
      e.2.2.toNat = writesBefore log i := by
  obtain ⟨i, w, hlast, hw, hsize, hstamp⟩ :=
    h.entry (side, e.1.val) e (BTreeMap.getKeyValue_of_mem he)
  refine ⟨i, w, hlast, hw, hsize, ?_⟩
  have hle := (writesBefore_le log i).trans List.countP_le_length
  rw [hstamp]
  exact UInt64.toNat_ofNat_of_lt' (lt_of_le_of_lt hle hfew)

/-- **Stamps are in the order of writing.** -/
theorem lt_iff (h : Stamped log book) (hfew : log.length < 2 ^ 64) {side side' : Side}
    {e e' : Price × Quantity × UInt64} {i i' : ℕ} {w w' : SideLevel}
    (he : e ∈ (book.side side).entries) (he' : e' ∈ (book.side side').entries)
    (hi : LastAt log (side, e.1.val) i w) (hi' : LastAt log (side', e'.1.val) i' w') :
    e.2.2 < e'.2.2 ↔ i < i' := by
  obtain ⟨j, v, hj, hv, -, hstamp⟩ := h.exists_lastAt hfew he
  obtain ⟨j', v', hj', hv', -, hstamp'⟩ := h.exists_lastAt hfew he'
  obtain rfl := hi.unique hj
  obtain rfl := hi'.unique hj'
  rw [UInt64.lt_iff_toNat_lt, hstamp, hstamp']
  rcases Nat.lt_trichotomy i i' with hlt | heq | hlt
  · exact iff_of_true (writesBefore_lt hj.level hv hlt) hlt
  · rw [heq]
    exact iff_of_false (Nat.lt_irrefl _) (Nat.lt_irrefl _)
  · exact iff_of_false (Nat.lt_asymm (writesBefore_lt hj'.level hv' hlt)) (Nat.lt_asymm hlt)

/-- Two live levels with one stamp are one level. -/
theorem eq_of_stamp_eq (h : Stamped log book) (hfew : log.length < 2 ^ 64) {side side' : Side}
    {e e' : Price × Quantity × UInt64} (he : e ∈ (book.side side).entries)
    (he' : e' ∈ (book.side side').entries) (heq : e.2.2 = e'.2.2) :
    side = side' ∧ e.1.val = e'.1.val := by
  obtain ⟨i, w, hi, -⟩ := h.exists_lastAt hfew he
  obtain ⟨i', w', hi', -⟩ := h.exists_lastAt hfew he'
  have hlt := (h.lt_iff hfew he he' hi hi').not.1 (heq ▸ UInt64.lt_irrefl _)
  have hgt := (h.lt_iff hfew he' he hi' hi).not.1 (heq ▸ UInt64.lt_irrefl _)
  obtain rfl : i = i' := by omega
  obtain rfl := Option.some.inj (hi.level.symm.trans hi'.level)
  exact Prod.mk.injEq .. ▸ hi.key.symm.trans hi'.key

theorem recencyStamps (h : Stamped log book) (hfew : log.length < 2 ^ 64) :
    RecencyStamps log book := by
  have hmem : ∀ e ∈ book.bids.entries ++ book.asks.entries,
      ∃ side, e ∈ (book.side side).entries := fun e he =>
    (List.mem_append.1 he).elim (fun he => ⟨.bid, he⟩) fun he => ⟨.ask, he⟩
  have hside : ∀ side, ((book.side side).entries.map fun e => e.2.2).Nodup := fun side => by
    refine List.pairwise_map.2 ((book.side side).sorted.imp_of_mem ?_)
    intro e e' he he' hlt heq
    exact absurd (h.eq_of_stamp_eq hfew he he' heq).2 hlt.ne
  refine ⟨?_, ?_, ?_, ?_, h.toNat_offset hfew⟩
  · rw [List.map_append, List.nodup_append]
    refine ⟨hside .bid, hside .ask, ?_⟩
    rintro _ hbid _ hask heq
    obtain ⟨e, he, rfl⟩ := List.mem_map.1 hbid
    obtain ⟨e', he', rfl⟩ := List.mem_map.1 hask
    have hbook : e ∈ (book.side .bid).entries := he
    have hbook' : e' ∈ (book.side .ask).entries := he'
    exact absurd (h.eq_of_stamp_eq hfew hbook hbook' heq).1 (by decide)
  · intro e he
    obtain ⟨side, he⟩ := hmem e he
    obtain ⟨i, w, hi, hw, -, hstamp⟩ := h.exists_lastAt hfew he
    have hlt := writesBefore_lt hi.level hw hi.lt_length
    rw [UInt64.lt_iff_toNat_lt, hstamp, h.toNat_offset hfew]
    exact hlt.trans_le (writesBefore_le log log.length)
  · intro side e he
    obtain ⟨i, w, hi, hw, hsize, -⟩ := h.exists_lastAt hfew he
    exact ⟨i, w, hi, hsize, by simpa [SideLevel.isWrite] using hw⟩
  · intro side side' e e' i i' w w' he he' hi hi'
    exact h.lt_iff hfew he he' hi hi'

end Stamped

/-- **The recency stamps**: in every run of fewer than `2 ^ 64` levels, the stamps of the live
levels of both sides are distinct, below the counter, and in the order of writing; and the counter
is the number of levels of nonzero size handled, and never decreases. -/
theorem recency_stamps (msgs : List OrdersMessage) (hfew : (appliedLevels msgs).length < 2 ^ 64) :
    RecencyStamps (appliedLevels msgs) (OrderBook.after msgs) ∧
      ∀ before later, msgs = before ++ later →
        (OrderBook.after before).offset ≤ (OrderBook.after msgs).offset := by
  refine ⟨(stamped_after msgs).recencyStamps hfew, ?_⟩
  rintro before later rfl
  have happ : appliedLevels (before ++ later) = appliedLevels before ++ appliedLevels later :=
    List.flatMap_append
  have hbefore : (appliedLevels before).length < 2 ^ 64 := by
    rw [happ, List.length_append] at hfew
    omega
  rw [UInt64.le_iff_toNat_le, (stamped_after before).toNat_offset hbefore,
    (stamped_after (before ++ later)).toNat_offset hfew, happ, List.countP_append]
  exact Nat.le_add_right _ _

/-- A bid and an ask, the bid overwritten, a snapshot: the counter goes on. -/
theorem recency_stamps_sample :
    let bid : OrderbookResponsePriceLevel := ⟨⟨⟨99, 0⟩⟩, ⟨⟨1, 0⟩⟩⟩
    let ask : OrderbookResponsePriceLevel := ⟨⟨⟨101, 0⟩⟩, ⟨⟨1, 0⟩⟩⟩
    (OrderBook.after [.initial 1 [bid] [ask], .update 2 (some [bid]) none]).offset ≤
      (OrderBook.after [.initial 1 [bid] [ask], .update 2 (some [bid]) none,
        .initial 3 [bid] []]).offset ∧
      (OrderBook.after [.initial 1 [bid] [ask], .update 2 (some [bid]) none,
        .initial 3 [bid] []]).offset = 4 := by
  intro bid ask
  have hstamps := recency_stamps [.initial 1 [bid] [ask], .update 2 (some [bid]) none,
    .initial 3 [bid] []] (by decide)
  exact ⟨hstamps.2 [.initial 1 [bid] [ask], .update 2 (some [bid]) none] [.initial 3 [bid] []] rfl,
    UInt64.toNat_inj.1 (hstamps.1.offset.trans (by decide))⟩

end MarketMaker
