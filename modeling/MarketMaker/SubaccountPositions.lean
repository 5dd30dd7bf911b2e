/-
**When the positions a consumer keeps are those of the account.**

A consumer of the channel of positions keeps, for each identifier, the last position it received.
The account's positions are those its latest snapshot lists, then overwritten market by market by
the later updates.  A snapshot identifies a position by its market, an update by an identifier of
the exchange's own; and a snapshot sends nothing for the positions that are gone.  So a position
that was kept open may stay so although the account has another one, or none, in its market.

* `keptPosition`, `accountAfter` — what the consumer keeps, and what the account holds;
* `Mirrors` — the open positions kept are those of the account, one for each market;
* `IdentifiersFollow` — **a position reported open is reported again under its identifier if and
  only if it was superseded**, by a later report of its market or a later snapshot;
* `closed_position_is_kept` — a position of a snapshot, closed by an update, is kept open;
* `positions_mirrored_of_identifiersFollow` — **the positions are mirrored where identifiers
  follow**, and nowhere else if no identifier is used for two markets.
-/

import MarketMaker.SubaccountSends
import MarketMaker.Transition

set_option relaxedAutoImplicit false
set_option autoImplicit false

namespace MarketMaker

/-! ### The consumer -/

section Consumer

variable {D F : Type}

/-- The positions among the values sent. -/
def positionsIn (sent : List (SubaccountSend D F)) : List (CcxtPosition D) :=
  sent.filterMap fun
    | .balance _ => none
    | .position p => some p

/-- The position a consumer keeps for an identifier: the last one it received. -/
def keptPosition (sent : List (SubaccountSend D F)) (id : String) : Option (CcxtPosition D) :=
  LastWrite.last CcxtPosition.id (positionsIn sent) id

end Consumer

/-! ### The account -/

/-- The report of a position is of an open one: its size is not zero. -/
def PositionReport.IsOpen (r : PositionReport) : Prop := r.size.isZero = false

/-- What a message makes of the account's positions, kept by market: a snapshot replaces them, an
update overwrites those it reports. -/
def accountStep (account : String → Option PositionReport) (m : SubaccountsMessage) :
    String → Option PositionReport :=
  match m with
  | .initial _ => LastWrite.apply PositionReport.market some (fun _ => none) m.positionReports
  | .update _ => LastWrite.apply PositionReport.market some account m.positionReports

/-- The account's positions after some messages. -/
def accountAfter (msgs : List SubaccountsMessage) : String → Option PositionReport :=
  msgs.foldl accountStep fun _ => none

/-- **The open positions kept are those of the account**: each has its market's side, size and
entry price, and each open position of the account is kept once. -/
structure Mirrors {D : Type} (num : D → ℚ) (kept : String → Option (CcxtPosition D))
    (account : String → Option PositionReport) : Prop where
  listed : ∀ id p, kept id = some p → num p.contracts ≠ 0 →
    ∃ r, account p.symbol = some r ∧ r.IsOpen ∧ p.side = CcxtPositionSide.from r.side ∧
      num p.contracts = r.size.inner.val ∧ num p.entryPrice = r.entryPrice.val
  held : ∀ market r, account market = some r → r.IsOpen →
    ∃! id, ∃ p, kept id = some p ∧ p.symbol = market ∧ num p.contracts ≠ 0

/-! ### The history of the positions -/

/-- What happens to the positions: a snapshot comes, and positions are reported. -/
inductive PositionEvent
  | snapshot
  | report (r : PositionReport)
deriving DecidableEq

/-- The report of an event. -/
def PositionEvent.reported : PositionEvent → Option PositionReport
  | .snapshot => none
  | .report r => some r

/-- The events of a message. -/
def SubaccountsMessage.events (m : SubaccountsMessage) : List PositionEvent :=
  match m with
  | .initial _ => .snapshot :: m.positionReports.map .report
  | .update _ => m.positionReports.map .report

/-- The events of some messages. -/
def positionEvents (msgs : List SubaccountsMessage) : List PositionEvent :=
  msgs.flatMap SubaccountsMessage.events

/-- The identifier of the report is used again. -/
def IdentifierAgain (r : PositionReport) (later : List PositionEvent) : Prop :=
  ∃ s, .report s ∈ later ∧ s.identifier = r.identifier

/-- The report is superseded: a snapshot comes, or another report of its market. -/
def Superseded (r : PositionReport) (later : List PositionEvent) : Prop :=
  .snapshot ∈ later ∨ ∃ s, .report s ∈ later ∧ s.market = r.market

/-- **Identifiers follow the positions**: a position reported open is reported again under its
identifier if and only if it is superseded. -/
def IdentifiersFollow (msgs : List SubaccountsMessage) : Prop :=
  ∀ before r later, positionEvents msgs = before ++ .report r :: later → r.IsOpen →
    (IdentifierAgain r later ↔ Superseded r later)

/-- No identifier is used for two markets. -/
def OneMarketEach (msgs : List SubaccountsMessage) : Prop :=
  ∀ r s, .report r ∈ positionEvents msgs → .report s ∈ positionEvents msgs →
    r.identifier = s.identifier → r.market = s.market

/-! ### What the account holds -/

/-- What an event makes of the account's positions. -/
def eventStep (account : String → Option PositionReport) :
    PositionEvent → String → Option PositionReport
  | .snapshot => fun _ => none
  | .report r => Function.update account r.market (some r)

theorem accountStep_eq (account : String → Option PositionReport) (m : SubaccountsMessage) :
    accountStep account m = m.events.foldl eventStep account := by
  cases m <;> simp [accountStep, SubaccountsMessage.events, LastWrite.apply, List.foldl_map,
    eventStep]

theorem accountAfter_eq (msgs : List SubaccountsMessage) :
    accountAfter msgs = (positionEvents msgs).foldl eventStep fun _ => none := by
  rw [accountAfter, positionEvents, List.foldl_flatMap]
  congr 1
  funext account m
  exact accountStep_eq account m

/-- **The account holds the reports that were not superseded.** -/
theorem foldl_eventStep_eq_some_iff {events : List PositionEvent} {market : String}
    {r : PositionReport} :
    events.foldl eventStep (fun _ => none) market = some r ↔
      ∃ before later, events = before ++ .report r :: later ∧ r.market = market ∧
        ¬ Superseded r later := by
  induction events using List.reverseRecOn with
  | nil => simp
  | append_singleton events e ih =>
      rw [List.foldl_concat]
      simp only [Transition.concat_eq_append_cons_iff]
      cases e with
      | snapshot =>
          refine iff_of_false (by simp [eventStep]) ?_
          rintro ⟨before, later, ⟨-, -, heq⟩ | ⟨later', rfl, -⟩, -, hnot⟩
          · cases heq
          · exact hnot (Or.inl (by simp))
      | report s =>
          by_cases hs : s.market = market
          · rw [eventStep, hs, Function.update_self]
            constructor
            · rintro h
              obtain rfl := Option.some.inj h
              exact ⟨events, [], Or.inl ⟨rfl, rfl, rfl⟩, hs, by simp [Superseded]⟩
            · rintro ⟨before, later, ⟨-, -, heq⟩ | ⟨later', rfl, -⟩, hr, hnot⟩
              · cases heq
                rfl
              · exact absurd (Or.inr ⟨s, by simp, hs.trans hr.symm⟩) hnot
          · rw [eventStep, Function.update_of_ne (Ne.symm hs), ih]
            constructor
            · rintro ⟨before, later, rfl, hr, hnot⟩
              refine ⟨before, later ++ [.report s], Or.inr ⟨later, rfl, rfl⟩, hr, fun h => hnot ?_⟩
              rcases h with h | ⟨s', h, hs'⟩
              · exact Or.inl (by simpa using h)
              · rcases List.mem_append.1 h with h | h
                · exact Or.inr ⟨s', h, hs'⟩
                · rw [List.mem_singleton, PositionEvent.report.injEq] at h
                  exact absurd (h ▸ hs'.trans hr) hs
            · rintro ⟨before, later, ⟨rfl, rfl, heq⟩ | ⟨later', rfl, rfl⟩, hr, hnot⟩
              · cases heq
                exact absurd hr hs
              · refine ⟨before, later', rfl, hr, fun h => hnot ?_⟩
                exact h.imp (List.mem_append_left _) fun ⟨s', h, hs'⟩ =>
                  ⟨s', List.mem_append_left _ h, hs'⟩

/-! ### What the consumer keeps -/

theorem reported_eq_some_iff {e : PositionEvent} {r : PositionReport} :
    e.reported = some r ↔ e = .report r := by
  cases e <;> simp [PositionEvent.reported]

theorem filterMap_reported_positionEvents (msgs : List SubaccountsMessage) :
    (positionEvents msgs).filterMap PositionEvent.reported =
      msgs.flatMap SubaccountsMessage.positionReports := by
  have hreports : ∀ reports : List PositionReport,
      (reports.map PositionEvent.report).filterMap PositionEvent.reported = reports := by
    intro reports
    induction reports with
    | nil => rfl
    | cons r reports ih => simp [PositionEvent.reported, ih]
  rw [positionEvents, List.filterMap_flatMap]
  congr 1
  funext m
  cases m with
  | initial s =>
      rw [SubaccountsMessage.events, List.filterMap_cons_none rfl]
      exact hreports _
  | update contents => exact hreports _

/-- The last report with an identifier is one after which the identifier is not used again. -/
theorem last_reported_eq_some_iff {events : List PositionEvent} {id : String}
    {r : PositionReport} :
    LastWrite.last PositionReport.identifier (events.filterMap PositionEvent.reported) id =
        some r ↔
      ∃ before later, events = before ++ .report r :: later ∧ r.identifier = id ∧
        ¬ IdentifierAgain r later := by
  rw [LastWrite.last_eq_some_iff]
  constructor
  · rintro ⟨before, later, hsplit, hid, hlater⟩
    obtain ⟨events₁, events₂, rfl, -, hcons⟩ := List.filterMap_eq_append_iff.1 hsplit
    obtain ⟨skipped, e, rest, rfl, -, he, rfl⟩ := List.filterMap_eq_cons_iff.1 hcons
    obtain rfl := reported_eq_some_iff.1 he
    refine ⟨events₁ ++ skipped, rest, by simp, hid, ?_⟩
    rintro ⟨s, hs, heq⟩
    exact hlater s (List.mem_filterMap.2 ⟨_, hs, rfl⟩) (heq.trans hid)
  · rintro ⟨before, later, rfl, hid, hnot⟩
    refine ⟨before.filterMap PositionEvent.reported, later.filterMap PositionEvent.reported,
      by simp [PositionEvent.reported], hid, fun s hs heq => hnot ⟨s, ?_, heq.trans hid.symm⟩⟩
    obtain ⟨e, he, hrep⟩ := List.mem_filterMap.1 hs
    exact reported_eq_some_iff.1 hrep ▸ he

section Sent

variable {D F : Type} [DecimalText D] [DecimalOps D] [ToF64 D F]

theorem positionsIn_sends (m : SubaccountsMessage) :
    positionsIn (m.sends D) = m.positionReports.map fun r => r.toCcxt D := by
  have hpositions : positionsIn (F := F) (m.positionReports.map fun r => .position (r.toCcxt D)) =
      m.positionReports.map fun r => r.toCcxt D := by
    simp [positionsIn, List.filterMap_map]
  have hbalances : positionsIn (D := D) ((m.balance D).map SubaccountSend.balance).toList = [] := by
    cases m.balance D <;> rfl
  rw [positionsIn] at hpositions hbalances ⊢
  cases m <;> simp only [SubaccountsMessage.sends, List.filterMap_append, hpositions, hbalances,
    List.nil_append, List.append_nil]

/-- **What is kept for an identifier** is the position last reported with it. -/
theorem keptPosition_eq (msgs : List SubaccountsMessage) (id : String) :
    keptPosition (subaccountSends D msgs) id =
      (LastWrite.last PositionReport.identifier
        ((positionEvents msgs).filterMap PositionEvent.reported) id).map fun r => r.toCcxt D := by
  have hsent : positionsIn (subaccountSends D msgs) =
      (msgs.flatMap SubaccountsMessage.positionReports).map fun r => r.toCcxt D := by
    rw [subaccountSends, positionsIn, List.filterMap_flatMap, List.map_flatMap]
    congr 1
    funext m
    exact positionsIn_sends m
  rw [keptPosition, hsent, filterMap_reported_positionEvents]
  exact LastWrite.last_map _ (fun _ => rfl) _ _

/-- Every number of the messages converts to a decimal of its value. -/
def ConvertsExactly (num : D → ℚ) (msgs : List SubaccountsMessage) : Prop :=
  ∀ m ∈ msgs, ∀ v ∈ m.numbers, ∃ d, bigDecimalToDecimal v = some d ∧ num d = v.val

omit [DecimalOps D] in
theorem ConvertsExactly.converts {num : D → ℚ} {msgs : List SubaccountsMessage}
    (h : ConvertsExactly num msgs) : ∀ m ∈ msgs, m.Converts D := by
  intro m hm v hv
  obtain ⟨d, hd, -⟩ := h m hm v hv
  exact Option.isSome_iff_exists.2 ⟨d, hd⟩

theorem ConvertsExactly.num_converted {num : D → ℚ} {msgs : List SubaccountsMessage}
    (h : ConvertsExactly num msgs) {m : SubaccountsMessage} (hm : m ∈ msgs) {v : BigDecimal}
    (hv : v ∈ m.numbers) : num (converted D v) = v.val := by
  obtain ⟨d, hd, hnum⟩ := h m hm v hv
  rw [converted, hd, Option.getD_some, hnum]

/-- The numbers of a report are kept by its position. -/
theorem ConvertsExactly.toCcxt {num : D → ℚ} {msgs : List SubaccountsMessage}
    (h : ConvertsExactly num msgs) {r : PositionReport} (hr : .report r ∈ positionEvents msgs) :
    num (r.toCcxt D).contracts = r.size.inner.val ∧
      num (r.toCcxt D).entryPrice = r.entryPrice.val ∧
      (num (r.toCcxt D).contracts ≠ 0 ↔ r.IsOpen) := by
  have hmem : r ∈ (positionEvents msgs).filterMap PositionEvent.reported :=
    List.mem_filterMap.2 ⟨_, hr, rfl⟩
  rw [filterMap_reported_positionEvents] at hmem
  obtain ⟨m, hm, hrm⟩ := List.mem_flatMap.1 hmem
  have hsize : num (r.toCcxt D).contracts = r.size.inner.val :=
    h.num_converted hm (m.positionNumbers_subset hrm (by simp [positionNumbers]))
  refine ⟨hsize, h.num_converted hm (m.positionNumbers_subset hrm (by simp [positionNumbers])), ?_⟩
  rw [hsize, PositionReport.IsOpen, Quantity.isZero, ne_eq, ← BigDecimal.isZero_iff,
    Bool.not_eq_true]

theorem keptPosition_eq_some_iff {msgs : List SubaccountsMessage} {id : String}
    {p : CcxtPosition D} :
    keptPosition (subaccountSends D msgs) id = some p ↔
      ∃ before r later, positionEvents msgs = before ++ .report r :: later ∧ r.identifier = id ∧
        ¬ IdentifierAgain r later ∧ r.toCcxt D = p := by
  rw [keptPosition_eq, Option.map_eq_some_iff]
  simp only [last_reported_eq_some_iff]
  constructor
  · rintro ⟨r, ⟨before, later, hsplit, hid, hnot⟩, hp⟩
    exact ⟨before, r, later, hsplit, hid, hnot, hp⟩
  · rintro ⟨before, r, later, hsplit, hid, hnot, hp⟩
    exact ⟨r, ⟨before, later, hsplit, hid, hnot⟩, hp⟩

theorem accountAfter_eq_some_iff {msgs : List SubaccountsMessage} {market : String}
    {r : PositionReport} :
    accountAfter msgs market = some r ↔
      ∃ before later, positionEvents msgs = before ++ .report r :: later ∧ r.market = market ∧
        ¬ Superseded r later := by
  rw [accountAfter_eq, foldl_eventStep_eq_some_iff]

/-! ### Where the positions are mirrored -/

variable {num : D → ℚ} {msgs : List SubaccountsMessage}

/-- Where identifiers follow the positions, the account's positions are mirrored. -/
theorem IdentifiersFollow.mirrors (h : IdentifiersFollow msgs) (hexact : ConvertsExactly num msgs) :
    Mirrors num (keptPosition (subaccountSends D msgs)) (accountAfter msgs) := by
  -- the open reports whose identifier is not used again are those the account holds
  have hkept : ∀ {id p}, keptPosition (subaccountSends D msgs) id = some p →
      num p.contracts ≠ 0 → ∃ r, accountAfter msgs r.market = some r ∧ r.IsOpen ∧
        r.identifier = id ∧ r.toCcxt D = p ∧ .report r ∈ positionEvents msgs := by
    intro id p hp hne
    obtain ⟨before, r, later, hsplit, hid, hnot, rfl⟩ := keptPosition_eq_some_iff.1 hp
    have hr : .report r ∈ positionEvents msgs := by simp [hsplit]
    have hopen := (hexact.toCcxt hr).2.2.1 hne
    have hcurrent := (not_congr (h before r later hsplit hopen)).1 hnot
    exact ⟨r, accountAfter_eq_some_iff.2 ⟨before, later, hsplit, rfl, hcurrent⟩, hopen, hid, rfl,
      hr⟩
  constructor
  · intro id p hp hne
    obtain ⟨r, haccount, hopen, -, rfl, hr⟩ := hkept hp hne
    obtain ⟨hsize, hentry, -⟩ := hexact.toCcxt hr
    exact ⟨r, haccount, hopen, rfl, hsize, hentry⟩
  · intro market r haccount hopen
    obtain ⟨before, later, hsplit, rfl, hcurrent⟩ := accountAfter_eq_some_iff.1 haccount
    have hr : .report r ∈ positionEvents msgs := by simp [hsplit]
    have hnot := (not_congr (h before r later hsplit hopen)).2 hcurrent
    refine ⟨r.identifier, ⟨r.toCcxt D, keptPosition_eq_some_iff.2
      ⟨before, r, later, hsplit, rfl, hnot, rfl⟩, rfl, (hexact.toCcxt hr).2.2.2 hopen⟩, ?_⟩
    rintro id ⟨p, hp, hmarket, hne⟩
    obtain ⟨s, haccount', -, rfl, rfl, -⟩ := hkept hp hne
    have hsame : s.market = r.market := hmarket
    rw [hsame, haccount] at haccount'
    rw [Option.some.inj haccount']

/-- Where the account's positions are mirrored identifiers follow the positions, if none is used for
two markets. -/
theorem Mirrors.identifiersFollow (hone : OneMarketEach msgs) (hexact : ConvertsExactly num msgs)
    (h : Mirrors num (keptPosition (subaccountSends D msgs)) (accountAfter msgs)) :
    IdentifiersFollow msgs := by
  -- a report of the identifier is one of the market
  have hagain : ∀ {before r later}, positionEvents msgs = before ++ .report r :: later →
      IdentifierAgain r later → Superseded r later := by
    rintro before r later hsplit ⟨s, hs, heq⟩
    exact Or.inr ⟨s, hs, hone s r (by simp [hsplit, hs]) (by simp [hsplit]) heq⟩
  intro before r later hsplit hopen
  refine ⟨hagain hsplit, fun hsuper => ?_⟩
  by_contra hnot
  have hr : .report r ∈ positionEvents msgs := by simp [hsplit]
  have hkept : keptPosition (subaccountSends D msgs) r.identifier = some (r.toCcxt D) :=
    keptPosition_eq_some_iff.2 ⟨before, r, later, hsplit, rfl, hnot, rfl⟩
  have hne := (hexact.toCcxt hr).2.2.2 hopen
  -- the account has a later report of the market, which is kept as well
  obtain ⟨s, haccount, hsopen, -⟩ := h.listed _ _ hkept hne
  obtain ⟨before', later', hsplit', hmarket, hcurrent⟩ := accountAfter_eq_some_iff.1 haccount
  have hs : .report s ∈ positionEvents msgs := by simp [hsplit']
  have hskept : keptPosition (subaccountSends D msgs) s.identifier = some (s.toCcxt D) :=
    keptPosition_eq_some_iff.2 ⟨before', s, later', hsplit', rfl,
      fun hagain' => hcurrent (hagain hsplit' hagain'), rfl⟩
  obtain ⟨id, -, hunique⟩ := h.held _ s haccount hsopen
  have hid : s.identifier = r.identifier :=
    (hunique _ ⟨_, hskept, hmarket, (hexact.toCcxt hs).2.2.2 hsopen⟩).trans
      (hunique _ ⟨_, hkept, rfl, hne⟩).symm
  rcases Transition.append_cons_trichotomy (hsplit.symm.trans hsplit') with
    hlater | hlater | ⟨heq, rfl⟩
  · exact hnot ⟨s, hlater, hid⟩
  · exact hcurrent (Or.inr ⟨r, hlater, hmarket.symm⟩)
  · obtain rfl := PositionEvent.report.inj heq
    exact hcurrent hsuper

theorem positionEvents_append (msgs msgs' : List SubaccountsMessage) :
    positionEvents (msgs ++ msgs') = positionEvents msgs ++ positionEvents msgs' :=
  List.flatMap_append

/-- **Where the positions are mirrored.**  In every run whose numbers convert exactly, after every
message after which identifiers follow the positions, the open positions a consumer keeps are those
of the account; and if no identifier is used for two markets, after no other message. -/
theorem positions_mirrored_of_identifiersFollow (num : D → ℚ) (msgs : List SubaccountsMessage)
    (hexact : ConvertsExactly num msgs) :
    (∀ before later, msgs = before ++ later → ∀ fuel, before.length < fuel →
        IdentifiersFollow before →
        Mirrors num (keptPosition (handleSubaccountFeed (D := D) (F := F) fuel before).1)
          (accountAfter before)) ∧
      (OneMarketEach msgs → ∀ before later, msgs = before ++ later →
        ∀ fuel, before.length < fuel →
        Mirrors num (keptPosition (handleSubaccountFeed (D := D) (F := F) fuel before).1)
          (accountAfter before) →
        IdentifiersFollow before) := by
  have hprefix : ∀ before later, msgs = before ++ later → ConvertsExactly num before :=
    fun before later hsplit m hm => hexact m (hsplit ▸ List.mem_append_left _ hm)
  constructor
  · intro before later hsplit fuel hfuel hfollow
    have hbefore := hprefix before later hsplit
    rw [sent_handleSubaccountFeed hbefore.converts hfuel]
    exact hfollow.mirrors hbefore
  · intro hone before later hsplit fuel hfuel hmirrors
    have hbefore := hprefix before later hsplit
    rw [sent_handleSubaccountFeed hbefore.converts hfuel] at hmirrors
    rw [hsplit, OneMarketEach, positionEvents_append] at hone
    exact hmirrors.identifiersFollow (fun r s hr hs =>
      hone r s (List.mem_append_left _ hr) (List.mem_append_left _ hs)) hbefore

end Sent

/-! ### Runs of two messages -/

/-- A snapshot with an open position, or with none. -/
private def snapshotOf (positions : AList fun _ : String => PerpetualPosition) :
    SubaccountsMessage :=
  .initial { freeCollateral := ⟨0, 0⟩, assetPositions := ∅, openPerpetualPositions := positions }

/-- An update of one position, under an identifier of its own. -/
private def updateOf (size : ℤ) : SubaccountsMessage :=
  .update [⟨none, some [⟨"7f", "BTC-USD", .long, ⟨⟨size, 0⟩⟩, ⟨⟨100, 0⟩⟩, none⟩]⟩]

/-- **A position closed by an update is kept open** if a snapshot reported it. -/
theorem closed_position_is_kept :
    letI := exactOps fun _ => none
    ∃ msgs, msgs = [snapshotOf ((∅ : AList fun _ : String => PerpetualPosition).insert "BTC-USD"
        ⟨"BTC-USD", .long, ⟨⟨2, 0⟩⟩, ⟨⟨100, 0⟩⟩, ⟨0, 0⟩⟩), updateOf 0] ∧
      ¬ Mirrors id (keptPosition (handleSubaccountFeed (D := ℚ) 3 msgs).1)
        (accountAfter msgs) := by
  let : DecimalOps ℚ := exactOps fun _ => none
  refine ⟨_, rfl, fun h => ?_⟩
  obtain ⟨r, hr, hopen, -⟩ := h.listed "BTC-USD" ⟨"BTC-USD", "BTC-USD", .long, 2, 1, 100, 0, 0⟩
    (by decide +kernel) (by decide +kernel)
  obtain rfl : (⟨"7f", "BTC-USD", .long, ⟨⟨0, 0⟩⟩, ⟨⟨100, 0⟩⟩, none⟩ : PositionReport) = r :=
    Option.some.inj hr
  cases hopen

/-- A position opened and closed by updates is mirrored. -/
theorem positions_mirrored_sample :
    letI := exactOps fun _ => none
    Mirrors id (keptPosition (handleSubaccountFeed (D := ℚ) 4
      [snapshotOf ∅, updateOf 2, updateOf 0]).1)
      (accountAfter [snapshotOf ∅, updateOf 2, updateOf 0]) := by
  let : DecimalOps ℚ := exactOps fun _ => none
  refine (positions_mirrored_of_identifiersFollow id [snapshotOf ∅, updateOf 2, updateOf 0] ?_).1 _
    [] rfl 4 (by decide) ?_
  · have hnumbers : ∀ m ∈ [snapshotOf ∅, updateOf 2, updateOf 0], ∀ v ∈ m.numbers,
        v ∈ ([⟨0, 0⟩, ⟨2, 0⟩, ⟨100, 0⟩] : List BigDecimal) := by decide
    have hconv : ∀ v ∈ ([⟨0, 0⟩, ⟨2, 0⟩, ⟨100, 0⟩] : List BigDecimal),
        bigDecimalToDecimal v = some v.val := by decide +kernel
    exact fun m hm v hv => ⟨v.val, hconv v (hnumbers m hm v hv), rfl⟩
  · intro before r later hsplit hopen
    rcases before with _ | ⟨e, _ | ⟨e', _ | ⟨e'', before⟩⟩⟩
    · cases hsplit
    · cases hsplit
      exact iff_of_true ⟨_, List.mem_singleton_self _, rfl⟩
        (Or.inr ⟨_, List.mem_singleton_self _, rfl⟩)
    · cases hsplit
      cases hopen
    · cases before <;> cases hsplit

end MarketMaker
