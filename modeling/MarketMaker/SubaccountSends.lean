/-
**What the subaccount feed sends, message by message.**

A message reports sizes of assets and positions.  When its numbers convert, handling it sends one
position for each position reported and at most one balance, and these can be written down without
running the handler.

* `SubaccountsMessage.assetReports`, `SubaccountsMessage.positionReports` — what a message reports;
* `SubaccountsMessage.sends` — what it makes the handler send;
* `onSubaccountsMessage_eq` — **the handler sends that**;
* `handleSubaccountFeed_returns` — **the handler returns when its feed closes**;
* `sent_handleSubaccountFeed` — and over a run, the sends of its messages in order.
-/

import MarketMaker.LastWrite
import MarketMaker.SubaccountFeed

set_option relaxedAutoImplicit false
set_option autoImplicit false

namespace MarketMaker

/-! ### What a message reports -/

/-- A position a message reports, with the identifier the handler gives it. -/
structure PositionReport where
  identifier : String
  market : String
  side : PositionSide
  size : Quantity
  entryPrice : Price
  unrealizedPnl : Option BigDecimal
deriving DecidableEq, Repr

/-- The positions a message reports, in order. -/
def SubaccountsMessage.positionReports : SubaccountsMessage → List PositionReport
  | .initial s => s.openPerpetualPositions.entries.map fun e =>
      ⟨e.2.market, e.2.market, e.2.side, e.2.size, e.2.entryPrice, some e.2.unrealizedPnl⟩
  | .update contents => contents.flatMap fun content =>
      (content.perpetualPositions.getD []).map fun p =>
        ⟨p.positionId, p.market, p.side, p.size, p.entryPrice, p.unrealizedPnl⟩

/-- The sizes of assets a message reports, in order. -/
def SubaccountsMessage.assetReports : SubaccountsMessage → List (String × BigDecimal)
  | .initial s => s.assetPositions.entries.map fun e => (e.1, e.2.size.inner)
  | .update contents => contents.flatMap fun content =>
      (content.assetPositions.getD []).map fun a => (a.symbol, a.size.inner)

/-! ### What a message makes the handler send -/

section Sends

variable (D : Type) {F : Type} [DecimalText D] [DecimalOps D] [ToF64 D F]

/-- A number that converts, as a decimal. -/
def converted (v : BigDecimal) : D := (bigDecimalToDecimal v).getD DecimalOps.zero

/-- A number that converts, as a floating-point one. -/
def convertedF64 (v : BigDecimal) : F := (bigDecimalToF64 D v).getD (ToF64.zero D)

def PositionReport.toCcxt (r : PositionReport) : CcxtPosition D where
  id := r.identifier
  symbol := r.market
  side := CcxtPositionSide.from r.side
  contracts := converted D r.size.inner
  contractSize := DecimalOps.one
  entryPrice := converted D r.entryPrice.inner
  unrealizedPnl := (r.unrealizedPnl.map (converted D)).getD DecimalOps.zero
  liquidationPrice := DecimalOps.zero

/-- The balances collected from reports of assets. -/
def freeOf (reports : List (String × BigDecimal)) : AList fun _ : String => F :=
  reports.foldl (fun free e => free.insert e.1 (convertedF64 D e.2)) ∅

/-- The collateral currency's balance in a snapshot. -/
def usdcBalance (s : Subaccount) : F :=
  s.assetPositions.entries.foldl
    (fun usdc e => if e.1 = "USDC" then convertedF64 D e.2.size.inner else usdc)
    (convertedF64 D s.freeCollateral)

/-- The balance a message makes the handler send, if any. -/
def SubaccountsMessage.balance : SubaccountsMessage → Option (CcxtBalance F)
  | .initial s => some { free := (∅ : AList fun _ : String => F).insert "USDC" (usdcBalance D s) }
  | .update contents =>
      let free := freeOf D (SubaccountsMessage.update contents).assetReports
      if free.entries.isEmpty then none else some { free := free }

/-- What a message makes the handler send: a snapshot first the balance, an update last. -/
def SubaccountsMessage.sends (m : SubaccountsMessage) : List (SubaccountSend D F) :=
  let positions := m.positionReports.map fun r => .position (r.toCcxt D)
  let balances := ((m.balance D).map .balance).toList
  match m with
  | .initial _ => balances ++ positions
  | .update _ => positions ++ balances

end Sends

/-! ### The handler sends that -/

variable {D F : Type} [DecimalText D] [DecimalOps D] [ToF64 D F]

omit [ToF64 D F] in
theorem bigDecimalToDecimal_eq {v : BigDecimal} (h : (bigDecimalToDecimal v : Option D).isSome) :
    bigDecimalToDecimal v = some (converted D v) := by
  obtain ⟨d, hd⟩ := Option.isSome_iff_exists.1 h
  rw [converted, hd, Option.getD_some]

omit [DecimalOps D] in
theorem bigDecimalToF64_eq {v : BigDecimal} (h : (bigDecimalToDecimal v : Option D).isSome) :
    bigDecimalToF64 D v = some (convertedF64 D v : F) := by
  obtain ⟨d, hd⟩ := Option.isSome_iff_exists.1 h
  rw [convertedF64, bigDecimalToF64, hd, Option.map_some, Option.getD_some]

omit [ToF64 D F] in
theorem sendPosition_eq {r : PositionReport}
    (h : ∀ v ∈ positionNumbers r.size r.entryPrice r.unrealizedPnl,
      (bigDecimalToDecimal v : Option D).isSome) :
    (sendPosition r.identifier r.market r.side r.size r.entryPrice r.unrealizedPnl :
      Sends (SubaccountSend D F) Unit) = ⟨[.position (r.toCcxt D)], some ()⟩ := by
  rw [sendPosition, bigDecimalToDecimal_eq (h _ (by simp [positionNumbers])),
    bigDecimalToDecimal_eq (h _ (by simp [positionNumbers]))]
  rcases hpnl : r.unrealizedPnl with _ | v
  · simp [PositionReport.toCcxt, hpnl, Sends.send]
  · have hv : bigDecimalToDecimal v = some (converted D v) :=
      bigDecimalToDecimal_eq (h v (by simp [positionNumbers, hpnl]))
    simp [PositionReport.toCcxt, hpnl, hv, Sends.send]

/-- The reports of positions carry numbers of the message. -/
theorem SubaccountsMessage.positionNumbers_subset {m : SubaccountsMessage} {r : PositionReport}
    (hr : r ∈ m.positionReports) {v : BigDecimal}
    (hv : v ∈ positionNumbers r.size r.entryPrice r.unrealizedPnl) : v ∈ m.numbers := by
  cases m with
  | initial s =>
      obtain ⟨e, he, rfl⟩ := List.mem_map.1 hr
      simp only [numbers, List.mem_append, List.mem_flatMap]
      exact Or.inr ⟨e, he, hv⟩
  | update contents =>
      obtain ⟨content, hc, hr⟩ := List.mem_flatMap.1 hr
      obtain ⟨p, hp, rfl⟩ := List.mem_map.1 hr
      simp only [numbers, List.mem_flatMap, List.mem_append]
      exact ⟨content, hc, Or.inr ⟨p, hp, hv⟩⟩

/-- The reports of assets carry numbers of the message. -/
theorem SubaccountsMessage.assetNumber_mem {m : SubaccountsMessage} {e : String × BigDecimal}
    (he : e ∈ m.assetReports) : e.2 ∈ m.numbers := by
  cases m with
  | initial s =>
      obtain ⟨listed, hlisted, rfl⟩ := List.mem_map.1 he
      simp only [numbers, List.cons_append, List.mem_cons, List.mem_append, List.mem_map]
      exact Or.inr (Or.inl ⟨listed, hlisted, rfl⟩)
  | update contents =>
      obtain ⟨content, hc, he⟩ := List.mem_flatMap.1 he
      obtain ⟨a, ha, rfl⟩ := List.mem_map.1 he
      simp only [numbers, List.mem_flatMap, List.mem_append, List.mem_map]
      exact ⟨content, hc, Or.inl ⟨a, ha, rfl⟩⟩

omit [ToF64 D F] in
/-- Positions are sent in the order of their reports. -/
theorem forM_sendPosition {α : Type} {l : List α} (report : α → PositionReport)
    (h : ∀ a ∈ l, ∀ v ∈ positionNumbers (report a).size (report a).entryPrice
      (report a).unrealizedPnl, (bigDecimalToDecimal v : Option D).isSome) :
    (l.forM fun a => (sendPosition (report a).identifier (report a).market (report a).side
        (report a).size (report a).entryPrice (report a).unrealizedPnl :
        Sends (SubaccountSend D F) Unit)) =
      ⟨(l.map report).map fun r => .position (r.toCcxt D), some ()⟩ := by
  rw [Sends.forM_eq fun a ha => sendPosition_eq (h a ha), ← List.map_eq_flatMap, List.map_map]
  rfl

omit [DecimalOps D] in
/-- The assets of a block are collected as they are listed. -/
theorem collectAssets_eq {assets : List AssetPositionUpdate}
    (h : ∀ a ∈ assets, (bigDecimalToDecimal a.size.inner : Option D).isSome)
    (free : AList fun _ : String => F) :
    (collectAssets free assets : Sends (SubaccountSend D F) _) =
      ⟨[], some ((assets.map fun a => (a.symbol, a.size.inner)).foldl
        (fun free e => free.insert e.1 (convertedF64 D e.2)) free)⟩ := by
  rw [collectAssets, Sends.foldlM_eq (g := fun _ => [])
    (h := fun free a => free.insert a.symbol (convertedF64 D a.size.inner))]
  · simp [List.foldl_map]
  · intro a ha free
    rw [bigDecimalToF64_eq (h a ha), Sends.unwrap_some_bind]
    rfl

/-- A block of an update collects its assets and sends its positions. -/
theorem onSubaccountContent_eq {content : SubaccountUpdate}
    (h : (SubaccountsMessage.update [content]).Converts D) (free : AList fun _ : String => F) :
    (onSubaccountContent free content : Sends (SubaccountSend D F) _) =
      ⟨(SubaccountsMessage.update [content]).positionReports.map fun r => .position (r.toCcxt D),
        some ((SubaccountsMessage.update [content]).assetReports.foldl
          (fun free e => free.insert e.1 (convertedF64 D e.2)) free)⟩ := by
  have hassets : ∀ a ∈ content.assetPositions.getD [],
      (bigDecimalToDecimal a.size.inner : Option D).isSome := fun a ha =>
    h _ (SubaccountsMessage.assetNumber_mem (e := (a.symbol, a.size.inner))
      (List.mem_flatMap.2 ⟨content, List.mem_singleton_self _, List.mem_map_of_mem ha⟩))
  have hpositions := forM_sendPosition (D := D) (F := F)
    (l := content.perpetualPositions.getD [])
    (fun p => ⟨p.positionId, p.market, p.side, p.size, p.entryPrice, p.unrealizedPnl⟩)
    fun p hp v hv => h v (SubaccountsMessage.positionNumbers_subset
      (List.mem_flatMap.2 ⟨content, List.mem_singleton_self _, List.mem_map_of_mem hp⟩) hv)
  rw [onSubaccountContent, collectAssets_eq hassets, Sends.bind_of_result rfl, hpositions,
    Sends.bind_of_result rfl]
  simp [Sends.pure_def, SubaccountsMessage.positionReports, SubaccountsMessage.assetReports]

/-- **The handler sends what the message makes it send.** -/
theorem onSubaccountsMessage_eq {m : SubaccountsMessage} (h : m.Converts D) :
    (onSubaccountsMessage () m : Sends (SubaccountSend D F) Unit) = ⟨m.sends D, some ()⟩ := by
  have hnumbers : ∀ r ∈ m.positionReports,
      ∀ v ∈ positionNumbers r.size r.entryPrice r.unrealizedPnl,
        (bigDecimalToDecimal v : Option D).isSome :=
    fun r hr v hv => h v (m.positionNumbers_subset hr hv)
  cases m with
  | initial s =>
      have husdc : s.assetPositions.entries.foldlM (fun usdcBalance e =>
          if e.1 = "USDC" then Sends.unwrap (bigDecimalToF64 D e.2.size.inner)
          else pure usdcBalance) (convertedF64 D s.freeCollateral) =
          (⟨[], some (usdcBalance D s)⟩ : Sends (SubaccountSend D F) F) := by
        rw [Sends.foldlM_eq (g := fun _ => []) (h := fun usdc e =>
          if e.1 = "USDC" then convertedF64 D e.2.size.inner else usdc)]
        · simp [usdcBalance]
        · intro e he usdc
          have hsize := h _ (SubaccountsMessage.assetNumber_mem
            (m := .initial s) (e := (e.1, e.2.size.inner)) (List.mem_map_of_mem he))
          rw [bigDecimalToF64_eq hsize]
          split_ifs <;> rfl
      have hpositions := forM_sendPosition (D := D) (F := F)
        (l := s.openPerpetualPositions.entries)
        (fun e => ⟨e.2.market, e.2.market, e.2.side, e.2.size, e.2.entryPrice,
          some e.2.unrealizedPnl⟩)
        fun e he => hnumbers _ (List.mem_map_of_mem he)
      rw [onSubaccountsMessage, onSubaccountInitial,
        bigDecimalToF64_eq (h _ (by simp [SubaccountsMessage.numbers])), Sends.unwrap_some_bind,
        husdc, Sends.bind_of_result rfl, Sends.bind_of_result rfl, hpositions]
      rfl
  | update contents =>
      have hblocks : contents.foldlM onSubaccountContent (∅ : AList fun _ : String => F) =
          (⟨(SubaccountsMessage.update contents).positionReports.map fun r =>
              .position (r.toCcxt D),
            some (freeOf D (SubaccountsMessage.update contents).assetReports)⟩ :
            Sends (SubaccountSend D F) _) := by
        have hblock : ∀ content ∈ contents, (SubaccountsMessage.update [content]).Converts D := by
          intro content hc v hv
          obtain ⟨_, hmem, hv⟩ := List.mem_flatMap.1 hv
          rw [List.mem_singleton.1 hmem] at hv
          exact h v (List.mem_flatMap.2 ⟨content, hc, hv⟩)
        rw [Sends.foldlM_eq fun content hc free => onSubaccountContent_eq (hblock content hc) free]
        simp [SubaccountsMessage.positionReports, SubaccountsMessage.assetReports, freeOf,
          List.map_flatMap, List.foldl_flatMap]
      rw [onSubaccountsMessage, onSubaccountUpdate, hblocks, Sends.bind_of_result rfl]
      simp only [SubaccountsMessage.sends, SubaccountsMessage.balance]
      split_ifs <;> simp [Sends.pure_def, Sends.send]

/-- What the handler has sent after some messages. -/
def subaccountSends (D : Type) {F : Type} [DecimalText D] [DecimalOps D] [ToF64 D F]
    (msgs : List SubaccountsMessage) : List (SubaccountSend D F) :=
  msgs.flatMap fun m => m.sends D

/-- Handling messages whose numbers convert does not panic. -/
theorem onMessages_onSubaccountsMessage {msgs : List SubaccountsMessage}
    (h : ∀ m ∈ msgs, m.Converts D) :
    ReceiveLoop.onMessages onSubaccountsMessage () msgs =
      (⟨subaccountSends D msgs, some ()⟩ : Sends (SubaccountSend D F) Unit) := by
  rw [ReceiveLoop.onMessages,
    Sends.foldlM_eq (h := fun _ _ => ()) fun m hm _ => onSubaccountsMessage_eq (h m hm)]
  rfl

/-- **The handler returns when its feed closes**, having sent what the messages make it send. -/
theorem handleSubaccountFeed_returns {msgs : List SubaccountsMessage}
    (h : ∀ m ∈ msgs, m.Converts D) {fuel : ℕ} (hfuel : msgs.length < fuel) :
    handleSubaccountFeed (D := D) (F := F) fuel msgs =
      ((ReceiveLoop.onMessages onSubaccountsMessage () msgs).sent, .returned) :=
  ReceiveLoop.loop_stops subaccountFeedBody_some (fun _ => rfl)
    (congrArg Sends.result (onMessages_onSubaccountsMessage h)) hfuel

/-- **Over a run the handler sends what each message makes it send**, in order. -/
theorem sent_handleSubaccountFeed {msgs : List SubaccountsMessage}
    (h : ∀ m ∈ msgs, m.Converts D) {fuel : ℕ} (hfuel : msgs.length < fuel) :
    (handleSubaccountFeed fuel msgs : List (SubaccountSend D F) × Exit) =
      (subaccountSends D msgs, .returned) := by
  rw [handleSubaccountFeed_returns h hfuel, onMessages_onSubaccountsMessage h]

end MarketMaker
