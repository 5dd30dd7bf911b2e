/-
**The subaccount feed.**

A snapshot of the account sends one balance and one position for each open position; an update
sends a position for each position it lists and, when it lists any asset, one balance at its end.
Balances and positions go to two channels; the model keeps one list of what is sent, in order.

* `onSubaccountInitial`, `onSubaccountUpdate` — the two branches;
* `handleSubaccountFeed` — the handler;
* `SubaccountsMessage.Converts` — every number of a message converts.
-/

import MarketMaker.Ccxt
import MarketMaker.ReceiveLoop

set_option relaxedAutoImplicit false
set_option autoImplicit false

namespace MarketMaker

variable {D F : Type} [DecimalText D] [DecimalOps D] [ToF64 D F]

/-- A value sent by the handler, on the channel of balances or on that of positions. -/
inductive SubaccountSend (D F : Type)
  | balance (b : CcxtBalance F)
  | position (p : CcxtPosition D)

/-! ### The two branches -/

/-- A number as a floating-point one: zero when the last conversion fails. -/
def bigDecimalToF64 (D : Type) {F : Type} [DecimalText D] [ToF64 D F] (value : BigDecimal) :
    Option F :=
  (bigDecimalToDecimal value : Option D).map fun d => (ToF64.toF64 d).getD (ToF64.zero D)

def CcxtPositionSide.from : PositionSide → CcxtPositionSide
  | .long => .long
  | .short => .short

/-- Send a position whose identifier and profit are given. -/
def sendPosition (id market : String) (side : PositionSide) (size : Quantity) (entryPrice : Price)
    (unrealizedPnl : Option BigDecimal) : Sends (SubaccountSend D F) Unit := do
  let contracts ← Sends.unwrap (bigDecimalToDecimal size.inner)
  let entryPrice ← Sends.unwrap (bigDecimalToDecimal entryPrice.inner)
  let unrealizedPnl ← match unrealizedPnl with
    | some v => Sends.unwrap (bigDecimalToDecimal v)
    | none => pure (DecimalOps.zero : D)
  Sends.send (.position {
    id := id
    symbol := market
    side := CcxtPositionSide.from side
    contracts := contracts
    contractSize := DecimalOps.one
    entryPrice := entryPrice
    unrealizedPnl := unrealizedPnl
    liquidationPrice := DecimalOps.zero })

/-- The snapshot branch: the only asset reported is the collateral currency, whose balance is the
free collateral unless the asset is listed. -/
def onSubaccountInitial (subaccount : Subaccount) : Sends (SubaccountSend D F) Unit := do
  let freeCollateral ← Sends.unwrap (bigDecimalToF64 D subaccount.freeCollateral)
  let usdcBalance ← subaccount.assetPositions.entries.foldlM
    (fun usdcBalance e =>
      if e.1 = "USDC" then Sends.unwrap (bigDecimalToF64 D e.2.size.inner)
      else pure usdcBalance)
    freeCollateral
  Sends.send (.balance { free := (∅ : AList fun _ : String => F).insert "USDC" usdcBalance })
  subaccount.openPerpetualPositions.entries.forM fun e =>
    -- the identifier of a position of a snapshot is its market
    sendPosition e.2.market e.2.market e.2.side e.2.size e.2.entryPrice (some e.2.unrealizedPnl)

/-- The assets of one block of an update, added to the balances collected so far. -/
def collectAssets (free : AList fun _ : String => F) (assets : List AssetPositionUpdate) :
    Sends (SubaccountSend D F) (AList fun _ : String => F) :=
  assets.foldlM
    (fun free asset => do
      let size ← Sends.unwrap (bigDecimalToF64 D asset.size.inner)
      pure (free.insert asset.symbol size))
    free

/-- One block of an update: collect its assets, send its positions. -/
def onSubaccountContent (free : AList fun _ : String => F) (content : SubaccountUpdate) :
    Sends (SubaccountSend D F) (AList fun _ : String => F) := do
  let free ← collectAssets (D := D) free (content.assetPositions.getD [])
  (content.perpetualPositions.getD []).forM fun p =>
    sendPosition (D := D) p.positionId p.market p.side p.size p.entryPrice p.unrealizedPnl
  pure free

/-- The update branch: the balance is sent when some block lists an asset. -/
def onSubaccountUpdate (contents : List SubaccountUpdate) :
    Sends (SubaccountSend D F) Unit := do
  let free ← contents.foldlM onSubaccountContent ∅
  if free.entries.isEmpty then pure ()
  else Sends.send (.balance { free := free })

/-- What the handler does with a message. -/
def onSubaccountsMessage (_ : Unit) : SubaccountsMessage → Sends (SubaccountSend D F) Unit
  | .initial subaccount => onSubaccountInitial subaccount
  | .update contents => onSubaccountUpdate contents

/-- One iteration of the handler: handle a message, or leave the loop on a closed feed. -/
def subaccountFeedBody (_ : Unit) :
    Option SubaccountsMessage → Sends (SubaccountSend D F) (LoopFlow Unit)
  | some message => do
      onSubaccountsMessage () message
      pure (.next ())
  | none => pure .stop

/-- The handler of the subaccount feed, for `fuel` iterations. -/
def handleSubaccountFeed (fuel : ℕ) (feed : List SubaccountsMessage) :
    List (SubaccountSend D F) × Exit :=
  ReceiveLoop.loop subaccountFeedBody fuel () feed

/-! ### The numbers received -/

/-- The numbers a position carries. -/
def positionNumbers (size : Quantity) (entryPrice : Price) (unrealizedPnl : Option BigDecimal) :
    List BigDecimal :=
  size.inner :: entryPrice.inner :: unrealizedPnl.toList

/-- The numbers a message carries. -/
def SubaccountsMessage.numbers : SubaccountsMessage → List BigDecimal
  | .initial s =>
      s.freeCollateral :: (s.assetPositions.entries.map fun e => e.2.size.inner) ++
        s.openPerpetualPositions.entries.flatMap fun e =>
          positionNumbers e.2.size e.2.entryPrice (some e.2.unrealizedPnl)
  | .update contents => contents.flatMap fun content =>
      ((content.assetPositions.getD []).map fun a => a.size.inner) ++
        (content.perpetualPositions.getD []).flatMap fun p =>
          positionNumbers p.size p.entryPrice p.unrealizedPnl

/-- Every number of the message converts. -/
def SubaccountsMessage.Converts (D : Type) [DecimalText D] (m : SubaccountsMessage) : Prop :=
  ∀ v ∈ m.numbers, (bigDecimalToDecimal v : Option D).isSome

/-! ### An iteration on a message -/

theorem subaccountFeedBody_some (u : Unit) (m : SubaccountsMessage) :
    (subaccountFeedBody u (some m) : Sends (SubaccountSend D F) (LoopFlow Unit)) =
      LoopFlow.next <$> onSubaccountsMessage u m := by
  simp [subaccountFeedBody]

end MarketMaker
