/-
**When the balances sent are those reported.**

An update publishes the size of every asset it reports.  A snapshot publishes one asset, the
collateral currency, with the free collateral in the place of its size when it is not listed; the
other assets it lists are not published, and a consumer goes on with what an update said before.

* `reportedSize`, `publishedSize` — the last size reported of an asset, and the last one published;
* `BalancesAgree` — every asset reported is published with its last size;
* `SnapshotPublished` — **what a snapshot may list**: other assets only with the size they were last
  reported with, and the collateral currency, unless its last size is the free collateral;
* `snapshot_asset_is_dropped` — a snapshot that lists another asset;
* `balances_agree_iff` — **the balances agree after every message if and only if every snapshot is
  such**.
-/

import MarketMaker.SubaccountSends

set_option relaxedAutoImplicit false
set_option autoImplicit false

namespace MarketMaker

/-! ### Sizes reported and published -/

/-- The last size reported of an asset. -/
def reportedSize (msgs : List SubaccountsMessage) (asset : String) : Option BigDecimal :=
  (LastWrite.last Prod.fst (msgs.flatMap SubaccountsMessage.assetReports) asset).map Prod.snd

section Published

variable {D F : Type}

/-- The balances among the values sent. -/
def balancesIn (sent : List (SubaccountSend D F)) : List (CcxtBalance F) :=
  sent.filterMap fun
    | .balance b => some b
    | .position _ => none

/-- The size of an asset in the last balance that contains it. -/
def publishedSize (sent : List (SubaccountSend D F)) (asset : String) : Option F :=
  (balancesIn sent).reverse.findSome? fun b => b.free.lookup asset

/-- Every asset reported is published, with the size last reported. -/
def BalancesAgree [DecimalText D] [ToF64 D F] (msgs : List SubaccountsMessage)
    (sent : List (SubaccountSend D F)) : Prop :=
  ∀ asset v, reportedSize msgs asset = some v →
    ∃ size, publishedSize sent asset = some size ∧ bigDecimalToF64 D v = some size

/-- What a snapshot may list after some messages: assets other than the collateral currency only
with the size they were last reported with; and the collateral currency, unless it was never
reported, or last with the free collateral as its size. -/
def SnapshotPublished (D : Type) {F : Type} [DecimalText D] [ToF64 D F]
    (before : List SubaccountsMessage) (s : Subaccount) : Prop :=
  (∀ asset p, s.assetPositions.lookup asset = some p → asset ≠ "USDC" →
    ∃ v, reportedSize before asset = some v ∧
      bigDecimalToF64 D v = (bigDecimalToF64 D p.size.inner : Option F)) ∧
  (s.assetPositions.lookup "USDC" = none → ∀ v, reportedSize before "USDC" = some v →
    bigDecimalToF64 D v = (bigDecimalToF64 D s.freeCollateral : Option F))

end Published

theorem reportedSize_concat (msgs : List SubaccountsMessage) (m : SubaccountsMessage)
    (asset : String) :
    reportedSize (msgs ++ [m]) asset =
      (reportedSize [m] asset).or (reportedSize msgs asset) := by
  simp [reportedSize, LastWrite.last_append, Option.map_or]

/-- A snapshot reports the sizes it lists. -/
theorem reportedSize_initial (s : Subaccount) (asset : String) :
    reportedSize [.initial s] asset =
      (s.assetPositions.lookup asset).map fun p => p.size.inner := by
  simp only [reportedSize, List.flatMap_singleton]
  cases hlast : LastWrite.last Prod.fst (SubaccountsMessage.initial s).assetReports asset with
  | none =>
      cases hlookup : s.assetPositions.lookup asset with
      | none => rfl
      | some p =>
          have hmem : (⟨asset, p⟩ : Sigma _) ∈ s.assetPositions.entries :=
            AList.mem_lookup_iff.1 hlookup
          exact absurd rfl ((LastWrite.last_eq_none_iff Prod.fst).1 hlast _
            (List.mem_map_of_mem hmem))
  | some w =>
      obtain ⟨hw, rfl⟩ := LastWrite.last_eq_some Prod.fst hlast
      obtain ⟨⟨asset, p⟩, hentry, rfl⟩ := List.mem_map.1 hw
      rw [AList.mem_lookup_iff.2 hentry]
      rfl

variable {D F : Type} [DecimalText D] [DecimalOps D] [ToF64 D F]

omit [DecimalOps D] in
/-- The balances collected hold the sizes last reported. -/
theorem lookup_freeOf (reports : List (String × BigDecimal)) (asset : String) :
    (freeOf D reports).lookup asset =
      ((LastWrite.last Prod.fst reports asset).map Prod.snd).map (convertedF64 D) := by
  induction reports using List.reverseRecOn with
  | nil => exact AList.lookup_empty asset
  | append_singleton reports e ih =>
      rw [freeOf, List.foldl_concat, ← freeOf]
      by_cases h : e.1 = asset
      · subst h
        rw [AList.lookup_insert, LastWrite.last_concat_self]
        rfl
      · rw [AList.lookup_insert_ne (Ne.symm h), ih, LastWrite.last_concat_of_ne Prod.fst _ h]

omit [DecimalOps D] in
/-- The collateral currency's balance is its size if it is listed, and the free collateral if it is
not. -/
theorem usdcBalance_eq (s : Subaccount) :
    usdcBalance D s = ((reportedSize [.initial s] "USDC").map (convertedF64 D)).getD
      (convertedF64 D s.freeCollateral) := by
  have hfold : ∀ entries : List (Sigma fun _ : String => AssetPosition),
      entries.foldl (fun usdc e => if e.1 = "USDC" then convertedF64 D e.2.size.inner else usdc)
          (convertedF64 D s.freeCollateral) =
        (((LastWrite.last Prod.fst (entries.map fun e => (e.1, e.2.size.inner)) "USDC").map
          Prod.snd).map (convertedF64 D)).getD (convertedF64 D s.freeCollateral) := by
    intro entries
    induction entries using List.reverseRecOn with
    | nil => rfl
    | append_singleton entries e ih =>
        rw [List.foldl_concat, ih, List.map_append, LastWrite.last_append]
        by_cases h : e.1 = "USDC" <;> simp [LastWrite.last_cons, h]
  simpa [usdcBalance, reportedSize, SubaccountsMessage.assetReports] using
    hfold s.assetPositions.entries

theorem balancesIn_sends (m : SubaccountsMessage) :
    balancesIn (m.sends D) = (m.balance D).toList := by
  have hpositions :
      balancesIn (F := F) (m.positionReports.map fun r => .position (r.toCcxt D)) = [] := by
    simp [balancesIn, List.filterMap_map]
  have hbalances : balancesIn (D := D) ((m.balance D).map SubaccountSend.balance).toList =
      (m.balance D).toList := by
    cases m.balance D <;> rfl
  rw [balancesIn] at hpositions hbalances ⊢
  cases m <;> simp only [SubaccountsMessage.sends, List.filterMap_append, hpositions, hbalances,
    List.nil_append, List.append_nil]

/-- The size published after a message: by it, or else before it. -/
theorem publishedSize_concat (msgs : List SubaccountsMessage) (m : SubaccountsMessage)
    (asset : String) :
    publishedSize (subaccountSends D (msgs ++ [m])) asset =
      ((m.balance D).bind fun b => b.free.lookup asset).or
        (publishedSize (subaccountSends D msgs) asset) := by
  have hsent : balancesIn (subaccountSends D (msgs ++ [m])) =
      balancesIn (subaccountSends D msgs) ++ (m.balance D).toList := by
    rw [subaccountSends, List.flatMap_append, List.flatMap_singleton, ← balancesIn_sends]
    exact List.filterMap_append
  rw [publishedSize, hsent, List.reverse_append, List.findSome?_append]
  cases m.balance D <;> simp [publishedSize]

/-- **A snapshot publishes the collateral currency.** -/
theorem publishedSize_initial (msgs : List SubaccountsMessage) (s : Subaccount) (asset : String) :
    publishedSize (subaccountSends D (msgs ++ [.initial s])) asset =
      if asset = "USDC" then some (usdcBalance D s)
      else publishedSize (subaccountSends D msgs) asset := by
  rw [publishedSize_concat, SubaccountsMessage.balance, Option.bind_some]
  split_ifs with h
  · rw [h, AList.lookup_insert, Option.some_or]
  · rw [AList.lookup_insert_ne h, AList.lookup_empty, Option.none_or]

/-- **An update publishes what it reports.** -/
theorem publishedSize_update (msgs : List SubaccountsMessage) (contents : List SubaccountUpdate)
    (asset : String) :
    publishedSize (subaccountSends D (msgs ++ [.update contents])) asset =
      ((reportedSize [.update contents] asset).map (convertedF64 D)).or
        (publishedSize (subaccountSends D msgs) asset) := by
  have hfree := lookup_freeOf (D := D) (SubaccountsMessage.update contents).assetReports asset
  rw [publishedSize_concat, reportedSize, List.flatMap_singleton, ← hfree]
  congr 1
  simp only [SubaccountsMessage.balance]
  split_ifs with hempty
  · have hnil := List.isEmpty_iff.1 hempty
    rw [Option.bind_none, AList.lookup, hnil]
    rfl
  · rw [Option.bind_some]

/-- An asset other than the collateral currency is published only after it was reported. -/
theorem isSome_reportedSize {msgs : List SubaccountsMessage} {asset : String}
    (hne : asset ≠ "USDC") (h : (publishedSize (subaccountSends D msgs) asset).isSome) :
    (reportedSize msgs asset).isSome := by
  induction msgs using List.reverseRecOn with
  | nil => simp [publishedSize, subaccountSends, balancesIn] at h
  | append_singleton msgs m ih =>
      rw [reportedSize_concat, Option.isSome_or, Bool.or_eq_true]
      cases m with
      | initial s =>
          rw [publishedSize_initial, if_neg hne] at h
          exact Or.inr (ih h)
      | update contents =>
          rw [publishedSize_update, Option.isSome_or, Bool.or_eq_true, Option.isSome_map] at h
          exact h.imp id ih

/-! ### Where the balances agree -/

section Agreement

variable {msgs : List SubaccountsMessage}

omit [DecimalOps D] in
/-- What a message reports converts. -/
theorem bigDecimalToF64_of_reportedSize {m : SubaccountsMessage} (hm : m.Converts D)
    {asset : String} {v : BigDecimal} (h : reportedSize [m] asset = some v) :
    bigDecimalToF64 D v = some (convertedF64 D v : F) := by
  rw [reportedSize, List.flatMap_singleton, Option.map_eq_some_iff] at h
  obtain ⟨e, he, rfl⟩ := h
  exact bigDecimalToF64_eq (hm _ (m.assetNumber_mem (LastWrite.last_eq_some Prod.fst he).1))

/-- **An update keeps the agreement.** -/
theorem BalancesAgree.update (hagree : BalancesAgree msgs (subaccountSends D msgs))
    {contents : List SubaccountUpdate} (hconv : (SubaccountsMessage.update contents).Converts D) :
    BalancesAgree (msgs ++ [.update contents])
      (subaccountSends D (msgs ++ [.update contents])) := by
  intro asset v hv
  rw [reportedSize_concat] at hv
  rw [publishedSize_update]
  cases hm : reportedSize [.update contents] asset with
  | none =>
      rw [hm] at hv
      exact hagree asset v hv
  | some w =>
      rw [hm] at hv
      obtain rfl : w = v := Option.some.inj hv
      exact ⟨convertedF64 D w, rfl, bigDecimalToF64_of_reportedSize hconv hm⟩

/-- **A snapshot keeps the agreement exactly if it may list what it lists.** -/
theorem BalancesAgree.initial_iff (hagree : BalancesAgree msgs (subaccountSends D msgs))
    {s : Subaccount} (hconv : (SubaccountsMessage.initial s).Converts D) :
    BalancesAgree (msgs ++ [.initial s]) (subaccountSends D (msgs ++ [.initial s])) ↔
      SnapshotPublished D msgs s := by
  have hcollateral : bigDecimalToF64 D s.freeCollateral =
      some (convertedF64 D s.freeCollateral : F) :=
    bigDecimalToF64_eq (hconv _ (by simp [SubaccountsMessage.numbers]))
  constructor
  · intro h
    constructor
    · intro asset p hp hne
      obtain ⟨size, hsize, hf⟩ := h asset p.size.inner (by
        rw [reportedSize_concat, reportedSize_initial, hp]
        rfl)
      rw [publishedSize_initial, if_neg hne] at hsize
      obtain ⟨v, hv⟩ := Option.isSome_iff_exists.1
        (isSome_reportedSize (D := D) (F := F) hne (by rw [hsize]; rfl))
      obtain ⟨size', hsize', hf'⟩ := hagree asset v hv
      exact ⟨v, hv, by rw [hf, hf', ← hsize, hsize']⟩
    · intro hnone v hv
      obtain ⟨size, hsize, hf⟩ := h "USDC" v (by
        rw [reportedSize_concat, reportedSize_initial, hnone]
        exact hv)
      rw [publishedSize_initial, if_pos rfl, usdcBalance_eq, reportedSize_initial, hnone] at hsize
      rw [hf, hcollateral, ← hsize]
      rfl
  · rintro ⟨hothers, husdc⟩ asset v hv
    rw [reportedSize_concat, reportedSize_initial] at hv
    rw [publishedSize_initial]
    split_ifs with hasset
    · subst hasset
      refine ⟨_, rfl, ?_⟩
      rw [usdcBalance_eq, reportedSize_initial]
      cases hlookup : s.assetPositions.lookup "USDC" with
      | none =>
          rw [hlookup] at hv
          exact (husdc hlookup v hv).trans hcollateral
      | some p =>
          rw [hlookup] at hv
          obtain rfl : p.size.inner = v := Option.some.inj hv
          have hsize : reportedSize [.initial s] "USDC" = some p.size.inner := by
            rw [reportedSize_initial, hlookup]
            rfl
          exact bigDecimalToF64_of_reportedSize hconv hsize
    · cases hlookup : s.assetPositions.lookup asset with
      | none =>
          rw [hlookup] at hv
          exact hagree asset v hv
      | some p =>
          rw [hlookup] at hv
          obtain rfl : p.size.inner = v := Option.some.inj hv
          obtain ⟨w, hw, hsame⟩ := hothers asset p hlookup hasset
          obtain ⟨size, hsize, hf⟩ := hagree asset w hw
          exact ⟨size, hsize, hsame ▸ hf⟩

/-- **Where the balances agree.**  In every run whose numbers convert, the balances sent agree with
the sizes reported after every message if and only if each snapshot lists, of the assets other than
the collateral currency, only such as were reported before it, with the size last reported; and
lists the collateral currency, unless that was never reported or last with the free collateral. -/
theorem balances_agree_iff (msgs : List SubaccountsMessage) (hconv : ∀ m ∈ msgs, m.Converts D) :
    (∀ before later, msgs = before ++ later → ∀ fuel, before.length < fuel →
        BalancesAgree before (handleSubaccountFeed (D := D) fuel before).1) ↔
      ∀ before s later, msgs = before ++ .initial s :: later → SnapshotPublished D before s := by
  have hsent : ∀ before later, msgs = before ++ later → ∀ fuel, before.length < fuel →
      (handleSubaccountFeed (D := D) fuel before).1 = subaccountSends D before :=
    fun before later hsplit fuel hfuel => congrArg Prod.fst
      (sent_handleSubaccountFeed (fun m hm => hconv m (hsplit ▸ List.mem_append_left _ hm)) hfuel)
  constructor
  · intro h before s later hsplit
    have hnext : msgs = (before ++ [.initial s]) ++ later := by simpa using hsplit
    have hbefore := h before _ hsplit _ (Nat.lt_succ_self _)
    have hafter := h _ later hnext _ (Nat.lt_succ_self _)
    rw [hsent before _ hsplit _ (Nat.lt_succ_self _)] at hbefore
    rw [hsent _ later hnext _ (Nat.lt_succ_self _)] at hafter
    exact (hbefore.initial_iff (hconv _ (by simp [hsplit]))).1 hafter
  · intro h before
    induction before using List.reverseRecOn with
    | nil =>
        rintro later - fuel - asset v hv
        cases hv
    | append_singleton before m ih =>
        intro later hsplit fuel hfuel
        have hprev : msgs = before ++ m :: later := by simpa using hsplit
        have hbefore := ih (m :: later) hprev _ (Nat.lt_succ_self _)
        rw [hsent before _ hprev _ (Nat.lt_succ_self _)] at hbefore
        rw [hsent _ later hsplit fuel hfuel]
        have hm : m.Converts D := hconv m (by simp [hprev])
        cases m with
        | initial s => exact (hbefore.initial_iff hm).2 (h before s later hprev)
        | update contents => exact hbefore.update hm

end Agreement

/-! ### Runs with a second asset -/

/-- A snapshot with some assets. -/
private def snapshotWith (assets : AList fun _ : String => AssetPosition) : SubaccountsMessage :=
  .initial { freeCollateral := ⟨9, 0⟩, assetPositions := assets, openPerpetualPositions := ∅ }

/-- **An asset of a snapshot is not published** if it is not the collateral currency. -/
theorem snapshot_asset_is_dropped :
    letI := exactOps fun _ => none
    ∃ msgs, msgs = [snapshotWith ((∅ : AList fun _ : String => AssetPosition).insert "ETH"
        ⟨⟨⟨5, 0⟩⟩⟩)] ∧
      ¬ BalancesAgree msgs (handleSubaccountFeed (D := ℚ) 2 msgs).1 := by
  let : DecimalOps ℚ := exactOps fun _ => none
  refine ⟨_, rfl, fun h => ?_⟩
  obtain ⟨size, hsize, -⟩ := h "ETH" ⟨5, 0⟩ rfl
  have hnone : publishedSize (handleSubaccountFeed (D := ℚ) 2
      [snapshotWith ((∅ : AList fun _ : String => AssetPosition).insert "ETH" ⟨⟨⟨5, 0⟩⟩⟩)]).1
      "ETH" = none := by decide +kernel
  rw [hnone] at hsize
  cases hsize

/-- A snapshot of the collateral currency, and an update of another asset. -/
private def collateralThenAsset : List SubaccountsMessage :=
  [snapshotWith ((∅ : AList fun _ : String => AssetPosition).insert "USDC" ⟨⟨⟨7, 0⟩⟩⟩),
    .update [⟨some [⟨"ETH", ⟨⟨5, 0⟩⟩⟩], none⟩]]

theorem balances_agree_iff_sample :
    letI := exactOps fun _ => none
    BalancesAgree collateralThenAsset
      (handleSubaccountFeed (D := ℚ) 3 collateralThenAsset).1 := by
  let : DecimalOps ℚ := exactOps fun _ => none
  refine (balances_agree_iff collateralThenAsset
    (by unfold SubaccountsMessage.Converts; decide +kernel)).2 ?_ _ [] (by simp) 3 (by decide)
  rintro before s later hsplit
  rcases before with _ | ⟨m, _ | ⟨m', before⟩⟩
  · obtain ⟨hs, -⟩ := List.cons.inj hsplit
    obtain rfl := SubaccountsMessage.initial.inj hs
    refine ⟨fun asset p hp hne => ?_, fun hnone => ?_⟩
    · rw [AList.lookup_insert_ne hne, AList.lookup_empty] at hp
      cases hp
    · rw [AList.lookup_insert] at hnone
      cases hnone
  · cases hsplit
  · cases before <;> cases hsplit

end MarketMaker
