import Mathlib
import Salvium.Chain.TxPool

/-!
# Salvium — what the pool's bookkeeping keeps

The pool's four structures should agree with its tables: `m_spent_key_images` lists under each
key image exactly the pooled transactions that spend it, `m_txpool_weight` is the sum of the
pooled weights, and the sorted container (and `m_added_txs_by_id`) has one entry per pooled
transaction. `PoolBook δ lost` states this with the weight allowed to run `δ` above the sum, and
the pooled txids in `lost` allowed to have no time in `m_added_txs_by_id` (`validate` throws the
times away, see `Salvium.Chain.TxPoolValidate`); the invariant the code intends is `PoolBook 0 []`.

`take_tx` and `prune` keep `PoolBook δ lost` (`PoolBook.take_tx`, `PoolBook.prune`), and so does
`add_tx` of a transaction that is not pooled, whatever it returns (`PoolBook.add_tx_of_not_mem`).
They rest on two steps of the abstract view `pooled`: a row removed with its key images and its
sorted entry (`PoolBook.remove_row`), and a row added (`PoolBook.add_row`). `add_tx` of a
transaction that is already pooled is different: when it returns `true` it adds the weight again
although the pool holds the transaction once (`PoolBook.add_tx_of_mem`), so the weight runs
ahead of the sum for good. `Salvium.Chain.TxPoolRun` follows the books over whole runs, where a
Dandelion++ stem transaction that arrives again fluffed is such a re-add.
-/

namespace Salvium

namespace TxPool

open tx_memory_pool

/-! ## The pool as a list of transactions -/

/-- The key images a list of inputs spends: those of its key inputs. -/
def key_images_of (vin : List txin_v) : List key_image :=
  vin.filterMap fun
    | .txin_to_key _ k_image => some k_image
    | _ => none

@[simp] theorem key_images_of_nil : key_images_of [] = [] := rfl

@[simp] theorem key_images_of_to_key {amount : UInt64} {k : key_image} {vin : List txin_v} :
    key_images_of (.txin_to_key amount k :: vin) = k :: key_images_of vin := rfl

/-- A pooled transaction as the bookkeeping sees it: its txid, what it spends and its weight. -/
structure pooled_tx where
  txid : Crypto.Hash
  tx : transaction
  weight : UInt64
  deriving DecidableEq, Repr

/-- The bookkeeping's view of a row. -/
def txpool_entry.pooled (e : txpool_entry) : pooled_tx := ⟨e.txid, e.blob, e.tx_meta.weight⟩

/-- The pooled transactions, one per row of the tables. -/
def tx_memory_pool.pooled (p : tx_memory_pool) : List pooled_tx :=
  p.txpool.entries.map txpool_entry.pooled

@[simp] theorem map_txid_pooled (p : tx_memory_pool) :
    p.pooled.map (·.txid) = p.txpool.txids := by
  simp [tx_memory_pool.pooled, txpool_table.txids, txpool_entry.pooled]

/-! ## The tables -/

namespace txpool_table

variable (t : txpool_table) {txid : Crypto.Hash} {e e' : txpool_entry}

theorem mem_txids : txid ∈ t.txids ↔ ∃ e ∈ t.entries, e.txid = txid := by
  simp [txids]

/-- Two rows with one txid are one row. -/
theorem eq_of_txid_eq (he : e ∈ t.entries) (he' : e' ∈ t.entries) (h : e.txid = e'.txid) :
    e = e' :=
  List.inj_on_of_nodup_map t.nodup he he' h

theorem find_eq_some_iff : t.find txid = some e ↔ e ∈ t.entries ∧ e.txid = txid := by
  constructor
  · intro h
    exact ⟨List.mem_of_find?_eq_some h, by simpa using List.find?_some h⟩
  · rintro ⟨he, rfl⟩
    obtain ⟨e', he'⟩ : ∃ e', t.find e.txid = some e' :=
      Option.isSome_iff_exists.mp (List.find?_isSome.mpr ⟨e, he, by simp⟩)
    have hmem : e' ∈ t.entries := List.mem_of_find?_eq_some he'
    have htx : e'.txid = e.txid := by simpa using List.find?_some he'
    rw [he', t.eq_of_txid_eq hmem he htx]

theorem find_eq_none_iff : t.find txid = none ↔ txid ∉ t.txids := by
  simp [find, txids, List.find?_eq_none]

theorem add_txpool_tx_eq_ok_iff {blob : transaction} {tx_meta : txpool_tx_meta_t}
    {t' : txpool_table} :
    t.add_txpool_tx txid blob tx_meta = .ok t' ↔
      txid ∉ t.txids ∧ t'.entries = t.entries ++ [⟨txid, tx_meta, blob⟩] := by
  unfold add_txpool_tx
  split
  · next h => simp [h]
  · next h =>
    obtain ⟨entries', hnd'⟩ := t'
    constructor
    · intro hok
      cases hok
      exact ⟨h, rfl⟩
    · rintro ⟨-, rfl⟩
      rfl

/-- A txid with no row is always taken. -/
theorem add_txpool_tx_ne_error {blob : transaction} {tx_meta : txpool_tx_meta_t} {msg : String}
    (h : txid ∉ t.txids) : t.add_txpool_tx txid blob tx_meta ≠ .error msg := by
  unfold add_txpool_tx
  rw [dif_neg h]
  intro hok
  cases hok

theorem add_txpool_tx_of_mem {blob : transaction} {tx_meta : txpool_tx_meta_t}
    (h : txid ∈ t.txids) :
    t.add_txpool_tx txid blob tx_meta =
      .error "Attempting to add txpool tx metadata that's already in the db" := by
  unfold add_txpool_tx
  rw [dif_pos h]

@[simp] theorem entries_remove_txpool_tx :
    (t.remove_txpool_tx txid).entries = t.entries.filter (·.txid != txid) := rfl

theorem not_mem_txids_remove_txpool_tx : txid ∉ (t.remove_txpool_tx txid).txids := by
  simp [txids]

theorem remove_txpool_tx_of_not_mem (h : txid ∉ t.txids) :
    (t.remove_txpool_tx txid).entries = t.entries := by
  rw [entries_remove_txpool_tx, List.filter_eq_self]
  intro x hx
  have hne : x.txid ≠ txid := fun hx' => h ((t.mem_txids).mpr ⟨x, hx, hx'⟩)
  simpa using hne

/-- Removing the txid of a row leaves the other rows. -/
theorem perm_remove_txpool_tx (he : e ∈ t.entries) :
    t.entries.Perm (e :: (t.remove_txpool_tx e.txid).entries) := by
  have hfilter : t.entries.filter (·.txid != e.txid) = t.entries.erase e := by
    rw [(List.Nodup.of_map _ t.nodup).erase_eq_filter]
    apply List.filter_congr
    intro x hx
    by_cases hxe : x = e
    · subst hxe
      simp
    · have hne : x.txid ≠ e.txid := fun h => hxe (t.eq_of_txid_eq hx he h)
      rw [bne_iff_ne.mpr hne, bne_iff_ne.mpr hxe]
  rw [entries_remove_txpool_tx, hfilter]
  exact List.perm_cons_erase he

/-- The metadata of a txid is the metadata of its row. -/
theorem get_txpool_tx_meta_eq_some {tx_meta : txpool_tx_meta_t} :
    t.get_txpool_tx_meta txid = some tx_meta ↔ ∃ e ∈ t.entries, e.txid = txid ∧ e.tx_meta = tx_meta := by
  simp only [get_txpool_tx_meta, Option.map_eq_some_iff, find_eq_some_iff]
  constructor
  · rintro ⟨e, ⟨he, htx⟩, rfl⟩
    exact ⟨e, he, htx, rfl⟩
  · rintro ⟨e, he, htx, rfl⟩
    exact ⟨e, ⟨he, htx⟩, rfl⟩

/-- An update that keeps the weight of a row leaves the pooled view as it was. -/
theorem update_txpool_tx_pooled {tx_meta tx_meta' : txpool_tx_meta_t} {t' : txpool_table}
    (hget : t.get_txpool_tx_meta txid = some tx_meta)
    (hupd : t.update_txpool_tx txid tx_meta' = .ok t') (hw : tx_meta'.weight = tx_meta.weight) :
    t'.entries.map txpool_entry.pooled = t.entries.map txpool_entry.pooled := by
  obtain ⟨e, he, htx, rfl⟩ := (t.get_txpool_tx_meta_eq_some).mp hget
  unfold update_txpool_tx at hupd
  split at hupd
  · cases hupd
    rw [List.map_map]
    apply List.map_congr_left
    intro x hx
    by_cases hxt : x.txid = txid
    · -- the updated row is the row of the txid
      have hxe : x = e := t.eq_of_txid_eq hx he (hxt.trans htx.symm)
      subst hxe
      simp [hxt, txpool_entry.pooled, hw]
    · simp [hxt]
  · cases hupd

end txpool_table

/-! ## The key images of a transaction -/

/-- The inputs `check_inputs_types_supported` accepts are key inputs. -/
theorem forall_to_key_of_check {tx : transaction} (h : check_inputs_types_supported tx = true) :
    ∀ txin ∈ tx.vin, ∃ a k, txin = .txin_to_key a k := by
  intro txin hin
  have hall := List.all_eq_true.mp h txin hin
  cases txin with
  | txin_to_key a k => exact ⟨a, k, rfl⟩
  | _ => simp at hall

/-- What the core's check promises: key inputs, no key image twice, and none of those seen. -/
theorem check_tx_inputs_keyimages_diff_loop_spec {ki : List key_image} {vin : List txin_v}
    (h : check_tx_inputs_keyimages_diff_loop ki vin = true) :
    (∀ txin ∈ vin, ∃ a k, txin = .txin_to_key a k) ∧ (key_images_of vin).Nodup ∧
      ∀ k ∈ key_images_of vin, k ∉ ki := by
  induction vin generalizing ki with
  | nil => simp
  | cons txin vin ih =>
    cases txin with
    | txin_to_key a k =>
      rw [check_tx_inputs_keyimages_diff_loop] at h
      split_ifs at h with hk
      obtain ⟨hto, hnd, hnot⟩ := ih h
      refine ⟨?_, ?_, ?_⟩
      · intro t ht
        rcases List.mem_cons.mp ht with rfl | ht
        · exact ⟨a, k, rfl⟩
        · exact hto t ht
      · rw [key_images_of_to_key, List.nodup_cons]
        exact ⟨fun hm => hnot k hm List.mem_cons_self, hnd⟩
      · intro k' hk'
        rw [key_images_of_to_key, List.mem_cons] at hk'
        rcases hk' with rfl | hk'
        · simpa using hk
        · exact fun hm => hnot k' hk' (List.mem_cons_of_mem _ hm)
    | _ => cases h

/-- A transaction the core let through has key inputs only, with distinct key images. -/
theorem check_tx_inputs_keyimages_diff_spec {tx : transaction}
    (h : check_tx_inputs_keyimages_diff tx = true) :
    check_inputs_types_supported tx = true ∧ (key_images_of tx.vin).Nodup := by
  obtain ⟨hto, hnd, -⟩ := check_tx_inputs_keyimages_diff_loop_spec h
  refine ⟨List.all_eq_true.mpr fun txin hin => ?_, hnd⟩
  obtain ⟨a, k, rfl⟩ := hto txin hin
  rfl

/-- The core's check lets through key inputs whose key images are distinct and not yet seen. -/
theorem check_tx_inputs_keyimages_diff_loop_of {ki : List key_image} {vin : List txin_v}
    (hto : ∀ txin ∈ vin, ∃ a k, txin = .txin_to_key a k) (hnd : (key_images_of vin).Nodup)
    (hfresh : ∀ k ∈ key_images_of vin, k ∉ ki) : check_tx_inputs_keyimages_diff_loop ki vin = true := by
  induction vin generalizing ki with
  | nil => rfl
  | cons txin vin ih =>
    obtain ⟨a, k, rfl⟩ := hto txin List.mem_cons_self
    rw [key_images_of_to_key, List.nodup_cons] at hnd
    have hk : ki.contains k = false := by simpa using hfresh k List.mem_cons_self
    simp only [check_tx_inputs_keyimages_diff_loop, hk, Bool.false_eq_true, if_false]
    refine ih (fun t ht => hto t (List.mem_cons_of_mem _ ht)) hnd.2 fun k' hk' hmem => ?_
    rcases List.mem_cons.mp hmem with rfl | hmem
    · exact hnd.1 hk'
    · exact hfresh k' (List.mem_cons_of_mem _ hk') hmem

/-- A transaction with key inputs only and distinct key images passes the core's check. -/
theorem check_tx_inputs_keyimages_diff_of {tx : transaction}
    (hto : check_inputs_types_supported tx = true) (hnd : (key_images_of tx.vin).Nodup) :
    check_tx_inputs_keyimages_diff tx = true :=
  check_tx_inputs_keyimages_diff_loop_of (forall_to_key_of_check hto) hnd (by simp)

namespace tx_memory_pool

variable {db : txpool_table} {id : Crypto.Hash} {tx_relay : relay_method}
  {m : key_image → Option (List Crypto.Hash)}

/-- The loop inserts nothing new for a txid already under each of the key images: the index is as
it was, whether the loop succeeds or not. -/
theorem insert_key_images_loop_of_mem {vin : List txin_v}
    (hmem : ∀ k ∈ key_images_of vin, id ∈ MultiIndex.ids m k) :
    (insert_key_images_loop db id tx_relay vin m).2 = m := by
  induction vin with
  | nil => rfl
  | cons txin vin ih =>
    cases txin with
    | txin_to_key amount k_image =>
      rw [key_images_of_to_key] at hmem
      have hins : MultiIndex.insert m k_image id = m :=
        MultiIndex.insert_of_mem (hmem k_image List.mem_cons_self)
      simp only [insert_key_images_loop, hins]
      split_ifs
      · rfl
      · exact ih fun k hk => hmem k (List.mem_cons_of_mem _ hk)
      · rfl
    | _ => rfl

/-- A successful `insert_key_images` loop has inserted the txid under every key image. -/
theorem insert_key_images_loop_eq_of_ok {vin : List txin_v}
    (h : (insert_key_images_loop db id tx_relay vin m).1 = true) :
    (insert_key_images_loop db id tx_relay vin m).2 =
      MultiIndex.insertAll m (key_images_of vin) id := by
  induction vin generalizing m with
  | nil => rfl
  | cons txin vin ih =>
    cases txin with
    | txin_to_key amount k_image =>
      simp only [insert_key_images_loop] at h ⊢
      -- the two early returns give `false`, which `split_ifs` discharges
      split_ifs at h ⊢
      rw [ih h, key_images_of_to_key, MultiIndex.insertAll_cons]
    | _ => cases h

/-- The loop succeeds for a txid under none of its key images, when each key image is free or the
transaction comes in a block. -/
theorem insert_key_images_loop_of_fresh {vin : List txin_v}
    (hto : ∀ txin ∈ vin, ∃ a k, txin = .txin_to_key a k) (hnd : (key_images_of vin).Nodup)
    (hfresh : ∀ k ∈ key_images_of vin, id ∉ MultiIndex.ids m k)
    (hfree : tx_relay = .block ∨ ∀ k ∈ key_images_of vin, MultiIndex.ids m k = []) :
    (insert_key_images_loop db id tx_relay vin m).1 = true := by
  induction vin generalizing m with
  | nil => rfl
  | cons txin vin ih =>
    obtain ⟨a, k, rfl⟩ := hto txin List.mem_cons_self
    rw [key_images_of_to_key, List.nodup_cons] at hnd
    have hk_fresh : id ∉ MultiIndex.ids m k := hfresh k List.mem_cons_self
    -- only this txid may be under the key image, and it is not yet there
    have hguard : (tx_relay != .block && !((MultiIndex.ids m k).isEmpty ||
        ((MultiIndex.ids m k).length == 1 && (MultiIndex.ids m k).head? == some id))) = false := by
      rcases hfree with hb | hfree
      · simp [hb]
      · simp [hfree k List.mem_cons_self]
    have hnew : (!(MultiIndex.ids m k).contains id ||
        !db.txpool_tx_matches_category id .legacy) = true := by
      simp [hk_fresh]
    have hrest : ∀ k' ∈ key_images_of vin,
        MultiIndex.ids (MultiIndex.insert m k id) k' = MultiIndex.ids m k' := by
      intro k' hk'
      have hne : k' ≠ k := fun h => hnd.1 (h ▸ hk')
      simp [hne]
    simp only [insert_key_images_loop, hguard, hnew, Bool.false_eq_true, if_false, if_true]
    apply ih (fun t ht => hto t (List.mem_cons_of_mem _ ht)) hnd.2
    · intro k' hk'
      rw [hrest k' hk']
      exact hfresh k' (List.mem_cons_of_mem _ hk')
    · refine hfree.imp (fun hb => hb) (fun h k' hk' => ?_)
      rw [hrest k' hk']
      exact h k' (List.mem_cons_of_mem _ hk')

/-- For a txid under each of its (distinct) key images, the `remove_transaction_keyimages` loop
succeeds and removes it under each. -/
theorem remove_transaction_keyimages_loop_eq {vin : List txin_v} (hm : MultiIndex.WellFormed m)
    (hto : ∀ txin ∈ vin, ∃ a k, txin = .txin_to_key a k) (hnd : (key_images_of vin).Nodup)
    (hmem : ∀ k ∈ key_images_of vin, id ∈ MultiIndex.ids m k) :
    remove_transaction_keyimages_loop id vin m = (true, MultiIndex.eraseAll m (key_images_of vin) id) := by
  induction vin generalizing m with
  | nil => rfl
  | cons txin vin ih =>
    obtain ⟨a, k, rfl⟩ := hto txin List.mem_cons_self
    rw [key_images_of_to_key, List.nodup_cons] at hnd
    have hk : id ∈ MultiIndex.ids m k := hmem k List.mem_cons_self
    obtain ⟨s, hs, hid⟩ : ∃ s, m k = some s ∧ id ∈ s := by
      unfold MultiIndex.ids at hk
      cases hmk : m k with
      | none => simp [hmk] at hk
      | some s => exact ⟨s, rfl, by simpa [hmk] using hk⟩
    have hne : s.isEmpty = false := List.isEmpty_eq_false_iff.mpr (List.ne_nil_of_mem hid)
    have hcontains : s.contains id = true := List.contains_iff_mem.mpr hid
    simp only [remove_transaction_keyimages_loop, hs, hne, hcontains, Bool.not_true,
      Bool.false_eq_true, if_false]
    rw [key_images_of_to_key, MultiIndex.eraseAll_cons]
    apply ih hm.erase (fun t ht => hto t (List.mem_cons_of_mem _ ht)) hnd.2
    intro k' hk'
    have hne' : k' ≠ k := fun h => hnd.1 (h ▸ hk')
    rw [MultiIndex.mem_ids_erase (hm.nodup k)]
    exact ⟨hmem k' (List.mem_cons_of_mem _ hk'), fun h => hne' h.1⟩

/-! ## Marking double spends -/

theorem mark_double_spend_txid_pooled (db : txpool_table) (txid : Crypto.Hash) :
    (mark_double_spend_txid db txid).entries.map txpool_entry.pooled =
      db.entries.map txpool_entry.pooled := by
  unfold mark_double_spend_txid
  cases hget : db.get_txpool_tx_meta txid with
  | none => rfl
  | some tx_meta =>
    simp only
    split
    · split
      · next db' hupd => exact db.update_txpool_tx_pooled hget hupd rfl
      · rfl
    · rfl

theorem foldl_mark_double_spend_txid_pooled (txids : List Crypto.Hash) (db : txpool_table) :
    (txids.foldl mark_double_spend_txid db).entries.map txpool_entry.pooled =
      db.entries.map txpool_entry.pooled := by
  induction txids generalizing db with
  | nil => rfl
  | cons txid txids ih => rw [List.foldl_cons, ih, mark_double_spend_txid_pooled]

theorem mark_double_spend_loop_pooled (m : key_image → Option (List Crypto.Hash)) :
    ∀ (vin : List txin_v) (db db' : txpool_table), mark_double_spend_loop m vin db = some db' →
      db'.entries.map txpool_entry.pooled = db.entries.map txpool_entry.pooled
  | [], db, db', h => by
    cases h
    rfl
  | .txin_to_key _ k_image :: vin, db, db', h => by
    rw [mark_double_spend_loop] at h
    rw [mark_double_spend_loop_pooled m vin _ db' h, foldl_mark_double_spend_txid_pooled]
  | .txin_gen _ :: _, _, _, h => by cases h
  | .txin_to_script :: _, _, _, h => by cases h
  | .txin_to_scripthash :: _, _, _, h => by cases h

/-- Marking double spends touches only the `double_spend_seen` flags of the table. -/
theorem mark_double_spend_eq (p : tx_memory_pool) (tx : transaction) :
    ∃ db : txpool_table, p.mark_double_spend tx = { p with txpool := db } ∧
      db.entries.map txpool_entry.pooled = p.txpool.entries.map txpool_entry.pooled := by
  unfold mark_double_spend
  split
  · next db hloop => exact ⟨db, rfl, mark_double_spend_loop_pooled _ _ _ _ hloop⟩
  · exact ⟨p.txpool, rfl, rfl⟩

/-! ## The sorted container -/

/-- Two txids whose bytes are not ordered either way are one txid. -/
theorem hash_eq_of_not_lt {a b : Crypto.Hash} (hab : ¬ a.data.toList < b.data.toList)
    (hba : ¬ b.data.toList < a.data.toList) : a = b := by
  by_contra hne
  have hl : a.data.toList ≠ b.data.toList := fun hl => hne (by
    cases a; cases b
    simpa [Vector.toList_inj] using hl)
  rcases List.lt_or_gt_of_ne_trichotomous hl with h | h
  · exact hab h
  · exact hba h

/-- Entries that `txCompare` orders neither way have one txid: the comparison ends on the txid. -/
theorem txid_eq_of_txCompare_eq_false {a b : tx_by_fee_and_receive_time_entry}
    (hab : txCompare a b = false) (hba : txCompare b a = false) : a.txid = b.txid := by
  unfold txCompare at hab hba
  -- every case where the fee or the time decides makes one comparison `true`
  split_ifs at hab hba
  exact hash_eq_of_not_lt (by simpa using hab) (by simpa using hba)

/-- Entries that `txCompare` orders neither way have one receive time. -/
theorem receive_time_eq_of_txCompare_eq_false {a b : tx_by_fee_and_receive_time_entry}
    (hab : txCompare a b = false) (hba : txCompare b a = false) :
    a.receive_time = b.receive_time := by
  unfold txCompare at hab hba
  -- as for the txid, a comparison that the time decides is `true` one way
  split_ifs at hab hba with h₁ h₂ h₃ h₄
  exact UInt64.le_antisymm (UInt64.not_lt.mp h₄) (UInt64.not_lt.mp h₃)

/-- `emplace` of an entry that no entry of the container matches in txid and receive time
inserts it. -/
theorem map_txid_emplace_of_ne {s : List tx_by_fee_and_receive_time_entry}
    {e : tx_by_fee_and_receive_time_entry}
    (h : ∀ e' ∈ s, e'.txid = e.txid → e'.receive_time ≠ e.receive_time) :
    ((emplace s e).map (·.txid)).Perm (e.txid :: s.map (·.txid)) := by
  have hany : s.any (fun e' => !txCompare e e' && !txCompare e' e) = false := by
    rw [List.any_eq_false]
    intro e' he' hequiv
    simp only [Bool.and_eq_true, Bool.not_eq_eq_eq_not, Bool.not_true] at hequiv
    exact h e' he' (txid_eq_of_txCompare_eq_false hequiv.2 hequiv.1)
      (receive_time_eq_of_txCompare_eq_false hequiv.2 hequiv.1)
  rw [emplace, hany]
  exact (List.perm_orderedInsert _ e s).map _

/-- `emplace` of an entry whose txid is not in the container inserts it. -/
theorem map_txid_emplace {s : List tx_by_fee_and_receive_time_entry}
    {e : tx_by_fee_and_receive_time_entry} (h : e.txid ∉ s.map (·.txid)) :
    ((emplace s e).map (·.txid)).Perm (e.txid :: s.map (·.txid)) :=
  map_txid_emplace_of_ne fun _ he' heq _ => h (heq ▸ List.mem_map_of_mem he')

/-! ## The bookkeeping invariant -/

@[simp] theorem txid_pooled (e : txpool_entry) : e.pooled.txid = e.txid := rfl

/-- The pool's bookkeeping agrees with its tables, the weight running `δ` above the sum of the
pooled weights. -/
structure PoolBook (δ : ℕ) (lost : List Crypto.Hash) (p : tx_memory_pool) : Prop where
  /-- every pooled transaction has key inputs only, with distinct key images -/
  inputs : ∀ x ∈ p.pooled,
    check_inputs_types_supported x.tx = true ∧ (key_images_of x.tx.vin).Nodup
  /-- no key image holds an empty or a repeating set -/
  wf : MultiIndex.WellFormed p.m_spent_key_images
  /-- a key image lists exactly the pooled transactions that spend it -/
  spent : ∀ k txid, txid ∈ MultiIndex.ids p.m_spent_key_images k ↔
    ∃ x ∈ p.pooled, x.txid = txid ∧ k ∈ key_images_of x.tx.vin
  /-- the weight is the sum of the pooled weights, and `δ` -/
  weight : p.m_txpool_weight.toNat = (p.pooled.map (·.weight.toNat)).sum + δ
  /-- the sorted container has one entry per pooled transaction -/
  sorted : (p.m_txs_by_fee_and_receive_time.map (·.txid)).Perm p.txpool.txids
  /-- every txid in `m_added_txs_by_id` is pooled -/
  added_pooled : ∀ txid, (p.m_added_txs_by_id txid).isSome → txid ∈ p.txpool.txids
  /-- and every pooled txid is there, but those it has `lost` -/
  pooled_added : ∀ txid ∈ p.txpool.txids, txid ∉ lost → (p.m_added_txs_by_id txid).isSome

/-- The empty pool keeps its books. -/
theorem PoolBook.empty {lost : List Crypto.Hash} : PoolBook 0 lost tx_memory_pool.empty where
  inputs := by simp [tx_memory_pool.pooled, tx_memory_pool.empty]
  wf := fun _ _ h => by cases h
  spent := by simp [tx_memory_pool.pooled, tx_memory_pool.empty, MultiIndex.ids]
  weight := rfl
  sorted := List.Perm.refl _
  added_pooled := by simp [tx_memory_pool.empty]
  pooled_added := by simp [tx_memory_pool.empty, txpool_table.txids]

/-! ### Removing a row -/

/-- What `take_tx` and `prune` do to remove a pooled transaction: its row `e`, its weight, its key
images and the sorted entry `x` of its txid go. -/
def remove_row (p : tx_memory_pool) (e : txpool_entry) (x : tx_by_fee_and_receive_time_entry) :
    tx_memory_pool :=
  let p := ({ p with txpool := p.txpool.remove_txpool_tx e.txid } : tx_memory_pool)
    |>.reduce_txpool_weight e.tx_meta.weight
  let p := (p.remove_transaction_keyimages e.blob e.txid).2
  p.remove_tx_from_transient_lists (some x) e.txid

section remove_row

variable {δ : ℕ} {lost : List Crypto.Hash} {p : tx_memory_pool} {e : txpool_entry}
  {x : tx_by_fee_and_receive_time_entry}

theorem mem_pooled_remove {y : pooled_tx} :
    y ∈ (remove_row p e x).pooled ↔ y ∈ p.pooled ∧ y.txid ≠ e.txid := by
  simp only [remove_row, tx_memory_pool.pooled, reduce_txpool_weight, remove_transaction_keyimages,
    remove_tx_from_transient_lists, txpool_table.entries_remove_txpool_tx, List.mem_map,
    List.mem_filter, bne_iff_ne, ne_eq]
  constructor
  · rintro ⟨e', ⟨he', hne⟩, rfl⟩
    exact ⟨⟨e', he', rfl⟩, hne⟩
  · rintro ⟨⟨e', he', rfl⟩, hne⟩
    exact ⟨e', ⟨he', hne⟩, rfl⟩

theorem mem_txids_remove {txid : Crypto.Hash} :
    txid ∈ (remove_row p e x).txpool.txids ↔ txid ∈ p.txpool.txids ∧ txid ≠ e.txid := by
  simp only [remove_row, reduce_txpool_weight, remove_transaction_keyimages,
    remove_tx_from_transient_lists, txpool_table.txids, txpool_table.entries_remove_txpool_tx,
    List.mem_map, List.mem_filter, bne_iff_ne, ne_eq]
  constructor
  · rintro ⟨e', ⟨he', hne⟩, rfl⟩
    exact ⟨⟨e', he', rfl⟩, hne⟩
  · rintro ⟨⟨e', he', rfl⟩, hne⟩
    exact ⟨e', ⟨he', hne⟩, rfl⟩

theorem perm_pooled_remove (he : e ∈ p.txpool.entries) :
    p.pooled.Perm (e.pooled :: (remove_row p e x).pooled) :=
  (p.txpool.perm_remove_txpool_tx he).map txpool_entry.pooled

theorem perm_txids_remove (he : e ∈ p.txpool.entries) :
    p.txpool.txids.Perm (e.txid :: (remove_row p e x).txpool.txids) := by
  have h := (p.txpool.perm_remove_txpool_tx he).map (fun e : txpool_entry => e.txid)
  rw [List.map_cons] at h
  exact h

/-- The removal takes the row's weight off: it is part of the sum, so the weight does not
underflow. -/
theorem PoolBook.remove_row_weight (hp : PoolBook δ lost p) (he : e ∈ p.txpool.entries) :
    (remove_row p e x).m_txpool_weight.toNat =
      ((remove_row p e x).pooled.map (·.weight.toNat)).sum + δ := by
  have hsum : (p.pooled.map (·.weight.toNat)).sum =
      e.tx_meta.weight.toNat + ((remove_row p e x).pooled.map (·.weight.toNat)).sum := by
    rw [((perm_pooled_remove he).map _).sum_eq, List.map_cons, List.sum_cons]
    rfl
  have hle : e.tx_meta.weight.toNat ≤ p.m_txpool_weight.toNat := by
    rw [hp.weight, hsum]
    omega
  have hnot : ¬ e.tx_meta.weight > p.m_txpool_weight := by
    rw [gt_iff_lt, UInt64.lt_iff_toNat_lt]
    omega
  show (if e.tx_meta.weight > p.m_txpool_weight then 0 else p.m_txpool_weight - e.tx_meta.weight).toNat = _
  rw [if_neg hnot, UInt64.toNat_sub_of_le _ _ (UInt64.le_iff_toNat_le.mpr hle), hp.weight, hsum]
  omega

/-- The removal takes the txid from under each key image of the row. -/
theorem PoolBook.remove_row_spent (hp : PoolBook δ lost p) (he : e ∈ p.txpool.entries) :
    (remove_row p e x).m_spent_key_images =
      MultiIndex.eraseAll p.m_spent_key_images (key_images_of e.blob.vin) e.txid := by
  have hin : check_inputs_types_supported e.blob = true ∧ (key_images_of e.blob.vin).Nodup :=
    hp.inputs e.pooled (List.mem_map_of_mem he)
  have hmem : ∀ k ∈ key_images_of e.blob.vin, e.txid ∈ MultiIndex.ids p.m_spent_key_images k :=
    fun k hk => (hp.spent k e.txid).mpr ⟨e.pooled, List.mem_map_of_mem he, rfl, hk⟩
  show (remove_transaction_keyimages_loop e.txid e.blob.vin p.m_spent_key_images).2 = _
  rw [remove_transaction_keyimages_loop_eq hp.wf (forall_to_key_of_check hin.1) hin.2 hmem]

/-- Removing a pooled transaction keeps the books. -/
theorem PoolBook.remove_row (hp : PoolBook δ lost p) (he : e ∈ p.txpool.entries)
    (hx : x ∈ p.m_txs_by_fee_and_receive_time) (hxt : x.txid = e.txid) :
    PoolBook δ lost (remove_row p e x) where
  inputs y hy := hp.inputs y (mem_pooled_remove.mp hy).1
  wf := by
    rw [hp.remove_row_spent he]
    exact hp.wf.eraseAll
  spent k txid := by
    rw [hp.remove_row_spent he, MultiIndex.mem_ids_eraseAll hp.wf, hp.spent]
    constructor
    · rintro ⟨⟨y, hy, rfl, hk⟩, hnot⟩
      -- the row's own entry is the one taken out
      refine ⟨y, mem_pooled_remove.mpr ⟨hy, fun hye => hnot ⟨?_, hye⟩⟩, rfl, hk⟩
      rcases List.mem_map.mp hy with ⟨e', he', rfl⟩
      rw [p.txpool.eq_of_txid_eq he' he hye] at hk
      exact hk
    · rintro ⟨y, hy, rfl, hk⟩
      obtain ⟨hy, hne⟩ := mem_pooled_remove.mp hy
      exact ⟨⟨y, hy, rfl, hk⟩, fun h => hne h.2⟩
  weight := hp.remove_row_weight he
  sorted := by
    have hsorted := (List.perm_cons_erase hx).map (·.txid) |>.symm.trans hp.sorted
    rw [List.map_cons, hxt] at hsorted
    exact (hsorted.trans (perm_txids_remove he)).cons_inv
  added_pooled txid := by
    rw [mem_txids_remove]
    show (Function.update p.m_added_txs_by_id e.txid none txid).isSome → _
    by_cases h : txid = e.txid
    · subst h
      simp
    · rw [Function.update_of_ne h]
      exact fun h' => ⟨hp.added_pooled txid h', h⟩
  pooled_added txid := by
    rw [mem_txids_remove]
    rintro ⟨hmem, h⟩ hl
    show (Function.update p.m_added_txs_by_id e.txid none txid).isSome
    rw [Function.update_of_ne h]
    exact hp.pooled_added txid hmem hl

end remove_row

/-! ### `take_tx` and `prune` -/

section take_prune

variable {δ : ℕ} {lost : List Crypto.Hash} {p : tx_memory_pool}

/-- The container has exactly one entry per pooled txid, and its txids are distinct. -/
theorem PoolBook.nodup_sorted (hp : PoolBook δ lost p) :
    (p.m_txs_by_fee_and_receive_time.map (·.txid)).Nodup :=
  hp.sorted.nodup_iff.mpr p.txpool.nodup

/-- A pooled txid has its entry in the sorted container. -/
theorem PoolBook.find_tx_in_sorted_container (hp : PoolBook δ lost p) {id : Crypto.Hash}
    (h : id ∈ p.txpool.txids) :
    ∃ x, p.find_tx_in_sorted_container id = some x ∧ x ∈ p.m_txs_by_fee_and_receive_time ∧
      x.txid = id := by
  obtain ⟨x₀, hx₀, hx₀t⟩ := List.mem_map.mp (hp.sorted.mem_iff.mpr h)
  obtain ⟨x, hx⟩ : ∃ x, p.find_tx_in_sorted_container id = some x :=
    Option.isSome_iff_exists.mp (List.find?_isSome.mpr ⟨x₀, hx₀, by simp [hx₀t]⟩)
  exact ⟨x, hx, List.mem_of_find?_eq_some hx, by simpa using List.find?_some hx⟩

theorem take_tx_eq_remove_row {id : Crypto.Hash} {e : txpool_entry}
    {x : tx_by_fee_and_receive_time_entry} (hfind : p.txpool.find id = some e)
    (hx : p.find_tx_in_sorted_container id = some x) :
    (p.take_tx id).2 = remove_row p e x := by
  obtain ⟨-, rfl⟩ := (p.txpool.find_eq_some_iff).mp hfind
  unfold take_tx
  rw [hfind]
  -- the container is looked up after the key images go, which leave it as it was
  change remove_tx_from_transient_lists _ (p.find_tx_in_sorted_container e.txid) e.txid = _
  rw [hx]
  rfl

/-- `take_tx` keeps the books. -/
theorem PoolBook.take_tx (hp : PoolBook δ lost p) (id : Crypto.Hash) : PoolBook δ lost (p.take_tx id).2 := by
  cases hfind : p.txpool.find id with
  | none =>
    unfold tx_memory_pool.take_tx
    rw [hfind]
    exact hp
  | some e =>
    obtain ⟨he, hid⟩ := (p.txpool.find_eq_some_iff).mp hfind
    obtain ⟨x, hx, hxmem, hxt⟩ :=
      hp.find_tx_in_sorted_container ((p.txpool.mem_txids).mpr ⟨e, he, hid⟩)
    rw [take_tx_eq_remove_row hfind hx]
    exact hp.remove_row he hxmem (hxt.trans hid.symm)

/-- The loop of `prune` keeps the books, while the entries still to visit are in the container
with distinct txids. -/
theorem PoolBook.prune_loop (bytes : UInt64) :
    ∀ (its : List tx_by_fee_and_receive_time_entry) (p : tx_memory_pool), PoolBook δ lost p →
      (∀ x ∈ its, x ∈ p.m_txs_by_fee_and_receive_time) → (its.map (·.txid)).Nodup →
        PoolBook δ lost (prune_loop bytes its p)
  | [], _, hp, _, _ => hp
  | it :: its, p, hp, hmem, hnd => by
    rw [List.map_cons, List.nodup_cons] at hnd
    have hrest : ∀ x ∈ its, x ∈ p.m_txs_by_fee_and_receive_time :=
      fun x hx => hmem x (List.mem_cons_of_mem _ hx)
    rw [tx_memory_pool.prune_loop]
    split_ifs with hle
    · exact hp
    · cases hfind : p.txpool.find it.txid with
      | none => exact PoolBook.prune_loop bytes its p hp hrest hnd.2
      | some e =>
        obtain ⟨he, htx⟩ := (p.txpool.find_eq_some_iff).mp hfind
        simp only
        split_ifs with hkept
        · exact PoolBook.prune_loop bytes its p hp hrest hnd.2
        · -- a pruned entry is removed with its row; the later entries stay in the container
          rw [← htx]
          refine PoolBook.prune_loop bytes its (tx_memory_pool.remove_row p e it)
            (hp.remove_row he (hmem it List.mem_cons_self) htx.symm) ?_ hnd.2
          intro x hx
          have hne : x ≠ it := fun h => hnd.1 (List.mem_map.mpr ⟨x, hx, by rw [h]⟩)
          exact List.mem_erase_of_ne hne |>.mpr (hrest x hx)

/-- `prune` keeps the books. -/
theorem PoolBook.prune (hp : PoolBook δ lost p) (bytes : UInt64) : PoolBook δ lost (p.prune bytes) := by
  unfold tx_memory_pool.prune
  split
  · exact hp
  · -- the walk visits the container's entries but its first, from the last
    dsimp only
    have hsub : (p.m_txs_by_fee_and_receive_time.reverse.dropLast).Sublist
        p.m_txs_by_fee_and_receive_time.reverse := List.dropLast_sublist _
    refine hp.prune_loop _ _ p (fun x hx => List.mem_reverse.mp (hsub.subset hx)) ?_
    have hnd := hp.nodup_sorted
    rw [← List.nodup_reverse, ← List.map_reverse] at hnd
    exact hnd.sublist (hsub.map _)

end take_prune

/-! ### Adding a row -/

section add_row

variable {δ : ℕ} {lost : List Crypto.Hash} {p : tx_memory_pool} {tx : transaction} {id : Crypto.Hash}

theorem mem_txids_of_mem_spent (hp : PoolBook δ lost p) {k : key_image} {txid : Crypto.Hash}
    (h : txid ∈ MultiIndex.ids p.m_spent_key_images k) : txid ∈ p.txpool.txids := by
  obtain ⟨y, hy, rfl, -⟩ := (hp.spent k txid).mp h
  rw [← map_txid_pooled]
  exact List.mem_map_of_mem hy

/-- `insert_key_images` of a txid that is not pooled succeeds, when its key images are free or
the transaction comes in a block. -/
theorem PoolBook.insert_key_images (hp : PoolBook δ lost p) {tx_relay : relay_method}
    (hid : id ∉ p.txpool.txids) (hto : check_inputs_types_supported tx = true)
    (hnd : (key_images_of tx.vin).Nodup)
    (hfree : tx_relay = .block ∨ ∀ k ∈ key_images_of tx.vin, MultiIndex.ids p.m_spent_key_images k = []) :
    p.insert_key_images tx id tx_relay =
      (true, { p with
        m_spent_key_images := MultiIndex.insertAll p.m_spent_key_images (key_images_of tx.vin) id }) := by
  have hok : (insert_key_images_loop p.txpool id tx_relay tx.vin p.m_spent_key_images).1 = true :=
    insert_key_images_loop_of_fresh (forall_to_key_of_check hto) hnd
      (fun _ _ hmem => hid (mem_txids_of_mem_spent hp hmem)) hfree
  have hloop : insert_key_images_loop p.txpool id tx_relay tx.vin p.m_spent_key_images =
      (true, MultiIndex.insertAll p.m_spent_key_images (key_images_of tx.vin) id) :=
    Prod.ext hok (insert_key_images_loop_eq_of_ok hok)
  simp only [tx_memory_pool.insert_key_images, hloop]

@[simp] theorem txpool_add_tx_to_transient_lists {fee : fee_per_byte} {receive_time now : UInt64} :
    (p.add_tx_to_transient_lists id fee receive_time now).txpool = p.txpool := rfl

@[simp] theorem m_added_txs_by_id_add_tx_to_transient_lists {fee : fee_per_byte}
    {receive_time now : UInt64} :
    (p.add_tx_to_transient_lists id fee receive_time now).m_added_txs_by_id =
      Function.update p.m_added_txs_by_id id (some now) := rfl

/-- A txid not yet in `m_added_txs_by_id` gets a new sorted entry. -/
theorem sorted_add_tx_to_transient_lists_of_not_added (fee : fee_per_byte)
    (receive_time now : UInt64) (h : p.m_added_txs_by_id id = none) :
    (p.add_tx_to_transient_lists id fee receive_time now).m_txs_by_fee_and_receive_time =
      emplace p.m_txs_by_fee_and_receive_time ⟨fee, receive_time, id⟩ := by
  simp only [tx_memory_pool.add_tx_to_transient_lists, h]

/-- Adding a row for a txid that is not pooled, with its key images and its sorted entry, keeps the
books once the weight grows by the row's. -/
theorem PoolBook.add_row (hp : PoolBook δ lost p) {q : tx_memory_pool} (w : UInt64) (f : fee_per_byte)
    (t now : UInt64) (hid : id ∉ p.txpool.txids) (hto : check_inputs_types_supported tx = true)
    (hnd : (key_images_of tx.vin).Nodup) (hpool : q.pooled = p.pooled ++ [⟨id, tx, w⟩])
    (hspent : q.m_spent_key_images =
      MultiIndex.insertAll p.m_spent_key_images (key_images_of tx.vin) id)
    (hsorted : q.m_txs_by_fee_and_receive_time = emplace p.m_txs_by_fee_and_receive_time ⟨f, t, id⟩)
    (hadded : q.m_added_txs_by_id = Function.update p.m_added_txs_by_id id (some now))
    (hw : q.m_txpool_weight.toNat = p.m_txpool_weight.toNat + w.toNat) : PoolBook δ lost q := by
  have htxids : q.txpool.txids = p.txpool.txids ++ [id] := by
    rw [← map_txid_pooled, ← map_txid_pooled, hpool, List.map_append]
    rfl
  have hmem : ∀ y, y ∈ q.pooled ↔ y ∈ p.pooled ∨ y = ⟨id, tx, w⟩ := by
    intro y
    rw [hpool, List.mem_append, List.mem_singleton]
  refine ⟨?_, ?_, ?_, ?_, ?_, ?_, ?_⟩
  · -- inputs
    intro y hy
    rcases (hmem y).mp hy with hy | rfl
    · exact hp.inputs y hy
    · exact ⟨hto, hnd⟩
  · rw [hspent]
    exact hp.wf.insertAll
  · -- a key image gets the new txid exactly when the new transaction spends it
    intro k txid
    rw [hspent, MultiIndex.mem_ids_insertAll, hp.spent]
    constructor
    · rintro (⟨y, hy, rfl, hk⟩ | ⟨hk, rfl⟩)
      · exact ⟨y, (hmem y).mpr (.inl hy), rfl, hk⟩
      · exact ⟨⟨txid, tx, w⟩, (hmem _).mpr (.inr rfl), rfl, hk⟩
    · rintro ⟨y, hy, rfl, hk⟩
      rcases (hmem y).mp hy with hy | rfl
      · exact .inl ⟨y, hy, rfl, hk⟩
      · exact .inr ⟨hk, rfl⟩
  · rw [hw, hp.weight, hpool, List.map_append, List.sum_append]
    simp only [List.map_cons, List.map_nil, List.sum_cons, List.sum_nil]
    omega
  · -- the new entry is the one txid the container did not have
    have hnot : id ∉ p.m_txs_by_fee_and_receive_time.map (·.txid) :=
      fun h => hid (hp.sorted.mem_iff.mp h)
    rw [hsorted, htxids]
    exact (map_txid_emplace hnot).trans ((hp.sorted.cons id).trans (List.perm_append_singleton id _).symm)
  · intro txid
    rw [hadded, htxids, List.mem_append, List.mem_singleton]
    by_cases h : txid = id
    · subst h
      simp
    · rw [Function.update_of_ne h]
      exact fun h' => .inl (hp.added_pooled txid h')
  · intro txid
    rw [htxids, List.mem_append, List.mem_singleton, hadded]
    rintro (hmem | rfl) hl
    · by_cases h : txid = id
      · subst h
        simp
      · rw [Function.update_of_ne h]
        exact hp.pooled_added txid hmem hl
    · simp

end add_row

/-! ### The two paths of `add_tx` for a transaction not yet pooled -/

section paths

variable {δ : ℕ} {lost : List Crypto.Hash} {p : tx_memory_pool} {tx : transaction} {id : Crypto.Hash}
  {tx_weight : UInt64} {tvc : tx_verification_context} {tx_relay : relay_method} {relayed : Bool} {fee now : UInt64}

theorem toNat_add_of_lt {a b : UInt64} (h : a.toNat + b.toNat < 2 ^ 64) :
    (a + b).toNat = a.toNat + b.toNat := by
  rw [UInt64.toNat_add, Nat.mod_eq_of_lt h]

theorem PoolBook.added_eq_none (hp : PoolBook δ lost p) (hid : id ∉ p.txpool.txids) :
    p.m_added_txs_by_id id = none :=
  Option.not_isSome_iff_eq_none.mp fun h => hid (hp.added_pooled id h)

/-- The path for a transaction kept from a block pools it, and the books hold once `add_tx` adds
its weight. -/
theorem PoolBook.add_tx_kept_by_block (hp : PoolBook δ lost p) (hid : id ∉ p.txpool.txids)
    (hto : check_inputs_types_supported tx = true) (hnd : (key_images_of tx.vin).Nodup)
    (hfree : tx_relay = .block ∨
      ∀ k ∈ key_images_of tx.vin, MultiIndex.ids p.m_spent_key_images k = [])
    (hw : p.m_txpool_weight.toNat + tx_weight.toNat < 2 ^ 64) :
    ∃ tvc' q, p.add_tx_kept_by_block tx id tx_weight tvc tx_relay relayed fee now = .ok (tvc', q) ∧
      PoolBook δ lost { q with m_txpool_weight := q.m_txpool_weight + tx_weight } := by
  unfold tx_memory_pool.add_tx_kept_by_block
  rw [hp.insert_key_images hid hto hnd hfree]
  simp only [Bool.not_true, Bool.false_eq_true, if_false]
  split
  · next herr =>
    -- the txid has no row, so the table takes it
    exact absurd herr (txpool_table.add_txpool_tx_ne_error _ hid)
  · next db hdb =>
    obtain ⟨-, hentries⟩ := (txpool_table.add_txpool_tx_eq_ok_iff _).mp hdb
    refine ⟨_, _, rfl, ?_⟩
    refine hp.add_row tx_weight (fee_per_byte.of fee tx_weight) now now hid hto hnd ?_ rfl ?_ rfl
      (toNat_add_of_lt hw)
    · simp only [tx_memory_pool.pooled, txpool_add_tx_to_transient_lists, hentries,
        List.map_append, List.map_cons, List.map_nil]
      rfl
    · exact sorted_add_tx_to_transient_lists_of_not_added _ now now (hp.added_eq_none hid)

/-- The main path pools a transaction that is not pooled, with a new row whatever its relay
method, and the books hold once `add_tx` adds its weight. -/
theorem PoolBook.add_tx_main (hp : PoolBook δ lost p) (hid : id ∉ p.txpool.txids)
    (hto : check_inputs_types_supported tx = true) (hnd : (key_images_of tx.vin).Nodup)
    (hfree : tx_relay = .block ∨
      ∀ k ∈ key_images_of tx.vin, MultiIndex.ids p.m_spent_key_images k = [])
    (hw : p.m_txpool_weight.toNat + tx_weight.toNat < 2 ^ 64) (max_used_block_height : UInt64)
    (max_used_block_id : Crypto.Hash) (forward_time : UInt64) :
    ∃ tvc' q, p.add_tx_main tx id tx_weight tvc tx_relay relayed fee max_used_block_height
        max_used_block_id now forward_time = .ok (tvc', q) ∧
      PoolBook δ lost { q with m_txpool_weight := q.m_txpool_weight + tx_weight } := by
  have hnone : p.txpool.get_txpool_tx_meta id = none := by
    simp [txpool_table.get_txpool_tx_meta, (p.txpool.find_eq_none_iff).mpr hid]
  unfold tx_memory_pool.add_tx_main
  simp only [hnone, Option.isNone_none, Bool.or_true, if_true]
  rw [hp.insert_key_images hid hto hnd hfree]
  simp only [Bool.not_true, Bool.false_eq_true, if_false]
  split
  · next herr =>
    -- the row of the txid is removed first, so the table takes the new one
    exact absurd herr (txpool_table.add_txpool_tx_ne_error _
      (txpool_table.not_mem_txids_remove_txpool_tx _))
  · next db hdb =>
    obtain ⟨-, hentries⟩ := (txpool_table.add_txpool_tx_eq_ok_iff _).mp hdb
    rw [txpool_table.remove_txpool_tx_of_not_mem _ hid] at hentries
    refine ⟨_, _, rfl, ?_⟩
    refine hp.add_row tx_weight (fee_per_byte.of fee tx_weight) now now hid hto hnd ?_ rfl ?_ rfl
      (toNat_add_of_lt hw)
    · simp only [tx_memory_pool.pooled, txpool_add_tx_to_transient_lists, hentries,
        List.map_append, List.map_cons, List.map_nil]
      rfl
    · exact sorted_add_tx_to_transient_lists_of_not_added _ now now (hp.added_eq_none hid)

end paths

/-! ### What `add_tx` can do -/

/-- The end of `add_tx` after one of its two paths: a failure returns `false` with what the path
left, a success adds the weight and prunes. -/
def add_tx_finish (tx_weight : UInt64) :
    Except (tx_verification_context × tx_memory_pool) (tx_verification_context × tx_memory_pool) →
      Bool × tx_verification_context × tx_memory_pool
  | .error (tvc, p) => (false, tvc, p)
  | .ok (tvc, p) =>
    let p := { p with m_txpool_weight := p.m_txpool_weight + tx_weight }
    (true, { tvc with m_verifivation_failed := false }, p.prune p.m_txpool_max_weight)

@[simp] theorem add_tx_finish_error {tx_weight : UInt64} {tvc : tx_verification_context}
    {p : tx_memory_pool} : add_tx_finish tx_weight (.error (tvc, p)) = (false, tvc, p) := rfl

@[simp] theorem add_tx_finish_ok {tx_weight : UInt64} {tvc : tx_verification_context}
    {p : tx_memory_pool} :
    add_tx_finish tx_weight (.ok (tvc, p)) =
      (true, { tvc with m_verifivation_failed := false },
        ({ p with m_txpool_weight := p.m_txpool_weight + tx_weight } : tx_memory_pool).prune
          p.m_txpool_max_weight) := rfl

section cases

variable (bc : Blockchain) (p : tx_memory_pool) (tx : transaction) (id : Crypto.Hash)
  (tx_weight : UInt64) (tvc : tx_verification_context) (tx_relay : relay_method) (relayed : Bool)
  (version : UInt8) (now forward_time : UInt64)

/-- What `add_tx` can do, read off its checks: refuse with the pool as it was, refuse a double
spend after marking the pooled transactions it conflicts with, or take one of its two paths with
key inputs only and, outside a block, no key image spent. -/
theorem add_tx_cases {r : Bool × tx_verification_context × tx_memory_pool}
    (h : p.add_tx bc tx id tx_weight tvc tx_relay relayed version now forward_time = r) :
    r.1 = false ∧ r.2.2 = p ∨
    r.1 = false ∧ r.2.2 = p.mark_double_spend tx ∨
    check_inputs_types_supported tx = true ∧
      (tx_relay ≠ .block → p.have_tx_keyimges_as_spent tx id = false) ∧
      ∃ fee tvc₀ res,
        (tx_relay = .block ∧ p.add_tx_kept_by_block tx id tx_weight tvc₀ tx_relay relayed fee now = res ∨
          ∃ max_used_block_height max_used_block_id, p.add_tx_main tx id tx_weight tvc₀ tx_relay
            relayed fee max_used_block_height max_used_block_id now forward_time = res) ∧
        r = add_tx_finish tx_weight res := by
  unfold add_tx at h
  -- each check before the paths returns the pool as it was, the double spend the pool marked
  by_cases h0 : (tx.version == 0) = true
  · rw [if_pos h0] at h
    subst h
    exact .inl ⟨rfl, rfl⟩
  rw [if_neg h0] at h
  by_cases h1 : (!(tx_relay == .block) && p.m_timed_out_transactions.contains id) = true
  · rw [if_pos h1] at h
    subst h
    exact .inl ⟨rfl, rfl⟩
  rw [if_neg h1] at h
  by_cases h2 : (version == HF_VERSION_SHUTDOWN_USER_TXS && tx.type != .MINER &&
      tx.type != .PROTOCOL) = true
  · rw [if_pos h2] at h
    subst h
    exact .inl ⟨rfl, rfl⟩
  rw [if_neg h2] at h
  by_cases h3 : (!check_inputs_types_supported tx) = true
  · rw [if_pos h3] at h
    subst h
    exact .inl ⟨rfl, rfl⟩
  rw [if_neg h3] at h
  have hto : check_inputs_types_supported tx = true := by simpa using h3
  cases hfee : add_tx_fee tx tvc with
  | error tvc' =>
    rw [hfee] at h
    subst h
    exact .inl ⟨rfl, rfl⟩
  | ok fee =>
  rw [hfee] at h
  dsimp only at h
  split at h
  · subst h
    exact .inl ⟨rfl, rfl⟩
  split at h
  · subst h
    exact .inl ⟨rfl, rfl⟩
  split at h
  · subst h
    exact .inl ⟨rfl, rfl⟩
  split at h
  · subst h
    exact .inr (.inl ⟨rfl, rfl⟩)
  next hspent =>
  have hfree : tx_relay ≠ .block → p.have_tx_keyimges_as_spent tx id = false := by
    intro hb
    simpa [hb] using hspent
  split at h
  · subst h
    exact .inl ⟨rfl, rfl⟩
  split at h
  · subst h
    exact .inl ⟨rfl, rfl⟩
  -- the inputs' check picks the path; a failed check outside a block refuses as before
  split at h
  · next tvc' q hres =>
    subst h
    split at hres
    · split at hres
      · next hb => exact .inr (.inr ⟨hto, hfree, fee, _, _, .inl ⟨by simpa using hb, hres⟩, rfl⟩)
      · cases hres
        exact .inl ⟨rfl, rfl⟩
    · exact .inr (.inr ⟨hto, hfree, fee, _, _, .inr ⟨_, _, hres⟩, rfl⟩)
  · next tvc' q hres =>
    subst h
    split at hres
    · split at hres
      · next hb => exact .inr (.inr ⟨hto, hfree, fee, _, _, .inl ⟨by simpa using hb, hres⟩, rfl⟩)
      · cases hres
    · exact .inr (.inr ⟨hto, hfree, fee, _, _, .inr ⟨_, _, hres⟩, rfl⟩)

end cases

/-! ### `add_tx` keeps the books -/

section add_tx

variable {δ : ℕ} {lost : List Crypto.Hash} {p : tx_memory_pool} {tx : transaction} {id : Crypto.Hash}
  {tx_weight : UInt64} {tvc : tx_verification_context} {tx_relay : relay_method} {relayed : Bool} {fee now : UInt64}

/-- Two states with the same pooled transactions have the same txids. -/
theorem perm_txids_of_perm_pooled {q : tx_memory_pool} (h : q.pooled.Perm p.pooled) :
    q.txpool.txids.Perm p.txpool.txids := by
  rw [← map_txid_pooled, ← map_txid_pooled]
  exact h.map _

/-- A state with the pooled transactions of a state that keeps the books, in any order, its index
and its weight keeps them too, once its own sorted entries and added txids match its rows. -/
theorem PoolBook.of_perm (hp : PoolBook δ lost p) {q : tx_memory_pool}
    (hpool : q.pooled.Perm p.pooled) (hspent : q.m_spent_key_images = p.m_spent_key_images)
    (hsorted : (q.m_txs_by_fee_and_receive_time.map (·.txid)).Perm q.txpool.txids)
    (hadded : ∀ txid, (q.m_added_txs_by_id txid).isSome ↔ (p.m_added_txs_by_id txid).isSome)
    (hw : q.m_txpool_weight = p.m_txpool_weight) : PoolBook δ lost q where
  inputs y hy := hp.inputs y (hpool.mem_iff.mp hy)
  wf := hspent ▸ hp.wf
  spent k txid := by
    rw [hspent, hp.spent]
    exact exists_congr fun y => and_congr_left' hpool.mem_iff.symm
  weight := by rw [hw, hp.weight, (hpool.map _).sum_eq]
  sorted := hsorted
  added_pooled txid h :=
    (perm_txids_of_perm_pooled hpool).mem_iff.mpr (hp.added_pooled txid ((hadded txid).mp h))
  pooled_added txid h hl :=
    (hadded txid).mpr (hp.pooled_added txid ((perm_txids_of_perm_pooled hpool).mem_iff.mp h) hl)

/-- Marking double spends keeps the books. -/
theorem PoolBook.mark_double_spend (hp : PoolBook δ lost p) (tx : transaction) :
    PoolBook δ lost (p.mark_double_spend tx) := by
  obtain ⟨db, hq, hdb⟩ := mark_double_spend_eq p tx
  have htxids : db.txids = p.txpool.txids := by
    have h := congrArg (List.map pooled_tx.txid) hdb
    simpa only [List.map_map, Function.comp_def, txid_pooled, txpool_table.txids] using h
  rw [hq]
  refine hp.of_perm ?_ rfl ?_ ?_ rfl
  · show (db.entries.map txpool_entry.pooled).Perm (p.txpool.entries.map txpool_entry.pooled)
    rw [hdb]
  · show (p.m_txs_by_fee_and_receive_time.map (·.txid)).Perm db.txids
    rw [htxids]
    exact hp.sorted
  · exact fun _ => Iff.rfl

/-- Adding to the weight alone puts it that far above the sum. -/
theorem PoolBook.add_weight (hp : PoolBook δ lost p) (w : UInt64)
    (hw : p.m_txpool_weight.toNat + w.toNat < 2 ^ 64) :
    PoolBook (δ + w.toNat) lost { p with m_txpool_weight := p.m_txpool_weight + w } where
  inputs := hp.inputs
  wf := hp.wf
  spent := hp.spent
  weight := by
    show (p.m_txpool_weight + w).toNat = (p.pooled.map (·.weight.toNat)).sum + (δ + w.toNat)
    rw [toNat_add_of_lt hw, hp.weight]
    omega
  sorted := hp.sorted
  added_pooled := hp.added_pooled
  pooled_added := hp.pooled_added

/-- Outside a block `add_tx` goes on only when `have_tx_keyimges_as_spent` is `false`; for a
transaction that is not pooled, that is when none of its key images is spent. -/
theorem PoolBook.ids_eq_nil_of_not_spent (hp : PoolBook δ lost p) (hid : id ∉ p.txpool.txids)
    (h : p.have_tx_keyimges_as_spent tx id = false) :
    ∀ k ∈ key_images_of tx.vin, MultiIndex.ids p.m_spent_key_images k = [] := by
  intro k hk
  obtain ⟨txin, hin, hkin⟩ := List.mem_filterMap.mp hk
  have hone := List.any_eq_false.mp h txin hin
  cases txin with
  | txin_to_key a k' =>
    obtain rfl : k' = k := Option.some.inj hkin
    cases hmk : p.m_spent_key_images k' with
    | none => simp [MultiIndex.ids, hmk]
    | some s =>
      have hids : MultiIndex.ids p.m_spent_key_images k' = s := by simp [MultiIndex.ids, hmk]
      rw [hids]
      by_contra hne
      -- the txid is not pooled, so it is not the one txid under the key image
      have hid_s : id ∉ s := fun hs => hid (mem_txids_of_mem_spent hp (by rw [hids]; exact hs))
      have hhead : s.head? ≠ some id := fun hh => hid_s (List.mem_of_mem_head? hh)
      apply hone
      simp [have_tx_keyimg_as_spent, hmk, hne, hhead]
  | _ => cases hkin

/-- `add_tx` of a transaction that is not pooled keeps the books whatever it returns, when the
core's check let the transaction through and the weight does not wrap. -/
theorem PoolBook.add_tx_of_not_mem (hp : PoolBook δ lost p) (bc : Blockchain)
    (hid : id ∉ p.txpool.txids) (hdiff : check_tx_inputs_keyimages_diff tx = true)
    (hw : p.m_txpool_weight.toNat + tx_weight.toNat < 2 ^ 64) (version : UInt8)
    (forward_time : UInt64) :
    PoolBook δ lost (p.add_tx bc tx id tx_weight tvc tx_relay relayed version now forward_time).2.2 := by
  obtain ⟨hto, hnd⟩ := check_tx_inputs_keyimages_diff_spec hdiff
  rcases add_tx_cases bc p tx id tx_weight tvc tx_relay relayed version now forward_time rfl with
    ⟨-, h⟩ | ⟨-, h⟩ | ⟨-, hspent, fee, tvc₀, res, hpath, h⟩
  · rw [h]
    exact hp
  · rw [h]
    exact hp.mark_double_spend tx
  · -- outside a block the key images are free, so either path pools the transaction
    have hfree : tx_relay = .block ∨
        ∀ k ∈ key_images_of tx.vin, MultiIndex.ids p.m_spent_key_images k = [] := by
      by_cases hb : tx_relay = .block
      · exact .inl hb
      · exact .inr (hp.ids_eq_nil_of_not_spent hid (hspent hb))
    rw [h]
    rcases hpath with ⟨-, hres⟩ | ⟨max_used_block_height, max_used_block_id, hres⟩
    · obtain ⟨tvc', q, hok, hq⟩ : ∃ tvc' q, p.add_tx_kept_by_block tx id tx_weight tvc₀ tx_relay
          relayed fee now = .ok (tvc', q) ∧
          PoolBook δ lost { q with m_txpool_weight := q.m_txpool_weight + tx_weight } :=
        hp.add_tx_kept_by_block hid hto hnd hfree hw
      rw [← hres, hok]
      exact hq.prune _
    · obtain ⟨tvc', q, hok, hq⟩ : ∃ tvc' q, p.add_tx_main tx id tx_weight tvc₀ tx_relay relayed fee
          max_used_block_height max_used_block_id now forward_time = .ok (tvc', q) ∧
          PoolBook δ lost { q with m_txpool_weight := q.m_txpool_weight + tx_weight } :=
        hp.add_tx_main hid hto hnd hfree hw max_used_block_height max_used_block_id forward_time
      rw [← hres, hok]
      exact hq.prune _

end add_tx

/-! ### `add_tx` of a transaction already pooled -/

section readd

variable {δ : ℕ} {lost : List Crypto.Hash} {p : tx_memory_pool} {tx : transaction} {id : Crypto.Hash}
  {tx_weight : UInt64} {tvc : tx_verification_context} {tx_relay : relay_method} {relayed : Bool} {fee now : UInt64}
  {e : txpool_entry}

/-- A pooled transaction is under each of its key images. -/
theorem PoolBook.mem_ids_of_mem (hp : PoolBook δ lost p) (he : e ∈ p.txpool.entries) :
    ∀ k ∈ key_images_of e.blob.vin, e.txid ∈ MultiIndex.ids p.m_spent_key_images k :=
  fun k hk => (hp.spent k e.txid).mpr ⟨e.pooled, List.mem_map_of_mem he, rfl, hk⟩

/-- `insert_key_images` of a pooled transaction leaves the pool as it was, whether it succeeds or
not. -/
theorem PoolBook.insert_key_images_of_mem (hp : PoolBook δ lost p) (he : e ∈ p.txpool.entries)
    (hid : e.txid = id) (hblob : e.blob = tx) :
    (p.insert_key_images tx id tx_relay).2 = p := by
  have hloop : (insert_key_images_loop p.txpool id tx_relay tx.vin p.m_spent_key_images).2 =
      p.m_spent_key_images := by
    subst hid hblob
    exact insert_key_images_loop_of_mem (hp.mem_ids_of_mem he)
  unfold tx_memory_pool.insert_key_images
  rcases hl : insert_key_images_loop p.txpool id tx_relay tx.vin p.m_spent_key_images with ⟨ok, m⟩
  rw [hl] at hloop
  subst hloop
  rfl

/-- The path for a transaction kept from a block fails for a pooled transaction, whose row is
there already, and leaves the pool as it was. -/
theorem PoolBook.add_tx_kept_by_block_of_mem (hp : PoolBook δ lost p) (he : e ∈ p.txpool.entries)
    (hid : e.txid = id) (hblob : e.blob = tx) :
    ∃ tvc', p.add_tx_kept_by_block tx id tx_weight tvc tx_relay relayed fee now = .error (tvc', p) := by
  have hmem : id ∈ p.txpool.txids := (p.txpool.mem_txids).mpr ⟨e, he, hid⟩
  have hins : (p.insert_key_images tx id tx_relay).2 = p := hp.insert_key_images_of_mem he hid hblob
  unfold tx_memory_pool.add_tx_kept_by_block
  rcases hi : p.insert_key_images tx id tx_relay with ⟨ok, q⟩
  rw [hi] at hins
  subst hins
  cases ok with
  | false => exact ⟨tvc, rfl⟩
  | true =>
    simp only [Bool.not_true, Bool.false_eq_true, if_false]
    rw [txpool_table.add_txpool_tx_of_mem _ hmem]
    exact ⟨tvc, rfl⟩

/-- A pooled txid that is not lost has its time in `m_added_txs_by_id`, so
`add_tx_to_transient_lists` replaces its sorted entry. -/
theorem PoolBook.sorted_add_tx_to_transient_lists_of_mem (hp : PoolBook δ lost p)
    (hmem : id ∈ p.txpool.txids) (hl : id ∉ lost) (fee : fee_per_byte) (receive_time now : UInt64) :
    ∃ x ∈ p.m_txs_by_fee_and_receive_time, x.txid = id ∧
      (p.add_tx_to_transient_lists id fee receive_time now).m_txs_by_fee_and_receive_time =
        emplace (p.m_txs_by_fee_and_receive_time.erase x) ⟨fee, receive_time, id⟩ := by
  obtain ⟨t, ht⟩ := Option.isSome_iff_exists.mp (hp.pooled_added id hmem hl)
  obtain ⟨x, hx, hxmem, hxt⟩ := hp.find_tx_in_sorted_container hmem
  refine ⟨x, hxmem, hxt, ?_⟩
  simp only [tx_memory_pool.add_tx_to_transient_lists, ht, hx]

/-- Renewing the time and the sorted entry of a pooled txid that is not lost keeps the books:
the container loses the txid's old entry and gets the new one. -/
theorem PoolBook.add_tx_to_transient_lists_of_mem (hp : PoolBook δ lost p)
    (hmem : id ∈ p.txpool.txids) (hl : id ∉ lost) (f : fee_per_byte) (t now : UInt64) :
    PoolBook δ lost (p.add_tx_to_transient_lists id f t now) := by
  obtain ⟨x, hxmem, hxt, hsorted⟩ := hp.sorted_add_tx_to_transient_lists_of_mem hmem hl f t now
  have hcons := (List.perm_cons_erase hxmem).map (·.txid)
  rw [List.map_cons, hxt] at hcons
  have hnot : id ∉ (p.m_txs_by_fee_and_receive_time.erase x).map (·.txid) :=
    (List.nodup_cons.mp (hcons.nodup_iff.mp hp.nodup_sorted)).1
  refine { hp with sorted := ?_, added_pooled := ?_, pooled_added := ?_ }
  · rw [hsorted]
    exact (map_txid_emplace hnot).trans (hcons.symm.trans hp.sorted)
  · intro txid
    show (Function.update p.m_added_txs_by_id id (some now) txid).isSome → txid ∈ p.txpool.txids
    by_cases h : txid = id
    · subst h
      exact fun _ => hmem
    · rw [Function.update_of_ne h]
      exact hp.added_pooled txid
  · intro txid htxid hl'
    show (Function.update p.m_added_txs_by_id id (some now) txid).isSome
    by_cases h : txid = id
    · subst h
      simp
    · rw [Function.update_of_ne h]
      exact hp.pooled_added txid htxid hl'

/-- The main path re-writing the row of a pooled transaction, with the same transaction and
weight, and renewing its sorted entry keeps the books. -/
theorem PoolBook.replace_row (hp : PoolBook δ lost p) (he : e ∈ p.txpool.entries) (hid : e.txid = id)
    (hl : id ∉ lost) (hblob : e.blob = tx) (hweight : e.tx_meta.weight = tx_weight)
    {tx_meta : txpool_tx_meta_t}
    (htw : tx_meta.weight = tx_weight) {db : txpool_table}
    (hdb : db.entries = (p.txpool.remove_txpool_tx id).entries ++ [⟨id, tx_meta, tx⟩])
    (f : fee_per_byte) (t now : UInt64) :
    PoolBook δ lost (({ p with txpool := db } : tx_memory_pool).add_tx_to_transient_lists id f t now) := by
  subst hid
  have hmem : e.txid ∈ p.txpool.txids := (p.txpool.mem_txids).mpr ⟨e, he, rfl⟩
  -- the rows are those of the pool, the txid's moved to the end
  have hperm : p.txpool.entries.Perm (e :: (p.txpool.remove_txpool_tx e.txid).entries) :=
    p.txpool.perm_remove_txpool_tx he
  have hpooled : db.entries.map txpool_entry.pooled =
      (p.txpool.remove_txpool_tx e.txid).entries.map txpool_entry.pooled ++ [e.pooled] := by
    rw [hdb, List.map_append]
    simp [txpool_entry.pooled, hblob, hweight, htw]
  have hpool_perm : (db.entries.map txpool_entry.pooled).Perm p.pooled := by
    rw [hpooled]
    exact (List.perm_append_singleton _ _).trans (hperm.map _).symm
  -- the sorted entry is renewed as for the table it had, which has the same txids
  have hq := hp.add_tx_to_transient_lists_of_mem hmem hl f t now
  refine hq.of_perm hpool_perm rfl ?_ (fun _ => Iff.rfl) rfl
  exact hq.sorted.trans (perm_txids_of_perm_pooled (q := { p with txpool := db }) hpool_perm).symm

/-- The main path for a pooled transaction fails, leaving the pool as it was, or succeeds and
keeps the books with the weight as it was: the row is re-written only when the relay method goes
up, and then with the same transaction and weight. -/
theorem PoolBook.add_tx_main_of_mem (hp : PoolBook δ lost p) (he : e ∈ p.txpool.entries)
    (hid : e.txid = id) (hl : id ∉ lost) (hblob : e.blob = tx) (hweight : e.tx_meta.weight = tx_weight)
    {max_used_block_height : UInt64} {max_used_block_id : Crypto.Hash} {forward_time : UInt64}
    {res : Except (tx_verification_context × tx_memory_pool) (tx_verification_context × tx_memory_pool)}
    (h : p.add_tx_main tx id tx_weight tvc tx_relay relayed fee max_used_block_height
      max_used_block_id now forward_time = res) :
    (∃ tvc', res = .error (tvc', p)) ∨
      ∃ tvc' q, res = .ok (tvc', q) ∧ PoolBook δ lost q ∧ q.m_txpool_weight = p.m_txpool_weight := by
  have hget : p.txpool.get_txpool_tx_meta id = some e.tx_meta :=
    (p.txpool.get_txpool_tx_meta_eq_some).mpr ⟨e, he, hid, rfl⟩
  unfold tx_memory_pool.add_tx_main at h
  simp only [hget, Option.isNone_some, Bool.or_false] at h
  generalize (if (tx_relay == relay_method.stem && e.tx_meta.dandelionpp_stem) = true then
    relay_method.fluff else tx_relay) = tx_relay' at h
  rw [hp.insert_key_images_of_mem he hid hblob] at h
  split at h
  · split at h
    · exact .inl ⟨tvc, h.symm⟩
    · split at h
      · exact .inl ⟨tvc, h.symm⟩
      · next db hdb =>
        -- the row is replaced by one with the same transaction and weight
        obtain ⟨-, hentries⟩ := (txpool_table.add_txpool_tx_eq_ok_iff _).mp hdb
        exact .inr ⟨_, _, h.symm, hp.replace_row he hid hl hblob hweight rfl hentries _ now now, rfl⟩
  · -- the relay method does not go up: nothing is written
    exact .inr ⟨_, p, h.symm, hp, rfl⟩
/-- `add_tx` of a pooled transaction, given with the transaction and weight of its row, keeps the
books with the weight `tx_weight` further above the sum when it returns `true`: it counts again
a transaction it counts already. -/
theorem PoolBook.add_tx_of_mem (hp : PoolBook δ lost p) (bc : Blockchain)
    (he : e ∈ p.txpool.entries) (hid : e.txid = id) (hl : id ∉ lost) (hblob : e.blob = tx) (hweight : e.tx_meta.weight = tx_weight)
    (hw : p.m_txpool_weight.toNat + tx_weight.toNat < 2 ^ 64) (version : UInt8)
    (forward_time : UInt64) :
    PoolBook (δ + if (p.add_tx bc tx id tx_weight tvc tx_relay relayed version now
        forward_time).1 then tx_weight.toNat else 0) lost
      (p.add_tx bc tx id tx_weight tvc tx_relay relayed version now forward_time).2.2 := by
  rcases add_tx_cases bc p tx id tx_weight tvc tx_relay relayed version now forward_time rfl with
    ⟨h1, h⟩ | ⟨h1, h⟩ | ⟨-, -, fee, tvc₀, res, hpath, h⟩
  · rw [h1, h]
    simpa using hp
  · rw [h1, h]
    simpa using hp.mark_double_spend tx
  · rw [h]
    rcases hpath with ⟨-, hres⟩ | ⟨max_used_block_height, max_used_block_id, hres⟩
    · -- the row is there, so the path for a block fails with the pool as it was
      obtain ⟨tvc', hres'⟩ : ∃ tvc', p.add_tx_kept_by_block tx id tx_weight tvc₀ tx_relay relayed
          fee now = .error (tvc', p) :=
        hp.add_tx_kept_by_block_of_mem he hid hblob
      rw [← hres, hres']
      simpa using hp
    · rcases hp.add_tx_main_of_mem he hid hl hblob hweight hres with ⟨tvc', rfl⟩ | ⟨tvc', q, rfl, hq, hqw⟩
      · simpa using hp
      · simp only [add_tx_finish_ok, if_true]
        exact (hq.add_weight tx_weight (by rw [hqw]; exact hw)).prune _

/-- `add_tx` keeps the books, the weight running `tx_weight` further ahead of the sum exactly when
it re-adds a pooled transaction and returns `true`, when the core's check let the transaction
through, its txid names it, and the weight does not wrap. -/
theorem PoolBook.add_tx (hp : PoolBook δ lost p) (bc : Blockchain) (hl : id ∉ lost)
    (hdiff : check_tx_inputs_keyimages_diff tx = true)
    (hsame : ∀ e ∈ p.txpool.entries, e.txid = id → e.blob = tx ∧ e.tx_meta.weight = tx_weight)
    (hw : p.m_txpool_weight.toNat + tx_weight.toNat < 2 ^ 64) (version : UInt8)
    (forward_time : UInt64) :
    PoolBook (δ + if (p.add_tx bc tx id tx_weight tvc tx_relay relayed version now
        forward_time).1 && id ∈ p.txpool.txids then tx_weight.toNat else 0) lost
      (p.add_tx bc tx id tx_weight tvc tx_relay relayed version now forward_time).2.2 := by
  by_cases hid : id ∈ p.txpool.txids
  · obtain ⟨e, he, hid'⟩ := (p.txpool.mem_txids).mp hid
    obtain ⟨hblob, hweight⟩ := hsame e he hid'
    simpa [hid] using hp.add_tx_of_mem bc he hid' hl hblob hweight hw version forward_time
  · simpa [hid] using hp.add_tx_of_not_mem bc hid hdiff hw version forward_time

/-- A call of `add_tx` that returns `false` changes the table alone, and in it no row's txid,
transaction or weight (a double spend is marked): the key images, the weight, the sorted container
and `m_added_txs_by_id` are as they were. -/
theorem PoolBook.add_tx_eq_false (hp : PoolBook δ lost p) (bc : Blockchain) (hl : id ∉ lost)
    (hdiff : check_tx_inputs_keyimages_diff tx = true)
    (hsame : ∀ e ∈ p.txpool.entries, e.txid = id → e.blob = tx ∧ e.tx_meta.weight = tx_weight)
    (hw : p.m_txpool_weight.toNat + tx_weight.toNat < 2 ^ 64) (version : UInt8)
    (forward_time : UInt64)
    (hfalse : (p.add_tx bc tx id tx_weight tvc tx_relay relayed version now forward_time).1 = false) :
    ∃ db : txpool_table,
      (p.add_tx bc tx id tx_weight tvc tx_relay relayed version now forward_time).2.2 =
        { p with txpool := db } ∧
      db.entries.map txpool_entry.pooled = p.txpool.entries.map txpool_entry.pooled := by
  obtain ⟨hto, hnd⟩ := check_tx_inputs_keyimages_diff_spec hdiff
  rcases add_tx_cases bc p tx id tx_weight tvc tx_relay relayed version now forward_time rfl with
    ⟨-, h⟩ | ⟨-, h⟩ | ⟨-, hspent, fee, tvc₀, res, hpath, h⟩
  · exact ⟨p.txpool, h, rfl⟩
  · rw [h]
    exact mark_double_spend_eq p tx
  · rw [h] at hfalse ⊢
    -- a failed path leaves the pool as it was; a path that succeeds returns `true`
    have hnone : ∀ tvc' q, res = .error (tvc', q) → q = p →
        ∃ db : txpool_table, (add_tx_finish tx_weight res).2.2 = { p with txpool := db } ∧
          db.entries.map txpool_entry.pooled = p.txpool.entries.map txpool_entry.pooled := by
      intro tvc' q hres hq
      rw [hres, hq]
      exact ⟨p.txpool, rfl, rfl⟩
    have hnot_ok : ∀ tvc' q, res ≠ .ok (tvc', q) := by
      rintro tvc' q rfl
      simp at hfalse
    by_cases hid : id ∈ p.txpool.txids
    · obtain ⟨e, he, hid'⟩ := (p.txpool.mem_txids).mp hid
      obtain ⟨hblob, hweight⟩ := hsame e he hid'
      rcases hpath with ⟨-, hres⟩ | ⟨max_used_block_height, max_used_block_id, hres⟩
      · obtain ⟨tvc', hres'⟩ : ∃ tvc', p.add_tx_kept_by_block tx id tx_weight tvc₀ tx_relay relayed
            fee now = .error (tvc', p) :=
          hp.add_tx_kept_by_block_of_mem he hid' hblob
        exact hnone tvc' p (hres ▸ hres') rfl
      · rcases hp.add_tx_main_of_mem he hid' hl hblob hweight hres with ⟨tvc', hr⟩ | ⟨tvc', q, hr, -⟩
        · exact hnone tvc' p hr rfl
        · exact absurd hr (hnot_ok tvc' q)
    · have hfree : tx_relay = .block ∨
          ∀ k ∈ key_images_of tx.vin, MultiIndex.ids p.m_spent_key_images k = [] := by
        by_cases hb : tx_relay = .block
        · exact .inl hb
        · exact .inr (hp.ids_eq_nil_of_not_spent hid (hspent hb))
      rcases hpath with ⟨-, hres⟩ | ⟨max_used_block_height, max_used_block_id, hres⟩
      · obtain ⟨tvc', q, hok, -⟩ : ∃ tvc' q, p.add_tx_kept_by_block tx id tx_weight tvc₀ tx_relay
            relayed fee now = .ok (tvc', q) ∧
            PoolBook δ lost { q with m_txpool_weight := q.m_txpool_weight + tx_weight } :=
          hp.add_tx_kept_by_block hid hto hnd hfree hw
        exact absurd (hres ▸ hok) (hnot_ok tvc' q)
      · obtain ⟨tvc', q, hok, -⟩ : ∃ tvc' q, p.add_tx_main tx id tx_weight tvc₀ tx_relay relayed fee
            max_used_block_height max_used_block_id now forward_time = .ok (tvc', q) ∧
            PoolBook δ lost { q with m_txpool_weight := q.m_txpool_weight + tx_weight } :=
          hp.add_tx_main hid hto hnd hfree hw max_used_block_height max_used_block_id forward_time
        exact absurd (hres ▸ hok) (hnot_ok tvc' q)

/-- A chain whose checks accept everything. -/
def bc_accept : Blockchain where
  check_fee _ _ := true
  check_tx_outputs _ tvc := (true, tvc)
  check_tx_type_and_version _ tvc := (true, tvc)
  check_tx_inputs _ _ _ tvc := (true, 0, Crypto.null_hash, tvc)

/-- A transaction with one key input, and its txid. -/
def stem_tx : transaction := ⟨2, .TRANSFER, [.txin_to_key 0 ⟨Vector.replicate 32 1⟩], [], [], 1000, false⟩

def stem_txid : Crypto.Hash := ⟨Vector.replicate 32 2⟩

/-- The pool after `stem_tx` arrived fluffed. -/
def stem_pool : tx_memory_pool :=
  (empty.add_tx bc_accept stem_tx stem_txid 1500 tx_verification_context.zero .fluff false 10 100
    100).2.2

/-- A second transaction spending the key image of `stem_tx` arrives fluffed: it is refused, and
the row of `stem_tx` is marked as seen double spent, while no row's txid, transaction or weight
changes. -/
theorem add_tx_eq_false_double_spend :
    (stem_pool.add_tx bc_accept { stem_tx with txnFee := 2000 } ⟨Vector.replicate 32 3⟩ 1500
        tx_verification_context.zero .fluff false 10 101 101).1 = false ∧
      ∃ db : txpool_table,
        (stem_pool.add_tx bc_accept { stem_tx with txnFee := 2000 } ⟨Vector.replicate 32 3⟩ 1500
            tx_verification_context.zero .fluff false 10 101 101).2.2 =
          { stem_pool with txpool := db } ∧
        db.entries.map txpool_entry.pooled = stem_pool.txpool.entries.map txpool_entry.pooled ∧
        stem_pool.txpool.entries.map (·.tx_meta.double_spend_seen) = [false] ∧
        db.entries.map (·.tx_meta.double_spend_seen) = [true] := by
  have hp : PoolBook 0 [] stem_pool :=
    PoolBook.empty.add_tx_of_not_mem _ (by decide) (by decide) (by decide) _ _
  have hfalse : (stem_pool.add_tx bc_accept { stem_tx with txnFee := 2000 } ⟨Vector.replicate 32 3⟩
      1500 tx_verification_context.zero .fluff false 10 101 101).1 = false := by
    decide
  obtain ⟨db, hdb, hpooled⟩ :=
    hp.add_tx_eq_false bc_accept List.not_mem_nil (by decide) (by decide) (by decide) 10 101 hfalse
  refine ⟨hfalse, db, hdb, hpooled, by decide, ?_⟩
  have htable : (stem_pool.add_tx bc_accept { stem_tx with txnFee := 2000 } ⟨Vector.replicate 32 3⟩
      1500 tx_verification_context.zero .fluff false 10 101 101).2.2.txpool = db :=
    congrArg tx_memory_pool.txpool hdb
  rw [← htable]
  decide

end readd

/-! ### Removing stuck transactions -/

section stuck

variable {δ : ℕ} {lost : List Crypto.Hash} {p : tx_memory_pool} {now : UInt64}

/-- What the walk of `remove_stuck_transactions` does to the txid of a stuck row: it leaves the
transient lists and is marked timed out. -/
def time_out (p : tx_memory_pool) (txid : Crypto.Hash) : tx_memory_pool :=
  let p := p.remove_tx_from_transient_lists (p.find_tx_in_sorted_container txid) txid
  { p with m_timed_out_transactions := p.m_timed_out_transactions.insert txid }

/-- The stuck rows removed one at a time, each fully before the next. -/
def remove_stuck_rows : List txpool_entry → tx_memory_pool → tx_memory_pool
  | [], p => p
  | e :: es, p =>
    remove_stuck_rows es (time_out (remove_stuck_loop [(e.txid, e.tx_meta.weight)] p) e.txid)

theorem remove_transaction_keyimages_snd (p : tx_memory_pool) (tx : transaction)
    (actual_hash : Crypto.Hash) :
    (p.remove_transaction_keyimages tx actual_hash).2 =
      { p with m_spent_key_images :=
        (remove_transaction_keyimages_loop actual_hash tx.vin p.m_spent_key_images).2 } := by
  unfold remove_transaction_keyimages
  rcases remove_transaction_keyimages_loop actual_hash tx.vin p.m_spent_key_images with ⟨ok, m⟩
  rfl

/-- The walk collects the stuck rows, in the table's order, and times each out. -/
theorem remove_stuck_collect_eq (es : List txpool_entry) (q : tx_memory_pool)
    (acc : List (Crypto.Hash × UInt64)) :
    remove_stuck_collect now es (q, acc) =
      (((es.filter (is_stuck ·.tx_meta now)).map (·.txid)).foldl time_out q,
        acc ++ (es.filter (is_stuck ·.tx_meta now)).map (fun e => (e.txid, e.tx_meta.weight))) := by
  induction es generalizing q acc with
  | nil => simp [remove_stuck_collect]
  | cons e es ih =>
    by_cases h : is_stuck e.tx_meta now = true
    · simp only [remove_stuck_collect, h, if_true, List.filter_cons, List.map_cons,
        List.foldl_cons, ih, List.append_assoc, List.singleton_append]
      rfl
    · simp only [remove_stuck_collect, h, Bool.false_eq_true, if_false, List.filter_cons, ih]

/-- One step of the second loop, as a loop of its own. -/
theorem remove_stuck_loop_cons (x : Crypto.Hash × UInt64) (remove : List (Crypto.Hash × UInt64))
    (q : tx_memory_pool) :
    remove_stuck_loop (x :: remove) q = remove_stuck_loop remove (remove_stuck_loop [x] q) := by
  obtain ⟨txid, weight⟩ := x
  simp only [remove_stuck_loop]
  split <;> rfl

/-- Timing a txid out touches the transient lists alone, which the second loop does not read: the
two commute. -/
theorem remove_stuck_loop_time_out (remove : List (Crypto.Hash × UInt64)) (q : tx_memory_pool)
    (txid : Crypto.Hash) :
    remove_stuck_loop remove (time_out q txid) = time_out (remove_stuck_loop remove q) txid := by
  induction remove generalizing q with
  | nil => rfl
  | cons x remove ih =>
    obtain ⟨t, w⟩ := x
    have htable : (time_out q txid).txpool = q.txpool := rfl
    simp only [remove_stuck_loop, htable]
    split
    · exact ih q
    · -- the row's removal and the time-out touch different fields
      rw [← ih]
      congr 1

theorem remove_stuck_loop_foldl_time_out (remove : List (Crypto.Hash × UInt64))
    (txids : List Crypto.Hash) (q : tx_memory_pool) :
    remove_stuck_loop remove (txids.foldl time_out q) =
      txids.foldl time_out (remove_stuck_loop remove q) := by
  induction txids generalizing q with
  | nil => rfl
  | cons txid txids ih => rw [List.foldl_cons, ih, remove_stuck_loop_time_out, List.foldl_cons]

/-- `remove_stuck_transactions` is the removal of its stuck rows one at a time. -/
theorem remove_stuck_transactions_eq (p : tx_memory_pool) (now : UInt64) :
    p.remove_stuck_transactions now =
      remove_stuck_rows (p.txpool.entries.filter (is_stuck ·.tx_meta now)) p := by
  have hloop : ∀ (es : List txpool_entry) (q : tx_memory_pool),
      remove_stuck_loop (es.map fun e => (e.txid, e.tx_meta.weight))
        ((es.map (·.txid)).foldl time_out q) = remove_stuck_rows es q := by
    intro es
    induction es with
    | nil => intro q; rfl
    | cons e es ih =>
      intro q
      -- the row of `e` goes first; the time-outs of the later rows wait for it
      rw [List.map_cons, List.map_cons, List.foldl_cons, remove_stuck_loop_cons,
        remove_stuck_loop_foldl_time_out, remove_stuck_loop_time_out, ih]
      rfl
  unfold remove_stuck_transactions
  rw [remove_stuck_collect_eq, List.nil_append]
  exact hloop _ p

/-- The timed-out list is no part of the books. -/
theorem PoolBook.with_timed_out (hp : PoolBook δ lost p) (l : List Crypto.Hash) :
    PoolBook δ lost { p with m_timed_out_transactions := l } where
  inputs := hp.inputs
  wf := hp.wf
  spent := hp.spent
  weight := hp.weight
  sorted := hp.sorted
  added_pooled := hp.added_pooled
  pooled_added := hp.pooled_added

theorem time_out_eq {q : tx_memory_pool} {txid : Crypto.Hash} {x : tx_by_fee_and_receive_time_entry}
    (h : q.find_tx_in_sorted_container txid = some x) :
    time_out q txid =
      { q.remove_tx_from_transient_lists (some x) txid with
        m_timed_out_transactions := q.m_timed_out_transactions.insert txid } := by
  unfold time_out
  rw [h]
  rfl

/-- A pooled row removed by the second loop and then timed out is removed as `remove_row` does. -/
theorem PoolBook.remove_stuck_row (hp : PoolBook δ lost p) {e : txpool_entry}
    (he : e ∈ p.txpool.entries) :
    ∃ x ∈ p.m_txs_by_fee_and_receive_time, x.txid = e.txid ∧
      time_out (remove_stuck_loop [(e.txid, e.tx_meta.weight)] p) e.txid =
        { tx_memory_pool.remove_row p e x with
          m_timed_out_transactions := p.m_timed_out_transactions.insert e.txid } := by
  have hfind : p.txpool.find e.txid = some e := (p.txpool.find_eq_some_iff).mpr ⟨he, rfl⟩
  obtain ⟨x, hx, hxmem, hxt⟩ :=
    hp.find_tx_in_sorted_container ((p.txpool.mem_txids).mpr ⟨e, he, rfl⟩)
  refine ⟨x, hxmem, hxt, ?_⟩
  simp only [remove_stuck_loop, hfind]
  -- the loop leaves the container as it was, so the time-out finds `x`
  have hx' : ((({ p with txpool := p.txpool.remove_txpool_tx e.txid } : tx_memory_pool)
      |>.reduce_txpool_weight e.tx_meta.weight).remove_transaction_keyimages e.blob
        e.txid).2.find_tx_in_sorted_container e.txid = some x := by
    rw [remove_transaction_keyimages_snd]
    exact hx
  rw [time_out_eq hx']
  rfl

/-- Removing rows of the pool one at a time keeps the books. -/
theorem PoolBook.remove_stuck_rows : ∀ (es : List txpool_entry) (p : tx_memory_pool),
    PoolBook δ lost p → (∀ e ∈ es, e ∈ p.txpool.entries) → (es.map (·.txid)).Nodup →
      PoolBook δ lost (remove_stuck_rows es p)
  | [], _, hp, _, _ => hp
  | e :: es, p, hp, hmem, hnd => by
    rw [List.map_cons, List.nodup_cons] at hnd
    have he : e ∈ p.txpool.entries := hmem e List.mem_cons_self
    obtain ⟨x, hxmem, hxt, heq⟩ := hp.remove_stuck_row he
    rw [tx_memory_pool.remove_stuck_rows, heq]
    refine PoolBook.remove_stuck_rows es _ ((hp.remove_row he hxmem hxt).with_timed_out _) ?_ hnd.2
    intro e' he'
    -- a later row has another txid, so it is still there
    have hne : e'.txid ≠ e.txid := fun h => hnd.1 (List.mem_map.mpr ⟨e', he', h⟩)
    show e' ∈ (p.txpool.remove_txpool_tx e.txid).entries
    rw [txpool_table.entries_remove_txpool_tx, List.mem_filter]
    exact ⟨hmem e' (List.mem_cons_of_mem _ he'), by simpa using hne⟩

/-- `remove_stuck_transactions` keeps the books. -/
theorem PoolBook.remove_stuck_transactions (hp : PoolBook δ lost p) (now : UInt64) :
    PoolBook δ lost (p.remove_stuck_transactions now) := by
  rw [remove_stuck_transactions_eq]
  exact hp.remove_stuck_rows _ p (fun e he => (List.mem_filter.mp he).1)
    (p.txpool.nodup.sublist ((List.filter_sublist).map _))

/-- One txid through the second loop: its row goes, if it has one. -/
theorem entries_remove_stuck_loop_singleton (q : tx_memory_pool) (txid : Crypto.Hash)
    (weight : UInt64) :
    (remove_stuck_loop [(txid, weight)] q).txpool.entries =
      q.txpool.entries.filter (·.txid != txid) := by
  simp only [remove_stuck_loop]
  split
  · next hnone =>
    exact ((q.txpool.remove_txpool_tx_of_not_mem ((q.txpool.find_eq_none_iff).mp hnone)).symm)
  · rw [remove_transaction_keyimages_snd]
    rfl

/-- The second loop leaves the timed-out list as it was. -/
theorem timed_out_remove_stuck_loop (remove : List (Crypto.Hash × UInt64)) (q : tx_memory_pool) :
    (remove_stuck_loop remove q).m_timed_out_transactions = q.m_timed_out_transactions := by
  induction remove generalizing q with
  | nil => rfl
  | cons x remove ih =>
    rw [remove_stuck_loop_cons, ih]
    obtain ⟨txid, weight⟩ := x
    simp only [remove_stuck_loop]
    split
    · rfl
    · rw [remove_transaction_keyimages_snd]
      rfl

theorem entries_remove_stuck_rows : ∀ (es : List txpool_entry) (q : tx_memory_pool),
    (remove_stuck_rows es q).txpool.entries =
      q.txpool.entries.filter (fun e => e.txid ∉ es.map (·.txid))
  | [], q => by simp [tx_memory_pool.remove_stuck_rows]
  | e :: es, q => by
    rw [tx_memory_pool.remove_stuck_rows, entries_remove_stuck_rows es]
    show ((remove_stuck_loop [(e.txid, e.tx_meta.weight)] q).txpool.entries.filter _) = _
    rw [entries_remove_stuck_loop_singleton, List.filter_filter]
    apply List.filter_congr
    intro e' _
    by_cases h : e'.txid = e.txid <;> simp [h]

theorem mem_timed_out_remove_stuck_rows {txid : Crypto.Hash} : ∀ (es : List txpool_entry)
    (q : tx_memory_pool), txid ∈ (remove_stuck_rows es q).m_timed_out_transactions ↔
      txid ∈ q.m_timed_out_transactions ∨ txid ∈ es.map (·.txid)
  | [], q => by simp [tx_memory_pool.remove_stuck_rows]
  | e :: es, q => by
    rw [tx_memory_pool.remove_stuck_rows, mem_timed_out_remove_stuck_rows es]
    show txid ∈ List.insert e.txid (remove_stuck_loop [(e.txid, e.tx_meta.weight)] q).m_timed_out_transactions ∨ _ ↔ _
    rw [timed_out_remove_stuck_loop, List.mem_insert_iff, List.map_cons, List.mem_cons]
    tauto

/-- `remove_stuck_transactions` removes exactly the rows that are stuck at `now`, and keeps the
others in their order. -/
theorem remove_stuck_transactions_entries (p : tx_memory_pool) (now : UInt64) :
    (p.remove_stuck_transactions now).txpool.entries =
      p.txpool.entries.filter (fun e => !is_stuck e.tx_meta now) := by
  rw [remove_stuck_transactions_eq, entries_remove_stuck_rows]
  apply List.filter_congr
  intro e he
  -- the txid of a row names the row, so it is on the list exactly when the row is stuck
  have hiff : e.txid ∈ (p.txpool.entries.filter (is_stuck ·.tx_meta now)).map (·.txid) ↔
      is_stuck e.tx_meta now = true := by
    constructor
    · intro hmem
      obtain ⟨e', he', htx⟩ := List.mem_map.mp hmem
      obtain ⟨he'mem, hstuck⟩ := List.mem_filter.mp he'
      rw [← p.txpool.eq_of_txid_eq he'mem he htx]
      exact hstuck
    · intro hstuck
      exact List.mem_map.mpr ⟨e, List.mem_filter.mpr ⟨he, hstuck⟩, rfl⟩
  simp [hiff]

/-- The txids `remove_stuck_transactions` times out are those of its stuck rows, added to the ones
timed out before. -/
theorem mem_timed_out_remove_stuck_transactions (p : tx_memory_pool) (now : UInt64)
    {txid : Crypto.Hash} :
    txid ∈ (p.remove_stuck_transactions now).m_timed_out_transactions ↔
      txid ∈ p.m_timed_out_transactions ∨
        ∃ e ∈ p.txpool.entries, e.txid = txid ∧ is_stuck e.tx_meta now = true := by
  rw [remove_stuck_transactions_eq, mem_timed_out_remove_stuck_rows]
  simp only [List.mem_map, List.mem_filter]
  constructor
  · rintro (h | ⟨e, ⟨he, hs⟩, rfl⟩)
    · exact .inl h
    · exact .inr ⟨e, he, rfl, hs⟩
  · rintro (h | ⟨e, he, rfl, hs⟩)
    · exact .inl h
    · exact .inr ⟨e, ⟨he, hs⟩, rfl⟩

end stuck

end tx_memory_pool

end TxPool

end Salvium
