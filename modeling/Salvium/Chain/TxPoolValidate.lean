import Mathlib
import Salvium.Chain.TxPoolInvariant

/-!
# Salvium — relaying and re-validating the pool

Two more calls change the pool. `set_relayed` moves transactions along the Dandelion++ relay
methods and gives a transaction it broadcasts a new time and sorted entry; `validate` throws
`m_added_txs_by_id` away and takes every transaction that is not pruned out of the pool and adds
it back. Both keep the books of `Salvium.Chain.TxPoolInvariant` with one reservation, which the
set `lost` of `PoolBook` records: `validate` does not give a pruned transaction its time back.

The proofs rest on a frame for `add_tx` (`pooled_add_tx`): whatever it returns, the pool's
transactions afterwards are a sublist of those before and the one it adds. From it the weight
after a call is bounded by the weight before and the weight added, which keeps the adds of
`validate` from wrapping (`PoolBook.validate`).
-/

namespace Salvium

namespace TxPool

open tx_memory_pool

namespace txpool_table

/-! ## Metadata write-backs -/

theorem entries_update_txpool_tx {t db : txpool_table} {txid : Crypto.Hash}
    {tx_meta : txpool_tx_meta_t} (h : t.update_txpool_tx txid tx_meta = .ok db) :
    db.entries = t.entries.map fun r => if r.txid = txid then { r with tx_meta := tx_meta } else r := by
  unfold txpool_table.update_txpool_tx at h
  split at h
  · cases h
    rfl
  · cases h

/-- A metadata write-back leaves the txids. -/
theorem txids_update_txpool_tx {t db : txpool_table} {txid : Crypto.Hash}
    {tx_meta : txpool_tx_meta_t} (h : t.update_txpool_tx txid tx_meta = .ok db) :
    db.txids = t.txids := by
  rw [txpool_table.txids, txpool_table.entries_update_txpool_tx h, List.map_map]
  apply List.map_congr_left
  intro r _
  by_cases hr : r.txid = txid <;> simp [hr]

theorem mem_txids_of_update_txpool_tx {t db : txpool_table} {txid : Crypto.Hash}
    {tx_meta : txpool_tx_meta_t} (h : t.update_txpool_tx txid tx_meta = .ok db) :
    txid ∈ t.txids := by
  unfold txpool_table.update_txpool_tx at h
  split at h
  · assumption
  · cases h

end txpool_table

namespace tx_memory_pool

/-! ## The pooled transactions through each call -/

section frame

variable {p : tx_memory_pool}

@[simp] theorem pooled_reduce_txpool_weight (w : UInt64) :
    (p.reduce_txpool_weight w).pooled = p.pooled := rfl

@[simp] theorem pooled_remove_transaction_keyimages (tx : transaction) (txid : Crypto.Hash) :
    (p.remove_transaction_keyimages tx txid).2.pooled = p.pooled := rfl

@[simp] theorem pooled_insert_key_images (tx : transaction) (id : Crypto.Hash)
    (tx_relay : relay_method) : (p.insert_key_images tx id tx_relay).2.pooled = p.pooled := rfl

@[simp] theorem pooled_remove_tx_from_transient_lists
    (sorted_it : Option tx_by_fee_and_receive_time_entry) (txid : Crypto.Hash) :
    (p.remove_tx_from_transient_lists sorted_it txid).pooled = p.pooled := rfl

@[simp] theorem pooled_add_tx_to_transient_lists (txid : Crypto.Hash) (fee : fee_per_byte)
    (receive_time now : UInt64) :
    (p.add_tx_to_transient_lists txid fee receive_time now).pooled = p.pooled := rfl

/-- Removing the rows of a txid leaves a sublist of the pooled transactions. -/
theorem pooled_remove_txpool_tx (txid : Crypto.Hash) :
    ({ p with txpool := p.txpool.remove_txpool_tx txid } : tx_memory_pool).pooled.Sublist
      p.pooled := by
  show ((p.txpool.remove_txpool_tx txid).entries.map txpool_entry.pooled).Sublist _
  rw [txpool_table.entries_remove_txpool_tx]
  exact List.filter_sublist.map _

/-- The loop of `prune` only removes transactions. -/
theorem pooled_prune_loop (bytes : UInt64) :
    ∀ (its : List tx_by_fee_and_receive_time_entry) (p : tx_memory_pool),
      (prune_loop bytes its p).pooled.Sublist p.pooled
  | [], _ => .refl _
  | it :: its, p => by
    rw [tx_memory_pool.prune_loop]
    split_ifs with hle
    · exact .refl _
    · cases hfind : p.txpool.find it.txid with
      | none => exact pooled_prune_loop bytes its p
      | some e =>
        simp only
        split_ifs with hkept
        · exact pooled_prune_loop bytes its p
        · refine (pooled_prune_loop bytes its _).trans ?_
          simpa using pooled_remove_txpool_tx it.txid

theorem pooled_prune (bytes : UInt64) : (p.prune bytes).pooled.Sublist p.pooled := by
  unfold tx_memory_pool.prune
  split
  · exact .refl _
  · exact pooled_prune_loop _ _ p

theorem pooled_take_tx (id : Crypto.Hash) : (p.take_tx id).2.pooled.Sublist p.pooled := by
  unfold tx_memory_pool.take_tx
  split
  · exact .refl _
  · simpa using pooled_remove_txpool_tx id

@[simp] theorem txpool_insert_key_images (tx : transaction) (id : Crypto.Hash)
    (tx_relay : relay_method) : (p.insert_key_images tx id tx_relay).2.txpool = p.txpool := rfl

/-- The pool a path of `add_tx` leaves, whether it fails or succeeds. -/
def path_pool :
    Except (tx_verification_context × tx_memory_pool) (tx_verification_context × tx_memory_pool) →
      tx_memory_pool
  | .ok (_, q) => q
  | .error (_, q) => q

/-- The end of `add_tx` only prunes what its path left. -/
theorem pooled_add_tx_finish (tx_weight : UInt64)
    (res : Except (tx_verification_context × tx_memory_pool)
      (tx_verification_context × tx_memory_pool)) :
    (add_tx_finish tx_weight res).2.2.pooled.Sublist (path_pool res).pooled := by
  rcases res with ⟨tvc, q⟩ | ⟨tvc, q⟩
  · exact .refl _
  · exact pooled_prune _

section paths

variable {tx : transaction} {id : Crypto.Hash} {tx_weight : UInt64}
  {tvc : tx_verification_context} {tx_relay : relay_method} {relayed : Bool} {fee now : UInt64}

/-- The path for a block adds at most the transaction's own row. -/
theorem pooled_add_tx_kept_by_block :
    (path_pool (p.add_tx_kept_by_block tx id tx_weight tvc tx_relay relayed fee now)).pooled.Sublist
      (p.pooled ++ [⟨id, tx, tx_weight⟩]) := by
  unfold tx_memory_pool.add_tx_kept_by_block
  rcases hins : p.insert_key_images tx id _ with ⟨ok, q⟩
  -- inserting the key images leaves the table
  have hq : q.pooled = p.pooled := by
    simpa [hins] using pooled_insert_key_images (p := p) tx id tx_relay
  dsimp only
  split
  · show q.pooled.Sublist _
    rw [hq]
    exact List.sublist_append_left _ _
  · split
    · show q.pooled.Sublist _
      rw [hq]
      exact List.sublist_append_left _ _
    · next db hdb =>
      obtain ⟨-, hentries⟩ := (txpool_table.add_txpool_tx_eq_ok_iff _).mp hdb
      show (db.entries.map txpool_entry.pooled).Sublist _
      rw [hentries, List.map_append]
      show (q.pooled ++ _).Sublist _
      rw [hq]
      exact .refl _

/-- Writing a row in place of the txid's, in a table that is the pool's. -/
theorem pooled_replace_txpool_tx {q : tx_memory_pool} (hq : q.txpool = p.txpool)
    {tx_meta : txpool_tx_meta_t} {db : txpool_table}
    (hdb : (q.txpool.remove_txpool_tx id).add_txpool_tx id tx tx_meta = .ok db) :
    (db.entries.map txpool_entry.pooled).Sublist (p.pooled ++ [⟨id, tx, tx_meta.weight⟩]) := by
  obtain ⟨-, hentries⟩ := (txpool_table.add_txpool_tx_eq_ok_iff _).mp hdb
  rw [hentries, List.map_append, hq]
  exact (pooled_remove_txpool_tx id).append (.refl _)

/-- The main path rewrites at most the transaction's own row. -/
theorem pooled_add_tx_main {max_used_block_height : UInt64} {max_used_block_id : Crypto.Hash}
    {forward_time : UInt64} :
    (path_pool (p.add_tx_main tx id tx_weight tvc tx_relay relayed fee max_used_block_height
      max_used_block_id now forward_time)).pooled.Sublist (p.pooled ++ [⟨id, tx, tx_weight⟩]) := by
  unfold tx_memory_pool.add_tx_main
  dsimp only
  -- the written row's last relay time depends on the relay method, and the flags of the result
  -- on the fee: neither touches the table
  split_ifs with hup hok hfwd
  · -- the key images fail: the table is as it was
    simp [path_pool]
  · split
    · simp [path_pool]
    · next db hdb => exact pooled_replace_txpool_tx (txpool_insert_key_images ..) hdb
  · split
    · simp [path_pool]
    · next db hdb => exact pooled_replace_txpool_tx (txpool_insert_key_images ..) hdb
  · -- the relay method does not go up: nothing is written
    exact List.sublist_append_left _ _
  · exact List.sublist_append_left _ _

/-- Whatever `add_tx` returns, the pooled transactions after it are a sublist of those before and
the one it adds. -/
theorem pooled_add_tx (bc : Blockchain) (version : UInt8) (forward_time : UInt64) :
    (p.add_tx bc tx id tx_weight tvc tx_relay relayed version now forward_time).2.2.pooled.Sublist
      (p.pooled ++ [⟨id, tx, tx_weight⟩]) := by
  rcases add_tx_cases bc p tx id tx_weight tvc tx_relay relayed version now forward_time rfl with
    ⟨-, h⟩ | ⟨-, h⟩ | ⟨-, -, fee, tvc₀, res, hpath, h⟩
  · rw [h]
    exact List.sublist_append_left _ _
  · -- marking a double spend changes flags only
    obtain ⟨db, hq, hdb⟩ := mark_double_spend_eq p tx
    rw [h, hq]
    show (db.entries.map txpool_entry.pooled).Sublist _
    rw [hdb]
    exact List.sublist_append_left _ _
  · rw [h]
    refine (pooled_add_tx_finish tx_weight res).trans ?_
    rcases hpath with ⟨-, rfl⟩ | ⟨_, _, rfl⟩
    · exact pooled_add_tx_kept_by_block
    · exact pooled_add_tx_main

end paths

end frame

/-! ## The times of `m_added_txs_by_id` through each call

A txid without a time keeps none through every call but the ones that add its own row. -/

section added

variable {p : tx_memory_pool} {txid : Crypto.Hash}

@[simp] theorem added_insert_key_images (tx : transaction) (id : Crypto.Hash)
    (tx_relay : relay_method) :
    (p.insert_key_images tx id tx_relay).2.m_added_txs_by_id = p.m_added_txs_by_id := rfl

theorem added_remove_tx_from_transient_lists
    (sorted_it : Option tx_by_fee_and_receive_time_entry) (id : Crypto.Hash)
    (h : p.m_added_txs_by_id txid = none) :
    (p.remove_tx_from_transient_lists sorted_it id).m_added_txs_by_id txid = none := by
  simp [tx_memory_pool.remove_tx_from_transient_lists, Function.update_apply, h]

theorem added_add_tx_to_transient_lists_of_ne {id : Crypto.Hash} (fee : fee_per_byte)
    (receive_time now : UInt64) (hne : txid ≠ id) :
    (p.add_tx_to_transient_lists id fee receive_time now).m_added_txs_by_id txid =
      p.m_added_txs_by_id txid :=
  Function.update_of_ne hne _ _

theorem added_take_tx (id : Crypto.Hash) (h : p.m_added_txs_by_id txid = none) :
    (p.take_tx id).2.m_added_txs_by_id txid = none := by
  unfold tx_memory_pool.take_tx
  split
  · exact h
  · exact added_remove_tx_from_transient_lists _ id h

theorem added_prune_loop (bytes : UInt64) :
    ∀ (its : List tx_by_fee_and_receive_time_entry) (p : tx_memory_pool),
      p.m_added_txs_by_id txid = none → (prune_loop bytes its p).m_added_txs_by_id txid = none
  | [], _, h => h
  | it :: its, p, h => by
    rw [tx_memory_pool.prune_loop]
    split_ifs with hle
    · exact h
    · cases hfind : p.txpool.find it.txid with
      | none => exact added_prune_loop bytes its p h
      | some e =>
        simp only
        split_ifs with hkept
        · exact added_prune_loop bytes its p h
        · exact added_prune_loop bytes its _ (added_remove_tx_from_transient_lists _ _ h)

theorem added_prune (bytes : UInt64) (h : p.m_added_txs_by_id txid = none) :
    (p.prune bytes).m_added_txs_by_id txid = none := by
  unfold tx_memory_pool.prune
  split
  · exact h
  · exact added_prune_loop _ _ p h

theorem added_add_tx_finish (tx_weight : UInt64)
    (res : Except (tx_verification_context × tx_memory_pool)
      (tx_verification_context × tx_memory_pool))
    (h : (path_pool res).m_added_txs_by_id txid = none) :
    (add_tx_finish tx_weight res).2.2.m_added_txs_by_id txid = none := by
  rcases res with ⟨tvc, q⟩ | ⟨tvc, q⟩
  · exact h
  · exact added_prune _ h

section paths

variable {tx : transaction} {id : Crypto.Hash} {tx_weight : UInt64}
  {tvc : tx_verification_context} {tx_relay : relay_method} {relayed : Bool} {fee now : UInt64}

theorem added_add_tx_kept_by_block (hne : txid ≠ id) :
    (path_pool (p.add_tx_kept_by_block tx id tx_weight tvc tx_relay relayed fee now)).m_added_txs_by_id
      txid = p.m_added_txs_by_id txid := by
  unfold tx_memory_pool.add_tx_kept_by_block
  dsimp only
  split
  · simp [path_pool]
  · split
    · simp [path_pool]
    · exact added_add_tx_to_transient_lists_of_ne _ _ _ hne

theorem added_add_tx_main {max_used_block_height : UInt64} {max_used_block_id : Crypto.Hash}
    {forward_time : UInt64} (hne : txid ≠ id) :
    (path_pool (p.add_tx_main tx id tx_weight tvc tx_relay relayed fee max_used_block_height
      max_used_block_id now forward_time)).m_added_txs_by_id txid = p.m_added_txs_by_id txid := by
  unfold tx_memory_pool.add_tx_main
  dsimp only
  -- the same five cases as for the pooled transactions: only the txid's own row gets a time
  split_ifs with hup hok hfwd
  · simp [path_pool]
  · split
    · simp [path_pool]
    · exact added_add_tx_to_transient_lists_of_ne _ _ _ hne
  · split
    · simp [path_pool]
    · exact added_add_tx_to_transient_lists_of_ne _ _ _ hne
  · rfl
  · rfl

/-- `add_tx` gives no time to a txid other than its own that had none. -/
theorem added_add_tx (bc : Blockchain) (version : UInt8) (forward_time : UInt64)
    (hne : txid ≠ id) (h : p.m_added_txs_by_id txid = none) :
    (p.add_tx bc tx id tx_weight tvc tx_relay relayed version now forward_time).2.2.m_added_txs_by_id
      txid = none := by
  rcases add_tx_cases bc p tx id tx_weight tvc tx_relay relayed version now forward_time rfl with
    ⟨-, hr⟩ | ⟨-, hr⟩ | ⟨-, -, fee, tvc₀, res, hpath, hr⟩
  · rw [hr]
    exact h
  · obtain ⟨db, hq, -⟩ := mark_double_spend_eq p tx
    rw [hr, hq]
    exact h
  · rw [hr]
    refine added_add_tx_finish tx_weight res ?_
    rcases hpath with ⟨-, rfl⟩ | ⟨_, _, rfl⟩
    · rw [added_add_tx_kept_by_block hne]
      exact h
    · rw [added_add_tx_main hne]
      exact h

end paths

end added

/-! ## The books through a change of `lost` or of metadata -/

section books

variable {δ : ℕ} {lost lost' : List Crypto.Hash} {p q : tx_memory_pool}

/-- `lost` matters only for pooled txids, and only as an excuse: a larger one is weaker. -/
theorem PoolBook.mono_lost (hp : PoolBook δ lost p)
    (h : ∀ txid ∈ p.txpool.txids, txid ∈ lost → txid ∈ lost') : PoolBook δ lost' p :=
  { hp with
    pooled_added := fun txid hmem hl =>
      hp.pooled_added txid hmem fun hl' => hl (h txid hmem hl') }

/-- Throwing `m_added_txs_by_id` away keeps the books once every pooled txid is lost. -/
theorem PoolBook.clear_added (hp : PoolBook δ lost p) (h : ∀ txid ∈ p.txpool.txids, txid ∈ lost') :
    PoolBook δ lost' { p with m_added_txs_by_id := fun _ => none } :=
  { hp with
    added_pooled := fun _ h' => by cases h'
    pooled_added := fun txid hmem hl => absurd (h txid hmem) hl }

/-- A table with the same pooled transactions, in the same order, keeps the books. -/
theorem PoolBook.of_pooled_eq (hp : PoolBook δ lost p) {db : txpool_table}
    (hdb : db.entries.map txpool_entry.pooled = p.txpool.entries.map txpool_entry.pooled) :
    PoolBook δ lost { p with txpool := db } := by
  have htxids : db.txids = p.txpool.txids := by
    have h := congrArg (List.map pooled_tx.txid) hdb
    simpa only [List.map_map, Function.comp_def, txid_pooled, txpool_table.txids] using h
  refine hp.of_perm (List.Perm.of_eq hdb) rfl ?_ (fun _ => Iff.rfl) rfl
  exact htxids ▸ hp.sorted

/-- A metadata write-back that keeps the row's weight keeps the books. -/
theorem PoolBook.update_txpool_tx (hp : PoolBook δ lost p) {txid : Crypto.Hash}
    {tx_meta tx_meta' : txpool_tx_meta_t} {db : txpool_table}
    (hget : p.txpool.get_txpool_tx_meta txid = some tx_meta)
    (hupd : p.txpool.update_txpool_tx txid tx_meta' = .ok db) (hw : tx_meta'.weight = tx_meta.weight) :
    PoolBook δ lost { p with txpool := db } :=
  hp.of_pooled_eq (p.txpool.update_txpool_tx_pooled hget hupd hw)

/-- The weight of a state that keeps its books is at most the weight of any list its pooled
transactions are a sublist of, and `δ`. -/
theorem PoolBook.weight_le_sum (hq : PoolBook δ lost q) {l : List pooled_tx}
    (hsub : q.pooled.Sublist l) : q.m_txpool_weight.toNat ≤ (l.map (·.weight.toNat)).sum + δ := by
  have hsum : (q.pooled.map (·.weight.toNat)).sum ≤ (l.map (·.weight.toNat)).sum :=
    (hsub.map _).sum_le_sum fun _ _ => Nat.zero_le _
  rw [hq.weight]
  omega

/-- A call whose pooled transactions afterwards are among those before and one more, keeping the
books with the same `δ`, adds at most that one's weight. -/
theorem PoolBook.weight_le (hp : PoolBook δ lost p) (hq : PoolBook δ lost' q) {n : pooled_tx}
    (hsub : q.pooled.Sublist (p.pooled ++ [n])) :
    q.m_txpool_weight.toNat ≤ p.m_txpool_weight.toNat + n.weight.toNat := by
  have h := hq.weight_le_sum hsub
  simp only [List.map_append, List.sum_append, List.map_cons, List.map_nil, List.sum_cons,
    List.sum_nil] at h
  rw [hp.weight]
  omega

/-- A call that only removes pooled transactions, keeping the books with the same `δ`, does not
add weight. -/
theorem PoolBook.weight_le_of_sublist (hp : PoolBook δ lost p) (hq : PoolBook δ lost' q)
    (hsub : q.pooled.Sublist p.pooled) : q.m_txpool_weight.toNat ≤ p.m_txpool_weight.toNat := by
  have h := hq.weight_le_sum hsub
  rw [hp.weight]
  omega

end books

/-! ## `validate` -/

section validate

variable {δ : ℕ} {p : tx_memory_pool} (bc : Blockchain) (version : UInt8)
  (now forward_time : UInt64)

theorem not_mem_txids_take_tx (id : Crypto.Hash) : id ∉ (p.take_tx id).2.txpool.txids := by
  unfold tx_memory_pool.take_tx
  cases hfind : p.txpool.find id with
  | none => exact (p.txpool.find_eq_none_iff).mp hfind
  | some e => exact txpool_table.not_mem_txids_remove_txpool_tx _

/-- What `take_tx` hands back is the transaction of the txid's row. -/
theorem take_tx_eq_some {id : Crypto.Hash} {r : take_tx_result} (h : (p.take_tx id).1 = some r) :
    ∃ e ∈ p.txpool.entries, e.txid = id ∧ r.tx = e.blob := by
  unfold tx_memory_pool.take_tx at h
  cases hfind : p.txpool.find id with
  | none =>
    rw [hfind] at h
    cases h
  | some e =>
    rw [hfind] at h
    cases h
    obtain ⟨he, hid⟩ := (p.txpool.find_eq_some_iff).mp hfind
    exact ⟨e, he, hid, rfl⟩

/-- Adding back a transaction that is not pooled keeps the books and adds at most its weight:
`add_tx` keeps them, and the metadata written back has the weight of the row it added. -/
theorem PoolBook.validate_add_back {lost : List Crypto.Hash} (hp : PoolBook δ lost p)
    {txid : Crypto.Hash} {tx_meta : txpool_tx_meta_t} (tx : transaction) (relayed : Bool)
    (hid : txid ∉ p.txpool.txids) (hdiff : check_tx_inputs_keyimages_diff tx = true)
    (hw : p.m_txpool_weight.toNat + tx_meta.weight.toNat < 2 ^ 64) :
    PoolBook δ lost
        (p.validate_add_back bc version now forward_time txid tx_meta tx relayed).2 ∧
      (p.validate_add_back bc version now forward_time txid tx_meta tx relayed).2.m_txpool_weight.toNat ≤
        p.m_txpool_weight.toNat + tx_meta.weight.toNat := by
  have hadd : PoolBook δ lost (p.add_tx bc tx txid tx_meta.weight tx_verification_context.zero
      tx_meta.get_relay_method relayed version now forward_time).2.2 :=
    hp.add_tx_of_not_mem bc hid hdiff hw version forward_time
  have hsub : (p.add_tx bc tx txid tx_meta.weight tx_verification_context.zero
      tx_meta.get_relay_method relayed version now forward_time).2.2.pooled.Sublist
      (p.pooled ++ [⟨txid, tx, tx_meta.weight⟩]) :=
    pooled_add_tx bc version forward_time
  have hwle := hp.weight_le hadd hsub
  unfold tx_memory_pool.validate_add_back
  rcases hr : p.add_tx bc tx txid tx_meta.weight tx_verification_context.zero
    tx_meta.get_relay_method relayed version now forward_time with ⟨ok, tvc', q⟩
  rw [hr] at hadd hsub hwle
  dsimp only
  split_ifs with hok
  · exact ⟨hadd, hwle⟩
  · split
    · exact ⟨hadd, hwle⟩
    · next db hdb =>
      -- the txid's row is the one `add_tx` just added, of the weight written back
      obtain ⟨e, he, heid⟩ := (q.txpool.mem_txids).mp (txpool_table.mem_txids_of_update_txpool_tx hdb)
      have hew : e.tx_meta.weight = tx_meta.weight := by
        rcases List.mem_append.mp (hsub.subset (List.mem_map_of_mem he)) with hold | hnew
        · have h : e.txid ∈ p.txpool.txids := by
            simpa using List.mem_map_of_mem (f := pooled_tx.txid) hold
          exact absurd (heid ▸ h) hid
        · simp only [List.mem_singleton] at hnew
          exact congrArg pooled_tx.weight hnew
      have hget : q.txpool.get_txpool_tx_meta txid = some e.tx_meta :=
        (q.txpool.get_txpool_tx_meta_eq_some).mpr ⟨e, he, heid, rfl⟩
      exact ⟨hadd.update_txpool_tx hget hdb hew.symm, hwle⟩

/-- One transaction of `validate` keeps the books, with its txid no longer lost, and adds at most
its weight: it is taken out, so it need not be lost, and added back as one that is not pooled. -/
theorem PoolBook.validate_tx {lost₁ lost₂ : List Crypto.Hash} {txid : Crypto.Hash}
    {tx_meta : txpool_tx_meta_t} (hp : PoolBook δ (lost₁ ++ txid :: lost₂) p)
    (hw : p.m_txpool_weight.toNat + tx_meta.weight.toNat < 2 ^ 64) :
    PoolBook δ (lost₁ ++ lost₂) (p.validate_tx bc version now forward_time txid tx_meta).2 ∧
      (p.validate_tx bc version now forward_time txid tx_meta).2.m_txpool_weight.toNat ≤
        p.m_txpool_weight.toNat + tx_meta.weight.toNat := by
  have hid := not_mem_txids_take_tx (p := p) txid
  have hq : PoolBook δ (lost₁ ++ lost₂) (p.take_tx txid).2 := by
    refine (hp.take_tx txid).mono_lost fun t ht hl => ?_
    have hne : t ≠ txid := fun h => hid (h ▸ ht)
    simp only [List.mem_append, List.mem_cons] at hl ⊢
    tauto
  have hqw := hp.weight_le_of_sublist hq (pooled_take_tx txid)
  unfold tx_memory_pool.validate_tx
  rcases htake : p.take_tx txid with ⟨taken, q⟩
  rw [htake] at hid hq hqw
  dsimp only at hid hq hqw ⊢
  have hw' : q.m_txpool_weight.toNat + tx_meta.weight.toNat < 2 ^ 64 := by omega
  rcases taken with _ | r
  · -- the take failed: the declared transaction has no inputs
    dsimp only
    obtain ⟨hbooks, hle⟩ :=
      hq.validate_add_back bc version now forward_time transaction.null false hid rfl hw'
    exact ⟨hbooks, by omega⟩
  · -- the taken transaction is a pooled one, which the core's check lets through
    dsimp only
    obtain ⟨e, he, -, hre⟩ := take_tx_eq_some (p := p) (by rw [htake])
    obtain ⟨hto, hnd⟩ := hp.inputs e.pooled (List.mem_map_of_mem he)
    have hdiff : check_tx_inputs_keyimages_diff r.tx = true := by
      rw [hre]
      exact check_tx_inputs_keyimages_diff_of hto hnd
    obtain ⟨hbooks, hle⟩ :=
      hq.validate_add_back bc version now forward_time r.tx r.relayed hid hdiff hw'
    exact ⟨hbooks, by omega⟩

/-- The loop of `validate` keeps the books: the txids still to visit are lost, and the weight
leaves room for theirs. -/
theorem PoolBook.validate_loop {lost : List Crypto.Hash} :
    ∀ (txes : List (Crypto.Hash × txpool_tx_meta_t)) (p : tx_memory_pool) (added : ℕ),
      PoolBook δ (lost ++ txes.map (·.1)) p →
      p.m_txpool_weight.toNat + (txes.map (·.2.weight.toNat)).sum < 2 ^ 64 →
      PoolBook δ lost (validate_loop bc version now forward_time txes (p, added)).1
  | [], p, _, hp, _ => by simpa [tx_memory_pool.validate_loop] using hp
  | (txid, tx_meta) :: txes, p, added, hp, hw => by
    rw [List.map_cons, List.sum_cons] at hw
    rw [List.map_cons] at hp
    dsimp only at hw
    have hw' : p.m_txpool_weight.toNat + tx_meta.weight.toNat < 2 ^ 64 := by omega
    obtain ⟨hbooks, hle⟩ := hp.validate_tx bc version now forward_time hw'
    rw [tx_memory_pool.validate_loop]
    rcases hv : p.validate_tx bc version now forward_time txid tx_meta with ⟨ok, q⟩
    rw [hv] at hbooks hle
    dsimp only at hbooks hle
    exact PoolBook.validate_loop txes q _ hbooks (by omega)

/-- `validate` keeps the books but for its pruned transactions, whose time in
`m_added_txs_by_id` it throws away with the others' and does not give back, as it adds back only
what it takes out. Each transaction is added back while the others still count, so the weight
needs room for itself twice. -/
theorem PoolBook.validate {lost : List Crypto.Hash} (hp : PoolBook δ lost p)
    (hw : 2 * p.m_txpool_weight.toNat < 2 ^ 64) :
    PoolBook δ (lost ++ (p.txpool.entries.filter (·.tx_meta.pruned)).map (·.txid))
      (p.validate bc version now forward_time).1 := by
  unfold tx_memory_pool.validate
  dsimp only
  -- every pooled txid is pruned, or one `validate` visits
  have hcleared : PoolBook δ ((lost ++ (p.txpool.entries.filter (·.tx_meta.pruned)).map (·.txid)) ++
      ((p.txpool.entries.filter fun e => !e.tx_meta.pruned).map
        fun e => (e.txid, e.tx_meta)).map (·.1)) { p with m_added_txs_by_id := fun _ => none } := by
    refine hp.clear_added fun txid htxid => ?_
    obtain ⟨e, he, rfl⟩ := (p.txpool.mem_txids).mp htxid
    cases hpr : e.tx_meta.pruned
    · exact List.mem_append_right _ (List.mem_map.mpr ⟨(e.txid, e.tx_meta),
        List.mem_map.mpr ⟨e, List.mem_filter.mpr ⟨he, by simp [hpr]⟩, rfl⟩, rfl⟩)
    · exact List.mem_append_left _ (List.mem_append_right _
        (List.mem_map.mpr ⟨e, List.mem_filter.mpr ⟨he, hpr⟩, rfl⟩))
  -- the transactions visited weigh at most the pool
  have hsum : (((p.txpool.entries.filter fun e => !e.tx_meta.pruned).map
      fun e => (e.txid, e.tx_meta)).map (·.2.weight.toNat)).sum ≤ p.m_txpool_weight.toNat := by
    rw [List.map_map, hp.weight]
    have h := ((List.filter_sublist (p := fun e : txpool_entry => !e.tx_meta.pruned)
      (l := p.txpool.entries)).map
      fun e : txpool_entry => e.tx_meta.weight.toNat).sum_le_sum fun _ _ => Nat.zero_le _
    simp only [tx_memory_pool.pooled, List.map_map] at h ⊢
    exact h.trans (Nat.le_add_right _ _)
  exact PoolBook.validate_loop bc version now forward_time _ _ 0 hcleared (by dsimp only; omega)

end validate

/-! ## `set_relayed` -/

section set_relayed

variable {δ : ℕ} {lost : List Crypto.Hash} {p : tx_memory_pool} (method : relay_method)
  (now : UInt64)

@[simp] theorem weight_upgrade_relay_method (tx_meta : txpool_tx_meta_t) (method : relay_method) :
    (tx_meta.upgrade_relay_method method).2.weight = tx_meta.weight := by
  unfold txpool_tx_meta_t.upgrade_relay_method
  split <;> rfl

/-- One txid of `set_relayed` keeps the books when it is not lost: its metadata is written back
with its weight, and a transaction it broadcasts gets its sorted entry renewed. -/
theorem PoolBook.set_relayed_tx (hp : PoolBook δ lost p) {hash : Crypto.Hash} (hl : hash ∉ lost)
    (embargo : UInt64) : PoolBook δ lost (set_relayed_tx method now embargo p hash).2 := by
  unfold tx_memory_pool.set_relayed_tx
  cases hget : p.txpool.get_txpool_tx_meta hash with
  | none => exact hp
  | some tx_meta =>
    dsimp only
    split
    · exact hp
    · next db hdb =>
      have hq := hp.update_txpool_tx hget hdb (by simp)
      have hmem : hash ∈ db.txids := by
        rw [txpool_table.txids_update_txpool_tx hdb]
        exact txpool_table.mem_txids_of_update_txpool_tx hdb
      -- the embargo's branch reaches neither the weight nor the rows; either way of the
      -- broadcast test the books hold
      split_ifs
      all_goals first
        | exact hq.add_tx_to_transient_lists_of_mem hmem hl _ now now
        | exact hq

/-- `set_relayed` keeps the books when none of its txids is lost. -/
theorem PoolBook.set_relayed (embargo : Crypto.Hash → UInt64) :
    ∀ (hashes : List Crypto.Hash) (p : tx_memory_pool), PoolBook δ lost p →
      (∀ hash ∈ hashes, hash ∉ lost) → PoolBook δ lost (set_relayed method now embargo hashes p).1
  | [], _, hp, _ => hp
  | hash :: hashes, p, hp, hl => by
    have hq := PoolBook.set_relayed_tx method now hp (hl hash List.mem_cons_self) (embargo hash)
    rw [tx_memory_pool.set_relayed]
    rcases hs : tx_memory_pool.set_relayed_tx method now (embargo hash) p hash with ⟨b, q⟩
    rw [hs] at hq
    exact PoolBook.set_relayed embargo hashes q hq fun h hh => hl h (List.mem_cons_of_mem _ hh)

end set_relayed

/-! ## What `validate` forgets

A pruned transaction keeps its row and its sorted entry through `validate` but not its time in
`m_added_txs_by_id` (`validate_forgets_pruned`). When `set_relayed` later broadcasts it, the
renewal of its sorted entry does not erase the old one, and the transaction is listed twice
(`set_relayed_tx_duplicates_sorted`). -/

/-- The pool after the pruned form of the transaction arrives in the Dandelion++ stem. -/
def pruned_stem_pool : tx_memory_pool :=
  (tx_memory_pool.empty.add_tx bc_accept { stem_tx with pruned := true } stem_txid 1500
    tx_verification_context.zero .stem false 10 100 100).2.2

theorem pruned_stem_pool_books : PoolBook 0 [] pruned_stem_pool :=
  PoolBook.empty.add_tx_of_not_mem _ (by decide) (by decide) (by decide) _ _

section forget

variable {p : tx_memory_pool} (bc : Blockchain) (version : UInt8) (now forward_time : UInt64)

theorem added_validate_add_back {other txid : Crypto.Hash} {tx_meta : txpool_tx_meta_t}
    (tx : transaction) (relayed : Bool) (hne : other ≠ txid) (h : p.m_added_txs_by_id other = none) :
    (p.validate_add_back bc version now forward_time txid tx_meta tx relayed).2.m_added_txs_by_id
      other = none := by
  have hq : (p.add_tx bc tx txid tx_meta.weight tx_verification_context.zero
      tx_meta.get_relay_method relayed version now forward_time).2.2.m_added_txs_by_id other = none :=
    added_add_tx bc version forward_time hne h
  unfold tx_memory_pool.validate_add_back
  rcases hr : p.add_tx bc tx txid tx_meta.weight tx_verification_context.zero
    tx_meta.get_relay_method relayed version now forward_time with ⟨ok, tvc', q⟩
  rw [hr] at hq
  dsimp only
  -- the metadata written back leaves `m_added_txs_by_id`
  split_ifs
  · exact hq
  · split
    · exact hq
    · exact hq

theorem added_validate_tx {other txid : Crypto.Hash} {tx_meta : txpool_tx_meta_t}
    (hne : other ≠ txid) (h : p.m_added_txs_by_id other = none) :
    (p.validate_tx bc version now forward_time txid tx_meta).2.m_added_txs_by_id other = none := by
  have hq := added_take_tx txid h
  unfold tx_memory_pool.validate_tx
  rcases htake : p.take_tx txid with ⟨taken, q⟩
  rw [htake] at hq
  dsimp only at hq ⊢
  rcases taken with _ | r
  · exact added_validate_add_back bc version now forward_time _ _ hne hq
  · exact added_validate_add_back bc version now forward_time _ _ hne hq

/-- The loop of `validate` gives no time to a txid it does not visit. -/
theorem added_validate_loop {other : Crypto.Hash} :
    ∀ (txes : List (Crypto.Hash × txpool_tx_meta_t)) (p : tx_memory_pool) (added : ℕ),
      other ∉ txes.map (·.1) → p.m_added_txs_by_id other = none →
      (validate_loop bc version now forward_time txes (p, added)).1.m_added_txs_by_id other = none
  | [], _, _, _, h => h
  | (txid, tx_meta) :: txes, p, added, hn, h => by
    rw [List.map_cons, List.mem_cons, not_or] at hn
    have hq : (p.validate_tx bc version now forward_time txid tx_meta).2.m_added_txs_by_id other =
        none := added_validate_tx bc version now forward_time hn.1 h
    rw [tx_memory_pool.validate_loop]
    rcases hv : p.validate_tx bc version now forward_time txid tx_meta with ⟨ok, q⟩
    rw [hv] at hq
    exact added_validate_loop txes q _ hn.2 hq

/-- `validate` throws away the time in `m_added_txs_by_id` of every transaction and gives one back
only to those it takes out and adds back: a pruned transaction is left without one. -/
theorem validate_forgets_pruned {e : txpool_entry} (he : e ∈ p.txpool.entries)
    (hpruned : e.tx_meta.pruned = true) :
    (p.validate bc version now forward_time).1.m_added_txs_by_id e.txid = none := by
  unfold tx_memory_pool.validate
  dsimp only
  refine added_validate_loop bc version now forward_time _ _ 0 ?_ rfl
  -- a txid names one row, and the rows visited are not pruned
  simp only [List.map_map, List.mem_map, List.mem_filter, Function.comp_def, not_exists, not_and]
  intro e' he' heq
  obtain rfl := p.txpool.eq_of_txid_eq he'.1 he heq
  simp [hpruned] at he'

theorem validate_forgets_pruned_stem :
    pruned_stem_pool.txpool.txids = [stem_txid] ∧
      ∀ e ∈ pruned_stem_pool.txpool.entries,
        (pruned_stem_pool.validate bc_accept 10 150 150).1.m_added_txs_by_id e.txid = none := by
  have hpruned : ∀ e ∈ pruned_stem_pool.txpool.entries, e.tx_meta.pruned = true := by decide
  exact ⟨by decide, fun e he => validate_forgets_pruned bc_accept 10 150 150 he (hpruned e he)⟩

end forget

/-- The pool once `validate` has run over `pruned_stem_pool`. -/
def validated_pool : tx_memory_pool := (pruned_stem_pool.validate bc_accept 10 150 150).1

section duplicate

variable {δ : ℕ} {lost : List Crypto.Hash} {p : tx_memory_pool} (method : relay_method)
  (now : UInt64)

/-- A txid that `set_relayed` broadcasts gets its time and sorted entry through
`add_tx_to_transient_lists`, after a write-back of its metadata. -/
theorem set_relayed_tx_broadcast {hash : Crypto.Hash} {embargo : UInt64}
    {r : Bool × tx_memory_pool} (hr : set_relayed_tx method now embargo p hash = r)
    (h : r.1 = true) :
    ∃ (db : txpool_table) (fee : fee_per_byte),
      r.2 = ({ p with txpool := db } : tx_memory_pool).add_tx_to_transient_lists hash fee now now := by
  unfold tx_memory_pool.set_relayed_tx at hr
  split at hr
  · subst hr
    cases h
  · dsimp only at hr
    split at hr
    · subst hr
      cases h
    · -- the embargo's branch and the broadcast test: only a broadcast returns `true`
      split_ifs at hr
      all_goals subst hr
      all_goals first
        | exact ⟨_, _, rfl⟩
        | cases h

/-- A pooled transaction without a time in `m_added_txs_by_id` (a pruned one after `validate`)
that `set_relayed` broadcasts at a time other than its sorted entry's gets a second entry in the
sorted container: the renewal erases the old entry only when the txid has a time. -/
theorem set_relayed_tx_duplicates_sorted (hp : PoolBook δ lost p) {hash : Crypto.Hash}
    (embargo : UInt64) (hmem : hash ∈ p.txpool.txids) (hnone : p.m_added_txs_by_id hash = none)
    (htime : ∀ it ∈ p.m_txs_by_fee_and_receive_time, it.txid = hash → it.receive_time ≠ now)
    (hbroadcast : (set_relayed_tx method now embargo p hash).1 = true) :
    ((set_relayed_tx method now embargo p hash).2.m_txs_by_fee_and_receive_time.map
      (·.txid)).count hash = 2 := by
  obtain ⟨db, fee, hq⟩ := set_relayed_tx_broadcast method now rfl hbroadcast
  have hsorted : (({ p with txpool := db } : tx_memory_pool).add_tx_to_transient_lists hash fee now
      now).m_txs_by_fee_and_receive_time = emplace p.m_txs_by_fee_and_receive_time ⟨fee, now, hash⟩ :=
    sorted_add_tx_to_transient_lists_of_not_added fee now now hnone
  rw [hq, hsorted]
  -- the sorted container held the txid once, as the books say
  have hone : (p.m_txs_by_fee_and_receive_time.map (·.txid)).count hash = 1 :=
    hp.sorted.count_eq hash ▸ List.count_eq_one_of_mem p.txpool.nodup hmem
  have hperm := map_txid_emplace_of_ne (s := p.m_txs_by_fee_and_receive_time)
    (e := ⟨fee, now, hash⟩) htime
  rw [hperm.count_eq, List.count_cons_self, hone]

theorem set_relayed_tx_duplicates_sorted_fluff :
    (validated_pool.m_txs_by_fee_and_receive_time.map (·.txid)).count stem_txid = 1 ∧
      ((set_relayed_tx .fluff 200 30 validated_pool stem_txid).2.m_txs_by_fee_and_receive_time.map
        (·.txid)).count stem_txid = 2 := by
  have hbooks := pruned_stem_pool_books.validate bc_accept 10 150 150 (by decide)
  exact ⟨by decide, set_relayed_tx_duplicates_sorted .fluff 200 hbooks 30 (by decide) (by decide)
    (by decide) (by decide)⟩

end duplicate

end tx_memory_pool

end TxPool

end Salvium
