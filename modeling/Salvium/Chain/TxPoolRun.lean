import Mathlib
import Salvium.Chain.BlockTemplate

/-!
# Salvium — the pool over a run of calls

The daemon calls `add_tx` for each transaction it receives or takes back from a popped block,
`take_tx` for each transaction a new block includes, `set_relayed` once it has sent transactions
on, `validate` when the hard fork version changes, `fill_block_template` for each block it mines,
and `prune` and `remove_stuck_transactions` as it goes. A `pool_call` is one such call with its
arguments, and `run` applies a list of them in order. At each call the caller promises
(`pool_call.promise`) that a transaction has passed the core's `check_tx_inputs_keyimages_diff`,
that its txid names it (a row with the txid holds the same transaction and weight), and that the
weight does not wrap; before `validate`, that the weight has room for itself twice. `validate`
forgets the receive time of every pruned row (`pool_call.forgets`, see
`Salvium.Chain.TxPoolValidate`): from then on such a txid is *lost*, the books no longer ask
`m_added_txs_by_id` to list it, and the caller promises not to hand it to `add_tx` or
`set_relayed` again.

Over every run that keeps these promises the books hold with the txids the run forgot lost, the
weight running ahead of the sum of the pooled weights by exactly the weight of the transactions
`add_tx` re-added while they were pooled (`PoolBook.run`, and from the empty pool `run_books`).
The step lemma `PoolBook.apply` dispatches to one preservation lemma per call.
-/

namespace Salvium

namespace TxPool

open tx_memory_pool

/-- A call that changes the pool, with its arguments. -/
inductive pool_call where
  | add_tx (bc : Blockchain) (tx : transaction) (id : Crypto.Hash) (tx_weight : UInt64)
      (tvc : tx_verification_context) (tx_relay : relay_method) (relayed : Bool) (version : UInt8)
      (now forward_time : UInt64)
  | take_tx (id : Crypto.Hash)
  | prune (bytes : UInt64)
  | remove_stuck_transactions (now : UInt64)
  | set_relayed (hashes : List Crypto.Hash) (method : relay_method) (now : UInt64)
      (embargo : Crypto.Hash → UInt64)
  | validate (bc : Blockchain) (version : UInt8) (now forward_time : UInt64)
  | fill_block_template (bc : BlockchainReads) (m_mine_stem_txes : Bool)
      (median_weight already_generated_coins : UInt64) (version : UInt8)

namespace pool_call

/-- The pool after the call. -/
def apply : pool_call → tx_memory_pool → tx_memory_pool
  | add_tx bc tx id tx_weight tvc tx_relay relayed version now forward_time, p =>
    (p.add_tx bc tx id tx_weight tvc tx_relay relayed version now forward_time).2.2
  | take_tx id, p => (p.take_tx id).2
  | prune bytes, p => p.prune bytes
  | remove_stuck_transactions now, p => p.remove_stuck_transactions now
  | set_relayed hashes method now embargo, p =>
    (tx_memory_pool.set_relayed method now embargo hashes p).1
  | validate bc version now forward_time, p => (p.validate bc version now forward_time).1
  -- the template is handed to the miner; the pool keeps the checks written back
  | fill_block_template bc m_mine_stem_txes median_weight already_generated_coins version, p =>
    match TxPool.fill_block_template bc p m_mine_stem_txes median_weight already_generated_coins
        version with
    | some (_, db) => { p with txpool := db }
    | none => p

/-- The txids whose receive time the call forgets: `validate` drops `m_added_txs_by_id` and
gives a time back only to the rows it visits, never to a pruned one. -/
def forgets : pool_call → tx_memory_pool → List Crypto.Hash
  | add_tx _ _ _ _ _ _ _ _ _ _, _ => []
  | take_tx _, _ => []
  | prune _, _ => []
  | remove_stuck_transactions _, _ => []
  | set_relayed _ _ _ _, _ => []
  | validate _ _ _ _, p => (p.txpool.entries.filter (·.tx_meta.pruned)).map (·.txid)
  | fill_block_template _ _ _ _ _, _ => []

/-- What the caller promises before the call, with the txids forgotten so far `lost`. -/
def promise : pool_call → List Crypto.Hash → tx_memory_pool → Prop
  | add_tx _ tx id tx_weight _ _ _ _ _ _, lost, p =>
    id ∉ lost ∧ check_tx_inputs_keyimages_diff tx = true ∧
      (∀ e ∈ p.txpool.entries, e.txid = id → e.blob = tx ∧ e.tx_meta.weight = tx_weight) ∧
      p.m_txpool_weight.toNat + tx_weight.toNat < 2 ^ 64
  | take_tx _, _, _ => True
  | prune _, _, _ => True
  | remove_stuck_transactions _, _, _ => True
  | set_relayed hashes _ _ _, lost, _ => ∀ h ∈ hashes, h ∉ lost
  | validate _ _ _ _, _, p => 2 * p.m_txpool_weight.toNat < 2 ^ 64
  | fill_block_template _ _ _ _ _, _, _ => True

instance : ∀ (c : pool_call) (lost : List Crypto.Hash) (p : tx_memory_pool),
    Decidable (c.promise lost p)
  | add_tx _ tx id tx_weight _ _ _ _ _ _, lost, p =>
    inferInstanceAs (Decidable (id ∉ lost ∧ check_tx_inputs_keyimages_diff tx = true ∧
      (∀ e ∈ p.txpool.entries, e.txid = id → e.blob = tx ∧ e.tx_meta.weight = tx_weight) ∧
      p.m_txpool_weight.toNat + tx_weight.toNat < 2 ^ 64))
  | take_tx _, _, _ => inferInstanceAs (Decidable True)
  | prune _, _, _ => inferInstanceAs (Decidable True)
  | remove_stuck_transactions _, _, _ => inferInstanceAs (Decidable True)
  | set_relayed hashes _ _ _, lost, _ => inferInstanceAs (Decidable (∀ h ∈ hashes, h ∉ lost))
  | validate _ _ _ _, _, p => inferInstanceAs (Decidable (2 * p.m_txpool_weight.toNat < 2 ^ 64))
  | fill_block_template _ _ _ _ _, _, _ => inferInstanceAs (Decidable True)

/-- The weight the call counts a second time: that of a pooled transaction `add_tx` re-adds. -/
def readded : pool_call → tx_memory_pool → ℕ
  | add_tx bc tx id tx_weight tvc tx_relay relayed version now forward_time, p =>
    if (p.add_tx bc tx id tx_weight tvc tx_relay relayed version now forward_time).1 &&
      id ∈ p.txpool.txids then tx_weight.toNat else 0
  | take_tx _, _ => 0
  | prune _, _ => 0
  | remove_stuck_transactions _, _ => 0
  | set_relayed _ _ _ _, _ => 0
  | validate _ _ _ _, _ => 0
  | fill_block_template _ _ _ _ _, _ => 0

end pool_call

/-- The pool after a run of calls. -/
def run : List pool_call → tx_memory_pool → tx_memory_pool
  | [], p => p
  | c :: cs, p => run cs (c.apply p)

/-- Every call of the run finds its promise kept, with what the calls before it forgot. -/
def promised : List pool_call → List Crypto.Hash → tx_memory_pool → Prop
  | [], _, _ => True
  | c :: cs, lost, p => c.promise lost p ∧ promised cs (lost ++ c.forgets p) (c.apply p)

instance : ∀ (cs : List pool_call) (lost : List Crypto.Hash) (p : tx_memory_pool),
    Decidable (promised cs lost p)
  | [], _, _ => inferInstanceAs (Decidable True)
  | c :: cs, lost, p =>
    have : Decidable (promised cs (lost ++ c.forgets p) (c.apply p)) :=
      instDecidablePromised cs (lost ++ c.forgets p) (c.apply p)
    inferInstanceAs (Decidable (c.promise lost p ∧ promised cs (lost ++ c.forgets p) (c.apply p)))

/-- The txids the run forgets. -/
def forgotten : List pool_call → tx_memory_pool → List Crypto.Hash
  | [], _ => []
  | c :: cs, p => c.forgets p ++ forgotten cs (c.apply p)

/-- The weight the run counts twice. -/
def readded : List pool_call → tx_memory_pool → ℕ
  | [], _ => 0
  | c :: cs, p => c.readded p + readded cs (c.apply p)

/-! ## One call, then a run -/

namespace tx_memory_pool

variable {δ : ℕ} {p : tx_memory_pool}

/-- One call keeps the books, with the weight it counts twice added to `δ` and the txids it
forgets lost. -/
theorem PoolBook.apply (hp : PoolBook δ lost p) (c : pool_call) (hc : c.promise lost p) :
    PoolBook (δ + c.readded p) (lost ++ c.forgets p) (c.apply p) := by
  -- only `validate` forgets txids; every other call leaves `lost` as it is
  cases c <;> simp only [pool_call.forgets, List.append_nil]
  case add_tx bc tx id tx_weight tvc tx_relay relayed version now forward_time =>
    obtain ⟨hl, hdiff, hsame, hw⟩ := hc
    exact hp.add_tx bc hl hdiff hsame hw version forward_time
  case take_tx id => exact hp.take_tx id
  case prune bytes => exact hp.prune bytes
  case remove_stuck_transactions now => exact hp.remove_stuck_transactions now
  case set_relayed hashes method now embargo =>
    exact PoolBook.set_relayed method now embargo hashes p hp hc
  case validate bc version now forward_time => exact hp.validate bc version now forward_time hc
  case fill_block_template bc m_mine_stem_txes median_weight already_generated_coins version =>
    dsimp only [pool_call.apply]
    split
    · next _ db h => exact hp.fill_block_template h
    · exact hp

/-- A run whose promises are kept keeps the books, the weight running ahead by what it counts
twice and the txids it forgot lost. -/
theorem PoolBook.run (hp : PoolBook δ lost p) (cs : List pool_call) (hcs : promised cs lost p) :
    PoolBook (δ + TxPool.readded cs p) (lost ++ forgotten cs p) (TxPool.run cs p) := by
  induction cs generalizing δ lost p with
  | nil => simpa [forgotten, TxPool.readded, TxPool.run] using hp
  | cons c cs ih =>
    obtain ⟨hc, hcs⟩ := hcs
    have h := ih (hp.apply c hc) hcs
    rw [Nat.add_assoc, List.append_assoc] at h
    exact h

end tx_memory_pool

end TxPool

end Salvium
