import Mathlib

/-!
# Salvium — network configuration

`cryptonote_config.h` fixes, per network, the constants the consensus code reads through
`get_config(nettype)`. This module keeps the ones the modelled functions read: the stake lock
period and the audit hard forks (each with its own lock period). `get_config` throws on a
network type outside the four it knows (`UNDEFINED`), so it returns `Except`.

The headline fact is `stake_lock_period_le`: on every network the lock period is small, so
the height arithmetic the yield code does in `uint64_t` near the lock period never wraps
except where the source means it to.
-/

namespace Salvium

/-- `cryptonote::network_type`. -/
inductive network_type where
  | MAINNET
  | TESTNET
  | STAGENET
  | FAKECHAIN
  | UNDEFINED
  deriving DecidableEq, Repr

/-! ## Hard-fork versions (the values in force in `cryptonote_config.h`) -/

def HF_VERSION_REJECT_SIGS_IN_COINBASE : UInt8 := 1
def HF_VERSION_AUDIT1 : UInt8 := 6
def HF_VERSION_SALVIUM_ONE_PROOFS : UInt8 := 6
def HF_VERSION_AUDIT1_PAUSE : UInt8 := 7
def HF_VERSION_AUDIT2 : UInt8 := 8
def HF_VERSION_CARROT : UInt8 := 10

def CRYPTONOTE_MINED_MONEY_UNLOCK_WINDOW : UInt64 := 60
def TRANSACTION_VERSION_CARROT : ℕ := 4

/-- The fields of `cryptonote::config_t` that the modelled code reads. `AUDIT_HARD_FORKS` is a
`std::map<uint8_t, std::pair<uint64_t, std::pair<std::string, std::string>>>`; it is kept as its
entries in key order, which is the order the validator iterates them in.
`TREASURY_SAL1_MINT_OUTPUT_DATA` maps a height to the hex strings of the treasury enote's
transaction key, one-time address, encrypted anchor and view tag. -/
structure config_t where
  STAKE_LOCK_PERIOD : UInt64
  AUDIT_HARD_FORKS : List (UInt8 × UInt64 × String × String)
  TREASURY_SAL1_MINT_OUTPUT_DATA : List (UInt64 × String × String × String × String)
  deriving DecidableEq, Repr

def config_mainnet : config_t where
  STAKE_LOCK_PERIOD := 30 * 24 * 30
  AUDIT_HARD_FORKS := [(HF_VERSION_AUDIT1, 30 * 24 * 10, "SAL", "SAL1"),
    (HF_VERSION_AUDIT2, 30 * 24 * 14, "SAL", "SAL1")]
  TREASURY_SAL1_MINT_OUTPUT_DATA := [
    (334750, "1b2cd3ff56aa77c0cbab0473bfb96697ebdd0b25ad230136bfe41d5dc1ef265f", "718cf02eabca157fd7ad7f8537db217624bfe1ca99dd09e758357e7000a5e57a", "789cca3def51fb879eb7fbca271869b7", "79bd0c"),
    (356350, "b51acbf35265d09f3cfb83dcabde2746991ddf0d30b5a4ecc34043b349a77031", "9dc0d2e9534cdccf83494687c55c67c8c1b29834acf97cce53124a08a9549231", "588ebc2918d06c009a18a28a8ab76694", "ab8c23"),
    (377950, "771c6865980493846cbb049b34f72b937878cf799ae1126775df35064cf53526", "60d340613c7721aeb03f2de1b56e2916d6cb023cc668acaca00e1606e0bb7f64", "198bb0e5880c8abf8108158284ca7637", "9b93f2"),
    (399550, "d9159f9bb654230382a69bb7a739c14f9d506c21dba5be9f4cdf66126ed1b24e", "c3b34e7f9977f31f659abd9306b650416a674ed7bcfb8c75b257040a1a06b8b9", "6f0de181716e0a9e100228d58f11d42c", "4c87fd"),
    (421150, "1e2ab1ae204e7a9375f5b57fed2524e2d1a4702c4bbc6d420eb65d92af44c60c", "826ecca0e2837860a6d2be89a410ff6aab22c5f5a66bd0a318de3abe646aa26a", "bad663aa8253c40d00de0a2d1dfca60f", "4a04d7"),
    (442750, "18267940a2b37c82850f3fb83d935281ee5cc436b0797ec10ca26c9cc3c0ef01", "77bdec7bbc4cabd84cc8cf0666e1fdfe299480b9b2a4cf52cc959d728fa899ab", "a8807121e33471cf18aa82af4826c9a7", "d35d35"),
    (464350, "9ab50223bfecec2508e8233540dc13c3fc7e15a8d77ecb90939afee96859724d", "675a1b3f2a2cd2bd0e7ec073c426125d95e12ad13e541bf019925c481c2bca15", "591d2f2331832c347654ab255ad97e2d", "d87c9c"),
    (485950, "c0d7299fe0b873687e7319f1a0d1f67712ef3ccf6a579d96c5f99743add6f029", "dd3d17b5145b56377e023c169ae858cdf48bd6c23e8b2a77e02765ce316e3ca7", "6a9e74df01762e2b32db1dc4d69dc3e9", "75debe")]

def config_testnet : config_t where
  STAKE_LOCK_PERIOD := 20
  AUDIT_HARD_FORKS := [(HF_VERSION_AUDIT1, 30, "SAL", "SAL1"), (HF_VERSION_AUDIT2, 40, "SAL", "SAL1")]
  TREASURY_SAL1_MINT_OUTPUT_DATA := [
    (1100, "71336a480440ed24a53b2cfd5a5292d1e618c3e843637227883ea2cc42fb346f", "a135f59a05ea9e33539e4502b187b4789cc7fba79616c6902a902cc6601f0359", "7f1c6970232254a9b13f7f063df2a853", "62073c"),
    (1120, "2cc49b182addc0106b601c9876c01a4b06532c05f9dd9179b2c4f47e5c7c0d74", "fd62e59324389f37d0bb628a39f413c11be34d572ec3a40f465e008b9dfd5e0c", "fbf8584222e299bb748009eaf2177123", "b76a8d"),
    (1140, "50f1dd5244bb6fdc62b5a18b868a4dc9e9ad15f4a7a54e5a98084a3a5213c846", "942de90a3347df3e962d9b0a2745f8aedb265a8caf73aabef9aa713f4ec3e493", "933702e29d680bf21ad559a2d3243621", "dae32b"),
    (1160, "114a1fef3a03c81b3b6308fb4e51db42d86945d8f71ee8798749a4aa2d8bfe57", "fd77f0289b7e25ae68c86f4cd2c72ac0211a4d0e7a31c84b8d58a33bbd3c511b", "d8048bb76b9313768a4c69100cba6d43", "46b0a3"),
    (1180, "cf7fe9d97a7a4cb881bff1d37bb6981bcb0691649c465d660522a43f14b32849", "b76908d56108e7111374f60993e9411def7bb2899118f20f49e67a801936a1ad", "f203a5acd48f93f1451d32d70716e585", "d72097"),
    (1200, "415e8fa4fb6bed8bc59591883f5e098dde6179e980eccfc4cbb3a64c4168cf47", "5426c588d7c5750c76b526ef268b45f7414e2ddea40218ee92d123564c5114c4", "fb1926bbef8c70ebd796ae77dffca07d", "351edf"),
    (1220, "1f47cce00e8e1c77cb3ff007491d261dae75de5bbfdbe0f4913d74a8503aaa5e", "4d8aac299306989aa169982d89457852a1bab858c668c9b740d96b682bb1961b", "d8c0be7926ce704290cfd8d5e0500f33", "750003"),
    (1240, "3afd93c684638d54e68f5d8d417863035f12482251feea5cf7515725a2bb0f4f", "7895e6baded473b093b57993ae3497a47b0ea78cf35b37d1387f226f445d9018", "76a0c37e6f3d9d508c4bce1d7162514e", "09e146")]

def config_stagenet : config_t where
  STAKE_LOCK_PERIOD := 20
  AUDIT_HARD_FORKS := [(HF_VERSION_AUDIT1, 30, "SAL", "SAL1")]
  TREASURY_SAL1_MINT_OUTPUT_DATA := [
    (1000000, "a1bdd1da651fbbb845232816e1aa2d4ff29b790f10bbd4f574a012f1199e15a4", "b0733ab6f251b16458efa9ebb3fb99bd54d43173b5768fe9ffc42e0fe46ae3a8", "00", "00"),
    (1020000, "47996eccbcc078b06d0f6ece37bf3a700c2bd60adfdd898b22096f16a9ad315c", "fd6bcceb4799ee067d59b97a6f66a0f9a70f134220259d3b4d6a2278ba4aca4c", "00", "00"),
    (1040000, "a3e6754a849b80c21a77e6065fefdae29eeeabf17c407453356244a00545bdb8", "3d395454df1452d715d27190e022b20395871c99af578f7251c3f9752e0274a6", "00", "00"),
    (1060000, "0d5e97a910e0f9c606ad9c711b6595aaed142d857cde2efa519112b9a29240d5", "56c29e28bdcf4f20b4b45906b93ae7c4bf9ee82e18cd45543cb69a14ce5efb88", "00", "00"),
    (1080000, "495fa363de88915aa8b74818c4b80715a882a688b4f7127ab7cd3b6885f3567a", "d42dfe0da5579c82e8255eba8c0a17170023f14a6a5030da6abf9f10abb52cbb", "00", "00"),
    (1100000, "85ea10ec40390e4f406446fb519e974d89536154045c6df28bb3b538b254e20d", "0ce2b7dd3a8ce8b596889dac8081a62f98fd70f1f043944ab4ac592c3c59e77b", "00", "00"),
    (1120000, "40f201b38a319dda81e7201e57fea7924067a4a332ed71b8e51ec29ac2d67310", "8289aa6963b98d1034e94eae55d8be6b33d0a88f14f174ebcbaec70837986c7c", "00", "00"),
    (1140000, "c5a648cc7846341357b7b4653a58f9eb4800d88b5de587bceec7a5c28f98d05a", "3f308a203845d88e5e728fcebcdcea1f90e2f424d461617993c672a6138ad2d8", "00", "00"),
    (1160000, "4c51d6550b8eeb6cc8f0d395cc83a5f90ec2a4d86501b3f68da48d618ccf5711", "53f0bd8cebeefb3a88fffa5d7f6ad43d4712608ded561732467ca499df940454", "00", "00"),
    (1180000, "ce2f5d82118fed03d5e269e285fc16189a6cd34f38999e5c055a5dea5fce61bc", "f7fc6948b194d9bd6f2df6ecb83f04e6c8d1a2556a63fedb310a4631fe1bfc42", "00", "00"),
    (1200000, "6248028fd77fb02b5c6ea72dea10b417891a2da7aaf9565aed382e063b4981a3", "63986e1177499bdb23cd49afb519ec18f38cb1b0c386220b376d8ffdc2e37890", "00", "00"),
    (1220000, "6adcb695aa5d6d01133c68900f29e501e9549816e827ea0c164bbc78f3534dd6", "6a440ccb18f5e703e8000de3865ac40d4c18f081270d32eef377dc831f28d8d0", "00", "00"),
    (1240000, "b97a4d2259480f34f20e41c489ab5c2e5ae9ee84d8672a7eff8012f2260e121e", "e6eb9147ff40e22209d321d0f1bfbfe20acf5ceb6b9d0bfb13688ad28aa1232e", "00", "00"),
    (1260000, "4fd214602a36902f22d16927244c456e8cc5a406a9570131f138a028214ffdf0", "34060b8bd96009b9b298280ebd84fa9587fa8c9df6fb5ad0270fb6cd2098885c", "00", "00"),
    (1280000, "9d60178ec6d6599d7a31298f2559fb9c3111f2c70494b3a1638db877ea55b808", "7985ed03856a929663e954738d0938713407717835f760c7ca4d54844a128c91", "00", "00"),
    (1300000, "cd65718eab234bf419332e53bd2f48e2ade70af48c5e126ab5080321e1493dfc", "581cb4cca7a0a029ee2cac51dfc00a0c3a657d2eaf67ed3c6ae7bacc11b4f007", "00", "00")]

/-- `cryptonote::get_config`: `FAKECHAIN` shares the mainnet constants. -/
def get_config : network_type → Except String config_t
  | .MAINNET => .ok config_mainnet
  | .TESTNET => .ok config_testnet
  | .STAGENET => .ok config_stagenet
  | .FAKECHAIN => .ok config_mainnet
  | .UNDEFINED => .error "Invalid network type"

/-! ## Hard-fork schedule (`hardforks.cpp`, `HardFork`) -/

/-- `hardfork_t`: a fork's version, its first height, the percentage of the voting window that
must vote for it, and its `time_t` timestamp (only compared, so an integer). -/
structure hardfork_t where
  version : UInt8
  height : UInt64
  threshold : UInt8
  time : ℤ
  deriving DecidableEq, Repr, Inhabited

def testnet_hard_forks : List hardfork_t :=
  [⟨1, 1, 0, 1341378000⟩, ⟨2, 250, 0, 1445355000⟩, ⟨3, 500, 0, 1729518000⟩,
    ⟨4, 600, 0, 1734607000⟩, ⟨5, 800, 0, 1734607005⟩, ⟨6, 815, 0, 1734608000⟩,
    ⟨7, 900, 0, 1739264400⟩, ⟨8, 950, 0, 1739270000⟩, ⟨9, 1000, 0, 1739280000⟩,
    ⟨10, 1100, 0, 1739780005⟩]

def mainnet_hard_forks : List hardfork_t :=
  [⟨1, 1, 0, 1341378000⟩, ⟨2, 89800, 0, 1729518000⟩, ⟨3, 121100, 0, 1734516900⟩,
    ⟨4, 121800, 0, 1734607000⟩, ⟨5, 136100, 0, 1736265945⟩, ⟨6, 154750, 0, 1738336000⟩,
    ⟨7, 161900, 0, 1739264400⟩, ⟨8, 172000, 0, 1740390000⟩, ⟨9, 179200, 0, 1740393800⟩,
    ⟨10, 334750, 0, 1759142500⟩]

/-- The schedule a `HardFork` holds: the version before the first fork, and the forks in the
order `add_fork` accepted them, which is strictly increasing in version and height. -/
structure HardFork where
  original_version : UInt8
  heights : List hardfork_t
  heights_sorted : heights.Pairwise fun a b => a.version < b.version ∧ a.height < b.height

/-- `HardFork::get_ideal_version(height)`: the version of the last fork from index `1` on whose
height is at most `height`, else `original_version`. Entry `0` is skipped, as the source's
downward loop stops at `n > 0`. -/
def HardFork.get_ideal_version (hf : HardFork) (height : UInt64) : UInt8 :=
  match (hf.heights.drop 1).reverse.find? (fun f => f.height ≤ height) with
  | some f => f.version
  | none => hf.original_version

/-- The testnet schedule as `Blockchain::init` builds it: original version `1`, then every
entry of `testnet_hard_forks`. -/
def HardFork.testnet : HardFork where
  original_version := 1
  heights := testnet_hard_forks
  heights_sorted := by decide

/-- Every network's stake lock period is at most a month of two-minute blocks. -/
theorem stake_lock_period_le {nettype : network_type} {cfg : config_t}
    (h : get_config nettype = .ok cfg) : cfg.STAKE_LOCK_PERIOD.toNat ≤ 30 * 24 * 30 := by
  cases nettype <;> simp only [get_config, Except.ok.injEq, reduceCtorEq] at h <;> subst h <;> decide

end Salvium
