import Liteflow.Messages

/-!
# Transport settings

The `transport` part of `g_config`, after the checks at the end of `load_config_file`, which bound
the group size and the MTU. Two functions of the settings are parameters: the product of a round-trip
time with the floating-point `rto_ratio`, and the keyed hash of `generate_token`, which depends on
the password.
-/

namespace Liteflow

def usecPerSec : Nat := 1000000

structure Config where
  tokenExpire : U32
  offlineTimeout : U32
  bufferSize : U32
  transmitRateInit : U32
  transmitRateMax : U32
  transmitRateMin : U32
  fecDecode : U32
  fecGroupSize : U32
  maxRtt : U32
  minRtt : U32
  mtu : U32
  ackSize : U32
  /-- `(int)(rtt * rto_ratio)`. -/
  rto : U32 → Int
  /-- The hash of the password, the node id and the payload. -/
  generateToken : U16 → List Byte → Token
  fecGroupSize_le : fecGroupSize.toNat ≤ 127
  mtu_le : mtu.toNat ≤ litedtMtuMax
  lt_mtu : litedtMaxHeader < mtu.toNat

namespace Config

/-- `g_config.transport.buffer_size / RBUF_BLOCK_SIZE`. -/
def blocksCount (cfg : Config) : Nat :=
  cfg.bufferSize.toNat / rbufBlockSize

def mss (cfg : Config) : Nat :=
  cfg.mtu.toNat - litedtMaxHeader

theorem mss_le (cfg : Config) : cfg.mss ≤ litedtMssMax := by
  have := cfg.mtu_le
  unfold mss litedtMtuMax at *
  omega

def plainToken (nodeId : U16) (payload : List Byte) : Token :=
  littleEndian 2 nodeId ++ payload

/-- The `transport` part of `global_config_init`. -/
def globalConfigInit (generateToken : U16 → List Byte → Token) : Config where
  tokenExpire := 120
  offlineTimeout := 120
  bufferSize := 10 * 1024 * 1024
  transmitRateInit := 100 * 1024
  transmitRateMax := 100 * 1024 * 1024
  transmitRateMin := 10 * 1024
  fecDecode := 0
  fecGroupSize := 0
  maxRtt := 1000000
  minRtt := 50000
  mtu := BitVec.ofNat 32 litedtMtuMax
  ackSize := 100
  rto := fun rtt => (rtt.toNat * 3 / 2 : Nat)
  generateToken := generateToken
  fecGroupSize_le := by decide
  mtu_le := by decide
  lt_mtu := by decide

/-- Settings with which every packet carries one byte. -/
def singleByte : Config :=
  { globalConfigInit plainToken with
    mtu := 29
    mtu_le := by decide
    lt_mtu := by decide }

end Config

end Liteflow
