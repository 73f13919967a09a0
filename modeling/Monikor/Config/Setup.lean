/-
setup_config.c: how scalars of the configuration become settings.

`scalar` is `monikor_config_dict_get_scalar` on the parsed file: the
value of a key, or NULL. A number is decimal digits only, so a sign or a
blank is refused, and the empty string is a number.
-/
import Monikor.Metric

namespace Monikor

/-- `*str < '0' || *str > '9'` fails. -/
def isDigit (b : UInt8) : Bool := 48 ≤ b && b ≤ 57

/-- `_is_number`. -/
def isNumber : Option CString → Bool
  | none => false
  | some s => s.bytes.all isDigit

/-- `strtol` in base 10, of a string without blanks or a sign: it stops at
`LONG_MAX`. -/
def strtol (s : CString) : Nat :=
  min (2 ^ 63 - 1)
    ((s.bytes.takeWhile isDigit).foldl (fun v b => 10 * v + (b.toNat - 48)) 0)

/-- `atoi`, which is `strtol` converted to `int`. -/
def atoi (s : CString) : Int32 := Int32.ofNat (strtol s)

/-- `MONIKOR_DEFAULT_SERVER_TIMEOUT`. -/
def defaultServerTimeout : Int32 := 5

/-- `MONIKOR_DEFAULT_SERVER_MAX_SEND_SIZE`. -/
def defaultServerMaxSendSize : UInt64 := 5 * 1024 * 1024

/-- The `server` member of `monikor_config_t`. -/
structure ServerConfig where
  url : Option CString
  timeout : Int32
  maxSendSize : UInt64
  proxyUrl : Option CString
deriving DecidableEq

/-- An `int` converted to `size_t`. -/
def sizeOfInt (i : Int32) : UInt64 := i.toInt64.toUInt64

/-- The number a key is set to, or its default. -/
def numberOr {α : Type} (value : Option CString) (read : CString → α)
    (default : α) : α :=
  match value with
  | some s => if isNumber (some s) then read s else default
  | none => default

/-- `monikor_setup_config_server`. -/
def setupConfigServer (scalar : String → Option CString) : ServerConfig where
  url := scalar "server.url"
  proxyUrl := scalar "server.proxy_url"
  timeout := numberOr (scalar "server.timeout") atoi defaultServerTimeout
  maxSendSize := numberOr (scalar "server.max_send_size")
    (fun s => sizeOfInt (atoi s)) defaultServerMaxSendSize

/-- `MONIKOR_DEFAULT_MAX_CACHE_SIZE`. -/
def defaultMaxCacheSize : Int32 := 30 * 1024 * 1024

/-- `monikor_setup_cache_size`: the `cache.max_size` it sets. -/
def setupCacheSize (scalar : String → Option CString) : Int32 :=
  numberOr (scalar "cache.max_size_mb") (fun s => atoi s * 1024 * 1024)
    defaultMaxCacheSize

/-- `MONIKOR_DEFAULT_POLL_INTERVAL`. -/
def defaultPollInterval : Int32 := 60

/-- `MONIKOR_DEFAULT_UPDATE_INTERVAL`. -/
def defaultUpdateInterval : Int32 := 30

/-- The intervals of `monikor_config_t`. -/
structure IntervalConfig where
  pollInterval : Int32
  updateInterval : Int32
deriving DecidableEq

/-- `get_interval`. -/
def getInterval (value : Option CString) : Int32 := numberOr value atoi (-1)

/-- What a key is set to, or the default for -1. -/
def intervalOr (value : Option CString) (default : Int32) : Int32 :=
  let interval := getInterval value
  if interval = -1 then default else interval

/-- `monikor_setup_config_interval`. -/
def setupConfigInterval (scalar : String → Option CString) :
    IntervalConfig where
  pollInterval := intervalOr (scalar "poll_interval") defaultPollInterval
  updateInterval := intervalOr (scalar "update_interval") defaultUpdateInterval

end Monikor
