import VulosRelay.Lib.FinMap
import VulosRelay.Lib.GoTime
import VulosRelay.Lib.System
import Mathlib.Algebra.Order.Field.Rat

/-!
# Token buckets by key

The model of the limiters of the tunnel server, the rendezvous service and the public cache
(`tunnel/server/ratelimit.go`, `tunnel/rendezvous/ratelimit.go`, `tunnel/pubcache/ratelimit.go`),
which differ in names only, over the rationals. Beside a limiter run the time of the last call and
the log of the calls that were allowed, latest first.
-/

namespace VulosRelay.RateLimit

structure TokenBucket where
  tokens : ℚ
  last : Int
  lastUsed : Int

structure RateLimiter where
  rate : ℚ
  burst : ℚ
  idleTTL : Int
  maxKeys : Int
  buckets : FinMap String TokenBucket
  lastSwep : Int

/-- A limiter without a rate or a burst is `nil`. -/
def newLimiter (ratePerSec burst : ℚ) (idleTTL maxKeys : Int) : Option RateLimiter :=
  if ratePerSec ≤ 0 ∨ burst ≤ 0 then none
  else some ⟨ratePerSec, burst, if idleTTL ≤ 0 then 10 * GoTime.minute else idleTTL,
    if maxKeys ≤ 0 then 100000 else maxKeys, ∅, GoTime.zero⟩

/-- `Duration.Seconds`. -/
def seconds (d : Int) : ℚ := d / 1000000000

namespace RateLimiter

variable (rl : RateLimiter) (now : Int)

def sweepLocked : RateLimiter :=
  let interval := if rl.idleTTL / 4 ≤ 0 then GoTime.minute else rl.idleTTL / 4
  if GoTime.sub now rl.lastSwep < interval then rl
  else { rl with
    lastSwep := now
    buckets := rl.buckets.filter fun _ b => GoTime.sub now b.lastUsed ≤ rl.idleTTL }

def refill (b : TokenBucket) : TokenBucket :=
  let elapsed := seconds (GoTime.sub now b.last)
  if 0 < elapsed then ⟨min (b.tokens + elapsed * rl.rate) rl.burst, now, now⟩
  else { b with lastUsed := now }

/-- `allow`, from the look for the bucket on. -/
def take (key : String) : RateLimiter × Bool :=
  match rl.buckets.lookup key with
  | none =>
    if rl.maxKeys ≤ rl.buckets.size then (rl, false)
    else ({ rl with buckets := rl.buckets.insert key ⟨rl.burst - 1, now, now⟩ }, true)
  | some b =>
    let b := rl.refill now b
    if 1 ≤ b.tokens then
      ({ rl with buckets := rl.buckets.insert key { b with tokens := b.tokens - 1 } }, true)
    else ({ rl with buckets := rl.buckets.insert key b }, false)

def allow (key : String) : RateLimiter × Bool :=
  if key = "" then (rl, true) else (rl.sweepLocked now).take now key

end RateLimiter

structure World where
  limiter : RateLimiter
  clock : Int
  allowed : List (String × Int)

structure Call where
  key : String
  now : Int

def World.call (w : World) (c : Call) : World :=
  ⟨(w.limiter.allow c.now c.key).1, c.now,
    if (w.limiter.allow c.now c.key).2 then (c.key, c.now) :: w.allowed else w.allowed⟩

/-- The runs of a limiter that one of the constructors has made. -/
def limiting (make : ℚ → ℚ → Int → Int → Option RateLimiter) (ratePerSec burst : ℚ)
    (idleTTL maxKeys : Int) : System World Call where
  init w := make ratePerSec burst idleTTL maxKeys = some w.limiter ∧ w.allowed = []
  step w c := some (w.call c)

end VulosRelay.RateLimit

namespace VulosRelay

def Server.newRateLimiter := RateLimit.newLimiter

def Rendezvous.newLimiter := RateLimit.newLimiter

def Pubcache.newLimiter := RateLimit.newLimiter

end VulosRelay
