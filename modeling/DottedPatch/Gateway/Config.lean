import DottedPatch.Config.Collections
import DottedPatch.Number.Width

namespace DottedPatch.Gateway

open Config

def leastThreads : Int := 16

/-- The number of processors that the process may run on, unless that cannot be told. -/
class Machine where
  processors : Option Nat

/-- Where no machine is given, the number cannot be told. -/
instance (priority := low) : Machine := ⟨none⟩

section

variable [Machine]

/-- A number that cannot be told counts as one, and one that does not fit as half of what does. -/
def processorCount : Bounded .w32 :=
  match Machine.processors with
  | none => { val := 1 }
  | some n => (Bounded.ofInt? .w32 n).getD { val := Width.w32.greatest / 2 }

def defaultThreads : Bounded .w32 :=
  let doubled := Bounded.saturate .w32 (processorCount.val * 2)
  let raised := Bounded.saturate .w32 (doubled.val + 1)
  .saturate .w32 (max raised.val leastThreads)

end

structure SwitchConfig where
  localCache : Bool := true

structure FileConfig where
  enabled : Bool := false
  maxSize : Bounded .w32 := { val := 10 }

structure PathFilter where
  enabled : Bool := false
  paths : Option (List String) := some []

structure ExtPlugin where
  path : Option String := none
  enabled : Bool := false
  threads : Option (Bounded .w32) := some { val := 1 }
  scheduleTime : Option (Bounded .w32) := some { val := 300 }
  scheduleDelay : Option (Bounded .w32) := some { val := 30 }

structure MatchCache where
  enabled : Bool := false
  maxFreeMemory : Option (Bounded .w32) := some { val := 256 }

structure Scheduler where
  enabled : Bool := false
  kind : String := "fixed"
  threads : Bounded .w32

structure UpstreamCheck where
  enabled : Bool := false
  timeout : Option (Bounded .w32) := some { val := 3000 }
  healthyThreshold : Option (Bounded .w32) := some { val := 1 }
  unhealthyThreshold : Option (Bounded .w32) := some { val := 1 }
  interval : Option (Bounded .w32) := some { val := 5000 }
  printEnabled : Bool := false
  printInterval : Option (Bounded .w32) := some { val := 60000 }
  switchConfig : SwitchConfig := {}

structure AllowedOrigin where
  spacer : String := "."
  domain : Option String := none
  prefixes : Option StringSet := some {}
  origins : Option StringSet := none
  originRegex : Option String := none

structure CrossFilterConfig where
  enabled : Bool := false
  allowedHeaders : String := ""
  allowedMethods : String := "*"
  allowedAnyOrigin : Bool := false
  allowedExpose : String := ""
  maxAge : String := "18000"
  allowCredentials : Bool := false
  allowedOrigin : AllowedOrigin := {}

structure InstanceConfig where
  enabled : Bool := false
  registerType : Option String := none
  serverLists : Option String := none
  props : Option StringMap := some {}

structure RibbonConfig where
  serverListRefreshInterval : Bounded .w32 := { val := 10000 }

structure Local where
  enabled : Bool := false
  sha512Key : Option String := none

structure WebsocketConfig where
  maxFramePayloadSize : Option (Bounded .w32) := some { val := 10 }

structure SharedPool where
  enable : Bool := false
  threadPrefix : Option String := some "shenyu-shared"
  corePoolSize : Option (Bounded .w32) := some { val := 200 }
  maximumPoolSize : Option (Bounded .w32) := some { val := 2147483647 }
  keepAliveTime : Option (Bounded .w64) := some { val := 60000 }
  maxWorkQueueMemory : Option (Bounded .w64) := some { val := 268435456 }
  maxFreeMemory : Option (Bounded .w32) := none

structure MetricsConfig where
  enabled : Bool := false
  name : Option String := none
  host : Option String := none
  port : Option (Bounded .w32) := none
  jmxConfig : Option String := none
  props : Option StringMap := none

structure GatewayConfig where
  fileConfig : FileConfig := {}
  excludePath : PathFilter := {}
  health : PathFilter := {}
  fallbackPath : PathFilter := {}
  extPlugin : ExtPlugin := {}
  matchCache : MatchCache := {}
  scheduler : Scheduler
  upstreamCheck : UpstreamCheck := {}
  crossFilterConfig : CrossFilterConfig := {}
  instanceConfig : InstanceConfig := {}
  ribbonConfig : RibbonConfig := {}
  localEndpoint : Local := {}
  websocketConfig : WebsocketConfig := {}
  sharedPool : SharedPool := {}
  metricsConfig : MetricsConfig := {}

instance [Machine] : Inhabited GatewayConfig := ⟨{ scheduler := { threads := defaultThreads } }⟩

end DottedPatch.Gateway
