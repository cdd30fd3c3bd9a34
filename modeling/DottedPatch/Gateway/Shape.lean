import DottedPatch.Config.Configuration
import DottedPatch.Failure
import DottedPatch.Gateway.Config
import DottedPatch.Toml.Printer

namespace DottedPatch.Gateway

open Config

def SwitchConfig.shape : Shape := .record "SwitchConfig" <|
  .required "local" .boolean <|
  .nil

def SwitchConfig.toCarrier (c : SwitchConfig) : SwitchConfig.shape.Carrier :=
  (c.localCache, ())

def SwitchConfig.ofCarrier : SwitchConfig.shape.Carrier → SwitchConfig
  | (localCache, _) =>
    ⟨localCache⟩

instance : Shaped SwitchConfig :=
  ⟨SwitchConfig.shape, SwitchConfig.toCarrier, SwitchConfig.ofCarrier, fun _ => rfl, fun _ => rfl⟩

def FileConfig.shape : Shape := .record "FileConfig" <|
  .required "enabled" .boolean <|
  .required "maxSize" (.integer .w32) <|
  .nil

def FileConfig.toCarrier (c : FileConfig) : FileConfig.shape.Carrier :=
  (c.enabled, c.maxSize, ())

def FileConfig.ofCarrier : FileConfig.shape.Carrier → FileConfig
  | (enabled, maxSize, _) =>
    ⟨enabled, maxSize⟩

instance : Shaped FileConfig :=
  ⟨FileConfig.shape, FileConfig.toCarrier, FileConfig.ofCarrier, fun _ => rfl, fun _ => rfl⟩

def PathFilter.shape : Shape := .record "PathFilter" <|
  .required "enabled" .boolean <|
  .optional "paths" .strings <|
  .nil

def PathFilter.toCarrier (c : PathFilter) : PathFilter.shape.Carrier :=
  (c.enabled, c.paths, ())

def PathFilter.ofCarrier : PathFilter.shape.Carrier → PathFilter
  | (enabled, paths, _) =>
    ⟨enabled, paths⟩

instance : Shaped PathFilter :=
  ⟨PathFilter.shape, PathFilter.toCarrier, PathFilter.ofCarrier, fun _ => rfl, fun _ => rfl⟩

def ExtPlugin.shape : Shape := .record "ExtPlugin" <|
  .optional "path" .string <|
  .required "enabled" .boolean <|
  .optional "threads" (.integer .w32) <|
  .optional "scheduleTime" (.integer .w32) <|
  .optional "scheduleDelay" (.integer .w32) <|
  .nil

def ExtPlugin.toCarrier (c : ExtPlugin) : ExtPlugin.shape.Carrier :=
  (c.path, c.enabled, c.threads, c.scheduleTime, c.scheduleDelay, ())

def ExtPlugin.ofCarrier : ExtPlugin.shape.Carrier → ExtPlugin
  | (path, enabled, threads, scheduleTime, scheduleDelay, _) =>
    ⟨path, enabled, threads, scheduleTime, scheduleDelay⟩

instance : Shaped ExtPlugin :=
  ⟨ExtPlugin.shape, ExtPlugin.toCarrier, ExtPlugin.ofCarrier, fun _ => rfl, fun _ => rfl⟩

def MatchCache.shape : Shape := .record "MatchCache" <|
  .required "enabled" .boolean <|
  .optional "maxFreeMemory" (.integer .w32) <|
  .nil

def MatchCache.toCarrier (c : MatchCache) : MatchCache.shape.Carrier :=
  (c.enabled, c.maxFreeMemory, ())

def MatchCache.ofCarrier : MatchCache.shape.Carrier → MatchCache
  | (enabled, maxFreeMemory, _) =>
    ⟨enabled, maxFreeMemory⟩

instance : Shaped MatchCache :=
  ⟨MatchCache.shape, MatchCache.toCarrier, MatchCache.ofCarrier, fun _ => rfl, fun _ => rfl⟩

def Scheduler.shape : Shape := .record "Scheduler" <|
  .required "enabled" .boolean <|
  .required "type" .string <|
  .required "threads" (.integer .w32) <|
  .nil

def Scheduler.toCarrier (c : Scheduler) : Scheduler.shape.Carrier :=
  (c.enabled, c.kind, c.threads, ())

def Scheduler.ofCarrier : Scheduler.shape.Carrier → Scheduler
  | (enabled, kind, threads, _) =>
    ⟨enabled, kind, threads⟩

instance : Shaped Scheduler :=
  ⟨Scheduler.shape, Scheduler.toCarrier, Scheduler.ofCarrier, fun _ => rfl, fun _ => rfl⟩

def UpstreamCheck.shape : Shape := .record "UpstreamCheck" <|
  .required "enabled" .boolean <|
  .optional "timeout" (.integer .w32) <|
  .optional "healthyThreshold" (.integer .w32) <|
  .optional "unhealthyThreshold" (.integer .w32) <|
  .optional "interval" (.integer .w32) <|
  .required "printEnabled" .boolean <|
  .optional "printInterval" (.integer .w32) <|
  .required "SwitchConfig" SwitchConfig.shape <|
  .nil

def UpstreamCheck.toCarrier (c : UpstreamCheck) : UpstreamCheck.shape.Carrier :=
  (c.enabled, c.timeout, c.healthyThreshold, c.unhealthyThreshold, c.interval, c.printEnabled,
   c.printInterval, SwitchConfig.toCarrier c.switchConfig, ())

def UpstreamCheck.ofCarrier : UpstreamCheck.shape.Carrier → UpstreamCheck
  | (enabled, timeout, healthyThreshold, unhealthyThreshold, interval, printEnabled,
     printInterval, switchConfig, _) =>
    ⟨enabled, timeout, healthyThreshold, unhealthyThreshold, interval, printEnabled,
      printInterval, SwitchConfig.ofCarrier switchConfig⟩

instance : Shaped UpstreamCheck :=
  ⟨UpstreamCheck.shape, UpstreamCheck.toCarrier, UpstreamCheck.ofCarrier, fun _ => rfl, fun _ => rfl⟩

def AllowedOrigin.shape : Shape := .record "AllowedOrigin" <|
  .required "spacer" .string <|
  .optional "domain" .string <|
  .optional "prefixes" .stringSet <|
  .optional "origins" .stringSet <|
  .optional "originRegex" .string <|
  .nil

def AllowedOrigin.toCarrier (c : AllowedOrigin) : AllowedOrigin.shape.Carrier :=
  (c.spacer, c.domain, c.prefixes, c.origins, c.originRegex, ())

def AllowedOrigin.ofCarrier : AllowedOrigin.shape.Carrier → AllowedOrigin
  | (spacer, domain, prefixes, origins, originRegex, _) =>
    ⟨spacer, domain, prefixes, origins, originRegex⟩

instance : Shaped AllowedOrigin :=
  ⟨AllowedOrigin.shape, AllowedOrigin.toCarrier, AllowedOrigin.ofCarrier, fun _ => rfl, fun _ => rfl⟩

def CrossFilterConfig.shape : Shape := .record "CrossFilterConfig" <|
  .required "enabled" .boolean <|
  .required "allowedHeaders" .string <|
  .required "allowedMethods" .string <|
  .required "allowedAnyOrigin" .boolean <|
  .required "allowedExpose" .string <|
  .required "maxAge" .string <|
  .required "allowCredentials" .boolean <|
  .required "AllowedOrigin" AllowedOrigin.shape <|
  .nil

def CrossFilterConfig.toCarrier (c : CrossFilterConfig) : CrossFilterConfig.shape.Carrier :=
  (c.enabled, c.allowedHeaders, c.allowedMethods, c.allowedAnyOrigin, c.allowedExpose, c.maxAge,
   c.allowCredentials, AllowedOrigin.toCarrier c.allowedOrigin, ())

def CrossFilterConfig.ofCarrier : CrossFilterConfig.shape.Carrier → CrossFilterConfig
  | (enabled, allowedHeaders, allowedMethods, allowedAnyOrigin, allowedExpose, maxAge,
     allowCredentials, allowedOrigin, _) =>
    ⟨enabled, allowedHeaders, allowedMethods, allowedAnyOrigin, allowedExpose, maxAge,
      allowCredentials, AllowedOrigin.ofCarrier allowedOrigin⟩

instance : Shaped CrossFilterConfig :=
  ⟨CrossFilterConfig.shape, CrossFilterConfig.toCarrier, CrossFilterConfig.ofCarrier, fun _ => rfl, fun _ => rfl⟩

def InstanceConfig.shape : Shape := .record "InstanceConfig" <|
  .required "enabled" .boolean <|
  .optional "registerType" .string <|
  .optional "serverLists" .string <|
  .optional "props" .stringMap <|
  .nil

def InstanceConfig.toCarrier (c : InstanceConfig) : InstanceConfig.shape.Carrier :=
  (c.enabled, c.registerType, c.serverLists, c.props, ())

def InstanceConfig.ofCarrier : InstanceConfig.shape.Carrier → InstanceConfig
  | (enabled, registerType, serverLists, props, _) =>
    ⟨enabled, registerType, serverLists, props⟩

instance : Shaped InstanceConfig :=
  ⟨InstanceConfig.shape, InstanceConfig.toCarrier, InstanceConfig.ofCarrier, fun _ => rfl, fun _ => rfl⟩

def RibbonConfig.shape : Shape := .record "RibbonConfig" <|
  .required "serverListRefreshInterval" (.integer .w32) <|
  .nil

def RibbonConfig.toCarrier (c : RibbonConfig) : RibbonConfig.shape.Carrier :=
  (c.serverListRefreshInterval, ())

def RibbonConfig.ofCarrier : RibbonConfig.shape.Carrier → RibbonConfig
  | (serverListRefreshInterval, _) =>
    ⟨serverListRefreshInterval⟩

instance : Shaped RibbonConfig :=
  ⟨RibbonConfig.shape, RibbonConfig.toCarrier, RibbonConfig.ofCarrier, fun _ => rfl, fun _ => rfl⟩

def Local.shape : Shape := .record "Local" <|
  .required "enabled" .boolean <|
  .optional "sha512Key" .string <|
  .nil

def Local.toCarrier (c : Local) : Local.shape.Carrier :=
  (c.enabled, c.sha512Key, ())

def Local.ofCarrier : Local.shape.Carrier → Local
  | (enabled, sha512Key, _) =>
    ⟨enabled, sha512Key⟩

instance : Shaped Local :=
  ⟨Local.shape, Local.toCarrier, Local.ofCarrier, fun _ => rfl, fun _ => rfl⟩

def WebsocketConfig.shape : Shape := .record "WebsocketConfig" <|
  .optional "maxFramePayloadSize" (.integer .w32) <|
  .nil

def WebsocketConfig.toCarrier (c : WebsocketConfig) : WebsocketConfig.shape.Carrier :=
  (c.maxFramePayloadSize, ())

def WebsocketConfig.ofCarrier : WebsocketConfig.shape.Carrier → WebsocketConfig
  | (maxFramePayloadSize, _) =>
    ⟨maxFramePayloadSize⟩

instance : Shaped WebsocketConfig :=
  ⟨WebsocketConfig.shape, WebsocketConfig.toCarrier, WebsocketConfig.ofCarrier, fun _ => rfl, fun _ => rfl⟩

def SharedPool.shape : Shape := .record "SharedPool" <|
  .required "enable" .boolean <|
  .optional "prefix" .string <|
  .optional "corePoolSize" (.integer .w32) <|
  .optional "maximumPoolSize" (.integer .w32) <|
  .optional "keepAliveTime" (.integer .w64) <|
  .optional "maxWorkQueueMemory" (.integer .w64) <|
  .optional "maxFreeMemory" (.integer .w32) <|
  .nil

def SharedPool.toCarrier (c : SharedPool) : SharedPool.shape.Carrier :=
  (c.enable, c.threadPrefix, c.corePoolSize, c.maximumPoolSize, c.keepAliveTime,
   c.maxWorkQueueMemory, c.maxFreeMemory, ())

def SharedPool.ofCarrier : SharedPool.shape.Carrier → SharedPool
  | (enable, threadPrefix, corePoolSize, maximumPoolSize, keepAliveTime, maxWorkQueueMemory,
     maxFreeMemory, _) =>
    ⟨enable, threadPrefix, corePoolSize, maximumPoolSize, keepAliveTime, maxWorkQueueMemory,
      maxFreeMemory⟩

instance : Shaped SharedPool :=
  ⟨SharedPool.shape, SharedPool.toCarrier, SharedPool.ofCarrier, fun _ => rfl, fun _ => rfl⟩

def MetricsConfig.shape : Shape := .record "MetricsConfig" <|
  .required "enabled" .boolean <|
  .optional "name" .string <|
  .optional "host" .string <|
  .optional "port" (.integer .w32) <|
  .optional "jmxConfig" .string <|
  .optional "props" .stringMap <|
  .nil

def MetricsConfig.toCarrier (c : MetricsConfig) : MetricsConfig.shape.Carrier :=
  (c.enabled, c.name, c.host, c.port, c.jmxConfig, c.props, ())

def MetricsConfig.ofCarrier : MetricsConfig.shape.Carrier → MetricsConfig
  | (enabled, name, host, port, jmxConfig, props, _) =>
    ⟨enabled, name, host, port, jmxConfig, props⟩

instance : Shaped MetricsConfig :=
  ⟨MetricsConfig.shape, MetricsConfig.toCarrier, MetricsConfig.ofCarrier, fun _ => rfl, fun _ => rfl⟩

def GatewayConfig.shape : Shape := .record "GatewayConfig" <|
  .required "FileConfig" FileConfig.shape <|
  .required "ExcludePath" PathFilter.shape <|
  .required "Health" PathFilter.shape <|
  .required "FallbackPath" PathFilter.shape <|
  .required "ExtPlugin" ExtPlugin.shape <|
  .required "MatchCache" MatchCache.shape <|
  .required "Scheduler" Scheduler.shape <|
  .required "UpstreamCheck" UpstreamCheck.shape <|
  .required "CrossFilterConfig" CrossFilterConfig.shape <|
  .required "InstanceConfig" InstanceConfig.shape <|
  .required "RibbonConfig" RibbonConfig.shape <|
  .required "Local" Local.shape <|
  .required "WebsocketConfig" WebsocketConfig.shape <|
  .required "SharedPool" SharedPool.shape <|
  .required "MetricsConfig" MetricsConfig.shape <|
  .nil

def GatewayConfig.toCarrier (c : GatewayConfig) : GatewayConfig.shape.Carrier :=
  (FileConfig.toCarrier c.fileConfig, PathFilter.toCarrier c.excludePath,
   PathFilter.toCarrier c.health, PathFilter.toCarrier c.fallbackPath,
   ExtPlugin.toCarrier c.extPlugin, MatchCache.toCarrier c.matchCache,
   Scheduler.toCarrier c.scheduler, UpstreamCheck.toCarrier c.upstreamCheck,
   CrossFilterConfig.toCarrier c.crossFilterConfig, InstanceConfig.toCarrier c.instanceConfig,
   RibbonConfig.toCarrier c.ribbonConfig, Local.toCarrier c.localEndpoint,
   WebsocketConfig.toCarrier c.websocketConfig, SharedPool.toCarrier c.sharedPool,
   MetricsConfig.toCarrier c.metricsConfig, ())

def GatewayConfig.ofCarrier : GatewayConfig.shape.Carrier → GatewayConfig
  | (fileConfig, excludePath, health, fallbackPath, extPlugin, matchCache, scheduler,
     upstreamCheck, crossFilterConfig, instanceConfig, ribbonConfig, localEndpoint,
     websocketConfig, sharedPool, metricsConfig, _) =>
    ⟨FileConfig.ofCarrier fileConfig, PathFilter.ofCarrier excludePath,
      PathFilter.ofCarrier health, PathFilter.ofCarrier fallbackPath,
      ExtPlugin.ofCarrier extPlugin, MatchCache.ofCarrier matchCache,
      Scheduler.ofCarrier scheduler, UpstreamCheck.ofCarrier upstreamCheck,
      CrossFilterConfig.ofCarrier crossFilterConfig, InstanceConfig.ofCarrier instanceConfig,
      RibbonConfig.ofCarrier ribbonConfig, Local.ofCarrier localEndpoint,
      WebsocketConfig.ofCarrier websocketConfig, SharedPool.ofCarrier sharedPool,
      MetricsConfig.ofCarrier metricsConfig⟩

instance : Shaped GatewayConfig :=
  ⟨GatewayConfig.shape, GatewayConfig.toCarrier, GatewayConfig.ofCarrier, fun _ => rfl, fun _ => rfl⟩

def GatewayConfig.document (c : GatewayConfig) : Except Failure Toml.Document :=
  match GatewayConfig.shape.item c.toCarrier with
  | .table _ members => .ok { members }
  | _ => .error .noTable

def GatewayConfig.text (c : GatewayConfig) : Except Failure String := c.document.map Toml.Document.text

end DottedPatch.Gateway
