import DottedPatch.Gateway.Config
import DottedPatch.Schema.Section

namespace DottedPatch.Gateway

open Leaf Width

def pathFilter (name doc : String) : Section :=
  { name, doc
    leaves :=
      [boolean "enabled",
       (list ';' "paths").described "Path patterns, ';' separated."] }

def fileConfig : Section :=
  { name := "FileConfig"
    leaves :=
      [boolean "enabled",
       (integer w32 "maxSize").resetsTo (.integer 0) |>.described "Upload size limit in MB."] }

def extPlugin : Section :=
  { name := "ExtPlugin"
    leaves :=
      [(string "path").described "Directory scanned for extension jars.",
       boolean "enabled",
       integer w32 "threads",
       (integer w32 "scheduleTime").described "Scan period in seconds.",
       (integer w32 "scheduleDelay").described "First scan delay in seconds."] }

def matchCache : Section :=
  { name := "MatchCache"
    leaves :=
      [boolean "enabled",
       (integer w32 "maxFreeMemory").described "Cache memory budget in MB."] }

def scheduler : Section :=
  { name := "Scheduler"
    leaves :=
      [boolean "enabled",
       (string "type").described "\"fixed\" or \"elastic\".",
       (integer w32 "threads").resetsTo (.integer leastThreads)
         |>.described "Worker threads; defaults to max(2 * cpus + 1, 16)."] }

def switchConfig : Section :=
  { name := "SwitchConfig"
    leaves := [(boolean "local").described "Serve from the local config cache."] }

def upstreamCheck : Section :=
  { name := "UpstreamCheck"
    doc := "Active health checks against upstreams."
    leaves :=
      [boolean "enabled",
       (integer w32 "timeout").described "Probe timeout in ms.",
       integer w32 "healthyThreshold",
       integer w32 "unhealthyThreshold",
       (integer w32 "interval").described "Probe period in ms.",
       boolean "printEnabled",
       integer w32 "printInterval"]
    children := [switchConfig] }

def allowedOrigin : Section :=
  { name := "AllowedOrigin"
    leaves :=
      [string "spacer",
       string "domain",
       set ',' "prefixes",
       set ',' "origins",
       string "originRegex"] }

def crossFilterConfig : Section :=
  { name := "CrossFilterConfig"
    doc := "CORS handling."
    leaves :=
      [boolean "enabled",
       string "allowedHeaders",
       string "allowedMethods",
       boolean "allowedAnyOrigin",
       string "allowedExpose",
       (string "maxAge").resetsTo (.string "0") |>.described "Preflight cache lifetime in seconds.",
       boolean "allowCredentials"]
    children := [allowedOrigin] }

def instanceConfig : Section :=
  { name := "InstanceConfig"
    leaves := [boolean "enabled", string "registerType", string "serverLists", map "props"] }

def ribbonConfig : Section :=
  { name := "RibbonConfig"
    leaves := [(integer w32 "serverListRefreshInterval").resetsTo (.integer 0)] }

def localEndpoint : Section :=
  { name := "Local"
    leaves :=
      [boolean "enabled",
       (string "sha512Key").unsets |>.described "Key guarding the local config endpoints."] }

def websocketConfig : Section :=
  { name := "WebsocketConfig"
    leaves := [(integer w32 "maxFramePayloadSize").described "In MB."] }

def sharedPool : Section :=
  { name := "SharedPool"
    doc := "Thread pool shared by plugins."
    leaves :=
      [boolean "enable",
       (string "prefix").unsets,
       integer w32 "corePoolSize",
       integer w32 "maximumPoolSize",
       (integer w64 "keepAliveTime").described "In ms.",
       (integer w64 "maxWorkQueueMemory").described "In bytes.",
       integer w32 "maxFreeMemory"] }

def metricsConfig : Section :=
  { name := "MetricsConfig"
    leaves :=
      [boolean "enabled",
       (string "name").unsets,
       (string "host").unsets,
       integer w32 "port",
       (string "jmxConfig").unsets,
       map "props"] }

def schema : Schema where
  root :=
    { name := ""
      children :=
        [fileConfig,
         pathFilter "ExcludePath" "Paths the gateway does not route.",
         pathFilter "Health" "Health check endpoints.",
         pathFilter "FallbackPath" "Fallback endpoints.",
         extPlugin, matchCache, scheduler, upstreamCheck, crossFilterConfig, instanceConfig,
         ribbonConfig, localEndpoint, websocketConfig, sharedPool, metricsConfig] }

end DottedPatch.Gateway
