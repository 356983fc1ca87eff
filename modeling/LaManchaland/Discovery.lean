import Mathlib.Data.List.AList
import LaManchaland.Llmserver.Server

/-!
# The worker registry

`Discovery` is the registry of `discovery.go`: the workers by their endpoint `"host:port"`, and the buffered channel
that the scanner fills. Entries come from the mDNS scanner (`scan`, which replaces an entry) and from manual additions
(`addManualWorker`, which keeps one). `scan` ends in a panic when an announcement has no IPv4 address: the log line
after the insert reads the first one.
-/

namespace LaManchaland

open Llmserver (itoa)

structure WorkerInfo where
  name : String
  host : String
  port : Int
  ip : String
  vramTotal : UInt64
  vramUsed : UInt64
  ramTotal : UInt64
  ramUsed : UInt64
  gpuName : String
  cpuLoad : Rat
  status : String
  lastSeen : Nat
  deriving DecidableEq

structure Discovery where
  workers : AList fun _ : String => WorkerInfo
  ch : List WorkerInfo

/-- `NewDiscovery`. -/
def newDiscovery : Discovery := ⟨∅, []⟩

/-- The capacity of the channel that `NewDiscovery` makes. -/
def chCapacity : Nat := 100

/-- `fmt.Sprintf("%s:%d", host, port)`. -/
def endpoint (host : String) (port : Int) : String := host ++ ":" ++ itoa port

/-! ## Announcements -/

/-- An IPv4 address, as the A record has it. -/
structure IP where
  a : UInt8
  b : UInt8
  c : UInt8
  d : UInt8
  deriving DecidableEq

/-- `net.IP.String` of an IPv4 address. -/
def IP.string (ip : IP) : String :=
  toString ip.a.toNat ++ "." ++ toString ip.b.toNat ++ "." ++ toString ip.c.toNat ++ "." ++ toString ip.d.toNat

/-- The fields of `zeroconf.ServiceEntry` that the scanner reads. -/
structure ServiceEntry where
  inst : String
  addrIPv4 : List IP
  port : Int
  text : List String

/-- `parseEntry`: the loop over the text records does nothing. -/
def parseEntry (now : Nat) (entry : ServiceEntry) : WorkerInfo where
  name := entry.inst
  host := (entry.addrIPv4.head?.map IP.string).getD ""
  port := entry.port
  ip := (entry.addrIPv4.head?.map IP.string).getD ""
  vramTotal := 0
  vramUsed := 0
  ramTotal := 0
  ramUsed := 0
  gpuName := ""
  cpuLoad := 0
  status := "available"
  lastSeen := now

/-- The entry that `AddManualWorker` makes. -/
def manualWorker (now : Nat) (host : String) (port : Int) (name : String) : WorkerInfo where
  name := name
  host := host
  port := port
  ip := host
  vramTotal := 0
  vramUsed := 0
  ramTotal := 0
  ramUsed := 0
  gpuName := ""
  cpuLoad := 0
  status := "connected"
  lastSeen := now

/-! ## The locked operations -/

namespace Discovery

/-- The insert of the scanner, and its send that never blocks. -/
def scanInsert (info : WorkerInfo) (d : Discovery) : Discovery where
  workers := d.workers.insert (info.host ++ ":" ++ itoa info.port) info
  ch := if d.ch.length < chCapacity then d.ch ++ [info] else d.ch

/-- One round of the scanner; `none` is the index panic of its log line. -/
def scan (now : Nat) (entry : ServiceEntry) (d : Discovery) : Option Discovery :=
  match entry.addrIPv4 with
  | [] => none
  | _ :: _ => some (d.scanInsert (parseEntry now entry))

/-- `GetWorkers`; Go leaves the order open. -/
def getWorkers (d : Discovery) : List WorkerInfo := d.workers.entries.map Sigma.snd

def addManualWorker (now : Nat) (host : String) (port : Int) (name : String) (d : Discovery) : Discovery :=
  match d.workers.lookup (endpoint host port) with
  | some existing =>
    { d with workers := d.workers.insert (endpoint host port) { existing with lastSeen := now, status := "connected" } }
  | none => { d with workers := d.workers.insert (endpoint host port) (manualWorker now host port name) }

def updateWorkerMetrics (now : Nat) (key : String) (metrics : WorkerInfo → WorkerInfo) (d : Discovery) : Discovery :=
  match d.workers.lookup key with
  | some w => { d with workers := d.workers.insert key { metrics w with lastSeen := now } }
  | none => d

def removeWorker (key : String) (d : Discovery) : Discovery := { d with workers := d.workers.erase key }

/-! ## The keys -/

variable {d d' : Discovery} {key : String} {now : Nat}

theorem not_mem_new : key ∉ newDiscovery.workers := AList.notMem_empty key

/-- A round of the scanner adds the endpoint of the announcement. -/
theorem mem_scan {entry : ServiceEntry} (h : d.scan now entry = some d') :
    key ∈ d'.workers ↔ key = endpoint (parseEntry now entry).host entry.port ∨ key ∈ d.workers := by
  unfold scan at h
  split at h
  · cases h
  · cases h
    exact AList.mem_insert _

/-- A manual addition adds its endpoint. -/
theorem mem_addManualWorker {host name : String} {port : Int} :
    key ∈ (d.addManualWorker now host port name).workers ↔ key = endpoint host port ∨ key ∈ d.workers := by
  unfold addManualWorker
  split <;> exact AList.mem_insert _

theorem mem_removeWorker {k : String} : key ∈ (d.removeWorker k).workers ↔ key ≠ k ∧ key ∈ d.workers :=
  AList.mem_erase

end Discovery

/-- An endpoint has a colon. -/
theorem colon_mem_endpoint (host : String) (port : Int) : ':' ∈ (endpoint host port).toList := by
  simp [endpoint]

end LaManchaland
