import LaManchaland.Registry
import LaManchaland.Startup

/-!
# Dialable endpoints

A worker is registered by the startup loop, by a POST to `/api/workers/manual` or by an mDNS announcement, and each of
the three checks what it is given in its own way. `AllDialable`: the registry and the list `rpcWorkers` have only
endpoints with a host and a port in `1..65535`. `step` lets POSTs, in their two locked sections, and announcements
interleave; the round of the scanner for an announcement without an IPv4 address inserts it and then panics.

`dialable_iff`: a run keeps all endpoints dialable exactly when every accepted POST names a port in `1..65535`, and
every announcement has such a port and an IPv4 address.
-/

namespace LaManchaland.Api.Dialable

open Runs
open Keyed (OwnKeys ActsAt)
open Startup (Scan ControllerConfig startup)

/-- The controller, the POSTs between their two sections, and whether the process has panicked. -/
structure Cluster where
  ctl : Controller
  adding : List (String × Int)
  down : Bool

inductive Label where
  | post (now : Nat) (body : Option AddRequest)
  | append (writeFails : Nat → Bool) (host : String) (port : Int)
  | discover (now : Nat) (entry : ServiceEntry)

/-- The check of `handleAddWorker`. -/
def accepts (body : Option AddRequest) (req : AddRequest) : Prop := body = some req ∧ req.host ≠ "" ∧ req.port ≠ 0

/-- The first section of a POST, its second one, and a round of the scanner. -/
def step (s : Cluster) (l : Label) : Option Cluster :=
  if s.down then none
  else
    match l with
    | .post now (some req) =>
      if req.host = "" ∨ req.port = 0 then some s
      else some { s with ctl := addToRegistry s.ctl now req, adding := s.adding ++ [(req.host, req.port)] }
    | .post _ none => some s
    | .append writeFails host port =>
      if s.adding.contains (host, port) then
        some { s with ctl := addRPCWorker s.ctl writeFails host port, adding := s.adding.erase (host, port) }
      else none
    | .discover now entry =>
      some { s with
        ctl := { s.ctl with disc := s.ctl.disc.scanInsert (parseEntry now entry) }, down := entry.addrIPv4.isEmpty }

/-- The controller after its startup. -/
def init (scan : Scan) (now : Nat) (cfg : ControllerConfig) : Cluster := ⟨startup scan now cfg, [], false⟩

/-! ## The property and the condition -/

def PortOk (port : Int) : Prop := 1 ≤ port ∧ port ≤ 65535

def HostPort (host : String) (port : Int) : Prop := host ≠ "" ∧ PortOk port

/-- All entries of the registry are dialable. -/
def RegistryOk (d : Discovery) : Prop := ∀ key w, d.workers.lookup key = some w → HostPort w.host w.port

/-- All entries of the registry and all elements of the list are dialable. -/
structure AllDialable (s : Cluster) : Prop where
  registry : RegistryOk s.ctl.disc
  list : ∀ e ∈ s.ctl.api.rpcWorkers, ∃ host port, HostPort host port ∧ e = endpoint host port

/-- An accepted POST names a port in `1..65535`; an announcement has such a port and an IPv4 address. -/
def Proper : Label → Prop
  | .post _ (some req) => req.host ≠ "" → req.port ≠ 0 → PortOk req.port
  | .post _ none => True
  | .append .. => True
  | .discover _ entry => entry.addrIPv4 ≠ [] ∧ PortOk entry.port

/-! ## The steps -/

/-- The entries are stored under their own endpoints, and a POST between its sections has registered its endpoint. -/
structure Stored (s : Cluster) : Prop where
  own : OwnKeys pairKey WorkerInfo.pair s.ctl.disc.workers
  adding : ∀ p ∈ s.adding, pairKey p ∈ s.ctl.disc.workers

section Registry

variable {d : Discovery} (op : RegistryOp)

/-- An operation keeps the registry dialable exactly when what it stores is dialable. -/
theorem registryOk_run (h : RegistryOk d) :
    RegistryOk (op.run d) ↔ ∀ w, op.effect (d.workers.lookup op.key) = some w → HostPort w.host w.port := by
  have hacts : ActsAt op.key op.effect d.workers (op.run d).workers := op.actsAt
  constructor
  · intro ht w hw
    exact ht op.key w (by rw [hacts.here, hw])
  · intro hw key w hl
    by_cases hk : key = op.key
    · rw [hk, hacts.here] at hl
      exact hw w hl
    · rw [hacts.frame key hk] at hl
      exact h key w hl

/-- A manual addition keeps the registry dialable exactly when its pair is dialable. -/
theorem registryOk_add (hown : OwnKeys pairKey WorkerInfo.pair d.workers) (h : RegistryOk d) (now : Nat)
    (host : String) (port : Int) (name : String) :
    RegistryOk (d.addManualWorker now host port name) ↔ HostPort host port := by
  refine (registryOk_run (.addManualWorker now host port name) h).trans ?_
  show (∀ w, RegistryOp.effect _ (d.workers.lookup (endpoint host port)) = some w → _) ↔ _
  cases hl : d.workers.lookup (endpoint host port) with
  | none =>
    constructor
    · intro hw
      exact hw _ rfl
    · intro hp w hw
      cases hw
      exact hp
  | some existing =>
    -- the pair is registered, so it is the one of its entry
    have hpair : (host, port) = existing.pair := endpoint_injective (hown _ _ hl)
    have hok : HostPort existing.host existing.port := h _ _ hl
    have hhp : HostPort host port := by
      have hhost : host = existing.host := congrArg Prod.fst hpair
      have hport : port = existing.port := congrArg Prod.snd hpair
      rw [hhost, hport]
      exact hok
    refine iff_of_true (fun w hw => ?_) hhp
    cases hw
    exact hok

theorem string_ne (ip : IP) : ip.string ≠ "" := by
  intro h
  have hlen := congrArg String.length h
  simp [IP.string] at hlen

/-- A discovery keeps the registry dialable exactly when it has an address and a port. -/
theorem registryOk_discover (h : RegistryOk d) (now : Nat) (entry : ServiceEntry) :
    RegistryOk (d.scanInsert (parseEntry now entry)) ↔ entry.addrIPv4 ≠ [] ∧ PortOk entry.port := by
  have hhost : (parseEntry now entry).host ≠ "" ↔ entry.addrIPv4 ≠ [] := by
    cases ha : entry.addrIPv4 with
    | nil => simp [parseEntry, ha]
    | cons ip rest => simp [parseEntry, ha, string_ne]
  refine (registryOk_run (.scan now entry) h).trans ?_
  rw [← hhost]
  constructor
  · intro hw
    exact hw _ rfl
  · intro hp w hw
    cases hw
    exact hp

end Registry

section Steps

variable {s t : Cluster} {l : Label}

/-- **What a step can do.** -/
theorem step_cases (h : step s l = some t) :
    (∃ now body, l = .post now body ∧ (∀ req, ¬accepts body req) ∧ t = s) ∨
    (∃ now req, l = .post now (some req) ∧ req.host ≠ "" ∧ req.port ≠ 0 ∧
      t = { s with ctl := addToRegistry s.ctl now req, adding := s.adding ++ [(req.host, req.port)] }) ∨
    (∃ writeFails host port, l = .append writeFails host port ∧ (host, port) ∈ s.adding ∧
      t = { s with ctl := addRPCWorker s.ctl writeFails host port, adding := s.adding.erase (host, port) }) ∨
    ∃ now entry, l = .discover now entry ∧
      t = { s with
        ctl := { s.ctl with disc := s.ctl.disc.scanInsert (parseEntry now entry) }
        down := entry.addrIPv4.isEmpty } := by
  unfold step at h
  split at h
  · cases h
  · cases l with
    | post now body =>
      cases body with
      | none =>
        cases h
        exact .inl ⟨now, none, rfl, fun req hreq => by simp [accepts] at hreq, rfl⟩
      | some req =>
        simp only at h
        split at h
        · rename_i hbad
          cases h
          refine .inl ⟨now, some req, rfl, ?_, rfl⟩
          rintro _ ⟨hreq, hh, hp⟩
          cases hreq
          exact hbad.elim hh hp
        · rename_i hok
          rw [not_or] at hok
          cases h
          exact .inr (.inl ⟨now, req, rfl, hok.1, hok.2, rfl⟩)
    | append writeFails host port =>
      simp only at h
      split at h
      · rename_i hmem
        cases h
        exact .inr (.inr (.inl ⟨writeFails, host, port, rfl, List.contains_iff_mem.mp hmem, rfl⟩))
      · cases h
    | discover now entry =>
      cases h
      exact .inr (.inr (.inr ⟨now, entry, rfl, rfl⟩))

/-- A POST that runs both sections leaves the registry and the list as `handleAddWorker` does. -/
theorem exec_post (hup : s.down = false) (now : Nat) (writeFails : Nat → Bool) {req : AddRequest} (hh : req.host ≠ "")
    (hp : req.port ≠ 0) : ∃ t, exec step s [.post now (some req), .append writeFails req.host req.port] = some t ∧
      t.ctl.disc = (handleAddWorker s.ctl writeFails now .post (some req)).1.disc ∧
      t.ctl.api.rpcWorkers = (handleAddWorker s.ctl writeFails now .post (some req)).1.api.rpcWorkers := by
  have hadd : (handleAddWorker s.ctl writeFails now .post (some req)).1 =
      broadcastUpdate (addRPCWorker (addToRegistry s.ctl now req) writeFails req.host req.port) writeFails := by
    simp [handleAddWorker, hh, hp]
  refine ⟨{ s with
      ctl := addRPCWorker (addToRegistry s.ctl now req) writeFails req.host req.port
      adding := (s.adding ++ [(req.host, req.port)]).erase (req.host, req.port) }, ?_, ?_, ?_⟩
  · simp [step, hup, hh, hp]
  · rw [hadd]
    rfl
  · rw [hadd]
    rfl

theorem stored_step (h : Stored s) (hs : step s l = some t) : Stored t := by
  rcases step_cases hs with ⟨_, _, _, _, rfl⟩ | ⟨now, req, _, _, _, rfl⟩ | ⟨_, _, _, _, _, rfl⟩ | ⟨now, entry, _, rfl⟩
  · exact h
  · refine ⟨ownKeys_run (.addManualWorker now req.host req.port req.fullName) h.own, fun p hp => ?_⟩
    refine Discovery.mem_addManualWorker.mpr ?_
    rcases List.mem_append.mp hp with hp | hp
    · exact .inr (h.adding p hp)
    · rw [List.mem_singleton.mp hp]
      exact .inl rfl
  · exact ⟨h.own, fun p hp => h.adding p (List.mem_of_mem_erase hp)⟩
  · exact ⟨ownKeys_run (.scan now entry) h.own, fun p hp => (AList.mem_insert _).mpr (.inr (h.adding p hp))⟩

/-- A step keeps all endpoints dialable exactly when it is proper. -/
theorem dialable_step (h : Stored s) (hd : AllDialable s) (hs : step s l = some t) : AllDialable t ↔ Proper l := by
  rcases step_cases hs with ⟨now, body, rfl, hno, rfl⟩ | ⟨now, req, rfl, hh, hp, rfl⟩ |
    ⟨_, host, port, rfl, hmem, rfl⟩ | ⟨now, entry, rfl, rfl⟩
  · refine iff_of_true hd ?_
    cases body with
    | none => trivial
    | some req => exact fun hh hp => absurd ⟨rfl, hh, hp⟩ (hno req)
  · have hadd := registryOk_add h.own hd.registry now req.host req.port req.fullName
    constructor
    · intro ht _ _
      exact (hadd.mp ht.registry).2
    · intro hok
      exact ⟨hadd.mpr ⟨hh, hok hh hp⟩, hd.list⟩
  · refine iff_of_true ⟨hd.registry, fun e he => ?_⟩ trivial
    rcases List.mem_append.mp he with he | he
    · exact hd.list e he
    · -- the first section has registered the endpoint
      obtain ⟨w, hw⟩ := Option.isSome_iff_exists.mp (AList.lookup_isSome.mpr (h.adding _ hmem))
      refine ⟨w.host, w.port, hd.registry _ w hw, ?_⟩
      rw [List.mem_singleton.mp he]
      exact h.own _ w hw
  · have hdisc := registryOk_discover hd.registry now entry
    constructor
    · intro ht
      exact hdisc.mp ht.registry
    · intro hok
      exact ⟨hdisc.mpr hok, hd.list⟩

end Steps

/-! ## Runs from the startup -/

section Startup

variable (scan : Scan) (now : Nat) (cfg : ControllerConfig)

theorem lookup_init (key : String) : (init scan now cfg).ctl.disc.workers.lookup key = none := by
  show (startup scan now cfg).disc.workers.lookup key = none
  rw [Startup.startup_disc]
  rfl

theorem stored_init : Stored (init scan now cfg) := by
  refine ⟨fun key w hw => ?_, fun p hp => ?_⟩
  · rw [lookup_init] at hw
    cases hw
  · cases hp

theorem dialable_init : AllDialable (init scan now cfg) := by
  refine ⟨fun key w hw => ?_, fun e he => ?_⟩
  · rw [lookup_init] at hw
    cases hw
  · have he : e ∈ (startup scan now cfg).api.rpcWorkers := he
    rw [Startup.startup_list] at he
    cases he

/-- **The exact condition for dialable endpoints**, along every run from the startup. -/
theorem dialable_iff (ls : List Label) :
    Always step AllDialable (init scan now cfg) ls ↔ Meets step (fun _ l => Proper l) (init scan now cfg) ls :=
  always_iff_meets (I := Stored) (fun _ _ _ => stored_step) (fun _ _ _ => dialable_step) (stored_init scan now cfg)
    (dialable_init scan now cfg) ls

end Startup

/-- A POST with a negative port is accepted, and an announcement without an IPv4 address is registered. -/
theorem undialable_registered :
    ¬Always step AllDialable (init (fun _ _ _ => none) 0 Startup.oneWorker) [.post 0 (some ⟨"10.0.0.2", -1, ""⟩)] ∧
    ¬Always step AllDialable (init (fun _ _ _ => none) 0 Startup.oneWorker) [.discover 0 ⟨"gpu", [], 50051, []⟩] := by
  constructor
  · intro h
    have hport : (1 : Int) ≤ -1 := ((h.2 _ rfl).head.registry "10.0.0.2:-1" _ rfl).2.1
    omega
  · intro h
    exact ((h.2 _ rfl).head.registry ":50051" _ rfl).1 rfl

end LaManchaland.Api.Dialable
