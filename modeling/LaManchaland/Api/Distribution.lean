import LaManchaland.Api.Server
import LaManchaland.Lib.Runs

/-!
# From the registry to the command line

A worker reaches the registry by an mDNS discovery or by a manual addition. It reaches the command line through the
list `rpcWorkers`, which only the second section of a manual addition appends to, and which a load goroutine copies to
the llama-server manager before it calls `Start`. `step` lets discoveries, the two sections of additions, removals, the
copies and starts of any number of load goroutines, setters, and the children of the manager interleave freely.

`distributed_iff`: the command line of a `Start` names every worker that was registered when its goroutine copied the
list exactly when each of them had been appended by a manual addition before the last copy. So a discovered worker that
nobody adds by hand is never used (`discovered_not_used`).
-/

namespace LaManchaland.Api.Distribution

open Runs
open Llmserver (Setting Env Machine envUp)

/-- The controller, and the manual additions that are between their two sections. -/
structure Cluster where
  ctl : Controller
  adding : List (String × Int)

inductive Label where
  | discover (now : Nat) (entry : ServiceEntry)
  | add (now : Nat) (body : AddRequest)
  | append (writeFails : Nat → Bool) (host : String) (port : Int)
  | remove (writeFails : Nat → Bool) (body : RemoveRequest)
  | copy
  | set (f : Setting)
  | start (env : Env)
  | stop
  | exit (i : Nat)
  | update (i : Nat)

/-- Is the setting the worker list? No request sets it. -/
def isWorkerList : Setting → Bool
  | .setRPCWorkers _ => true
  | _ => false

def step (s : Cluster) : Label → Option Cluster
  | .discover now entry => (s.ctl.disc.scan now entry).map fun d => { s with ctl := { s.ctl with disc := d } }
  | .add now body =>
    if body.host = "" ∨ body.port = 0 then none
    else some ⟨addToRegistry s.ctl now body, s.adding ++ [(body.host, body.port)]⟩
  | .append writeFails host port =>
    if (host, port) ∈ s.adding then
      some ⟨addRPCWorker s.ctl writeFails host port, s.adding.erase (host, port)⟩
    else none
  | .remove writeFails body => some { s with ctl := (handleWorkersDelete s.ctl writeFails (some body)).1 }
  | .copy => some { s with ctl := copyWorkers s.ctl }
  | .set f =>
    if isWorkerList f then none else some { s with ctl := { s.ctl with llm := Llmserver.set f s.ctl.llm } }
  | .start env => some { s with ctl := { s.ctl with llm := (Llmserver.start env s.ctl.llm).1 } }
  | .stop => some { s with ctl := { s.ctl with llm := Llmserver.stop s.ctl.llm } }
  | .exit i => (Llmserver.exit i s.ctl.llm).map fun m => { s with ctl := { s.ctl with llm := m } }
  | .update i => (Llmserver.update i s.ctl.llm).map fun m => { s with ctl := { s.ctl with llm := m } }

/-- The empty API server, the empty registry, and the manager of `main`. -/
def init (port : Int) : Cluster := ⟨⟨newServer, newDiscovery, Llmserver.init port⟩, []⟩

/-! ## What a step does to the lists -/

/-- The endpoints appended by manual additions, in order. -/
def appended : List Label → List String
  | [] => []
  | .append _ host port :: ls => endpoint host port :: appended ls
  | _ :: ls => appended ls

def isCopy : Label → Bool
  | .copy => true
  | _ => false

/-- **What a step does** to the API list, to the manager's list and to the keys of the registry. -/
theorem step_lists {s t : Cluster} {l : Label} (h : step s l = some t) :
    t.ctl.api.rpcWorkers = s.ctl.api.rpcWorkers ++ appended [l] ∧
    t.ctl.llm.srv.rpcWorkers = (if isCopy l then s.ctl.api.rpcWorkers else s.ctl.llm.srv.rpcWorkers) ∧
    ∀ key ∈ t.ctl.disc.workers, key ∈ s.ctl.disc.workers ∨ ':' ∈ key.toList := by
  have worker : ∀ {m m' : Machine}, m'.srv.settings = m.srv.settings → m'.srv.rpcWorkers = m.srv.rpcWorkers :=
    fun he => Llmserver.Server.settings_congr he (·.rpcWorkers) fun _ => rfl
  have hnil : s.ctl.api.rpcWorkers = s.ctl.api.rpcWorkers ++ [] := (List.append_nil _).symm
  have hkeys : ∀ key ∈ s.ctl.disc.workers, key ∈ s.ctl.disc.workers ∨ ':' ∈ key.toList := fun _ hk => .inl hk
  cases l with
  | discover now entry =>
    obtain ⟨d, hd, rfl⟩ := Option.map_eq_some_iff.mp h
    refine ⟨hnil, rfl, fun key hk => ?_⟩
    rcases (Discovery.mem_scan hd).mp hk with rfl | hk
    · exact .inr (colon_mem_endpoint _ _)
    · exact .inl hk
  | add now body =>
    simp only [step] at h
    split at h
    · cases h
    · cases h
      refine ⟨hnil, rfl, fun key hk => ?_⟩
      rcases Discovery.mem_addManualWorker.mp hk with rfl | hk
      · exact .inr (colon_mem_endpoint _ _)
      · exact .inl hk
  | append writeFails host port =>
    simp only [step] at h
    split at h
    · cases h; exact ⟨rfl, rfl, hkeys⟩
    · cases h
  | remove writeFails body =>
    cases h
    exact ⟨hnil, rfl, fun key hk => .inl (Discovery.mem_removeWorker.mp hk).2⟩
  | copy => cases h; exact ⟨hnil, rfl, hkeys⟩
  | set f =>
    simp only [step] at h
    split at h
    · cases h
    · rename_i hf
      cases h
      refine ⟨hnil, ?_, hkeys⟩
      cases f <;> first | rfl | exact absurd rfl hf
  | start env => cases h; exact ⟨hnil, worker (Llmserver.start_settings env s.ctl.llm), hkeys⟩
  | stop => cases h; exact ⟨hnil, worker (Llmserver.stopLocked_settings s.ctl.llm), hkeys⟩
  | exit i =>
    obtain ⟨m, hm, rfl⟩ := Option.map_eq_some_iff.mp h
    obtain ⟨c, _, _, rfl⟩ := Llmserver.exit_some hm
    exact ⟨hnil, rfl, hkeys⟩
  | update i =>
    obtain ⟨m, hm, rfl⟩ := Option.map_eq_some_iff.mp h
    obtain ⟨c, _, _, _, rfl⟩ := Llmserver.update_some hm
    exact ⟨hnil, rfl, hkeys⟩

/-! ## What the history says -/

/-- The run up to its last copy. -/
def upToLastCopy (ls : List Label) : List Label := (ls.reverse.dropWhile fun l => !isCopy l).reverse

theorem appended_append : ∀ ls ms : List Label, appended (ls ++ ms) = appended ls ++ appended ms
  | [], _ => rfl
  | l :: ls, ms => by
    cases l <;> simp [appended, appended_append ls ms]

theorem upToLastCopy_copy {l : Label} (hl : isCopy l = true) (ls : List Label) :
    upToLastCopy (ls ++ [l]) = ls ++ [l] := by
  simp [upToLastCopy, hl]

theorem upToLastCopy_other {l : Label} (hl : isCopy l = false) (ls : List Label) :
    upToLastCopy (ls ++ [l]) = upToLastCopy ls := by
  simp [upToLastCopy, hl]

theorem appended_copy {l : Label} (hl : isCopy l = true) : appended [l] = [] := by
  cases l with
  | copy => rfl
  | _ => cases hl

/-- The two worker lists and the keys, from the history of the run. -/
structure History (ls : List Label) (s : Cluster) : Prop where
  list : s.ctl.api.rpcWorkers = appended ls
  copied : s.ctl.llm.srv.rpcWorkers = appended (upToLastCopy ls)
  colon : ∀ key ∈ s.ctl.disc.workers, ':' ∈ key.toList

theorem history_init (port : Int) : History [] (init port) :=
  ⟨rfl, rfl, fun _ hk => absurd hk Discovery.not_mem_new⟩

/-- Every step keeps the history. -/
theorem history_step {ls : List Label} {s t : Cluster} {l : Label} (h : History ls s) (hs : step s l = some t) :
    History (ls ++ [l]) t := by
  obtain ⟨hlist, hcopied, hkeys⟩ := step_lists hs
  refine ⟨?_, ?_, fun key hk => (hkeys key hk).elim (h.colon key) id⟩
  · rw [hlist, h.list, appended_append]
  · cases hc : isCopy l with
    | true => rw [hcopied, upToLastCopy_copy hc, appended_append, appended_copy hc, hc, List.append_nil]; exact h.list
    | false => rw [hcopied, upToLastCopy_other hc, hc]; exact h.copied

/-- **The two lists of every run**: the API list is what was appended, the manager's list what was appended before the
last copy. -/
theorem history {port : Int} {ls : List Label} {s : Cluster} (h : exec step (init port) ls = some s) : History ls s :=
  exec_history (fun _ _ _ _ _ hi ht => history_step hi ht) (history_init port) h

/-! ## The command line -/

/-- The command line of a `Start` has the adjacent pair `--rpc`, `key` for every worker of the registry. -/
def Distributed (registry : Discovery) (argv : List String) : Prop :=
  ∀ key ∈ registry.workers, ["--rpc", key] <:+: argv

/-- **The exact condition for a complete distribution.** A load goroutine copies the list after the run `pre`, and the
`Start` after `post` launches: the command line names every worker registered at the copy exactly when each of them was
appended by a manual addition before the last copy. -/
theorem distributed_iff {port : Int} {pre post : List Label} {s t : Cluster} {env : Env}
    (hs : exec step (init port) pre = some s) (ht : exec step (init port) (pre ++ .copy :: post) = some t)
    (hl : Llmserver.CanLaunch env t.ctl.llm) :
    ∃ child, (Llmserver.start env t.ctl.llm).1.children.getLast? = some child ∧
      (Distributed s.ctl.disc child.args ↔
        ∀ key ∈ s.ctl.disc.workers, key ∈ appended (upToLastCopy (pre ++ .copy :: post))) := by
  refine ⟨_, Llmserver.start_getLast? hl, ?_⟩
  have hcopied := (history ht).copied
  refine forall₂_congr fun key hk => ?_
  rw [Llmserver.pair_buildArgs ((history hs).colon key hk), hcopied]

/-- A worker is added by hand, in both sections, and a model path is set. -/
def addRun : List Label :=
  [.add 0 ⟨"10.0.0.2", 50051, ""⟩, .append (fun _ => false) "10.0.0.2" 50051, .set (.setModelPath "/m.gguf")]

/-- The load after `addRun`. -/
theorem distributed_iff_added : ∃ s t : Cluster, exec step (init 8081) addRun = some s ∧
    exec step (init 8081) (addRun ++ [.copy]) = some t ∧
    ∃ child, (Llmserver.start envUp t.ctl.llm).1.children.getLast? = some child ∧
      (Distributed s.ctl.disc child.args ↔
        ∀ key ∈ s.ctl.disc.workers, key ∈ appended (upToLastCopy (addRun ++ [.copy]))) :=
  ⟨_, _, rfl, rfl, @distributed_iff 8081 addRun [] _ _ envUp rfl rfl (by decide)⟩

/-! ## A discovered worker -/

/-- An announcement on the local network. -/
def gpuEntry : ServiceEntry := ⟨"gpu", [⟨192, 168, 1, 100⟩], 50051, []⟩

/-- The discovered worker is registered when a model is loaded, and no `--rpc` names it. -/
theorem discovered_not_used : ¬∀ (port : Int) (pre post : List Label) (s t : Cluster) (env : Env)
    (child : Llmserver.Child), exec step (init port) pre = some s →
      exec step (init port) (pre ++ .copy :: post) = some t → Llmserver.CanLaunch env t.ctl.llm →
      (Llmserver.start env t.ctl.llm).1.children.getLast? = some child → Distributed s.ctl.disc child.args := by
  intro h
  have hpair := h 8081 [.discover 0 gpuEntry, .set (.setModelPath "/m.gguf")] [] _ _ envUp _ rfl rfl (by decide) rfl
    "192.168.1.100:50051" (by decide)
  have := (Llmserver.pair_buildArgs (by decide) _).mp hpair
  cases this

end LaManchaland.Api.Distribution
