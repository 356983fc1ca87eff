import LaManchaland.Registry
import LaManchaland.Api.Server

/-!
# What an addition reports

`handleAddWorker` answers 200 with the name of the request, and `AddManualWorker` stores that name only when the
endpoint is new: an entry that is there already keeps the name it was added or announced under. `Reports` is the
postcondition of the handler. It holds in every state for a request that is refused and for one whose endpoint has no
entry or an entry with the name of the request, and in no other case: `reportsStored_iff`.
-/

namespace LaManchaland.Api

open Keyed (OwnKeys)

/-- A request that `handleAddWorker` accepts. -/
def accepted (method : Method) : Option AddRequest → Option AddRequest
  | none => none
  | some req => if method = .post ∧ req.host ≠ "" ∧ req.port ≠ 0 then some req else none

section Outcome

variable (c : Controller) (writeFails : Nat → Bool) (now : Nat) {method : Method} {body : Option AddRequest}

/-- **What an accepted request does.** -/
theorem handleAddWorker_accepted {req : AddRequest} (h : accepted method body = some req) :
    (handleAddWorker c writeFails now method body).1.disc =
        c.disc.addManualWorker now req.host req.port req.fullName ∧
      (handleAddWorker c writeFails now method body).1.api.rpcWorkers =
        c.api.rpcWorkers ++ [endpoint req.host req.port] ∧
      (handleAddWorker c writeFails now method body).2 = ⟨200, [("status", "ok"), ("name", req.fullName)]⟩ := by
  cases body with
  | none => cases h
  | some r =>
    simp only [accepted, Option.ite_none_right_eq_some, Option.some.injEq] at h
    obtain ⟨⟨hm, hhost, hport⟩, rfl⟩ := h
    have hr : ¬(r.host = "" ∨ r.port = 0) := not_or.mpr ⟨hhost, hport⟩
    simp only [handleAddWorker, hm, ne_eq, not_true_eq_false, if_false, if_neg hr]
    exact ⟨rfl, rfl, trivial⟩

/-- **What a refused request does.** -/
theorem handleAddWorker_refused (h : accepted method body = none) :
    (handleAddWorker c writeFails now method body).1 = c ∧
      (handleAddWorker c writeFails now method body).2.status ≠ 200 := by
  unfold handleAddWorker
  by_cases hm : method = .post
  · cases body with
    | none => simp [hm]
    | some r =>
      have hr : r.host = "" ∨ r.port = 0 := by
        by_contra hr
        rw [not_or] at hr
        simp [accepted, hm, hr.1, hr.2] at h
      simp [hm, hr]
  · simp [hm]

end Outcome

/-! ## The name that is stored -/

/-- The name under which an addition leaves the entry of its endpoint. -/
def storedName (d : Discovery) (req : AddRequest) : String :=
  ((d.workers.lookup (endpoint req.host req.port)).map WorkerInfo.name).getD req.fullName

/-- **The entry after an addition**: it is connected and under its own host and port, with the stored name. -/
theorem lookup_addManualWorker {d : Discovery} (hd : OwnKeys pairKey WorkerInfo.pair d.workers) (now : Nat)
    (req : AddRequest) :
    ∃ w, (d.addManualWorker now req.host req.port req.fullName).workers.lookup (endpoint req.host req.port) = some w ∧
      w.host = req.host ∧ w.port = req.port ∧ w.status = "connected" ∧ w.name = storedName d req := by
  unfold Discovery.addManualWorker storedName
  cases hw : d.workers.lookup (endpoint req.host req.port) with
  | none => exact ⟨_, AList.lookup_insert _, rfl, rfl, rfl, rfl⟩
  | some w =>
    have hpair : (req.host, req.port) = w.pair := endpoint_injective (hd _ _ hw)
    exact ⟨_, AList.lookup_insert _, (congrArg Prod.fst hpair).symm, (congrArg Prod.snd hpair).symm, rfl, rfl⟩

/-- The handler reports what it stored: after a 200 the registry has a connected entry for the host and the port whose
name is the one in the response, and the endpoint is a worker; after any other status both stores are unchanged. -/
structure Reports (c : Controller) (body : Option AddRequest)
    (result : Controller × Response (List (String × String))) : Prop where
  ok : result.2.status = 200 → ∃ req, body = some req ∧
    (∃ w, result.1.disc.workers.lookup (endpoint req.host req.port) = some w ∧ w.host = req.host ∧
      w.port = req.port ∧ w.status = "connected" ∧ result.2.body.lookup "name" = some w.name) ∧
    endpoint req.host req.port ∈ result.1.api.rpcWorkers
  refused : result.2.status ≠ 200 →
    result.1.disc.workers = c.disc.workers ∧ result.1.api.rpcWorkers = c.api.rpcWorkers

theorem accepted_body {method : Method} {body : Option AddRequest} {req : AddRequest}
    (h : accepted method body = some req) : body = some req := by
  cases body with
  | none => cases h
  | some r =>
    simp only [accepted, Option.ite_none_right_eq_some] at h
    exact h.2

/-- The endpoint of the request has no entry, or one under the name of the request. -/
def NameAgrees (d : Discovery) (req : AddRequest) : Prop :=
  ∀ w, d.workers.lookup (endpoint req.host req.port) = some w → w.name = req.fullName

theorem storedName_eq_iff {d : Discovery} {req : AddRequest} : storedName d req = req.fullName ↔ NameAgrees d req := by
  unfold storedName NameAgrees
  cases d.workers.lookup (endpoint req.host req.port) <;> simp

section Reports

variable {c : Controller} {writeFails : Nat → Bool} {now : Nat} {method : Method} {body : Option AddRequest}

/-- A refused request reports that nothing is stored. -/
theorem reports_refused (hacc : accepted method body = none) :
    Reports c body (handleAddWorker c writeFails now method body) := by
  obtain ⟨hsame, hstatus⟩ := handleAddWorker_refused c writeFails now hacc
  refine ⟨fun h => absurd h hstatus, fun _ => ?_⟩
  rw [hsame]
  exact ⟨rfl, rfl⟩

/-- An accepted request reports its own name, and the entry has the stored one. -/
theorem reports_accepted_iff (hd : OwnKeys pairKey WorkerInfo.pair c.disc.workers) {req : AddRequest}
    (hacc : accepted method body = some req) :
    Reports c body (handleAddWorker c writeFails now method body) ↔ NameAgrees c.disc req := by
  obtain ⟨hdisc, hworkers, hresp⟩ := handleAddWorker_accepted c writeFails now hacc
  obtain ⟨w, hw, hhost, hport, hstatus, hname⟩ := lookup_addManualWorker hd now req
  have hbody : ([("status", "ok"), ("name", req.fullName)] : List (String × String)).lookup "name" =
    some req.fullName := rfl
  constructor
  · intro h
    obtain ⟨r, hr, ⟨w', hw', -, -, -, hresp'⟩, -⟩ := h.ok (by rw [hresp])
    obtain rfl : req = r := Option.some.inj ((accepted_body hacc).symm.trans hr)
    rw [hdisc, hw, Option.some.injEq] at hw'
    rw [hresp, hbody, Option.some.injEq, ← hw', hname] at hresp'
    exact storedName_eq_iff.mp hresp'.symm
  · intro h
    have hagree : w.name = req.fullName := hname.trans (storedName_eq_iff.mpr h)
    refine ⟨fun _ => ⟨req, accepted_body hacc, ⟨w, ?_, hhost, hport, hstatus, ?_⟩, ?_⟩, fun hne => ?_⟩
    · rw [hdisc]
      exact hw
    · rw [hresp, hbody, hagree]
    · rw [hworkers]
      exact List.mem_append_right _ List.mem_cons_self
    · rw [hresp] at hne
      exact absurd rfl hne

end Reports

/-- **When an addition reports what it stored**, from every registry that operations lead to, whatever the API server
and the manager are, whichever writes of the broadcasts fail, and for every request. -/
theorem reportsStored_iff (ops : List RegistryOp) (api : Server) (llm : Llmserver.Machine) (writeFails : Nat → Bool)
    (now : Nat) (method : Method) (body : Option AddRequest) :
    Reports ⟨api, registry ops, llm⟩ body (handleAddWorker ⟨api, registry ops, llm⟩ writeFails now method body) ↔
      ∀ req, accepted method body = some req → NameAgrees (registry ops) req := by
  have hown : OwnKeys pairKey WorkerInfo.pair (registry ops).workers := ownKeys_foldl ops Keyed.ownKeys_empty
  cases hacc : accepted method body with
  | none => exact iff_of_true (reports_refused hacc) fun req h => by cases h
  | some req =>
    refine (reports_accepted_iff hown hacc).trans ⟨fun h req' hreq' => ?_, fun h => h req rfl⟩
    rwa [← Option.some.inj hreq']

/-- Added twice, first under one name and then under another: the response has the second name, the entry the first. -/
theorem not_reports :
    ¬∀ (ops : List RegistryOp) (api : Server) (llm : Llmserver.Machine) (writeFails : Nat → Bool) (now : Nat)
      (method : Method) (body : Option AddRequest),
      Reports ⟨api, registry ops, llm⟩ body
        (handleAddWorker ⟨api, registry ops, llm⟩ writeFails now method body) := by
  intro h
  have hreports := h [.addManualWorker 0 "10.0.0.2" 50052 "old"] newServer (Llmserver.init 8081) (fun _ => false) 1
    .post (some ⟨"10.0.0.2", 50052, "new"⟩)
  obtain ⟨req, hreq, ⟨w, hw, -, -, -, hname⟩, -⟩ := hreports.ok (by decide)
  obtain rfl := Option.some.inj hreq
  have hold : some "old" = some w.name := Eq.trans (by decide) (congrArg (Option.map WorkerInfo.name) hw)
  rw [← hold] at hname
  exact absurd hname (by decide)

end LaManchaland.Api
