import LaManchaland.Api.Server
import LaManchaland.Lib.Runs
import LaManchaland.Lib.Threads

/-!
# The WebSocket clients

`handleWebSocket` registers a client, starts a goroutine that waits for the end of the request's context and then
removes and closes the client, and returns; `broadcastUpdate` removes and closes the clients whose write fails. `Hub`
is the controller with the connections it has had, in order, each with its number in `clients`. `step` lets
connections come, their contexts end, their cleanups run and broadcasts happen in any order; the context of a request
ends when its handler has returned or the client has closed its connection.

`served_iff`: along a run, every client that has not closed and has had no failed write stays registered and open
exactly when the cleanup goroutine runs for no such client. As the handler returns at once, it soon may
(`client_dropped`).
-/

namespace LaManchaland.Api.Clients

open Runs

/-- A connection: what its handler, its context, its cleanup goroutine and its client have done. -/
structure Conn where
  returned : Bool
  ctxDone : Bool
  cleaned : Bool
  clientClosed : Bool
  writeFailed : Bool
  closed : Bool

/-- A connection that has been registered; its handler still runs. -/
def Conn.fresh : Conn := ⟨false, false, false, false, false, false⟩

structure Hub where
  ctl : Controller
  conns : List Conn

inductive Label where
  | upgrade
  | returns (i : Nat)
  | ctxDone (i : Nat)
  | cleanup (i : Nat)
  | clientCloses (i : Nat)
  | broadcast (writeFails : Nat → Bool)

/-- `s.clients[conn] = true`. -/
def register (conn : Nat) (c : Controller) : Controller :=
  { c with api := { c.api with clients := c.api.clients ++ [conn] } }

/-- `delete(s.clients, conn)`. -/
def unregister (conn : Nat) (c : Controller) : Controller :=
  { c with api := { c.api with clients := c.api.clients.filter (· ≠ conn) } }

/-- Connection `i` changes by `f`, if `enabled`. -/
def change (i : Nat) (enabled : Conn → Bool) (f : Conn → Conn) (h : Hub) : Option Hub :=
  match h.conns[i]? with
  | some conn => if enabled conn then some { h with conns := h.conns.set i (f conn) } else none
  | none => none

/-- The connections after a broadcast: a registered client whose write fails is closed. -/
def afterBroadcast (clients : List Nat) (writeFails : Nat → Bool) (conns : List Conn) : List Conn :=
  conns.mapIdx fun i conn =>
    if i ∈ clients ∧ writeFails i then { conn with writeFailed := true, closed := true } else conn

def step (h : Hub) : Label → Option Hub
  | .upgrade => some ⟨register h.conns.length h.ctl, h.conns ++ [Conn.fresh]⟩
  | .returns i => change i (fun conn => !conn.returned) (fun conn => { conn with returned := true }) h
  | .ctxDone i =>
    change i (fun conn => (conn.returned || conn.clientClosed) && !conn.ctxDone)
      (fun conn => { conn with ctxDone := true }) h
  | .cleanup i =>
    change i (fun conn => conn.ctxDone && !conn.cleaned) (fun conn => { conn with cleaned := true, closed := true })
      { h with ctl := unregister i h.ctl }
  | .clientCloses i => change i (fun conn => !conn.clientClosed) (fun conn => { conn with clientClosed := true }) h
  | .broadcast writeFails =>
    some ⟨broadcastUpdate h.ctl writeFails, afterBroadcast h.ctl.api.clients writeFails h.conns⟩

/-- No client has connected yet. -/
def init (c : Controller) : Hub := ⟨c, []⟩

/-! ## The property and the condition -/

/-- Every client that has not closed and has had no failed write is registered, with its connection open. -/
def Served (h : Hub) : Prop :=
  ∀ i conn, h.conns[i]? = some conn → conn.clientClosed = false → conn.writeFailed = false →
    i ∈ h.ctl.api.clients ∧ conn.closed = false

/-- The cleanup goroutine runs for clients that have closed or had a failed write. -/
def CleansUp (h : Hub) : Label → Prop
  | .cleanup i => ∀ conn, h.conns[i]? = some conn → conn.clientClosed = true ∨ conn.writeFailed = true
  | _ => True

/-! ## The steps -/

section Steps

variable {h t : Hub} {i : Nat} {enabled : Conn → Bool} {f : Conn → Conn}

theorem change_some (hc : change i enabled f h = some t) :
    ∃ conn, h.conns[i]? = some conn ∧ enabled conn = true ∧ t = { h with conns := h.conns.set i (f conn) } := by
  unfold change at hc
  split at hc
  · rename_i conn hi
    split at hc
    · rename_i he
      exact ⟨conn, hi, he, by simpa using hc.symm⟩
    · cases hc
  · cases hc

/-- A change of a connection that opens nothing and forgets no closing keeps every client served. -/
theorem served_change (hs : Served h) (hc : change i enabled f h = some t)
    (hclient : ∀ conn, (f conn).clientClosed = false → conn.clientClosed = false)
    (hwrite : ∀ conn, (f conn).writeFailed = conn.writeFailed) (hclosed : ∀ conn, (f conn).closed = conn.closed) :
    Served t := by
  obtain ⟨conn, hi, _, rfl⟩ := change_some hc
  intro j conn' hj hcl hwr
  rw [List.getElem?_set] at hj
  split at hj
  · rename_i hij
    subst hij
    split at hj
    · cases hj
      rw [hwrite] at hwr
      rw [hclosed]
      exact hs i conn hi (hclient conn hcl) hwr
    · cases hj
  · exact hs j conn' hj hcl hwr

/-- A broadcast keeps every client served. -/
theorem served_broadcast (hs : Served h) (writeFails : Nat → Bool) :
    Served ⟨broadcastUpdate h.ctl writeFails, afterBroadcast h.ctl.api.clients writeFails h.conns⟩ := by
  intro j conn' hj hcl hwr
  simp only [afterBroadcast, List.getElem?_mapIdx, Option.map_eq_some_iff] at hj
  obtain ⟨conn, hj, hconn⟩ := hj
  split at hconn
  · rw [← hconn] at hwr
    cases hwr
  · rename_i hno
    subst hconn
    obtain ⟨hmem, hopen⟩ := hs j conn hj hcl hwr
    refine ⟨List.mem_filter.mpr ⟨hmem, ?_⟩, hopen⟩
    cases hw : writeFails j with
    | false => rfl
    | true => exact absurd ⟨hmem, hw⟩ hno

/-- A new client is registered. -/
theorem served_upgrade (hs : Served h) : Served ⟨register h.conns.length h.ctl, h.conns ++ [Conn.fresh]⟩ := by
  intro j conn hj hcl hwr
  rcases Threads.getElem?_snoc hj with hj | ⟨rfl, rfl⟩
  · obtain ⟨hmem, hopen⟩ := hs j conn hj hcl hwr
    exact ⟨List.mem_append_left _ hmem, hopen⟩
  · exact ⟨List.mem_append_right _ (List.mem_singleton.mpr rfl), rfl⟩

/-- A cleanup keeps every client served exactly when its own client has closed or had a failed write. -/
theorem served_cleanup (hs : Served h) {conn : Conn} (hi : h.conns[i]? = some conn) :
    Served ⟨unregister i h.ctl, h.conns.set i { conn with cleaned := true, closed := true }⟩ ↔
      conn.clientClosed = true ∨ conn.writeFailed = true := by
  have hlt := (List.getElem?_eq_some_iff.mp hi).1
  constructor
  · intro ht
    by_contra hno
    rw [not_or, Bool.not_eq_true, Bool.not_eq_true] at hno
    have hopen : true = false := (ht i _ (List.getElem?_set_self hlt) hno.1 hno.2).2
    cases hopen
  · intro hgone j conn' hj hcl hwr
    rw [List.getElem?_set] at hj
    split at hj
    · rename_i hij
      cases hj
      rcases hgone with hgone | hgone
      · exact absurd (hgone.symm.trans hcl) (by decide)
      · exact absurd (hgone.symm.trans hwr) (by decide)
    · rename_i hij
      obtain ⟨hmem, hopen⟩ := hs j conn' hj hcl hwr
      exact ⟨List.mem_filter.mpr ⟨hmem, decide_eq_true (Ne.symm hij)⟩, hopen⟩

/-- A step keeps every client served exactly when it cleans up a client that is gone. -/
theorem served_step {l : Label} (hs : Served h) (hstep : step h l = some t) : Served t ↔ CleansUp h l := by
  cases l with
  | upgrade =>
    cases hstep
    exact iff_of_true (served_upgrade hs) trivial
  | returns i => exact iff_of_true (served_change hs hstep (fun _ hc => hc) (fun _ => rfl) fun _ => rfl) trivial
  | ctxDone i => exact iff_of_true (served_change hs hstep (fun _ hc => hc) (fun _ => rfl) fun _ => rfl) trivial
  | cleanup i =>
    obtain ⟨conn, hi, _, rfl⟩ := change_some hstep
    have hi : h.conns[i]? = some conn := hi
    rw [served_cleanup hs hi]
    refine ⟨fun hgone conn' hi' => ?_, fun hc => hc conn hi⟩
    rw [hi] at hi'
    cases hi'
    exact hgone
  | clientCloses i =>
    exact iff_of_true (served_change hs hstep (fun _ hc => by cases hc) (fun _ => rfl) fun _ => rfl) trivial
  | broadcast writeFails =>
    cases hstep
    exact iff_of_true (served_broadcast hs writeFails) trivial

end Steps

/-! ## Runs -/

/-- **The exact condition for every open client to be served**, along every run. -/
theorem served_iff (c : Controller) (ls : List Label) :
    Always step Served (init c) ls ↔ Meets step CleansUp (init c) ls :=
  always_iff_meets (I := fun _ => True) (fun _ _ _ _ _ => trivial) (fun _ _ _ _ => served_step) trivial
    (fun i conn hi => by cases hi) ls

/-- A client connects, its handler returns, and its own context closes it. -/
theorem client_dropped : ¬∀ (c : Controller) (ls : List Label), Always step Served (init c) ls := by
  intro h
  have hlast := (h (emptyController (Llmserver.init 8081)) [.upgrade, .returns 0, .ctxDone 0, .cleanup 0]).last rfl
  obtain ⟨_, hopen⟩ := hlast 0 _ rfl rfl rfl
  cases hopen

end LaManchaland.Api.Clients
