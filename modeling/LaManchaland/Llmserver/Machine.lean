import LaManchaland.Llmserver.Server
import LaManchaland.Lib.Runs

/-!
# The llama-server manager and its children

A `Machine` is the manager together with every child it ever launched, oldest first: the argument vector, whether its
context has been cancelled, whether it has exited, and whether its exit goroutine has run its locked update. `start`,
`startNonBlocking`, `stop` and the two sections of `Restart` are the functions of `server.go`, each as its effect under
`s.mu`; `Env` is what the outside answers during a call (the lookup of the binary, the health polls).

`step` is the state machine: the calls, the setters, the exit of any child at any time, and the delayed update of the
exit goroutine of a child that has exited. What a call can do is said once: `stopLocked` (`stopLocked_children`),
`start_cases`, `startNonBlocking_cases`.
-/

namespace LaManchaland.Llmserver

/-! ## The outside -/

/-- What `exec.LookPath`, `os.Stat` and the polls of `/health` answer during one call. -/
structure Env where
  lookPath : String → Option String
  stat : String → Bool
  health : Nat → Bool

/-- An environment with the binary in the path and a healthy server. -/
def envUp : Env where
  lookPath := fun p => if p = "llama-server" then some "/usr/bin/llama-server" else none
  stat := fun _ => false
  health := fun _ => true

/-- The names that `findLLamaServer` tries. -/
def paths : List String :=
  ["llama-server", "llama-server.exe", "./llama-server", "./llama-server.exe", "../bin/llama-server",
    "../bin/llama-server.exe", "../../bin/llama-server", "../../bin/llama-server.exe"]

def findLLamaServer (env : Env) : String :=
  match paths.findSome? env.lookPath with
  | some abs => abs
  | none => (paths.find? env.stat).getD ""

/-- Does one of the first `n` polls answer 200? -/
def pollHealth (env : Env) (n : Nat) : Bool := (List.range n).any env.health

/-! ## Children -/

structure Child where
  path : String
  args : List String
  cancelled : Bool
  exited : Bool
  /-- The exit goroutine has set `isRunning = false`. -/
  updated : Bool

/-- Alive, with an un-cancelled context. -/
def Child.live (c : Child) : Bool := !c.exited && !c.cancelled

def Child.cancel (c : Child) : Child := { c with cancelled := true }

@[simp] theorem Child.live_cancel (c : Child) : c.cancel.live = false := by simp [Child.live, Child.cancel]

theorem Child.live_eq_false {c : Child} : c.live = false ↔ c.exited = true ∨ c.cancelled = true := by
  cases h : c.exited <;> cases h' : c.cancelled <;> simp [Child.live, h, h']

/-! ## The locked functions -/

structure Machine where
  srv : Server
  children : List Child

/-- The manager as `New` makes it. -/
def init (listenPort : Int) : Machine := ⟨new listenPort, []⟩

/-- `s.cancel()`. -/
def cancelChild (i : Nat) (m : Machine) : Machine := { m with children := m.children.modify i Child.cancel }

def stopLocked (m : Machine) : Machine :=
  let m' :=
    match m.srv.cancel with
    | some i => { cancelChild i m with srv := { m.srv with cancel := none } }
    | none => m
  { m' with srv := { m'.srv with isRunning := false, cmd := none } }

/-- The launch of `Start` and `StartNonBlocking`: context, argument vector, command, flag, exit goroutine. -/
def launch (llamaPath : String) (m : Machine) : Machine where
  srv := { m.srv with cancel := some m.children.length, cmd := some m.children.length, isRunning := true }
  children := m.children ++ [⟨llamaPath, m.srv.buildArgs, false, false, false⟩]

/-- `Start`, with its error. -/
def start (env : Env) (m : Machine) : Machine × Option String :=
  if m.srv.modelPath = "" then (m, some "no model path set")
  else
    let m' := if m.srv.isRunning then stopLocked m else m
    let llamaPath := findLLamaServer env
    if llamaPath = "" then (m', some "llama-server binary not found")
    else
      (launch llamaPath m',
        if pollHealth env 30 then none else some "llama-server failed to start within timeout")

def stop (m : Machine) : Machine := stopLocked m

/-- The first section of `Restart`: the error when no path is set, else it goes on to `Start`. -/
def restartCheck (m : Machine) : Option String := if m.srv.modelPath = "" then some "no model loaded" else none

def startNonBlocking (env : Env) (m : Machine) : Machine :=
  if m.srv.modelPath = "" ∨ m.srv.isRunning then m
  else
    let llamaPath := findLLamaServer env
    if llamaPath = "" then m else launch llamaPath m

def set (f : Setting) (m : Machine) : Machine := { m with srv := f.apply m.srv }

/-- Child `i` exits: by itself, or after its context was cancelled. -/
def exit (i : Nat) (m : Machine) : Option Machine :=
  match m.children[i]? with
  | some c => if c.exited then none else some { m with children := m.children.set i { c with exited := true } }
  | none => none

/-- The exit goroutine of child `i` takes `s.mu` and clears the flag. -/
def update (i : Nat) (m : Machine) : Option Machine :=
  match m.children[i]? with
  | some c =>
    if c.exited ∧ !c.updated then
      some ⟨{ m.srv with isRunning := false }, m.children.set i { c with updated := true }⟩
    else none
  | none => none

/-! ## What the functions can do -/

section Spec

variable {m m' : Machine} {env : Env}

/-- No child is alive with an un-cancelled context. -/
def NoneLive (m : Machine) : Prop := ∀ c ∈ m.children, c.live = false

/-- `Start` gets as far as launching a child. -/
def CanLaunch (env : Env) (m : Machine) : Prop := m.srv.modelPath ≠ "" ∧ findLLamaServer env ≠ ""

instance (env : Env) (m : Machine) : Decidable (CanLaunch env m) := inferInstanceAs (Decidable (_ ∧ _))

/-- The children after `stopLocked`: the owner of `s.cancel` is cancelled. -/
theorem stopLocked_children (m : Machine) :
    (stopLocked m).children = (m.srv.cancel.elim m.children fun i => m.children.modify i Child.cancel) := by
  unfold stopLocked
  cases m.srv.cancel <;> rfl

@[simp] theorem stopLocked_cancel (m : Machine) : (stopLocked m).srv.cancel = none := by
  unfold stopLocked
  cases h : m.srv.cancel with
  | none => simpa using h
  | some i => rfl

@[simp] theorem stopLocked_length (m : Machine) : (stopLocked m).children.length = m.children.length := by
  rw [stopLocked_children]
  cases m.srv.cancel <;> simp

/-- `stopLocked` leaves the settings alone. -/
theorem stopLocked_srv (m : Machine) :
    (stopLocked m).srv = { m.srv with cancel := none, isRunning := false, cmd := none } := by
  unfold stopLocked
  cases h : m.srv.cancel with
  | none => simp [← h]
  | some i => rfl

@[simp] theorem stopLocked_buildArgs (m : Machine) : (stopLocked m).srv.buildArgs = m.srv.buildArgs := by
  rw [stopLocked_srv]; rfl

/-- The state from which `Start` launches: a running server is stopped first. -/
def ready (m : Machine) : Machine := if m.srv.isRunning then stopLocked m else m

@[simp] theorem ready_length (m : Machine) : (ready m).children.length = m.children.length := by
  unfold ready; split <;> simp

@[simp] theorem ready_buildArgs (m : Machine) : (ready m).srv.buildArgs = m.srv.buildArgs := by
  unfold ready; split <;> simp

@[simp] theorem ready_isRunning (m : Machine) : (ready m).srv.isRunning = false := by
  unfold ready
  cases h : m.srv.isRunning with
  | true => rfl
  | false => exact h

/-- **What `Start` can do**: nothing, or stop a running server, or launch from there. -/
theorem start_cases (env : Env) (m : Machine) :
    (m.srv.modelPath = "" ∧ start env m = (m, some "no model path set")) ∨
    (m.srv.modelPath ≠ "" ∧ findLLamaServer env = "" ∧
      start env m = (ready m, some "llama-server binary not found")) ∨
    (CanLaunch env m ∧ start env m = (launch (findLLamaServer env) (ready m),
      if pollHealth env 30 then none else some "llama-server failed to start within timeout")) := by
  unfold start
  by_cases hp : m.srv.modelPath = ""
  · exact .inl ⟨hp, if_pos hp⟩
  · rw [if_neg hp]
    by_cases hf : findLLamaServer env = ""
    · exact .inr (.inl ⟨hp, hf, if_pos hf⟩)
    · exact .inr (.inr ⟨⟨hp, hf⟩, if_neg hf⟩)

/-- `Start` launches when it can. -/
theorem start_launch (h : CanLaunch env m) : (start env m).1 = launch (findLLamaServer env) (ready m) := by
  rcases start_cases env m with ⟨hp, _⟩ | ⟨_, hf, _⟩ | ⟨_, he⟩
  · exact absurd hp h.1
  · exact absurd hf h.2
  · rw [he]

/-- What `StartNonBlocking` can do: nothing, or launch when the flag is clear. -/
theorem startNonBlocking_cases (env : Env) (m : Machine) :
    startNonBlocking env m = m ∨
    (CanLaunch env m ∧ m.srv.isRunning = false ∧ startNonBlocking env m = launch (findLLamaServer env) m) := by
  unfold startNonBlocking
  by_cases hp : m.srv.modelPath = "" ∨ m.srv.isRunning = true
  · exact .inl (if_pos hp)
  · rw [if_neg hp]
    rw [not_or, Bool.not_eq_true] at hp
    by_cases hf : findLLamaServer env = ""
    · exact .inl (if_pos hf)
    · exact .inr ⟨⟨hp.1, hf⟩, hp.2, if_neg hf⟩

theorem startNonBlocking_launch (h : CanLaunch env m) (hr : m.srv.isRunning = false) :
    startNonBlocking env m = launch (findLLamaServer env) m := by
  rcases startNonBlocking_cases env m with he | ⟨_, _, he⟩
  · simp [startNonBlocking, h.1, h.2, hr]
  · exact he

/-! The process functions leave the settings alone. -/

@[simp] theorem stopLocked_settings (m : Machine) : (stopLocked m).srv.settings = m.srv.settings := by
  rw [stopLocked_srv]; rfl

@[simp] theorem ready_settings (m : Machine) : (ready m).srv.settings = m.srv.settings := by
  unfold ready; split <;> simp

@[simp] theorem launch_settings (p : String) (m : Machine) : (launch p m).srv.settings = m.srv.settings := rfl

@[simp] theorem start_settings (env : Env) (m : Machine) : (start env m).1.srv.settings = m.srv.settings := by
  rcases start_cases env m with ⟨_, he⟩ | ⟨_, _, he⟩ | ⟨_, he⟩ <;> simp [he]

/-- The child that `Start` launches. -/
theorem start_getLast? (h : CanLaunch env m) :
    (start env m).1.children.getLast? = some ⟨findLLamaServer env, m.srv.buildArgs, false, false, false⟩ := by
  rw [start_launch h]
  simp [launch]

/-- What the exit of a child changes. -/
theorem exit_some {i : Nat} (h : exit i m = some m') : ∃ c, m.children[i]? = some c ∧ c.exited = false ∧
    m' = { m with children := m.children.set i { c with exited := true } } := by
  unfold exit at h
  split at h
  · rename_i c hc
    split at h
    · cases h
    · rename_i he
      exact ⟨c, hc, by simpa using he, by simpa using h.symm⟩
  · cases h

/-- What the update of an exit goroutine changes. -/
theorem update_some {i : Nat} (h : update i m = some m') : ∃ c, m.children[i]? = some c ∧ c.exited = true ∧
    c.updated = false ∧ m' = ⟨{ m.srv with isRunning := false }, m.children.set i { c with updated := true }⟩ := by
  unfold update at h
  split at h
  · rename_i c hc
    split at h
    · rename_i he
      exact ⟨c, hc, he.1, by simpa using he.2, by simpa using h.symm⟩
    · cases h
  · cases h

end Spec

/-! ## The state machine -/

/-- The manager with the calls of `Restart` that are between their two locked sections. -/
structure Sys where
  machine : Machine
  restarts : Nat

inductive Label where
  | set (f : Setting)
  | start (env : Env)
  | stop
  | startNonBlocking (env : Env)
  | restart
  | restartStart (env : Env)
  | exit (i : Nat)
  | update (i : Nat)

def step (s : Sys) : Label → Option Sys
  | .set f => some { s with machine := set f s.machine }
  | .start env => some { s with machine := (start env s.machine).1 }
  | .stop => some { s with machine := stop s.machine }
  | .startNonBlocking env => some { s with machine := startNonBlocking env s.machine }
  | .restart => some (if restartCheck s.machine = none then { s with restarts := s.restarts + 1 } else s)
  | .restartStart env =>
    match s.restarts with
    | 0 => none
    | n + 1 => some ⟨(start env s.machine).1, n⟩
  | .exit i => (exit i s.machine).map fun m => { s with machine := m }
  | .update i => (update i s.machine).map fun m => { s with machine := m }

/-- The initial state: `New`, and no call under way. -/
def sysInit (listenPort : Int) : Sys := ⟨init listenPort, 0⟩

/-- **What a step does to the machine.** -/
theorem step_cases {s t : Sys} {l : Label} (h : step s l = some t) :
    (∃ f, l = .set f ∧ t.machine = set f s.machine) ∨
    (∃ env, (l = .start env ∨ l = .restartStart env) ∧ t.machine = (start env s.machine).1) ∨
    (l = .stop ∧ t.machine = stop s.machine) ∨
    (∃ env, l = .startNonBlocking env ∧ t.machine = startNonBlocking env s.machine) ∨
    (l = .restart ∧ t.machine = s.machine) ∨
    (∃ i, l = .exit i ∧ exit i s.machine = some t.machine) ∨
    (∃ i, l = .update i ∧ update i s.machine = some t.machine) := by
  cases l with
  | set f => cases h; exact .inl ⟨f, rfl, rfl⟩
  | start env => cases h; exact .inr (.inl ⟨env, .inl rfl, rfl⟩)
  | stop => cases h; exact .inr (.inr (.inl ⟨rfl, rfl⟩))
  | startNonBlocking env => cases h; exact .inr (.inr (.inr (.inl ⟨env, rfl, rfl⟩)))
  | restart =>
    refine .inr (.inr (.inr (.inr (.inl ⟨rfl, ?_⟩))))
    simp only [step, Option.some.injEq] at h
    rw [← h]
    split <;> rfl
  | restartStart env =>
    refine .inr (.inl ⟨env, .inr rfl, ?_⟩)
    simp only [step] at h
    split at h
    · cases h
    · cases h; rfl
  | exit i =>
    obtain ⟨m, hm, rfl⟩ := Option.map_eq_some_iff.mp h
    exact .inr (.inr (.inr (.inr (.inr (.inl ⟨i, rfl, hm⟩)))))
  | update i =>
    obtain ⟨m, hm, rfl⟩ := Option.map_eq_some_iff.mp h
    exact .inr (.inr (.inr (.inr (.inr (.inr ⟨i, rfl, hm⟩)))))

end LaManchaland.Llmserver
