import Malamute.L3Server.Actions

/-!
# Executing the client state machine (`s_client_execute`)

`loop` is the `while (self->next_event > 0)` loop; a nested execution, started
by an action through `engine_send_event`, is the same loop with less fuel.

* `loop_mono`: more fuel changes nothing but running out.
* `Executes s c e r`: executing event `e` on client `c` ends with `r`, which is
  a state or a fault, with enough fuel; `Executes.unique`: at most one such `r`.
-/
namespace Malamute.L3
open Malamute.Core Malamute.L1 Malamute.L2

namespace Server

/-- The actions in order; each is skipped while an exception is raised.
mirrors for instance src/src/mlm_server_engine.inc:562-585 -/
def runActions (act : Action → Server → Except Fault Server) (c : Cid) :
    List Action → Server → Except Fault Server
  | [], s => .ok s
  | a :: as, s => do
    let k ← s.client c
    let s ← if k.exception.isNone then act a s else .ok s
    runActions act c as s

/-- The end of one round: the next state, then an exception event if one was
raised. mirrors src/src/mlm_server_engine.inc:584-585 and 1268-1274 -/
def afterActions (k : Client) (next : Option State) : Client :=
  if k.exception.isNone then { k with state := next.getD k.state }
  else { k with nextEvent := k.exception }

/-- mirrors src/src/mlm_server_engine.inc:550-1285 -/
def loop (rex : Str → Str → Bool) : Nat → Cid → Server → Except Fault Server
  | 0, _, _ => .error .fuel
  | n + 1, c, s => do
    let k ← s.client c
    match k.nextEvent with
    | none => .ok s
    | some e =>
      let s := s.setClient c { k with nextEvent := none, exception := none }
      match transition k.state e with
      | none => .ok s
      | some (actions, next) => do
        let ex : Exec := fun c e s => do
          let s ← s.modifyClient c fun k => { k with nextEvent := some e }
          loop rex n c s
        let s ← runActions (runAction rex ex n c) c actions (s.log (.event c e))
        let k ← s.client c
        let k := afterActions k next
        let s := s.setClient c k
        if k.nextEvent = some .terminate then s.deleteClient k.hashkey
        else loop rex n c s

/-- mirrors src/src/mlm_server_engine.inc:541-549 -/
def execute (rex : Str → Str → Bool) (n : Nat) (c : Cid) (e : Event) (s : Server) :
    Except Fault Server := do
  let s ← s.modifyClient c fun k => { k with nextEvent := some e }
  loop rex n c s

/-! ## Fuel -/

section Mono
variable {rex : Str → Str → Bool} {ex ex' : Exec}

/-- `ex'` has at least the fuel of `ex`. -/
def LeExec (ex ex' : Exec) : Prop := ∀ c e s, Le Fault.fuel (ex c e s) (ex' c e s)

theorem sendEvent_mono (h : LeExec ex ex') (s : Server) (c : Cid) (e : Event) :
    Le Fault.fuel (s.sendEvent ex c e) (s.sendEvent ex' c e) := by
  refine Le.bind (.refl _) fun k => ?_
  split
  · exact .refl _
  · exact h c e s

theorem serviceDispatchMessage_mono (h : LeExec ex ex') (s : Server) (name : Str) (m : Msg) :
    Le Fault.fuel (s.serviceDispatchMessage rex ex name m) (s.serviceDispatchMessage rex ex' name m) := by
  unfold serviceDispatchMessage
  dsimp only
  split
  · exact .refl _
  · refine Le.bind (.refl _) fun k => ?_
    split
    · exact .refl _
    · exact Le.bind (sendEvent_mono h _ _ _) fun _ => .refl _

theorem serviceDispatchLoop_mono (h : LeExec ex ex') (name : Str) (n : Nat) (m : Option Msg)
    (s : Server) :
    Le Fault.fuel (serviceDispatchLoop rex ex name n m s)
      (serviceDispatchLoop rex ex' name (n + 1) m s) := by
  induction n generalizing m s with
  | zero =>
    cases m with
    | none => exact .refl _
    | some m => exact .bot _
  | succ n ih =>
    cases m with
    | none => exact .refl _
    | some m =>
      refine Le.bind (serviceDispatchMessage_mono h _ _ _) fun ⟨s, dispatched⟩ => ?_
      dsimp only
      split
      · exact Le.bind (.refl _) fun s => ih _ _
      · exact ih _ _

theorem serviceDispatch_mono (h : LeExec ex ex') (n : Nat) (s : Server) (name : Str) :
    Le Fault.fuel (s.serviceDispatch rex ex n name) (s.serviceDispatch rex ex' (n + 1) name) := by
  unfold serviceDispatch
  dsimp only
  split
  · exact .refl _
  · exact serviceDispatchLoop_mono h _ _ _ _

theorem runAction_mono (h : LeExec ex ex') (n : Nat) (c : Cid) (a : Action) (s : Server) :
    Le Fault.fuel (runAction rex ex n c a s) (runAction rex ex' (n + 1) c a s) := by
  cases a with
  | registerNewClient =>
    refine Le.bind (.refl _) fun s => ?_
    split
    · exact .refl _
    · dsimp only
      split
      · exact Le.bind (sendEvent_mono h _ _ _) fun _ => .refl _
      · exact .refl _
  | writeMessageToMailbox =>
    refine Le.bind (.refl _) fun k => ?_
    split
    · exact .refl _
    · dsimp only
      split
      · refine Le.bind (.refl _) fun t => ?_
        split
        · exact .refl _
        · exact sendEvent_mono h _ _ _
      · exact .refl _
  | writeMessageToService =>
    refine Le.bind (.refl _) fun k => ?_
    split
    · exact .refl _
    · exact Le.bind (serviceDispatchMessage_mono h _ _ _) fun _ => .refl _
  | dispatchTheService => exact serviceDispatch_mono h n _ _
  | _ => exact .refl _

theorem runActions_mono {act act' : Action → Server → Except Fault Server} {c : Cid}
    (h : ∀ a s, Le Fault.fuel (act a s) (act' a s)) (as : List Action) (s : Server) :
    Le Fault.fuel (runActions act c as s) (runActions act' c as s) := by
  induction as generalizing s with
  | nil => exact .refl _
  | cons a as ih =>
    refine Le.bind (.refl _) fun k => ?_
    dsimp only
    split
    · exact Le.bind (h a s) fun s => ih s
    · exact ih s

end Mono

/-- More fuel can only help. -/
theorem loop_mono (rex : Str → Str → Bool) (n : Nat) (c : Cid) (s : Server) :
    Le Fault.fuel (loop rex n c s) (loop rex (n + 1) c s) := by
  induction n generalizing c s with
  | zero => exact .bot _
  | succ n ih =>
    rw [loop, loop]
    refine Le.bind (.refl _) fun k => ?_
    split
    · exact .refl _
    · dsimp only
      split
      · exact .refl _
      · refine Le.bind (runActions_mono (fun a s => runAction_mono ?_ n c a s) _ _) fun s => ?_
        · exact fun c e s => Le.bind (.refl _) fun s => ih c s
        · refine Le.bind (.refl _) fun k => ?_
          split
          · exact .refl _
          · exact ih c _

theorem execute_mono (rex : Str → Str → Bool) (n : Nat) (c : Cid) (e : Event) (s : Server) :
    Le Fault.fuel (execute rex n c e s) (execute rex (n + 1) c e s) :=
  Le.bind (.refl _) fun s => loop_mono rex n c s

end Server

/-- With enough fuel, executing event `e` on client `c` ends with `r`. -/
def Executes (rex : Str → Str → Bool) (s : Server) (c : Cid) (e : Event)
    (r : Except Fault Server) : Prop :=
  ∃ n, Server.execute rex n c e s = r ∧ r ≠ .error .fuel

theorem Executes.unique {rex : Str → Str → Bool} {s : Server} {c : Cid} {e : Event}
    {r r' : Except Fault Server} (h : Executes rex s c e r) (h' : Executes rex s c e r') :
    r = r' := by
  obtain ⟨n, hn, hr⟩ := h
  obtain ⟨n', hn', hr'⟩ := h'
  exact Le.agree (f := fun n => Server.execute rex n c e s)
    (fun n => Server.execute_mono rex n c e s) hn hr hn' hr'

end Malamute.L3
