import Malamute.L3Server.Trace

/-!
# Malformed input

`mlm_proto_recv` finds a malformed frame by an explicit check (`detected`: it
returns -2) or by running off its end (it returns 0). Only the first kind is
discarded; after the second the event runs, on the fields that were read and on
what the shared message object still holds of the others.

Whatever the return code, the frames behind the first are left on the socket if
they were not read as content, and are taken for the next message: a routing
id, a body, and so on.

* `discards_iff`: the server does nothing about the frames of one message iff
  every body it finds among them is `detected` and no lone routing id is left.
* `truncated_send_leaks`: a MAILBOX SEND that is cut off behind its address
  delivers the content that was last sent to another client.
-/
namespace Malamute.L3
open Malamute.Core Malamute.L1 Malamute.L2 Server

/-- All input has been read and nothing has come of it but new contexts in the
start state: no event has run, nothing has been sent and no message built
(`trace`, `messageId`), and what there was is unchanged. -/
structure Ignored (s s' : Server) : Prop where
  trace : s'.trace = s.trace
  contexts : ∀ c k, s.ctx c = some k → s'.ctx c = some k
  newcomers : ∀ c k, s'.ctx c = some k → s.ctx c = some k ∨ k.state = .start
  addresses : s'.addresses = s.addresses
  zombies : s'.zombies = s.zombies
  streams : s'.streams = s.streams
  services : s'.services = s.services
  serviceCfg : s'.serviceCfg = s.serviceCfg
  mailbox : s'.mailbox = s.mailbox
  mailboxPipe : s'.mailboxPipe = s.mailboxPipe
  refs : s'.refs = s.refs
  messageId : s'.messageId = s.messageId
  offerId : s'.offerId = s.offerId
  running : s'.running = true

/-- The server reads the frames that the client with routing id `rid` sent, and
all of them are ignored. -/
def Discards (rex : Str → Str → Bool) (s : Server) (rid : Key) (frames : List Frame) : Prop :=
  ∃ n s', (broker rex).Run s (.router rid frames :: List.replicate n .more) s' ∧ s'.rest = [] ∧
    Ignored s s'

/-- The bodies among the frames behind a routing id: the first frame, then
every second one. All are found malformed by a check, and none is missing. -/
def AllDetected : List Frame → Bool
  | [] => false
  | [body] => detected body
  | body :: _ :: frames => detected body && AllDetected frames

section
variable {rex : Str → Str → Bool} {s s' : Server}

theorem Ignored.trans {s₁ s₂ s₃ : Server} (h : Ignored s₁ s₂) (h' : Ignored s₂ s₃) :
    Ignored s₁ s₃ where
  trace := h'.trace.trans h.trace
  contexts c k hk := h'.contexts c k (h.contexts c k hk)
  newcomers c k hk := by
    rcases h'.newcomers c k hk with h₂ | hs
    · exact h.newcomers c k h₂
    · exact .inr hs
  addresses := h'.addresses.trans h.addresses
  zombies := h'.zombies.trans h.zombies
  streams := h'.streams.trans h.streams
  services := h'.services.trans h.services
  serviceCfg := h'.serviceCfg.trans h.serviceCfg
  mailbox := h'.mailbox.trans h.mailbox
  mailboxPipe := h'.mailboxPipe.trans h.mailboxPipe
  refs := h'.refs.trans h.refs
  messageId := h'.messageId.trans h.messageId
  offerId := h'.offerId.trans h.offerId
  running := h'.running

theorem ignored_clientRequire (hr : Reg s) (hrun : s.running = true) (p : Proto)
    (rest : List Frame) (key : Key) : Ignored s ((s.received p rest).clientRequire key).2 := by
  rcases hreq : (s.received p rest).clientRequire key with ⟨c, s₁⟩
  rcases clientRequire_cases hreq with ⟨-, rfl⟩ | ⟨-, rfl, rfl⟩
  · exact ⟨rfl, fun _ _ h => h, fun _ _ h => .inl h, rfl, rfl, rfl, rfl, rfl, rfl, rfl, rfl, rfl,
      rfl, hrun⟩
  · refine ⟨rfl, ?_, ?_, rfl, rfl, rfl, rfl, rfl, rfl, rfl, rfl, rfl, rfl, hrun⟩
    · intro c k hk
      have hne : c ≠ s.clientId := Nat.ne_of_lt (hr.fresh c k hk)
      rw [clientNew_eq]
      show Function.update s.ctx s.clientId _ c = some k
      rw [Function.update_of_ne hne]
      exact hk
    · intro c k hk
      rw [clientNew_eq] at hk
      by_cases hc : c = s.clientId
      · right
        have hk : Function.update s.ctx s.clientId (some (Client.fresh key)) c = some k := hk
        rw [hc, Function.update_self] at hk
        cases hk
        rfl
      · left
        have hk : Function.update s.ctx s.clientId (some (Client.fresh key)) c = some k := hk
        rwa [Function.update_of_ne hc] at hk

/-- What reading one message off the socket comes to. -/
theorem received_cases {rid : Key} {body : Frame} {more : List Frame}
    (h : Received rex s (rid :: body :: more) s') :
    (detected body = true ∧ ∃ p key, s' = ((s.received p more).clientRequire key).2) ∨
      (detected body = false ∧ ∃ o, s.trace ++ [o] <+: s'.trace) := by
  have hrecv : recv s.message (rid :: body :: more) =
      recvBody { s.message with routingId := some rid } body more := rfl
  generalize { s.message with routingId := some rid } = q at hrecv
  cases h with
  | interrupted h =>
    rw [hrecv] at h
    exact absurd (by rw [h]) (recvBody_rc q body more)
  | @ignored p rest h =>
    rw [hrecv] at h
    have hrc : (recvBody q body more).2.1 = .malformed := by rw [h]
    have hrest : rest = more := recvBody_malformed_rest h
    subst hrest
    exact .inl ⟨(recvBody_malformed_iff q body rest).1 hrc, p, _, rfl⟩
  | @handled p rest c s₁ _ h hreq hh =>
    rw [hrecv] at h
    refine .inr ⟨?_, .received c ((s₁.ctx c).bind (·.address)) (body :: more) p.wire, ?_⟩
    · cases hd : detected body with
      | false => rfl
      | true =>
        have hrc := (recvBody_malformed_iff q body more).2 hd
        rw [h] at hrc
        cases hrc
    · refine List.IsPrefix.trans ?_ (heard_trace hreq hh)
      exact ⟨[.event c (protocolEvent p)], List.append_assoc ..⟩

/-- A lone routing id ends the reactor. -/
theorem received_lone {rid : Key} (h : Received rex s [rid] s') : s'.running = false := by
  cases h with
  | interrupted _ => rfl
  | ignored h => cases h
  | handled h _ _ => cases h

theorem not_running {l : Label} (hrun : s.running = false) : ¬ (broker rex).step s l s' := by
  rintro ⟨n, h, -⟩
  unfold Server.step at h
  rw [if_pos hrun] at h
  cases h

theorem rest_clientRequire (s : Server) (key : Key) : (s.clientRequire key).2.rest = s.rest := by
  rcases hreq : s.clientRequire key with ⟨c, s₁⟩
  rcases clientRequire_cases hreq with ⟨-, rfl⟩ | ⟨-, -, rfl⟩ <;> rfl

/-- From a step that read the frames `rid :: frames` to the end of the message:
if no event has run and the reactor goes on, every body was `detected`. -/
theorem allDetected_of_run {n : Nat} {rid : Key} {frames : List Frame} {s₁ : Server}
    (hreg : Regular s₁) (hrec : Received rex s (rid :: frames) s₁)
    (hrun : (broker rex).Run s₁ (List.replicate n .more) s') (hne : frames ≠ [])
    (htr : s'.trace = s.trace) (hrest : s'.rest = []) (hgo : s'.running = true) :
    AllDetected frames = true := by
  induction n generalizing s rid frames s₁ with
  | zero =>
    cases hrun.nil_eq
    cases frames with
    | nil => exact absurd rfl hne
    | cons body more =>
      rcases received_cases hrec with ⟨hd, p, key, rfl⟩ | ⟨-, o, hpre⟩
      · rw [rest_clientRequire] at hrest
        have hmore : more = [] := hrest
        rw [hmore]
        exact hd
      · rw [htr] at hpre
        exact absurd hpre.length_le (by simp)
  | succ n ih =>
    obtain ⟨s₂, hstep, hrun₂⟩ := LTS.Run.cons_iff.1 hrun
    have hmoved := moved_of_step hreg.reg hreg.wired hstep
    have hreg₂ := regular_moved hreg hmoved
    have htr₂ := (moved_trace hmoved).trans (run_trace hreg₂ hrun₂)
    obtain ⟨hrest₁, hrec₂⟩ : s₁.rest ≠ [] ∧ Received rex s₁ s₁.rest s₂ := by
      cases hmoved with
      | more h h' => exact ⟨h, h'⟩
    cases frames with
    | nil => exact absurd rfl hne
    | cons body more =>
      rcases received_cases hrec with ⟨hd, p, key, rfl⟩ | ⟨-, o, hpre⟩
      · have hmore : ((s.received p more).clientRequire key).2.rest = more :=
          rest_clientRequire _ key
        have htr₁ : ((s.received p more).clientRequire key).2.trace = s.trace :=
          clientRequire_trace (s := s.received p more) rfl
        rw [hmore] at hrest₁ hrec₂
        rcases more with _ | ⟨rid₂, _ | ⟨body₂, more₂⟩⟩
        · exact absurd rfl hrest₁
        · -- a lone routing id: the reactor has ended
          have hstop := received_lone hrec₂
          cases n with
          | zero =>
            cases hrun₂.nil_eq
            rw [hstop] at hgo
            cases hgo
          | succ n =>
            obtain ⟨s₃, hstep₃, -⟩ := LTS.Run.cons_iff.1 hrun₂
            exact absurd hstep₃ (not_running hstop)
        · have hall := ih hreg₂ hrec₂ hrun₂ (by simp) (htr.trans htr₁.symm)
          simp only [AllDetected, hd, hall, Bool.and_self]
      · rw [htr] at htr₂
        exact absurd (hpre.trans htr₂).length_le (by simp)

theorem allDetected_of_discards {rid : Key} {frames : List Frame} (hreg : Regular s)
    (h : Discards rex s rid frames) : AllDetected frames = true := by
  obtain ⟨n, s', hrun, hrest, hign⟩ := h
  obtain ⟨s₁, hstep, hrun⟩ := LTS.Run.cons_iff.1 hrun
  have hmoved := moved_of_step hreg.reg hreg.wired hstep
  have hreg₁ := regular_moved hreg hmoved
  cases hmoved with
  | router _ hne hrec =>
    exact allDetected_of_run hreg₁ hrec hrun hne hign.trace hrest hign.running

/-- Reading a `detected` body is a step, with any fuel. -/
theorem handleProtocol_detected (rex : Str → Str → Bool) (s : Server) (rid : Key) {body : Frame}
    (more : List Frame) (hd : detected body = true) : ∃ p key, s.handleProtocol rex 0 (rid :: body :: more) =
      .ok ((s.received p more).clientRequire key).2 := by
  have hrc := (recvBody_malformed_iff { s.message with routingId := some rid } body more).2 hd
  rcases hrecv : recvBody { s.message with routingId := some rid } body more with ⟨p, rc, rest⟩
  rw [hrecv] at hrc
  cases hrc
  cases recvBody_malformed_rest hrecv
  refine ⟨p, p.routingId.getD [], ?_⟩
  unfold handleProtocol
  rw [show recv s.message (rid :: body :: more) = _ from hrecv]
  rfl

/-- The frames behind the first body are read and ignored too. -/
theorem run_of_allDetected (rex : Str → Str → Bool) (frames : List Frame) (hreg : Regular s)
    (hrun : s.running = true) (hrest : s.rest = frames.tail) (hall : AllDetected frames = true) :
    ∃ n s', (broker rex).Run s (List.replicate n .more) s' ∧ s'.rest = [] ∧ Ignored s s' := by
  induction frames using AllDetected.induct generalizing s with
  | case1 => cases hall
  | case2 body =>
    refine ⟨0, s, .nil s, hrest, ?_⟩
    exact ⟨rfl, fun _ _ h => h, fun _ _ h => .inl h, rfl, rfl, rfl, rfl, rfl, rfl, rfl, rfl, rfl,
      rfl, hrun⟩
  | case3 body rid frames ih =>
    rw [AllDetected, Bool.and_eq_true] at hall
    obtain ⟨body₂, more, rfl⟩ : ∃ body₂ more, frames = body₂ :: more := by
      cases frames with
      | nil => cases hall.2
      | cons body₂ more => exact ⟨body₂, more, rfl⟩
    have hd : detected body₂ = true := by
      cases more with
      | nil => exact hall.2
      | cons x more =>
        have h2 := hall.2
        rw [AllDetected, Bool.and_eq_true] at h2
        exact h2.1
    have hparts : s.rest = rid :: body₂ :: more := hrest
    obtain ⟨p, key, hread⟩ := handleProtocol_detected rex s rid more hd
    have hstep : (broker rex).step s .more ((s.received p more).clientRequire key).2 := by
      refine ⟨0, ?_, by simp⟩
      unfold Server.step
      rw [if_neg (by rw [hrun]; simp)]
      dsimp only
      rw [hparts, if_pos (by simp), hread]
    have hign := ignored_clientRequire hreg.reg hrun p more key
    have hreg₁ := (regular_inductive rex).step _ _ _ hreg hstep
    obtain ⟨n, s', hrun', hrest', hign'⟩ := ih hreg₁ hign.running (by
      rw [rest_clientRequire]
      rfl) hall.2
    exact ⟨n + 1, s', LTS.Run.cons_iff.2 ⟨_, hstep, hrun'⟩, hrest', hign.trans hign'⟩

theorem discards_of_allDetected {rid : Key} {frames : List Frame} (hreg : Regular s)
    (hrun : s.running = true) (hrest : s.rest = []) (hall : AllDetected frames = true) :
    Discards rex s rid frames := by
  obtain ⟨body, more, rfl⟩ : ∃ body more, frames = body :: more := by
    cases frames with
    | nil => cases hall
    | cons body more => exact ⟨body, more, rfl⟩
  have hd : detected body = true := by
    cases more with
    | nil => exact hall
    | cons x more =>
      rw [AllDetected, Bool.and_eq_true] at hall
      exact hall.1
  obtain ⟨p, key, hread⟩ := handleProtocol_detected rex s rid more hd
  have hstep : (broker rex).step s (.router rid (body :: more))
      ((s.received p more).clientRequire key).2 := by
    refine ⟨0, ?_, by simp⟩
    unfold Server.step
    rw [if_neg (by rw [hrun]; simp)]
    dsimp only
    rw [if_pos ⟨hrest, by simp⟩, hread]
  have hign := ignored_clientRequire hreg.reg hrun p more key
  have hreg₁ := (regular_inductive rex).step _ _ _ hreg hstep
  obtain ⟨n, s', hrun', hrest', hign'⟩ := run_of_allDetected rex (body :: more) hreg₁
    hign.running (by
      rw [rest_clientRequire]
      rfl) hall
  exact ⟨n, s', LTS.Run.cons_iff.2 ⟨_, hstep, hrun'⟩, hrest', hign.trans hign'⟩

def secret : List Frame := [[115, 101, 99, 114, 101, 116]]

/-- Clients "b", "c" and "a" open; "a" sends "secret" to the mailbox of "b". -/
def privateRun : List Label :=
  [.request [2] (.connectionOpen (.ofBytes [98])), .request [3] (.connectionOpen (.ofBytes [99])),
    .request [1] (.connectionOpen (.ofBytes [97])),
    .request [1] (.mailboxSend (.ofBytes [98]) .empty .empty 0 secret)]

/-- Then "a" writes to "d", who is not there, and to "b" again. -/
def storedRun : List Label :=
  privateRun ++ [.request [1] (.mailboxSend (.ofBytes [100]) .empty .empty 0 secret), .mailbox,
    .request [1] (.mailboxSend (.ofBytes [98]) .empty .empty 0 secret)]

/-- **Input is ignored iff an explicit check finds every body malformed.** -/
theorem discards_iff (rex : Str → Str → Bool) (s : Server) (h : (broker rex).Reachable s)
    (hrun : s.running = true) (hrest : s.rest = []) (rid : Key) (frames : List Frame) :
    Discards rex s rid frames ↔ AllDetected frames = true := by
  have hreg := (regular_inductive rex).reachable s h
  exact ⟨allDetected_of_discards hreg, discards_of_allDetected hreg hrun hrest⟩

/-- Three clients are there, mail is stored and the message object holds the content of another
message: two messages of "a", one with another signature and one with an unknown id, are ignored. -/
theorem discards_signature : ∃ s, (broker fun _ _ => true).Reachable s ∧ s.addresses.keys.length = 3 ∧
    ((s.mailbox.mailboxes.get (.ofBytes [100])).map (·.items.length)) = some 1 ∧
    s.message.content = some secret ∧
    Discards (fun _ _ => true) s [1] [[0, 0], [1], [0xAA, 0xA8, 99]] := by
  have hrun : ((Server.new.steps (fun _ _ => true) (fun _ _ => True) 20 storedRun).any fun s =>
      s.running = true ∧ s.rest = [] ∧ s.addresses.keys.length = 3 ∧
        ((s.mailbox.mailboxes.get (.ofBytes [100])).map (·.items.length)) = some 1 ∧
        s.message.content = some secret) = true := by decide +kernel
  obtain ⟨s, hs, hp⟩ := (Option.any_eq_true _ _).1 hrun
  obtain ⟨hgo, hrest, hclients, hmail, hcontent⟩ := of_decide_eq_true hp
  have hreach := (reachable_of_steps hs).of_within
  exact ⟨s, hreach, hclients, hmail, hcontent,
    (discards_iff _ s hreach hgo hrest [1] [[0, 0], [1], [0xAA, 0xA8, 99]]).2 (by decide)⟩

end

/-! ## A frame that is cut off -/

/-- The signature, the id of MAILBOX SEND, the address "c", and no more. -/
def cutOff : Frame := [0xAA, 0xA8, 9, 1, 99]

/-- Client "c" sends the frame that is cut off, and gets "secret". -/
theorem truncated_send_leaks : wellFormed cutOff = false ∧
    ∃ s s', (broker fun _ _ => true).Reachable s ∧ s.running = true ∧ s.rest = [] ∧
      (broker fun _ _ => true).Run s [.router [3] [cutOff]] s' ∧
      (s'.trace.getLast?.any fun
        | .sent 1 _ (some (.mailboxDeliver _ _ _ _ content)) _ => content = secret
        | _ => false) = true ∧
      ¬ Discards (fun _ _ => true) s [3] [cutOff] := by
  refine ⟨by decide, ?_⟩
  have hrun : ((Server.new.steps (fun _ _ => true) (fun _ _ => True) 20 privateRun).any fun s =>
      s.running = true ∧ s.rest = [] ∧
        ((s.steps (fun _ _ => true) (fun _ _ => True) 20 [.router [3] [cutOff]]).any fun s' =>
          s'.trace.getLast?.any fun
            | .sent 1 _ (some (.mailboxDeliver _ _ _ _ content)) _ => content = secret
            | _ => false) = true) = true := by decide +kernel
  obtain ⟨s, hs, hp⟩ := (Option.any_eq_true _ _).1 hrun
  obtain ⟨hgo, hrest, hlast⟩ := of_decide_eq_true hp
  obtain ⟨s', hs', hsent⟩ := (Option.any_eq_true _ _).1 hlast
  have hreach := (reachable_of_steps hs).of_within
  refine ⟨s, s', hreach, hgo, hrest, (run_of_steps hs').of_within, hsent, fun h => ?_⟩
  have hall := allDetected_of_discards ((regular_inductive _).reachable s hreach) h
  exact absurd hall (by decide)

end Malamute.L3
