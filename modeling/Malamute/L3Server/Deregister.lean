import Malamute.L3Server.Posted

/-!
# What `deregister_the_client` takes away

`Withdrawn s s' c k a` says that `s'` is `s` without what client `c` had: its offers,
its place in the address table, its reader list, for each entry of which a CANCEL has
gone to the stream. `deregister_exact`: this is what the action does in every state in
which the client is open, and every connected client of a reachable state is.
-/
namespace Malamute.L3
open Malamute.Core Malamute.L1 Malamute.L2 Server

/-- `s'` is `s` without what `c` had, whose context was `k` and whose address `a`. -/
structure Withdrawn (s s' : Server) (c : Cid) (k : Client) (a : Str) : Prop where
  offers : ∀ name, (s'.service name).offers.items =
    (s.service name).offers.items.filter fun o => o.client ≠ c
  services : ∀ name, (s'.services.get name).map Service.queue =
    (s.services.get name).map Service.queue
  cancels : ∀ name, s'.streams.get name = (s.streams.get name).map fun st =>
    { st with pending := st.pending ++ List.replicate (k.readers.count name) (.command (.cancel c)) }
  context : ∃ k', s'.ctx c = some k' ∧ k'.readers = [] ∧
    k'.address = if a = .empty then some a else none
  addresses : ∀ b, s'.addresses.get b = if a ≠ .empty ∧ b = a then none else s.addresses.get b
  others : ∀ d, d ≠ c → s'.ctx d = s.ctx d
  clients : s'.clients = s.clients
  zombies : s'.zombies = s.zombies
  mailbox : s'.mailbox = s.mailbox
  mailboxPipe : s'.mailboxPipe = s.mailboxPipe
  refs : s'.refs = s.refs

/-- One item for each name in the list goes to the stream of that name. -/
theorem get_pushes (t : Table Str Stream) (names : List Str) (i : Issue) (name : Str) :
    (names.foldl (fun t r => t.modify r (·.push i)) t).get name = (t.get name).map fun st =>
      { st with pending := st.pending ++ List.replicate (names.count name) i } := by
  induction names generalizing t with
  | nil => cases h : t.get name <;> simp [h]
  | cons r names ih =>
    rw [List.foldl_cons, ih, Table.get_modify, List.count_cons]
    by_cases hr : name = r
    · subst hr
      cases h : t.get name with
      | none => simp
      | some st => simp [Stream.push, List.replicate_succ]
    · have hr' : (r == name) = false := by simpa using fun h => hr h.symm
      simp [hr, hr']

theorem withdrawn_deregister (s : Server) (c : Cid) (k : Client) (a : Str) :
    Withdrawn s ((s.deregister c k a).setClient c (k.deregistered a)) c k a where
  offers name := by
    have hservice : ((s.deregister c k a).setClient c (k.deregistered a)).service name =
        (s.service name).withdraw c := by
      rw [← service_withdrawOffers]
      exact service_frame rfl name
    rw [hservice, Service.withdraw, CursorList.items_sweep_reset]
    simp
  services name := by
    rw [setClient_services, deregister_services, withdrawOffers_services, Table.get_map,
      Option.map_map]
    rfl
  cancels name := by
    rw [setClient_streams, deregister_streams, cancelReaders_streams, get_pushes]
  context := ⟨k.deregistered a, by simp, rfl, rfl⟩
  addresses b := by
    rw [setClient_addresses, deregister_addresses]
    by_cases ha : a = .empty <;> simp [ha, Table.get_del]
  others d hd := by simp [Function.update_of_ne hd]
  clients := rfl
  zombies := rfl
  mailbox := rfl
  mailboxPipe := rfl
  refs := rfl

/-- **Deregistration takes everything of the client and nothing else.** -/
theorem deregister_exact (rex : Str → Str → Bool) :
    (∀ s c k, (broker rex).Reachable s → s.ctx c = some k → k.state = .connected →
      ∃ a, Open s c k a ∧ ∀ name ∈ k.readers, ∃ st, s.streams.get name = some st) ∧
    ∀ s c k a, Open s c k a → ∃ s', s.deregisterTheClient c = .ok s' ∧ Withdrawn s s' c k a := by
  refine ⟨fun s c k hs hk hconn => ?_, fun s c k a h =>
    ⟨_, deregister_eq h, withdrawn_deregister s c k a⟩⟩
  have hreg := (regular_inductive rex).reachable s hs
  obtain ⟨a, ho⟩ := hreg.reg.open_of hk hconn
  exact ⟨a, ho, hreg.wired.readers c k hk⟩

/-- Three clients offer to serve "s", the second of them twice; it also reads "s" twice, and "t". -/
def offersRun : List Label :=
  [.request [1] (.connectionOpen (.ofBytes [97])), .request [2] (.connectionOpen (.ofBytes [98])),
    .request [3] (.connectionOpen (.ofBytes [99])), .request [1] (.serviceOffer (.ofBytes [115]) .empty),
    .request [2] (.serviceOffer (.ofBytes [115]) .empty),
    .request [3] (.serviceOffer (.ofBytes [115]) .empty),
    .request [2] (.serviceOffer (.ofBytes [115]) (.ofBytes [115])),
    .request [2] (.streamRead (.ofBytes [115]) .empty),
    .request [2] (.streamRead (.ofBytes [116]) .empty),
    .request [2] (.streamRead (.ofBytes [115]) (.ofBytes [115]))]

/-- The second of them is deregistered: the offers of the others stay as they are, and the stream
"s" gets two CANCELs. -/
theorem deregister_exact_offersRun : ∃ s s', (broker fun _ _ => true).Reachable s ∧
    (s.service (.ofBytes [115])).offers.items.map Offer.client = [0, 1, 2, 1] ∧
    (s.ctx 1).map Client.readers = some [.ofBytes [115], .ofBytes [116], .ofBytes [115]] ∧
    s.deregisterTheClient 1 = .ok s' ∧
    (s'.service (.ofBytes [115])).offers.items.map Offer.client = [0, 2] ∧
    s'.streams.get (.ofBytes [115]) = (s.streams.get (.ofBytes [115])).map (fun st =>
      { st with pending := st.pending ++ [.command (.cancel 1), .command (.cancel 1)] }) ∧
    s'.addresses.get (.ofBytes [98]) = none := by
  have hrun : ((Server.new.steps (fun _ _ => true) (fun _ _ => True) 20 offersRun).any fun s =>
      (s.service (.ofBytes [115])).offers.items.map Offer.client = [0, 1, 2, 1] ∧
        ((s.ctx 1).any fun k => k.state = .connected ∧ k.address = some (.ofBytes [98]) ∧
          k.readers = [.ofBytes [115], .ofBytes [116], .ofBytes [115]]) = true) = true := by
    decide +kernel
  obtain ⟨s, hs, hp⟩ := (Option.any_eq_true _ _).1 hrun
  obtain ⟨hoffers, hk⟩ := of_decide_eq_true hp
  obtain ⟨k, hk, hP⟩ := (Option.any_eq_true _ _).1 hk
  obtain ⟨hconn, haddr, hreaders⟩ := of_decide_eq_true hP
  have hr := (reachable_of_steps hs).of_within
  obtain ⟨hopen, hleave⟩ := deregister_exact fun _ _ => true
  obtain ⟨a, ho, -⟩ := hopen s 1 k hr hk hconn
  obtain ⟨s', hok, hw⟩ := hleave s 1 k a ho
  cases ho.address.symm.trans haddr
  refine ⟨s, s', hr, hoffers, by rw [hk]; exact congrArg some hreaders, hok, ?_, ?_, ?_⟩
  · have hothers := congrArg (List.filter (· ≠ 1)) hoffers
    rw [List.filter_map] at hothers
    rw [hw.offers]
    exact hothers
  · rw [hw.cancels, hreaders]
    rfl
  · rw [hw.addresses, if_pos (by decide)]

end Malamute.L3
