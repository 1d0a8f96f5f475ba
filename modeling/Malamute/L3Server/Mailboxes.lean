import Malamute.L3Server.Lines

/-!
# Mailboxes keep the books

What the mailbox engine, the loop that empties a mailbox (`Drain`) and MAILBOX
SEND (`Mailed`) do to the lines. A message is sent straight to the client that
is registered under its address; that it does not overtake another one is the
invariant `Posted.clear`, and `Drain` is what restores it.
-/
namespace Malamute.L3
open Malamute.Core Malamute.L1 Malamute.L2 Server

/-- No line has become longer from empty. -/
def Emptied (s s' : Server) : Prop := ∀ l, s.waiting l = [] → s'.waiting l = []

section
variable {rex : Str → Str → Bool} {s s' : Server} {c : Cid} {k : Client} {a : Str}

theorem Emptied.refl (s : Server) : Emptied s s := fun _ h => h

theorem Emptied.trans {s₁ : Server} (h : Emptied s s₁) (h' : Emptied s₁ s') : Emptied s s' :=
  fun l hl => h' l (h l hl)

theorem waiting_service_congr (h : s'.services = s.services) (name subject : Str) :
    s'.waiting (.service name subject) = s.waiting (.service name subject) := by
  simp only [waiting, service_frame h]

theorem waiting_of_fields (h1 : s'.mailbox = s.mailbox) (h2 : s'.mailboxPipe = s.mailboxPipe)
    (h3 : s'.services = s.services) (l : Line) : s'.waiting l = s.waiting l := by
  cases l with
  | mailbox b => simp only [waiting, h1, h2]
  | service name subject => exact waiting_service_congr h3 name subject

/-! ## The mailbox engine -/

/-- The engine reads a STORE: the message moves from the pipe to the mailbox, or
is refused. -/
theorem kept_read (h : Kept s) (hread : s.mailboxRead = .ok s') : Kept s' ∧ Emptied s s' := by
  unfold mailboxRead at hread
  split at hread
  · cases hread
    exact ⟨h, .refl _⟩
  · rename_i a m pipe hpipe
    obtain ⟨⟨b, v⟩, hstore, hread⟩ := bind_eq_ok.1 hread
    have hcontent := Mailbox.store_content hstore
    cases v with
    | queued w =>
      cases hread
      have hw : ∀ l, (s.setMailbox b pipe).waiting l = s.waiting l := by
        intro l
        cases l with
        | mailbox a' =>
          simp only [waiting, setMailbox_mailbox, setMailbox_mailboxPipe, hpipe, hcontent]
          by_cases ha : a = a'
          · simp [ha]
          · have ha' : a' ≠ a := fun h => ha h.symm
            simp [ha, ha']
        | service name subject => rfl
      exact ⟨h.still (t := []) (by simp) rfl hw (Nat.le_refl _), fun l hl => (hw l).trans hl⟩
    | refused =>
      cases hread
      have hmail : ∀ a', (((s.setMailbox b pipe).unlink m).log (.dropped (.mailbox a) m)).waiting
          (.mailbox a') =
            s.mailbox.content a' ++ (pipe.filter (·.1 = a')).map (·.2) := by
        intro a'
        simp only [waiting, log_mailbox, unlink_mailbox, setMailbox_mailbox, log_mailboxPipe,
          unlink_mailboxPipe, setMailbox_mailboxPipe, hcontent]
        simp
      have hbefore : s.waiting (.mailbox a) =
          s.mailbox.content a ++ m :: (pipe.filter (·.1 = a)).map (·.2) := by
        simp [waiting, hpipe]
      have hother : ∀ l, l ≠ .mailbox a →
          (((s.setMailbox b pipe).unlink m).log (.dropped (.mailbox a) m)).waiting l =
            s.waiting l := by
        intro l hl
        cases l with
        | mailbox a' =>
          have ha : a ≠ a' := fun h => hl (by rw [h])
          rw [hmail, waiting, hpipe]
          simp [ha]
        | service name subject => rfl
      refine ⟨h.lose (t := [.dropped (.mailbox a) m]) rfl rfl rfl hother hbefore (hmail a), ?_⟩
      intro l hl
      by_cases hla : l = .mailbox a
      · rw [hla, hbefore] at hl
        simp at hl
      · rw [hother l hla]
        exact hl

theorem kept_reads {pipe : List (Str × Msg)} (h : Kept s) (hread : mailboxReads pipe s = .ok s') :
    Kept s' ∧ Emptied s s' := by
  induction pipe generalizing s with
  | nil =>
    cases hread
    exact ⟨h, .refl _⟩
  | cons p pipe ih =>
    obtain ⟨s₁, h1, h2⟩ := bind_eq_ok.1 hread
    obtain ⟨hk, he⟩ := kept_read h h1
    obtain ⟨hk', he'⟩ := ih hk h2
    exact ⟨hk', he.trans he'⟩

/-- Reading as many commands as there are leaves none. -/
theorem reads_pipe {pipe : List (Str × Msg)} (hread : mailboxReads pipe s = .ok s')
    (hlen : s.mailboxPipe.length ≤ pipe.length) : s'.mailboxPipe = [] := by
  induction pipe generalizing s with
  | nil =>
    cases hread
    exact List.eq_nil_of_length_eq_zero (Nat.le_zero.1 hlen)
  | cons p pipe ih =>
    obtain ⟨s₁, h1, h2⟩ := bind_eq_ok.1 hread
    refine ih h2 ?_
    unfold mailboxRead at h1
    split at h1
    · rename_i hp
      cases h1
      simp [hp]
    · rename_i a m rest hp
      obtain ⟨⟨b, v⟩, -, h1⟩ := bind_eq_ok.1 h1
      rw [hp] at hlen
      cases v <;> cases h1 <;> simpa using hlen

/-- A QUERY: `s₁` is the state in which the engine comes to it. -/
theorem kept_query {r : Option Msg} (h : Kept s) (hq : s.mailboxQuery a = .ok (s', r)) :
    ∃ s₁, Kept s₁ ∧ Emptied s s₁ ∧ s'.trace = s₁.trace ∧ s'.messageId = s₁.messageId ∧
      (∀ l, s₁.waiting l = (if l = .mailbox a then r.toList else []) ++ s'.waiting l) ∧
      (r = none → s'.waiting (.mailbox a) = []) := by
  obtain ⟨s₁, hread, hq⟩ := bind_eq_ok.1 hq
  obtain ⟨⟨b, m⟩, hquery, hq⟩ := bind_eq_ok.1 hq
  cases hq
  obtain ⟨hk, he⟩ := kept_reads h hread
  have hpipe := reads_pipe hread (Nat.le_refl _)
  have hcontent := Mailbox.query_content hquery
  refine ⟨s₁, hk, he, rfl, rfl, ?_, ?_⟩
  · intro l
    cases l with
    | mailbox a' =>
      have hc := (hcontent a').1
      simp only [waiting, setMailbox_mailbox, setMailbox_mailboxPipe, hpipe, hc]
      simp
    | service name subject => rfl
  · intro hr
    have hc := (hcontent a).1
    rw [(hcontent a).2 hr, hr] at hc
    have hb : b.content a = [] := by simpa using hc.symm
    simp [waiting, hpipe, hb]

/-! ## Emptying a mailbox -/

/-- One message of a drain. -/
theorem kept_next {s₁ : Server} {m : Msg} (h : Kept s) (ha : k.address = some a)
    (hq : s.mailboxQuery a = .ok (s₁, some m)) :
    Kept ((s₁.enter c .mailboxMessage).deliver c k .mailboxDeliver m) ∧
      Emptied s ((s₁.enter c .mailboxMessage).deliver c k .mailboxDeliver m) ∧
      m ∈ s₁.sentTo (.mailbox a) := by
  obtain ⟨s₀, hk, he, htr, hid, hw, -⟩ := kept_query h hq
  have hsent := change_mailboxDeliver c a s₁ k.hashkey m
  refine ⟨?_, ?_, ?_⟩
  · refine hk.take (l := .mailbox a) (m := m)
      (t := [.event c .mailboxMessage, .sent c k.address
        (s₁.delivery k.hashkey .mailboxDeliver m).wire (some m)]) ?_ ?_ hid hw
    · simp only [deliver_trace, enter_trace, htr]
      simp [delivery]
    · rw [ha, List.filterMap_cons_none rfl, List.filterMap_cons_some hsent]
      rfl
  · refine he.trans fun l hl => ?_
    have hwl := hw l
    rw [hl] at hwl
    exact (List.append_eq_nil_iff.1 hwl.symm).2
  · have hwait : m ∈ s₀.waiting (.mailbox a) := by
      rw [hw]
      simp
    rw [sentTo, htr]
    exact ((hk.books _).mem_sent (.inr hwait)).1

/-- **A drain** hands out the mailbox of the client, in order, to the end. -/
theorem kept_drain (h : Kept s) (ha : k.address = some a) (hd : Drain c k a s s') :
    Kept s' ∧ Emptied s s' ∧ (a ≠ .empty → s'.waiting (.mailbox a) = []) := by
  induction hd with
  | anonymous he => exact ⟨h, .refl _, fun hne => absurd he hne⟩
  | empty _ hq =>
    obtain ⟨s₁, hk, he, htr, hid, hw, hempty⟩ := kept_query h hq
    have hw' : ∀ l, _ = s₁.waiting l := fun l => (by simpa using hw l : _ = _).symm
    refine ⟨hk.still (t := []) (by simp [htr]) rfl hw' (Nat.le_of_eq hid.symm), ?_,
      fun _ => hempty rfl⟩
    exact he.trans fun l hl => (hw' l).trans hl
  | next _ hq _ ih =>
    obtain ⟨hk, he, -⟩ := kept_next h ha hq
    obtain ⟨hk', he', hclear⟩ := ih hk
    exact ⟨hk', he.trans he', hclear⟩

/-! ## MAILBOX SEND -/

theorem Posted.same_services (h : Posted rex s) (hk : Kept s')
    (hc : ∀ a c, s'.addresses.get a = some c → s'.waiting (.mailbox a) = [])
    (hs : s'.services = s.services) (ht : GrowsPlain s s') : Posted rex s' where
  kept := hk
  clear := hc
  unmatched name := by
    rw [Unmatched, service_frame hs]
    exact h.unmatched name
  served := h.served.plain (.of_services hs) ht

/-- A message goes straight to the client of its address: nothing waits there. -/
theorem kept_mailing {target : Cid} (h : Posted rex s)
    (htarget : s.addresses.get s.message.address = some target)
    (hk : k.address = some s.message.address) :
    Kept (((s.mailing c a).enter target .mailboxMessage).deliver target k .mailboxDeliver
      (s.messageFrom a)) := by
  have hsent := change_mailboxDeliver target s.message.address (s.mailing c a) k.hashkey
    (s.messageFrom a)
  refine h.kept.pass (l := .mailbox s.message.address) (m := s.messageFrom a)
    (t := [.mailed c (s.messageFrom a), .event target .mailboxMessage, .sent target k.address
      ((s.mailing c a).delivery k.hashkey .mailboxDeliver (s.messageFrom a)).wire
        (some (s.messageFrom a))]) ?_ ?_ rfl rfl (waiting_of_fields rfl rfl rfl)
    (h.clear _ _ htarget)
  · simp [delivery]
  · rw [hk, List.filterMap_cons_some (f := Obs.change) rfl, List.filterMap_cons_none rfl,
      List.filterMap_cons_some hsent]
    rfl

/-- **A message is handed to the client of its address, or stored.** -/
theorem posted_mailed (hr : Reg s) (h : Posted rex s) (hm : Mailed c a s s') : Posted rex s' := by
  have hservices := mailed_services hm
  have hsame := mailed_same hm
  have hgrows := growsPlain_mailed hm
  cases hm with
  | @direct t target s' htarget ht hd =>
    obtain ⟨-, k, ho⟩ := hr.registered _ _ htarget
    cases ht.symm.trans ho.ctx
    have hk := kept_mailing (c := c) (a := a) h htarget ho.address
    obtain ⟨hk', hempty, -⟩ := kept_drain hk ho.address hd
    refine h.same_services hk' (fun b d hb => hempty _ ?_) hservices hgrows
    rw [hsame.addresses] at hb
    exact h.clear b d hb
  | stored hnone =>
    have hw : ∀ l, ((s.mailing c a).setMailbox s.mailbox
          (s.mailboxPipe ++ [(s.message.address, s.messageFrom a)])).waiting l =
        s.waiting l ++ if l = .mailbox s.message.address then [s.messageFrom a] else [] := by
      intro l
      cases l with
      | mailbox b =>
        by_cases hb : s.message.address = b
        · simp [waiting, hb]
        · have hb' : b ≠ s.message.address := fun h => hb h.symm
          simp [waiting, hb, hb']
      | service name subject =>
        rw [if_neg (by simp), List.append_nil]
        rfl
    refine h.same_services (h.kept.put (t := [.mailed c (s.messageFrom a)]) rfl rfl rfl rfl hw)
      ?_ hservices hgrows
    intro b d hb
    have hne : b ≠ s.message.address := by
      rintro rfl
      cases hnone.symm.trans hb
    rw [hw, if_neg (by simpa using hne), List.append_nil]
    exact h.clear b d hb

end
end Malamute.L3
