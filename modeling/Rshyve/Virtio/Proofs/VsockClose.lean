/-
# How a vsock connection ends, and what a CREDIT_REQUEST gets

Two results over every interleaving of the device's threads.

- `shutdown_ends_connection`: a SHUTDOWN packet that shuts both directions,
  or the guest's after the host's, is answered with an RST, and its
  connection is removed. Both are owed by the thread that applied the packet,
  which does nothing else before (`VsockDuty`).
- `credit_request_unanswered`: a CREDIT_REQUEST is answered with nothing. The
  window of a connection goes out with the packet that opens it and with host
  payload.

The accounts are tied to the duties thread by thread (`Tracks`) and to the
table connection by connection (`Ends`). The size of the table is on its own
(`Capped`).
-/
import Rshyve.Virtio.Proofs.VsockCredit
import Rshyve.Virtio.Proofs.VsockDuty

namespace Rshyve.Virtio.Vsock

open Conc Function

-- ==== the size of the table

/-- The count is that of the entries, and within the cap. -/
def Capped (s : Shared) : Prop :=
  ∃ keys : Finset ConnKey, (∀ k, k ∈ keys ↔ (s.conns k).isSome) ∧
    keys.card = s.connCount ∧ s.connCount ≤ maxConns

variable {o : Op} {hdr : VsockHdr} {p : Pool Op Ans (Shared × Accounts)}

section Capped

variable {guestCid : BitVec 64} {s s' : Shared} {t : Nat} {c : Choice}

theorem Capped.congr (h : Capped s) (hconns : ∀ k, (s'.conns k).isSome = (s.conns k).isSome)
    (hcount : s'.connCount = s.connCount) : Capped s' := by
  obtain ⟨keys, hkeys, hcard, hcap⟩ := h
  refine ⟨keys, fun k => ?_, hcount ▸ hcard, hcount ▸ hcap⟩
  rw [hkeys k, hconns k]

theorem isSome_update {key : ConnKey} {e e' : Entry} {f : ConnKey → Option Entry}
    (he : f key = some e) (k : ConnKey) :
    (update f key (some e') k).isSome = (f k).isSome := by
  by_cases hk : k = key
  · subst hk
    rw [update_self, he]
    rfl
  · rw [update_of_ne hk]

theorem Capped.insert {key : ConnKey} {conn : VsockConn} (h : Capped s)
    (hfree : s.conns key = none) (hroom : s.connCount < maxConns) :
    Capped (s.insert key conn) := by
  obtain ⟨keys, hkeys, hcard, -⟩ := h
  have hnew : key ∉ keys := by
    rw [hkeys, hfree]
    exact Bool.false_ne_true
  refine ⟨Insert.insert key keys, fun k => ?_, ?_, hroom⟩
  · show _ ↔ (update s.conns key _ k).isSome
    by_cases hk : k = key
    · subst hk
      simp
    · rw [update_of_ne hk, Finset.mem_insert, hkeys]
      simp [hk]
  · show _ = s.connCount + 1
    rw [Finset.card_insert_of_notMem hnew, hcard]

theorem Capped.forget (key : ConnKey) (h : Capped s) : Capped (s.forget key) := by
  unfold Shared.forget
  split
  · exact h
  next e he =>
    obtain ⟨keys, hkeys, hcard, hcap⟩ := h
    have hin : key ∈ keys := by
      rw [hkeys, he]
      rfl
    refine ⟨keys.erase key, fun k => ?_, ?_, Nat.le_trans (Nat.sub_le _ _) hcap⟩
    · show _ ↔ (update s.conns key none k).isSome
      by_cases hk : k = key
      · subst hk
        simp
      · rw [update_of_ne hk, Finset.mem_erase, hkeys]
        simp [hk]
    · rw [Finset.card_erase_of_mem hin, hcard]

theorem capped_step {a : Ans o} (h : Capped s)
    (hex : s.exec guestCid t c o = some (a, s')) : Capped s' := by
  by_cases ho : ¬ Tabled o
  · obtain ⟨hconns, hcount⟩ := (framed_exec hex).table ho
    exact h.congr (fun k => by rw [hconns]) hcount
  cases o with
  | queueHostData key id data =>
    obtain ⟨-, -, rfl⟩ | ⟨-, rfl⟩ | ⟨e, take, he, -, rfl⟩ :=
      queueHostData_cases hex
    · exact h
    · exact h
    · exact h.congr (isSome_update he) rfl
  | closeLocalSend key =>
    obtain rfl | ⟨e, conn, he, rfl⟩ := closeLocalSend_cases hex
    · exact h
    · exact h.congr (isSome_update he) rfl
  | forget key =>
    cases hex
    exact h.forget key
  | reserveHostConnect port =>
    obtain ⟨n, ⟨-, rfl⟩ | ⟨key, hfree, hroom, -, rfl⟩⟩ :=
      reserveHostConnect_cases hex
    · exact h
    · exact Capped.insert (s := { s with nextHostPort := n }) h hfree hroom
  | acceptRequest hdr =>
    obtain ⟨-, rfl⟩ | ⟨hfree, hroom, -, rfl⟩ := acceptRequest_cases hex
    · exact h
    · exact h.insert hfree hroom
  | onPacket hdr len =>
    obtain ⟨-, -, rfl⟩ | ⟨e, he, -, rfl⟩ := onPacket_cases hex
    · exact h
    · exact h.congr (isSome_update he) rfl
  | _ => exact absurd (fun h => h) ho

end Capped

-- ==== one packet

namespace VsockConn

/-- A packet gets an RST only if it leaves its connection closed, and a
SHUTDOWN gets one whenever it does. -/
theorem onPacket_reply (c : VsockConn) (h : VsockHdr) :
    ((c.onPacket h).1.isClosed = false → (c.onPacket h).2 = none) ∧
    (h.op = opShutdown → (c.onPacket h).1.isClosed = true → (c.onPacket h).2 = some opRst) := by
  unfold onPacket
  simp only []
  split
  · exact ⟨fun hc => absurd hc Bool.noConfusion, fun _ _ => rfl⟩
  split
  next hop =>
    have hne : h.op ≠ opShutdown := by
      rw [hop]
      decide
    split
    · exact ⟨fun _ => rfl, fun hs => absurd hs hne⟩
    · exact ⟨fun hc => absurd hc Bool.noConfusion, fun hs => absurd hs hne⟩
  split
  next hop =>
    have hne : h.op ≠ opShutdown := by
      rw [hop]
      decide
    exact ⟨fun _ => rfl, fun hs => absurd hs hne⟩
  split
  · split
    · exact ⟨fun hc => absurd hc Bool.noConfusion, fun _ _ => rfl⟩
    · refine ⟨fun hc => if_neg ?_, fun _ hc => if_pos ?_⟩
      · simpa [isClosed] using hc
      · simpa [isClosed] using hc
  next hop => exact ⟨fun _ => rfl, fun hs => absurd hs hop⟩

variable {c : VsockConn} {h : VsockHdr}

theorem onPacket_ends (hends : ends h c.state = true) : (c.onPacket h).1.isClosed = true := by
  simp only [ends, shutdownBoth, Bool.and_eq_true, Bool.or_eq_true, beq_iff_eq, bne_iff_ne] at hends
  obtain ⟨hop, hflags⟩ := hends
  unfold onPacket
  simp only [hop]
  split
  · rfl
  rw [if_neg (by decide), if_neg (by decide), if_pos trivial]
  split
  · rfl
  next hboth =>
    obtain ⟨hsend, hstate⟩ := hflags.resolve_left hboth
    simp only [if_pos hsend]
    simp [absorbCredit, isClosed, hstate]

/-- A CREDIT_REQUEST leaves a live connection open. -/
theorem onPacket_request (hop : h.op = opCreditRequest) (htype : h.type = typeStream)
    (hlive : c.state ≠ .closed) : (c.onPacket h).1.isClosed = false := by
  unfold onPacket
  simp only [hop]
  rw [if_neg (fun hne => hne htype), if_neg (by decide), if_neg (by decide), if_neg (by decide)]
  simp [absorbCredit, isClosed, hlive]

end VsockConn

-- ==== the duties

/-- What is written down about a thread is what it owes. -/
structure Tracks (l : Accounts) (t : Nat) (d : Duty) : Prop where
  closing : ∀ hdr sent, l.closing t = some (hdr, sent) →
    d = if sent then .remove hdr else .answer hdr
  asked : ∀ hdr, l.asked t = some hdr → d = .silent
  stamped : ∀ key window, d = .stamped key window → window = (l.stamp t).map
        (fun r => (defaultBufAlloc, BitVec.ofNat 32 r.2)) ∧
      ∀ r, l.stamp t = some r → r.1 = key

section Tracks

variable {guestCid : BitVec 64} {s s' : Shared} {l l' : Accounts} {t u : Nat}
  {c : Choice} {d : Duty}

/-- A thread that owes nothing has nothing written down. -/
theorem Tracks.clear (h : Tracks l t d) (hans : ∀ hdr, d ≠ .answer hdr)
    (hrem : ∀ hdr, d ≠ .remove hdr) : l.closing t = none := by
  cases hc : l.closing t with
  | none => rfl
  | some r =>
    obtain ⟨hdr, sent⟩ := r
    have hd := h.closing hdr sent hc
    cases sent with
    | false => exact absurd hd (hans hdr)
    | true => exact absurd hd (hrem hdr)

theorem Tracks.unasked (h : Tracks l t d) (hd : d ≠ .silent) : l.asked t = none := by
  cases ha : l.asked t with
  | none => rfl
  | some hdr => exact absurd (h.asked hdr ha) hd

/-- Where nothing is written down, only a window can be owed. -/
theorem tracks_none (hc : l.closing t = none) (ha : l.asked t = none)
    (hd : ∀ key window, d ≠ .stamped key window) : Tracks l t d where
  closing _ _ h := nomatch hc.symm.trans h
  asked _ h := nomatch ha.symm.trans h
  stamped key window h := absurd h (hd key window)

theorem tracks_free (hc : l.closing t = none) (ha : l.asked t = none) :
    Tracks l t .free := tracks_none hc ha fun _ _ => nofun

/-- The lines of two accounts about one thread. -/
structure SameLines (l l' : Accounts) (t : Nat) : Prop where
  closing : l'.closing t = l.closing t
  asked : l'.asked t = l.asked t
  stamp : l'.stamp t = l.stamp t

theorem Tracks.same (h : Tracks l t d) (hsame : SameLines l l' t) : Tracks l' t d where
  closing := hsame.closing ▸ h.closing
  asked := hsame.asked ▸ h.asked
  stamped := hsame.stamp ▸ h.stamped

/-- The observer writes about the thread that moves. -/
theorem sameLines_note (a : Ans o) (s : Shared) (l : Accounts) (hu : u ≠ t) :
    SameLines l (Accounts.note t o a s l) u := by
  have hupd {α : Type} (f : Nat → α) (v : α) : update f t v u = f u :=
    update_of_ne hu _ _
  cases o with
  | onPacket hdr len =>
    simp only [Accounts.note]
    split
    · exact ⟨rfl, rfl, rfl⟩
    · unfold Accounts.packet
      refine ⟨?_, ?_, rfl⟩
      · simp only []
        split
        · exact hupd _ _
        · rfl
      · simp only []
        split
        · exact hupd _ _
        · rfl
  | pushRx hdr =>
    show SameLines l (l.pushed t hdr a s.rx.length) u
    unfold Accounts.pushed
    dsimp only
    repeat' split
    all_goals first
      | exact ⟨rfl, rfl, hupd _ _⟩
      | exact ⟨hupd _ _, rfl, hupd _ _⟩
  | forget key =>
    show SameLines l (l.forgot t key) u
    unfold Accounts.forgot
    repeat' split
    all_goals first
      | exact ⟨rfl, rfl, rfl⟩
      | exact ⟨hupd _ _, rfl, rfl⟩
  | queueHostData key id data =>
    show SameLines l (if (s.conns key).isSome then _ else l) u
    split <;> exact ⟨rfl, rfl, rfl⟩
  | ourCredit key => exact ⟨rfl, rfl, hupd _ _⟩
  | pushUsed => exact ⟨rfl, hupd _ _, rfl⟩
  | acceptRequest hdr => cases a <;> exact ⟨rfl, rfl, rfl⟩
  | reserveHostConnect port => cases a <;> exact ⟨rfl, rfl, rfl⟩
  | _ => exact ⟨rfl, rfl, rfl⟩

/-- A packet is applied to a connection by a thread that owes nothing. -/
theorem tracks_packet {len : Nat} {conn : VsockConn} {accepts : Bool} (h : Tracks l t .free) :
    Tracks (l.packet t hdr len conn.state) t (Duty.next .free (.onPacket hdr len)
        (some ⟨(conn.onPacket hdr).2, (conn.onPacket hdr).1.isClosed, accepts⟩)) := by
  have hclosing : l.closing t = none := h.clear (by simp) (by simp)
  have hasked : l.asked t = none := h.unasked (by simp)
  by_cases hends : ends hdr conn.state = true
  · have hop : hdr.op = opShutdown := by
      unfold ends at hends
      rw [Bool.and_eq_true] at hends
      exact beq_iff_eq.mp hends.1
    have hne : ¬ (hdr.op = opCreditRequest ∧ hdr.type = typeStream ∧ conn.state ≠ .closed) := by
      rw [hop]
      exact fun hc => absurd hc.1 (by decide)
    have hnext : Duty.next .free (.onPacket hdr len)
        (some ⟨(conn.onPacket hdr).2, (conn.onPacket hdr).1.isClosed, accepts⟩) = .answer hdr :=
      if_pos ⟨hop, VsockConn.onPacket_ends hends⟩
    rw [hnext]
    refine ⟨fun p sent hp => ?_, fun p hp => ?_, by simp⟩
    · simp only [Accounts.packet, if_pos hends, update_self] at hp
      cases hp
      rfl
    · simp only [Accounts.packet, if_neg hne] at hp
      cases hasked.symm.trans hp
  have hclosing' : (l.packet t hdr len conn.state).closing t = none := by
    simp only [Accounts.packet, if_neg hends]
    exact hclosing
  have hnostamp : ∀ key window, Duty.next .free (.onPacket hdr len)
      (some ⟨(conn.onPacket hdr).2, (conn.onPacket hdr).1.isClosed,
        accepts⟩) ≠ .stamped key window := by
    intro key window
    simp only [Duty.next]
    repeat' split
    all_goals simp
  by_cases hask : hdr.op = opCreditRequest ∧ hdr.type = typeStream ∧ conn.state ≠ .closed
  · have hopen := VsockConn.onPacket_request hask.1 hask.2.1 hask.2.2
    refine ⟨fun p sent hp => ?_, fun p _ => ?_, fun key window hs => ?_⟩
    · cases hclosing'.symm.trans hp
    · simp [Duty.next, hopen, hask.1]
    · exact absurd hs (hnostamp key window)
  · refine tracks_none hclosing' ?_ hnostamp
    simp only [Accounts.packet, if_neg hask]
    exact hasked

/-- The thread that moves: what is written down about it keeps up with what
it owes. -/
theorem tracks_step {a : Ans o} (h : Tracks l t d) (hbooks : Books (s, l))
    (hallow : Duty.allow d o) (hex : s.exec guestCid t c o = some (a, s')) :
    Tracks (Accounts.note t o a s l) t (Duty.next d o a) := by
  cases d with
  | answer hdr =>
    obtain rfl : o = .pushRx (hdr.reply opRst) := hallow
    have hasked : l.asked t = none := h.unasked (by simp)
    show Tracks (l.pushed t (hdr.reply opRst) a s.rx.length) t (.remove hdr)
    cases hc : l.closing t with
    | none =>
      simp only [Accounts.pushed, hc]
      exact tracks_none hc hasked (by simp)
    | some r =>
      obtain ⟨p, sent⟩ := r
      cases sent with
      | true => cases h.closing p true hc
      | false =>
        obtain rfl := Duty.answer.inj (h.closing p false hc)
        simp only [Accounts.pushed, hc, if_true]
        refine ⟨fun q sent hq => ?_, fun q hq => ?_, by simp⟩
        · simp only [update_self] at hq
          cases hq
          rfl
        · cases hasked.symm.trans hq
  | remove hdr =>
    obtain rfl : o = .forget hdr.guestKey := hallow
    have hasked : l.asked t = none := h.unasked (by simp)
    show Tracks (l.forgot t hdr.guestKey) t .free
    cases hc : l.closing t with
    | none =>
      simp only [Accounts.forgot, hc]
      exact tracks_free hc hasked
    | some r =>
      obtain ⟨p, sent⟩ := r
      cases sent with
      | false => cases h.closing p false hc
      | true =>
        obtain rfl := Duty.remove.inj (h.closing p true hc)
        simp only [Accounts.forgot, hc, if_true]
        exact tracks_free (update_self _ _ _) hasked
  | silent =>
    obtain rfl : o = .pushUsed := hallow
    exact tracks_free (h.clear (by simp) (by simp)) (update_self _ _ _)
  | stamped key window =>
    obtain ⟨hdr, rfl, -⟩ := hallow
    have hclosing : l.closing t = none := h.clear (by simp) (by simp)
    show Tracks (l.pushed t hdr a s.rx.length) t .free
    simp only [Accounts.pushed, hclosing]
    exact tracks_free hclosing (h.unasked (by simp))
  | free =>
    have hclosing : l.closing t = none := h.clear (by simp) (by simp)
    have hasked : l.asked t = none := h.unasked (by simp)
    have hfree := tracks_free hclosing hasked
    cases o with
    | onPacket hdr len =>
      obtain ⟨he, rfl, rfl⟩ | ⟨e, he, rfl, rfl⟩ := onPacket_cases hex
      all_goals simp only [Accounts.note, he]
      · exact hfree
      · exact tracks_packet h
    | ourCredit key =>
      cases hex
      refine ⟨fun p sent hp => ?_, fun p hp => ?_, fun key' window hs => ?_⟩
      · cases hclosing.symm.trans hp
      · cases hasked.symm.trans hp
      cases hs
      cases he : s.conns key with
      | none => simp [Accounts.note]
      | some e =>
        have hb := hbooks key e he
        simp only [Accounts.note, update_self, Option.map_some]
        refine ⟨?_, fun r hr => ?_⟩
        · rw [hb.window, hb.received]
        · cases hr
          rfl
    | pushRx hdr =>
      show Tracks (l.pushed t hdr a s.rx.length) t .free
      simp only [Accounts.pushed, hclosing]
      exact tracks_free hclosing hasked
    | forget key =>
      show Tracks (l.forgot t key) t .free
      simp only [Accounts.forgot, hclosing]
      exact hfree
    | queueHostData key id data =>
      show Tracks (if (s.conns key).isSome then _ else l) t .free
      split
      · exact hfree.same ⟨rfl, rfl, rfl⟩
      · exact hfree
    | pushUsed => exact tracks_free hclosing (update_self _ _ _)
    | acceptRequest hdr =>
      cases a with
      | none => exact hfree
      | some id => exact hfree.same ⟨rfl, rfl, rfl⟩
    | reserveHostConnect port =>
      cases a with
      | none => exact hfree
      | some r => exact hfree.same ⟨rfl, rfl, rfl⟩
    | _ => exact hfree

end Tracks

-- ==== ended connections

/-- A connection that a SHUTDOWN ended is out of the table, or a thread has
yet to remove it; the RST for it went to the queue, which took it or was
full, or a thread has yet to push it. -/
structure Ended (x : Shared × Accounts) (key : ConnKey) : Prop where
  removed : x.1.conns key = none ∨
    ∃ t hdr sent, x.2.closing t = some (hdr, sent) ∧ hdr.guestKey = key
  answered : (∃ t hdr, x.2.closing t = some (hdr, false) ∧ hdr.guestKey = key) ∨
    ∃ went n, x.2.reset key = some (went, n) ∧ (went = true ∨ rxPacketsMax ≤ n)

def EndedOnes (x : Shared × Accounts) : Prop :=
  ∀ key, x.2.ended key = true → Ended x key

section Ended

variable {guestCid : BitVec 64} {s s' : Shared} {l l' : Accounts} {t : Nat}
  {c : Choice} {d : Duty} {key : ConnKey}

/-- What is written down about the threads that are at `key` is kept. -/
theorem Ended.congr (h : Ended (s, l) key) (hconns : s.conns key = none → s'.conns key = none)
    (hclosing : ∀ u hdr sent, l.closing u = some (hdr, sent) →
      hdr.guestKey = key → l'.closing u = some (hdr, sent))
    (hreset : l'.reset key = l.reset key) : Ended (s', l') key where
  removed := by
    rcases h.removed with hgone | ⟨u, hdr, sent, hu, hkey⟩
    · exact .inl (hconns hgone)
    · exact .inr ⟨u, hdr, sent, hclosing u hdr sent hu hkey, hkey⟩
  answered := by
    rcases h.answered with ⟨u, hdr, hu, hkey⟩ | hout
    · exact .inl ⟨u, hdr, hclosing u hdr false hu hkey, hkey⟩
    · exact .inr (by rwa [← hreset] at hout)

theorem Ended.same (h : Ended (s, l) key) (hconns : s.conns key = none → s'.conns key = none)
    (hclosing : l'.closing = l.closing) (hreset : l'.reset = l.reset) :
    Ended (s', l') key :=
  h.congr hconns (fun _ _ _ hu _ => hclosing ▸ hu) (congrFun hreset key)

variable {k : ConnKey} {e e' : Entry}

theorem none_of_update {f : ConnKey → Option Entry} (he : f k = some e) (h : f key = none) :
    update f k (some e') key = none := by
  have hk : key ≠ k := by
    rintro rfl
    exact nomatch he.symm.trans h
  rwa [update_of_ne hk]

/-- The queue takes a header, or it is full. -/
theorem pushRx_control {went : Bool} (hex : s.exec guestCid t c (.pushRx hdr) = some (went, s')) :
    went = true ∨ rxPacketsMax ≤ s.rx.length := by
  simp only [Shared.exec, Shared.pushRx] at hex
  by_cases hfull : rxPacketsMax ≤ s.rx.length
  · exact .inr hfull
  · rw [if_neg hfull, if_neg (by simp [RxPacket.control])] at hex
    cases hex
    exact .inl rfl

variable (h : EndedOnes (s, l))
include h

theorem EndedOnes.same (hconns : s'.conns = s.conns) : EndedOnes (s', l) := fun key hkey =>
  (h key hkey).same (fun hn => by rw [hconns]; exact hn) rfl rfl

theorem EndedOnes.opened {credit : BitVec 32 × BitVec 32}
    (hconns : s'.conns = update s.conns k (some e)) :
    EndedOnes (s', l.opened k credit) := by
  intro key hkey
  have hne : key ≠ k := by
    rintro rfl
    simp [Accounts.opened] at hkey
  have hold : l.ended key = true := by
    simpa [Accounts.opened, hne] using hkey
  refine (h key hold).congr (fun hgone => ?_) (fun _ _ _ hu _ => hu) (update_of_ne hne _ _)
  rw [hconns, update_of_ne hne]
  exact hgone

theorem EndedOnes.packet {len : Nat}
    (hclear : l.closing t = none) (he : s.conns hdr.guestKey = some e)
    (hconns : s'.conns = update s.conns hdr.guestKey (some e')) :
    EndedOnes (s', l.packet t hdr len e.conn.state) := by
  intro key hkey
  have hgone (hn : s.conns key = none) : s'.conns key = none := by
    rw [hconns]
    exact none_of_update he hn
  by_cases hends : ends hdr e.conn.state = true
  · by_cases hk : key = hdr.guestKey
    · -- the packet that has just ended it
      subst hk
      have hnew : (l.packet t hdr len e.conn.state).closing t = some (hdr, false) := by
        simp [Accounts.packet, hends]
      exact ⟨.inr ⟨t, hdr, false, hnew, rfl⟩, .inl ⟨t, hdr, hnew, rfl⟩⟩
    · have hold : l.ended key = true := by
        simpa [Accounts.packet, hends, hk] using hkey
      refine (h key hold).congr hgone (fun u p sent hu _ => ?_) ?_
      · have hut : u ≠ t := by
          rintro rfl
          cases hclear.symm.trans hu
        simp only [Accounts.packet, if_pos hends, update_of_ne hut]
        exact hu
      · simp only [Accounts.packet, if_pos hends]
        exact update_of_ne hk _ _
  · have hold : l.ended key = true := by
      simpa [Accounts.packet, hends] using hkey
    refine (h key hold).same hgone ?_ ?_
    · simp only [Accounts.packet, if_neg hends]
    · simp only [Accounts.packet, if_neg hends]

theorem EndedOnes.pushed {went : Bool} (hconns : s'.conns = s.conns)
    (hcap : went = true ∨ rxPacketsMax ≤ s.rx.length) :
    EndedOnes (s', l.pushed t hdr went s.rx.length) := by
  have hkeep : EndedOnes (s', { l with stamp := update l.stamp t none }) :=
    fun key hkey => (h.same hconns key hkey).congr id
      (fun _ _ _ hu _ => hu) rfl
  unfold Accounts.pushed
  dsimp only
  split
  next p hclosing =>
    split
    next hrst =>
      intro key hkey
      have hold := h key hkey
      by_cases hk : key = p.guestKey
      · subst hk
        refine ⟨.inr ⟨t, p, true, update_self _ _ _, rfl⟩, .inr ?_⟩
        exact ⟨went, s.rx.length, update_self _ _ _, hcap⟩
      · refine hold.congr (fun hn => by rw [hconns]; exact hn)
          (fun u q sent hu hq => ?_) (update_of_ne hk _ _)
        have hut : u ≠ t := by
          rintro rfl
          obtain ⟨rfl, -⟩ := Prod.mk.inj (Option.some.inj (hclosing.symm.trans hu))
          exact hk hq.symm
        exact (update_of_ne hut _ _).trans hu
    · exact hkeep
  · exact hkeep

theorem EndedOnes.forgot : EndedOnes (s.forget k, l.forgot t k) := by
  have hnone (key : ConnKey) (hn : s.conns key = none) : (s.forget k).conns key = none := by
    rcases s.forget_cases k with ⟨-, hf⟩ | hf
    · rw [hf]
      exact hn
    · rw [hf]
      by_cases hk : key = k
      · subst hk
        exact update_self _ _ _
      · exact (update_of_ne hk _ _).trans hn
  have hkeep : EndedOnes (s.forget k, l) := fun key hkey =>
    (h key hkey).same (hnone key) rfl rfl
  unfold Accounts.forgot
  split
  next p hclosing =>
    split
    next hkp =>
      intro key hkey
      have hold := h key hkey
      by_cases hk : key = k
      · subst hk
        refine ⟨.inl (s.conns_forget key), ?_⟩
        rcases hold.answered with ⟨u, q, hu, hq⟩ | hout
        · have hut : u ≠ t := by
            rintro rfl
            exact nomatch hclosing.symm.trans hu
          exact .inl ⟨u, q, (update_of_ne hut _ _).trans hu, hq⟩
        · exact .inr hout
      · refine hold.congr (hnone key) (fun u q sent hu hq => ?_) rfl
        have hut : u ≠ t := by
          rintro rfl
          obtain ⟨rfl, -⟩ := Prod.mk.inj (Option.some.inj (hclosing.symm.trans hu))
          exact hk (hq.symm.trans hkp.symm)
        exact (update_of_ne hut _ _).trans hu
    · exact hkeep
  · exact hkeep

theorem endedOnes_step {a : Ans o} (htracks : Tracks l t d)
    (hallow : Duty.allow d o) (hex : s.exec guestCid t c o = some (a, s')) :
    EndedOnes (s', Accounts.note t o a s l) := by
  have hkeep (ho : ¬ Tabled o) (key : ConnKey) (hn : s.conns key = none) : s'.conns key = none := by
    rw [((framed_exec hex).table ho).1]
    exact hn
  cases o with
  | onPacket hdr len =>
    have hclear : l.closing t = none := by
      refine htracks.clear (fun p hd => ?_) fun p hd => ?_
      all_goals
        subst hd
        exact nomatch hallow
    obtain ⟨he, rfl, rfl⟩ | ⟨e, he, rfl, rfl⟩ := onPacket_cases hex
    all_goals simp only [Accounts.note, he]
    · exact h
    · exact h.packet hclear he rfl
  | pushRx hdr =>
    exact h.pushed ((framed_exec (o := .pushRx hdr) hex).table fun hf => hf).1 (pushRx_control hex)
  | forget k =>
    cases hex
    exact h.forgot
  | acceptRequest hdr =>
    obtain ⟨rfl, rfl⟩ | ⟨-, -, rfl, rfl⟩ := acceptRequest_cases hex
    · exact h
    · exact h.opened rfl
  | reserveHostConnect port =>
    obtain ⟨n, ⟨rfl, rfl⟩ | ⟨k, -, -, rfl, rfl⟩⟩ :=
      reserveHostConnect_cases hex
    · exact h.same rfl
    · exact h.opened rfl
  | queueHostData k id data =>
    have hnote : (Accounts.note t (.queueHostData k id data) a s l).closing = l.closing ∧
        (Accounts.note t (.queueHostData k id data) a s l).reset = l.reset ∧
        (Accounts.note t (.queueHostData k id data) a s l).ended = l.ended := by
      unfold Accounts.note
      simp only []
      split <;> exact ⟨rfl, rfl, rfl⟩
    intro key hkey
    rw [hnote.2.2] at hkey
    refine (h key hkey).same (fun hn => ?_) hnote.1 hnote.2.1
    obtain ⟨-, -, rfl⟩ | ⟨-, rfl⟩ | ⟨e, take, he, -, rfl⟩ :=
      queueHostData_cases hex
    · exact hn
    · exact hn
    · exact none_of_update he hn
  | closeLocalSend k =>
    obtain rfl | ⟨e, conn, he, rfl⟩ := closeLocalSend_cases hex
    · exact h
    · exact fun key hkey => (h key hkey).same (none_of_update he) rfl rfl
  | _ =>
    exact fun key hkey => (h key hkey).same (hkeep (fun hf => hf) key) rfl rfl

end Ended

-- ==== the outline

structure Settled (x : Shared × Accounts) (gh : Nat → Duty) : Prop where
  books : Books x
  capped : Capped x.1
  ended : EndedOnes x
  tracks : ∀ t, Tracks x.2 t (gh t)

section Outline

variable {guestCid : BitVec 64}

/-- What a packet gets is what the discipline is ready for. -/
theorem duty_can {s s' : Shared} {t : Nat} {c : Choice} {a : Ans o} {d : Duty}
    (hex : s.exec guestCid t c o = some (a, s')) : Duty.can d o a := by
  cases o with
  | onPacket hdr len =>
    obtain ⟨-, rfl, rfl⟩ | ⟨e, -, rfl, rfl⟩ := onPacket_cases hex
    · exact trivial
    · exact e.conn.onPacket_reply hdr
  | _ => exact trivial

theorem settled_step {x x' : Shared × Accounts} {gh : Nat → Duty} {t : Nat}
    {c : Choice} {a : Ans o} (h : Settled x gh) (hallow : Duty.allow (gh t) o)
    (hex : (audited guestCid).exec t c o x = some (a, x')) :
    Duty.can (gh t) o a ∧ Settled x' (update gh t (Duty.next (gh t) o a)) := by
  obtain ⟨s', l'⟩ := x'
  obtain ⟨hplain, rfl⟩ := System.watch_exec_eq_some.mp hex
  refine ⟨duty_can (c := c) hplain, ?_, ?_, ?_, fun u => ?_⟩
  · exact books_step (c := c) h.books hplain
  · exact capped_step (c := c) h.capped hplain
  · exact endedOnes_step (c := c) h.ended (h.tracks t) hallow hplain
  · by_cases hu : u = t
    · subst hu
      rw [update_self]
      exact tracks_step (c := c) (h.tracks u) h.books hallow hplain
    · rw [update_of_ne hu]
      exact (h.tracks u).same (sameLines_note a x.1 x.2 hu)

def settledOutline (guestCid : BitVec 64) : Outline (audited guestCid) System.anyStep Duty where
  toDiscipline := Duty.rules
  post _ := False
  inv := Settled
  op_step _ _ h hallow hex := settled_step h hallow hex
  env_step := by
    intro p p' e gh _ h hthr henv
    obtain ⟨q, hq, rfl⟩ := System.watch_env_eq_some.mp henv
    cases e with
    | send id bytes =>
      cases hq
      exact ⟨gh, ⟨h.books, h.capped, h.ended.same rfl, h.tracks⟩, hthr⟩

theorem settled_start (guestCid : BitVec 64) (space : Mem.AddressSpace) :
    Settled (startAudited guestCid space).sh fun _ => .free where
  books := books_start guestCid space
  capped := ⟨∅, fun k => by simp [startAudited, start, Pool.beside], rfl, Nat.zero_le _⟩
  ended _ hkey := nomatch hkey
  tracks _ := tracks_free rfl rfl

theorem settled_reach {space : Mem.AddressSpace}
    (h : (audited guestCid).Reach System.anyStep (startAudited guestCid space)
      p) : ∃ gh, (settledOutline guestCid).Holds p gh :=
  (settledOutline guestCid).sound ⟨settled_start guestCid space, fun _ => Duty.keeps_thread⟩ h

end Outline

-- ==== unanswered shutdowns

/-- The guest opens a connection with its kick, which goes on. -/
def requested : List (Act Choice Move) :=
  steps 0 4 (onJob .kickTx) ++ steps 0 11 (onHdr opRequest)

/-- The guest's next packet, with its payload. -/
def onPacketOf (hdr : VsockHdr) (payload : List UInt8) : Choice :=
  { (default : Choice) with packet := some (hdr, payload), flag := true }

/-- A SHUTDOWN of the guest. -/
def onShutdown (flags : BitVec 32) : Choice :=
  onPacketOf { guestHdr opShutdown with flags := flags } []

/-- One round of `drainTx`. -/
def drainRound (guestCid : BitVec 64) (used : Bool) : Prog (Bool ⊕ Bool) := do
  match ← step .nextPacket with
  | none => pure (.inr used)
  | some (hdr, payload) =>
    handleTxChain guestCid hdr payload
    step .pushUsed
    pure (.inl true)

/-- A packet of the guest for a port pair without a connection. -/
def strayHdr : VsockHdr := { guestHdr opRw with srcPort := 11 }

/-- Thread 0 is between two packets of a kick, one connection is open, and
`n` packets are queued, no RST for the connection among them. -/
structure Flooded (n : Nat) (p : Pool Op Ans (Shared × Accounts)) : Prop where
  reach : (audited 3).Reach System.anyStep (startAudited 3 oneRam) p
  drains : ∃ used k, p.thr 0 = .iter (drainRound 3) used k
  stray : p.sh.1.conns strayHdr.guestKey = none
  held : (p.sh.1.conns ⟨10, 5000⟩).isSome
  quiet : p.sh.2.closing 0 = none
  unshut : p.sh.2.shut ⟨10, 5000⟩ = 0
  queued : p.sh.1.rx.length = n
  unanswered : ∀ q ∈ p.sh.1.rx, q.hdr.op = opRst → q.hdr.hostKey ≠ ⟨10, 5000⟩

theorem flooded_requested : ∃ p, Flooded 1 p := by
  have hrun : (audited 3).runAll System.anyStep
      (steps 0 4 (onJob .kickTx) ++ steps 0 10 (onHdr opRequest))
      (startAudited 3 oneRam) = some _ := rfl
  refine ⟨_, System.reach_of_runAll .init hrun, ⟨true, _, rfl⟩, rfl, rfl, rfl, rfl, rfl, ?_⟩
  decide

/-- A stray packet is answered with an RST, which is queued. -/
theorem Flooded.more {n : Nat} (h : Flooded n p) (hn : n < rxPacketsMax) :
    ∃ p', Flooded (n + 1) p' := by
  obtain ⟨used, k, hthr⟩ := h.drains
  have hroom : ¬ rxPacketsMax ≤ p.sh.1.rx.length := by
    rw [h.queued]
    omega
  have hmiss : p.sh.1.onPacket strayHdr 0 = (none, p.sh.1) := by
    unfold Shared.onPacket
    rw [h.stray]
  have hpush : p.sh.1.pushRx (.control (strayHdr.reply opRst)) = (true, { p.sh.1 with
        rx := p.sh.1.rx ++ [.control (strayHdr.reply opRst)] }) := by
    unfold Shared.pushRx
    rw [if_neg hroom]
    rfl
  have hask : (audited 3).exec 0 default (.onPacket strayHdr 0) p.sh = some (none, p.sh) := by
    refine System.watch_exec_eq_some.mpr ⟨congrArg some hmiss, ?_⟩
    simp only [Accounts.note, h.stray]
  have hrst : (audited 3).exec 0 default (.pushRx (strayHdr.reply opRst)) p.sh =
      some (true, ({ p.sh.1 with
        rx := p.sh.1.rx ++ [RxPacket.control (strayHdr.reply opRst)] }.call 0,
        { p.sh.2 with stamp := update p.sh.2.stamp 0 none })) := by
    refine System.watch_exec_eq_some.mpr ⟨?_, ?_⟩
    · simp only [machine, Shared.exec, hpush]
    · show _ = p.sh.2.pushed 0 _ true _
      simp only [Accounts.pushed, h.quiet]
  have h₀ := h.reach
  rw [show p = ⟨p.sh, update p.thr 0 (.iter (drainRound 3) used k)⟩ by
    rw [← hthr, update_eq_self]] at h₀
  have h₁ := h₀.round default rfl
  have h₂ := h₁.op (o := .nextPacket) (c := onPacketOf strayHdr []) rfl rfl
  have h₃ := h₂.op (o := .onPacket strayHdr 0) (c := default) rfl hask
  have h₄ := h₃.op (o := .pushRx (strayHdr.reply opRst)) (c := default) rfl hrst
  have h₅ : (audited 3).Reach System.anyStep (startAudited 3 oneRam) ⟨({ p.sh.1 with
        rx := p.sh.1.rx ++ [RxPacket.control (strayHdr.reply opRst)] }.call 0,
        { p.sh.2 with
          asked := update p.sh.2.asked 0 none
          stamp := update p.sh.2.stamp 0 none }),
        update p.thr 0 (.iter (drainRound 3) true k)⟩ :=
    h₄.op (o := .pushUsed) (c := default) rfl rfl
  refine ⟨_, h₅, ⟨true, k, update_self 0 _ p.thr⟩, h.stray, h.held, h.quiet, h.unshut, ?_, ?_⟩
  · show (p.sh.1.rx ++ [_]).length = n + 1
    rw [List.length_append, h.queued]
    rfl
  · intro q hq
    rcases List.mem_append.mp hq with hq | hq
    · exact h.unanswered q hq
    · rw [List.mem_singleton.mp hq]
      decide

theorem flooded_full (m : Nat) (hm : 1 + m ≤ rxPacketsMax) : ∃ p, Flooded (1 + m) p := by
  induction m with
  | zero => exact flooded_requested
  | succ m ih =>
    obtain ⟨p, hp⟩ := ih (by omega)
    exact hp.more (by omega)

def bothHdr : VsockHdr := { guestHdr opShutdown with flags := shutdownBoth }

/-- The guest leaves the queue full and shuts its connection down. The
connection is removed, and the RST for it is dropped. -/
theorem full_queue_drops_rst : ∃ p, (audited 3).Reach System.anyStep (startAudited 3 oneRam) p ∧
      p.sh.2.shut ⟨10, 5000⟩ = shutdownBoth ∧
      p.sh.1.conns ⟨10, 5000⟩ = none ∧ p.sh.2.closing 0 = none ∧
      ∀ q ∈ p.sh.1.rx, q.hdr.op = opRst → q.hdr.hostKey ≠ ⟨10, 5000⟩ := by
  obtain ⟨p, h⟩ := flooded_full (rxPacketsMax - 1) (by decide)
  obtain ⟨used, k, hthr⟩ := h.drains
  obtain ⟨e, he⟩ := Option.isSome_iff_exists.mp h.held
  have hfull : rxPacketsMax ≤ p.sh.1.rx.length := by
    rw [h.queued]
    decide
  have h₀ := h.reach
  rw [show p = ⟨p.sh, update p.thr 0 (.iter (drainRound 3) used k)⟩ by
    rw [← hthr, update_eq_self]] at h₀
  -- the packet closes the connection
  obtain ⟨r, s, hs, hrx⟩ : ∃ r s, p.sh.1.onPacket bothHdr 0 =
      (some ⟨some opRst, true, r⟩, s) ∧ s.rx = p.sh.1.rx := by
    have he' : p.sh.1.conns bothHdr.guestKey = some e := he
    unfold Shared.onPacket
    rw [he']
    exact ⟨_, _, rfl, rfl⟩
  have hclose : (audited 3).exec 0 default (.onPacket bothHdr 0) p.sh =
      some (some ⟨some opRst, true, r⟩, (s, p.sh.2.packet 0 bothHdr 0 e.conn.state)) := by
    refine System.watch_exec_eq_some.mpr ⟨congrArg some hs, ?_⟩
    have he' : p.sh.1.conns bothHdr.guestKey = some e := he
    simp only [Accounts.note, he']
  have hpush : s.pushRx (.control (bothHdr.reply opRst)) = (false, s) := by
    unfold Shared.pushRx
    rw [hrx, if_pos hfull]
  have hdrop : (audited 3).exec 0 default (.pushRx (bothHdr.reply opRst))
      (s, p.sh.2.packet 0 bothHdr 0 e.conn.state) =
      some (false, (s.call 0, (p.sh.2.packet 0 bothHdr 0 e.conn.state).pushed 0
        (bothHdr.reply opRst) false s.rx.length)) := by
    refine System.watch_exec_eq_some.mpr ⟨?_, rfl⟩
    simp only [machine, Shared.exec, hpush]
  have h₁ := h₀.round default rfl
  have h₂ := h₁.op (o := .nextPacket) (c := onShutdown shutdownBoth) rfl rfl
  have h₃ := h₂.op (o := .onPacket bothHdr 0) (c := default) rfl hclose
  have h₄ := h₃.op (o := .pushRx (bothHdr.reply opRst)) (c := default) rfl hdrop
  have h₅ := h₄.op (o := .forget ⟨10, 5000⟩) (c := default) rfl rfl
  have h₆ := h₅.op (o := .dropSocket ⟨10, 5000⟩) (c := default) rfl rfl
  refine ⟨_, h₆, ?_, (s.call 0).conns_forget ⟨10, 5000⟩, rfl, ?_⟩
  · show p.sh.2.shut ⟨10, 5000⟩ ||| shutdownBoth = shutdownBoth
    rw [h.unshut]
    rfl
  · have hsame : ((s.call 0).forget ⟨10, 5000⟩).rx = p.sh.1.rx := by
      rcases (s.call 0).forget_cases ⟨10, 5000⟩ with ⟨-, hf⟩ | hf
      all_goals
        rw [hf]
        exact hrx
    rw [hsame]
    exact h.unanswered

-- ==== the shutdown

/-- The table never holds more than its cap. A connection that a SHUTDOWN
ended is removed, and an RST for it is pushed, each by now or by a thread
whose next operation it is. -/
theorem shutdown_ends_connection {guestCid : BitVec 64}
    {space : Mem.AddressSpace} {p : Pool Op Ans (Shared × Accounts)}
    (h : (audited guestCid).Reach System.anyStep (startAudited guestCid space)
      p) :
    (∀ keys : List ConnKey, keys.Nodup →
      (∀ k ∈ keys, (p.sh.1.conns k).isSome) → keys.length ≤ maxConns) ∧
    (∀ key, p.sh.2.ended key = true → Ended p.sh key) ∧
    ∀ t hdr sent o k, p.sh.2.closing t = some (hdr, sent) →
      p.thr t = .op o k →
      o = if sent then .forget hdr.guestKey else .pushRx (hdr.reply opRst) := by
  obtain ⟨gh, hholds⟩ := settled_reach h
  have hinv : Settled p.sh gh := hholds.1
  refine ⟨fun keys hnodup hin => ?_, hinv.ended, ?_⟩
  · obtain ⟨table, htable, hcard, hcap⟩ := hinv.capped
    have hsub : keys.toFinset ⊆ table := fun k hk =>
      (htable k).mpr (hin k (List.mem_toFinset.mp hk))
    calc keys.length = keys.toFinset.card :=
          (List.toFinset_card_of_nodup hnodup).symm
      _ ≤ table.card := Finset.card_le_card hsub
      _ ≤ maxConns := hcard ▸ hcap
  · intro t hdr sent o k hclosing hthr
    have hallow : Duty.allow (gh t) o := hholds.allow hthr
    rw [(hinv.tracks t).closing hdr sent hclosing] at hallow
    cases sent with
    | false => exact hallow
    | true => exact hallow

theorem shutdown_ends_connection_both :
    ∃ p, (audited 3).Reach System.anyStep (startAudited 3 oneRam) p ∧
      p.sh.2.shut ⟨10, 5000⟩ = shutdownBoth ∧
      p.sh.2.ended ⟨10, 5000⟩ = true ∧ p.sh.1.conns ⟨10, 5000⟩ = none ∧
      Ended p.sh ⟨10, 5000⟩ := by
  obtain ⟨p, hreach, hshut, hended, hgone⟩ :
      ∃ p, (audited 3).Reach System.anyStep (startAudited 3 oneRam) p ∧
        p.sh.2.shut ⟨10, 5000⟩ = shutdownBoth ∧
        p.sh.2.ended ⟨10, 5000⟩ = true ∧ p.sh.1.conns ⟨10, 5000⟩ = none :=
    System.exists_reach (requested ++ steps 0 6 (onShutdown shutdownBoth))
      (by decide)
  exact ⟨p, hreach, hshut, hended, hgone,
    (shutdown_ends_connection hreach).2.1 _ hended⟩

/-- Two guests that shut both directions and get no RST: the one that does it
in two steps, whose connection stays in the table, and the one that has left
the queue full. -/
theorem shutdown_unanswered :
    (∃ p, (audited 3).Reach System.anyStep (startAudited 3 oneRam) p ∧
      p.sh.2.shut ⟨10, 5000⟩ = shutdownBoth ∧
      (p.sh.1.conns ⟨10, 5000⟩).isSome ∧ p.sh.1.vcpus = [] ∧
      ∀ q ∈ p.sh.1.rx, q.hdr.op ≠ opRst) ∧
    ∃ p, (audited 3).Reach System.anyStep (startAudited 3 oneRam) p ∧
      p.sh.2.shut ⟨10, 5000⟩ = shutdownBoth ∧
      p.sh.1.conns ⟨10, 5000⟩ = none ∧ p.sh.2.closing 0 = none ∧
      ∀ q ∈ p.sh.1.rx, q.hdr.op = opRst → q.hdr.hostKey ≠ ⟨10, 5000⟩ := by
  refine ⟨?_, full_queue_drops_rst⟩
  -- first RCV and then SEND, and the callback is over
  refine System.exists_reach (requested ++ steps 0 4 (onShutdown shutdownRcv) ++
    steps 0 4 (onShutdown shutdownSend) ++ steps 0 12 default) ?_
  decide

-- ==== the credit request

/-- A thread that has applied a CREDIT_REQUEST returns its chain and queues
nothing for it. A header carries no window, or it is the REQUEST or RESPONSE
of a connection and carries its window as the same thread has just read it; a
payload packet carries that of its connection as it is. -/
theorem credit_request_unanswered {guestCid : BitVec 64}
    {space : Mem.AddressSpace} {p : Pool Op Ans (Shared × Accounts)}
    (h : (audited guestCid).Reach System.anyStep (startAudited guestCid space)
      p) :
    (∀ t hdr o k, p.sh.2.asked t = some hdr → p.thr t = .op o k →
      o = .pushUsed) ∧
    (∀ t hdr k, p.thr t = .op (.pushRx hdr) k →
      hdr.bufAlloc = 0 ∧ hdr.fwdCnt = 0 ∨
      (hdr.op = opRequest ∨ hdr.op = opResponse) ∧
      ∃ n, p.sh.2.stamp t = some (hdr.hostKey, n) ∧
        hdr.bufAlloc = defaultBufAlloc ∧ hdr.fwdCnt = BitVec.ofNat 32 n) ∧
    ∀ key id data q, ((p.sh.1.queueHostData guestCid key id data).2).rx =
        p.sh.1.rx ++ [q] →
      q.hdr.hostKey = key ∧ q.hdr.bufAlloc = defaultBufAlloc ∧
        q.hdr.fwdCnt = BitVec.ofNat 32 (p.sh.2.received key) := by
  obtain ⟨gh, hholds⟩ := settled_reach h
  have hinv : Settled p.sh gh := hholds.1
  refine ⟨fun t hdr o k hasked hthr => ?_, fun t hdr k hthr => ?_,
    fun key id data q hq => ?_⟩
  · have hallow : Duty.allow (gh t) o := hholds.allow hthr
    rw [(hinv.tracks t).asked hdr hasked] at hallow
    exact hallow
  · have hallow : Duty.allow (gh t) (.pushRx hdr) := hholds.allow hthr
    cases hd : gh t with
    | free =>
      rw [hd] at hallow
      exact .inl hallow
    | answer req =>
      rw [hd] at hallow
      cases hallow
      exact .inl ⟨rfl, rfl⟩
    | stamped key window =>
      rw [hd] at hallow
      obtain ⟨hdr', heq, hkey, hop, hwindow⟩ := hallow
      cases heq
      obtain ⟨hread, hat⟩ := (hinv.tracks t).stamped key window hd
      cases hs : p.sh.2.stamp t with
      | none =>
        rw [hs] at hread
        rw [hread] at hwindow
        exact .inl (Prod.mk.inj hwindow)
      | some r =>
        obtain ⟨k', n⟩ := r
        obtain rfl : k' = key := hat _ hs
        rw [hs] at hread
        rw [hread] at hwindow
        exact .inr ⟨hop, n, by rw [hkey], Prod.mk.inj hwindow⟩
    | silent | remove _ =>
      rw [hd] at hallow
      exact nomatch hallow
  · have hne : p.sh.1.rx ≠ p.sh.1.rx ++ [q] := by simp
    rcases p.sh.1.queueHostData_cases guestCid key id data with
      ⟨-, hcase⟩ | hcase | ⟨e, take, he, hcase⟩
    · rw [hcase] at hq
      exact absurd hq hne
    · rw [hcase] at hq
      exact absurd hq hne
    · rw [hcase] at hq
      obtain rfl : _ = q := by simpa [Shared.afterHostPacket] using hq
      have hb := hinv.books key e he
      exact ⟨rfl, hb.window, hb.received⟩

/-- The guest gets the RESPONSE, with a window of 256 KiB, and sends as much
as that. Then it asks for credit. -/
def starved : List (Act Choice Move) :=
  requested ++ steps 0 13 default ++ steps 0 5 { (default : Choice) with
      job := .kickRx, chains := [⟨0, [.writable 0x1000 100]⟩] } ++
    steps 0 19 default ++ steps 0 3 (onJob .kickTx) ++
    steps 0 96 (onPacketOf (guestHdr opRw) (List.replicate 16384 0)) ++
    steps 0 2 (onPacketOf (guestHdr opCreditRequest) [])

theorem starved_reach :
    ∃ p, (audited 3).Reach System.anyStep (startAudited 3 oneRam) p ∧
      p.sh.2.asked 0 = some (guestHdr opCreditRequest) ∧
      p.sh.1.rx = [] ∧ p.sh.2.received ⟨10, 5000⟩ = defaultBufAlloc.toNat ∧
      (p.sh.1.conns ⟨10, 5000⟩).map (fun e =>
        (e.conn.state, e.conn.bufAlloc, e.conn.fwdCnt)) =
        some (.established, defaultBufAlloc, defaultBufAlloc) ∧
      ∃ p', (audited 3).runAll System.anyStep (steps 0 11 default) p = some p' ∧
        p'.sh.1.vcpus = [] ∧ p'.sh.1.rx = [] :=
  System.exists_reach starved (by decide +kernel)

theorem credit_request_unanswered_starved :
    ∃ p, (audited 3).Reach System.anyStep (startAudited 3 oneRam) p ∧
      p.sh.2.asked 0 = some (guestHdr opCreditRequest) ∧
      ∀ o k, p.thr 0 = .op o k → o = .pushUsed := by
  obtain ⟨p, hreach, hasked, -⟩ := starved_reach
  exact ⟨p, hreach, hasked, fun o k hthr =>
    (credit_request_unanswered hreach).1 0 _ o k hasked hthr⟩

/-- The connection is live, the guest has used up the window it was given,
everything it sent was taken in, and it has asked for credit. The callback
ends, and nothing is queued. -/
theorem credit_request_starves :
    ∃ p p', (audited 3).Reach System.anyStep (startAudited 3 oneRam) p ∧
      p.sh.2.asked 0 = some (guestHdr opCreditRequest) ∧
      p.sh.1.rx = [] ∧ p.sh.2.received ⟨10, 5000⟩ = defaultBufAlloc.toNat ∧
      (p.sh.1.conns ⟨10, 5000⟩).map (fun e =>
        (e.conn.state, e.conn.bufAlloc, e.conn.fwdCnt)) =
        some (.established, defaultBufAlloc, defaultBufAlloc) ∧
      (audited 3).runAll System.anyStep (steps 0 11 default) p = some p' ∧
      p'.sh.1.vcpus = [] ∧ p'.sh.1.rx = [] := by
  obtain ⟨p, hreach, hasked, hrx, hsent, hconn, p', hend⟩ := starved_reach
  exact ⟨p, p', hreach, hasked, hrx, hsent, hconn, hend⟩

end Rshyve.Virtio.Vsock
