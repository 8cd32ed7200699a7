/-
# Flow control towards the guest

The device never sends past the window the guest announced, whatever the
guest announces. The counters of a connection are the accounts of its past
in 32 bits (`Booked`, kept by every step: `books_step`). One send is then a
fact about one connection (`outstanding_recordSent`): the window is what the
announced buffer leaves after the bytes in flight, and the difference of two
wrapped counters does not wrap again below it.
-/
import Rshyve.Virtio.Proofs.VsockSteps
import Rshyve.Virtio.Vsock.Accounts

namespace Rshyve.Virtio.Vsock

open Conc Function
open Accounts (forgot note packet)

-- ==== one connection

namespace VsockConn

/-- A packet of the guest sets the guest's credit and leaves the host's
counters alone. -/
theorem onPacket_counts (c : VsockConn) (h : VsockHdr) :
    ((c.onPacket h).1.peerBufAlloc = h.bufAlloc ∧ (c.onPacket h).1.peerFwdCnt = h.fwdCnt) ∧
    (c.onPacket h).1.txCnt = c.txCnt ∧
    (c.onPacket h).1.bufAlloc = c.bufAlloc ∧
    (c.onPacket h).1.fwdCnt = c.fwdCnt := by
  unfold onPacket absorbCredit
  simp only []
  repeat' split
  all_goals exact ⟨⟨rfl, rfl⟩, rfl, rfl, rfl⟩

/-- The window is never larger than the announced buffer. -/
theorem peerCredit_le (c : VsockConn) : c.peerCredit ≤ c.peerBufAlloc.toNat := Nat.sub_le _ _

/-- After a send inside the window, what is in flight fits the buffer. -/
theorem inFlight_recordSent_le (c : VsockConn) {n : Nat} (hpos : 0 < n) (hn : n ≤ c.peerCredit) :
    ((c.recordSent n).txCnt - c.peerFwdCnt).toNat ≤ c.peerBufAlloc.toNat := by
  have hbuf := c.peerBufAlloc.isLt
  have htx := c.txCnt.isLt
  have hfwd := c.peerFwdCnt.isLt
  unfold peerCredit at hn
  rw [BitVec.toNat_sub] at hn
  simp only [recordSent, BitVec.toNat_sub, BitVec.toNat_add, BitVec.toNat_ofNat]
  omega

end VsockConn

-- ==== the accounts

/-- A connection's counters are its accounts. -/
structure Booked (c : VsockConn) (l : Accounts) (key : ConnKey) : Prop where
  sent : c.txCnt = BitVec.ofNat 32 (l.sent key)
  credit : (c.peerBufAlloc, c.peerFwdCnt) = l.credit key
  window : c.bufAlloc = defaultBufAlloc
  received : c.fwdCnt = BitVec.ofNat 32 (l.received key)

/-- Every connection in the table is accounted for. -/
def Books (x : Shared × Accounts) : Prop :=
  ∀ key e, x.1.conns key = some e → Booked e.conn x.2 key

/-- Two accounts that agree on a connection's counters. -/
structure SameBook (l l' : Accounts) (key : ConnKey) : Prop where
  sent : l'.sent key = l.sent key
  credit : l'.credit key = l.credit key
  received : l'.received key = l.received key

theorem Booked.same {c : VsockConn} {l l' : Accounts} {key : ConnKey}
    (h : Booked c l key) (hsame : SameBook l l' key) : Booked c l' key where
  sent := hsame.sent ▸ h.sent
  credit := hsame.credit ▸ h.credit
  window := h.window
  received := hsame.received ▸ h.received

section Steps

variable {guestCid : BitVec 64} {s s' : Shared} {l l' : Accounts} {t : Nat} {c : Choice}

/-- The steps that leave the table alone leave the counters alone. -/
theorem sameBook_note {o : Op} (a : Ans o) (s : Shared) (l : Accounts)
    (ho : ¬ Tabled o) (key : ConnKey) :
    SameBook l (note t o a s l) key := by
  cases o with
  | pushRx hdr =>
    show SameBook l (l.pushed t hdr a s.rx.length) key
    unfold Accounts.pushed
    dsimp only
    repeat' split
    all_goals exact ⟨rfl, rfl, rfl⟩
  | _ => first
    | exact absurd trivial ho
    | exact ⟨rfl, rfl, rfl⟩

theorem Books.congr (h : Books (s, l)) (hconns : s'.conns = s.conns)
    (hsame : ∀ key, SameBook l l' key) : Books (s', l') := by
  intro key e he
  dsimp only at he
  rw [hconns] at he
  exact (h key e he).same (hsame key)

variable {key : ConnKey}

/-- One connection's entry moves, and so may its account. -/
theorem Books.update {e : Entry} (h : Books (s, l))
    (hconns : s'.conns = update s.conns key (some e))
    (he : Booked e.conn l' key)
    (hother : ∀ k, k ≠ key → SameBook l l' k) : Books (s', l') := by
  intro k e' hk
  dsimp only at hk
  rw [hconns] at hk
  by_cases hkey : k = key
  · subst hkey
    rw [update_self] at hk
    cases hk
    exact he
  · rw [update_of_ne hkey] at hk
    exact (h k e' hk).same (hother k hkey)

theorem sameBook_opened {k : ConnKey} {credit : BitVec 32 × BitVec 32}
    (hk : k ≠ key) : SameBook l (l.opened key credit) k :=
  ⟨update_of_ne hk _ _, update_of_ne hk _ _, update_of_ne hk _ _⟩

theorem booked_opened {conn : VsockConn}
    (htx : conn.txCnt = 0) (hwin : conn.bufAlloc = defaultBufAlloc)
    (hfwd : conn.fwdCnt = 0) :
    Booked conn (l.opened key (conn.peerBufAlloc, conn.peerFwdCnt)) key := by
  refine ⟨?_, ?_, hwin, ?_⟩
  · simp [Accounts.opened, htx]
  · simp [Accounts.opened]
  · simp [Accounts.opened, hfwd]

theorem sameBook_packet {hdr : VsockHdr} {len : Nat} {state : ConnState}
    {k : ConnKey} (hk : k ≠ hdr.guestKey) :
    SameBook l (l.packet t hdr len state) k := by
  refine ⟨rfl, update_of_ne hk _ _, ?_⟩
  unfold packet
  simp only []
  split
  · exact update_of_ne hk _ _
  · rfl

/-- A packet of the guest, applied to a connection that is accounted for. -/
theorem booked_packet {hdr : VsockHdr} {len : Nat} {e : Entry} (h : Booked e.conn l hdr.guestKey) :
    Booked (if hdr.op = opRw then (e.conn.onPacket hdr).1.recordForwarded len
      else (e.conn.onPacket hdr).1)
      (l.packet t hdr len e.conn.state) hdr.guestKey := by
  obtain ⟨⟨hsize, hcons⟩, htx, hwin, hfwd⟩ := e.conn.onPacket_counts hdr
  have hcredit : (l.packet t hdr len e.conn.state).credit hdr.guestKey =
      (hdr.bufAlloc, hdr.fwdCnt) := update_self _ _ _
  by_cases hrw : hdr.op = opRw
  · rw [if_pos hrw]
    refine ⟨htx.trans h.sent, ?_, hwin.trans h.window, ?_⟩
    · rw [hcredit]
      exact Prod.ext hsize hcons
    · show (e.conn.onPacket hdr).1.fwdCnt + BitVec.ofNat 32 len = _
      rw [hfwd, h.received]
      simp [packet, hrw, BitVec.ofNat_add]
  · rw [if_neg hrw]
    refine ⟨htx.trans h.sent, ?_, hwin.trans h.window, ?_⟩
    · rw [hcredit]
      exact Prod.ext hsize hcons
    · rw [hfwd, h.received]
      simp [packet, hrw]

theorem books_queueHostData {id : Nat} {data rest : List UInt8} (h : Books (s, l))
    (hex : s.exec guestCid t c (.queueHostData key id data) = some (rest, s')) :
    Books (s', note t (.queueHostData key id data) rest s l) := by
  simp only [Shared.exec] at hex
  cases he : s.conns key with
  | none =>
    simp only [Shared.queueHostData, he] at hex
    cases hex
    refine h.congr rfl fun k => ?_
    simp only [note, he]
    exact ⟨rfl, rfl, rfl⟩
  | some e =>
    have hb := h key e he
    simp only [note, he]
    rcases Shared.queueHostData_found he id data with
      hq | ⟨take, hpos, hcredit, hlen, hq⟩
    all_goals
      rw [hq] at hex
      cases hex
    · refine h.congr rfl fun k => ⟨?_, rfl, rfl⟩
      simp
    · have htake : data.length - (data.drop take).length = take := by
        rw [List.length_drop]
        omega
      rw [htake]
      refine h.update rfl ⟨?_, hb.credit, hb.window, hb.received⟩ ?_
      · show e.conn.txCnt + BitVec.ofNat 32 take = _
        rw [hb.sent]
        simp [BitVec.ofNat_add]
      · exact fun k hk => ⟨update_of_ne hk _ _, rfl, rfl⟩

theorem books_step {o : Op} {a : Ans o} (h : Books (s, l))
    (hex : s.exec guestCid t c o = some (a, s')) :
    Books (s', note t o a s l) := by
  by_cases ho : ¬ Tabled o
  · exact h.congr ((framed_exec hex).table ho).1 (sameBook_note a s l ho)
  cases o with
  | queueHostData key id data => exact books_queueHostData h hex
  | closeLocalSend key =>
    simp only [Shared.exec, Shared.closeLocalSend] at hex
    split at hex
    · cases hex
      exact h
    next e he =>
      cases hex
      have hb := h key e he
      refine h.update rfl ⟨hb.sent, hb.credit, hb.window, hb.received⟩ ?_
      exact fun k _ => ⟨rfl, rfl, rfl⟩
  | forget key =>
    intro k e he
    have hsame : SameBook l (l.forgot t key) k := by
      unfold forgot
      repeat' split
      all_goals exact ⟨rfl, rfl, rfl⟩
    refine (h k e ?_).same hsame
    obtain rfl | rfl := forget_cases hex
    · exact he
    · exact of_update_none he
  | reserveHostConnect port =>
    obtain ⟨n, ⟨rfl, rfl⟩ | ⟨key, -, -, rfl, rfl⟩⟩ :=
      reserveHostConnect_cases hex
    · exact h
    · exact h.update rfl (booked_opened rfl rfl rfl) fun k hk => sameBook_opened hk
  | acceptRequest hdr =>
    obtain ⟨rfl, rfl⟩ | ⟨-, -, rfl, rfl⟩ := acceptRequest_cases hex
    · exact h
    · exact h.update rfl (booked_opened rfl rfl rfl) fun k hk => sameBook_opened hk
  | onPacket hdr len =>
    obtain ⟨he, rfl, rfl⟩ | ⟨e, he, rfl, rfl⟩ := onPacket_cases hex
    all_goals simp only [note, he]
    · exact h
    · exact h.update rfl (booked_packet (h _ e he)) fun k hk => sameBook_packet hk
  | _ => exact absurd (fun h => h) ho

end Steps

theorem books_start (guestCid : BitVec 64) (space : Mem.AddressSpace) :
    Books (startAudited guestCid space).sh :=
  fun _ _ he => nomatch he

theorem books_reach {guestCid : BitVec 64} {space : Mem.AddressSpace}
    {p : Pool Op Ans (Shared × Accounts)}
    (h : (audited guestCid).Reach System.anyStep (startAudited guestCid space) p) : Books p.sh := by
  refine h.shared (books_start guestCid space) ?_ ?_
  · intro t c o a x x' hx hex
    obtain ⟨hplain, hnote⟩ := System.watch_exec_eq_some.mp hex
    have hnew := books_step hx hplain
    rwa [← hnote] at hnew
  · intro e q q' hq he
    obtain ⟨r, hr, rfl⟩ := System.watch_env_eq_some.mp he
    cases e with
    | send id bytes =>
      cases hr
      exact hq

-- ==== the sends

section Sends

variable {guestCid : BitVec 64} {s s' : Shared} {l : Accounts} {t : Nat}
  {c : Choice} {key : ConnKey}

/-- Only an offer of host data sends on a connection. -/
theorem sent_note {o : Op} {a : Ans o} (h : l.sent key < (note t o a s l).sent key) :
    ∃ id data, o = .queueHostData key id data := by
  by_cases ho : ¬ Tabled o
  · exact absurd (sameBook_note a s l ho key).sent (Nat.ne_of_gt h)
  have hopened (k : ConnKey) (credit : BitVec 32 × BitVec 32) :
      (l.opened k credit).sent key ≤ l.sent key := by
    by_cases hk : key = k
    · subst hk
      simp [Accounts.opened]
    · exact Nat.le_of_eq (update_of_ne hk _ _)
  cases o with
  | queueHostData k id data =>
    by_cases hk : k = key
    · subst hk
      exact ⟨id, data, rfl⟩
    · have hsame : (note t (.queueHostData k id data) a s l).sent key = l.sent key := by
        unfold note
        simp only []
        split
        · exact update_of_ne (Ne.symm hk) _ _
        · rfl
      exact absurd hsame (Nat.ne_of_gt h)
  | reserveHostConnect port =>
    cases a with
    | none => exact absurd h (Nat.lt_irrefl _)
    | some r => exact absurd h (Nat.not_lt.mpr (hopened r.1 (0, 0)))
  | acceptRequest hdr =>
    cases a with
    | none => exact absurd h (Nat.lt_irrefl _)
    | some id => exact absurd h (Nat.not_lt.mpr (hopened _ _))
  | onPacket hdr len =>
    have hsame : (note t (.onPacket hdr len) a s l).sent = l.sent := by
      unfold note
      simp only []
      split <;> rfl
    exact absurd (congrFun hsame key) (Nat.ne_of_gt h)
  | forget k =>
    have hsame : (l.forgot t k).sent = l.sent := by
      unfold forgot
      repeat' split
      all_goals rfl
    exact absurd (congrFun hsame key) (Nat.ne_of_gt h)
  | closeLocalSend k => exact absurd h (Nat.lt_irrefl _)
  | _ => exact absurd (fun h => h) ho

/-- What a send leaves outstanding fits the buffer the guest announced. -/
theorem send_fits {id : Nat} {data rest : List UInt8} (h : Books (s, l))
    (hex : s.exec guestCid t c (.queueHostData key id data) = some (rest, s'))
    (hsent : l.sent key < (note t (.queueHostData key id data) rest s l).sent key) :
    outstanding ((note t (.queueHostData key id data) rest s l).sent key)
      (l.credit key).2 ≤ (l.credit key).1.toNat := by
  simp only [Shared.exec] at hex
  cases he : s.conns key with
  | none =>
    simp only [note, he] at hsent
    exact absurd hsent (Nat.lt_irrefl _)
  | some e =>
    have hb := h key e he
    simp only [note, he, Option.isSome_some, if_true, update_self] at hsent ⊢
    rcases Shared.queueHostData_found he id data with
      hq | ⟨take, hpos, hcredit, hlen, hq⟩
    all_goals
      rw [hq] at hex
      cases hex
    · dsimp only at hsent
      omega
    · have htake : data.length - (data.drop take).length = take := by
        rw [List.length_drop]
        omega
      have hfits := e.conn.inFlight_recordSent_le hpos hcredit
      rw [htake, ← hb.credit]
      unfold outstanding
      rw [BitVec.ofNat_add, ← hb.sent]
      exact hfits

end Sends

/-- The guest opens a connection with a window of 100, and its host peer's
three bytes are about to be offered. -/
def offering : List (Act Choice Move) :=
  steps 0 4 (onJob .kickTx) ++ steps 0 11 (onHdr opRequest) ++
    steps 0 13 default ++ [.env (.send 0 [1, 2, 3])] ++
    steps 1 1 default ++ steps 1 2 (onJob (.reader ⟨10, 5000⟩ 0)) ++
    steps 1 3 { (default : Choice) with count := 3 }

end Rshyve.Virtio.Vsock
