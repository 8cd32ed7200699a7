/-
# Vsock streams reach the guest intact

The payload a guest gets on a connection is a prefix of what the connection's
host peer sent, over all interleavings of readers, kicks, guest packets and
host peers whose steps keep the connections of one port pair apart
(`keepsApart`).

# The condition

The receive queue is shared, and its packets name their connection by the
port pair alone. When a connection goes away its packets stay in the queue,
and nothing stops the guest from opening the same pair again before they
reach it: `stale_bytes_delivered` is such a run, of one guest reset and two
requests. A reader that is still offering bytes when its pair is opened
again hands them to the new connection in the same way, and a chain that
turns out not to be writable takes the payload written into it along.
-/
import Rshyve.Virtio.Proofs.VsockFlow

namespace Rshyve.Virtio.Vsock

open Conc Function
open Shared (tagged)

-- ==== the invariant

/-- The account of the bytes, with the readers in it. -/
structure Bytes (v : Stream) (gh : Nat → Loc) : Prop where
  named : Named v
  readers : Readers v (Loc.reader ∘ gh)
  ledger : Ledger v

structure StreamInv (s : Shared) (gh : Nat → Loc) : Prop
    extends Flow s gh where
  bytes : Bytes s.stream gh

variable {key : ConnKey}

section Step

variable {guestCid : BitVec 64} {s s' : Shared} {t : Nat} {c : Choice} {gh : Nat → Loc}

/-- A move that leaves what the thread serves alone. -/
theorem Readers.stay {v : Stream} {l : Loc}
    (h : Readers v (Loc.reader ∘ gh)) (hl : l.reader = (gh t).reader) :
    Readers v (Loc.reader ∘ update gh t l) := by
  rw [Function.comp_update, hl]
  exact (update_eq_self t (Loc.reader ∘ gh)).symm ▸ h

theorem streamInv_start (guestCid : BitVec 64) (space : Mem.AddressSpace) :
    StreamInv (start guestCid space).sh fun _ => .idle where
  toFlow := flow_start guestCid space
  bytes :=
    { named := ⟨nofun, nofun, fun _ => rfl⟩
      readers := ⟨nofun, nofun, nofun, List.nodup_nil⟩
      ledger := ⟨nofun, fun _ => List.prefix_rfl, fun _ _ => ⟨rfl, rfl, rfl⟩⟩ }

variable (h : Bytes s.stream gh)
include h

theorem bytes_silent {o : Op} {a : Ans o} (ho : Silent o)
    (hex : s.exec guestCid t c o = some (a, s')) :
    Bytes s'.stream (update gh t (next (gh t) o a)) := by
  rw [stream_silent ho hex]
  exact ⟨h.named, h.readers.stay (next_silent ho).2, h.ledger⟩

-- ==== the queue's end

theorem bytes_popRx {a : Option RxPacket} (hex : s.exec guestCid t c .popRx = some (a, s')) :
    Bytes s'.stream (update gh t (next (gh t) .popRx a)) := by
  obtain ⟨-, rfl, rfl⟩ | ⟨p, rest, hrx, rfl, rfl⟩ := popRx_cases hex
  · exact ⟨h.named, h.readers.stay rfl, h.ledger⟩
  · have hreads := h.readers.stay (l := next (gh t) .popRx (some p)) rfl
    exact ⟨h.named.pop hrx, { hreads with }, { h.ledger with }⟩

variable {a : Unit}

theorem bytes_requeueRxFront (hflow : Flow s gh) {p : RxPacket}
    (hallow : allow (gh t) (.requeueRxFront p))
    (hex : s.exec guestCid t c (.requeueRxFront p) = some (a, s')) :
    Bytes s'.stream (update gh t (next (gh t) (.requeueRxFront p) a)) := by
  obtain ⟨hd, front, hhand, hsame, hcut, -, -, hstream⟩ :=
    requeue_shape hflow hallow
  cases hex
  rw [hstream]
  have hreads := h.readers.stay (l := next (gh t) (.requeueRxFront p) ()) rfl
  exact ⟨h.named.requeue hhand hsame hcut, { hreads with }, { h.ledger with }⟩

theorem bytes_publish (hflow : Flow s gh) {head written : Nat}
    {p : Option RxPacket} (hallow : allow (gh t) (.publish head written p))
    (hex : s.exec guestCid t c (.publish head written p) = some (a, s')) :
    Bytes s'.stream (update gh t (next (gh t) (.publish head written p) a)) := by
  cases hex
  cases p with
  | none => exact ⟨h.named, h.readers.stay rfl, h.ledger⟩
  | some p =>
    obtain ⟨hd, hsect, hsame, hpay, hle⟩ := hallow
    have hhand : s.hand = some hd := hflow.hands.held t hd hsect.hand
    have hnamed := h.named.publish hhand hsame hpay
    rw [← carried_eq hle] at hnamed
    have hreads := h.readers.stay (l := next (gh t) (.publish head written (some p)) ()) rfl
    exact ⟨hnamed, { hreads with }, { h.ledger with }⟩

-- ==== the mux

theorem bytes_pushRx {hdr : VsockHdr} {a : Bool}
    (hex : s.exec guestCid t c (.pushRx hdr) = some (a, s')) :
    Bytes s'.stream (update gh t (next (gh t) (.pushRx hdr) a)) := by
  have hreads := h.readers.stay (l := next (gh t) (.pushRx hdr) a) rfl
  obtain ⟨-, rfl⟩ | ⟨-, rfl⟩ := pushRx_cases hex
  · exact ⟨h.named, hreads, h.ledger⟩
  · have hnamed := h.named.push (p := .control hdr) fun hne => absurd rfl hne
    exact ⟨hnamed, { hreads with }, { h.ledger with }⟩

theorem bytes_queueHostData {id : Nat} {data rest : List UInt8}
    (hapart : keepsApart (.queueHostData key id data) s = true)
    (hallow : allow (gh t) (.queueHostData key id data))
    (hex : s.exec guestCid t c (.queueHostData key id data) = some (rest, s')) :
    Bytes s'.stream (update gh t (next (gh t) (.queueHostData key id data) rest)) := by
  obtain ⟨-, hserves, hdata⟩ := hallow
  have hreader : (Loc.reader ∘ gh) t = some (key, id, data) := by
    simp only [Function.comp, Loc.reader, hserves, hdata, Option.map_some]
  obtain ⟨hlt, hbuf, hhome⟩ := h.readers.served t key id data hreader
  have hreads : Readers { s.stream with
      buf := update s.buf id rest } (Loc.reader ∘
      update gh t (next (gh t) (.queueHostData key id data) rest)) := by
    have hnext : (next (gh t) (.queueHostData key id data) rest).reader = some (key, id, rest) := by
      simp only [next, Loc.reader, hserves, Option.map_some]
    rw [Function.comp_update, hnext]
    exact h.readers.rebuffer hreader rest
  obtain ⟨hgone, rfl, rfl⟩ | ⟨rfl, rfl⟩ | ⟨e, take, he, rfl, rfl⟩ :=
    queueHostData_cases hex
  · -- the connection is gone: what was read of it is dropped
    have hnone : ∀ k, s.stream.conns k ≠ some id := by
      intro k hk
      have hkey := hhome k hk
      subst hkey
      simp only [Shared.stream, hgone, Option.map_none] at hk
      cases hk
    exact ⟨{ h.named with }, hreads, h.ledger.discard hlt hnone []⟩
  · -- no credit or no room
    have hsome : update s.buf id rest = s.buf := by
      rw [← hbuf]
      exact update_eq_self id s.buf
    rw [hsome] at hreads
    exact ⟨h.named, hreads, h.ledger⟩
  · have hid : e.id = id := by
      simpa [keepsApart, he] using hapart
    have hconn : s.stream.conns key = some id := by
      simp only [Shared.stream, he, Option.map_some, hid]
    let p := Shared.hostPacket guestCid key e.conn id take data
    have hstream : ((s.afterHostPacket guestCid key e id take data).call t).stream = { s.stream with
          rx := s.rx ++ [p]
          buf := update s.buf id (data.drop take)
          accepted := s.accepted ++ tagged p } := by
      simp only [Shared.call, Shared.stream, Shared.afterHostPacket, conns_touch he, p]
    rw [hstream]
    have hnamed : Named { s.stream with rx := s.rx ++ [p] } :=
      h.named.push fun _ => (h.named.table key id hconn).1
    have hsplit : s.buf id = p.payload ++ data.drop take :=
      hbuf.trans (List.take_append_drop take data).symm
    exact ⟨{ hnamed with }, { hreads with }, h.ledger.queue hconn hlt rfl hsplit⟩

theorem bytes_forget (hex : s.exec guestCid t c (.forget key) = some (a, s')) :
    Bytes s'.stream (update gh t (next (gh t) (.forget key) a)) := by
  obtain rfl | rfl := forget_cases hex
  · exact ⟨h.named, h.readers.stay rfl, h.ledger⟩
  · have hstream : { s with
        conns := update s.conns key none
        connCount := s.connCount - 1 }.stream = { s.stream with
          conns := update s.stream.conns key none } :=
      congrArg (fun conns => { s.stream with conns })
        (Function.comp_update (Option.map Entry.id) s.conns key none)
    rw [hstream]
    exact ⟨h.named.forget key, (h.readers.forget key).stay rfl, h.ledger.forget key⟩

/-- A connection is opened under a pair of which nothing is queued, and the
thread that opened it serves it. -/
theorem bytes_insert {conn : VsockConn} {port : BitVec 32} {l : Loc} (hfresh : s.fresh key = true)
    (hreader : l.reader = some (key, s.nextId, [])) :
    Bytes ({ s with nextHostPort := port }.insert key conn).stream (update gh t l) := by
  have hstream : ({ s with nextHostPort := port }.insert key conn).stream =
      { s.stream with
        conns := update s.stream.conns key (some s.nextId)
        nextId := s.nextId + 1
        latest := update s.latest key (some s.nextId) } :=
    congrArg (fun conns => { s.stream with
        conns
        nextId := s.nextId + 1
        latest := update s.latest key (some s.nextId) })
      (Function.comp_update (Option.map Entry.id) s.conns key (some ⟨conn, s.nextId⟩))
  rw [hstream]
  have hfree : ∀ p ∈ s.hand.toList ++ s.rx, p.payload ≠ [] → p.hdr.hostKey ≠ key := by
    intro p hp hne
    have hp := List.all_eq_true.mp hfresh p hp
    simpa [hne] using hp
  obtain ⟨-, hbuf, -⟩ := h.ledger.unborn s.nextId (Nat.le_refl _)
  refine ⟨h.named.opens hfree, ?_, h.ledger.opens key⟩
  rw [Function.comp_update, hreader]
  refine (h.readers.opens key).serve (Nat.lt_succ_self _) hbuf ?_ ?_ ?_ t
  · intro k hk
    by_contra hkey
    have hold : s.stream.conns k = some s.nextId :=
      (update_of_ne hkey _ _).symm.trans hk
    exact absurd (h.named.table k s.nextId hold).2 (Nat.lt_irrefl _)
  · intro u k d hu
    exact absurd (h.readers.served u k s.nextId d hu).1 (Nat.lt_irrefl _)
  · intro k hk
    exact absurd (h.readers.waiting k s.nextId hk).1 (Nat.lt_irrefl _)

theorem bytes_acceptRequest {hdr : VsockHdr} {a : Option Nat}
    (hapart : keepsApart (.acceptRequest hdr) s = true)
    (hex : s.exec guestCid t c (.acceptRequest hdr) = some (a, s')) :
    Bytes s'.stream (update gh t (next (gh t) (.acceptRequest hdr) a)) := by
  have hacc := Option.some.inj hex
  obtain ⟨rfl, rfl⟩ | ⟨-, -, rfl, rfl⟩ := acceptRequest_cases hex
  · exact ⟨h.named, h.readers.stay rfl, h.ledger⟩
  · have hfresh : s.fresh hdr.guestKey = true := by
      simpa [keepsApart, hacc] using hapart
    have hins : Bytes ({ s with nextHostPort := s.nextHostPort }.insert
        hdr.guestKey ((VsockConn.new .established).absorbCredit hdr)).stream
          _ :=
      bytes_insert (t := t) (l := next (gh t) (.acceptRequest hdr) (some s.nextId)) h hfresh rfl
    exact hins

theorem bytes_reserveHostConnect {port : BitVec 32} {a : Option (ConnKey × Nat)}
    (hapart : keepsApart (.reserveHostConnect port) s = true)
    (hex : s.exec guestCid t c (.reserveHostConnect port) = some (a, s')) :
    Bytes s'.stream (update gh t (next (gh t) (.reserveHostConnect port) a)) := by
  have hres := Option.some.inj hex
  obtain ⟨n, ⟨rfl, rfl⟩ | ⟨key, -, -, rfl, rfl⟩⟩ := reserveHostConnect_cases hex
  · exact ⟨h.named, h.readers.stay rfl, h.ledger⟩
  · have hfresh : s.fresh key = true := by
      simpa [keepsApart, hres] using hapart
    exact bytes_insert h hfresh rfl

-- ==== the readers

theorem bytes_read {id : Nat} {a : ReadResult} (hallow : allow (gh t) (.read id))
    (hex : s.exec guestCid t c (.read id) = some (a, s')) :
    Bytes s'.stream (update gh t (next (gh t) (.read id) a)) := by
  obtain ⟨-, hdata, key, hserves⟩ := hallow
  have hreader : (Loc.reader ∘ gh) t = some (key, id, []) := by
    simp only [Function.comp, Loc.reader, hserves, hdata, Option.map_some]
  obtain ⟨hr, rfl⟩ | ⟨n, rfl, rfl⟩ := read_cases hex
  · cases a with
    | data bytes => exact absurd rfl (hr bytes)
    | again => exact ⟨h.named, h.readers.stay rfl, h.ledger⟩
    | closed => exact ⟨h.named, h.readers.stay rfl, h.ledger⟩
  · obtain ⟨hlt, hbuf, -⟩ := h.readers.served t key id [] hreader
    refine ⟨{ h.named with }, ?_, h.ledger.read hlt hbuf n⟩
    have hnext : (next (gh t) (.read id) (.data ((s.unread id).take n))).reader =
        some (key, id, (s.unread id).take n) := by
      simp only [next, Loc.reader, hserves, Option.map_some]
    rw [Function.comp_update, hnext]
    exact { h.readers.rebuffer hreader ((s.unread id).take n) with }

theorem bytes_spawn {id : Nat} {a : Bool} (hallow : allow (gh t) (.spawn key id))
    (hex : s.exec guestCid t c (.spawn key id) = some (a, s')) :
    Bytes s'.stream (update gh t (next (gh t) (.spawn key id) a)) := by
  obtain ⟨-, hserves, hdata⟩ := hallow
  have hreader : (Loc.reader ∘ gh) t = some (key, id, []) := by
    simp only [Function.comp, Loc.reader, hserves, hdata, Option.map_some]
  cases hex
  cases c.flag with
  | false => exact ⟨h.named, h.readers.stay rfl, h.ledger⟩
  | true =>
    refine ⟨{ h.named with }, ?_, { h.ledger with }⟩
    rw [Function.comp_update]
    exact h.readers.spawn hreader

theorem bytes_begin {job : Job} (hallow : allow (gh t) .begin)
    (hex : s.exec guestCid t c .begin = some (job, s')) :
    Bytes s'.stream (update gh t (next (gh t) .begin job)) := by
  have hidle : gh t = .idle := hallow
  -- all but the readers start without a connection
  have hother : (∀ key id, job ≠ .reader key id) → (Loc.started job).reader = (gh t).reader := by
    intro hjob
    rw [hidle]
    cases job with
    | reader key id => exact absurd rfl (hjob key id)
    | _ => rfl
  obtain ⟨key, id, rfl, hin, rfl⟩ | ⟨hjob, rfl⟩ | ⟨hjob, rfl⟩ :=
    begin_cases hex
  · refine ⟨{ h.named with }, ?_, { h.ledger with }⟩
    rw [Function.comp_update]
    exact h.readers.start hin t
  · have hreader := hother (by rcases hjob with rfl | rfl | rfl <;> nofun)
    exact ⟨h.named, h.readers.stay hreader, h.ledger⟩
  · have hreader := hother (by rcases hjob with ⟨port, rfl⟩ | rfl | rfl <;> nofun)
    exact ⟨h.named, h.readers.stay hreader, h.ledger⟩

theorem bytes_finish (hex : s.exec guestCid t c .finish = some (a, s')) :
    Bytes s'.stream (update gh t (next (gh t) .finish a)) := by
  cases hex
  refine ⟨h.named, ?_, h.ledger⟩
  rw [Function.comp_update]
  exact h.readers.quit t

-- ==== all steps

omit h

variable (hi : StreamInv s gh)
include hi

theorem StreamInv.step {o : Op} {a : Ans o} (hapart : keepsApart o s = true)
    (hallow : allow (gh t) o) (hex : s.exec guestCid t c o = some (a, s')) :
    can (gh t) o a ∧ StreamInv s' (update gh t (next (gh t) o a)) := by
  refine ⟨?_, hi.toFlow.step hallow hex, ?_⟩
  · cases o with
    | poke addr bytes =>
      cases hex
      exact hapart
    | _ => trivial
  · cases o with
    | begin => exact bytes_begin hi.bytes hallow hex
    | finish => exact bytes_finish hi.bytes hex
    | popRx => exact bytes_popRx hi.bytes hex
    | requeueRxFront p => exact bytes_requeueRxFront hi.bytes hi.toFlow hallow hex
    | publish head written p => exact bytes_publish hi.bytes hi.toFlow hallow hex
    | queueHostData key id data => exact bytes_queueHostData hi.bytes hapart hallow hex
    | pushRx hdr => exact bytes_pushRx hi.bytes hex
    | forget key => exact bytes_forget hi.bytes hex
    | reserveHostConnect port => exact bytes_reserveHostConnect hi.bytes hapart hex
    | acceptRequest hdr => exact bytes_acceptRequest hi.bytes hapart hex
    | spawn key id => exact bytes_spawn hi.bytes hallow hex
    | read id => exact bytes_read hi.bytes hallow hex
    | _ => exact bytes_silent hi.bytes (by trivial) hex

theorem StreamInv.move (m : Move) : StreamInv (s.move m) gh := by
  obtain ⟨named, readers, ledger⟩ := hi.bytes
  refine ⟨hi.toFlow.move m, ?_⟩
  cases m with
  | send id bytes =>
    exact ⟨{ named with }, { readers with }, ledger.send id bytes⟩

end Step

def streamOutline (guestCid : BitVec 64) :
    Outline (machine guestCid) (everyStep keepsApart) Loc where
  toDiscipline := rules
  post _ := False
  inv := StreamInv
  op_step ht hok hinv hallow hex := hinv.step (everyStep_op ht hok) hallow hex
  env_step _ hinv hthr henv := by
    cases henv
    exact ⟨_, hinv.move _, hthr⟩

-- ==== the streams

section Runs

def threeChains : Choice :=
  { (default : Choice) with
    job := .kickRx
    chains := [⟨0, [.writable 0x1000 100]⟩, ⟨1, [.writable 0x2000 100]⟩,
      ⟨2, [.writable 0x3000 100]⟩] }

/-- The guest posts three chains, and its kick delivers into them. -/
def fetched : List (Act Choice Move) :=
  steps 0 5 threeChains ++ steps 0 37 default

/-- The guest resets the connection and opens the pair again. -/
def reopened : List (Act Choice Move) :=
  steps 0 3 (onJob .kickTx) ++ steps 0 6 (onHdr opRst) ++
    steps 0 11 (onHdr opRequest) ++ steps 0 13 default

end Runs

-- ==== the queue

/-- The device writes to writable memory. -/
def writesLand : Op → Shared → Bool
  | .poke addr bytes, s => Mem.lands s.space addr bytes.length
  | _, _ => true

def flowOutline (guestCid : BitVec 64) :
    Outline (machine guestCid) (everyStep writesLand) Loc where
  toDiscipline := rules
  post _ := False
  inv := Flow
  op_step {_ _ _ o _ _ _ _} ht hok hinv hallow hex := by
    refine ⟨?_, hinv.step hallow hex⟩
    cases o with
    | poke addr bytes =>
      cases hex
      exact everyStep_op ht hok
    | _ => trivial
  env_step _ hinv hthr henv := by
    cases henv
    exact ⟨_, hinv.move _, hthr⟩

end Rshyve.Virtio.Vsock
