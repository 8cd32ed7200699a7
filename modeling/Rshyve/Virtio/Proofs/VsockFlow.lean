/-
# The queue of a vsock device is first in, first out

Whatever the steps of a run, as long as the device writes to writable memory:
what the mux has accepted is, in order, what chains have carried to the
guest, what is in hand and what is queued (`Flow`). The pass lock is what
keeps two deliveries from overtaking each other.
-/
import Rshyve.Virtio.Proofs.VsockBytes

namespace Rshyve.Virtio.Vsock

open Conc Function
open Shared (tagged)

/-- The connection a thread serves, with the bytes it has of it. -/
def Loc.reader (l : Loc) : Serving := l.serves.map fun r => (r.1, r.2, l.data)

structure Flow (s : Shared) (gh : Nat → Loc) : Prop where
  tied : Tied s.locks Loc.holds gh
  nested : ∀ t, (gh t).Nested
  hands : Hands s.hand (Loc.hand ∘ gh)
  fifo : Fifo s.stream

variable {o : Op}

section Step

variable {guestCid : BitVec 64} {s s' : Shared} {t : Nat} {c : Choice} {gh : Nat → Loc}

/-- A move that leaves the thread's packet alone. -/
theorem Hands.stay {hand : Option RxPacket} {l : Loc}
    (h : Hands hand (Loc.hand ∘ gh)) (hl : l.hand = (gh t).hand) :
    Hands hand (Loc.hand ∘ update gh t l) := by
  rw [Function.comp_update, hl]
  exact (update_eq_self t (Loc.hand ∘ gh)).symm ▸ h

/-- In a pass, nobody else has a packet. -/
theorem Flow.alone (h : Flow s gh) (ht : (gh t).pass = true) :
    ∀ u, u ≠ t → (Loc.hand ∘ gh) u = none := by
  intro u hu
  cases hh : (gh u).hand with
  | none => exact hh
  | some p =>
    have hn := h.nested u
    have hpass := hn.sect (hn.ready (hn.chain (hn.hand (by rw [hh]; nofun))))
    exact absurd (Tied.only (m := .delivery) h.tied ht hpass) hu

/-- What was in hand before a packet is taken off the queue has been
published or put back. -/
theorem Flow.empty (h : Flow s gh) (ht : (gh t).pass = true) (hnone : (gh t).hand = none) :
    ∀ q, s.hand = some q → q.payload = [] := by
  intro q hq
  by_contra hne
  obtain ⟨u, hu⟩ := h.hands.live q hq hne
  by_cases hut : u = t
  · subst hut
    exact nomatch hnone.symm.trans hu
  · exact nomatch (h.alone ht u hut).symm.trans hu

-- ==== the silent steps

/-- Steps that move no byte and no connection. -/
def Silent : Op → Prop
  | .begin | .finish | .popRx | .requeueRxFront _ | .publish ..
  | .queueHostData .. | .pushRx _ | .forget _ | .reserveHostConnect _
  | .acceptRequest _ | .spawn .. | .read _ => False
  | _ => True

/-- A connection that changes state keeps its number. -/
theorem conns_touch {key : ConnKey} {e : Entry} (he : s.conns key = some e) (conn : VsockConn) :
    (fun k => (update s.conns key (some { e with conn := conn }) k).map Entry.id) =
      fun k => (s.conns k).map Entry.id := by
  funext k
  by_cases hk : k = key
  · subst hk
    rw [update_self, he]
    rfl
  · rw [update_of_ne hk]

variable {a : Ans o}

theorem stream_silent (ho : Silent o)
    (hex : s.exec guestCid t c o = some (a, s')) : s'.stream = s.stream := by
  cases o with
  | lock k =>
    obtain ⟨locks, -, heq⟩ := Option.map_eq_some_iff.mp hex
    cases heq
    rfl
  | unlock k =>
    obtain ⟨locks, -, heq⟩ := Option.map_eq_some_iff.mp hex
    cases heq
    rfl
  | isPaused =>
    obtain ⟨-, -, rfl⟩ | ⟨-, -, rfl⟩ := isPaused_cases hex
    all_goals rfl
  | enter =>
    obtain ⟨-, -, rfl⟩ | ⟨-, -, rfl⟩ := enter_cases hex
    all_goals rfl
  | popChain =>
    obtain ⟨-, -, rfl⟩ | ⟨chain, rest, -, -, rfl⟩ := popChain_cases hex
    all_goals rfl
  | drain => rw [(drain_cases hex).2]
  | releaseSocket key id =>
    obtain ⟨sockets, rfl⟩ := releaseSocket_cases hex
    rfl
  | closeLocalSend key =>
    obtain rfl | ⟨e, conn, he, rfl⟩ := closeLocalSend_cases hex
    · rfl
    · simp only [Shared.stream, conns_touch he]
  | onPacket hdr len =>
    obtain ⟨-, -, rfl⟩ | ⟨e, he, -, rfl⟩ := onPacket_cases hex
    · rfl
    · simp only [Shared.stream, conns_touch he]
  | _ => first
    | exact ho.elim
    | cases hex
      rfl

theorem next_silent {l : Loc} (ho : Silent o) :
    (next l o a).hand = l.hand ∧ (next l o a).reader = l.reader := by
  cases o with
  | lock k => cases k <;> exact ⟨rfl, rfl⟩
  | unlock k => cases k <;> exact ⟨rfl, rfl⟩
  | isPaused => cases a <;> exact ⟨rfl, rfl⟩
  | rxIsEmpty => cases a <;> exact ⟨rfl, rfl⟩
  | enter => cases a <;> exact ⟨rfl, rfl⟩
  | handler => cases a <;> exact ⟨rfl, rfl⟩
  | popChain => cases a <;> exact ⟨rfl, rfl⟩
  | _ => first
    | exact ho.elim
    | exact ⟨rfl, rfl⟩

-- ==== the queue

/-- The packet in hand and the order, after a step. -/
def Passes (s : Shared) (gh : Nat → Loc) : Prop :=
  Hands s.hand (Loc.hand ∘ gh) ∧ Fifo s.stream

theorem flow_start (guestCid : BitVec 64) (space : Mem.AddressSpace) :
    Flow (start guestCid space).sh fun _ => .idle where
  tied l t := by
    cases l <;> exact ⟨nofun, nofun⟩
  nested _ := nested_idle
  hands := ⟨nofun, nofun⟩
  fifo := rfl

variable (h : Flow s gh)
include h

theorem passes_silent (ho : Silent o) (hex : s.exec guestCid t c o = some (a, s')) :
    Passes s' (update gh t (next (gh t) o a)) := by
  have hstream := stream_silent ho hex
  have hhand : s'.hand = s.hand := congrArg Stream.hand hstream
  refine ⟨?_, hstream ▸ h.fifo⟩
  rw [hhand]
  exact h.hands.stay (next_silent ho).1

theorem passes_popRx {a : Option RxPacket} (hallow : allow (gh t) .popRx)
    (hex : s.exec guestCid t c .popRx = some (a, s')) :
    Passes s' (update gh t (next (gh t) .popRx a)) := by
  obtain ⟨-, rfl, rfl⟩ | ⟨p, rest, hrx, rfl, rfl⟩ := popRx_cases hex
  · exact ⟨h.hands.stay rfl, h.fifo⟩
  · refine ⟨?_, h.fifo.pop hrx (h.empty hallow.1.pass hallow.1.hand)⟩
    rw [Function.comp_update]
    exact Hands.take (h.alone hallow.1.pass) p

/-- The packet in hand after its rest has gone back to the queue. -/
theorem requeue_shape {p : RxPacket} (hallow : allow (gh t) (.requeueRxFront p)) :
    ∃ hd front, s.hand = some hd ∧ SamePacket p hd ∧
      hd.payload = front ++ p.payload ∧ (gh t).pass = true ∧
      (next (gh t) (.requeueRxFront p) ()).hand = some { hd with payload := front } ∧
      (s.requeueRxFront p).stream = { s.stream with
        rx := p :: s.rx
        hand := some { hd with payload := front } } := by
  obtain ⟨hd, hsect, -, hsame, front, hcut⟩ := hallow
  have hhand : s.hand = some hd := h.hands.held t hd hsect.hand
  have hfront : hd.payload.take (hd.payload.length - p.payload.length) =
      front := by
    rw [hcut, List.length_append, Nat.add_sub_cancel, List.take_left]
  refine ⟨hd, front, hhand, hsame, hcut, hsect.pass, ?_, ?_⟩
  · simp only [next, hsect.hand, Option.map_some, hfront]
  · simp only [Shared.requeueRxFront, Shared.stream, hhand, Option.map_some, hfront]

theorem passes_requeueRxFront {p : RxPacket} {a : Unit} (hallow : allow (gh t) (.requeueRxFront p))
    (hex : s.exec guestCid t c (.requeueRxFront p) = some (a, s')) :
    Passes s' (update gh t (next (gh t) (.requeueRxFront p) a)) := by
  obtain ⟨hd, front, hhand, hsame, hcut, hpass, hnext, hstream⟩ :=
    requeue_shape h hallow
  cases hex
  refine ⟨?_, ?_⟩
  · have hhand' : (s.requeueRxFront p).hand =
        some { hd with payload := front } := congrArg Stream.hand hstream
    rw [hhand', Function.comp_update, hnext]
    exact Hands.take (h.alone hpass) _
  · rw [hstream]
    exact h.fifo.requeue hhand hsame hcut

theorem passes_publish {head written : Nat} {p : Option RxPacket} {a : Unit}
    (hallow : allow (gh t) (.publish head written p))
    (hex : s.exec guestCid t c (.publish head written p) = some (a, s')) :
    Passes s' (update gh t (next (gh t) (.publish head written p) a)) := by
  cases hex
  cases p with
  | none =>
    have hnil : ∀ q, (Loc.hand ∘ gh) t = some q → q.payload = [] := by
      intro q hq
      rcases hallow with ⟨hd, hsect, hnil⟩ | ⟨hground, -⟩
      · obtain rfl := Option.some.inj (hsect.hand.symm.trans hq)
        exact hnil
      · exact nomatch hground.hand.symm.trans hq
    refine ⟨?_, h.fifo⟩
    rw [Function.comp_update]
    exact h.hands.letGo hnil
  | some p =>
    obtain ⟨hd, hsect, hsame, hpay, hle⟩ := hallow
    have hhand : s.hand = some hd := h.hands.held t hd hsect.hand
    have hfifo := h.fifo.publish hhand hsame hpay
    rw [← carried_eq hle] at hfifo
    refine ⟨?_, hfifo⟩
    rw [Function.comp_update]
    exact Hands.publish (h.alone hsect.pass)

theorem passes_pushRx {hdr : VsockHdr} {a : Bool}
    (hex : s.exec guestCid t c (.pushRx hdr) = some (a, s')) :
    Passes s' (update gh t (next (gh t) (.pushRx hdr) a)) := by
  obtain ⟨-, rfl⟩ | ⟨-, rfl⟩ := pushRx_cases hex
  · exact ⟨h.hands.stay rfl, h.fifo⟩
  · have hfifo := h.fifo.push (.control hdr)
    have hnone : tagged (.control hdr) = [] := rfl
    rw [hnone, List.append_nil] at hfifo
    exact ⟨h.hands.stay rfl, hfifo⟩

theorem passes_queueHostData {key : ConnKey} {id : Nat} {data rest : List UInt8}
    (hex : s.exec guestCid t c (.queueHostData key id data) = some (rest, s')) :
    Passes s' (update gh t (next (gh t) (.queueHostData key id data) rest)) := by
  obtain ⟨-, -, rfl⟩ | ⟨-, rfl⟩ | ⟨e, take, -, -, rfl⟩ :=
    queueHostData_cases hex
  · exact ⟨h.hands.stay rfl, h.fifo⟩
  · exact ⟨h.hands.stay rfl, h.fifo⟩
  · exact ⟨h.hands.stay rfl, h.fifo.push _⟩

theorem Flow.step (hallow : allow (gh t) o) (hex : s.exec guestCid t c o = some (a, s')) :
    Flow s' (update gh t (next (gh t) o a)) := by
  have htied := tied_step h.tied hallow hex
  have hnested : ∀ u, (update gh t (next (gh t) o a) u).Nested :=
    (forall_update_iff gh fun _ l => l.Nested).mpr ⟨(h.nested t).next hallow, fun u _ => h.nested u⟩
  suffices hpasses : Passes s' (update gh t (next (gh t) o a)) from
    ⟨htied, hnested, hpasses.1, hpasses.2⟩
  cases o with
  | begin =>
    have hidle : gh t = .idle := hallow
    have hhand : (Loc.started a).hand = (gh t).hand := by
      rw [hidle]
      cases a <;> rfl
    obtain ⟨key, id, -, -, rfl⟩ | ⟨-, rfl⟩ | ⟨-, rfl⟩ := begin_cases hex
    all_goals exact ⟨h.hands.stay hhand, h.fifo⟩
  | finish =>
    cases hex
    exact ⟨h.hands.stay hallow.1.hand.symm, h.fifo⟩
  | forget key =>
    obtain rfl | rfl := forget_cases hex
    all_goals exact ⟨h.hands.stay rfl, h.fifo⟩
  | reserveHostConnect port =>
    obtain ⟨n, ⟨rfl, rfl⟩ | ⟨key, -, -, rfl, rfl⟩⟩ :=
      reserveHostConnect_cases hex
    all_goals exact ⟨h.hands.stay rfl, h.fifo⟩
  | acceptRequest hdr =>
    obtain ⟨rfl, rfl⟩ | ⟨-, -, rfl, rfl⟩ := acceptRequest_cases hex
    all_goals exact ⟨h.hands.stay rfl, h.fifo⟩
  | spawn key id =>
    cases hex
    cases c.flag <;> exact ⟨h.hands.stay rfl, h.fifo⟩
  | read id =>
    obtain ⟨-, rfl⟩ | ⟨n, rfl, rfl⟩ := read_cases hex
    · cases a <;> exact ⟨h.hands.stay rfl, h.fifo⟩
    · exact ⟨h.hands.stay rfl, h.fifo⟩
  | popRx => exact passes_popRx h hallow hex
  | requeueRxFront p => exact passes_requeueRxFront h hallow hex
  | publish head written p => exact passes_publish h hallow hex
  | pushRx hdr => exact passes_pushRx h hex
  | queueHostData key id data => exact passes_queueHostData h hex
  | _ => exact passes_silent h (by trivial) hex

theorem Flow.move (m : Move) : Flow (s.move m) gh := by
  cases m with
  | send id bytes => exact ⟨h.tied, h.nested, h.hands, h.fifo⟩

end Step

/-- A step that meets a condition does so at the operation it takes. -/
theorem everyStep_op {ok : Op → Shared → Bool} {s : Pool Op Ans Shared}
    {t : Nat} {c : Choice} {k : Ans o → Prog Unit} (ht : s.thr t = .op o k)
    (h : everyStep ok (.run t c) s) : ok o s.sh = true := by
  have hhead : (s.thr t).head? = some o := by
    rw [ht]
    rfl
  simpa [everyStep, hhead] using h

end Rshyve.Virtio.Vsock
