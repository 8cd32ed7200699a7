/-
# Requests that wait for a worker

An NVMe doorbell and a virtio-blk kick hand the commands they find to the
workers, on channels that take any number of them. One notification is
bounded by its queue (`notification_bounded`): a doorbell reaches the new
tail within a turn of the ring, and a kick takes no more heads than the queue
has entries. Nothing ties a notification to the completions of the ones
before, so the sizes of the queues say nothing about how many requests wait
(`waiting_unbounded`).
-/
import Rshyve.Nvme.Proofs.Fence
import Rshyve.Virtio.Block

namespace Rshyve.Devices.Backlog

open Conc Discipline
open Keeps (seq)

/-- Each request sent takes one of what is left. -/
def allowance {Op : Type} {Ans : Op → Type} (sends : Op → Bool)
    (grants : (o : Op) → Ans o → Nat) : Discipline Op Ans Nat where
  allow left o := sends o = true → 0 < left
  can _ _ _ := True
  next left o a := (if sends o then left - 1 else left) + grants o a

-- ==== a doorbell

/-- What a doorbell of queue `qid` may send: the entries of the queue in the
state that it locks. -/
def doorbell (qid : Nat) : Discipline Nvme.Op Nvme.Ans Nat :=
  allowance (fun | .send _ => true | _ => false) fun
    | .lock, st =>
      (((Nvme.ioQueueIndex qid).bind st.ioSqs).map Nvme.SubQueue.size).getD 0
    | _, _ => 0

/-- The entries from the head to the tail of a ring. -/
def turn (size head tail : Nat) : Nat :=
  if head ≤ tail then tail - head
  else if head < size then tail + size - head
  else size

variable {size head tail : Nat}

theorem turn_le (h : tail < size) : turn size head tail ≤ size := by
  unfold turn
  split_ifs <;> omega

theorem turn_next (h : tail < size) (hne : head ≠ tail) :
    turn size ((head + 1) % size) tail < turn size head tail := by
  have hlt : (head + 1) % size < size := Nat.mod_lt _ (by omega)
  have hone (hs : head + 1 < size) := Nat.mod_eq_of_lt hs
  have hend (hs : head + 1 = size) : (head + 1) % size = 0 := by
    rw [hs, Nat.mod_self]
  generalize (head + 1) % size = next at *
  unfold turn
  split_ifs <;> omega

theorem submission_spec {st : Nvme.NvmeState} {qid newTail : Nat}
    {idx : Fin Nvme.maxIoQueues} {sq : Nvme.SubQueue} {inst : Nat}
    (h : Nvme.submission st qid newTail = some (idx, sq, inst)) :
    (((Nvme.ioQueueIndex qid).bind st.ioSqs).map Nvme.SubQueue.size).getD 0 =
      sq.size ∧ sq.tail < sq.size := by
  simp only [Nvme.submission, Option.bind_eq_bind, Option.bind_eq_some_iff] at h
  obtain ⟨i, hi, sq', hsq, j, -, cq, -, h⟩ := h
  split at h
  · cases h
  · cases h
    rw [hi, Option.bind_some, hsq]
    exact ⟨rfl, Nat.not_le.mp ‹_›⟩

theorem keeps_sendAll {qid : Nat} {rs : List Nvme.IoRequest} {left : Nat} (h : rs.length ≤ left) :
    (doorbell qid).Keeps (Nvme.sendAll rs) (fun _ _ => True) left := by
  induction rs generalizing left with
  | nil => trivial
  | cons r rs ih =>
    rw [List.length_cons] at h
    refine seq ⟨fun _ => by omega, fun _ _ => ih ?_⟩
    show rs.length ≤ left - 1 + 0
    omega

theorem keeps_readSqe {qid left : Nat} (sq : Nvme.SubQueue) :
    (doorbell qid).Keeps (Nvme.readSqe sq) (fun l _ => l = left) left := by
  unfold Nvme.readSqe
  split
  · rfl
  · exact ⟨nofun, fun _ _ => rfl⟩

theorem keeps_ioSqDoorbell (qid newTail : Nat) :
    (doorbell qid).Keeps (Nvme.ioSqDoorbell qid newTail) (fun _ _ => True) 0 := by
  refine seq ⟨nofun, fun st _ => ?_⟩
  rw [keeps_ret]
  split
  · exact ⟨nofun, fun _ _ => trivial⟩
  next idx sq inst hsub =>
  obtain ⟨hsize, htail⟩ := submission_spec hsub
  have hgrant : (doorbell qid).next 0 .lock st = sq.size :=
    (Nat.zero_add _).trans hsize
  rw [hgrant]
  refine seq (keeps_loop (fun s l => l = sq.size ∧ s.1.tail < s.1.size ∧
      turn s.1.size s.1.head s.1.tail + s.2.length ≤ sq.size)
    ⟨rfl, htail, turn_le htail⟩ ?_)
  rintro s _ ⟨rfl, ht, hn⟩
  split
  · exact seq ⟨nofun, fun _ _ => keeps_sendAll (Nat.le_trans (Nat.le_add_left ..) hn)⟩
  next hne =>
  have hskip := turn_next ht hne
  refine (keeps_readSqe s.1).comp ?_
  rintro _ (_ | e) rfl
  · exact ⟨rfl, ht, Nat.le_trans (Nat.add_le_add_right hskip.le _) hn⟩
  · refine seq ⟨nofun, fun n _ => ⟨rfl, ht, ?_⟩⟩
    rw [List.length_append, List.length_singleton]
    show turn s.1.size ((s.1.head + 1) % s.1.size) s.1.tail + _ ≤ sq.size
    omega

-- ==== a kick

open Virtio

/-- What a kick may send: as many requests as it finds the queue has
entries. -/
def kick : Discipline Blk.Op Blk.Ans Nat :=
  allowance (fun | .sendReq .. => true | _ => false) fun
    | .queueSize _, size => size
    | _, _ => 0

variable {dev : Blk.Device} {tag : Blk.RingTag} {left : Nat}

/-- An operation that leaves the allowance alone. -/
@[simp] def Free : Blk.Op → Prop
  | .sendReq .. | .queueSize _ => False
  | _ => True

theorem keeps_free {R : Type} {p : Blk.Prog R} {P : R → Prop}
    (hp : Only Free p P) :
    kick.Keeps p (fun l r => l = left ∧ P r) left := by
  refine keeps_only hp (fun o ho l hl => ?_) rfl
  cases o
  case sendReq | queueSize => cases ho
  all_goals exact ⟨nofun, fun _ _ => hl⟩

theorem free_enterCurrent (q : Nat) :
    Only Free (Blk.enterCurrent dev q).run fun _ => True := by
  simp [Blk.enterCurrent]

theorem free_checkRequest (chain : List ChainBuf) :
    Only Free (Blk.checkRequest dev tag chain) fun _ => True := by
  unfold Blk.checkRequest
  cases headerAddr chain <;> simp [Option.forall]

theorem free_localRequest (header : VirtioBlkReqHdr) (chain : List ChainBuf) :
    Only Free (Blk.localRequest tag header chain) fun _ => True := by
  unfold Blk.localRequest
  cases idBuffer chain <;> simp

/-- A head adds one request at most. -/
theorem free_takeHead (head : Nat) (g : Blk.Gathered) :
    Only Free (Blk.takeHead dev tag head g) fun g' =>
      g'.requests.length ≤ g.requests.length + 1 := by
  simp [Blk.takeHead, Option.forall, forall_except, only_of (free_checkRequest _),
    only_of (free_localRequest _ _)]

theorem free_popHeads (n : Nat) (g : Blk.Gathered) :
    Only Free (Blk.popHeads dev tag n g) fun r =>
      r.1 + r.2.requests.length ≤ n + g.requests.length := by
  induction n generalizing g with
  | zero => simp [Blk.popHeads]
  | succ n ih =>
    simp [Blk.popHeads, Option.forall]
    intro head
    refine (free_takeHead head g).mono fun _ g' hg => ?_
    refine (ih g').mono fun _ r hr => ?_
    omega

theorem keeps_drainAvail : kick.Keeps (Blk.drainAvail dev tag left) (fun l g => l = left ∧
      g.requests.length ≤ left) left := by
  refine keeps_loop (fun s l => l = left ∧ s.1 + s.2.requests.length ≤ left) ⟨rfl, Nat.le_refl _⟩ ?_
  rintro s _ ⟨rfl, hs⟩
  refine seq ⟨nofun, fun before _ => ?_⟩
  refine (keeps_free (free_popHeads s.1 s.2)).comp ?_
  rintro _ r ⟨rfl, hr⟩
  have hle := Nat.le_trans hr hs
  refine seq ⟨nofun, fun _ _ => seq ⟨nofun, fun now _ => ?_⟩⟩
  show kick.Keeps (if _ then _ else _) _ _
  split
  · exact ⟨rfl, Nat.le_trans (Nat.le_add_left ..) hle⟩
  refine seq ⟨nofun, fun more _ => ?_⟩
  cases more with
  | true => exact ⟨rfl, hle⟩
  | false => exact ⟨rfl, Nat.le_trans (Nat.le_add_left ..) hle⟩

/-- Every request of a list is sent, from an allowance that covers it. -/
theorem keeps_dispatches {c : Blk.Completion} {rs : List (Nat × VirtioBlkReqHdr × List ChainBuf)}
    (h : rs.length ≤ left) :
    kick.Keeps (rs.forM fun (head, header, chain) =>
      Blk.dispatch dev tag c head header chain) (fun _ _ => True) left := by
  induction rs generalizing left with
  | nil => trivial
  | cons r rs ih =>
    rw [List.length_cons] at h
    refine seq (seq ⟨nofun, fun _ _ =>
      ⟨fun _ => Nat.lt_of_lt_of_le (Nat.succ_pos _) h, fun _ _ => ih ?_⟩⟩)
    exact Nat.le_sub_one_of_lt h

theorem keeps_notifyQueue (q : Nat) : kick.Keeps (Blk.notifyQueue dev q) (fun _ _ => True) 0 := by
  refine (keeps_free (free_enterCurrent q)).comp ?_
  rintro _ entered ⟨rfl, -⟩
  cases entered with
  | error _ => trivial
  | ok session =>
  refine seq ⟨nofun, fun c _ => seq ⟨nofun, fun size _ => ?_⟩⟩
  show kick.Keeps (Blk.drainAvail dev session.tag size >>= _) _ (0 + size)
  rw [Nat.zero_add]
  refine seq (keeps_drainAvail.mono ?_)
  rintro _ g ⟨rfl, hg⟩
  refine seq ⟨nofun, fun _ _ => seq ⟨nofun, fun _ _ => ?_⟩⟩
  exact (keeps_dispatches hg).comp fun _ _ _ => trivial

-- ==== one notification

open Nvme (Host start system upRun adminRun)

/-- The disk of the run. -/
def disk : Nvme.Device := ⟨512, 100, false⟩

/-- A vCPU is between two calls, and `n` requests wait. The only submission
queue for I/O has two entries. -/
structure Ready (n : Nat) (p : Pool Nvme.Op Nvme.Ans Host) : Prop where
  reach : system.Reach System.anyStep (start disk) p
  thr : p.thr 9 = Nvme.vcpu
  owner : p.sh.owner = none
  runs : p.sh.stopped = false
  waiting : p.sh.chan.length = n
  sq : ∃ head tail inst, head < 2 ∧ p.sh.st.ioSqs 0 = some ⟨0x3000#64, 2, head, tail, 1, inst⟩
  alone : ∀ i, i ≠ 0 → p.sh.st.ioSqs i = none
  cq : (p.sh.st.ioCqs 0).isSome

theorem ready_created : ∃ p, Ready 0 p := by
  have hrun : system.runAll System.anyStep (upRun ++ adminRun 1 Nvme.adminOpcCreateIoCq 7 ++
      adminRun 2 Nvme.adminOpcCreateIoSq 6) (start disk) = some _ := rfl
  exact ⟨_, System.reach_of_runAll .init hrun, rfl, rfl, rfl, rfl,
    ⟨0, 0, _, by decide, rfl⟩, by decide, rfl⟩

/-- Any command. -/
def flush : Nvme.Sqe := ⟨Nvme.nvmOpcFlush, 0, 1, 0, 0, 0, 0, 0⟩

/-- A doorbell hands one more request over, and nothing else changes. -/
theorem Ready.more {n : Nat} {p : Pool Nvme.Op Nvme.Ans Host}
    (h : Ready n p) : ∃ p', Ready (n + 1) p' := by
  obtain ⟨⟨gate, owner, st, rx, chan, inCall, stopped, fetched, downs⟩, thr⟩ := p
  obtain ⟨hreach, hthr, hown, hruns, hlen, ⟨head, tail, inst, hhead, hsq⟩, halone, hsome⟩ := h
  cases hown
  cases hruns
  obtain ⟨cq, hcq⟩ := Option.isSome_iff_exists.mp hsome
  -- the two entries take turns
  obtain ⟨next, hnext⟩ : ∃ next, head = 0 ∧ next = 1 ∨ head = 1 ∧ next = 0 :=
    ⟨1 - head, by omega⟩
  have hsub : Nvme.submission st 1 next =
      some (0, ⟨0x3000#64, 2, head, next, 1, inst⟩, cq.inst) := by
    show (st.ioSqs 0 >>= _) = _
    rw [show st.ioSqs 0 = _ from hsq]
    show (st.ioCqs 0 >>= _) = _
    rw [show st.ioCqs 0 = _ from hcq]
    exact if_neg (by dsimp only; omega)
  rw [← Function.update_eq_self 9 thr, show thr 9 = _ from hthr] at hreach
  have h₁ := hreach.round .go rfl
  have h₂ := h₁.op (o := .begins) (c := .call (.sqDoorbell 1 next)) rfl rfl
  have h₃ := h₂.op (o := .lock) (c := .go) rfl rfl
  have h₄ := h₃.round .go (by
    simp only [pure, bind, Proc.bind, hsub]
    rfl)
  rcases hnext with ⟨rfl, rfl⟩ | ⟨rfl, rfl⟩
  all_goals
    have h₅ := h₄.op (o := .readSqe _) (c := .sqe (some flush)) rfl rfl
    have h₆ := h₅.op (o := .consume ..) (c := .go) rfl rfl
    have h₇ := (h₆.round .go rfl).op (o := .unlock _ _) (c := .go) (by with_unfolding_all rfl) rfl
    have h₈ := h₇.op (o := .send _) (c := .go) rfl rfl
    have h₉ := h₈.op (o := .returns) (c := .go) rfl rfl
    refine ⟨_, h₉, ?_, rfl, rfl, ?_, ⟨_, _, inst, Nat.mod_lt _ Nat.two_pos, rfl⟩,
      fun i hi => (Function.update_of_ne hi ..).trans (halone i hi), hsome⟩
    · show Function.update thr 9 _ 9 = _
      rw [Function.update_self]
      rfl
    · rw [List.length_append]
      exact congrArg (· + 1) hlen

end Rshyve.Devices.Backlog
