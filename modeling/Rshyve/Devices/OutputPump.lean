/-
# The serial output pump

Every stdout port pushes its bytes on one queue, and one writer thread drains
it. The writer and the callers of `flush` wait on the same condition variable,
and a push wakes one waiter, whichever it is, and only if the queue was empty.
That is enough because the two kinds never wait together: a flush waits only
while there is something to write, and the writer only while there is not
(`Inv.asleep`, `Inv.flushing`).

Each section under the lock is one step. What the writer does between two of
them, the consumer can cut short at any byte.
-/
import Rshyve.Conc.Trace

namespace Rshyve.Devices

open Function

def stdoutQueueCap : Nat := 64 * 1024

structure OutputQueue where
  buf : List UInt8
  inFlight : Nat
  closed : Bool
  dropped : Nat
  deriving DecidableEq, Repr

/-- Where the writer thread is: about to look at the queue, with `rest` of a
chunk still to write, back from the consumer, or ended. -/
inductive Writer where
  | looking
  | writing (rest : List UInt8)
  | wrote (ok : Bool)
  | ended
  deriving DecidableEq, Repr

/-- Where a call of `flush` is. It was made when `queued` bytes had been
queued. -/
inductive FlushCall where
  | none
  | looking (queued : Nat)
  | returned (queued : Nat) (drained : Bool)
  deriving DecidableEq, Repr

/-- What became of a push. -/
inductive Fate where
  | queued
  | dropped
  | discarded
  deriving DecidableEq, Repr

/-- The pump, with all that was pushed so far and what the consumer has. On
the condition variable wait the writer, as `none`, and calls of `flush`. -/
structure OutputPump where
  queue : OutputQueue
  changed : List (Option Nat)
  writer : Writer
  flushes : Nat → FlushCall
  pushed : List (UInt8 × Fate)
  written : List UInt8

namespace OutputPump

def start : OutputPump := ⟨⟨[], 0, false, 0⟩, [], .looking, fun _ => .none, [], []⟩

/-- Of what was pushed, the bytes that went into the queue. -/
def queued (pushed : List (UInt8 × Fate)) : List UInt8 :=
  (pushed.filter (·.2 == .queued)).map (·.1)

inductive Act where
  /-- `push`. Of the waiters `notify_one` picks the one at `woken`. -/
  | push (b : UInt8) (woken : Nat)
  /-- The writer looks at the queue. -/
  | take
  /-- The consumer accepts `n` more bytes of the chunk. -/
  | write (n : Nat)
  /-- `write_all` and the consumer's `flush` return. -/
  | answer (ok : Bool)
  /-- The writer locks the queue again. -/
  | settle
  /-- Call `t` of `flush` begins. -/
  | flush (t : Nat)
  /-- Call `t` looks at the queue. -/
  | check (t : Nat) (timeUp : Bool)
  /-- A waiter wakes by itself, or its time is up. -/
  | wake (w : Option Nat)

def push (p : OutputPump) (b : UInt8) (woken : Nat) : OutputPump :=
  if p.queue.closed then { p with pushed := p.pushed ++ [(b, .discarded)] }
  else if stdoutQueueCap ≤ p.queue.buf.length then
    { p with
      queue := { p.queue with dropped := p.queue.dropped + 1 }
      pushed := p.pushed ++ [(b, .dropped)] }
  else
    { p with
      queue := { p.queue with buf := p.queue.buf ++ [b] }
      changed :=
        if p.queue.buf = [] then p.changed.eraseIdx (woken % p.changed.length)
        else p.changed
      pushed := p.pushed ++ [(b, .queued)] }

def step (p : OutputPump) : Act → Option OutputPump
  | .push b woken => some (p.push b woken)
  | .take =>
    if p.writer ≠ .looking ∨ none ∈ p.changed then none
    else if p.queue.buf = [] then
      some { p with changed := p.changed ++ [none] }
    else
      some { p with
        queue := { p.queue with buf := [], inFlight := p.queue.buf.length }
        writer := .writing p.queue.buf }
  | .write n =>
    match p.writer with
    | .writing rest =>
      some { p with
        writer := .writing (rest.drop n)
        written := p.written ++ rest.take n }
    | _ => none
  | .answer ok =>
    match p.writer with
    | .writing rest =>
      if ok = true ∧ rest ≠ [] then none else some { p with writer := .wrote ok }
    | _ => none
  | .settle =>
    match p.writer with
    | .wrote true =>
      some { p with
        queue := { p.queue with inFlight := 0 }
        changed := []
        writer := .looking }
    | .wrote false =>
      some { p with
        queue := { p.queue with buf := [], inFlight := 0, closed := true }
        changed := []
        writer := .ended }
    | _ => none
  | .flush t =>
    if p.flushes t = .none then
      some { p with
        flushes := update p.flushes t (.looking (queued p.pushed).length) }
    else none
  | .check t timeUp =>
    match p.flushes t with
    | .looking queued =>
      if some t ∈ p.changed then none
      else if p.queue.closed ∨ p.queue.buf = [] ∧ p.queue.inFlight = 0 then
        some { p with flushes := update p.flushes t (.returned queued true) }
      else if timeUp then
        some { p with flushes := update p.flushes t (.returned queued false) }
      else some { p with changed := p.changed ++ [some t] }
    | _ => none
  | .wake w =>
    if w ∈ p.changed then some { p with changed := p.changed.erase w } else none

-- ==== what is kept

/-- The consumer refused a write. -/
def failed (p : OutputPump) : Bool := p.queue.closed || p.writer == .wrote false

/-- Of the chunk in flight, what the consumer does not have. -/
def unwritten (p : OutputPump) : List UInt8 :=
  match p.writer with
  | .writing rest => rest
  | _ => []

structure Inv (p : OutputPump) : Prop where
  bytes : p.failed = false → p.written ++ p.unwritten ++ p.queue.buf = queued p.pushed
  order : p.written <+: queued p.pushed
  drops : p.pushed.countP (·.2 == .dropped) = p.queue.dropped
  discards : ∀ b, (b, Fate.discarded) ∈ p.pushed → p.queue.closed = true
  busy : p.queue.inFlight = 0 ↔ p.writer = .looking ∨ p.writer = .ended
  ended : p.writer = .ended ↔ p.queue.closed = true
  asleep : none ∈ p.changed → p.changed = [none] ∧ p.queue.buf = [] ∧ p.writer = .looking
  flushing : ∀ t, some t ∈ p.changed → p.queue.buf ≠ [] ∨ p.queue.inFlight ≠ 0
  calls : ∀ t n, p.flushes t = .looking n → n ≤ (queued p.pushed).length
  flushed : ∀ t n, p.flushes t = .returned n true → p.queue.closed = true ∨ n ≤ p.written.length

variable {p p' : OutputPump}

theorem queued_append (xs : List (UInt8 × Fate)) (b : UInt8) (f : Fate) :
    queued (xs ++ [(b, f)]) = queued xs ++ if f = .queued then [b] else [] := by
  cases f <;> simp [queued]

theorem inv_start : Inv start := by
  constructor <;> simp [start, failed, unwritten, queued]

/-- A byte that is not queued changes the counts only. -/
theorem Inv.refused (h : Inv p) {b : UInt8} {f : Fate} (hf : f ≠ .queued)
    (hclosed : f = .discarded → p.queue.closed = true) :
    Inv { p with
      queue := { p.queue with
        dropped := p.queue.dropped + if f = .dropped then 1 else 0 }
      pushed := p.pushed ++ [(b, f)] } := by
  have hsame : queued (p.pushed ++ [(b, f)]) = queued p.pushed := by
    simp [queued_append, hf]
  refine { h with
    bytes := fun hfail => (h.bytes hfail).trans hsame.symm
    order := hsame ▸ h.order
    drops := ?_
    discards := fun c hc => ?_
    calls := fun t n ht => hsame ▸ h.calls t n ht }
  · simp [h.drops, List.countP_cons]
  · rcases List.mem_append.mp hc with hc | hc
    · exact h.discards c hc
    · simp only [List.mem_singleton, Prod.mk.injEq] at hc
      exact hclosed hc.2.symm

theorem Inv.push (h : Inv p) (b : UInt8) (woken : Nat) : Inv (p.push b woken) := by
  unfold OutputPump.push
  split
  next hclosed => exact h.refused (f := .discarded) (by simp) fun _ => hclosed
  split
  · exact h.refused (f := .dropped) (by simp) (by simp)
  · -- the writer, if it waits, waits alone, so it is the one woken
    have hawake : none ∉ (if p.queue.buf = [] then
        p.changed.eraseIdx (woken % p.changed.length) else p.changed) := by
      intro hin
      split at hin
      · have hnone := (h.asleep (List.mem_of_mem_eraseIdx hin)).1
        simp [hnone, Nat.mod_one] at hin
      next hbuf => exact hbuf (h.asleep hin).2.1
    refine { h with
      bytes := fun hfail => ?_
      order := ?_
      drops := by simp [h.drops]
      discards := fun c hc => h.discards c (by simpa using hc)
      asleep := fun hin => absurd hin hawake
      flushing := fun _ _ => .inl (by simp)
      calls := fun t n ht => ?_ }
    · have hbytes := h.bytes hfail
      simp only [queued_append, if_true, ← hbytes]
      simp [unwritten]
    · exact h.order.trans (by simp [queued_append])
    · have hn := h.calls t n ht
      simp [queued_append]
      omega

theorem Inv.take (h : Inv p) (hstep : p.step .take = some p') : Inv p' := by
  simp only [step] at hstep
  split at hstep
  · cases hstep
  next hready =>
    rw [not_or, not_not] at hready
    have hidle : p.queue.inFlight = 0 := h.busy.mpr (.inl hready.1)
    split at hstep
    next hbuf =>
      -- no flush waits for an empty queue
      have hnone : p.changed = [] := by
        cases hch : p.changed with
        | nil => rfl
        | cons w ws =>
          cases w with
          | none => simp [hch] at hready
          | some t =>
            have := h.flushing t (by simp [hch])
            simp [hbuf, hidle] at this
      cases hstep
      exact { h with
        asleep := fun _ => ⟨by simp [hnone], hbuf, hready.1⟩
        flushing := by simp [hnone] }
    next hbuf =>
      cases hstep
      have hlen : p.queue.buf.length ≠ 0 := by simpa using hbuf
      refine { h with
        bytes := fun hfail => ?_
        busy := by simp [hlen]
        ended := by simpa [hready.1] using h.ended
        asleep := fun hin => absurd hin hready.2
        flushing := fun _ _ => .inr hlen }
      have hfail' : p.failed = false := by simpa [failed, hready.1] using hfail
      simpa [unwritten, hready.1] using h.bytes hfail'

/-- While a chunk is in flight nothing is lost yet. -/
theorem Inv.writing (h : Inv p) {rest : List UInt8} (hw : p.writer = .writing rest) :
    p.queue.closed = false ∧ none ∉ p.changed ∧ p.queue.inFlight ≠ 0 ∧
      p.written ++ rest ++ p.queue.buf = queued p.pushed := by
  have hopen : p.queue.closed = false := by simpa [hw] using h.ended
  refine ⟨hopen, fun hin => ?_, by simp [h.busy, hw], ?_⟩
  · simpa [hw] using (h.asleep hin).2.2
  · have hfail : p.failed = false := by simp [failed, hw, hopen]
    simpa [unwritten, hw] using h.bytes hfail

theorem Inv.write {n : Nat} (h : Inv p) (hstep : p.step (.write n) = some p') : Inv p' := by
  simp only [step] at hstep
  split at hstep
  next rest hw =>
    cases hstep
    obtain ⟨hopen, hawake, hbusy, hbytes⟩ := h.writing hw
    have hbytes' : p.written ++ rest.take n ++ rest.drop n ++ p.queue.buf = queued p.pushed := by
      simpa using hbytes
    refine { h with
      bytes := fun _ => hbytes'
      order := ?_
      busy := by simp [hbusy]
      ended := by simp [hopen]
      asleep := fun hin => absurd hin hawake
      flushed := fun t n hret => ?_ }
    · simp only [← hbytes', List.append_assoc]
      simp
    · have := h.flushed t n hret
      simp [hopen] at this ⊢
      omega
  · cases hstep

theorem Inv.answer {ok : Bool} (h : Inv p) (hstep : p.step (.answer ok) = some p') : Inv p' := by
  simp only [step] at hstep
  split at hstep
  next rest hw =>
    obtain ⟨hopen, hawake, hbusy, hbytes⟩ := h.writing hw
    split at hstep
    · cases hstep
    next hall =>
      cases hstep
      refine { h with
        bytes := fun hfail => ?_
        busy := by simp [hbusy]
        ended := by simp [hopen]
        asleep := fun hin => absurd hin hawake }
      have hok : ok = true := by simpa [failed, hopen] using hfail
      have hrest : rest = [] := by simpa [hok] using hall
      simpa [unwritten, hrest] using hbytes
  · cases hstep

theorem Inv.settle (h : Inv p) (hstep : p.step .settle = some p') : Inv p' := by
  simp only [step] at hstep
  split at hstep
  next hw =>
    cases hstep
    have hopen : p.queue.closed = false := by simpa [hw] using h.ended
    have hbytes := h.bytes (by simp [failed, hw, hopen])
    exact { h with
      bytes := fun _ => by simpa [unwritten, hw] using hbytes
      busy := by simp
      ended := by simp [hopen]
      asleep := by simp
      flushing := by simp }
  next hw =>
    cases hstep
    exact { h with
      bytes := by simp [failed]
      discards := by simp
      busy := by simp
      ended := by simp
      asleep := by simp
      flushing := by simp
      flushed := by simp }
  · cases hstep

/-- A call of `flush` moves on. -/
theorem Inv.call (h : Inv p) (t : Nat) {x : FlushCall}
    (hlook : ∀ n, x = .looking n → n ≤ (queued p.pushed).length)
    (hret : ∀ n, x = .returned n true → p.queue.closed = true ∨ n ≤ p.written.length) :
    Inv { p with flushes := update p.flushes t x } := by
  refine { h with
    calls := fun u n hu => ?_
    flushed := fun u n hu => ?_ }
  all_goals by_cases hut : u = t
  · exact hlook n (by simpa [hut] using hu)
  · exact h.calls u n (by simpa [hut] using hu)
  · exact hret n (by simpa [hut] using hu)
  · exact h.flushed u n (by simpa [hut] using hu)

/-- With nothing queued or in flight the consumer has every byte. -/
theorem Inv.drained (h : Inv p) (hopen : p.queue.closed = false)
    (hbuf : p.queue.buf = []) (hidle : p.queue.inFlight = 0) :
    p.written = queued p.pushed := by
  have hw : p.writer = .looking := by
    simpa [h.ended, hopen] using h.busy.mp hidle
  simpa [unwritten, hw, hbuf] using h.bytes (by simp [failed, hw, hopen])

theorem Inv.check {t : Nat} {timeUp : Bool} (h : Inv p)
    (hstep : p.step (.check t timeUp) = some p') : Inv p' := by
  simp only [step] at hstep
  split at hstep
  next n ht =>
    split at hstep
    · cases hstep
    split at hstep
    next hdone =>
      cases hstep
      refine h.call t (by simp) fun m hm => ?_
      obtain rfl : n = m := by simpa using hm
      cases hopen : p.queue.closed with
      | true => exact .inl rfl
      | false =>
        obtain ⟨hbuf, hidle⟩ : p.queue.buf = [] ∧ p.queue.inFlight = 0 := by
          simpa [hopen] using hdone
        rw [h.drained hopen hbuf hidle]
        exact .inr (h.calls t n ht)
    next hmore =>
      split at hstep
      · cases hstep
        exact h.call t (by simp) (by simp)
      · cases hstep
        rw [not_or, not_and_or] at hmore
        -- the writer does not wait while there is something to write
        have hawake : none ∉ p.changed ++ [some t] := by
          intro hin
          obtain ⟨-, hbuf, hw⟩ := h.asleep (by simpa using hin)
          simp [hbuf, h.busy, hw] at hmore
        exact { h with
          asleep := fun hin => absurd hin hawake
          flushing := fun _ _ => hmore.2 }
  · cases hstep

theorem inv_step {a : Act} (h : Inv p) (hstep : p.step a = some p') : Inv p' := by
  cases a with
  | push b woken =>
    cases hstep
    exact h.push b woken
  | take => exact h.take hstep
  | write n => exact h.write hstep
  | answer ok => exact h.answer hstep
  | settle => exact h.settle hstep
  | flush t =>
    simp only [step] at hstep
    split at hstep
    · cases hstep
      exact h.call t (by simp) (by simp)
    · cases hstep
  | check t timeUp => exact h.check hstep
  | wake w =>
    simp only [step] at hstep
    split at hstep
    next hin =>
      cases hstep
      refine { h with
        asleep := fun hnone => ?_
        flushing := fun t ht => h.flushing t (List.mem_of_mem_erase ht) }
      -- the writer waits alone, so it is the one that woke
      have hold := h.asleep (List.mem_of_mem_erase hnone)
      simp_all
    · cases hstep

-- ==== whole runs

/-- In every interleaving, the consumer has a first part of what was queued,
in push order, and all of it but what is queued or in flight until it fails.
Every other push was dropped and counted, or came once the queue was closed.
The writer waits only on an empty queue. A flush that returned true found
every byte queued before it written, or the consumer gone. -/
theorem pump_delivers {acts : List Act}
    (hrun : Conc.run step start acts = some p) :
    p.written <+: queued p.pushed ∧
    (p.failed = false →
      p.written ++ p.unwritten ++ p.queue.buf = queued p.pushed) ∧
    p.pushed.countP (·.2 == .dropped) = p.queue.dropped ∧
    (∀ b, (b, Fate.discarded) ∈ p.pushed → p.queue.closed = true) ∧
    (none ∈ p.changed → p.queue.buf = []) ∧
    ∀ t n, p.flushes t = .returned n true →
      p.queue.closed = true ∨ n ≤ p.written.length := by
  have h := Conc.run_inv (fun _ _ _ => inv_step) hrun inv_start
  exact ⟨h.order, h.bytes, h.drops, h.discards, fun hin => (h.asleep hin).2.1,
    h.flushed⟩

/-- Two bytes, the second while the first is in flight, and a flush that waits
for both. -/
def drains : List Act :=
  [.take, .push 65 0, .take, .push 66 0, .flush 0, .check 0 false, .write 1,
    .answer true, .settle, .take, .write 1, .answer true, .settle,
    .check 0 false]

theorem pump_delivers_drains : ∃ p, Conc.run step start drains = some p ∧
    p.written = [65, 66] ∧ p.flushes 0 = .returned 2 true ∧
    (p.queue.closed = true ∨ 2 ≤ p.written.length) := by
  have hrun : ∃ p, Conc.run step start drains = some p ∧
      p.written = [65, 66] ∧ p.flushes 0 = .returned 2 true := by decide
  obtain ⟨p, hp, hw, hret⟩ := hrun
  exact ⟨p, hp, hw, hret, (pump_delivers hp).2.2.2.2.2 0 2 hret⟩

/-- A consumer that refuses its first write. Both bytes were pushed before,
and neither is written or counted. -/
theorem queued_bytes_lost : ∃ p, Conc.run step start
    [.push 65 0, .push 66 0, .take, .answer false, .settle] = some p ∧
    p.pushed = [(65, .queued), (66, .queued)] ∧ p.written = [] ∧
    p.queue.dropped = 0 := by decide

end OutputPump

end Rshyve.Devices
