import VolthaCore.Lib.Runs

/-! Streaming of packets and change events to the controller, after
`grpc_nbi_api_handler.go`. Producers write to a bounded queue, and the stream
calls of one method share a tracker that keeps the last message whose sending
failed. A new stream call tells the one before it to end, puts the kept message
back into the queue and reads on. The kept message is not cleared when it is put
back, a sent message clears it and the next failure overwrites it, so a kept
message is counted twice or lost as soon as the streaming goes on. -/

namespace VolthaCore.Northbound

open List

def queueCapacity : ℕ := 100

/-- Where a stream call is: it has its tracker, it puts a failed message back, it waits for a
message, it sends one, or it has been told to end. -/
inductive Phase (M : Type) where
  | opened
  | flushing (m : M)
  | receiving
  | sending (m : M)
  | ended
  deriving DecidableEq

/-- `callTracker`: what the calls of one method share. -/
structure CallTracker (M : Type) where
  failedPacket : Option M := none
  deriving DecidableEq

/-- One method: the queue, the signal to end, the tracker, and the calls by their number. What was
put into the queue by the producers and what was sent is recorded. -/
structure Streaming (M : Type) where
  queue : List M := []
  queueDone : Bool := false
  tracker : Option (CallTracker M) := none
  calls : List (Phase M) := []
  enqueued : List M := []
  sent : List M := []
  deriving DecidableEq

inductive StreamEvent (M : Type) where
  | enqueue (m : M)
  | start
  | flush (i : ℕ)
  | putBack (i : ℕ)
  | take (i : ℕ)
  | sendReturned (i : ℕ) (ok : Bool)
  | bailOut (i : ℕ)
  deriving DecidableEq

variable {M : Type}

namespace Streaming

def failedPacket (s : Streaming M) : Option M := s.tracker.bind (·.failedPacket)

/-- The first call makes the tracker; a later one waits until the signal has room. -/
def getStreamingTracker (s : Streaming M) : Streaming M :=
  match s.tracker with
  | some _ =>
    if s.queueDone then s else { s with queueDone := true, calls := s.calls ++ [.opened] }
  | none => { s with tracker := some {}, calls := s.calls ++ [.opened] }

def flushFailedPackets (failedPacket : Option M) : Phase M :=
  match failedPacket with
  | none => .receiving
  | some m => .flushing m

/-- One event; what is blocked or does not fit the phase of the call changes nothing. -/
def step (s : Streaming M) : StreamEvent M → Streaming M
  | .enqueue m =>
    if s.queue.length < queueCapacity then
      { s with queue := s.queue ++ [m], enqueued := s.enqueued ++ [m] }
    else s
  | .start => s.getStreamingTracker
  | .flush i =>
    match s.calls[i]? with
    | some .opened => { s with calls := s.calls.set i (flushFailedPackets s.failedPacket) }
    | _ => s
  | .putBack i =>
    match s.calls[i]? with
    | some (.flushing m) =>
      if s.queue.length < queueCapacity then
        { s with queue := s.queue ++ [m], calls := s.calls.set i .receiving }
      else s
    | _ => s
  | .take i =>
    match s.calls[i]?, s.queue with
    | some .receiving, m :: queue => { s with queue, calls := s.calls.set i (.sending m) }
    | _, _ => s
  | .sendReturned i ok =>
    match s.calls[i]? with
    | some (.sending m) =>
      if ok then
        { s with
          sent := s.sent ++ [m]
          tracker := some { failedPacket := none }
          calls := s.calls.set i .receiving }
      else
        { s with tracker := some { failedPacket := some m }, calls := s.calls.set i .receiving }
    | _ => s
  | .bailOut i =>
    match s.calls[i]? with
    | some .receiving =>
      if s.queueDone then { s with queueDone := false, calls := s.calls.set i .ended } else s
    | _ => s

end Streaming

/-! ### The balance -/

def Phase.inFlight : Phase M → List M
  | .sending m => [m]
  | _ => []

variable [DecidableEq M]

namespace Streaming

/-- How often a message waits to be sent: in the queue, or with a call that is sending it. -/
def waiting (s : Streaming M) (m : M) : ℕ :=
  s.queue.count m + (s.calls.flatMap Phase.inFlight).count m

/-- Every message that was enqueued was sent, waits to be sent or is kept as failed, counted
once. -/
def Balanced (s : Streaming M) : Prop :=
  ∀ m, s.enqueued.count m = s.sent.count m + s.waiting m + s.failedPacket.toList.count m

/-- The sending of a message ends only when nothing is kept as failed, and nothing is put back. -/
def Keeps (s : Streaming M) : StreamEvent M → Prop
  | .sendReturned i _ => (∃ m, s.calls[i]? = some (.sending m)) → s.failedPacket = none
  | .putBack i => (∃ m, s.calls[i]? = some (.flushing m)) → queueCapacity ≤ s.queue.length
  | _ => True

end Streaming

theorem count_inFlight_set {calls : List (Phase M)} {i : ℕ} {old : Phase M}
    (hold : calls[i]? = some old) (new : Phase M) (m : M) :
    ((calls.set i new).flatMap Phase.inFlight).count m + old.inFlight.count m =
      (calls.flatMap Phase.inFlight).count m + new.inFlight.count m := by
  induction calls generalizing i with
  | nil => simp at hold
  | cons phase calls ih =>
    cases i with
    | zero =>
      simp only [getElem?_cons_zero, Option.some.injEq] at hold
      subst hold
      simp only [set_cons_zero, flatMap_cons, count_append]
      omega
    | succ i =>
      simp only [getElem?_cons_succ] at hold
      have hrest := ih hold
      simp only [set_cons_succ, flatMap_cons, count_append]
      omega

namespace Streaming

variable {s : Streaming M}

theorem Balanced.of_eq {s' : Streaming M} (hs : s.Balanced) (henqueued : s'.enqueued = s.enqueued)
    (hsent : s'.sent = s.sent) (hfailed : s'.failedPacket = s.failedPacket)
    (hwaiting : ∀ m, s'.waiting m = s.waiting m) : s'.Balanced := by
  intro m
  rw [henqueued, hsent, hfailed, hwaiting m]
  exact hs m

/-- A call that goes from one phase without a message to another leaves the waiting messages. -/
theorem waiting_set {i : ℕ} {old new : Phase M} (hold : s.calls[i]? = some old)
    (hsame : old.inFlight = new.inFlight) (m : M) :
    waiting { s with calls := s.calls.set i new } m = s.waiting m := by
  have hset := count_inFlight_set hold new m
  rw [hsame] at hset
  unfold waiting
  dsimp only
  omega

variable (hs : s.Balanced)
include hs

theorem Balanced.enqueue (m : M) : (s.step (.enqueue m)).Balanced := by
  unfold step
  dsimp only
  split_ifs
  · intro m'
    have hm := hs m'
    unfold waiting at hm ⊢
    simp only [failedPacket, count_append] at hm ⊢
    omega
  · exact hs

theorem Balanced.start : (s.step .start).Balanced := by
  unfold step getStreamingTracker
  dsimp only
  split
  · split_ifs
    · exact hs
    · exact hs.of_eq rfl rfl rfl fun m => by simp [waiting, Phase.inFlight]
  · next htracker =>
    exact hs.of_eq rfl rfl (by simp [failedPacket, htracker])
      fun m => by simp [waiting, Phase.inFlight]

theorem Balanced.flush (i : ℕ) : (s.step (.flush i)).Balanced := by
  unfold step
  dsimp only
  split
  · next hcall =>
    have hnothing : (flushFailedPackets s.failedPacket).inFlight = [] := by
      cases s.failedPacket <;> rfl
    exact hs.of_eq rfl rfl rfl (waiting_set hcall hnothing.symm)
  · exact hs

theorem Balanced.take (i : ℕ) : (s.step (.take i)).Balanced := by
  unfold step
  dsimp only
  split
  · next m queue hcall hqueue =>
    refine hs.of_eq rfl rfl rfl fun m' => ?_
    have hset := count_inFlight_set hcall (.sending m) m'
    simp only [Phase.inFlight, count_nil] at hset
    have hhead : (m :: queue).count m' = queue.count m' + [m].count m' := by
      simp [count_cons]
    unfold waiting
    dsimp only
    rw [hqueue, hhead]
    omega
  · exact hs

theorem Balanced.bailOut (i : ℕ) : (s.step (.bailOut i)).Balanced := by
  unfold step
  dsimp only
  split
  · next hcall =>
    split_ifs
    · exact hs.of_eq rfl rfl rfl (waiting_set hcall rfl)
    · exact hs
  · exact hs

/-- What is put back is still kept, so it is counted twice. -/
theorem balanced_putBack_iff (i : ℕ) :
    (s.step (.putBack i)).Balanced ↔ s.Keeps (.putBack i) := by
  unfold step Keeps
  dsimp only
  split
  · next m hcall =>
    split_ifs with hroom
    · refine iff_of_false (fun hbalanced => ?_) (fun h => absurd (h ⟨m, hcall⟩) (by omega))
      have hset := count_inFlight_set hcall .receiving m
      have hbefore := hs m
      have hafter := hbalanced m
      unfold waiting at hbefore hafter
      simp only [failedPacket, count_append, count_singleton_self, Phase.inFlight,
        count_nil] at hbefore hafter hset
      omega
    · exact iff_of_true hs fun _ => Nat.le_of_not_lt hroom
  · next hother =>
    exact iff_of_true hs fun ⟨m, hcall⟩ => absurd hcall (hother m)

/-- A message that is kept when another sending ends is counted no more. -/
theorem balanced_sendReturned_iff (i : ℕ) (ok : Bool) :
    (s.step (.sendReturned i ok)).Balanced ↔ s.Keeps (.sendReturned i ok) := by
  unfold step Keeps
  dsimp only
  split
  · next m hcall =>
    have hset := count_inFlight_set hcall .receiving
    have hkept : ∀ m', (s.calls.flatMap Phase.inFlight).count m' =
        ((s.calls.set i .receiving).flatMap Phase.inFlight).count m' + [m].count m' := by
      intro m'
      have hm := hset m'
      simp only [Phase.inFlight, count_nil] at hm
      omega
    constructor
    · rintro hbalanced -
      by_contra hfailed
      obtain ⟨lost, hlost⟩ := Option.ne_none_iff_exists'.mp hfailed
      have hbefore := hs lost
      have hafter := hbalanced lost
      unfold waiting at hbefore hafter
      rw [hlost, hkept] at hbefore
      cases ok <;>
        simp [failedPacket, count_append] at hbefore hafter <;> omega
    · intro hnone m'
      have hbefore := hs m'
      unfold waiting at hbefore ⊢
      rw [hnone ⟨m, hcall⟩, hkept] at hbefore
      cases ok <;>
        simp [failedPacket, count_append] at hbefore ⊢ <;> omega
  · next hother =>
    exact iff_of_true hs fun ⟨m, hcall⟩ => absurd hcall (hother m)

theorem balanced_step_iff (e : StreamEvent M) :
    (s.step e).Balanced ↔ s.Keeps e := by
  cases e with
  | enqueue m => exact iff_of_true (hs.enqueue m) trivial
  | start => exact iff_of_true hs.start trivial
  | flush i => exact iff_of_true (hs.flush i) trivial
  | putBack i => exact balanced_putBack_iff hs i
  | take i => exact iff_of_true (hs.take i) trivial
  | sendReturned i ok => exact balanced_sendReturned_iff hs i ok
  | bailOut i => exact iff_of_true (hs.bailOut i) trivial

end Streaming

/-! ### Packets and change events -/

structure PacketIn (P : Type) where
  id : String
  packetIn : P
  deriving DecidableEq

structure ChangeEvent (S : Type) where
  id : String
  portStatus : S
  deriving DecidableEq

/-- The two methods; each has its own queue, signal and tracker. -/
structure Handler (P S : Type) where
  packetsIn : Streaming (PacketIn P) := {}
  changeEvents : Streaming (ChangeEvent S) := {}

inductive Event (P S : Type) where
  | packetsIn (e : StreamEvent (PacketIn P))
  | changeEvents (e : StreamEvent (ChangeEvent S))

variable {P S : Type}

def sendPacketIn (deviceID : String) (packet : P) : Event P S :=
  .packetsIn (.enqueue { id := deviceID, packetIn := packet })

def sendChangeEvent (deviceID : String) (portStatus : S) : Event P S :=
  .changeEvents (.enqueue { id := deviceID, portStatus })

namespace Handler

def step (h : Handler P S) : Event P S → Handler P S
  | .packetsIn e => { h with packetsIn := h.packetsIn.step e }
  | .changeEvents e => { h with changeEvents := h.changeEvents.step e }

variable [DecidableEq P] [DecidableEq S]

def Balanced (h : Handler P S) : Prop := h.packetsIn.Balanced ∧ h.changeEvents.Balanced

def Keeps (h : Handler P S) : Event P S → Prop
  | .packetsIn e => h.packetsIn.Keeps e
  | .changeEvents e => h.changeEvents.Keeps e

theorem balanced_step_iff {h : Handler P S} (hh : h.Balanced) (e : Event P S) :
    (h.step e).Balanced ↔ h.Keeps e := by
  cases e with
  | packetsIn e => exact (and_iff_left hh.2).trans (Streaming.balanced_step_iff hh.1 e)
  | changeEvents e => exact (and_iff_right hh.1).trans (Streaming.balanced_step_iff hh.2 e)

/-- At every moment of a run the messages enqueued are those sent, waiting or kept, exactly when
no sending ends while a failed message is kept and none is put back. -/
theorem streaming_balanced_iff (events : List (Event P S)) :
    (∀ before, before <+: events → (Runs.run step before ({} : Handler P S)).Balanced) ↔
      Runs.Along step Keeps events {} := by
  have hkeeps : ∀ (h : Handler P S) (e : Event P S), True → True → h.Balanced →
      ((h.step e).Balanced ↔ h.Keeps e) := fun h e _ _ hh => balanced_step_iff hh e
  have hstart : ({} : Handler P S).Balanced := ⟨fun m => rfl, fun m => rfl⟩
  exact Runs.forall_prefix_iff_along (I := fun _ => True) (fun _ _ _ h => h) hkeeps
    (fun _ _ => trivial) trivial hstart

/-- A packet whose sending failed is queued and kept after the next stream call has started. With
a second packet that is sent it is neither sent nor queued nor kept. -/
theorem failed_packet_doubled_or_lost :
    let failing : List (Event ℕ Unit) :=
      [sendPacketIn "olt" 1, .packetsIn .start, .packetsIn (.flush 0), .packetsIn (.take 0),
        .packetsIn (.sendReturned 0 false)]
    let doubled := (Runs.run step (failing ++
      [.packetsIn .start, .packetsIn (.flush 1), .packetsIn (.putBack 1)]) {}).packetsIn
    let lost := (Runs.run step (failing ++
      [sendPacketIn "olt" 2, .packetsIn (.take 0), .packetsIn (.sendReturned 0 true)]) {}).packetsIn
    (doubled.enqueued = [⟨"olt", 1⟩] ∧ doubled.sent = [] ∧ doubled.queue = [⟨"olt", 1⟩] ∧
      doubled.failedPacket = some ⟨"olt", 1⟩) ∧
    lost.enqueued = [⟨"olt", 1⟩, ⟨"olt", 2⟩] ∧ lost.sent = [⟨"olt", 2⟩] ∧
      (∀ m, lost.waiting m = 0) ∧ lost.failedPacket = none := by
  refine ⟨by decide, by decide, by decide, fun m => rfl, by decide⟩

end Handler

end VolthaCore.Northbound
