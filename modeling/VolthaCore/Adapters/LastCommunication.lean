import Mathlib.Data.Set.Finite.Lemmas
import VolthaCore.Adapters.AdapterManager

/-! The time of the last message of an adapter. The adapter manager gets the timestamps of the
messages in milliseconds, in any order, and keeps the latest one that is not in the future. -/

namespace VolthaCore.Adapters

open Set

/-- The first second that a protobuf timestamp cannot hold, that of the year 10000. -/
def maxValidSeconds : ℕ := 253402300800

/-- The time in nanoseconds that is made of a timestamp in milliseconds. -/
def unixTime (timestamp : ℕ) : ℕ := timestamp / 1000 * 1000000000 + timestamp % 1000 * 1000

def AdapterAgent.updateCommunicationTime (agent : AdapterAgent) (new now : ℕ) : AdapterAgent :=
  if new ≤ now ∧ agent.adapter.lastCommunication.all (· < new) ∧
      new / 1000000000 < maxValidSeconds then
    { agent with adapter := { agent.adapter with lastCommunication := some new } }
  else agent

/-- A message, with the clock in nanoseconds when it arrives. -/
structure Message where
  timestamp : ℕ
  now : ℕ

def updateLastAdapterCommunication (adapterID : String) (m : AdapterManager) (msg : Message) :
    AdapterManager :=
  match m.adapterAgents.lookup adapterID with
  | none => m
  | some agent =>
    let updated := agent.updateCommunicationTime (unixTime msg.timestamp) msg.now
    { m with adapterAgents := m.adapterAgents.insert adapterID updated }

/-- The last communication of an adapter after some messages. -/
def lastAfter (adapterID : String) (m : AdapterManager) (msgs : List Message) : Option ℕ :=
  ((Runs.run (updateLastAdapterCommunication adapterID) msgs m).getAdapter adapterID).bind
    Adapter.lastCommunication

/-- The message was not sent in the future. -/
def Message.Past (msg : Message) : Prop := msg.timestamp * 1000000 ≤ msg.now

/-- The message passes for one that was not sent in the future, and its time can be held. -/
def Message.Taken (msg : Message) : Prop :=
  unixTime msg.timestamp ≤ msg.now ∧ msg.timestamp / 1000 < maxValidSeconds

instance (msg : Message) : Decidable msg.Taken := inferInstanceAs (Decidable (_ ∧ _))

/-- The timestamps of the messages with a property. -/
def timestamps (P : Message → Prop) (msgs : List Message) : Set ℕ :=
  {t | ∃ msg ∈ msgs, P msg ∧ msg.timestamp = t}

/-- The greatest of the times, if there is one. -/
def Latest (S : Set ℕ) : Option ℕ → Prop
  | none => S = ∅
  | some last => IsGreatest S last

section Messages

variable {adapterID : String} {m : AdapterManager} {a : Adapter} {msgs : List Message}

theorem Latest.update {S : Set ℕ} {last : Option ℕ} (h : Latest S last) (p : Prop) [Decidable p]
    (new : ℕ) : Latest (if p then insert new S else S)
      (if p ∧ last.all (· < new) then some new else last) := by
  by_cases hp : p
  · rw [if_pos hp]
    cases last with
    | none =>
      obtain rfl : S = ∅ := h
      simp [hp, Latest]
    | some l =>
      have hmax := IsGreatest.insert new h
      by_cases hl : l < new
      · simpa [hp, hl, max_eq_left hl.le, Latest] using hmax
      · simpa [hp, hl, max_eq_right (not_lt.mp hl), Latest] using hmax
  · simpa [hp] using h

theorem timestamps_concat (msg : Message) : unixTime '' timestamps Message.Taken (msgs ++ [msg]) =
    if msg.Taken then insert (unixTime msg.timestamp) (unixTime '' timestamps Message.Taken msgs)
    else unixTime '' timestamps Message.Taken msgs := by
  ext t
  split_ifs with hmsg <;> simp [timestamps, hmsg, or_and_right, exists_or, eq_comm, or_comm]

theorem latest_run (ha : m.getAdapter adapterID = some a) (hnone : a.lastCommunication = none)
    (msgs : List Message) : ∃ a',
      (Runs.run (updateLastAdapterCommunication adapterID) msgs m).getAdapter adapterID = some a' ∧
        Latest (unixTime '' timestamps Message.Taken msgs) a'.lastCommunication := by
  induction msgs using List.reverseRecOn with
  | nil => exact ⟨a, ha, by simp [Latest, hnone, timestamps]⟩
  | append_singleton msgs msg ih =>
    obtain ⟨a', ha', hlatest⟩ := ih
    obtain ⟨agent, hagent, rfl⟩ := Option.map_eq_some_iff.mp ha'
    refine ⟨(agent.updateCommunicationTime (unixTime msg.timestamp) msg.now).adapter, ?_, ?_⟩
    · rw [Runs.run_append, Runs.run_cons, Runs.run_nil, updateLastAdapterCommunication, hagent]
      rw [AdapterManager.getAdapter, AList.lookup_insert]
      rfl
    · have hseconds : unixTime msg.timestamp / 1000000000 = msg.timestamp / 1000 := by
        unfold unixTime
        omega
      rw [timestamps_concat, AdapterAgent.updateCommunicationTime, hseconds, apply_ite
        (fun agent : AdapterAgent => agent.adapter.lastCommunication)]
      convert hlatest.update msg.Taken (unixTime msg.timestamp) using 2
      rw [Message.Taken]
      tauto

theorem timestamps_mono {P Q : Message → Prop} (h : ∀ msg, P msg → Q msg) :
    timestamps P msgs ⊆ timestamps Q msgs :=
  fun _ ⟨msg, hmem, hmsg, ht⟩ => ⟨msg, hmem, h msg hmsg, ht⟩

theorem monotone_unixTime : Monotone unixTime := by
  intro s t hst
  unfold unixTime
  omega

theorem finite_timestamps (P : Message → Prop) (msgs : List Message) :
    (timestamps P msgs).Finite :=
  (msgs.finite_toSet.image Message.timestamp).subset fun _ ⟨msg, hmem, _, ht⟩ => ⟨msg, hmem, ht⟩

end Messages

/-- The last communication is right exactly when the greatest timestamp that counts is that of a
whole second before the year 10000. -/
theorem last_communication_latest_iff {adapterID : String} {m : AdapterManager} {a : Adapter}
    (ha : m.getAdapter adapterID = some a) (hnone : a.lastCommunication = none)
    (msgs : List Message) :
    (Latest ((· * 1000000) '' timestamps Message.Past msgs) (lastAfter adapterID m msgs) ∧
        ∀ before later, msgs = before ++ later → ∀ t, lastAfter adapterID m before = some t →
          ∃ t' ≥ t, lastAfter adapterID m msgs = some t') ↔
      ∀ g, IsGreatest (timestamps (fun msg => msg.Past ∨ msg.Taken) msgs) g →
        g % 1000 = 0 ∧ g / 1000 < maxValidSeconds := by
  have hlatest : ∀ msgs, Latest (unixTime '' timestamps Message.Taken msgs)
      (lastAfter adapterID m msgs) := by
    intro msgs
    obtain ⟨a', ha', hlatest⟩ := latest_run ha hnone msgs
    rwa [lastAfter, ha']
  have hgrows : ∀ before later, msgs = before ++ later → ∀ t,
      lastAfter adapterID m before = some t → ∃ t' ≥ t, lastAfter adapterID m msgs = some t' := by
    rintro before later rfl t ht
    have hbefore := hlatest before
    have hall := hlatest (before ++ later)
    rw [ht] at hbefore
    obtain ⟨c, ⟨msg, hmem, hmsg⟩, hc⟩ := hbefore.1
    have hrec : t ∈ unixTime '' timestamps Message.Taken (before ++ later) :=
      ⟨c, ⟨msg, List.mem_append_left _ hmem, hmsg⟩, hc⟩
    generalize lastAfter adapterID m (before ++ later) = last at hall
    cases last with
    | none => exact absurd hrec (eq_empty_iff_forall_notMem.mp hall t)
    | some t' => exact ⟨t', hall.2 hrec, rfl⟩
  rw [and_iff_left hgrows]
  have hall := hlatest msgs
  generalize lastAfter adapterID m msgs = last at hall
  constructor
  · rintro hexact g ⟨⟨msg, hmem, hcounts, rfl⟩, hmax⟩
    cases last with
    | none =>
      rcases hcounts with hpast | htaken
      · cases eq_empty_iff_forall_notMem.mp hexact _ ⟨_, ⟨msg, hmem, hpast, rfl⟩, rfl⟩
      · cases eq_empty_iff_forall_notMem.mp hall _ ⟨_, ⟨msg, hmem, htaken, rfl⟩, rfl⟩
    | some t =>
      obtain ⟨⟨p, -, hp⟩, hpast⟩ := hexact
      obtain ⟨⟨_, ⟨c, hc, hctaken, rfl⟩, htc⟩, htaken⟩ := hall
      have hcg := hmax ⟨c, hc, .inr hctaken, rfl⟩
      have hgt : msg.timestamp * 1000000 ≤ t ∨ unixTime msg.timestamp ≤ t :=
        hcounts.imp (fun h => hpast ⟨_, ⟨msg, hmem, h, rfl⟩, rfl⟩)
          fun h => htaken ⟨_, ⟨msg, hmem, h, rfl⟩, rfl⟩
      have hbound := hctaken.2
      dsimp only at hp
      unfold unixTime at htc hgt
      omega
  · intro hwhole
    obtain hempty | hne := (timestamps (fun msg => msg.Past ∨ msg.Taken) msgs).eq_empty_or_nonempty
    · rw [subset_eq_empty (timestamps_mono fun _ => .inr) hempty, image_empty] at hall
      rwa [subset_eq_empty (timestamps_mono fun _ => .inl) hempty, image_empty]
    · obtain ⟨g, hg, hmax⟩ := exists_max_image _ id (finite_timestamps _ msgs) hne
      obtain ⟨hg0, hbound⟩ := hwhole g ⟨hg, hmax⟩
      have hunix : unixTime g = g * 1000000 := by
        unfold unixTime
        omega
      obtain ⟨msg, hmem, hcounts, rfl⟩ := hg
      have hpast : msg.Past := hcounts.elim id fun h => (hunix ▸ h.1 :)
      have htaken : msg.Taken := ⟨hunix ▸ hpast, hbound⟩
      have hgreatest : ∀ {P : Message → Prop}, (∀ msg, P msg → msg.Past ∨ msg.Taken) → P msg →
          IsGreatest (timestamps P msgs) msg.timestamp := fun hP hmsg =>
        ⟨⟨msg, hmem, hmsg, rfl⟩, fun t ht => hmax t (timestamps_mono hP ht)⟩
      have hlast := monotone_unixTime.map_isGreatest (hgreatest (fun _ => .inr) htaken)
      cases last with
      | none => exact absurd hall hlast.nonempty.ne_empty
      | some t =>
        rw [hall.unique hlast, hunix]
        have hmono : Monotone fun t : ℕ => t * 1000000 := fun _ _ => Nat.mul_le_mul_right _
        exact hmono.map_isGreatest (hgreatest (fun _ => .inl) hpast)

/-- The messages arrive out of order. -/
theorem last_communication_of_whole_second :
    let m := ({} : AdapterManager).updateAdapter { id := "olt" }
    let messages := [⟨2000, 3000000000⟩, ⟨1500, 3000000000⟩]
    Latest ((· * 1000000) '' timestamps Message.Past messages) (lastAfter "olt" m messages) := by
  refine ((last_communication_latest_iff (a := { id := "olt" }) rfl rfl _).mpr ?_).1
  rintro g ⟨⟨msg, hmem, -, rfl⟩, hgreatest⟩
  rcases List.mem_pair.mp hmem with rfl | rfl
  · decide
  · exact absurd (hgreatest ⟨_, List.mem_cons_self, .inl (show _ ≤ _ by decide), rfl⟩) (by decide)

/-- Half a second is recorded as half a millisecond. -/
theorem last_communication_loses_milliseconds :
    let m := ({} : AdapterManager).updateAdapter { id := "olt" }
    lastAfter "olt" m [⟨2500, 3000000000⟩] = some 2000500000 ∧
      ¬ Latest ((· * 1000000) '' timestamps Message.Past [⟨2500, 3000000000⟩])
        (lastAfter "olt" m [⟨2500, 3000000000⟩]) := by
  intro m
  have hlast : lastAfter "olt" m [⟨2500, 3000000000⟩] = some 2000500000 := by decide
  refine ⟨hlast, fun hlatest => ?_⟩
  rw [hlast] at hlatest
  obtain ⟨t, ⟨msg, hmem, -, rfl⟩, ht⟩ := hlatest.1
  obtain rfl := List.mem_singleton.mp hmem
  cases ht

end VolthaCore.Adapters
