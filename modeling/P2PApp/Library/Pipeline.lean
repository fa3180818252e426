import Mathlib.Data.List.Basic
import Mathlib.Data.List.GetD
import Mathlib.Order.Lattice.Nat
import P2PApp.Library.TransitionSystem

/-!
# Stations in a row

Items are passed on from station to station, in order and each within some delay, and every station
keeps what it has received, with the times. Between two stations, what has arrived is the beginning
of what was sent, no item has taken longer than the delay, and none under way has been so for
longer. Delays add up over several links; and if items are issued at regular times, the last one
that has arrived anywhere is a recent one.
-/

namespace P2PApp

variable {α : Type*}

structure DelayedPrefix (now delay : ℕ) (sent arrived : List (α × ℕ)) : Prop where
  length_le : arrived.length ≤ sent.length
  label : ∀ k (h : k < arrived.length), arrived[k].1 = sent[k].1
  time : ∀ k (h : k < arrived.length),
    sent[k].2 ≤ arrived[k].2 ∧ arrived[k].2 ≤ sent[k].2 + delay
  due : ∀ k (h : k < sent.length), arrived.length ≤ k → now ≤ sent[k].2 + delay

namespace DelayedPrefix

variable {now delay : ℕ} {sent arrived : List (α × ℕ)}

theorem nil (now delay : ℕ) : DelayedPrefix now delay ([] : List (α × ℕ)) [] where
  length_le := le_refl _
  label _ h := nomatch h
  time _ h := nomatch h
  due _ h := nomatch h

/-- A stream that is passed on at once. -/
theorem refl (now : ℕ) (sent : List (α × ℕ)) : DelayedPrefix now 0 sent sent where
  length_le := le_refl _
  label _ _ := rfl
  time _ _ := ⟨le_refl _, le_refl _⟩
  due _ h hle := absurd h (not_lt.2 hle)

/-- One item more is sent. -/
theorem send (h : DelayedPrefix now delay sent arrived) (label : α) :
    DelayedPrefix now delay (sent ++ [(label, now)]) arrived where
  length_le := by
    rw [List.length_append]
    exact Nat.le_add_right_of_le h.length_le
  label k hk := by
    rw [List.getElem_append_left (hk.trans_le h.length_le)]
    exact h.label k hk
  time k hk := by
    rw [List.getElem_append_left (hk.trans_le h.length_le)]
    exact h.time k hk
  due k hk hle := by
    rw [List.length_append, List.length_singleton] at hk
    by_cases hlast : k < sent.length
    · rw [List.getElem_append_left hlast]
      exact h.due k hlast hle
    · rw [List.getElem_append_right (not_lt.1 hlast)]
      simp

/-- The first item under way arrives. -/
theorem arrive (h : DelayedPrefix now delay sent arrived) {label : α} {time : ℕ}
    (hnext : sent[arrived.length]? = some (label, time)) (htime : time ≤ now) :
    DelayedPrefix now delay sent (arrived ++ [(label, now)]) := by
  obtain ⟨hlt, hitem⟩ := List.getElem?_eq_some_iff.1 hnext
  have hdue := h.due arrived.length hlt (le_refl _)
  rw [hitem] at hdue
  refine ⟨?_, ?_, ?_, ?_⟩
  · rw [List.length_append, List.length_singleton]
    exact hlt
  · intro k hk
    by_cases hlast : k < arrived.length
    · rw [List.getElem_append_left hlast]
      exact h.label k hlast
    · obtain rfl : k = arrived.length := by
        rw [List.length_append, List.length_singleton] at hk
        omega
      simp [hitem]
  · intro k hk
    by_cases hlast : k < arrived.length
    · rw [List.getElem_append_left hlast]
      exact h.time k hlast
    · obtain rfl : k = arrived.length := by
        rw [List.length_append, List.length_singleton] at hk
        omega
      simp only [List.getElem_concat_length, hitem]
      exact ⟨htime, hdue⟩
  · intro k hk hle
    rw [List.length_append, List.length_singleton] at hle
    exact h.due k hk (by omega)

/-- Time passes, but not beyond what is due. -/
theorem elapse (h : DelayedPrefix now delay sent arrived) {now' : ℕ}
    (hdue : ∀ item ∈ sent.drop arrived.length, now' ≤ item.2 + delay) :
    DelayedPrefix now' delay sent arrived where
  length_le := h.length_le
  label := h.label
  time := h.time
  due k hk hle := by
    apply hdue
    rw [List.mem_drop_iff_getElem]
    exact ⟨k - arrived.length, by omega, by simp [Nat.add_sub_cancel' hle]⟩

/-- Delays add up. -/
theorem trans {delay' : ℕ} {arrived' : List (α × ℕ)} (h : DelayedPrefix now delay sent arrived)
    (h' : DelayedPrefix now delay' arrived arrived') :
    DelayedPrefix now (delay + delay') sent arrived' where
  length_le := h'.length_le.trans h.length_le
  label k hk := (h'.label k hk).trans (h.label k (hk.trans_le h'.length_le))
  time k hk := by
    have hfirst := h.time k (hk.trans_le h'.length_le)
    have hsecond := h'.time k hk
    omega
  due k hk hle := by
    by_cases harrived : k < arrived.length
    · have hfirst := (h.time k harrived).2
      have hsecond := h'.due k harrived hle
      omega
    · have hfirst := h.due k hk (not_lt.1 harrived)
      omega

/-- The labels arrive in the order in which they were sent. -/
theorem map_fst (h : DelayedPrefix now delay sent arrived) :
    arrived.map Prod.fst = (sent.map Prod.fst).take arrived.length := by
  apply List.ext_getElem
  · rw [List.length_map, List.length_take, List.length_map, min_eq_left h.length_le]
  · intro k hk _
    rw [List.length_map] at hk
    simp only [List.getElem_map, List.getElem_take]
    exact h.label k hk

/-- The time of the first item is a bound for the first arrival. -/
theorem ne_nil (h : DelayedPrefix now delay sent arrived) {item : α × ℕ}
    (hfirst : sent.head? = some item) (hlate : item.2 + delay < now) : arrived ≠ [] := by
  rintro rfl
  cases sent with
  | nil => cases hfirst
  | cons first rest =>
    obtain rfl := Option.some_injective _ hfirst
    have hdue := h.due 0 (Nat.succ_pos _) (le_refl _)
    rw [List.getElem_cons_zero] at hdue
    omega

end DelayedPrefix

/-- Items come at most `period` apart, and the last one is no older than that. -/
structure Steady (now period : ℕ) (sent : List (α × ℕ)) : Prop where
  gap : ∀ k (h : k + 1 < sent.length), sent[k + 1].2 ≤ sent[k].2 + period
  recent : ∀ last ∈ sent.getLast?, now ≤ last.2 + period

theorem Steady.nil (now period : ℕ) : Steady now period ([] : List (α × ℕ)) where
  gap _ h := nomatch h
  recent _ h := nomatch h

theorem Steady.send {now period : ℕ} {sent : List (α × ℕ)} (h : Steady now period sent)
    (label : α) : Steady now period (sent ++ [(label, now)]) where
  gap k hk := by
    rw [List.length_append, List.length_singleton] at hk
    by_cases hlast : k + 1 < sent.length
    · rw [List.getElem_append_left hlast, List.getElem_append_left (by omega)]
      exact h.gap k hlast
    · have hk' : k < sent.length := by omega
      rw [List.getElem_append_right (by omega), List.getElem_append_left hk']
      obtain rfl : k = sent.length - 1 := by omega
      have hrecent := h.recent sent[sent.length - 1] (by
        rw [List.getLast?_eq_getElem?, List.getElem?_eq_getElem hk']
        rfl)
      simpa using hrecent
  recent last hlast := by
    rw [List.getLast?_concat] at hlast
    cases hlast
    exact Nat.le_add_right _ _

theorem Steady.elapse {now now' period : ℕ} {sent : List (α × ℕ)} (h : Steady now period sent)
    (hrecent : ∀ last ∈ sent.getLast?, now' ≤ last.2 + period) : Steady now' period sent where
  gap := h.gap
  recent := hrecent

/-- Whatever has arrived last of a steady stream has been sent recently. -/
theorem Steady.now_le {now period delay : ℕ} {sent arrived : List (α × ℕ)}
    (h : Steady now period sent) (hdelayed : DelayedPrefix now delay sent arrived) {last : α × ℕ}
    (hlast : arrived.getLast? = some last) :
    ∃ item ∈ sent, item.1 = last.1 ∧ item.2 ≤ last.2 ∧ now ≤ item.2 + period + delay := by
  rw [List.getLast?_eq_getElem?] at hlast
  obtain ⟨hlt, rfl⟩ := List.getElem?_eq_some_iff.1 hlast
  have hlength := hdelayed.length_le
  have hwithin : arrived.length - 1 < sent.length := hlt.trans_le hlength
  refine ⟨sent[arrived.length - 1], List.getElem_mem _, (hdelayed.label _ hlt).symm,
    (hdelayed.time _ hlt).1, ?_⟩
  by_cases hmore : arrived.length < sent.length
  · -- the next item is under way
    have hgap := h.gap (arrived.length - 1) (by omega)
    have hdue := hdelayed.due arrived.length hmore (le_refl _)
    have hindex : arrived.length - 1 + 1 = arrived.length := by omega
    simp only [hindex] at hgap
    omega
  · have hindex : sent.length - 1 = arrived.length - 1 := by omega
    have hrecent := h.recent sent[arrived.length - 1] (by
      rw [List.getLast?_eq_getElem?, hindex]
      exact List.getElem?_eq_getElem hwithin)
    exact Nat.le_add_right_of_le hrecent

/-- Stations in a row, each with a record of its items. -/
structure Pipeline (α : Type*) where
  now : ℕ
  log : ℕ → List (α × ℕ)

namespace Pipeline

inductive Event (α : Type*)
  | issue (label : α)
  /-- The next item gets from a station to the one behind it. -/
  | pass (station : ℕ)
  | elapse (duration : ℕ)

/-- What has left a station and not arrived at the next one. -/
def underWay (line : Pipeline α) (station : ℕ) : List (α × ℕ) :=
  (line.log station).drop (line.log (station + 1)).length

def record (line : Pipeline α) (station : ℕ) (label : α) : Pipeline α :=
  { line with
    log := Function.update line.log station (line.log station ++ [(label, line.now)]) }

/-- Labels increase, items are issued at most `period` apart, and no item is under way on one of the
links for longer than `delay`. -/
def system [LT α] (links period delay : ℕ) : TransitionSystem (Pipeline α) (Event α) where
  step line event line' :=
    match event with
    | .issue label => (∀ item ∈ line.log 0, item.1 < label) ∧ line' = line.record 0 label
    | .pass station =>
      station < links ∧ ∃ item ∈ (line.underWay station).head?,
        line' = line.record (station + 1) item.1
    | .elapse duration =>
      (∀ last ∈ (line.log 0).getLast?, line.now + duration ≤ last.2 + period) ∧
        (∀ station < links, ∀ item ∈ line.underWay station, line.now + duration ≤ item.2 + delay) ∧
        line' = { line with now := line.now + duration }

structure Sound [LT α] (links period delay : ℕ) (line : Pipeline α) : Prop where
  past : ∀ station, ∀ item ∈ line.log station, item.2 ≤ line.now
  delayed : ∀ station < links,
    DelayedPrefix line.now delay (line.log station) (line.log (station + 1))
  idle : ∀ station, links < station → line.log station = []
  increasing : (line.log 0).Pairwise fun earlier later ↦ earlier.1 < later.1
  steady : Steady line.now period (line.log 0)

variable {line line' : Pipeline α}

@[simp] theorem log_record (station : ℕ) (label : α) (other : ℕ) :
    (line.record station label).log other =
      if other = station then line.log station ++ [(label, line.now)] else line.log other := by
  exact Function.update_apply ..

theorem sound_nil [LT α] (links period delay now : ℕ) :
    Sound links period delay (⟨now, fun _ ↦ []⟩ : Pipeline α) where
  past _ _ hitem := nomatch hitem
  delayed _ _ := .nil _ _
  idle _ _ := rfl
  increasing := .nil
  steady := .nil _ _

/-- The last item of a record is the one that has been added. -/
theorem underWay_record_self {station : ℕ} {label : α}
    (h : (line.log (station + 1)).length ≤ (line.log station).length) :
    (line.record station label).underWay station =
      line.underWay station ++ [(label, line.now)] := by
  rw [underWay, log_record, log_record, if_pos rfl, if_neg (Nat.succ_ne_self _),
    List.drop_append_of_le_length h, underWay]

theorem underWay_record_succ {station : ℕ} {label : α} :
    (line.record (station + 1) label).underWay station = (line.underWay station).tail := by
  rw [underWay, log_record, log_record, if_neg (Nat.succ_ne_self _).symm, if_pos rfl,
    List.length_append, List.length_singleton, underWay, List.tail_drop]

theorem underWay_record_of_ne {station other : ℕ} {label : α} (hself : other ≠ station)
    (hsucc : other + 1 ≠ station) :
    (line.record station label).underWay other = line.underWay other := by
  rw [underWay, log_record, log_record, if_neg hself, if_neg hsucc, underWay]

theorem past_record (h : ∀ station, ∀ item ∈ line.log station, item.2 ≤ line.now) (station : ℕ)
    (label : α) :
    ∀ other, ∀ item ∈ (line.record station label).log other, item.2 ≤ line.now := by
  intro other item hitem
  rw [log_record] at hitem
  split at hitem
  · rcases List.mem_append.1 hitem with hold | hnew
    · exact h station item hold
    · rw [List.mem_singleton.1 hnew]
  · exact h other item hitem

section Order

variable [Preorder α] {links period delay : ℕ}

/-- Between the first station and any other, delays have added up. -/
theorem Sound.delayedPrefix (h : line.Sound links period delay) {station : ℕ}
    (hstation : station ≤ links) :
    DelayedPrefix line.now (station * delay) (line.log 0) (line.log station) := by
  induction station with
  | zero =>
    rw [Nat.zero_mul]
    exact .refl _ _
  | succ station ih =>
    rw [Nat.succ_mul]
    exact (ih (Nat.le_of_succ_le hstation)).trans (h.delayed station hstation)

theorem Sound.pairwise_log (h : line.Sound links period delay) {station : ℕ}
    (hstation : station ≤ links) :
    (line.log station).Pairwise fun earlier later ↦ earlier.1 < later.1 := by
  have hissued : ((line.log 0).map Prod.fst).Pairwise (· < ·) := List.pairwise_map.2 h.increasing
  rw [← List.pairwise_map, (h.delayedPrefix hstation).map_fst]
  exact hissued.sublist (List.take_sublist _ _)

/-- What comes next is newer than all that has arrived. -/
theorem Sound.lt_of_underWay (h : line.Sound links period delay) {station : ℕ}
    (hstation : station < links) {item : α × ℕ} (hitem : item ∈ line.underWay station)
    {old : α × ℕ} (hold : old ∈ line.log (station + 1)) : old.1 < item.1 := by
  have hdelayed := h.delayed station hstation
  have hincreasing := List.pairwise_map.2 (h.pairwise_log hstation.le)
  have hsplit := List.take_append_drop (line.log (station + 1)).length (line.log station)
  rw [← hsplit, List.map_append, List.map_take, ← hdelayed.map_fst] at hincreasing
  exact (List.pairwise_append.1 hincreasing).2.2 _ (List.mem_map_of_mem hold) _
    (List.mem_map_of_mem hitem)

theorem Sound.issue (h : line.Sound links period delay) {label : α}
    (hnewer : ∀ item ∈ line.log 0, item.1 < label) :
    (line.record 0 label).Sound links period delay where
  past := past_record h.past 0 label
  delayed station hstation := by
    rw [log_record, log_record, if_neg (Nat.succ_ne_zero _)]
    split
    · subst station
      exact (h.delayed 0 hstation).send label
    · exact h.delayed station hstation
  idle station hstation := by
    rw [log_record, if_neg (Nat.ne_zero_of_lt hstation)]
    exact h.idle station hstation
  increasing := by
    rw [log_record, if_pos rfl, List.pairwise_append]
    refine ⟨h.increasing, List.pairwise_singleton _ _, ?_⟩
    intro earlier hearlier later hlater
    rw [List.mem_singleton.1 hlater]
    exact hnewer earlier hearlier
  steady := by
    rw [log_record, if_pos rfl]
    exact h.steady.send label

theorem Sound.pass (h : line.Sound links period delay) {station : ℕ} (hstation : station < links)
    {item : α × ℕ} (hitem : item ∈ (line.underWay station).head?) :
    (line.record (station + 1) item.1).Sound links period delay where
  past := past_record h.past (station + 1) item.1
  delayed other hother := by
    rw [log_record, log_record]
    split_ifs with hself hsucc hsucc
    · omega
    · -- the item may go on from here
      subst other
      exact (h.delayed (station + 1) hother).send item.1
    · obtain rfl : other = station := Nat.succ_injective hsucc
      rw [underWay, List.head?_drop] at hitem
      exact (h.delayed other hother).arrive hitem
        (h.past other item (List.mem_of_getElem? hitem))
    · exact h.delayed other hother
  idle other hother := by
    rw [log_record, if_neg (by omega)]
    exact h.idle other hother
  increasing := by
    rw [log_record, if_neg (Nat.succ_ne_zero _).symm]
    exact h.increasing
  steady := by
    rw [log_record, if_neg (Nat.succ_ne_zero _).symm]
    exact h.steady

theorem Sound.step {event : Event α} (h : line.Sound links period delay)
    (hstep : (system links period delay).step line event line') :
    line'.Sound links period delay := by
  cases event with
  | issue label =>
    obtain ⟨hnewer, rfl⟩ := hstep
    exact h.issue hnewer
  | pass station =>
    obtain ⟨hstation, item, hitem, rfl⟩ := hstep
    exact h.pass hstation hitem
  | elapse duration =>
    obtain ⟨hrecent, hdue, rfl⟩ := hstep
    exact ⟨fun station item hitem ↦ Nat.le_add_right_of_le (h.past station item hitem),
      fun station hstation ↦ (h.delayed station hstation).elapse (hdue station hstation),
      h.idle, h.increasing, h.steady.elapse hrecent⟩

/-- Once the first item has had time to come, a station has a recent one. -/
theorem Sound.exists_recent (h : line.Sound links period delay) {station : ℕ}
    (hstation : station ≤ links) {first : α × ℕ} (hfirst : (line.log 0).head? = some first)
    (hlate : first.2 + station * delay < line.now) :
    ∃ last, (line.log station).getLast? = some last ∧ ∃ item ∈ line.log 0,
      item.1 = last.1 ∧ item.2 ≤ last.2 ∧ line.now ≤ item.2 + period + station * delay := by
  have hdelayed := h.delayedPrefix hstation
  have hsome := List.getLast?_eq_some_getLast (hdelayed.ne_nil hfirst hlate)
  exact ⟨_, hsome, h.steady.now_le hdelayed hsome⟩

end Order

end Pipeline

end P2PApp
