import Athrill.Lib.LinkedRings
import Athrill.StdTypes

/-!
# Topic queues

`mros_topic_add_data` and `mros_topic_get_data` use one end of a ring: an entry is inserted in front and
taken from the front, and a full queue loses the entry in front. Main result: `mros_topic_queue_iff`.
-/

namespace Athrill

open List Function

open Function (update)

variable {α : Type}

/-! ## Bounded first-in first-out queues -/

def fifoAdd (q : Nat) (pending : List α) (x : α) : List α :=
  (if q ≤ pending.length then pending.tail else pending) ++ [x]

variable {q : Nat} {pending l : List α} {x : α}

theorem length_fifoAdd_le (hq : 1 ≤ q) (h : pending.length ≤ q) : (fifoAdd q pending x).length ≤ q := by
  rw [fifoAdd]
  split_ifs <;> simp <;> omega

theorem nodup_fifoAdd (h : pending.Nodup) (hx : x ∉ pending) : (fifoAdd q pending x).Nodup := by
  have hrest : ∀ {m : List α}, m.Sublist pending → (m ++ [x]).Nodup := fun hm =>
    nodup_append.2 ⟨h.sublist hm, nodup_singleton x, fun a ha b hb e =>
      hx (mem_singleton.1 hb ▸ e ▸ hm.subset ha)⟩
  rw [fifoAdd]
  split_ifs
  · exact hrest (tail_sublist _)
  · exact hrest (List.Sublist.refl _)

theorem not_perm_drop {y z : α} (h : (y :: z :: l).Nodup) :
    ¬ (x :: (y :: z :: l).reverse.tail).Perm (fifoAdd (y :: z :: l).length (y :: z :: l) x) := by
  intro hperm
  rw [fifoAdd, if_pos le_rfl] at hperm
  have hrest : ((y :: z :: l).reverse.tail).Perm (z :: l) :=
    (hperm.trans (perm_append_singleton x _)).cons_inv
  have hy : y ∈ (y :: z :: l).reverse.tail := by
    rw [tail_reverse]
    simp
  exact (nodup_cons.1 h).1 (hrest.subset hy)

/-! ## The calls -/

structure MRosTopicManagerType (α : Type) where
  maxTopic : Nat
  queueMaxsize : Nat → Nat
  queues : LinkedRings Nat α

inductive TopicCall (α : Type)
  | add (data : α)
  | get

def MRosTopicManagerType.Holds (mgr : MRosTopicManagerType α) (id : Nat) (pending : List α) : Prop :=
  (mgr.queues.members (mgr.queues.num id) (mgr.queues.first id)).Perm pending

variable {mgr : MRosTopicManagerType α} {id : Nat} {others : Nat → List α}

theorem holds_of_rep (h : mgr.queues.Rep (update others id l)) (hperm : l.Perm pending) :
    mgr.Holds id pending := by
  rw [MRosTopicManagerType.Holds, h.members, update_self]
  exact hperm

variable [DecidableEq α]

def mrosTopicAddData (mgr : MRosTopicManagerType α) (id : Nat) (data : α) :
    Option (MRosReturnType × MRosTopicManagerType α) :=
  if mgr.maxTopic < id then some (.range, mgr)
  -- `TOPIC_OBJ(0)` lies in front of the table
  else if id = 0 then none
  else if mgr.queueMaxsize id ≤ mgr.queues.num id then
    match mgr.queues.first id with
    | none => none
    | some datap => some (.ok, { mgr with queues := (mgr.queues.removeEntry id datap).addEntry id data })
  else some (.ok, { mgr with queues := mgr.queues.addEntry id data })

def mrosTopicGetData (mgr : MRosTopicManagerType α) (id : Nat) :
    Option (MRosReturnType × Option α × MRosTopicManagerType α) :=
  if mgr.maxTopic < id then some (.range, none, mgr)
  else if id = 0 then none
  else if mgr.queues.num id ≤ 0 then some (.noent, none, mgr)
  else
    match mgr.queues.first id with
    | none => none
    | some datap => some (.ok, some datap, { mgr with queues := mgr.queues.removeEntry id datap })

def FifoRun (q id : Nat) : MRosTopicManagerType α → List α → List (TopicCall α) → Prop
  | _, _, [] => True
  | mgr, pending, .add x :: calls =>
    ∃ mgr', mrosTopicAddData mgr id x = some (.ok, mgr') ∧ mgr'.Holds id (fifoAdd q pending x) ∧
      FifoRun q id mgr' (fifoAdd q pending x) calls
  | mgr, pending, .get :: calls =>
    ∃ mgr', mrosTopicGetData mgr id = some (if pending = [] then .noent else .ok, pending.head?, mgr') ∧
      mgr'.Holds id pending.tail ∧ FifoRun q id mgr' pending.tail calls

def OneAtATime (q : Nat) : List α → List (TopicCall α) → Prop
  | _, [] => True
  | pending, .add x :: calls => (pending.length < q ∨ q = 1) ∧ OneAtATime q (fifoAdd q pending x) calls
  | pending, .get :: calls => pending.length ≤ 1 ∧ OneAtATime q pending.tail calls

def FreshAdds (q : Nat) (others : Nat → List α) : List α → List (TopicCall α) → Prop
  | _, [] => True
  | pending, .add x :: calls =>
    x ∉ pending ∧ (∀ j, x ∉ others j) ∧ FreshAdds q others (fifoAdd q pending x) calls
  | pending, .get :: calls => FreshAdds q others pending.tail calls

/-! ## The queue as a stack -/

section

variable (hid : 1 ≤ id ∧ id ≤ mgr.maxTopic) (h : mgr.queues.Rep (update others id l))
include hid h

theorem mrosTopicAddData_eq (hq : 1 ≤ mgr.queueMaxsize id) (hx : x ∉ l) (hothers : ∀ j, x ∉ others j) :
    ∃ queues, mrosTopicAddData mgr id x = some (.ok, { mgr with queues := queues }) ∧
      queues.Rep (update others id (x :: if mgr.queueMaxsize id ≤ l.length then l.tail else l)) := by
  have hnum : mgr.queues.num id = l.length := by rw [h.num, update_self]
  have hfresh : ∀ {m : List α}, x ∉ m → ∀ j, x ∉ update others id m j := by
    intro m hm j
    by_cases hj : j = id
    · subst hj
      rwa [update_self]
    · rw [update_of_ne hj]
      exact hothers j
  rw [mrosTopicAddData, if_neg (by omega), if_neg (by omega), hnum]
  split_ifs with hfull
  · cases l with
    | nil => exact absurd (hq.trans hfull) (by simp)
    | cons y l =>
      have hrem := h.removeEntry (by rw [update_self]; exact mem_cons_self : y ∈ _)
      rw [update_self, update_idem, erase_cons_head] at hrem
      have hadd := hrem.addEntry id (hfresh (fun hmem => hx (mem_cons_of_mem _ hmem)))
      rw [update_self, update_idem] at hadd
      rw [h.first, update_self]
      exact ⟨_, rfl, hadd⟩
  · have hadd := h.addEntry id (hfresh hx)
    rw [update_self, update_idem] at hadd
    exact ⟨_, rfl, hadd⟩

theorem mrosTopicGetData_eq :
    ∃ queues, mrosTopicGetData mgr id =
        some (if l = [] then .noent else .ok, l.head?, { mgr with queues := queues }) ∧
      queues.Rep (update others id l.tail) := by
  have hnum : mgr.queues.num id = l.length := by rw [h.num, update_self]
  rw [mrosTopicGetData, if_neg (by omega), if_neg (by omega), hnum, h.first, update_self]
  cases l with
  | nil => exact ⟨mgr.queues, rfl, h⟩
  | cons y l =>
    have hrem := h.removeEntry (by rw [update_self]; exact mem_cons_self : y ∈ _)
    rw [update_self, update_idem, erase_cons_head] at hrem
    exact ⟨_, rfl, hrem⟩

end

theorem get_iff {calls : List (TopicCall α)} {ret : MRosReturnType} {out : Option α}
    (h : mgr.queues.Rep (update others id [])) (hle : pending.length ≤ 1)
    (hrest : FifoRun q id mgr [] calls ↔ OneAtATime q [] calls) :
    (∃ mgr', some (ret, out, mgr) = some (ret, out, mgr') ∧ mgr'.Holds id [] ∧ FifoRun q id mgr' [] calls) ↔
      pending.length ≤ 1 ∧ OneAtATime q [] calls := by
  constructor
  · rintro ⟨mgr', hmgr, -, hrun⟩
    cases hmgr
    exact ⟨hle, hrest.1 hrun⟩
  · rintro ⟨-, hrun⟩
    exact ⟨_, rfl, holds_of_rep h (.refl _), hrest.2 hrun⟩

theorem fifoRun_iff (calls : List (TopicCall α)) (hid : 1 ≤ id ∧ id ≤ mgr.maxTopic) (hq : mgr.queueMaxsize id = q)
    (hpos : 1 ≤ q) (h : mgr.queues.Rep (update others id pending.reverse)) (hle : pending.length ≤ q)
    (hnodup : pending.Nodup) (hfresh : FreshAdds q others pending calls) :
    FifoRun q id mgr pending calls ↔ OneAtATime q pending calls := by
  induction calls generalizing mgr pending with
  | nil => exact Iff.rfl
  | cons call calls ih =>
    cases call with
    | add x =>
      obtain ⟨hx, hothers, hfresh⟩ := hfresh
      obtain ⟨queues, hadd, hrep⟩ := mrosTopicAddData_eq hid h (hq ▸ hpos) (by simpa using hx) hothers
      rw [hq, length_reverse] at hrep
      rw [FifoRun, OneAtATime, hadd]
      by_cases hone : pending.length < q ∨ q = 1
      · have hlist : (x :: if q ≤ pending.length then pending.reverse.tail else pending.reverse) =
            (fifoAdd q pending x).reverse := by
          rw [fifoAdd, reverse_append, reverse_singleton, singleton_append]
          split_ifs with hfull
          · -- A full queue that is met has a single entry.
            obtain ⟨y, rfl⟩ := length_eq_one_iff.1 (show pending.length = 1 by omega)
            rfl
          · rfl
        rw [hlist] at hrep
        have hrest := @ih _ { mgr with queues := queues } hid hq hrep (length_fifoAdd_le hpos hle)
          (nodup_fifoAdd hnodup hx) hfresh
        constructor
        · rintro ⟨mgr', hmgr, -, hrun⟩
          cases hmgr
          exact ⟨hone, hrest.1 hrun⟩
        · rintro ⟨-, hrun⟩
          exact ⟨_, rfl, holds_of_rep hrep (reverse_perm _), hrest.2 hrun⟩
      · refine iff_of_false ?_ fun hrun => hone hrun.1
        rintro ⟨mgr', hmgr, hholds, -⟩
        cases hmgr
        have hlen : q = pending.length := by omega
        rw [MRosTopicManagerType.Holds, hrep.members, update_self, if_pos hlen.le, hlen] at hholds
        rcases pending with _ | ⟨y, _ | ⟨z, l⟩⟩
        · exact hpos.not_gt (by simp [hlen])
        · exact hone (.inr hlen)
        · exact not_perm_drop hnodup hholds
    | get =>
      obtain ⟨queues, hget, hrep⟩ := mrosTopicGetData_eq hid h
      rw [FifoRun, OneAtATime, hget]
      rcases pending with _ | ⟨y, _ | ⟨z, l⟩⟩
      · exact get_iff hrep (by simp) (@ih [] { mgr with queues := queues } hid hq hrep (Nat.zero_le _) .nil hfresh)
      · exact get_iff hrep (by simp) (@ih [] { mgr with queues := queues } hid hq hrep (Nat.zero_le _) .nil hfresh)
      · refine iff_of_false ?_ fun hrun => absurd hrun.1 (by simp)
        rintro ⟨mgr', hmgr, -⟩
        -- The newest entry is delivered, not the oldest.
        have hlast : (y :: z :: l).reverse.head? = some y := by simp_all
        rw [head?_reverse, getLast?_cons_cons] at hlast
        exact (nodup_cons.1 hnodup).1 (mem_of_getLast? hlast)

/-- **First in, first out.** A topic answers every sequence of calls as a bounded first-in first-out queue exactly
if at most one entry is pending whenever one is taken or dropped. -/
theorem mros_topic_queue_iff (mgr : MRosTopicManagerType α) (id : Nat) (calls : List (TopicCall α))
    (others : Nat → List α) (hid : 1 ≤ id ∧ id ≤ mgr.maxTopic) (hq : 1 ≤ mgr.queueMaxsize id)
    (hqueues : mgr.queues.Rep (update others id []))
    (hfresh : FreshAdds (mgr.queueMaxsize id) others [] calls) :
    FifoRun (mgr.queueMaxsize id) id mgr [] calls ↔ OneAtATime (mgr.queueMaxsize id) [] calls :=
  fifoRun_iff calls hid rfl hq hqueues (Nat.zero_le _) .nil hfresh

def emptyTopics (q : Nat) : MRosTopicManagerType Nat where
  maxTopic := 1
  queueMaxsize _ := q
  queues := ⟨fun _ => 0, fun _ => 0, fun _ => none, fun _ => 0⟩

theorem rep_emptyTopics (q : Nat) : (emptyTopics q).queues.Rep (update (fun _ => []) 1 []) := by
  rw [update_eq_self]
  exact LinkedRings.rep_nil

theorem mros_topic_queue_single :
    FreshAdds ((emptyTopics 1).queueMaxsize 1) (fun _ => []) [] [.add 5, .add 6, .get, .get] ∧
      FifoRun 1 1 (emptyTopics 1) [] [.add 5, .add 6, .get, .get] := by
  have hfresh : FreshAdds ((emptyTopics 1).queueMaxsize 1) (fun _ => []) [] [.add 5, .add 6, .get, .get] := by
    simp [FreshAdds, fifoAdd, emptyTopics]
  refine ⟨hfresh, (mros_topic_queue_iff (emptyTopics 1) 1 _ (fun _ => []) ⟨le_rfl, le_rfl⟩ le_rfl
    (rep_emptyTopics 1) hfresh).2 ?_⟩
  simp [OneAtATime, fifoAdd, emptyTopics]

/-- Of two entries the second comes out first. -/
theorem mros_topic_queue_newest_first :
    FreshAdds 2 (fun _ => []) [] [.add 5, .add 6, .get] ∧
      ¬ FifoRun 2 1 (emptyTopics 2) [] [.add 5, .add 6, .get] := by
  refine ⟨by simp [FreshAdds, fifoAdd], ?_⟩
  rintro ⟨mgr₁, h₁, -, mgr₂, h₂, -, mgr₃, h₃, -⟩
  cases h₁
  cases h₂
  cases h₃

end Athrill
