import Mathlib.Data.List.Basic
import Mathlib.Data.List.Nodup
import Mathlib.Data.List.Perm.Basic

/-!
# The life of the jobs of a one-at-a-time queue

An abstract queue serves its jobs one at a time, in the order in which they were added. A job waits,
then either runs and finishes, or is cancelled; in both cases it is deleted in the end. `History`
describes the event sequences that such a queue produces, together with the jobs that wait and the
job that runs. A queue may also be thrown away with jobs still waiting, which deletes them without
further notice (`Discarded`).
-/

namespace DleynaCore

/-- What happens to a job. -/
inductive JobEvent (α : Type) where
  | added (a : α)
  | begun (a : α)
  | finished (a : α)
  | cancelled (a : α)
  | deleted (a : α)

namespace JobEvent

variable {α : Type}

/-- The job that an event is about. -/
@[simp] def job : JobEvent α → α
  | added a | begun a | finished a | cancelled a | deleted a => a

@[simp] def added? : JobEvent α → Option α
  | added a => some a
  | _ => none

@[simp] def begun? : JobEvent α → Option α
  | begun a => some a
  | _ => none

@[simp] def finished? : JobEvent α → Option α
  | finished a => some a
  | _ => none

@[simp] def cancelled? : JobEvent α → Option α
  | cancelled a => some a
  | _ => none

@[simp] def deleted? : JobEvent α → Option α
  | deleted a => some a
  | _ => none

end JobEvent

namespace JobQueue

open JobEvent

variable {α : Type}

/-- The jobs added, in order. -/
abbrev addedJobs (es : List (JobEvent α)) : List α := es.filterMap added?

/-- The jobs begun, in order. -/
abbrev begunJobs (es : List (JobEvent α)) : List α := es.filterMap begun?

/-- The jobs finished, in order. -/
abbrev finishedJobs (es : List (JobEvent α)) : List α := es.filterMap finished?

/-- The jobs cancelled, in order. -/
abbrev cancelledJobs (es : List (JobEvent α)) : List α := es.filterMap cancelled?

/-- The jobs deleted, in order. -/
abbrev deletedJobs (es : List (JobEvent α)) : List α := es.filterMap deleted?

/-- `History es ws r`: a queue in use has produced the events `es`, the jobs `ws` wait in it, and
`r` is running. -/
inductive History : List (JobEvent α) → List α → Option α → Prop where
  | nil : History [] [] none
  /-- A new job queues up. -/
  | add {es : List (JobEvent α)} {ws : List α} {r : Option α} {a : α} (h : History es ws r)
      (ha : a ∉ addedJobs es) : History (es ++ [added a]) (ws ++ [a]) r
  /-- The first job begins, when none is running. -/
  | begin {es : List (JobEvent α)} {ws : List α} {a : α} (h : History es (a :: ws) none) :
      History (es ++ [begun a]) ws (some a)
  /-- The first waiting job is cancelled and deleted. -/
  | cancelWaiting {es : List (JobEvent α)} {ws : List α} {r : Option α} {a : α}
      (h : History es (a :: ws) r) : History (es ++ [cancelled a, deleted a]) ws r
  /-- The running job is asked to stop. -/
  | cancelRunning {es : List (JobEvent α)} {ws : List α} {a : α} (h : History es ws (some a)) :
      History (es ++ [cancelled a]) ws (some a)
  /-- The running job finishes and is deleted. -/
  | finish {es : List (JobEvent α)} {ws : List α} {a : α} (h : History es ws (some a)) :
      History (es ++ [finished a, deleted a]) ws none

/-- `Discarded es ws r`: the queue was thrown away after producing all of `es` but the deletions of
the jobs `ws`, which were still waiting; the job `r` was running. -/
def Discarded (es : List (JobEvent α)) (ws : List α) (r : Option α) : Prop :=
  ∃ es', History es' ws r ∧ es = es' ++ ws.map deleted

theorem mem_filterMap_append {f : JobEvent α → Option α} {es : List (JobEvent α)} {a : α}
    (ext : List (JobEvent α)) (h : a ∈ es.filterMap f) : a ∈ (es ++ ext).filterMap f := by
  rw [List.filterMap_append]
  exact List.mem_append_left _ h

/-- Where an event of a longer history stands. -/
theorem split_append {β : Type} {es ext es1 es2 : List β} {e : β} (h : es ++ ext = es1 ++ e :: es2) :
    (∃ es2', es = es1 ++ e :: es2') ∨ ∃ l, es1 = es ++ l ∧ ext = l ++ e :: es2 := by
  rcases List.append_eq_append_iff.mp h with ⟨l, rfl, hl⟩ | ⟨l, rfl, hl⟩
  · exact Or.inr ⟨l, rfl, hl⟩
  · cases l with
    | nil => exact Or.inr ⟨[], by simp, by simpa using hl.symm⟩
    | cons e' l =>
      obtain ⟨rfl, -⟩ := List.cons.inj hl
      exact Or.inl ⟨l, rfl⟩

/-- An event that is not among the later ones stands among the earlier ones. -/
theorem split_of_notMem {β : Type} {es ext es1 es2 : List β} {e : β}
    (h : es ++ ext = es1 ++ e :: es2) (hn : e ∉ ext) : ∃ es2', es = es1 ++ e :: es2' := by
  rcases split_append h with h' | ⟨l, -, hl⟩
  · exact h'
  · exact absurd (by simp [hl]) hn

theorem prefix_append_cases {es ext l : List (JobEvent α)} (h : l <+: es ++ ext) :
    l <+: es ∨ ∃ l', l' <+: ext ∧ l = es ++ l' := by
  obtain ⟨t, ht⟩ := h
  rcases List.append_eq_append_iff.mp ht with ⟨l', rfl, -⟩ | ⟨l', rfl, hl⟩
  · exact Or.inl (List.prefix_append l l')
  · exact Or.inr ⟨l', ⟨t, hl.symm⟩, rfl⟩

/-- Nothing happens to a job after its deletion. -/
def DeletedLast (es : List (JobEvent α)) : Prop :=
  es.Pairwise fun e f => ∀ a, e = deleted a → f.job ≠ a

theorem DeletedLast.append {es ext : List (JobEvent α)} (h : DeletedLast es) (hext : DeletedLast ext)
    (hnew : ∀ f ∈ ext, f.job ∉ deletedJobs es) : DeletedLast (es ++ ext) := by
  refine List.pairwise_append.mpr ⟨h, hext, fun e he f hf a hea hfa => hnew f hf ?_⟩
  rw [hfa]
  exact List.mem_filterMap.mpr ⟨e, he, by rw [hea]; rfl⟩

theorem DeletedLast.of_nodup {ws : List α} (h : ws.Nodup) :
    DeletedLast (ws.map deleted) := by
  refine List.pairwise_map.mpr (h.imp fun hab c hac hbc => hab ?_)
  exact (JobEvent.deleted.inj hac).trans hbc.symm

namespace History

variable {es : List (JobEvent α)} {ws : List α} {r : Option α}

/-- All waiting jobs can be cancelled at once. -/
theorem cancelAll (h : History es ws r) :
    History (es ++ ws.flatMap fun a => [cancelled a, deleted a]) [] r := by
  induction ws generalizing es with
  | nil => simpa using h
  | cons a ws ih => simpa using ih h.cancelWaiting

/-- One job at a time: the jobs begun are those finished, followed by the running one. -/
theorem begun_eq (h : History es ws r) : begunJobs es = finishedJobs es ++ r.toList := by
  induction h with
  | nil => rfl
  | add h ha ih => simpa [List.filterMap_cons] using ih
  | begin h ih => simpa [List.filterMap_cons] using ih
  | cancelWaiting h ih => simpa [List.filterMap_cons] using ih
  | cancelRunning h ih => simpa [List.filterMap_cons] using ih
  | finish h ih => simpa [List.filterMap_cons] using ih

/-- Conservation: a job that was added is deleted, running or waiting. -/
theorem conserve (h : History es ws r) :
    (deletedJobs es ++ r.toList ++ ws).Perm (addedJobs es) := by
  induction h with
  | nil => rfl
  | @add es ws r a h ha ih =>
    have := ih.append_right [a]
    simpa [List.filterMap_cons] using this
  | begin h ih => simpa [List.filterMap_cons] using ih
  | @cancelWaiting es ws r a h ih =>
    have hmid : (a :: (r.toList ++ ws)).Perm (r.toList ++ a :: ws) := List.perm_middle.symm
    have := (hmid.append_left (deletedJobs es)).trans (by simpa using ih)
    simpa [List.filterMap_cons] using this
  | cancelRunning h ih => simpa [List.filterMap_cons] using ih
  | finish h ih => simpa [List.filterMap_cons] using ih

/-- No job is added twice. -/
theorem added_nodup (h : History es ws r) : (addedJobs es).Nodup := by
  induction h with
  | nil => simp
  | @add es ws r a h ha ih =>
    have : (addedJobs es ++ [a]).Nodup := List.nodup_append.mpr ⟨ih, by simp, by
      rintro x hx y hy rfl
      exact ha (List.mem_singleton.mp hy ▸ hx)⟩
    simpa [List.filterMap_cons] using this
  | begin h ih => simpa [List.filterMap_cons] using ih
  | cancelWaiting h ih => simpa [List.filterMap_cons] using ih
  | cancelRunning h ih => simpa [List.filterMap_cons] using ih
  | finish h ih => simpa [List.filterMap_cons] using ih

/-- The waiting jobs are a suffix of the jobs added, every earlier job was begun or cancelled, and
the jobs begun are in order among the earlier ones. -/
theorem fifo (h : History es ws r) : ∃ pre, addedJobs es = pre ++ ws ∧
    (begunJobs es).Sublist pre ∧ ∀ a ∈ pre, a ∈ begunJobs es ∨ a ∈ cancelledJobs es := by
  induction h with
  | nil => exact ⟨[], by simp⟩
  | @add es ws r a h ha ih =>
    obtain ⟨pre, h1, h2, h3⟩ := ih
    exact ⟨pre, by simp [h1], by simpa [List.filterMap_cons] using h2,
      by simpa [List.filterMap_cons] using h3⟩
  | @begin es ws a h ih =>
    obtain ⟨pre, h1, h2, h3⟩ := ih
    refine ⟨pre ++ [a], by simp [h1], ?_, fun b hb => ?_⟩
    · simpa [List.filterMap_cons] using h2.append (List.Sublist.refl [a])
    · rcases List.mem_append.mp hb with hb | hb
      · exact (h3 b hb).imp (mem_filterMap_append _) (mem_filterMap_append _)
      · exact Or.inl (by simp [List.mem_singleton.mp hb])
  | @cancelWaiting es ws r a h ih =>
    obtain ⟨pre, h1, h2, h3⟩ := ih
    refine ⟨pre ++ [a], by simp [List.filterMap_cons, h1], ?_, fun b hb => ?_⟩
    · simpa [List.filterMap_cons] using h2.trans (List.sublist_append_left pre [a])
    · rcases List.mem_append.mp hb with hb | hb
      · exact (h3 b hb).imp (mem_filterMap_append _) (mem_filterMap_append _)
      · exact Or.inr (by simp [List.filterMap_cons, List.mem_singleton.mp hb])
  | @cancelRunning es ws a h ih =>
    obtain ⟨pre, h1, h2, h3⟩ := ih
    exact ⟨pre, by simp [List.filterMap_cons, h1], by simpa [List.filterMap_cons] using h2,
      fun b hb => (h3 b hb).imp (mem_filterMap_append _) (mem_filterMap_append _)⟩
  | @finish es ws a h ih =>
    obtain ⟨pre, h1, h2, h3⟩ := ih
    exact ⟨pre, by simp [List.filterMap_cons, h1], by simpa [List.filterMap_cons] using h2,
      fun b hb => (h3 b hb).imp (mem_filterMap_append _) (mem_filterMap_append _)⟩

/-- A cancelled job is deleted or running. -/
theorem cancelled_mem (h : History es ws r) {a : α} (ha : a ∈ cancelledJobs es) :
    a ∈ deletedJobs es ∨ r = some a := by
  induction h with
  | nil => simp at ha
  | add h _ ih => simpa [List.filterMap_cons] using ih (by simpa [List.filterMap_cons] using ha)
  | begin h ih =>
    rcases ih (by simpa [List.filterMap_cons] using ha) with h | h
    · exact Or.inl (by simp [List.filterMap_append, h])
    · simp at h
  | cancelWaiting h ih =>
    simp only [List.filterMap_append, List.mem_append] at ha ⊢
    rcases ha with ha | ha
    · rcases ih ha with h | h
      · exact Or.inl (Or.inl h)
      · exact Or.inr h
    · exact Or.inl (Or.inr (by simpa [List.filterMap_cons] using ha))
  | cancelRunning h ih =>
    simp only [List.filterMap_append, List.mem_append] at ha ⊢
    rcases ha with ha | ha
    · rcases ih ha with h | h
      · exact Or.inl (Or.inl h)
      · exact Or.inr h
    · exact Or.inr (by simpa [List.filterMap_cons, eq_comm] using ha)
  | finish h ih =>
    rcases ih (by simpa [List.filterMap_cons] using ha) with h | h
    · exact Or.inl (by simp [List.filterMap_append, h])
    · exact Or.inl (by simp [List.filterMap_cons, Option.some.inj h])

/-- A job is only deleted once it has finished or was cancelled. -/
theorem deleted_mem (h : History es ws r) {a : α} (ha : a ∈ deletedJobs es) :
    a ∈ finishedJobs es ∨ a ∈ cancelledJobs es := by
  induction h with
  | nil => simp at ha
  | add h _ ih => simpa [List.filterMap_cons] using ih (by simpa [List.filterMap_cons] using ha)
  | begin h ih => simpa [List.filterMap_cons] using ih (by simpa [List.filterMap_cons] using ha)
  | cancelWaiting h ih =>
    simp only [List.filterMap_append, List.mem_append] at ha ⊢
    rcases ha with ha | ha
    · exact (ih ha).imp Or.inl Or.inl
    · exact Or.inr (Or.inr (by simpa [List.filterMap_cons] using ha))
  | cancelRunning h ih =>
    exact (ih (by simpa [List.filterMap_cons] using ha)).imp (mem_filterMap_append _)
      (mem_filterMap_append _)
  | finish h ih =>
    simp only [List.filterMap_append, List.mem_append] at ha ⊢
    rcases ha with ha | ha
    · exact (ih ha).imp Or.inl Or.inl
    · exact Or.inl (Or.inr (by simpa [List.filterMap_cons] using ha))

/-- Before a job begins, it is the first one waiting, and no job runs. -/
theorem before_begin (h : History es ws r) {es1 es2 : List (JobEvent α)} {a : α}
    (he : es = es1 ++ begun a :: es2) : ∃ ws', History es1 (a :: ws') none := by
  induction h generalizing es2 with
  | nil => simp at he
  | add h _ ih =>
    obtain ⟨es2', h'⟩ := split_of_notMem he (by simp)
    exact ih h'
  | @begin es ws b h ih =>
    rcases split_append he with ⟨es2', h'⟩ | ⟨l, rfl, hl⟩
    · exact ih h'
    · cases l with
      | nil =>
        obtain ⟨hab, -⟩ := List.cons.inj hl
        rw [List.append_nil]
        exact ⟨ws, by rwa [← JobEvent.begun.inj hab]⟩
      | cons e' l => simp at hl
  | cancelWaiting h ih =>
    obtain ⟨es2', h'⟩ := split_of_notMem he (by simp)
    exact ih h'
  | cancelRunning h ih =>
    obtain ⟨es2', h'⟩ := split_of_notMem he (by simp)
    exact ih h'
  | finish h ih =>
    obtain ⟨es2', h'⟩ := split_of_notMem he (by simp)
    exact ih h'

theorem job_mem (h : History es ws r) {e : JobEvent α} (he : e ∈ es) : e.job ∈ addedJobs es := by
  induction h with
  | nil => simp at he
  | @add es ws r a h ha ih =>
    rcases List.mem_append.mp he with he | he
    · exact mem_filterMap_append _ (ih he)
    · rw [List.mem_singleton.mp he]
      simp
  | @begin es ws a h ih =>
    rcases List.mem_append.mp he with he | he
    · exact mem_filterMap_append _ (ih he)
    · rw [List.mem_singleton.mp he]
      exact mem_filterMap_append _ (h.conserve.subset (by simp))
  | @cancelWaiting es ws r a h ih =>
    rcases List.mem_append.mp he with he | he
    · exact mem_filterMap_append _ (ih he)
    · have ha : a ∈ addedJobs es := h.conserve.subset (by simp)
      simp only [List.mem_cons, List.not_mem_nil, or_false] at he
      rcases he with rfl | rfl <;> exact mem_filterMap_append _ ha
  | @cancelRunning es ws a h ih =>
    rcases List.mem_append.mp he with he | he
    · exact mem_filterMap_append _ (ih he)
    · rw [List.mem_singleton.mp he]
      exact mem_filterMap_append _ (h.conserve.subset (by simp))
  | @finish es ws a h ih =>
    rcases List.mem_append.mp he with he | he
    · exact mem_filterMap_append _ (ih he)
    · have ha : a ∈ addedJobs es := h.conserve.subset (by simp)
      simp only [List.mem_cons, List.not_mem_nil, or_false] at he
      rcases he with rfl | rfl <;> exact mem_filterMap_append _ ha

/-- A job that waits or runs is not deleted, and the jobs that wait or run are all different. -/
theorem nodup (h : History es ws r) : (deletedJobs es ++ r.toList ++ ws).Nodup :=
  h.conserve.nodup_iff.mpr h.added_nodup

theorem waiting_notMem (h : History es ws r) {a : α} (ha : a ∈ ws) : a ∉ deletedJobs es :=
  fun hd => (List.nodup_append.mp h.nodup).2.2 a (List.mem_append_left _ hd) a ha rfl

theorem running_notMem (h : History es ws (some a)) : a ∉ deletedJobs es := fun hd =>
  (List.nodup_append.mp (List.nodup_append.mp h.nodup).1).2.2 a hd a (by simp) rfl

theorem deletedLast (h : History es ws r) : DeletedLast es := by
  induction h with
  | nil => exact List.Pairwise.nil
  | @add es ws r a h ha ih =>
    have hd : a ∉ deletedJobs es := fun hd => ha (h.conserve.subset
      (List.mem_append_left _ (List.mem_append_left _ hd)))
    exact ih.append (by simp [DeletedLast]) (by simpa using hd)
  | begin h ih =>
    exact ih.append (by simp [DeletedLast]) (by simpa using h.waiting_notMem List.mem_cons_self)
  | cancelWaiting h ih =>
    exact ih.append (by simp [DeletedLast]) (by simpa using h.waiting_notMem List.mem_cons_self)
  | cancelRunning h ih =>
    exact ih.append (by simp [DeletedLast]) (by simpa using h.running_notMem)
  | finish h ih =>
    exact ih.append (by simp [DeletedLast]) (by simpa using h.running_notMem)

/-- No job is begun twice. -/
theorem begun_nodup (h : History es ws r) : (begunJobs es).Nodup := by
  obtain ⟨pre, h1, h2, -⟩ := h.fifo
  have hadd := h.added_nodup
  rw [h1, List.nodup_append] at hadd
  exact hadd.1.sublist h2

/-- At every moment at most one job is begun and not finished. -/
theorem one_running (h : History es ws r) {l : List (JobEvent α)} (hl : l <+: es) :
    ∃ r' : Option α, begunJobs l = finishedJobs l ++ r'.toList := by
  induction h with
  | nil => exact ⟨none, by rw [List.prefix_nil.mp hl]; rfl⟩
  | @add es ws r a h ha ih =>
    rcases List.prefix_concat_iff.mp hl with rfl | hl
    · exact ⟨r, by simpa [List.filterMap_cons] using h.begun_eq⟩
    · exact ih hl
  | @begin es ws a h ih =>
    rcases List.prefix_concat_iff.mp hl with rfl | hl
    · exact ⟨some a, by simpa [List.filterMap_cons] using h.begun_eq⟩
    · exact ih hl
  | @cancelWaiting es ws r a h ih =>
    rcases prefix_append_cases hl with hl | ⟨l', hl', rfl⟩
    · exact ih hl
    · refine ⟨r, ?_⟩
      have hb : ∀ e ∈ l', begun? e = none ∧ finished? e = none := by
        intro e he
        have := hl'.subset he
        simp only [List.mem_cons, List.not_mem_nil, or_false] at this
        rcases this with rfl | rfl <;> simp
      have h1 : begunJobs l' = [] := List.filterMap_eq_nil_iff.mpr fun e he => (hb e he).1
      have h2 : finishedJobs l' = [] := List.filterMap_eq_nil_iff.mpr fun e he => (hb e he).2
      simpa [h1, h2] using h.begun_eq
  | @cancelRunning es ws a h ih =>
    rcases List.prefix_concat_iff.mp hl with rfl | hl
    · exact ⟨some a, by simpa [List.filterMap_cons] using h.begun_eq⟩
    · exact ih hl
  | @finish es ws a h ih =>
    rw [show es ++ [finished a, deleted a] = (es ++ [finished a]) ++ [deleted a] by simp] at hl
    rcases List.prefix_concat_iff.mp hl with rfl | hl
    · exact ⟨none, by simpa [List.filterMap_cons] using h.begun_eq⟩
    · rcases List.prefix_concat_iff.mp hl with rfl | hl
      · exact ⟨none, by simpa [List.filterMap_cons] using h.begun_eq⟩
      · exact ih hl

end History

namespace Discarded

variable {es : List (JobEvent α)} {ws : List α} {r : Option α}

private theorem none_of_deleted {f : JobEvent α → Option α} (hf : ∀ a, f (deleted a) = none)
    (ws : List α) : (ws.map deleted).filterMap f = [] := by
  rw [List.filterMap_map]
  exact List.filterMap_eq_nil_iff.mpr fun a _ => hf a

private theorem begun_deleted (ws : List α) : begunJobs (ws.map deleted) = [] :=
  none_of_deleted (fun _ => rfl) ws

private theorem finished_deleted (ws : List α) : finishedJobs (ws.map deleted) = [] :=
  none_of_deleted (fun _ => rfl) ws

private theorem added_deleted (ws : List α) : addedJobs (ws.map deleted) = [] :=
  none_of_deleted (fun _ => rfl) ws

private theorem deleted_deleted (ws : List α) : deletedJobs (ws.map deleted) = ws := by
  rw [deletedJobs, List.filterMap_map]
  exact List.filterMap_some

/-- The history that led to an ordinary end: nothing was waiting. -/
theorem of_history (h : History es [] r) : Discarded es [] r := ⟨es, h, by simp⟩

theorem begun_eq (h : Discarded es ws r) : begunJobs es = finishedJobs es ++ r.toList := by
  obtain ⟨es', h', rfl⟩ := h
  rw [begunJobs, finishedJobs, List.filterMap_append, List.filterMap_append]
  simpa only [begun_deleted, finished_deleted, List.append_nil] using h'.begun_eq

/-- Every job but the running one is deleted. -/
theorem conserve (h : Discarded es ws r) : (deletedJobs es ++ r.toList).Perm (addedJobs es) := by
  obtain ⟨es', h', rfl⟩ := h
  have hc : (ws ++ r.toList).Perm (r.toList ++ ws) := List.perm_append_comm
  rw [deletedJobs, addedJobs, List.filterMap_append, List.filterMap_append]
  simpa only [added_deleted, deleted_deleted, List.append_nil, List.append_assoc] using
    (hc.append_left (deletedJobs es')).trans (by simpa using h'.conserve)

/-- The running job is not deleted. -/
theorem running_notMem {a : α} (h : Discarded es ws (some a)) : a ∉ deletedJobs es := by
  obtain ⟨es', h', rfl⟩ := h
  have hnd := h'.nodup
  rw [List.append_assoc, List.nodup_append, List.nodup_append] at hnd
  rw [deletedJobs, List.filterMap_append, List.mem_append, not_or]
  refine ⟨h'.running_notMem, fun hd => ?_⟩
  have hd : a ∈ ws := by simpa only [deleted_deleted] using hd
  exact hnd.2.1.2.2 a (by simp) a hd rfl

theorem added_nodup (h : Discarded es ws r) : (addedJobs es).Nodup := by
  obtain ⟨es', h', rfl⟩ := h
  rw [addedJobs, List.filterMap_append]
  simpa only [added_deleted, List.append_nil] using h'.added_nodup

theorem job_mem (h : Discarded es ws r) {e : JobEvent α} (he : e ∈ es) :
    e.job ∈ addedJobs es := by
  obtain ⟨es', h', rfl⟩ := h
  rcases List.mem_append.mp he with he | he
  · exact mem_filterMap_append _ (h'.job_mem he)
  · obtain ⟨a, ha, rfl⟩ := List.mem_map.mp he
    exact mem_filterMap_append _ (h'.conserve.subset (List.mem_append_right _ ha))

theorem begun_sublist (h : Discarded es ws r) : (begunJobs es).Sublist (addedJobs es) := by
  obtain ⟨es', h', rfl⟩ := h
  obtain ⟨pre, h1, h2, -⟩ := h'.fifo
  have h3 : (begunJobs es').Sublist (addedJobs es') := by
    rw [h1]
    exact h2.trans (List.sublist_append_left _ _)
  rw [begunJobs, addedJobs, List.filterMap_append, List.filterMap_append]
  simpa only [begun_deleted, added_deleted, List.append_nil] using h3

theorem deletedLast (h : Discarded es ws r) : DeletedLast es := by
  obtain ⟨es', h', rfl⟩ := h
  refine h'.deletedLast.append (.of_nodup (List.nodup_append.mp h'.nodup).2.1) fun f hf => ?_
  obtain ⟨a, ha, rfl⟩ := List.mem_map.mp hf
  exact h'.waiting_notMem ha

theorem before_begin (h : Discarded es ws r) {es1 es2 : List (JobEvent α)} {a : α}
    (he : es = es1 ++ begun a :: es2) : ∃ ws', History es1 (a :: ws') none := by
  obtain ⟨es', h', rfl⟩ := h
  obtain ⟨es2', h''⟩ := split_of_notMem he (by simp)
  exact h'.before_begin h''

theorem one_running (h : Discarded es ws r) {l : List (JobEvent α)} (hl : l <+: es) :
    ∃ r' : Option α, begunJobs l = finishedJobs l ++ r'.toList := by
  obtain ⟨es', h', rfl⟩ := h
  rcases prefix_append_cases hl with hl | ⟨l', hl', rfl⟩
  · exact h'.one_running hl
  · obtain ⟨ws', -, rfl⟩ := List.prefix_map_iff.mp hl'
    refine ⟨r, ?_⟩
    rw [begunJobs, finishedJobs, List.filterMap_append, List.filterMap_append]
    simpa only [begun_deleted, finished_deleted, List.append_nil] using h'.begun_eq

end Discarded

end JobQueue

end DleynaCore
