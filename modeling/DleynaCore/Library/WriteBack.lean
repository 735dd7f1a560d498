import Mathlib.Data.List.Infix

/-!
# Write-back stores

A store stages its updates in memory and writes out all of them at once. A write can fail, and then the
update waits for the next one that succeeds; starting again from what was written loses those that
still wait.
-/

namespace DleynaCore

/-- The updates that are written out, and those that are staged on top of them. -/
structure WriteBack (α : Type) where
  written : List α
  staged : List α
  deriving DecidableEq, Repr

/-- What is done to a store. -/
inductive WriteBackOp (α : Type) where
  | put (a : α) (saved : Bool)
  | reload
  deriving DecidableEq, Repr

namespace WriteBack

variable {α : Type} {s : WriteBack α} {ops later : List (WriteBackOp α)} {a : α}

/-- The store without any update. -/
def empty : WriteBack α := ⟨[], []⟩

/-- An update that is saved takes those before it along. -/
def next (s : WriteBack α) : WriteBackOp α → WriteBack α
  | .put a true => ⟨s.written ++ s.staged ++ [a], []⟩
  | .put a false => ⟨s.written, s.staged ++ [a]⟩
  | .reload => ⟨s.written, []⟩

/-- The store after the operations. -/
def after (s : WriteBack α) (ops : List (WriteBackOp α)) : WriteBack α := ops.foldl next s

/-- All updates of the store, in their order. -/
def updates (s : WriteBack α) : List α := s.written ++ s.staged

@[simp] theorem after_nil : s.after [] = s := rfl

@[simp] theorem after_cons (op : WriteBackOp α) : s.after (op :: ops) = (s.next op).after ops := rfl

theorem after_append (ops later : List (WriteBackOp α)) :
    s.after (ops ++ later) = (s.after ops).after later := List.foldl_append

/-- What is written is never taken back, and the staged updates come after it. -/
theorem written_next (s : WriteBack α) (op : WriteBackOp α) : s.written <+: (s.next op).written := by
  cases op with
  | put a saved =>
    cases saved with
    | true => exact ⟨s.staged ++ [a], by simp [next]⟩
    | false => exact List.prefix_refl _
  | reload => exact List.prefix_refl _

theorem written_after (s : WriteBack α) (ops : List (WriteBackOp α)) :
    s.written <+: (s.after ops).written := by
  induction ops generalizing s with
  | nil => exact List.prefix_refl _
  | cons op ops ih => exact (written_next s op).trans (ih _)

/-- Whatever follows what is written was staged, or has been put since. -/
theorem updates_after (p : α → Prop) (hs : ∀ a ∈ s.staged, p a)
    (hops : ∀ a saved, .put a saved ∈ ops → p a) :
    ∃ l, (s.after ops).updates = s.written ++ l ∧ ∀ a ∈ l, p a := by
  induction ops generalizing s with
  | nil => exact ⟨s.staged, rfl, hs⟩
  | cons op ops ih =>
    have hlater : ∀ a saved, .put a saved ∈ ops → p a := fun a saved hm =>
      hops a saved (List.mem_cons_of_mem _ hm)
    cases op with
    | reload => exact ih (s := s.next .reload) (by simp [next]) hlater
    | put a saved =>
      have ha : p a := hops a saved List.mem_cons_self
      cases saved with
      | false =>
        refine ih (s := s.next (.put a false)) ?_ hlater
        intro b hb
        rcases List.mem_append.mp hb with hb | hb
        · exact hs b hb
        · exact List.mem_singleton.mp hb ▸ ha
      | true =>
        obtain ⟨l, hl, hp⟩ := ih (s := s.next (.put a true)) (by simp [next]) hlater
        refine ⟨s.staged ++ [a] ++ l, by simpa [next] using hl, ?_⟩
        intro b hb
        rcases List.mem_append.mp hb with hb | hb
        · rcases List.mem_append.mp hb with hb | hb
          · exact hs b hb
          · exact List.mem_singleton.mp hb ▸ ha
        · exact hp b hb

/-- A saved update stays, and only what is put after it follows it. -/
theorem written_saved (s : WriteBack α) (p : α → Prop) (hops : ∀ b saved, .put b saved ∈ later → p b) :
    ∃ front l, ((s.next (.put a true)).after later).written = front ++ a :: l ∧ ∀ b ∈ l, p b := by
  obtain ⟨l, hl, hp⟩ := updates_after (s := s.next (.put a true)) p (by simp [next]) hops
  obtain ⟨l1, hl1⟩ := written_after (s.next (.put a true)) later
  refine ⟨s.written ++ s.staged, l1, ?_, fun b hb => hp b ?_⟩
  · rw [← hl1]
    simp [next]
  · rw [updates, ← hl1, List.append_assoc, List.append_cancel_left_eq] at hl
    exact hl ▸ List.mem_append_left _ hb

end WriteBack

end DleynaCore
