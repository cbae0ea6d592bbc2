import Mathlib.Data.List.Basic

/-!
# Deduplicating work queues

A key that is added waits in the queue once, however often it is added. A key that is
added while a worker has it comes back to the queue when that worker is done. Keys that
are added with a delay wait apart until their time has come.
-/

namespace Data

structure WorkQueue (α : Type) where
  queue : List α := []
  /-- The keys that have to be processed: those in the queue, and those a worker has that
  were added again. -/
  dirty : List α := []
  processing : List α := []
  delayed : List α := []
deriving DecidableEq

namespace WorkQueue

variable {α : Type} [DecidableEq α]

def add (q : WorkQueue α) (key : α) : WorkQueue α :=
  if key ∈ q.dirty then q
  else
    { q with
      dirty := q.dirty ++ [key]
      queue := if key ∈ q.processing then q.queue else q.queue ++ [key] }

/-- Give the first key to a worker. -/
def get (q : WorkQueue α) : Option (α × WorkQueue α) :=
  match q.queue with
  | [] => none
  | key :: rest => some (key,
    { q with
      queue := rest
      dirty := q.dirty.filter fun other => other ≠ key
      processing := q.processing ++ [key] })

def done (q : WorkQueue α) (key : α) : WorkQueue α :=
  { q with
    processing := q.processing.filter fun other => other ≠ key
    queue := if key ∈ q.dirty then q.queue ++ [key] else q.queue }

def addAfter (q : WorkQueue α) (key : α) : WorkQueue α := { q with delayed := q.delayed ++ [key] }

/-- The delay of a key is over. -/
def expire (q : WorkQueue α) (key : α) : Option (WorkQueue α) :=
  if key ∈ q.delayed then some ({ q with delayed := q.delayed.erase key }.add key) else none

/-- Every key that waits is in `p`. -/
def Within (p : α → Prop) (q : WorkQueue α) : Prop :=
  (∀ key ∈ q.queue, p key) ∧ (∀ key ∈ q.dirty, p key) ∧ ∀ key ∈ q.delayed, p key

variable {p p' : α → Prop} {q : WorkQueue α} {key : α}

omit [DecidableEq α] in
theorem Within.mono (h : q.Within p) (hp : ∀ key, p key → p' key) : q.Within p' :=
  ⟨fun k hk => hp k (h.1 k hk),fun k hk => hp k (h.2.1 k hk),fun k hk => hp k (h.2.2 k hk)⟩

theorem Within.add (h : q.Within p) (hp : p key) : (q.add key).Within p := by
  unfold WorkQueue.add
  split
  · exact h
  · refine ⟨?_,?_,h.2.2⟩
    · split
      · exact h.1
      · exact List.forall_mem_append.mpr ⟨h.1,by simpa using hp⟩
    · exact List.forall_mem_append.mpr ⟨h.2.1,by simpa using hp⟩

theorem head_of_get {q' : WorkQueue α} (h : q.get = some (key,q')) : q.queue.head? = some key := by
  unfold WorkQueue.get at h
  split at h
  · cases h
  · next first rest hq =>
    cases h
    rw [hq,List.head?_cons]

theorem Within.get {q' : WorkQueue α} (h : q.Within p) (hg : q.get = some (key,q')) :
    p key ∧ q'.Within p := by
  unfold WorkQueue.get at hg
  split at hg
  · cases hg
  · next first rest hq =>
    cases hg
    rw [Within,hq] at h
    refine ⟨h.1 _ List.mem_cons_self,fun k hk => h.1 k (List.mem_cons_of_mem _ hk),?_,h.2.2⟩
    exact fun k hk => h.2.1 k (List.mem_filter.mp hk).1

theorem Within.done (h : q.Within p) (key : α) : (q.done key).Within p := by
  refine ⟨?_,h.2⟩
  simp only [WorkQueue.done]
  split
  · next hd => exact List.forall_mem_append.mpr ⟨h.1,by simpa using h.2.1 _ hd⟩
  · exact h.1

omit [DecidableEq α] in
theorem Within.addAfter (h : q.Within p) (hp : p key) : (q.addAfter key).Within p :=
  ⟨h.1,h.2.1,List.forall_mem_append.mpr ⟨h.2.2,by simpa using hp⟩⟩

theorem Within.expire {q' : WorkQueue α} (h : q.Within p) (he : q.expire key = some q') :
    q'.Within p := by
  unfold WorkQueue.expire at he
  split at he
  · next hd =>
    cases he
    refine Within.add ⟨h.1,h.2.1,fun k hk => h.2.2 k (List.mem_of_mem_erase hk)⟩ (h.2.2 _ hd)
  · cases he

end WorkQueue

end Data
