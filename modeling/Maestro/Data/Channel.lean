import Mathlib.Data.List.Basic

/-!
# Buffered channels

A channel with a buffer of a fixed capacity. `send` and `receive` are the two operations of a
`select`; each is `none` where it would block.
-/

namespace Data

/-- What is buffered in a channel, the oldest value first. -/
structure Channel (α : Type) (cap : ℕ) where
  items : List α
  bounded : items.length ≤ cap
deriving DecidableEq

namespace Channel

variable {α : Type} {cap : ℕ}

def empty : Channel α cap := ⟨[],Nat.zero_le cap⟩

theorem length_append_le {items : List α} (a : α) (h : items.length < cap) :
    (items ++ [a]).length ≤ cap := by
  rw [List.length_append]
  exact h

def send (ch : Channel α cap) (a : α) : Option (Channel α cap) :=
  if h : ch.items.length < cap then some ⟨ch.items ++ [a],length_append_le a h⟩ else none

theorem length_tail_le (ch : Channel α cap) : ch.items.tail.length ≤ cap := by
  rw [List.length_tail]
  exact Nat.le_trans (Nat.sub_le _ _) ch.bounded

def receive (ch : Channel α cap) : Option (α × Channel α cap) :=
  ch.items.head?.map fun a => (a,⟨ch.items.tail,ch.length_tail_le⟩)

/-- Values stay in the order in which they were sent. -/
theorem items_of_send {ch ch' : Channel α cap} {a : α} (h : ch.send a = some ch') :
    ch'.items = ch.items ++ [a] := by
  unfold send at h
  split at h
  · cases h; rfl
  · cases h

theorem items_of_receive {ch ch' : Channel α cap} {a : α} (h : ch.receive = some (a,ch')) :
    ch.items = a :: ch'.items := by
  unfold receive at h
  obtain ⟨b,hb,he⟩ := Option.map_eq_some_iff.mp h
  cases he
  exact List.eq_cons_of_mem_head? hb

/-- A send waits only where the buffer is full. -/
theorem send_of_lt {ch : Channel α cap} (a : α) (h : ch.items.length < cap) :
    ∃ ch', ch.send a = some ch' :=
  ⟨_,dif_pos h⟩

/-- A full channel can be received from. -/
theorem receive_of_full {ch : Channel α cap} (hcap : 0 < cap) (h : ¬ ch.items.length < cap) :
    ∃ a ch', ch.receive = some (a,ch') := by
  obtain ⟨items,hb⟩ := ch
  cases items with
  | nil => exact absurd hcap h
  | cons a rest => exact ⟨a,_,rfl⟩

end Channel

end Data
