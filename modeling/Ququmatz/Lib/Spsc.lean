import Mathlib.Logic.Function.Basic
import Mathlib.Data.List.Infix
import Ququmatz.Lib.Wrap

/-!
# `Ququmatz.Lib.Spsc`: a single-producer single-consumer ring queue

One producer and one consumer share a power-of-two number of slots. The producer writes
slots and later publishes its tail; the consumer reads slots and later publishes its head.
Both indices are wrapping 32-bit counters that start anywhere.

`Spsc n b mem sent got p q` is the state of such a queue in terms of its history: `sent`
is everything written and `got` everything read, `b` is the position where the indices
started, `p` counts the entries that the published tail covers and `q` those that the
published head covers. The invariant says that `got` is a prefix of `sent`, that nothing
unpublished was read, and that the slots of the unread entries still hold them.

The four moves of a queue keep it: `Spsc.write`, `Spsc.publishTo`, `Spsc.read` and
`Spsc.publishHead`. The index lemmas (`Spsc.full_iff`, `Spsc.used_toNat`,
`Spsc.empty_iff`) say what the usual wrapping tests on the indices mean.
-/

set_option autoImplicit false

namespace Ququmatz.Lib

/-- A prefix extended by the next element of the list is a prefix. -/
theorem concat_prefix_of_getElem? {α : Type} {l L : List α} {x : α} (h : l <+: L)
    (hx : L[l.length]? = some x) : l ++ [x] <+: L := by
  obtain ⟨t, rfl⟩ := h
  rw [List.getElem?_append_right (Nat.le_refl _), Nat.sub_self] at hx
  cases t with
  | nil => simp at hx
  | cons y t =>
      simp only [List.getElem?_cons_zero, Option.some.injEq] at hx
      subst hx
      exact ⟨t, by simp⟩

/-- The slots hold the entries of `log` from position `lo` on. -/
def Holds {α : Type} (n b : Nat) (mem : Nat → α) (log : List α) (lo : Nat) : Prop :=
  ∀ i x, lo ≤ i → log[i]? = some x → mem ((b + i) % n) = x

namespace Holds

variable {α : Type} {n b : Nat} {mem : Nat → α} {log : List α} {lo : Nat}

theorem mono (h : Holds n b mem log lo) {lo' : Nat} (hlo : lo ≤ lo') :
    Holds n b mem log lo' :=
  fun i x hi hx => h i x (Nat.le_trans hlo hi) hx

/-- Writing the next entry disturbs no entry that is less than one ring old. -/
theorem write (h : Holds n b mem log lo) (hroom : log.length < lo + n) (x : α) :
    Holds n b (Function.update mem ((b + log.length) % n) x) (log ++ [x]) lo := by
  intro i y hi hy
  rcases Nat.lt_trichotomy i log.length with hlt | heq | hgt
  · rw [List.getElem?_append_left hlt] at hy
    -- An older entry is less than one ring away, so its slot is another one.
    have hne : (b + i) % n ≠ (b + log.length) % n :=
      mod_ne_of_window (by omega) (by omega)
    rw [Function.update_of_ne hne]
    exact h i y hi hy
  · subst heq
    -- This is the entry just written.
    rw [List.getElem?_concat_length, Option.some.injEq] at hy
    rw [Function.update_self, hy]
  · rw [List.getElem?_eq_none (by simp; omega)] at hy
    exact absurd hy (by simp)

end Holds

/-- A ring queue and its history; see the module docstring. -/
structure Spsc {α : Type} (n : RingSize) (b : Nat) (mem : Nat → α) (sent got : List α)
    (p q : Nat) : Prop where
  got_prefix : got <+: sent
  got_le : got.length ≤ p
  pub_le : p ≤ sent.length
  freed_le : q ≤ got.length
  room : sent.length ≤ q + n.size
  slots : Holds n.size b mem sent got.length

namespace Spsc

variable {α : Type} {n : RingSize} {b : Nat} {mem : Nat → α} {sent got : List α} {p q : Nat}

/-- A queue that nothing was written to. -/
theorem empty (n : RingSize) (b : Nat) (mem : Nat → α) : Spsc n b mem [] [] 0 0 where
  got_prefix := List.nil_prefix
  got_le := Nat.le_refl _
  pub_le := Nat.le_refl _
  freed_le := Nat.le_refl _
  room := Nat.zero_le _
  slots := by
    intro i x _ hx
    simp at hx

/-- The producer writes the next slot. -/
theorem write (h : Spsc n b mem sent got p q) (hroom : sent.length < q + n.size) (x : α) :
    Spsc n b (Function.update mem ((b + sent.length) % n.size) x) (sent ++ [x]) got p q where
  got_prefix := h.got_prefix.trans (List.prefix_append _ _)
  got_le := h.got_le
  pub_le := by
    have := h.pub_le
    rw [List.length_append]
    omega
  freed_le := h.freed_le
  room := by
    rw [List.length_append, List.length_singleton]
    omega
  slots := h.slots.write (by have := h.freed_le; omega) x

/-- The producer publishes a tail that covers `t` entries. -/
theorem publishTo (h : Spsc n b mem sent got p q) {t : Nat} (hp : p ≤ t)
    (ht : t ≤ sent.length) : Spsc n b mem sent got t q :=
  { h with
    got_le := Nat.le_trans h.got_le hp
    pub_le := ht }

/-- The producer publishes everything it wrote. -/
theorem publishTail (h : Spsc n b mem sent got p q) : Spsc n b mem sent got sent.length q :=
  h.publishTo h.pub_le (Nat.le_refl _)

/-- The slot of the next unread entry holds that entry. -/
theorem next_eq (h : Spsc n b mem sent got p q) (hlt : got.length < p) :
    sent[got.length]? = some (mem ((b + got.length) % n.size)) := by
  have hlen : got.length < sent.length := Nat.lt_of_lt_of_le hlt h.pub_le
  have hget := List.getElem?_eq_getElem hlen
  rw [hget, h.slots got.length _ (Nat.le_refl _) hget]

/-- The consumer reads the next slot. -/
theorem read (h : Spsc n b mem sent got p q) (hlt : got.length < p) :
    Spsc n b mem sent (got ++ [mem ((b + got.length) % n.size)]) p q where
  got_prefix := concat_prefix_of_getElem? h.got_prefix (h.next_eq hlt)
  got_le := by
    rw [List.length_append, List.length_singleton]
    omega
  pub_le := h.pub_le
  freed_le := by
    have := h.freed_le
    rw [List.length_append]
    omega
  room := h.room
  slots := h.slots.mono (by rw [List.length_append]; omega)

/-- The consumer publishes its head. -/
theorem publishHead (h : Spsc n b mem sent got p q) : Spsc n b mem sent got p got.length :=
  { h with
    freed_le := Nat.le_refl _
    room := by
      -- A later head only frees more slots.
      have := h.freed_le
      have := h.room
      omega }

/-- The wrapping difference of the producer's tail and the published head counts the slots
that are not free. -/
theorem used_toNat (h : Spsc n b mem sent got p q) :
    (UInt32.ofNat (b + sent.length) - UInt32.ofNat (b + q)).toNat = sent.length - q := by
  have hroom := h.room
  have hsize := n.size_lt
  have hq : q ≤ sent.length :=
    Nat.le_trans h.freed_le (Nat.le_trans h.got_le h.pub_le)
  rw [ofNat_sub_ofNat (by omega) (by omega)]
  omega

/-- The producer's full test: one more entry would not fit. -/
theorem full_iff (h : Spsc n b mem sent got p q) :
    UInt32.ofNat (b + sent.length) + 1 - UInt32.ofNat (b + q) > n.mask + 1 ↔
      sent.length = q + n.size := by
  have hroom := h.room
  have hsize := n.size_le
  have hq : q ≤ sent.length :=
    Nat.le_trans h.freed_le (Nat.le_trans h.got_le h.pub_le)
  -- `tail + 1` is the position after the next entry, so the test asks for one more slot.
  rw [n.mask_add_one, gt_iff_lt, UInt32.lt_iff_toNat_lt, ← ofNat_succ, Nat.add_assoc,
    ofNat_sub_ofNat (by omega) (by omega)]
  show n.size < _ ↔ _
  omega

/-- The consumer's empty test on the published tail. -/
theorem empty_iff (h : Spsc n b mem sent got p q) :
    UInt32.ofNat (b + got.length) = UInt32.ofNat (b + p) ↔ got.length = p := by
  have hroom := h.room
  have hsize := n.size_lt
  have hq := h.freed_le
  have hle := h.got_le
  have hpub := h.pub_le
  rw [ofNat_inj_window (by omega) (by omega)]
  omega

/-- The free test of a producer that publishes each entry as it writes it. -/
theorem free_iff (h : Spsc n b mem sent got p q) :
    UInt32.ofNat (b + sent.length) - UInt32.ofNat (b + q) < n.val ↔
      sent.length < q + n.size := by
  have hused := h.used_toNat
  have hq : q ≤ sent.length :=
    Nat.le_trans h.freed_le (Nat.le_trans h.got_le h.pub_le)
  rw [UInt32.lt_iff_toNat_lt, hused]
  show _ < n.size ↔ _
  omega

end Spsc

end Ququmatz.Lib
