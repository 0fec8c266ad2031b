import Ququmatz.Lib.Simulation
import Ququmatz.Proofs.Ring.Masks
import Ququmatz.Ring.Bytes

/-!
# `Ququmatz.Proofs.Ring.Bytes`: the bytes of a ring are its queues

`ByteWorld.Shows` relates the memory of a ring to the `World` that the rest of the development is
about: the cells of the memory hold the values of the world, and the histories are the same. Each
access and each move of the kernel keeps it (`bytesSim`), as long as the crate indexes its slots by
the masks. `SysOn.Shows.run` is the same for a ring with its owner, over whole runs.
-/

set_option autoImplicit false

namespace Ququmatz

open Lib

/-! ### The values of a world -/

/-- What a cell holds. -/
def World.value (w : World) : (c : RingCell) → c.Val
  | .sqHead => w.sqHead
  | .sqTail => w.sqTail
  | .sqFlags => w.sqFlags
  | .sqArray i => w.sqArray i
  | .sqe i => w.sqes i
  | .cqHead => w.cqHead
  | .cqTail => w.cqTail
  | .cqe i => w.cqes i

namespace World

/-- The world with another value in one cell. -/
def set (w : World) : (c : RingCell) → c.Val → World
  | .sqHead, v => { w with sqHead := v }
  | .sqTail, v => { w with sqTail := v }
  | .sqFlags, v => { w with sqFlags := v }
  | .sqArray i, v => { w with sqArray := Function.update w.sqArray i v }
  | .sqe i, sqe => { w with sqes := Function.update w.sqes i sqe }
  | .cqHead, v => { w with cqHead := v }
  | .cqTail, v => { w with cqTail := v }
  | .cqe i, cqe => { w with cqes := Function.update w.cqes i cqe }

theorem value_set (w : World) (c : RingCell) (x : c.Val) :
    (w.set c x).value = Function.update w.value c x := by
  funext d
  by_cases hdc : d = c
  · subst hdc
    rw [Function.update_self]
    cases d with
    | sqArray i => exact Function.update_self i x w.sqArray
    | sqe i => exact Function.update_self i x w.sqes
    | cqe i => exact Function.update_self i x w.cqes
    | _ => rfl
  · rw [Function.update_of_ne hdc]
    cases c with
    | sqArray i =>
        cases d with
        | sqArray j =>
            exact Function.update_of_ne (fun h => hdc (congrArg RingCell.sqArray h)) x w.sqArray
        | _ => rfl
    | sqe i =>
        cases d with
        | sqe j =>
            exact Function.update_of_ne (fun h => hdc (congrArg RingCell.sqe h)) x w.sqes
        | _ => rfl
    | cqe i =>
        cases d with
        | cqe j =>
            exact Function.update_of_ne (fun h => hdc (congrArg RingCell.cqe h)) x w.cqes
        | _ => rfl
    | _ => cases d <;> first | rfl | exact (hdc rfl).elim

end World

/-! ### The relation -/

theorem RingCell.layout_size [Native] (c : RingCell) : c.layout.size = c.size := by
  cases c with
  | sqe i => exact Sqe.layout_size
  | cqe i => exact Cqe.layout_size
  | _ => rfl

/-- The cells of a ring, as its handles and the kernel know them. -/
def RingMap.cells [Native] (m : RingMap) : Cells RingCell where
  Val := RingCell.Val
  layout := RingCell.layout
  addr := m.pointers.addr
  Valid := m.params.Has
  apart := by
    intro c d hc hd hcd
    rw [RingCell.layout_size, RingCell.layout_size]
    exact m.apart c d hc hd hcd

section Machine

variable [Native]

namespace ByteWorld

/-- The bytes are those of the world, and beside the cells those that there were at first. -/
structure Shows (m : RingMap) (first : Nat → UInt8) (b : ByteWorld) (w : World) : Prop where
  map : b.map = m
  params : m.params = w.params
  cells : m.cells.Shows b.bytes w.value
  beside : ∀ a, (∀ c, m.params.Has c → ¬ Range.Has ⟨m.pointers.addr c, c.size⟩ a) →
    b.bytes a = first a
  resources : b.resources = w.resources
  written : b.written = w.written
  consumed : b.consumed = w.consumed
  posted : b.posted = w.posted
  read : b.read = w.read
  syscalls : b.syscalls = w.syscalls
  /-- Nobody writes the SQ array after the parse. -/
  array : w.hasSqArray = true → ∀ i < w.params.sq.size, w.sqArray i = UInt32.ofNat i

variable {m : RingMap} {first : Nat → UInt8} {b : ByteWorld} {w : World}

theorem Shows.load (h : Shows m first b w) {c : RingCell} (hc : m.params.Has c) :
    b.load c = w.value c := by
  obtain ⟨rfl, -, hcells, -⟩ := h
  exact hcells.load hc

/-- A store to a cell, which is not one of the SQ array, changes its value and nothing else. -/
theorem Shows.store (h : Shows m first b w) {c : RingCell} (hc : m.params.Has c)
    (harray : ∀ i, c ≠ .sqArray i) (x : c.Val) : Shows m first (b.store c x) (w.set c x) := by
  obtain ⟨rfl, hparams, hcells, hbeside, h1, h2, h3, h4, h5, h6, h7⟩ := h
  have hset : b.map.cells.Shows (b.store c x).bytes (w.set c x).value := by
    rw [World.value_set]
    exact hcells.store hc x
  have hout : ∀ a, (∀ d, b.map.params.Has d → ¬ Range.Has ⟨b.map.pointers.addr d, d.size⟩ a) →
      (b.store c x).bytes a = first a := by
    intro a ha
    refine Eq.trans (b.map.cells.store_outside b.bytes c x ?_) (hbeside a ha)
    show ¬ Range.Has ⟨b.map.pointers.addr c, c.layout.size⟩ a
    rw [RingCell.layout_size]
    exact ha c hc
  cases c with
  | sqArray i => exact (harray i rfl).elim
  | _ => exact ⟨rfl, hparams, hset, hout, h1, h2, h3, h4, h5, h6, h7⟩

/-! ### The kernel -/

theorem Shows.hasSqArray (h : Shows m first b w) : b.view.hasSqArray = w.hasSqArray := by
  unfold World.hasSqArray view
  rw [h.map, h.params]

theorem Shows.sqpoll (h : Shows m first b w) : b.view.sqpoll = w.sqpoll := by
  unfold World.sqpoll view
  rw [h.map, h.params]

theorem Shows.mayPost (h : Shows m first b w) (o : Origin) (cqe : Cqe) :
    b.view.mayPost o cqe = w.mayPost o cqe := by
  cases o <;>
    simp only [World.mayPost, World.finished, World.messaged, World.isMessage, view, h.consumed,
      h.posted, h.resources]

theorem Shows.waitSatisfied (h : Shows m first b w) (n : UInt32) (flags : EnterFlags) :
    b.view.waitSatisfied n flags = w.waitSatisfied n flags := by
  have hhead : b.load .cqHead = w.cqHead := h.load trivial
  have htail : b.load .cqTail = w.cqTail := h.load trivial
  simp only [World.waitSatisfied, view, hhead, htail, h.map, h.params]

/-- The kernel finds the SQE in the slot that the crate has written. -/
theorem Shows.sqe (h : Shows m first b w) :
    b.load (.sqe b.view.sqIndex) = w.sqes w.sqIndex := by
  have hhead : b.load .sqHead = w.sqHead := h.load trivial
  have hmask : (w.sqHead &&& w.params.sq.mask).toNat < w.params.sq.size :=
    w.params.sq.and_mask_lt w.sqHead
  have hindex : b.view.sqIndex = w.sqIndex ∧ w.sqIndex < w.params.sq.size := by
    unfold World.sqIndex
    rw [h.hasSqArray]
    dsimp only [view]
    rw [hhead, h.map, h.params]
    cases harray : w.hasSqArray with
    | false => exact ⟨rfl, hmask⟩
    | true =>
        have hid := h.array harray _ hmask
        have hhas : m.params.Has (.sqArray (w.sqHead &&& w.params.sq.mask).toNat) := by
          rw [h.params]
          exact ⟨by simpa [World.hasSqArray] using harray, hmask⟩
        have hword : b.load (.sqArray (w.sqHead &&& w.params.sq.mask).toNat) = w.sqArray _ :=
          h.load hhas
        rw [if_pos rfl, if_pos rfl, hword]
        refine ⟨rfl, ?_⟩
        rw [hid, UInt32.toNat_ofNat_of_lt' (Nat.lt_trans hmask w.params.sq.size_lt)]
        exact hmask
  have hhas : m.params.Has (.sqe w.sqIndex) := by
    rw [h.params]
    exact hindex.2
  rw [hindex.1]
  exact h.load hhas

theorem Shows.consumeOne (h : Shows m first b w) :
    Option.Rel (Shows m first) b.consumeOne w.consumeOne := by
  have hhead : b.load .sqHead = w.sqHead := h.load trivial
  have htail : b.load .sqTail = w.sqTail := h.load trivial
  have hsqe := h.sqe
  unfold ByteWorld.consumeOne World.consumeOne
  dsimp only
  rw [hhead, htail, hsqe]
  refine relIte Iff.rfl (fun _ => .none) fun _ => .some ?_
  have hstored := h.store (c := .sqHead) trivial nofun (w.sqHead + 1)
  exact { hstored with consumed := congrArg (· ++ [w.sqes w.sqIndex]) h.consumed }

theorem Shows.consumeN (n : Nat) (h : Shows m first b w) :
    Option.Rel (Shows m first) (b.consumeN n) (w.consumeN n) := by
  induction n generalizing b w with
  | zero => exact .some h
  | succ n ih => exact relBind h.consumeOne fun _ _ h1 => ih h1

theorem Shows.post (h : Shows m first b w) (o : Origin) (cqe : Cqe) :
    Option.Rel (Shows m first) (b.post o cqe) (w.post o cqe) := by
  have hhead : b.load .cqHead = w.cqHead := h.load trivial
  have htail : b.load .cqTail = w.cqTail := h.load trivial
  unfold ByteWorld.post World.post
  dsimp only
  rw [hhead, htail, h.map, h.params, h.mayPost]
  refine relIte Iff.rfl (fun _ => .some ?_) fun _ => .none
  have hslot : m.params.Has (.cqe (w.cqTail &&& w.params.cq.mask).toNat) := by
    rw [h.params]
    exact w.params.cq.and_mask_lt w.cqTail
  -- first the slot, and then the tail that publishes it
  have hfilled := h.store hslot nofun cqe
  have hstored := hfilled.store (c := .cqTail) trivial nofun (w.cqTail + 1)
  exact { hstored with posted := congrArg (· ++ [(o, cqe)]) h.posted }

theorem Shows.env (k : KStep) (h : Shows m first b w) :
    Option.Rel (Shows m first) (ByteWorld.env k b) (World.env k w) := by
  cases k with
  | consume =>
      unfold ByteWorld.env World.env
      dsimp only
      rw [h.sqpoll]
      exact relIte Iff.rfl (fun _ => h.consumeOne) fun _ => .none
  | post o cqe => exact h.post o cqe
  | setSqFlags v => exact .some (h.store (c := .sqFlags) trivial nofun v)

theorem Shows.envSteps (ks : List KStep) (h : Shows m first b w) :
    Option.Rel (Shows m first) (envSteps ByteWorld.env ks b) (envSteps World.env ks w) := by
  induction ks generalizing b w with
  | nil => exact .some h
  | cons k ks ih => exact relBind (h.env k) fun _ _ h1 => ih h1

theorem Shows.takeEntries (n : Nat) (h : Shows m first b w) :
    Option.Rel (Shows m first) (b.takeEntries n) (w.takeEntries n) := by
  unfold ByteWorld.takeEntries World.takeEntries
  rw [h.sqpoll]
  exact relIte Iff.rfl (fun _ => .some h) fun _ => h.consumeN n

theorem Shows.enter (toSubmit minComplete : UInt32) (flags : EnterFlags) (r : EnterReply)
    (h : Shows m first b w) : Option.Rel (fun x y => x.1 = y.1 ∧ Shows m first x.2 y.2)
      (b.enter toSubmit minComplete flags r) (w.enter toSubmit minComplete flags r) := by
  unfold ByteWorld.enter World.enter
  cases r.outcome with
  | err e => exact relMap (h.envSteps _) fun _ _ h1 => ⟨rfl, h1⟩
  | ok n =>
      refine relIte Iff.rfl (fun _ => ?_) fun _ => .none
      refine relBind (h.takeEntries n) fun b1 w1 h1 => relBind (h1.envSteps _) fun b2 w2 h2 => ?_
      rw [h2.waitSatisfied]
      exact relIte Iff.rfl (fun _ => .some ⟨rfl, h2⟩) fun _ => .none
  | early n =>
      refine relIte Iff.rfl (fun _ => ?_) fun _ => .none
      exact relBind (h.takeEntries n) fun b1 w1 h1 => relMap (h1.envSteps _) fun _ _ h2 =>
        ⟨rfl, h2⟩

/-! ### The crate -/

theorem relMemory {α : Type} {x : α × ByteWorld} {y : α × World}
    (h : x.1 = y.1 ∧ Shows m first x.2 y.2) (r : Option EnterReply) :
    Option.Rel (fun x y => x.1 = y.1 ∧ Shows m first x.2 y.2) (memory x r) (World.memory y r) := by
  cases r with
  | none => exact .some h
  | some r => exact .none

/-- The slots that an access names are slots of the ring. -/
def Covers (params : RingParams) : Access → Prop
  | .writeSqe idx _ => idx.toNat < params.sq.size
  | .readCqe idx => idx.toNat < params.cq.size
  | _ => True

theorem Shows.access (a : Access) (r : Option EnterReply) (h : Shows m first b w)
    (ha : Covers m.params a) : Option.Rel (fun x y => x.1 = y.1 ∧ Shows m first x.2 y.2)
      (b.access a r) (w.access a r) := by
  cases a with
  | loadSqHead => exact relMemory ⟨h.load (c := .sqHead) trivial, h⟩ r
  | storeSqTail v => exact relMemory ⟨rfl, h.store (c := .sqTail) trivial nofun v⟩ r
  | loadSqFlags => exact relMemory ⟨h.load (c := .sqFlags) trivial, h⟩ r
  | writeSqe idx sqe =>
      have hstored := h.store (c := .sqe idx.toNat) ha nofun sqe
      refine relMemory ⟨rfl, ?_⟩ r
      exact { hstored with written := congrArg (· ++ [sqe]) h.written }
  | loadCqTail => exact relMemory ⟨h.load (c := .cqTail) trivial, h⟩ r
  | readCqe idx =>
      have hcqe : b.load (.cqe idx.toNat) = w.cqes idx.toNat := h.load (c := .cqe idx.toNat) ha
      unfold ByteWorld.access World.access
      dsimp only
      rw [hcqe]
      refine relMemory ⟨rfl, ?_⟩ r
      exact { h with read := congrArg (· ++ [w.cqes idx.toNat]) h.read }
  | storeCqHead v => exact relMemory ⟨rfl, h.store (c := .cqHead) trivial nofun v⟩ r
  | enter fd toSubmit minComplete flags =>
      cases r with
      | none => exact .none
      | some r => exact h.enter toSubmit minComplete flags r
  | retain =>
      refine relMemory ⟨rfl, ?_⟩ r
      exact { h with resources := congrArg RingResources.retain h.resources }
  | release =>
      refine relMemory ⟨rfl, ?_⟩ r
      exact
        { h with
          resources := congrArg RingResources.released h.resources
          syscalls := congrArg₂ (· ++ ·) h.syscalls (congrArg RingResources.cleanup h.resources) }

end ByteWorld

/-- The crate cannot tell the bytes from the queues. -/
def bytesSim (m : RingMap) (first : Nat → UInt8) : Bisimulation byteMachine ringMachine where
  Rel := ByteWorld.Shows m first
  envOf := id
  replyOf := id
  Covers := ByteWorld.Covers m.params
  env k _ _ h := h.env k
  access a r _ _ ha h := h.access a r ha

omit [Native] in
/-- An index under the masks is that of a slot. -/
theorem MaskedAccess.covered {params : RingParams} {a : Access}
    (h : MaskedAccess params.sq.mask params.cq.mask a) : ByteWorld.Covers params a := by
  cases a with
  | writeSqe idx sqe =>
      obtain ⟨pos, rfl⟩ := h
      exact params.sq.and_mask_lt pos
  | readCqe idx =>
      obtain ⟨pos, rfl⟩ := h
      exact params.cq.and_mask_lt pos
  | _ => trivial

omit [Native] in
theorem Handles.safe_of_program {α : Type} {sqMask cqMask : UInt32} {h : Handles} {c : Call}
    {o : Option (RingProg (α × Handles))} {p : RingProg (α × Handles)}
    (hh : h.Masked sqMask cqMask) (hc : h.program c = o.map fun p => do return (← p).2)
    (hp : o = some p) :
    p.Safe (MaskedAccess sqMask cqMask) fun x => x.2.Masked sqMask cqMask := by
  subst hp
  exact (Handles.program_masked hh hc).of_map

/-! ### The ring and its owner -/

namespace SysOn

/-- The memory shows the ring, and the owners have done the same. -/
structure Shows (m : RingMap) (first : Nat → UInt8) (x : SysOn byteMachine) (s : Sys) :
    Prop where
  state : ByteWorld.Shows m first x.state s.world
  handles : x.handles = s.handles
  pools : x.pools = s.pools
  accepted : x.accepted = s.accepted
  reaped : x.reaped = s.reaped
  masked : s.handles.Masked m.params.sq.mask m.params.cq.mask

/-- The same step around the queues. -/
def actionOf : ActionOn byteMachine → Action
  | .call c rs => .call c (rs.map fun r => ⟨r.before, r.reply⟩)
  | .kernel k => .kernel k

variable {m : RingMap} {first : Nat → UInt8} {x : SysOn byteMachine} {s : Sys}

theorem Shows.exec {α : Type} {o : Option (RingProg (α × Handles))}
    {record : α → SysOn byteMachine → SysOn byteMachine} {record' : α → Sys → Sys}
    (h : Shows m first x s) (rs : List (Round byteMachine))
    (ho : ∀ p, o = some p → p.Safe (MaskedAccess m.params.sq.mask m.params.cq.mask) fun y =>
      y.2.Masked m.params.sq.mask m.params.cq.mask)
    (hrecord : ∀ a x s, Shows m first x s → Shows m first (record a x) (record' a s)) :
    Option.Rel (Shows m first) (x.exec o rs record)
      (s.exec o (rs.map fun r => ⟨r.before, r.reply⟩) record') := by
  cases o with
  | none => exact .none
  | some p =>
      have hsafe := (ho p rfl).mono (fun _ => MaskedAccess.covered) fun _ h => h
      have hrounds : rs.map (bytesSim m first).roundOf = rs.map fun r => ⟨r.before, r.reply⟩ := by
        refine List.map_congr_left fun r _ => ?_
        show (⟨r.before.map id, r.reply⟩ : KRound) = _
        rw [List.map_id]
      have hrun := (bytesSim m first).run hsafe rs h.state
      rw [hrounds] at hrun
      refine relMap hrun fun y z hyz => ?_
      obtain ⟨hans, hmasked, hstate⟩ := hyz
      rw [← hans]
      exact hrecord _ _ _ ⟨hstate, rfl, h.pools, h.accepted, h.reaped, hmasked⟩

theorem Shows.call (h : Shows m first x s) (c : Call) (rs : List (Round byteMachine)) :
    Option.Rel (Shows m first) (x.call c rs) (s.call c (rs.map fun r => ⟨r.before, r.reply⟩)) := by
  unfold SysOn.call Sys.call
  rw [h.handles, h.pools]
  -- a call that leaves no record
  have hplain {α : Type} {o : Option (RingProg (α × Handles))} (c : Call)
      (hc : s.handles.program c = o.map fun p => do return (← p).2) :
      Option.Rel (Shows m first) (x.exec o rs recordNothing)
        (s.exec o (rs.map fun r => ⟨r.before, r.reply⟩) Sys.recordNothing) :=
    h.exec rs (fun _ hp => Handles.safe_of_program h.masked hc hp) fun _ _ _ h => h
  cases c with
  | push sqe =>
      refine h.exec rs (fun p hp => Handles.safe_of_program (c := .push sqe) h.masked rfl hp) ?_
      intro res x s h
      cases res with
      | ok u => exact { h with accepted := congrArg (· ++ [sqe]) h.accepted }
      | error e => exact h
  | complete =>
      refine h.exec rs (fun p hp => Handles.safe_of_program (c := .complete) h.masked rfl hp) ?_
      intro res x s h
      cases res with
      | some c => exact { h with reaped := congrArg (· ++ [c]) h.reaped }
      | none => exact h
  | registerPool =>
      refine relIte Iff.rfl (fun _ => ?_) fun _ => .none
      refine h.exec rs (fun p hp => ?_) fun _ x s h => ?_
      · cases hp
        exact ⟨trivial, fun _ => h.masked⟩
      · exact { h with pools := congrArg (· + 1) h.pools }
  | dropPool =>
      refine relIte Iff.rfl (fun _ => ?_) fun _ => .none
      refine h.exec rs (fun p hp => ?_) fun _ x s h => ?_
      · cases hp
        exact ⟨trivial, fun _ => h.masked⟩
      · exact { h with pools := congrArg (· - 1) h.pools }
  | flushSqTail => exact hplain .flushSqTail rfl
  | submit => exact hplain .submit rfl
  | submitAndWait n => exact hplain (.submitAndWait n) rfl
  | submitSqpoll => exact hplain .submitSqpoll rfl
  | syncCq => exact hplain .syncCq rfl
  | wait n => exact hplain (.wait n) rfl
  | nextDoTag => exact hplain .nextDoTag rfl
  | split => exact hplain .split rfl
  | dropRing => exact hplain .dropRing rfl
  | dropSubmitter => exact hplain .dropSubmitter rfl
  | dropCompleter => exact hplain .dropCompleter rfl

theorem Shows.step (h : Shows m first x s) (a : ActionOn byteMachine) :
    Option.Rel (Shows m first) (x.step a) (s.step (actionOf a)) := by
  cases a with
  | call c rs => exact h.call c rs
  | kernel k =>
      exact relMap (h.state.env k) fun b w hw =>
        ⟨hw, h.handles, h.pools, h.accepted, h.reaped, h.masked⟩

/-- The bytes and the queues have the same runs. -/
theorem Shows.run (h : Shows m first x s) (as : List (ActionOn byteMachine)) :
    Option.Rel (Shows m first) (x.run as) (s.run (as.map actionOf)) := by
  induction as generalizing x s with
  | nil => exact .some h
  | cons a as ih => exact relBind (h.step a) fun _ _ h1 => ih h1

end SysOn

end Machine

end Ququmatz
