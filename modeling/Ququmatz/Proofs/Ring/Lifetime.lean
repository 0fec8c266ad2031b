import Ququmatz.Lib.Run
import Ququmatz.Proofs.Ring.Setup

/-!
# `Ququmatz.Proofs.Ring.Lifetime`: the shares of a ring's resources

The count in the page of a ring is the number of its live handles. `LifeAt` says what this
means for the process: with `n` shares the parts of the ring are live and none was released,
and with no share left they were released, each once, the page last; a live pool has its own
two mappings besides. The programs that make and drop handles take `LifeAt` at one count to
`LifeAt` at the next, and `Life.Inv` is `LifeAt` at the number of handles.

`ring_released_once` reads off what this says of a whole run.
-/

set_option autoImplicit false

namespace Ququmatz

open Lib

/-- What is owned of the ring while it has `n` shares. -/
def RingResources.partsAt (page : RingResources) (n : Nat) : List Resource :=
  if n = 0 then [] else page.parts

/-- What the live pools own. -/
def poolParts (pools : List LivePool) : List Resource := pools.flatMap fun x => x.pool.parts

/-- What was released of the ring: nothing while it has shares, then each part, at the end. -/
structure ReleasedAt (page : RingResources) (n : Nat) (rel : List Resource) : Prop where
  kept : 0 < n → ∀ r ∈ page.parts, r ∉ rel
  last : n = 0 → ∃ pre, rel = pre ++ page.parts ∧ ∀ r ∈ page.parts, r ∉ pre
  nonempty : ∀ r ∈ rel, r.Nonempty

/-- Since `os₀`, a ring with this page was made; it has `n` shares, and these pools. -/
def LifeAt (os₀ : Os) (resources : Nat) (page : RingResources) (n : Nat) (pools : List LivePool)
    (groups : RawFd → UInt16 → Option UInt64) (os : Os) : Prop :=
  ∃ rel pages denied,
    OsAt ⟨os₀.ledger, rel, page.partsAt n ++ poolParts pools, pages, groups, denied, os₀.faults⟩
      os ∧ ReleasedAt page n rel ∧ (0 < n → pages resources = { page with refcount := n })

theorem RingResources.partsAt_succ (page : RingResources) (n : Nat) :
    page.partsAt (n + 1) = page.parts := if_neg (Nat.succ_ne_zero n)

theorem RingResources.file_mem (page : RingResources) : .file page.fd ∈ page.parts := by
  simp [parts]

theorem RingResources.mem_partsAt {page : RingResources} {n : Nat} {rest : List Resource} :
    ∀ p ∈ page.parts, p ∈ page.partsAt (n + 1) ++ rest := by
  intro p hp
  rw [page.partsAt_succ]
  exact List.mem_append_left _ hp

/-- The descriptor is open as long as the ring has a share. -/
theorem RingResources.file_live {page : RingResources} {fd : RawFd} {n : Nat}
    {rest base : List Resource} (h : fd = page.fd) :
    .file fd ∈ (page.partsAt (n + 1) ++ rest) ++ base := by
  rw [h]
  exact List.mem_append_left _ (mem_partsAt _ page.file_mem)

namespace RingResources.Made

variable {page : RingResources} {r : OsRing} (h : page.Made r)

include h

theorem selfPage_mem : .mapping ⟨r.resources, 4096⟩ ∈ page.parts := by
  simp [RingResources.parts, ← h.page]

/-- The page is mapped as long as its parts are owned. -/
theorem holds {v : OsView} (hown : ∀ p ∈ page.parts, p ∈ v.own) : v.Holds r.resources := by
  refine ⟨⟨r.resources, 4096⟩, List.mem_append_left _ (hown _ h.selfPage_mem), Nat.le_refl _, ?_⟩
  show r.resources < r.resources + 4096
  omega

/-- So is the completion ring, wherever it lies. -/
theorem holds_cqRing {v : OsView} (hown : ∀ p ∈ page.parts, p ∈ v.own) : v.Holds r.cqRingPtr := by
  rcases h.cqRing_cases with ⟨-, heq⟩ | ⟨haddr, hlen⟩
  · rw [heq]
    refine ⟨page.sqRing, List.mem_append_left _ (hown _ (by simp [RingResources.parts])),
      Nat.le_refl _, Nat.lt_add_of_pos_right h.sqRing_pos⟩
  · rw [← haddr]
    refine ⟨page.cqRing, List.mem_append_left _ (hown _ ?_), Nat.le_refl _,
      Nat.lt_add_of_pos_right hlen⟩
    simp [RingResources.parts, MappedRegion.part_of_pos hlen]

theorem parts_nonempty : ∀ p ∈ page.parts, p.Nonempty := by
  intro p hp
  simp only [RingResources.parts, List.mem_cons, List.mem_append, List.not_mem_nil,
    or_false] at hp
  rcases hp with rfl | hp | rfl | rfl | rfl
  · exact h.sqes_pos
  · unfold MappedRegion.part at hp
    split at hp
    · rename_i hlen
      cases List.mem_singleton.mp hp
      exact hlen
    · cases hp
  · exact h.sqRing_pos
  · trivial
  · show 0 < page.selfPage.len
    rw [h.page]
    exact Nat.succ_pos _

end RingResources.Made

/-! ### Giving up a share -/

section Release

variable {v : OsView} {page : RingResources} {ptr : Nat}

/-- The page is read while the view owns it. -/
theorem Spec.readOwnPage {α : Type} {Q : α → Os → Prop} {f : RingResources → OsProg α}
    {res : RingResources} (hpage : v.pages ptr = res) (hmem : .mapping ⟨ptr, 4096⟩ ∈ v.own)
    (hf : Spec osMachine (OsAt v) (f res) Q) :
    Spec osMachine (OsAt v) (call (.readPage ptr) >>= f) Q := by
  refine Spec.readPage ⟨⟨ptr, 4096⟩, List.mem_append_left _ hmem, Nat.le_refl _, ?_⟩ ?_
  · show ptr < ptr + 4096
    omega
  · rw [hpage]
    exact hf

/-- One of several shares is given up: only the count changes. -/
theorem RingResources.releaseAt_shared {n : Nat} (hptr : v.Holds ptr)
    (hpage : v.pages ptr = { page with refcount := n + 2 }) :
    Spec osMachine (OsAt v) (releaseAt ptr) fun _ =>
      OsAt { v with pages := Function.update v.pages ptr { page with refcount := n + 1 } } := by
  unfold releaseAt
  refine Spec.fetchSub hptr ?_
  rw [hpage]
  rw [if_pos (show n + 2 ≠ 1 by omega)]
  exact Spec.ret fun os hos => hos

/-- The last share is given up: the parts go one by one, and the page itself at the end. -/
theorem RingResources.releaseAt_last {rest : List Resource} (hself : page.selfPage = ⟨ptr, 4096⟩)
    (hpage : v.pages ptr = { page with refcount := 1 })
    (hown : v.own.Perm (page.parts ++ rest)) :
    Spec osMachine (OsAt v) (releaseAt ptr) fun _ =>
      OsAt { v with
        rel := v.rel ++ page.parts
        own := rest
        pages := Function.update v.pages ptr { page with refcount := 0 } } := by
  have hcount : (v.pages ptr).refcount = 1 := by rw [hpage]
  have hreleased : (v.pages ptr).released = { page with refcount := 0 } := by rw [hpage]; rfl
  have hread : Function.update v.pages ptr (v.pages ptr).released ptr
      = { page with refcount := 0 } := by rw [Function.update_self, hreleased]
  rw [← hreleased]
  unfold releaseAt
  refine Spec.conseq ?_ (fun os hos => hos.perm hown) fun _ _ hq => hq
  have hptr : OsView.Holds { v with own := page.parts ++ rest } ptr := by
    refine ⟨⟨ptr, 4096⟩, ?_, Nat.le_refl _, by show ptr < ptr + 4096; omega⟩
    simp [OsView.live, parts, ← hself]
  refine Spec.fetchSub hptr ?_
  rw [hcount, if_neg (by simp)]
  -- The last share: each region is read from the page and given back, the page itself at the end.
  refine Spec.readOwnPage hread (by simp [parts, ← hself]) ?_
  refine Spec.munmap (List.Perm.refl _) fun _ => ?_
  refine Spec.readOwnPage hread (by simp [← hself]) ?_
  refine Spec.munmapPart (m := page.cqRing) (List.Perm.of_eq (List.append_assoc _ _ _)) ?_
  refine Spec.readOwnPage hread (by simp [← hself]) ?_
  refine Spec.munmap (List.Perm.refl _) fun _ => ?_
  refine Spec.readOwnPage hread (by simp [← hself]) ?_
  refine Spec.close (List.Perm.refl _) fun _ => ?_
  refine Spec.readOwnPage hread (by simp [← hself]) ?_
  refine Spec.munmap (List.Perm.refl _) fun _ => ?_
  refine Spec.ret fun os hos => ?_
  simp only [List.append_assoc] at hos
  exact hos

end Release

theorem cqHeadStore_spec {v : OsView} {cqRing : Nat} (h : v.Holds cqRing) :
    Spec osMachine (OsAt v) (call (.storeCqHead cqRing)) fun _ => OsAt v :=
  Spec.cqHeadStore (f := Prog.ret) h (Spec.ret fun _ hos => hos)

/-! ### The programs of the handles, at a number of shares -/

section Shares

variable {os₀ : Os} {r : OsRing} {page : RingResources} {n : Nat} {pools : List LivePool}
  {groups : RawFd → UInt16 → Option UInt64}

/-- Nothing was released of a ring that has shares. -/
theorem ReleasedAt.of_pos {rel : List Resource} (hkept : ∀ p ∈ page.parts, p ∉ rel)
    (hne : ∀ p ∈ rel, p.Nonempty) : ReleasedAt page (n + 1) rel :=
  ⟨fun _ => hkept, fun h => absurd h (Nat.succ_ne_zero n), hne⟩

theorem LifeAt.groups_eq {os : Os} {resources : Nat}
    (h : LifeAt os₀ resources page n pools groups os) : os.groups = groups := by
  obtain ⟨_, _, _, hos, -, -⟩ := h
  exact hos.groups

theorem LifeAt.of_parts {os : Os} {resources : Nat} {pools' : List LivePool}
    (h : LifeAt os₀ resources page n pools groups os)
    (hparts : poolParts pools = poolParts pools') :
    LifeAt os₀ resources page n pools' groups os := by
  unfold LifeAt at h ⊢
  rw [← hparts]
  exact h

/-- To prove something of a program from `LifeAt`, prove it from the view. -/
theorem LifeAt.spec {α : Type} {p : OsProg α} {Q : α → Os → Prop} {resources : Nat}
    (h : ∀ rel pages denied, (page.partsAt n ++ poolParts pools).Nodup → ReleasedAt page n rel →
      (0 < n → pages resources = { page with refcount := n }) →
      Spec osMachine
        (OsAt ⟨os₀.ledger, rel, page.partsAt n ++ poolParts pools, pages, groups, denied,
          os₀.faults⟩) p Q) :
    Spec osMachine (LifeAt os₀ resources page n pools groups) p Q := by
  rintro rs os a os' ⟨rel, pages, denied, hos, hrel, hpage⟩ hrun
  exact h rel pages denied hos.since.nodup hrel hpage rs os a os' hos hrun

theorem LifeAt.retain (hmade : page.Made r) :
    Spec osMachine (LifeAt os₀ r.resources page (n + 1) pools groups)
      (RingResources.retainAt r.resources) fun _ =>
        LifeAt os₀ r.resources page (n + 2) pools groups := by
  refine LifeAt.spec fun rel pages denied _ hrel hpage => ?_
  refine Spec.conseq (RingResources.retainAt_spec (hmade.holds RingResources.mem_partsAt))
    (fun _ hos => hos) fun _ os hos => ?_
  refine ⟨rel, Function.update pages r.resources (pages r.resources).retain, denied, hos,
    .of_pos (hrel.kept (Nat.succ_pos n)) hrel.nonempty, fun _ => ?_⟩
  rw [Function.update_self, hpage (Nat.succ_pos n)]
  rfl

/-- A share is given up; with the last one the ring goes. -/
theorem LifeAt.release (hmade : page.Made r) :
    Spec osMachine (LifeAt os₀ r.resources page (n + 1) pools groups)
      (RingResources.releaseAt r.resources) fun _ =>
        LifeAt os₀ r.resources page n pools groups := by
  refine LifeAt.spec fun rel pages denied _ hrel hpage => ?_
  have hpage := hpage (Nat.succ_pos n)
  have hkept := hrel.kept (Nat.succ_pos n)
  cases n with
  | zero =>
      -- The last share: what is left is what the pools own.
      refine Spec.conseq (RingResources.releaseAt_last hmade.page hpage (List.Perm.refl _))
        (fun _ hos => hos) fun _ os hos => ?_
      refine ⟨rel ++ page.parts, _, denied, hos, ⟨fun h => absurd h (Nat.lt_irrefl 0),
        fun _ => ⟨rel, rfl, hkept⟩, ?_⟩, fun h => absurd h (Nat.lt_irrefl 0)⟩
      intro p hp
      rcases List.mem_append.mp hp with hp | hp
      · exact hrel.nonempty p hp
      · exact hmade.parts_nonempty p hp
  | succ n =>
      refine Spec.conseq
        (RingResources.releaseAt_shared (hmade.holds RingResources.mem_partsAt) hpage)
        (fun _ hos => hos) fun _ os hos => ?_
      exact ⟨rel, Function.update pages r.resources { page with refcount := n + 1 }, denied, hos,
        .of_pos hkept hrel.nonempty, fun _ => Function.update_self ..⟩

theorem LifeAt.storeCqHead (hmade : page.Made r) :
    Spec osMachine (LifeAt os₀ r.resources page (n + 1) pools groups)
      (call (.storeCqHead r.cqRingPtr)) fun _ =>
        LifeAt os₀ r.resources page (n + 1) pools groups := by
  refine LifeAt.spec fun rel pages denied _ hrel hpage => ?_
  exact Spec.conseq (cqHeadStore_spec (hmade.holds_cqRing RingResources.mem_partsAt))
    (fun _ hos => hos) fun _ os hos => ⟨rel, pages, denied, hos, hrel, hpage⟩

/-- To take away a registration that is not there changes nothing. -/
theorem withGroup_none {fd : RawFd} {bgid : UInt16} (h : groups fd bgid = none) :
    withGroup groups fd bgid none = groups := by
  funext g b
  unfold withGroup
  split
  · rename_i heq
    rw [heq.1, heq.2, h]
  · rfl

/-- The mappings of one pool, and those of the others. -/
theorem poolParts_perm {i : Nat} {x : LivePool} (hx : pools[i]? = some x) :
    (poolParts pools).Perm (x.pool.parts ++ poolParts (pools.eraseIdx i)) := by
  obtain ⟨hi, rfl⟩ := List.getElem?_eq_some_iff.mp hx
  exact ((List.getElem_cons_eraseIdx_perm hi).symm.flatMap_right fun x => x.pool.parts)

/-- A pool is dropped: its group id loses its registration, its mappings go, and its share. -/
theorem LifeAt.dropPool (hmade : page.Made r) {i : Nat} {x : LivePool}
    (hx : pools[i]? = some x) (hfd : x.pool.fd = page.fd)
    (hne : ∀ p ∈ x.pool.parts, p.Nonempty) :
    Spec osMachine (LifeAt os₀ r.resources page (n + 1) pools groups)
      (x.pool.dropOn r.resources) fun _ =>
        LifeAt os₀ r.resources page n (pools.eraseIdx i)
          (withGroup groups page.fd x.pool.bgid none) := by
  refine LifeAt.spec fun rel pages denied hnodup hrel hpage => ?_
  have hperm : (page.partsAt (n + 1) ++ poolParts pools).Perm
      (x.pool.parts ++ (page.partsAt (n + 1) ++ poolParts (pools.eraseIdx i))) :=
    ((poolParts_perm hx).append_left _).trans (List.perm_append_comm_assoc ..)
  -- The pool's mappings are none of the ring's.
  have hapart : ∀ p ∈ page.parts, p ∉ x.pool.parts := fun p hp hp' =>
    (List.nodup_append.mp (hperm.nodup_iff.mp hnodup)).2.2 p hp' p
      (RingResources.mem_partsAt p hp) rfl
  have hgive : ∀ groups' denied', Spec osMachine
      (OsAt ⟨os₀.ledger, rel, page.partsAt (n + 1) ++ poolParts pools, pages, groups', denied',
        os₀.faults⟩)
      (call (.munmap x.pool.bufsAddr x.pool.bufsBytes) >>= fun _ =>
        call (.munmap x.pool.ringAddr x.pool.ringBytes) >>= fun _ =>
          RingResources.releaseAt r.resources)
      fun _ => LifeAt os₀ r.resources page n (pools.eraseIdx i) groups' := by
    intro groups' denied'
    refine Spec.munmap hperm fun _ => Spec.munmap (List.Perm.refl _) fun _ => ?_
    refine Spec.conseq (LifeAt.release hmade) (fun os hos => ?_) fun _ _ hlife => hlife
    simp only [List.append_assoc] at hos
    refine ⟨rel ++ x.pool.parts, pages, denied', hos, .of_pos ?_ ?_, hpage⟩
    · intro p hp hmem
      rcases List.mem_append.mp hmem with hmem | hmem
      · exact hrel.kept (Nat.succ_pos n) p hp hmem
      · exact hapart p hp hmem
    · intro p hp
      rcases List.mem_append.mp hp with hp | hp
      · exact hrel.nonempty p hp
      · exact hne p hp
  refine Spec.unregisterPbufRing (RingResources.file_live hfd) (fun e hnone => ?_)
    fun _ _ _ => ?_
  · rw [withGroup_none (by rw [← hfd]; exact hnone)]
    exact hgive groups _
  · rw [← hfd]
    exact hgive _ denied

/-- How a registration ends, at a number of shares. -/
def RegisteredAt (os₀ : Os) (resources : Nat) (page : RingResources) (n : Nat)
    (pools : List LivePool) (groups : RawFd → UInt16 → Option UInt64) (bgid : UInt16)
    (res : Except Error ProvidedBufferRing) (os : Os) : Prop :=
  match res with
  | .error _ => LifeAt os₀ resources page n pools groups os
  | .ok pool =>
      LifeAt os₀ resources page (n + 1) (pools ++ [⟨pool, false⟩])
        (withGroup groups page.fd bgid (some (UInt64.ofNat pool.ringAddr))) os ∧
      pool.fd = page.fd ∧ pool.bgid = bgid ∧ groups page.fd bgid = none ∧
      ∀ p ∈ pool.parts, p.Nonempty

/-- A registration takes a share if it succeeds. -/
theorem LifeAt.register (hmade : page.Made r) {usizeBits : Nat} {bgid : UInt16}
    {count bufSize : UInt32} {flags : PbufRingFlags} :
    Spec osMachine (LifeAt os₀ r.resources page (n + 1) pools groups)
      (registerOn usizeBits r.resources bgid count bufSize flags)
      (RegisteredAt os₀ r.resources page (n + 1) pools groups bgid) := by
  refine LifeAt.spec fun rel pages denied _ hrel hpage => ?_
  have hkept := hrel.kept (Nat.succ_pos n)
  have hfd : (pages r.resources).fd = page.fd := by rw [hpage (Nat.succ_pos n)]
  refine Spec.conseq
    (registerOn_spec (hmade.holds RingResources.mem_partsAt) (RingResources.file_live hfd))
    (fun _ hos => hos) fun res os hout => ?_
  cases res with
  | error e =>
      -- what was mapped for the pool is gone again, and none of it was the ring's
      obtain ⟨gone, denied', hos', hgone⟩ := hout
      refine ⟨rel ++ gone, pages, denied', hos', .of_pos ?_ ?_, hpage⟩
      · intro p hp hmem
        rcases List.mem_append.mp hmem with hmem | hmem
        · exact hkept p hp hmem
        · exact (hgone p hmem).1 (RingResources.mem_partsAt p hp)
      · intro p hp
        rcases List.mem_append.mp hp with hp | hp
        · exact hrel.nonempty p hp
        · exact (hgone p hp).2
  | ok pool =>
      obtain ⟨hos', hpfd, hpbgid, hfree, hne⟩ := hout
      refine ⟨⟨rel, Function.update pages r.resources (pages r.resources).retain, denied, ?_,
        .of_pos hkept hrel.nonempty, fun _ => ?_⟩, hpfd.trans hfd, hpbgid, hfd ▸ hfree, hne⟩
      · -- The new mappings stand in front; the pool stands last.
        have hperm : (pool.parts ++ (page.partsAt (n + 1) ++ poolParts pools)).Perm
            (page.partsAt (n + 2) ++ poolParts (pools ++ [⟨pool, false⟩])) := by
          have hparts : poolParts (pools ++ [⟨pool, false⟩]) = poolParts pools ++ pool.parts := by
            simp [poolParts]
          rw [hparts, page.partsAt_succ, page.partsAt_succ, ← List.append_assoc page.parts]
          exact List.perm_append_comm
        rw [← hfd]
        exact hos'.perm hperm
      · rw [Function.update_self, hpage (Nat.succ_pos n)]
        rfl

/-- An explicit unregistration takes the registration of the group id, if there is one. -/
theorem LifeAt.unregister {q : IoUring} (hfd : q.fd = page.fd) {bgid : UInt16} :
    Spec osMachine (LifeAt os₀ r.resources page (n + 1) pools groups)
      (q.unregisterProvidedBuffers bgid) fun res os =>
        (∃ e, res = .error e ∧ LifeAt os₀ r.resources page (n + 1) pools groups os) ∨
          (res = .ok () ∧ LifeAt os₀ r.resources page (n + 1) pools
            (withGroup groups page.fd bgid none) os) := by
  refine LifeAt.spec fun rel pages denied _ hrel hpage => ?_
  refine Spec.unregisterPbufRing (RingResources.file_live hfd) (fun e _ => ?_) fun _ _ _ => ?_
  · exact Spec.ret fun os hos => Or.inl ⟨_, rfl, rel, pages, _, hos, hrel, hpage⟩
  · refine Spec.ret fun os hos => Or.inr ⟨rfl, rel, pages, denied, ?_, hrel, hpage⟩
    rw [← hfd]
    exact hos

end Shares

/-! ### The calls of the handles -/

section Handles

variable {os₀ : Os} {r : OsRing} {page : RingResources} {n : Nat} {pools : List LivePool}
  {groups : RawFd → UInt16 → Option UInt64}

theorem Access.retain_onOs (hmade : page.Made r) :
    Spec osMachine (LifeAt os₀ r.resources page (n + 1) pools groups)
      (Access.onOs r.resources r.cqRingPtr .retain) fun x os =>
        ∃ y, x = some y ∧ LifeAt os₀ r.resources page (n + 2) pools groups os :=
  Spec.bind (LifeAt.retain hmade) fun _ => Spec.ret fun _ hos => ⟨(), rfl, hos⟩

theorem Access.release_onOs (hmade : page.Made r) :
    Spec osMachine (LifeAt os₀ r.resources page (n + 1) pools groups)
      (Access.onOs r.resources r.cqRingPtr .release) fun x os =>
        ∃ y, x = some y ∧ LifeAt os₀ r.resources page n pools groups os :=
  Spec.bind (LifeAt.release hmade) fun _ => Spec.ret fun _ hos => ⟨(), rfl, hos⟩

theorem Access.storeCqHead_onOs (hmade : page.Made r) (head : UInt32) :
    Spec osMachine (LifeAt os₀ r.resources page (n + 1) pools groups)
      (Access.onOs r.resources r.cqRingPtr (.storeCqHead head)) fun x os =>
        ∃ y, x = some y ∧ LifeAt os₀ r.resources page (n + 1) pools groups os :=
  Spec.bind (LifeAt.storeCqHead hmade) fun _ => Spec.ret fun _ hos => ⟨(), rfl, hos⟩

/-- A call of the handles: every access that it makes is one of those that the process knows,
and the count goes with the number of live handles. -/
def Handles.Counted {α : Type} (os₀ : Os) (r : OsRing) (page : RingResources)
    (pools : List LivePool) (groups : RawFd → UInt16 → Option UInt64) (hs : Handles)
    (p : RingProg (α × Handles)) : Prop :=
  Spec osMachine (LifeAt os₀ r.resources page (pools.length + hs.live) pools groups)
    (p.translateSome (Access.onOs r.resources r.cqRingPtr)) fun x os =>
      ∃ y, x = some y ∧
        LifeAt os₀ r.resources page (pools.length + y.2.live) pools groups os ∧
          ∀ q, y.2 = .whole q → q.fd = page.fd

/-- A call ends with as many shares as there are handles then. -/
theorem Handles.counted_ret {α : Type} {a : α} {hs : Handles}
    {f : (a : Access) → OsProg (Option a.Ans)} (hn : n = pools.length + hs.live)
    (hfd : ∀ q, hs = .whole q → q.fd = page.fd) :
    Spec osMachine (LifeAt os₀ r.resources page n pools groups)
      ((Prog.ret (a, hs) : RingProg (α × Handles)).translateSome f) fun x os => ∃ y, x = some y ∧
        LifeAt os₀ r.resources page (pools.length + y.2.live) pools groups os ∧
          ∀ q, y.2 = .whole q → q.fd = page.fd :=
  Spec.ret fun _ hos => ⟨(a, hs), rfl, hn ▸ hos, hfd⟩

theorem Handles.split_counted (hmade : page.Made r) {hs : Handles}
    (hfd : ∀ q, hs = .whole q → q.fd = page.fd) {p : RingProg (Except Error Unit × Handles)}
    (hp : hs.split = some p) : hs.Counted os₀ r page pools groups p := by
  cases hs with
  | whole q =>
      cases hp
      unfold Counted IoUring.split
      -- A split that the flags forbid gives the ring back and makes no access.
      by_cases hf : IoUring.setupFlagsForbidSplit q.setupFlags = true
      · rw [if_pos hf]
        exact counted_ret rfl hfd
      · rw [if_neg hf]
        exact Spec.translateSome_bind (Access.retain_onOs hmade) fun _ => counted_ret rfl nofun
  | halves s c => cases hp
  | gone => cases hp

theorem Handles.dropRing_counted (hmade : page.Made r) {hs : Handles}
    {p : RingProg (Unit × Handles)} (hp : hs.dropRing = some p) :
    hs.Counted os₀ r page pools groups p := by
  cases hs with
  | whole q =>
      cases hp
      refine Spec.translateSome_bind (Access.storeCqHead_onOs hmade _) fun _ => ?_
      exact Spec.translateSome_bind (Access.release_onOs hmade) fun _ => counted_ret rfl nofun
  | halves s c => cases s <;> cases hp
  | gone => cases hp

theorem Handles.dropSubmitter_counted (hmade : page.Made r) {hs : Handles}
    {p : RingProg (Unit × Handles)} (hp : hs.dropSubmitter = some p) :
    hs.Counted os₀ r page pools groups p := by
  cases hs with
  | whole q => cases hp
  | halves s c =>
      cases s with
      | none => cases hp
      | some s =>
          cases hp
          cases c <;>
            exact Spec.translateSome_bind (Access.release_onOs hmade) fun _ =>
              counted_ret rfl nofun
  | gone => cases hp

theorem Handles.dropCompleter_counted (hmade : page.Made r) {hs : Handles}
    {p : RingProg (Unit × Handles)} (hp : hs.dropCompleter = some p) :
    hs.Counted os₀ r page pools groups p := by
  cases hs with
  | whole q => cases hp
  | halves s c =>
      cases c with
      | none => cases s <;> cases hp
      | some c =>
          cases hp
          cases s <;>
            exact Spec.translateSome_bind (Access.storeCqHead_onOs hmade _) fun _ =>
              Spec.translateSome_bind (Access.release_onOs hmade) fun _ => counted_ret rfl nofun
  | gone => cases hp

end Handles

/-! ### Steps and runs -/

namespace Life

variable {usizeBits : Nat} {os₀ : Os} {r : OsRing} {page : RingResources} {s s' : Life}
  {a : LifeAction}

/-- The count is the number of live handles, and every pool is one of this ring. -/
structure Inv (os₀ : Os) (r : OsRing) (page : RingResources) (s : Life) : Prop where
  resources : s.resources = r.resources
  cqRing : s.cqRing = r.cqRingPtr
  whole : ∀ q, s.handles = .whole q → q.fd = page.fd
  pools : ∀ x ∈ s.pools, x.pool.fd = page.fd ∧ ∀ p ∈ x.pool.parts, p.Nonempty
  life : LifeAt os₀ r.resources page s.shares s.pools s.os.groups s.os

/-- What a step does to the pools and to the groups of the ring. -/
inductive Effect (fd : RawFd) (s s' : Life) : LifeAction → Prop
  | same {a : LifeAction} (hdrop : ∀ i rs, a ≠ .dropPool i rs) (hpools : s'.pools = s.pools)
      (hgroups : s'.os.groups = s.os.groups) : Effect fd s s' a
  | registered {bgid : UInt16} {count bufSize : UInt32} {flags : PbufRingFlags}
      {rs : List OsRound} (pool : ProvidedBufferRing) (hfd : pool.fd = fd)
      (hbgid : pool.bgid = bgid) (hfree : s.os.groups fd bgid = none)
      (hpools : s'.pools = s.pools ++ [⟨pool, false⟩])
      (hgroups : s'.os.groups
        = withGroup s.os.groups fd bgid (some (UInt64.ofNat pool.ringAddr))) :
      Effect fd s s' (.register bgid count bufSize flags rs)
  | revoked {bgid : UInt16} {rs : List OsRound} (hpools : s'.pools = revoke s.pools bgid)
      (hgroups : s'.os.groups = withGroup s.os.groups fd bgid none) :
      Effect fd s s' (.unregister bgid rs)
  | dropped {i : Nat} {rs : List OsRound} (x : LivePool) (hx : s.pools[i]? = some x)
      (hpools : s'.pools = s.pools.eraseIdx i)
      (hgroups : s'.os.groups = withGroup s.os.groups fd x.pool.bgid none) :
      Effect fd s s' (.dropPool i rs)

/-- A call of the handles keeps the invariant, and leaves the pools and the groups alone. -/
theorem Inv.exec {α : Type} {p : Option (RingProg (α × Handles))} {rs : List OsRound}
    (h : s.Inv os₀ r page) (hs : s.exec p rs = some s')
    (hcount : ∀ p', p = some p' → s.handles.Counted os₀ r page s.pools s.os.groups p') :
    s'.Inv os₀ r page ∧ s'.pools = s.pools ∧ s'.os.groups = s.os.groups := by
  obtain ⟨p', hp, hs⟩ := Option.bind_eq_some_iff.mp hs
  obtain ⟨⟨y, os'⟩, hrun, hs⟩ := Option.bind_eq_some_iff.mp hs
  obtain ⟨y, rfl, rfl⟩ := Option.map_eq_some_iff.mp hs
  rw [h.resources, h.cqRing] at hrun
  obtain ⟨y', hy, hlife, hwhole⟩ := hcount p' hp rs s.os (some y) os' h.life hrun
  cases hy
  have hgroups : os'.groups = s.os.groups := hlife.groups_eq
  refine ⟨⟨h.resources, h.cqRing, hwhole, h.pools, ?_⟩, rfl, hgroups⟩
  show LifeAt os₀ r.resources page _ s.pools os'.groups os'
  rw [hgroups]
  exact hlife

/-- The invariant after a call that leaves the handles alone. -/
theorem Inv.of_life (h : s.Inv os₀ r page) {os : Os} {n : Nat} {pools : List LivePool}
    {groups : RawFd → UInt16 → Option UInt64}
    (hlife : LifeAt os₀ r.resources page n pools groups os) (hn : pools.length + s.handles.live = n)
    (hpools : ∀ x ∈ pools, x.pool.fd = page.fd ∧ ∀ p ∈ x.pool.parts, p.Nonempty) :
    Inv os₀ r page { s with os := os, pools := pools } := by
  refine ⟨h.resources, h.cqRing, h.whole, hpools, ?_⟩
  show LifeAt os₀ r.resources page (pools.length + s.handles.live) pools os.groups os
  rw [hlife.groups_eq, hn]
  exact hlife

/-- A pool whose registration is taken away keeps its mappings. -/
theorem poolParts_revoke (pools : List LivePool) (bgid : UInt16) :
    poolParts (revoke pools bgid) = poolParts pools := by
  unfold poolParts revoke
  rw [List.flatMap_map]
  congr 1
  funext x
  split <;> rfl

theorem shares_of_sqSubmitted (h : s.handles.sqSubmitted.isSome = true) :
    ∃ n, s.shares = n + 1 := by
  unfold shares
  cases hh : s.handles with
  | whole q => exact ⟨s.pools.length, rfl⟩
  | halves sub c =>
      cases sub with
      | none => rw [hh] at h; cases h
      | some sub => exact ⟨s.pools.length + c.toList.length, by simp [Handles.live]; omega⟩
  | gone => rw [hh] at h; cases h

theorem Inv.register (hmade : page.Made r) (h : s.Inv os₀ r page) {bgid : UInt16}
    {count bufSize : UInt32} {flags : PbufRingFlags} {rs : List OsRound}
    (hs : s.step usizeBits (.register bgid count bufSize flags rs) = some s') :
    s'.Inv os₀ r page ∧ Effect page.fd s s' (.register bgid count bufSize flags rs) := by
  simp only [step] at hs
  split at hs
  · rename_i hsq
    obtain ⟨⟨res, os'⟩, hrun, rfl⟩ := Option.map_eq_some_iff.mp hs
    obtain ⟨n, hn⟩ := shares_of_sqSubmitted hsq
    have hlife := h.life
    rw [hn] at hlife
    rw [h.resources] at hrun
    have hout := LifeAt.register hmade rs s.os res os' hlife hrun
    -- a registration that fails takes no share, one that succeeds takes one
    cases res with
    | error e =>
        exact ⟨h.of_life hout hn h.pools, .same (fun _ _ => nofun) rfl hout.groups_eq⟩
    | ok pool =>
        obtain ⟨hlife', hfd, hbgid, hfree, hne⟩ := hout
        refine ⟨h.of_life hlife' ?_ ?_, .registered pool hfd hbgid hfree rfl hlife'.groups_eq⟩
        · rw [List.length_append, List.length_singleton]
          unfold shares at hn
          omega
        · intro x hx
          rcases List.mem_append.mp hx with hx | hx
          · exact h.pools x hx
          · cases List.mem_singleton.mp hx
            exact ⟨hfd, hne⟩
  · cases hs

theorem Inv.unregister (h : s.Inv os₀ r page) {bgid : UInt16} {rs : List OsRound}
    (hs : s.step usizeBits (.unregister bgid rs) = some s') :
    s'.Inv os₀ r page ∧ Effect page.fd s s' (.unregister bgid rs) := by
  simp only [step] at hs
  split at hs
  · rename_i q hh
    obtain ⟨⟨res, os'⟩, hrun, rfl⟩ := Option.map_eq_some_iff.mp hs
    have hn : s.shares = s.pools.length + 1 := by rw [shares, hh]; rfl
    have hlife := h.life
    rw [hn] at hlife
    have hout := LifeAt.unregister (h.whole q hh) rs s.os res os' hlife hrun
    -- The kernel has no registration to take, or takes it.
    rcases hout with ⟨e, rfl, hlife'⟩ | ⟨rfl, hlife'⟩
    · exact ⟨h.of_life hlife' hn h.pools, .same (fun _ _ => nofun) rfl hlife'.groups_eq⟩
    · have hlife' := hlife'.of_parts (poolParts_revoke s.pools bgid).symm
      refine ⟨h.of_life hlife' ?_ ?_, .revoked rfl hlife'.groups_eq⟩
      · rw [revoke, List.length_map]
        exact hn
      · intro x hx
        obtain ⟨y, hy, rfl⟩ := List.mem_map.mp hx
        split <;> exact h.pools y hy
  · cases hs

theorem Inv.dropPool (hmade : page.Made r) (h : s.Inv os₀ r page) {i : Nat} {rs : List OsRound}
    (hs : s.step usizeBits (.dropPool i rs) = some s') :
    s'.Inv os₀ r page ∧ Effect page.fd s s' (.dropPool i rs) := by
  obtain ⟨x, hx, hs⟩ := Option.bind_eq_some_iff.mp hs
  obtain ⟨⟨u, os'⟩, hrun, rfl⟩ := Option.map_eq_some_iff.mp hs
  obtain ⟨hi, hxi⟩ := List.getElem?_eq_some_iff.mp hx
  have hmem : x ∈ s.pools := List.mem_of_getElem? hx
  -- the pool holds a share itself, so there is one to give up
  obtain ⟨n, hn⟩ : ∃ n, s.shares = n + 1 := ⟨s.pools.length - 1 + s.handles.live, by
    unfold shares
    omega⟩
  have hlife := h.life
  rw [hn] at hlife
  rw [h.resources] at hrun
  have hlife' := LifeAt.dropPool hmade hx (h.pools x hmem).1 (h.pools x hmem).2 rs s.os u os' hlife
    hrun
  refine ⟨h.of_life hlife' ?_ fun y hy => h.pools y (List.eraseIdx_subset hy),
    .dropped x hx rfl hlife'.groups_eq⟩
  rw [List.length_eraseIdx_of_lt hi]
  unfold shares at hn
  omega

/-- The step lemma. -/
theorem Inv.step (hmade : page.Made r) (h : s.Inv os₀ r page)
    (hs : s.step usizeBits a = some s') : s'.Inv os₀ r page ∧ Effect page.fd s s' a := by
  cases a with
  | split rs =>
      obtain ⟨hinv, hpools, hgroups⟩ :=
        h.exec hs fun _ hp => Handles.split_counted hmade h.whole hp
      exact ⟨hinv, .same (fun _ _ => nofun) hpools hgroups⟩
  | dropRing rs =>
      obtain ⟨hinv, hpools, hgroups⟩ := h.exec hs fun _ hp => Handles.dropRing_counted hmade hp
      exact ⟨hinv, .same (fun _ _ => nofun) hpools hgroups⟩
  | dropSubmitter rs =>
      obtain ⟨hinv, hpools, hgroups⟩ :=
        h.exec hs fun _ hp => Handles.dropSubmitter_counted hmade hp
      exact ⟨hinv, .same (fun _ _ => nofun) hpools hgroups⟩
  | dropCompleter rs =>
      obtain ⟨hinv, hpools, hgroups⟩ :=
        h.exec hs fun _ hp => Handles.dropCompleter_counted hmade hp
      exact ⟨hinv, .same (fun _ _ => nofun) hpools hgroups⟩
  | register bgid count bufSize flags rs => exact h.register hmade hs
  | unregister bgid rs => exact h.unregister hs
  | dropPool i rs => exact h.dropPool hmade hs

theorem isRun (usizeBits : Nat) : IsRun (Life.step usizeBits) (Life.run usizeBits) :=
  ⟨fun _ => rfl, fun _ _ _ => rfl⟩

/-- The run lemma. -/
theorem Inv.run (hmade : page.Made r) (h : s.Inv os₀ r page) {as : List LifeAction}
    (hr : Life.run usizeBits as s = some s') : s'.Inv os₀ r page :=
  (isRun usizeBits).keeps (fun _ _ _ hs hstep => (Inv.step hmade hs hstep).1) h hr

end Life

/-- What `from_params` returns when it succeeds. -/
theorem fromParams_made {entries : UInt32} {params : IoUringParams} {rs : List OsRound}
    {os₀ os : Os} {r : OsRing}
    (h : (fromParams entries params).run osMachine rs os₀ = some (.ok r, os)) :
    ∃ page groups, OsAt ⟨os₀.ledger, [], page.parts, Function.update os₀.pages r.resources page,
      groups, os₀.denied, os₀.faults⟩ os ∧ page.Made r := by
  by_cases hflags : params.flags &&& ~~~SetupFlags.SUPPORTED_MASK.bits = 0
  · obtain ⟨page, groups, hos, -, hmade⟩ :=
      fromParams_spec rfl hflags rs os₀ (.ok r) os os₀.at_view h
    exact ⟨page, groups, hos, hmade⟩
  · obtain ⟨-, e, he⟩ := fromParams_unsupported hflags h
    cases he

/-- A new ring has one share and no pools. -/
theorem Life.start_inv {os₀ os : Os} {r : OsRing} {page : RingResources}
    {groups : RawFd → UInt16 → Option UInt64} (hmade : page.Made r)
    (hos : OsAt ⟨os₀.ledger, [], page.parts, Function.update os₀.pages r.resources page, groups,
      os₀.denied, os₀.faults⟩ os) :
    (Life.start os r).Inv os₀ r page := by
  refine ⟨rfl, rfl, ?_, fun x hx => (by cases hx), ?_⟩
  · rintro _ ⟨⟩
    exact hmade.fd.symm
  · refine ⟨[], Function.update os₀.pages r.resources page, os₀.denied,
      ⟨?_, hos.pages, rfl, hos.denied, hos.faults⟩,
      .of_pos (fun p _ hp => (by cases hp)) (fun p hp => (by cases hp)), fun _ => ?_⟩
    · show Ledger.Since os₀.ledger [] (page.parts ++ []) os.ledger
      rw [List.append_nil]
      exact hos.since
    · rw [Function.update_self]
      show page = { page with refcount := 1 }
      rw [← hmade.refcount]

/-- In every run of the handles of a ring: while one is live, the descriptor is open and every
part is mapped, and the count is the number of live handles; when none is left, each part was
released exactly once, the page last, and nothing else is left of the ring and its pools. No
page was used while it was not mapped, and nothing was released that was not live. -/
theorem ring_released_once (usizeBits : Nat) (os₀ os : Os) (entries : UInt32)
    (params : IoUringParams) (rs : List OsRound) (r : OsRing)
    (hsetup : (fromParams entries params).run osMachine rs os₀ = some (.ok r, os)) :
    ∃ page, os.pages r.resources = page ∧ page.selfPage = ⟨r.resources, 4096⟩ ∧
      ∀ (as : List LifeAction) (s : Life),
        Life.run usizeBits as (Life.start os r) = some s →
        ∃ rel, s.os.ledger.released = os₀.ledger.released ++ rel ∧
          s.os.ledger.strays = os₀.ledger.strays ∧ s.os.faults = os₀.faults ∧
          (0 < s.shares → (s.os.pages r.resources).refcount = s.shares ∧
            ∀ p ∈ page.parts, p ∈ s.os.ledger.live ∧ p ∉ rel) ∧
          (s.shares = 0 → page.parts <:+ rel ∧
            (∀ p ∈ page.parts, rel.count p = 1 ∧ p ∉ s.os.ledger.live) ∧
            (.mapping page.cqRing ∈ rel ↔ 0 < page.cqRing.len) ∧
            s.os.ledger.live.Perm os₀.ledger.live) := by
  obtain ⟨page, groups, hos, hmade⟩ := fromParams_made hsetup
  have hpage : os.pages r.resources = page := by
    rw [hos.pages]
    exact Function.update_self ..
  refine ⟨page, hpage, hmade.page, fun as s hrun => ?_⟩
  have hinv := (Life.start_inv hmade hos).run hmade hrun
  obtain ⟨rel, pages, denied, hat, hrel, hcount⟩ := hinv.life
  refine ⟨rel, hat.since.released, hat.since.strays, hat.faults, fun hlive => ⟨?_, ?_⟩, ?_⟩
  · show (s.os.pages r.resources).refcount = s.shares
    rw [hat.pages]
    exact congrArg RingResources.refcount (hcount hlive)
  · intro p hp
    refine ⟨hat.since.mem_live (List.mem_append_left _ ?_), hrel.kept hlive p hp⟩
    rw [RingResources.partsAt, if_neg (Nat.ne_of_gt hlive)]
    exact hp
  · -- Without a share there is no pool either, so the process is as it was before the setup.
    intro hnone
    obtain ⟨pre, hpre, hbefore⟩ := hrel.last hnone
    have hpools : s.pools = [] := List.length_eq_zero_iff.mp (Nat.add_eq_zero_iff.mp hnone).1
    have hperm : s.os.ledger.live.Perm os₀.ledger.live := by
      have hlive := hat.since.live
      rw [hnone, hpools] at hlive
      exact hlive
    refine ⟨⟨pre, hpre.symm⟩, fun p hp => ⟨?_, ?_⟩, ⟨fun hmem => ?_, fun hlen => ?_⟩, hperm⟩
    -- once: not among the releases before the last, and no part stands twice on the page
    · rw [hpre, List.count_append, List.count_eq_zero_of_not_mem (hbefore p hp),
        List.count_eq_one_of_mem hos.since.nodup hp]
    · exact fun hmem => hos.since.fresh p hp (hperm.mem_iff.mp hmem)
    · exact hrel.nonempty _ hmem
    · rw [hpre]
      refine List.mem_append_right _ ?_
      simp [RingResources.parts, MappedRegion.part_of_pos hlen]

/-! ### A ring with a pool -/

/-- The kernel maps everything that a ring with two ring mappings asks for. -/
def dualSetup : List OsRound :=
  answers [.ring ⟨3⟩ dualParams, .mapped 4096, .mapped 8192, .mapped 12288, .parsed ⟨7, 0, 15, 0⟩,
    .mapped 16384, .done]

/-- The kernel registers a pool of two buffers. -/
def poolSetup (ringAddr bufsAddr : Nat) : List OsRound :=
  answers [.done, .mapped ringAddr, .mapped bufsAddr, .done, .done]

/-- The ring that comes of this setup, and what becomes of it. -/
def dualLife (as : List LifeAction) : Option (OsRing × Os × Life) :=
  ((fromParams 8 plainParams).run osMachine dualSetup emptyOs).bind fun x =>
    x.1.toOption.bind fun r =>
      (Life.run 64 as (Life.start x.2 r)).map fun s => (r, x.2, s)

theorem dualLife_any (as : List LifeAction) (P : Life → Bool)
    (h : (dualLife as).any (fun x => P x.2.2) = true) :
    ∃ r os s, (fromParams 8 plainParams).run osMachine dualSetup emptyOs = some (.ok r, os) ∧
      Life.run 64 as (Life.start os r) = some s ∧ P s = true := by
  obtain ⟨⟨r, os, s⟩, hlife, hP⟩ := (Option.any_eq_true _ _).mp h
  obtain ⟨⟨res, os'⟩, hsetup, hlife⟩ := Option.bind_eq_some_iff.mp hlife
  obtain ⟨r', hres, hlife⟩ := Option.bind_eq_some_iff.mp hlife
  obtain ⟨s', hrun, heq⟩ := Option.map_eq_some_iff.mp hlife
  cases heq
  cases res with
  | error e => cases hres
  | ok r'' =>
      cases hres
      exact ⟨r, os', s, hsetup, hrun, hP⟩

/-- The ring is split, the submitter registers a pool, and the pool is dropped last. -/
def poolLast : List LifeAction :=
  [.split (answers [.done]),
    .register 7 2 64 .empty (poolSetup 20480 24576),
    .dropSubmitter (answers [.done]),
    .dropCompleter (answers [.done, .done]),
    .dropPool 0 (answers (List.replicate 14 .done))]

/-- The pool keeps the ring alive, and releases every part of it. -/
theorem ring_released_by_pool :
    ∃ r os s, (fromParams 8 plainParams).run osMachine dualSetup emptyOs = some (.ok r, os) ∧
      Life.run 64 poolLast (Life.start os r) = some s ∧ s.shares = 0 ∧
      ∀ p ∈ (os.pages r.resources).parts, s.os.ledger.released.count p = 1 := by
  obtain ⟨r, os, s, hsetup, hrun, hnone⟩ :=
    dualLife_any poolLast (fun s => s.shares == 0) (by decide +kernel)
  have hnone := eq_of_beq hnone
  obtain ⟨page, rfl, -, hruns⟩ :=
    ring_released_once 64 emptyOs os 8 plainParams dualSetup r hsetup
  obtain ⟨rel, hrel, -, -, -, hlast⟩ := hruns poolLast s hrun
  refine ⟨r, os, s, hsetup, hrun, hnone, fun p hp => ?_⟩
  rw [hrel]
  exact ((hlast hnone).2.1 p hp).1

end Ququmatz
