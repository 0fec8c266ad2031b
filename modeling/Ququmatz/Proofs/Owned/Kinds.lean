import Ququmatz.Owned.Kinds
import Ququmatz.Proofs.Owned.FilesUpdate
import Ququmatz.Proofs.Owned.Footprint
import Ququmatz.Proofs.Owned.Openat2
import Ququmatz.Proofs.Owned.Path
import Ququmatz.Proofs.Owned.Recvmsg

/-!
# `Ququmatz.Proofs.Owned.Kinds`: what the constructors make is sound

`PushMethod.Constructed` is what the constructors of the requests can make, with the operations that
a request has until it is pushed. Paths come from `copy_into` or `adopt`. Left out are `buffer_mut`
and `buffers_mut`, through which a caller can put another buffer in the place of one that was
captured (`Footprint.Covered` says when that does no harm).

`constructed_sound` goes through the constructors.
-/

set_option autoImplicit false

namespace Ququmatz

open Lib

variable {w : Width}

/-! ### Paths -/

/-- The paths of safe code. -/
inductive OwnedPath.Made : OwnedPath w → Prop
  | copyInto {storage : Storage w} {path : List UInt8} {m m' : Memory} {q : OwnedPath w} :
      OwnedPath.copyInto storage path m = (.ok q, m') → Made q
  | adopt {storage : Storage w} {m m' : Memory} {q : OwnedPath w} :
      OwnedPath.adopt storage m = (.ok q, m') → Made q

theorem OwnedPath.Made.terminated {q : OwnedPath w} (h : q.Made) : q.Terminated := by
  cases h with
  | copyInto h =>
      obtain ⟨⟨-, -, hlen⟩, rfl, -⟩ := copyInto_eq_ok h
      exact hlen
  | adopt h =>
      have hholds := (adopt_eq_ok h).1
      show q.len < q.storage.len
      rw [hholds.storageEq]
      exact hholds.inside

/-! ### Buffers -/

/-- The operation lends no buffer. -/
def RequestOp.lendsNone {B : Type} {N : Nat} : RequestOp B N → Bool
  | .bufferMut _ | .buffersMut _ => false
  | .withLen _ | .withLens _ | .refusedPush _ _ => true

/-- What was captured is in the buffers that are in place, each in its own. -/
def Footprint.Own {B R : Type} {N : Nat} [StableBuffer B] : Footprint B R N → Prop
  | .one captured buf => captured.Inside (memoryOf buf)
  | .many captured bufs _ => ∀ i, (captured i).Inside (memoryOf (bufs i))

section Buffers

variable {B R : Type} {N : Nat} [StableBuffer B]

theorem firstBytes_inside (b : B) (len : Nat) : (firstBytes b len).Inside (memoryOf b) := by
  right
  exact ⟨Nat.le_refl _, Nat.add_le_add_left (Nat.min_le_right _ _) _⟩

theorem Build.footprint_own (b : Build B R N) : b.footprint.Own := by
  cases b with
  | read fd buf offset => exact firstBytes_inside buf _
  | write fd buf offset => exact firstBytes_inside buf _
  | send fd buf flags => exact firstBytes_inside buf _
  | _ => exact fun i => Or.inr ⟨Nat.le_refl _, Nat.le_refl _⟩

/-- An operation that lends no buffer captures no more than it finds. -/
theorem Footprint.Own.apply {f : Footprint B R N} (h : f.Own) {op : RequestOp B N}
    (hop : op.lendsNone = true) : (f.apply op).Own := by
  cases f with
  | one captured buf =>
      cases op with
      | withLen len =>
          rcases h with hempty | ⟨hlo, hhi⟩
          · exact Or.inl (by show min _ captured.len = 0; omega)
          · exact Or.inr ⟨hlo, by show captured.start + min _ captured.len ≤ _; omega⟩
      | bufferMut use => cases hop
      | _ => exact h
  | many captured bufs store =>
      cases op with
      | withLens lens => exact fun i => firstBytes_inside (bufs i) (lens i)
      | buffersMut use => cases hop
      | _ => exact h

theorem Footprint.Own.applyAll {f : Footprint B R N} (h : f.Own) {ops : List (RequestOp B N)}
    (hops : ∀ op ∈ ops, op.lendsNone = true) : (ops.foldl Footprint.apply f).Own := by
  induction ops generalizing f with
  | nil => exact h
  | cons op ops ih =>
      rw [List.forall_mem_cons] at hops
      exact ih (h.apply hops.1) hops.2

theorem Footprint.Own.covered [StableBuffer R] {f : Footprint B R N} (h : f.Own) : f.Covered := by
  cases f with
  | one captured buf => exact h
  | many captured bufs store => exact fun i _ => Or.inr ⟨i, h i⟩

end Buffers

/-! ### Staged parameters -/

section Staged

variable {store : Storage w} {m m' : Memory}

theorem ValuePrepared.new_sound {Op : ValueOp} {ctx : Op.Context} {q : ValuePrepared w Op}
    (h : ValuePrepared.new ctx store m = (.ok q, m')) : q.Sound := by
  unfold ValuePrepared.new at h
  dsimp only at h
  split at h
  · cases h
  · split at h <;> cases h
    next hroom _ => exact ⟨rfl, Nat.le_of_not_lt hroom⟩

variable [Native]

theorem StagedPrepared.new_sound {Op : AddrOp} {fd : RawFd} {addr : SockAddrIn}
    {q : StagedPrepared w Op} (h : StagedPrepared.new fd addr store m = (.ok q, m')) :
    q.Sound := by
  unfold StagedPrepared.new at h
  dsimp only at h
  split at h <;> cases h
  next hroom => exact ⟨rfl, Nat.le_of_not_lt hroom⟩

theorem PreparedFutexWaitv.new_sound {waiters : List FutexWaitv} {q : PreparedFutexWaitv w}
    (h : PreparedFutexWaitv.new waiters store m = (.ok q, m')) : q.Sound := by
  unfold PreparedFutexWaitv.new at h
  dsimp only at h
  split at h
  · cases h
  · split at h
    · cases h
    · split at h
      · cases h
      · split at h <;> cases h
        next hroom _ => exact ⟨rfl, Nat.le_of_not_lt hroom⟩

theorem PreparedFilesUpdate.at_sound {N : Nat} {offset : SlotIndex} {entries : Fin N → TableEntry}
    {q : PreparedFilesUpdate w N}
    (h : PreparedFilesUpdate.at offset entries store m = (.ok q, m')) : q.Sound := by
  unfold PreparedFilesUpdate.at at h
  dsimp only at h
  split at h
  · cases h
  · split at h
    · cases h
    · split at h <;> cases h
      next hroom _ => exact ⟨rfl, Nat.le_of_not_lt hroom⟩

theorem PreparedOpenat2.at_sound {dir : DirFd} {path : OwnedPath w} {flags : OpenFlags}
    {mode : Openat2Mode} {resolve : ResolveFlags} {q : PreparedOpenat2 w} (hpath : path.Made)
    (h : PreparedOpenat2.at dir path flags mode resolve store m = (.ok q, m')) : q.Sound := by
  by_cases hfits : PreparedOpenat2.Adequate mode store
  · rw [PreparedOpenat2.at_ok dir path flags resolve m hfits] at h
    cases h
    exact ⟨hpath.terminated, rfl, rfl, hfits.room⟩
  · obtain ⟨e, he⟩ := PreparedOpenat2.at_refused dir path flags resolve m hfits
    rw [he] at h
    cases h

theorem PreparedRecvmsg.new_sound {N : Nat} {fd : RawFd} {bufs : Fin N → Storage w}
    {peer : PeerWanted} {flags : MsgFlags} {q : PreparedRecvmsg w N}
    (h : PreparedRecvmsg.new fd bufs store peer flags m = (.ok q, m')) : q.Sound := by
  have hlaid := (ready_new h).staged.laidOut
  intro r hr
  exact ⟨_, List.mem_singleton_self _, hlaid.inside r hr⟩

theorem PreparedStatx.at_sound {dir : DirFd} {path : OwnedPath w} {flags : StatxFlags}
    {mask : StatxMask} {q : PreparedStatx w} (hpath : path.Made)
    (h : PreparedStatx.at dir path flags mask store = .ok q) : q.path.Terminated := by
  unfold PreparedStatx.at at h
  split at h
  · cases h
  · split at h <;> cases h
    exact hpath.terminated

end Staged

/-! ### All constructors -/

section Constructors

variable [Native] {B R : Type} [StableBufferMut B] [StableBufferMut R] {packed : Bool}

/-- The requests that the constructors make. Those without memory take any arguments. -/
def PushMethod.Constructed :
    (k : PushMethod) → (PushMethod.kind B R w packed k).Prepared → Prop
  | .buffers n => fun q : Request B R n => ∃ (b : Build B R n) (r : Request B R n)
      (ops : List (RequestOp B n)), b.run = some r ∧ (∀ op ∈ ops, op.lendsNone = true) ∧
        q = ops.foldl Request.apply r
  | .openat => fun q : PreparedOpen w => ∃ dir path flags mode,
      path.Made ∧ q = PreparedOpen.at dir path flags mode
  | .pathOp => fun q : PreparedPathOp w => ∃ dir path kind,
      path.Made ∧ q = PreparedPathOp.new dir path kind
  | .rename => fun q : PreparedRename w => ∃ fromDir fromPath toDir toPath mode,
      fromPath.Made ∧ toPath.Made ∧ q = PreparedRename.new fromDir fromPath toDir toPath mode
  | .link => fun q : PreparedLink w => ∃ oldPath newPath kind,
      oldPath.Made ∧ newPath.Made ∧ q = PreparedLink.new oldPath newPath kind
  | .directOpen => fun q : PreparedDirectOpen w => ∃ dir path flags mode target,
      path.Made ∧ PreparedDirectOpen.at dir path flags mode target = .ok q
  | .openat2 => fun q : PreparedOpenat2 w => ∃ dir path flags mode resolve store m m',
      path.Made ∧ PreparedOpenat2.at dir path flags mode resolve store m = (.ok q, m')
  | .statx => fun q : PreparedStatx w => ∃ dir path flags mask dest,
      path.Made ∧ PreparedStatx.at dir path flags mask dest = .ok q
  | .recvmsg n => fun q : PreparedRecvmsg w n => ∃ fd bufs region peer flags m m',
      PreparedRecvmsg.new fd bufs region peer flags m = (.ok q, m')
  | .futexWaitv => fun q : PreparedFutexWaitv w => ∃ waiters array m m',
      PreparedFutexWaitv.new waiters array m = (.ok q, m')
  | .filesUpdate n => fun q : PreparedFilesUpdate w n => ∃ offset entries store m m',
      PreparedFilesUpdate.at offset entries store m = (.ok q, m')
  | .timeout => fun q : ValuePrepared w TimeoutOp => ∃ ctx store m m',
      ValuePrepared.new ctx store m = (.ok q, m')
  | .epollCtl => fun q : ValuePrepared w (EpollCtlOp packed) => ∃ ctx store m m',
      ValuePrepared.new ctx store m = (.ok q, m')
  | .bind => fun q : StagedPrepared w BindOp => ∃ fd addr store m m',
      StagedPrepared.new fd addr store m = (.ok q, m')
  | .connect => fun q : StagedPrepared w ConnectOp => ∃ fd addr store m m',
      StagedPrepared.new fd addr store m = (.ok q, m')
  | .waitid => fun q : PreparedWaitId w => (∃ idType id options dest,
        PreparedWaitId.new idType id options dest = .ok q) ∨
      ∃ idType id options, q = PreparedWaitId.discard idType id options
  | .epollWait => fun q : PreparedEpollWait w packed => ∃ epfd store,
      PreparedEpollWait.new packed epfd store = .ok q
  | .pipe => fun q : PreparedPipe w => ∃ flags dest, PreparedPipe.new flags dest = .ok q
  | .multishot | .readMultishot | .accept | .directAccept | .directSocket | .cancel | .msgRing
  | .fixedFdInstall | .futexWait | .futexWake => fun _ => True

theorem constructed_sound (k : PushMethod) (q : (PushMethod.kind B R w packed k).Prepared)
    (h : k.Constructed q) : (PushMethod.kind B R w packed k).Sound q := by
  cases k with
  | buffers n =>
      obtain ⟨b, r, ops, hrun, hops, rfl⟩ := h
      have hown := b.footprint_own.applyAll hops
      exact (((tracks_build hrun).applyAll ops).owned_iff _ _).mpr hown.covered
  | openat =>
      obtain ⟨dir, path, flags, mode, hpath, rfl⟩ := h
      exact hpath.terminated
  | pathOp =>
      obtain ⟨dir, path, kind, hpath, rfl⟩ := h
      exact hpath.terminated
  | rename =>
      obtain ⟨fromDir, fromPath, toDir, toPath, mode, hfrom, hto, rfl⟩ := h
      exact ⟨hfrom.terminated, hto.terminated⟩
  | link =>
      obtain ⟨oldPath, newPath, kind, hold, hnew, rfl⟩ := h
      exact ⟨hold.terminated, hnew.terminated⟩
  | directOpen =>
      obtain ⟨dir, path, flags, mode, target, hpath, hat⟩ := h
      unfold PreparedDirectOpen.at at hat
      split at hat <;> cases hat
      exact ⟨hpath.terminated, rfl⟩
  | openat2 =>
      obtain ⟨dir, path, flags, mode, resolve, store, m, m', hpath, hat⟩ := h
      exact PreparedOpenat2.at_sound hpath hat
  | statx =>
      obtain ⟨dir, path, flags, mask, dest, hpath, hat⟩ := h
      exact PreparedStatx.at_sound hpath hat
  | recvmsg n =>
      obtain ⟨fd, bufs, region, peer, flags, m, m', hnew⟩ := h
      exact PreparedRecvmsg.new_sound hnew
  | futexWaitv =>
      obtain ⟨waiters, array, m, m', hnew⟩ := h
      exact PreparedFutexWaitv.new_sound hnew
  | filesUpdate n =>
      obtain ⟨offset, entries, store, m, m', hat⟩ := h
      exact PreparedFilesUpdate.at_sound hat
  | timeout =>
      obtain ⟨ctx, store, m, m', hnew⟩ := h
      exact ValuePrepared.new_sound hnew
  | epollCtl =>
      obtain ⟨ctx, store, m, m', hnew⟩ := h
      exact ValuePrepared.new_sound hnew
  | bind =>
      obtain ⟨fd, addr, store, m, m', hnew⟩ := h
      exact StagedPrepared.new_sound hnew
  | connect =>
      obtain ⟨fd, addr, store, m, m', hnew⟩ := h
      exact StagedPrepared.new_sound hnew
  -- the others have a destination, which carries what was checked of it, or no memory
  | _ => exact trivial

end Constructors

end Ququmatz
