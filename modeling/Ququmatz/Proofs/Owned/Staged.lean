import Ququmatz.Lib.Run
import Ququmatz.Owned.StagedRun
import Ququmatz.Proofs.Owned.Openat2
import Ququmatz.Proofs.Owned.Path
import Ququmatz.Proofs.Owned.Submitter

/-!
# `Ququmatz.Proofs.Owned.Staged`: staged parameters reach the kernel as they were given

Whatever is done with a staged request, it stays the request that was constructed, or the ticket
made of it, and its storage stays as construction left it (`StagedKind.After.run`). So it is
enough that construction writes the parameters and that the SQE names the bytes where they were
written (`StagedLaw.of_construct`). What is to be found there is a `Parameter`, the structure of
the kernel's interface filled in with the request's own fields; that the layouts and the byte
arrays of the crate are these structures is proved kind by kind. The six requests are instances
(`stagedParametersLaw`).
-/

set_option autoImplicit false

namespace Ququmatz

open Lib

variable {w : Width}

/-! ### What a run keeps -/

namespace StagedKind

variable {K : StagedKind w}

theorem isRun (K : StagedKind w) (owned : Range) : IsRun (K.step owned) (K.run owned) :=
  ⟨fun _ => rfl, fun _ _ _ => rfl⟩

/-- The phase is one of the request `q`. -/
def OfRequest (q : K.Prepared) : StagedPhase K → Prop
  | .prepared q' => q' = q
  | .pending sqe t => ∃ ring id, (sqe, t) = K.intoPending q ring id
  | .done d => K.doneStore d = K.store q

/-- The state is one of the request `q`, which was constructed in memory `m`. -/
def After (q : K.Prepared) (m : Memory) (s : StagedPhase K × Memory) : Prop :=
  OfRequest q s.1 ∧ OwnedPath.Untouched (K.store q) m s.2

/-- A store beside the storage is not seen in it. -/
theorem untouched_write {store : Storage w} {m m' : Memory} {addr : Nat} {data : List UInt8}
    (h : OwnedPath.Untouched store m m')
    (hapart : addr + data.length ≤ store.memory.start ∨
      store.memory.start + store.memory.len ≤ addr) :
    OwnedPath.Untouched store m (m'.write addr data) := by
  intro a ha
  have hout : a < addr ∨ addr + data.length ≤ a := by
    obtain ⟨hlo, hhi⟩ := ha
    omega
  exact (Bytes.store_outside hout).trans (h a ha)

/-- A push that the queue refuses gives the request back; otherwise the queue holds its SQE. -/
theorem After.push {q q' : K.Prepared} {m m' : Memory} {submitter : OwnedSubmitter}
    {rs : List KRound} {world : World} {s' : StagedPhase K × Memory}
    (h : After q m (.prepared q', m'))
    (hstep : K.step (K.store q).memory (.prepared q', m') (.push submitter rs world) = some s') :
    After q m s' := by
  obtain ⟨hphase, hmem⟩ := h
  cases hphase
  obtain ⟨⟨⟨res, submitter'⟩, world'⟩, hrun, rfl⟩ := Option.map_eq_some_iff.mp hstep
  rcases OwnedSubmitter.pushWith_cases hrun with ⟨rfl, -, -⟩ | ⟨rfl, -, hsqes, -⟩
  · exact ⟨K.reclaim_intoPending _ _ _, hmem⟩
  · -- the SQE in the slot is the one that came with the ticket
    refine ⟨⟨submitter.ring, submitter.ids.next.1, Prod.ext ?_ rfl⟩, hmem⟩
    show world'.sqes _ = _
    rw [hsqes]
    exact Function.update_self _ _ _

/-- A receipt ends the request, or leaves its ticket as it was. -/
theorem After.redeem {q : K.Prepared} {m m' : Memory} {sqe : Sqe} {t : K.Pending}
    {receipt : Receipt} {s' : StagedPhase K × Memory} (h : After q m (.pending sqe t, m'))
    (hstep : K.step (K.store q).memory (.pending sqe t, m') (.redeem receipt) = some s') :
    After q m s' := by
  obtain ⟨⟨ring, id, hpending⟩, hmem⟩ := h
  have ht : t = (K.intoPending q ring id).2 := congrArg Prod.snd hpending
  rw [step_redeem, ht] at hstep
  cases hown : receipt.belongsTo ring id with
  | true =>
      obtain ⟨d, hok, hstore⟩ := K.redeem_own q ring id receipt hown
      rw [hok] at hstep
      cases hstep
      exact ⟨hstore, hmem⟩
  | false =>
      rw [K.redeem_other q ring id receipt hown] at hstep
      cases hstep
      rw [ht] at hpending
      exact ⟨⟨ring, id, hpending⟩, hmem⟩

/-- A step leads from a state of the request to a state of the request. -/
theorem After.step {q : K.Prepared} {m : Memory} (s : StagedPhase K × Memory) (a : StagedAction)
    (s' : StagedPhase K × Memory) (h : After q m s)
    (hstep : K.step (K.store q).memory s a = some s') : After q m s' := by
  rcases s with ⟨phase, m'⟩
  cases a with
  | push submitter rs world =>
      cases phase with
      | prepared q' => exact h.push hstep
      | pending sqe t => cases hstep
      | done d => cases hstep
  | redeem receipt =>
      cases phase with
      | prepared q' => cases hstep
      | pending sqe t => exact h.redeem hstep
      | done d => cases hstep
  | elsewhere addr data =>
      rw [step_elsewhere] at hstep
      split at hstep
      · rename_i hapart
        cases hstep
        exact ⟨h.1, untouched_write h.2 hapart⟩
      · cases hstep

/-- So does a run from its construction. -/
theorem After.run {q : K.Prepared} {m : Memory} {as : List StagedAction}
    {s : StagedPhase K × Memory} (h : K.run (K.store q).memory as (.prepared q, m) = some s) :
    After q m s := by
  have hstart : After q m (.prepared q, m) := ⟨rfl, fun _ _ => rfl⟩
  exact (K.isRun _).keeps After.step hstart h

end StagedKind

/-! ### The law -/

/-- Every field of the parameter lies at its offset. -/
def Parameter.Stands (p : Parameter) (bytes : Nat → UInt8) (addr : Nat) : Prop :=
  ∀ f ∈ p.fields, Bytes.load bytes (addr + f.1) f.2.length = f.2

/-- The fields stay as long as the bytes of the parameter do. -/
theorem Parameter.Stands.congr {p : Parameter} {bytes bytes' : Nat → UInt8} {addr : Nat}
    (h : p.Stands bytes addr) (heq : ∀ a, addr ≤ a → a < addr + p.size → bytes' a = bytes a) :
    p.Stands bytes' addr := by
  intro f hf
  have hinside := p.inside f hf
  refine Eq.trans (List.map_congr_left fun i hi => ?_) (h f hf)
  have := List.mem_range.mp hi
  exact heq _ (by omega) (by omega)

/-- The storage has room for the parameter where its alignment allows one. -/
structure Storage.FitsFor (store : Storage w) (p : Parameter) : Prop where
  room : p.size ≤ store.len
  aligned : store.addr.toNat % p.align = 0

/-- The SQE names bytes of the storage in which the kernel finds the parameter. -/
structure Carries (packed : Bool) (p : Parameter) (store : Storage w) (m : Memory) (sqe : Sqe) :
    Prop where
  named : sqe.parameter packed = some ⟨store.addr.toNat, p.size⟩
  inside : Range.Inside ⟨store.addr.toNat, p.size⟩ store.memory
  stands : p.Stands m.bytes store.addr.toNat

/-- The ticket gives the storage for a receipt of its own request, and for no other. -/
structure Redeems {K : StagedKind w} (t : K.Pending) (store : Storage w) (ring : RingId)
    (id : RequestId) : Prop where
  own : ∀ receipt, receipt.belongsTo ring id = true →
    ∃ d, K.redeem t receipt = .ok d ∧ K.doneStore d = store
  other : ∀ receipt, receipt.belongsTo ring id = false →
    K.redeem t receipt = .error (t, receipt)

/-- Before it is pushed the request names the parameter under every identity, then its SQE names
it, and at the end the storage is handed back. -/
def Intact {K : StagedKind w} (packed : Bool) (p : Parameter) (store : Storage w) :
    StagedPhase K × Memory → Prop
  | (.prepared q, m) =>
      K.store q = store ∧ ∀ ring id, Carries packed p store m (K.intoPending q ring id).1
  | (.pending sqe t, m) =>
      Carries packed p store m sqe ∧
        ∃ ring id, sqe.userData = id.raw ∧ Redeems t store ring id
  | (.done d, _) => K.doneStore d = store

/-- A request is accepted exactly when its own limits hold and the storage fits the parameter;
otherwise it hands back the storage, and nothing was written. What it stages is intact after
every run. -/
structure StagedLaw {E : Type} (packed : Bool) (K : StagedKind w)
    (construct : Memory → Except (Storage w × E) K.Prepared × Memory) (limits : Prop)
    (p : Parameter) (store : Storage w) (m : Memory) : Prop where
  accepted_iff : (∃ q m', construct m = (.ok q, m')) ↔ limits ∧ store.FitsFor p
  refused : ∀ s e m', construct m = (.error (s, e), m') → s = store ∧ m' = m
  intact : ∀ q m', construct m = (.ok q, m') → ∀ as s,
    K.run store.memory as (.prepared q, m') = some s → Intact packed p store s

section Constructs

variable {E : Type} {K : StagedKind w}
  {construct : Memory → Except (Storage w × E) K.Prepared × Memory} {adequate : Prop}
  {store : Storage w} {m : Memory}

/-- Construction gives `q` and the memory `m'` when the storage is adequate. Otherwise it hands
back the storage and writes nothing. -/
structure Constructs (construct : Memory → Except (Storage w × E) K.Prepared × Memory)
    (adequate : Prop) (store : Storage w) (m : Memory) (q : K.Prepared) (m' : Memory) : Prop where
  accepts : adequate → construct m = (.ok q, m')
  refuses : ¬ adequate → ∃ e, construct m = (.error (store, e), m)

namespace Constructs

variable {q : K.Prepared} {m' : Memory}

theorem of_ok (h : Constructs construct adequate store m q m') {q' : K.Prepared} {m'' : Memory}
    (hok : construct m = (.ok q', m'')) : adequate ∧ q' = q ∧ m'' = m' := by
  by_cases hyes : adequate
  · rw [h.accepts hyes] at hok
    cases hok
    exact ⟨hyes, rfl, rfl⟩
  · obtain ⟨e, he⟩ := h.refuses hyes
    rw [he] at hok
    cases hok

theorem of_error (h : Constructs construct adequate store m q m') {s : Storage w} {e : E}
    {m'' : Memory} (herror : construct m = (.error (s, e), m'')) : s = store ∧ m'' = m := by
  by_cases hyes : adequate
  · rw [h.accepts hyes] at herror
    cases herror
  · obtain ⟨e', he⟩ := h.refuses hyes
    rw [he] at herror
    cases herror
    exact ⟨rfl, rfl⟩

end Constructs

end Constructs

section Construct

variable {E : Type} {packed : Bool} {K : StagedKind w}
  {construct : Memory → Except (Storage w × E) K.Prepared × Memory} {limits : Prop}
  {p : Parameter} {store : Storage w} {m : Memory}

/-- What is in the storage stays readable as long as nobody writes to it. -/
theorem Carries.of_untouched {m' : Memory} {sqe : Sqe}
    (hnamed : sqe.parameter packed = some ⟨store.addr.toNat, p.size⟩)
    (hroom : p.size ≤ store.len) (hstands : p.Stands m.bytes store.addr.toNat)
    (h : OwnedPath.Untouched store m m') : Carries packed p store m' sqe := by
  have hstands' : p.Stands m'.bytes store.addr.toNat := by
    refine hstands.congr fun a hlo hhi => h a ⟨hlo, ?_⟩
    exact Nat.lt_of_lt_of_le hhi (Nat.add_le_add_left hroom _)
  exact ⟨hnamed, Or.inr ⟨Nat.le_refl _, Nat.add_le_add_left hroom _⟩, hstands'⟩

/-- In every state of the request `q` its parameters are intact, if they stood in the storage
when it was constructed. -/
theorem Intact.of_after {q : K.Prepared} {s : StagedPhase K × Memory}
    (hstore : K.store q = store)
    (hnamed : ∀ ring id,
      (K.intoPending q ring id).1.parameter packed = some ⟨store.addr.toNat, p.size⟩)
    (hroom : p.size ≤ store.len) (hstands : p.Stands m.bytes store.addr.toNat)
    (h : StagedKind.After q m s) : Intact packed p store s := by
  obtain ⟨hphase, hmem⟩ := h
  rw [hstore] at hmem
  rcases s with ⟨phase, m'⟩
  cases phase with
  | prepared q' =>
      cases hphase
      exact ⟨hstore, fun ring id => .of_untouched (hnamed ring id) hroom hstands hmem⟩
  | pending sqe t =>
      obtain ⟨ring, id, hpending⟩ := hphase
      have hsqe : sqe = (K.intoPending q ring id).1 := congrArg Prod.fst hpending
      have ht : t = (K.intoPending q ring id).2 := congrArg Prod.snd hpending
      subst hsqe ht hstore
      exact ⟨.of_untouched (hnamed ring id) hroom hstands hmem, ring, id,
        K.userData_intoPending q ring id, K.redeem_own q ring id, K.redeem_other q ring id⟩
  | done d => exact hphase.trans hstore

/-- It is enough that construction writes the parameters, and that the SQE names the bytes where
they were written. -/
theorem StagedLaw.of_construct (q : K.Prepared) (m' : Memory) (hstore : K.store q = store)
    (hnamed : limits → ∀ ring id,
      (K.intoPending q ring id).1.parameter packed = some ⟨store.addr.toNat, p.size⟩)
    (hstands : p.Stands m'.bytes store.addr.toNat)
    (h : Constructs construct (limits ∧ store.FitsFor p) store m q m') :
    StagedLaw packed K construct limits p store m where
  accepted_iff := ⟨fun ⟨_, _, hok⟩ => (h.of_ok hok).1, fun hyes => ⟨q, m', h.accepts hyes⟩⟩
  refused := fun s e m'' herror => h.of_error herror
  intact := fun q' m'' hok as s hrun => by
    obtain ⟨⟨hlimits, hfits⟩, rfl, rfl⟩ := h.of_ok hok
    rw [← hstore] at hrun
    exact .of_after hstore (hnamed hlimits) hfits.room hstands (StagedKind.After.run hrun)

end Construct

/-! ### The parameters in memory -/

section Parameters

variable {bytes : Nat → UInt8} {addr : Nat}

/-- A value that is stored with its layout leaves all of the fields that its layout has. -/
theorem Parameter.stands_of_layout {V : Type} {p : Parameter} (L : Layout V) (v : V)
    (h : ∀ f ∈ p.fields, f ∈ L.fields v) :
    p.Stands (Bytes.storeAll bytes addr (L.fields v)) addr :=
  fun f hf => L.stands_store bytes addr v f (h f hf)

variable [Native]

theorem Parameter.stands_timespec (duration : Timespec) :
    (timespec duration).Stands
      (Bytes.storeAll bytes addr (Timespec.layout.fields duration)) addr :=
  stands_of_layout _ _ fun _ hf => hf

theorem Parameter.stands_epollEvent (packed : Bool) (change : EpollChange) :
    (epollEvent packed change).Stands
      (Bytes.storeAll bytes addr ((EpollEvent.layout packed).fields change.event)) addr := by
  refine stands_of_layout _ _ fun f hf => ?_
  cases change <;> exact hf

/-- The sixteen bytes of an address are its fields, one behind the other. -/
theorem Parameter.stands_sockAddrIn (sa : SockAddrIn) :
    (sockAddrIn sa).Stands (Bytes.store bytes addr sa.stagedBytes) addr := by
  intro f hf
  have hlen : sa.stagedBytes.length = 16 := by simp [SockAddrIn.stagedBytes]
  have hinside : f.1 + f.2.length ≤ sa.stagedBytes.length := by
    rw [hlen]
    exact (sockAddrIn sa).inside f hf
  have hdrop : ∀ (x : UInt16) (n : Nat), 2 ≤ n → (u16Bytes x).drop n = [] :=
    fun x n hn => List.drop_eq_nil_of_le (by simpa using hn)
  rw [Bytes.load_part _ _ hinside, Bytes.load_store_self]
  simp only [sockAddrIn, List.mem_cons, List.not_mem_nil, or_false] at hf
  rcases hf with rfl | rfl | rfl | rfl <;>
    simp [SockAddrIn.stagedBytes, List.drop_append, hdrop]

/-- The flags that a mode implies are those of its parameter. -/
theorem Parameter.stands_openHow (dir : DirFd) (path : OwnedPath w) (flags : OpenFlags)
    (mode : Openat2Mode) (resolve : ResolveFlags) (howStore : Storage w) :
    (openHow flags mode resolve).Stands (Bytes.storeAll bytes addr (OpenHow.layout.fields
      (PreparedOpenat2.ofParts dir path flags mode resolve howStore).how)) addr := by
  refine stands_of_layout _ _ fun f hf => ?_
  cases mode <;> exact hf

/-- The fields of a waiter are at the place of the waiter in the array. -/
theorem Parameter.stands_futexWaitv (waiters : List FutexWaitv) :
    (futexWaitv waiters).Stands (Bytes.storeAll bytes addr
      ((FutexWaitv.layout.array waiters.length).fields waiters.get)) addr := by
  refine stands_of_layout _ _ fun f hf => ?_
  obtain ⟨⟨waiter, i⟩, hmem, hf⟩ := List.mem_flatMap.mp hf
  obtain ⟨hlt, hget⟩ := List.getElem?_eq_some_iff.mp (List.mem_zipIdx_iff_getElem?.mp hmem)
  refine List.mem_flatMap.mpr ⟨⟨i, hlt⟩, List.mem_finRange _, ?_⟩
  rw [show waiters.get ⟨i, hlt⟩ = waiter from hget]
  exact hf

end Parameters

/-! ### The kinds -/

section Kinds

theorem ValuePrepared.stagedLaw {Op : ValueOp} {p : Parameter} (packed : Bool) (ctx : Op.Context)
    (store : Storage w) (m : Memory) (hsize : Op.layout.size = p.size)
    (halign : Op.layout.align = p.align)
    (hsqe : ∀ addr id, ((Op.buildSqe ctx addr).withUserData id).parameter packed
      = some ⟨addr.toNat, p.size⟩)
    (hstands : p.Stands (Bytes.storeAll m.bytes store.addr.toNat
      (Op.layout.fields (Op.value ctx))) store.addr.toNat) :
    StagedLaw packed (ValuePrepared.kind w Op) (ValuePrepared.new ctx store) True p store m := by
  let q : ValuePrepared w Op := ⟨store, ctx, store.addr⟩
  refine StagedLaw.of_construct (K := ValuePrepared.kind w Op) q (q.publish m) rfl
    (fun _ ring id => ?_) ?_ ⟨fun h => ?_, fun h => ?_⟩
  · have haddr := hsqe (UInt64.ofNat store.addr.toNat) id.raw
    rw [toNat_ptr_asU64] at haddr
    exact haddr
  · rw [publish, Memory.writeAll_bytes]
    exact hstands
  · rw [ValuePrepared.new]
    dsimp only
    rw [hsize, halign, if_neg (Nat.not_lt_of_le h.2.room), if_neg (fun hne => hne h.2.aligned)]
    rfl
  · rw [ValuePrepared.new]
    dsimp only
    rw [hsize, halign]
    -- a check that fails hands the storage back; passing both makes it adequate
    split
    · exact ⟨_, rfl⟩
    · rename_i hroom
      split
      · exact ⟨_, rfl⟩
      · rename_i haligned
        exact absurd ⟨trivial, Nat.le_of_not_lt hroom, Decidable.not_not.mp haligned⟩ h

variable [Native]

theorem StagedPrepared.stagedLaw {Op : AddrOp} (packed : Bool) (fd : RawFd) (addr : SockAddrIn)
    (store : Storage w) (m : Memory)
    (hsqe : ∀ ptr id, ((Op.buildSqe fd ptr ADDR_LEN_U32).withUserData id).parameter packed
      = some ⟨ptr.toNat, ADDR_LEN⟩) :
    StagedLaw packed (StagedPrepared.kind w Op) (StagedPrepared.new fd addr store) True
      (.sockAddrIn addr) store m := by
  let q : StagedPrepared w Op := ⟨store, fd, addr, store.addr⟩
  refine StagedLaw.of_construct (K := StagedPrepared.kind w Op) q (q.publish m) rfl
    (fun _ ring id => ?_) (Parameter.stands_sockAddrIn addr) ⟨fun h => ?_, fun h => ?_⟩
  · have hptr := hsqe (UInt64.ofNat store.addr.toNat) id.raw
    rw [toNat_ptr_asU64] at hptr
    exact hptr
  · have hroom : ADDR_LEN ≤ store.len := h.2.room
    rw [StagedPrepared.new]
    dsimp only
    rw [if_neg (Nat.not_lt_of_le hroom)]
    rfl
  · -- bytes may lie anywhere, so it is the room that is missing
    have hroom : store.len < ADDR_LEN := by
      refine Nat.lt_of_not_le fun hroom => h ⟨trivial, hroom, Nat.mod_one _⟩
    rw [StagedPrepared.new]
    dsimp only
    rw [if_pos hroom]
    exact ⟨_, rfl⟩

/-- `PreparedOpenat2::at`, with what it hands back of the storage for the `open_how`. -/
def PreparedOpenat2.construct (dir : DirFd) (path : OwnedPath w) (flags : OpenFlags)
    (mode : Openat2Mode) (resolve : ResolveFlags) (howStore : Storage w) (m : Memory) :
    Except (Storage w × Openat2Error) (PreparedOpenat2 w) × Memory :=
  let (res, m) := PreparedOpenat2.at dir path flags mode resolve howStore m
  (res.mapError Prod.snd, m)

/-- The mode has only permission bits. -/
theorem PreparedOpenat2.stagedLaw (packed : Bool) (dir : DirFd) (path : OwnedPath w)
    (flags : OpenFlags) (mode : Openat2Mode) (resolve : ResolveFlags) (howStore : Storage w)
    (m : Memory) :
    StagedLaw packed (PreparedOpenat2.kind w)
      (PreparedOpenat2.construct dir path flags mode resolve howStore)
      (mode.mode.bits &&& ~~~MODE_BITS = 0) (.openHow flags mode resolve) howStore m := by
  let q := PreparedOpenat2.ofParts dir path flags mode resolve howStore
  refine StagedLaw.of_construct (K := PreparedOpenat2.kind w) q (q.publishHow m) rfl
    (fun _ ring id => ?_) ?_ ⟨fun h => ?_, fun h => ?_⟩
  · have haddr : (q.intoPending ring id).1.off.toNat = howStore.addr.toNat :=
      toNat_ptr_asU64 howStore.addr
    show (q.intoPending ring id).1.parameter packed = _
    rw [← haddr]
    rfl
  · rw [publishHow, Memory.writeAll_bytes]
    exact Parameter.stands_openHow dir path flags mode resolve howStore
  · rw [PreparedOpenat2.construct,
      PreparedOpenat2.at_ok dir path flags resolve m ⟨h.1, h.2.room, h.2.aligned⟩]
    rfl
  · obtain ⟨e, he⟩ := PreparedOpenat2.at_refused dir path flags resolve m
      (fun hok : Adequate mode howStore => h ⟨hok.mode, hok.room, hok.aligned⟩)
    rw [PreparedOpenat2.construct, he]
    exact ⟨e, rfl⟩

theorem PreparedFutexWaitv.stagedLaw (packed : Bool) (waiters : List FutexWaitv)
    (array : Storage w) (m : Memory) :
    StagedLaw packed (PreparedFutexWaitv.kind w) (PreparedFutexWaitv.new waiters array)
      (0 < waiters.length ∧ waiters.length ≤ FUTEX_WAITV_MAX) (.futexWaitv waiters) array m := by
  let L := FutexWaitv.layout.array waiters.length
  let q : PreparedFutexWaitv w := ⟨array, waiters.length, array.addr⟩
  let m' := m.writeAll array.addr.toNat (L.fields waiters.get)
  refine StagedLaw.of_construct (K := PreparedFutexWaitv.kind w) q m' rfl
    (fun h ring id => ?_) ?_ ⟨fun h => ?_, fun h => ?_⟩
  · -- the SQE counts waiters, and the limit keeps the count in its 32 bits
    have haddr : (q.intoPending ring id).1.addr.toNat = array.addr.toNat :=
      toNat_ptr_asU64 array.addr
    have hlen : (q.intoPending ring id).1.len.toNat = waiters.length :=
      UInt32.toNat_ofNat_of_lt' (Nat.lt_of_le_of_lt h.2 (by decide))
    show (q.intoPending ring id).1.parameter packed = some ⟨_, 24 * _⟩
    rw [← haddr, ← hlen]
    rfl
  · rw [Memory.writeAll_bytes]
    exact Parameter.stands_futexWaitv waiters
  · obtain ⟨⟨hnonempty, hlimit⟩, hfits⟩ := h
    have hroom : L.size ≤ array.len := hfits.room
    have haligned : array.addr.toNat % L.align = 0 := hfits.aligned
    rw [PreparedFutexWaitv.new]
    dsimp only
    rw [if_neg (Nat.ne_of_gt hnonempty), if_neg (Nat.not_lt_of_le hlimit),
      if_neg (Nat.not_lt_of_le hroom), if_neg (fun hne => hne haligned)]
    rfl
  · rw [PreparedFutexWaitv.new]
    dsimp only
    -- the four checks, in the order of the source
    split
    · exact ⟨_, rfl⟩
    · rename_i hzero
      split
      · exact ⟨_, rfl⟩
      · rename_i hmany
        split
        · exact ⟨_, rfl⟩
        · rename_i hroom
          split
          · exact ⟨_, rfl⟩
          · rename_i haligned
            exact absurd ⟨⟨Nat.pos_of_ne_zero hzero, Nat.le_of_not_lt hmany⟩,
              Nat.le_of_not_lt hroom, Decidable.not_not.mp haligned⟩ h

end Kinds

/-- The staged requests of the crate. -/
structure StagedParametersLaw [Native] (packed : Bool) (w : Width) : Prop where
  timeout : ∀ (ctx : TimeoutCtx) (store : Storage w) (m : Memory),
    StagedLaw packed (ValuePrepared.kind w TimeoutOp) (@ValuePrepared.new w TimeoutOp ctx store)
      True (.timespec ctx.duration) store m
  epollCtl : ∀ (ctx : EpollCtx) (store : Storage w) (m : Memory),
    StagedLaw packed (ValuePrepared.kind w (EpollCtlOp packed))
      (@ValuePrepared.new w (EpollCtlOp packed) ctx store) True (.epollEvent packed ctx.change)
      store m
  bind : ∀ (fd : RawFd) (addr : SockAddrIn) (store : Storage w) (m : Memory),
    StagedLaw packed (StagedPrepared.kind w BindOp) (@StagedPrepared.new w BindOp _ fd addr store)
      True (.sockAddrIn addr) store m
  connect : ∀ (fd : RawFd) (addr : SockAddrIn) (store : Storage w) (m : Memory),
    StagedLaw packed (StagedPrepared.kind w ConnectOp)
      (@StagedPrepared.new w ConnectOp _ fd addr store) True (.sockAddrIn addr) store m
  openat2 : ∀ (dir : DirFd) (path : OwnedPath w) (flags : OpenFlags) (mode : Openat2Mode)
      (resolve : ResolveFlags) (howStore : Storage w) (m : Memory),
    StagedLaw packed (PreparedOpenat2.kind w)
      (PreparedOpenat2.construct dir path flags mode resolve howStore)
      (mode.mode.bits &&& ~~~MODE_BITS = 0) (.openHow flags mode resolve) howStore m
  futexWaitv : ∀ (waiters : List FutexWaitv) (array : Storage w) (m : Memory),
    StagedLaw packed (PreparedFutexWaitv.kind w) (PreparedFutexWaitv.new waiters array)
      (0 < waiters.length ∧ waiters.length ≤ FUTEX_WAITV_MAX) (.futexWaitv waiters) array m

/-- Staged parameters reach the kernel as they were given, on every target: construction
succeeds exactly when the request's limits hold and the storage fits, and from then on the SQE
names bytes of the storage that are the request's own fields. -/
theorem stagedParametersLaw [Native] (packed : Bool) (w : Width) :
    StagedParametersLaw packed w where
  timeout := fun ctx store m =>
    @ValuePrepared.stagedLaw w TimeoutOp _ packed ctx store m rfl rfl (fun _ _ => rfl)
      (Parameter.stands_timespec ctx.duration)
  epollCtl := fun ctx store m =>
    @ValuePrepared.stagedLaw w (EpollCtlOp packed) _ packed ctx store m rfl rfl (fun _ _ => rfl)
      (Parameter.stands_epollEvent packed ctx.change)
  bind := fun fd addr store m => StagedPrepared.stagedLaw packed fd addr store m fun _ _ => rfl
  connect := fun fd addr store m => StagedPrepared.stagedLaw packed fd addr store m fun _ _ => rfl
  openat2 := PreparedOpenat2.stagedLaw packed
  futexWaitv := PreparedFutexWaitv.stagedLaw packed

/-! ### An address that is refused once -/

local instance stagedEndian : Native := ⟨.little⟩

/-- `127.0.0.1:8080`. -/
def loopback : SockAddrIn := ⟨2, 0x901F, 0x0100007F, 7⟩

/-- An owned half whose queue has two slots, at the given tail. -/
def halfAt (tail : UInt32) : OwnedSubmitter where
  inner := { fd := ⟨3⟩, sqMask := 1, sqTailLocal := tail, sqSubmitted := tail, features := 0 }
  ring := ⟨1⟩
  ids := .new

/-- The queue is full at the first push. Before the second, somebody else writes below the
storage. -/
def refusedOnce : List StagedAction :=
  [.push (halfAt 1) [.quiet] Sys.wrapping.world,
    .elsewhere 4094 [9, 9],
    .push (halfAt 0xFFFFFFFF) [.quiet, .quiet] Sys.wrapping.world]

/-- The SQE of the retry names the sixteen bytes of the address, the last eight of them zero. -/
theorem loopback_carried :
    ∃ q m' sqe t m,
      @StagedPrepared.new .w64 ConnectOp _ ⟨4⟩ loopback howStorage (Memory.of fun _ => 1)
        = (.ok q, m') ∧
      (StagedPrepared.kind .w64 ConnectOp).run howStorage.memory refusedOnce (.prepared q, m')
        = some (.pending sqe t, m) ∧
      sqe.addr = 4096 ∧
      Bytes.load m.bytes 4096 17 = [2, 0, 0x1F, 0x90, 127, 0, 0, 1, 0, 0, 0, 0, 0, 0, 0, 0, 1] ∧
      Carries true (.sockAddrIn loopback) howStorage m sqe := by
  let q : StagedPrepared .w64 ConnectOp := ⟨howStorage, ⟨4⟩, loopback, howStorage.addr⟩
  let m' := q.publish (Memory.of fun _ => 1)
  have hnew : @StagedPrepared.new .w64 ConnectOp _ ⟨4⟩ loopback howStorage (Memory.of fun _ => 1)
      = (.ok q, m') := rfl
  have heval : ((StagedPrepared.kind .w64 ConnectOp).run howStorage.memory refusedOnce
      (.prepared q, m')).map (fun s =>
        match s with
        | (.pending sqe _, m) => some (sqe.addr, Bytes.load m.bytes 4096 17)
        | _ => none)
      = some (some (4096, [2, 0, 0x1F, 0x90, 127, 0, 0, 1, 0, 0, 0, 0, 0, 0, 0, 0, 1])) := by
    decide +kernel
  obtain ⟨⟨phase, m⟩, hrun, heval⟩ := Option.map_eq_some_iff.mp heval
  cases phase with
  | prepared q => cases heval
  | done d => cases heval
  | pending sqe t =>
      obtain ⟨haddr, hbytes⟩ := Prod.mk.inj (Option.some.inj heval)
      exact ⟨q, m', sqe, t, m, hnew, hrun, haddr, hbytes,
        (((stagedParametersLaw true .w64).connect ⟨4⟩ loopback howStorage
          (Memory.of fun _ => 1)).intact q m' hnew refusedOnce _ hrun).1⟩

end Ququmatz
