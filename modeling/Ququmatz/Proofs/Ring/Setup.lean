import Ququmatz.Proofs.Ring.Os
import Ququmatz.Ring.Lifetime

/-!
# `Ququmatz.Proofs.Ring.Setup`: a setup that fails leaves nothing behind

Each owner of the parts of a ring has a list `parts` of what it owns, in the order in which
its `drop` gives them back. The specification of each function says that what the view owns
is what the owner in charge lists: `NoMmapGuard`, then `SetupGuard`, then `RingResources`. So
an exit that drops the owner releases exactly what was acquired, and the successful exit has
released nothing.
-/

set_option autoImplicit false

namespace Ququmatz

open Lib

/-- What an owner owns of a region that may be absent. -/
def MappedRegion.part (m : MappedRegion) : List Resource :=
  if m.len > 0 then [.mapping m] else []

theorem MappedRegion.part_of_pos {m : MappedRegion} (h : 0 < m.len) : m.part = [.mapping m] :=
  if_pos h

@[simp] theorem MappedRegion.part_absent : MappedRegion.part ⟨0, 0⟩ = [] :=
  if_neg (Nat.lt_irrefl 0)

/-- A mapping has a length. -/
def Resource.Nonempty : Resource → Prop
  | .mapping m => 0 < m.len
  | .file _ => True

/-- What the guard gives back when it is dropped. -/
def SetupGuard.parts (g : SetupGuard) : List Resource :=
  g.sqes.part ++ (g.cqRing.part ++ (g.sqRing.part ++ [.file g.fd]))

def NoMmapGuard.parts (g : NoMmapGuard) : List Resource :=
  [.mapping g.sqesRegion, .mapping g.ringRegion]

/-- What a pool owns: its buffers and its producer ring. -/
def ProvidedBufferRing.parts (p : ProvidedBufferRing) : List Resource :=
  [.mapping ⟨p.bufsAddr, p.bufsBytes⟩, .mapping ⟨p.ringAddr, p.ringBytes⟩]

/-- What the last owner of the page gives back: the parts of the ring, and the page. -/
def RingResources.parts (r : RingResources) : List Resource :=
  .mapping r.sqesRegion :: (r.cqRing.part ++
    [.mapping r.sqRing, .file r.fd, .mapping r.selfPage])

section Specs

variable {α : Type} {Q : α → Os → Prop} {v : OsView}

/-- An optional region is unmapped if it is there. -/
theorem Spec.munmapPart {m : MappedRegion} {p : OsProg α} {rest : List Resource}
    (hown : v.own.Perm (m.part ++ rest))
    (hp : Spec osMachine (OsAt { v with rel := v.rel ++ m.part, own := rest }) p Q) :
    Spec osMachine (OsAt v)
      (if m.len > 0 then call (.munmap m.addr m.len) >>= fun _ => p else p) Q := by
  by_cases h : m.len > 0
  · rw [if_pos h]
    rw [MappedRegion.part_of_pos h] at hown hp
    exact Spec.munmap hown fun _ => hp
  · rw [if_neg h]
    have habsent : m.part = [] := if_neg h
    rw [habsent] at hown hp
    rw [List.append_nil] at hp
    exact Spec.conseq hp (fun os hos => hos.perm hown) fun _ _ hq => hq

theorem SetupGuard.drop_spec {g : SetupGuard} (hown : v.own.Perm g.parts) :
    Spec osMachine (OsAt v) g.drop fun _ =>
      OsAt { v with rel := v.rel ++ g.parts, own := [] } := by
  unfold drop
  refine Spec.munmapPart hown (Spec.munmapPart (List.Perm.refl _)
    (Spec.munmapPart (List.Perm.refl _) (Spec.close (List.Perm.refl _) fun _ => ?_)))
  refine Spec.ret fun os hos => ?_
  simpa only [parts, List.append_assoc] using hos

theorem NoMmapGuard.drop_spec {g : NoMmapGuard} (hown : v.own.Perm g.parts) :
    Spec osMachine (OsAt v) g.drop fun _ =>
      OsAt { v with rel := v.rel ++ g.parts, own := [] } := by
  unfold drop
  refine Spec.munmap hown fun _ => Spec.munmap (List.Perm.refl _) fun _ => ?_
  refine Spec.ret fun os hos => ?_
  simp only [List.append_assoc] at hos
  exact hos

/-- A new page, with one share and the given parts. -/
theorem RingResources.alloc_spec {fd : RawFd} {sqRing cqRing sqesRegion : MappedRegion} :
    Spec osMachine (OsAt v) (alloc fd sqRing cqRing sqesRegion) fun res os =>
      match res with
      | .error _ => ∃ e, OsAt { v with denied := v.denied ++ [e] } os
      | .ok ptr =>
          OsAt { v with
            own := .mapping ⟨ptr, 4096⟩ :: v.own
            pages := Function.update v.pages ptr
              ⟨1, fd, sqRing, cqRing, sqesRegion, ⟨ptr, 4096⟩⟩ } os := by
  unfold alloc
  refine Spec.mmap (fun e => Spec.ret fun os hos => ⟨e, hos⟩) fun addr _ _ => ?_
  refine Spec.writePage ⟨⟨addr, 4096⟩, List.mem_cons_self, Nat.le_refl _, ?_⟩ ?_
  · show addr < addr + 4096
    omega
  · exact Spec.ret fun os hos => hos

/-- What `map_rings` has mapped, and who owns it. -/
structure MappedRings.Owned (rings : MappedRings) (fd : RawFd) (guard : SetupGuard) : Prop where
  fd_eq : guard.fd = fd
  sqRing : guard.sqRing = ⟨rings.sqRingPtr, rings.mmapSz⟩
  cqRing : guard.cqRing = rings.cqRingRegion
  sqes : guard.sqes = ⟨rings.sqesPtr, rings.sqesSz⟩
  sqRing_pos : 0 < rings.mmapSz
  sqes_pos : 0 < rings.sqesSz
  /-- The completion ring is in the mapping of the submission ring, or has its own. -/
  cqRing_cases : (rings.cqRingRegion = ⟨0, 0⟩ ∧ rings.cqRingPtr = rings.sqRingPtr) ∨
    (rings.cqRingRegion.addr = rings.cqRingPtr ∧ 0 < rings.cqRingRegion.len)

/-- How a step of `map_rings` ends: everything is mapped, or a call failed; in either case the
guard owns what is mapped. -/
def MapOutcome (v : OsView) (fd : RawFd) (x : Except Error MappedRings × SetupGuard) (os : Os) :
    Prop :=
  match x.1 with
  | .error _ => ∃ e own, OsAt { v with own := own, denied := v.denied ++ [e] } os ∧
      own.Perm x.2.parts
  | .ok rings => rings.Owned fd x.2 ∧ ∃ own, OsAt { v with own := own } os ∧
      own.Perm x.2.parts

theorem mapSqes_spec {fd : RawFd} {params : IoUringParams} {sqRing : MappedRegion}
    {cqRingPtr : Nat} {cqRing : MappedRegion} (hsq : 0 < sqRing.len)
    (hcq : (cqRing = ⟨0, 0⟩ ∧ cqRingPtr = sqRing.addr) ∨
      (cqRing.addr = cqRingPtr ∧ 0 < cqRing.len))
    (hown : v.own.Perm (cqRing.part ++ (sqRing.part ++ [.file fd]))) :
    Spec osMachine (OsAt v)
      (mapSqes fd params sqRing cqRingPtr cqRing ⟨fd, sqRing, cqRing, ⟨0, 0⟩⟩)
      (MapOutcome v fd) := by
  unfold mapSqes
  refine Spec.mmap (fun e => Spec.ret fun os hos => ⟨e, _, hos, hown⟩) fun sqesPtr hsqes _ => ?_
  refine Spec.ret fun os hos => ⟨⟨rfl, rfl, rfl, rfl, hsq, hsqes, hcq⟩, _, hos, ?_⟩
  show List.Perm _ (MappedRegion.part ⟨sqesPtr, _⟩ ++ _)
  rw [MappedRegion.part_of_pos hsqes]
  exact hown.cons _

theorem mapRings_spec {fd : RawFd} {params : IoUringParams} {features setupFlags : UInt32}
    (hown : v.own = [.file fd]) :
    Spec osMachine (OsAt v) (mapRings fd params features setupFlags (SetupGuard.new fd))
      (MapOutcome v fd) := by
  unfold mapRings
  refine Spec.mmap (fun e => Spec.ret fun os hos => ⟨e, _, hos, ?_⟩) fun sqRingPtr hsq _ => ?_
  · rw [hown]
    exact List.Perm.refl _
  have hsqOwn : (Resource.mapping ⟨sqRingPtr, mmapSz params features setupFlags⟩ :: v.own)
      = MappedRegion.part ⟨sqRingPtr, mmapSz params features setupFlags⟩ ++ [.file fd] := by
    rw [hown, MappedRegion.part_of_pos hsq]
    rfl
  by_cases hsingle : isSingleMmap features = true
  · -- One mapping serves both rings.
    simp only [hsingle, if_true]
    exact mapSqes_spec hsq (Or.inl ⟨rfl, rfl⟩) (by rw [hsqOwn]; exact List.Perm.refl _)
  · simp only [hsingle]
    refine Spec.mmap (fun e => Spec.ret fun os hos => ⟨e, _, hos, ?_⟩) fun cqRingPtr hcq _ => ?_
    · rw [hsqOwn]
      exact List.Perm.refl _
    · refine mapSqes_spec hsq (Or.inr ⟨rfl, hcq⟩) ?_
      rw [hsqOwn, MappedRegion.part_of_pos (m := ⟨cqRingPtr, cqRingSz params⟩) hcq]
      exact List.Perm.refl _

/-- The page of a ring that `from_params` made: one share, and the parts of the ring. -/
structure RingResources.Made (res : RingResources) (r : OsRing) : Prop where
  refcount : res.refcount = 1
  fd : res.fd = r.ring.fd
  page : res.selfPage = ⟨r.resources, 4096⟩
  sqRing_pos : 0 < res.sqRing.len
  sqes_pos : 0 < res.sqesRegion.len
  cqRing_cases : (res.cqRing = ⟨0, 0⟩ ∧ r.cqRingPtr = res.sqRing.addr) ∨
    (res.cqRing.addr = r.cqRingPtr ∧ 0 < res.cqRing.len)

/-- How the setup ends: nothing is owned and a call has failed, or the page owns everything,
and nothing was released. -/
def SetupOutcome (v : OsView) (res : Except Error OsRing) (os : Os) : Prop :=
  match res with
  | .error _ => ∃ rel groups denied,
      OsAt { v with rel := rel, own := [], groups := groups, denied := denied } os ∧
        v.SameGroups groups ∧ denied ≠ v.denied
  | .ok r => ∃ page groups,
      OsAt { v with
        own := page.parts
        pages := Function.update v.pages r.resources page
        groups := groups } os ∧ v.SameGroups groups ∧ page.Made r

theorem MappedRings.Owned.holds {rings : MappedRings} {fd : RawFd} {guard : SetupGuard}
    (h : rings.Owned fd guard) (hown : v.own.Perm guard.parts) :
    v.Holds rings.sqRingPtr ∧ v.Holds rings.cqRingPtr := by
  have hmem : ∀ m : MappedRegion, .mapping m ∈ guard.parts → .mapping m ∈ v.own :=
    fun m hm => hown.mem_iff.mpr hm
  have hsq : v.Holds rings.sqRingPtr := by
    refine ⟨guard.sqRing, List.mem_append_left _ (hmem _ ?_), ?_⟩
    · have hpos : 0 < guard.sqRing.len := by rw [h.sqRing]; exact h.sqRing_pos
      simp [SetupGuard.parts, MappedRegion.part_of_pos hpos]
    · rw [h.sqRing]
      exact ⟨Nat.le_refl _, Nat.lt_add_of_pos_right h.sqRing_pos⟩
  refine ⟨hsq, ?_⟩
  -- the completion ring shares the mapping, or has one of its own
  rcases h.cqRing_cases with ⟨-, heq⟩ | ⟨haddr, hlen⟩
  · rw [heq]
    exact hsq
  · refine ⟨guard.cqRing, List.mem_append_left _ (hmem _ ?_), ?_⟩
    · have hpos : 0 < guard.cqRing.len := by rw [h.cqRing]; exact hlen
      simp [SetupGuard.parts, MappedRegion.part_of_pos hpos]
    · rw [h.cqRing, haddr]
      exact ⟨Nat.le_refl _, Nat.lt_add_of_pos_right hlen⟩

theorem finishSetup_spec {fd : RawFd} {params : IoUringParams} {features setupFlags : UInt32}
    {rings : MappedRings} {guard : SetupGuard} (h : rings.Owned fd guard)
    (hown : v.own.Perm guard.parts) :
    Spec osMachine (OsAt v) (finishSetup fd params features setupFlags rings guard)
      (SetupOutcome v) := by
  unfold finishSetup
  -- Both rings are mapped when they are parsed.
  obtain ⟨hsq, hcq⟩ := h.holds hown
  refine Spec.parseRings hsq hcq fun parsed => ?_
  refine Spec.bind RingResources.alloc_spec fun res => ?_
  cases res with
  | error e =>
      -- The page could not be mapped: the guard is still armed.
      intro rs os b os' hos hrun
      obtain ⟨e', hos⟩ := hos
      refine (Spec.bind (SetupGuard.drop_spec (v := { v with denied := v.denied ++ [e'] }) hown)
        fun _ => ?_) rs os b os' hos hrun
      exact Spec.ret fun os hos => ⟨_, _, _, hos, fun _ _ => rfl, by simp⟩
  | ok ptr =>
      refine Spec.ret fun os hos => ⟨⟨1, fd, ⟨rings.sqRingPtr, rings.mmapSz⟩, rings.cqRingRegion,
        ⟨rings.sqesPtr, rings.sqesSz⟩, ⟨ptr, 4096⟩⟩, _, hos.perm ?_, fun _ _ => rfl,
        ⟨rfl, rfl, rfl, h.sqRing_pos, h.sqes_pos, h.cqRing_cases⟩⟩
      -- The page takes over what the guard lists, and is itself the last part.
      refine (hown.cons _).trans ?_
      have hparts : guard.parts = Resource.mapping ⟨rings.sqesPtr, rings.sqesSz⟩ ::
          (rings.cqRingRegion.part ++ [.mapping ⟨rings.sqRingPtr, rings.mmapSz⟩, .file fd]) := by
        unfold SetupGuard.parts
        rw [h.sqes, h.cqRing, h.sqRing, h.fd_eq,
          MappedRegion.part_of_pos (m := ⟨rings.sqesPtr, rings.sqesSz⟩) h.sqes_pos,
          MappedRegion.part_of_pos (m := ⟨rings.sqRingPtr, rings.mmapSz⟩) h.sqRing_pos]
        rfl
      rw [hparts]
      refine (List.perm_append_singleton _ _).symm.trans ?_
      simp only [RingResources.parts, List.cons_append, List.append_assoc, List.nil_append]
      exact List.Perm.refl _

/-- `NoMmapGuard::alloc` has both regions, or neither. -/
theorem NoMmapGuard.alloc_spec {entries : UInt32} {params : IoUringParams} (hown : v.own = []) :
    Spec osMachine (OsAt v) (alloc entries params) fun res os =>
      match res with
      | .error _ => ∃ rel denied, OsAt { v with rel := rel, denied := denied } os ∧
          denied ≠ v.denied
      | .ok (guard, _) => OsAt { v with own := guard.parts } os ∧
          0 < guard.ringRegion.len ∧ 0 < guard.sqesRegion.len := by
  unfold alloc allocAnon
  refine Spec.mmap (fun e => Spec.ret fun os hos => ⟨_, _, hos, by simp⟩) fun ringAddr hring _ => ?_
  refine Spec.mmap (fun e => ?_) fun sqesAddr hsqes _ => ?_
  · refine Spec.munmap (List.Perm.refl _) fun _ => Spec.ret fun os hos => ⟨_, _, hos, by simp⟩
  · refine Spec.ret fun os hos => ⟨?_, hring, hsqes⟩
    rw [hown] at hos
    exact hos

/-- How the setup ends does not depend on what the earlier owner held, nor on the groups of
the new descriptor. -/
theorem SetupOutcome.of_groups {own : List Resource} {groups : RawFd → UInt16 → Option UInt64}
    {res : Except Error OsRing} {os : Os} (hg : v.SameGroups groups)
    (h : SetupOutcome { v with own := own, groups := groups } res os) : SetupOutcome v res os := by
  cases res with
  | error e =>
      obtain ⟨rel, groups', denied, hos, hg', hne⟩ := h
      exact ⟨rel, groups', denied, hos, fun fd hfd => (hg' fd hfd).trans (hg fd hfd), hne⟩
  | ok r =>
      obtain ⟨page, groups', hos, hg', hmade⟩ := h
      exact ⟨page, groups', hos, fun fd hfd => (hg' fd hfd).trans (hg fd hfd), hmade⟩

/-- `from_params`, from a process of which nothing is owned yet. -/
theorem fromParams_spec {entries : UInt32} {params : IoUringParams} (hown : v.own = [])
    (hflags : params.flags &&& ~~~SetupFlags.SUPPORTED_MASK.bits = 0) :
    Spec osMachine (OsAt v) (fromParams entries params) (SetupOutcome v) := by
  unfold fromParams
  simp only [hflags, ne_eq, not_true_eq_false, if_false]
  split
  · -- `NO_MMAP`: the memory first, then the ring.
    refine Spec.bind (NoMmapGuard.alloc_spec hown) fun res => ?_
    cases res with
    | error e =>
        refine Spec.ret fun os hos => ?_
        obtain ⟨rel, denied, hos, hne⟩ := hos
        rw [hown] at hos
        exact ⟨rel, v.groups, denied, hos, fun _ _ => rfl, hne⟩
    | ok x =>
        rcases x with ⟨guard, params'⟩
        intro rs os b os' hos hrun
        obtain ⟨hos, hring, hsqes⟩ := hos
        refine Spec.ioUringSetup (v := { v with own := guard.parts }) (fun e => ?_)
          (fun fd params'' groups hg => ?_) rs os b os' hos hrun
        · -- the kernel refuses: the guard gives the memory back
          refine Spec.bind (NoMmapGuard.drop_spec (List.Perm.refl _)) fun _ => ?_
          exact Spec.ret fun os hos => ⟨_, _, _, hos, fun _ _ => rfl, by simp⟩
        · refine Spec.conseq (finishSetup_spec ?_ ?_) (fun _ hos => hos)
            fun _ _ hout => hout.of_groups hg
          · exact ⟨rfl, rfl, rfl, rfl, hring, hsqes, Or.inl ⟨rfl, rfl⟩⟩
          simp only [SetupGuard.parts, SetupGuard.new, MappedRegion.part_of_pos hring,
            MappedRegion.part_of_pos hsqes, MappedRegion.part_absent]
          exact (List.perm_append_singleton _ _).symm
  · -- The ring first, then its mappings, in the care of the guard.
    refine Spec.ioUringSetup (fun e => ?_) fun fd params' groups hg => ?_
    · refine Spec.ret fun os hos => ?_
      rw [hown] at hos
      exact ⟨_, _, _, hos, fun _ _ => rfl, by simp⟩
    · refine Spec.bind (mapRings_spec (by rw [hown])) fun x => ?_
      rcases x with ⟨res, guard⟩
      cases res with
      | error e =>
          intro rs os b os' hos hrun
          -- whatever was mapped before the failure is in the guard, in some order
          obtain ⟨e', own, hos, hperm⟩ := hos
          refine Spec.bind (SetupGuard.drop_spec (g := guard) hperm) (fun _ => ?_)
            rs os b os' hos hrun
          exact Spec.ret fun os hos => ⟨_, _, _, hos, hg, by simp⟩
      | ok rings =>
          intro rs os b os' hos hrun
          obtain ⟨howned, own, hos, hperm⟩ := hos
          exact (finishSetup_spec (v := { v with own := own, groups := groups }) howned hperm
            rs os b os' hos hrun).of_groups hg

/-! ### Registering a pool -/

/-- The loop that populates a pool leaves its registration and its mappings alone. -/
theorem ProvidedBufferRing.populate_parts (p : ProvidedBufferRing) (n : Nat) :
    (p.populate n).fd = p.fd ∧ (p.populate n).bgid = p.bgid ∧
      (p.populate n).ringAddr = p.ringAddr ∧ (p.populate n).parts = p.parts := by
  unfold populate
  induction n with
  | zero => exact ⟨rfl, rfl, rfl, rfl⟩
  | succ n ih =>
      rw [List.range_succ, List.foldl_append]
      exact ih

/-- The address stays mapped when more is mapped. -/
theorem OsView.Holds.cons {addr : Nat} (h : v.Holds addr) (r : Resource) :
    OsView.Holds { v with own := r :: v.own } addr := by
  obtain ⟨m, hm, hle, hlt⟩ := h
  exact ⟨m, List.mem_cons_of_mem _ hm, hle, hlt⟩

/-- How a registration ends: what it mapped is gone again, and the count is as it was, or the
pool owns it and has a share of its own. -/
def RegisterOutcome (v : OsView) (resources : Nat) (bgid : UInt16)
    (res : Except Error ProvidedBufferRing) (os : Os) : Prop :=
  match res with
  | .error _ => ∃ gone denied,
      OsAt { v with rel := v.rel ++ gone, denied := denied } os ∧
        ∀ r ∈ gone, r ∉ v.own ∧ r.Nonempty
  | .ok pool =>
      OsAt { v with
        own := pool.parts ++ v.own
        pages := Function.update v.pages resources (v.pages resources).retain
        groups := withGroup v.groups (v.pages resources).fd bgid
          (some (UInt64.ofNat pool.ringAddr)) } os ∧
      pool.fd = (v.pages resources).fd ∧ pool.bgid = bgid ∧
      v.groups (v.pages resources).fd bgid = none ∧ ∀ r ∈ pool.parts, r.Nonempty

theorem RingResources.retainAt_spec {ptr : Nat} (hptr : v.Holds ptr) :
    Spec osMachine (OsAt v) (retainAt ptr) fun _ =>
      OsAt { v with pages := Function.update v.pages ptr (v.pages ptr).retain } :=
  Spec.fetchAdd hptr (Spec.ret fun _ hos => hos)

/-- `register_provided_buffers_on`, of a ring that is live. -/
theorem registerOn_spec {usizeBits resources : Nat} {bgid : UInt16} {count bufSize : UInt32}
    {flags : PbufRingFlags} (hptr : v.Holds resources)
    (hfd : .file (v.pages resources).fd ∈ v.live) :
    Spec osMachine (OsAt v) (registerOn usizeBits resources bgid count bufSize flags)
      (RegisterOutcome v resources bgid) := by
  -- Nothing was mapped yet.
  have hrefused : ∀ e denied, Spec osMachine (OsAt { v with denied := denied })
      (Prog.ret (.error e)) (RegisterOutcome v resources bgid) := by
    refine fun e denied => Spec.ret fun os hos => ⟨[], denied, ?_, fun r hr => by cases hr⟩
    rw [List.append_nil]
    exact hos
  unfold registerOn RingResources.fdAt
  refine Spec.readPage hptr ?_
  unfold registerProvidedBuffersOn
  split
  · exact hrefused _ v.denied
  split
  · exact hrefused _ v.denied
  split
  · exact hrefused _ v.denied
  split
  · exact hrefused _ v.denied
  split
  · exact hrefused _ v.denied
  rename_i ringBytes _
  refine Spec.mmap (fun e => ?_) fun ringAddr hring hringNew => ?_
  · -- The first mapping fails, so nothing is to be given back.
    exact hrefused _ _
  -- From here on every failure gives back what is mapped by then.
  have hgoneRing : ∀ r ∈ [Resource.mapping ⟨ringAddr, ringBytes⟩], r ∉ v.own ∧ r.Nonempty := by
    simpa [Resource.Nonempty] using ⟨hringNew, hring⟩
  dsimp only
  split
  · exact Spec.munmap (List.Perm.refl _) fun _ => Spec.ret fun os hos => ⟨_, _, hos, hgoneRing⟩
  rename_i bufsBytes _
  refine Spec.mmap (fun e => ?_) fun bufsAddr hbufs hbufsNew => ?_
  · exact Spec.munmap (List.Perm.refl _) fun _ => Spec.ret fun os hos => ⟨_, _, hos, hgoneRing⟩
  have hgone : ∀ r ∈ [Resource.mapping ⟨bufsAddr, bufsBytes⟩, .mapping ⟨ringAddr, ringBytes⟩],
      r ∉ v.own ∧ r.Nonempty := by
    intro r hr
    rcases List.mem_cons.mp hr with rfl | hr
    · exact ⟨fun hmem => hbufsNew (List.mem_cons_of_mem _ hmem), hbufs⟩
    · exact hgoneRing r hr
  refine Spec.registerPbufRing (List.mem_cons_of_mem _ (List.mem_cons_of_mem _ hfd))
    (fun e => ?_) fun n hfree => ?_
  · refine Spec.munmap (List.Perm.refl _) fun _ => Spec.munmap (List.Perm.refl _) fun _ => ?_
    refine Spec.ret fun os hos => ⟨_, v.denied ++ [e], ?_, hgone⟩
    simp only [List.append_assoc] at hos
    exact hos
  -- The pool has both mappings and takes its share.
  refine Spec.fetchAdd ((hptr.cons _).cons _) ?_
  obtain ⟨hpfd, hpbgid, hpring, hparts⟩ := ProvidedBufferRing.populate_parts
    (ProvidedBufferRing.mapped (v.pages resources).fd bgid count bufSize ringAddr ringBytes
      bufsAddr bufsBytes) count.toNat
  refine Spec.ret fun os hos => ⟨?_, hpfd, hpbgid, hfree, fun r hr => ?_⟩
  · show OsAt { v with
      own := (ProvidedBufferRing.populate _ _).parts ++ v.own
      pages := _
      groups := withGroup v.groups (v.pages resources).fd bgid
        (some (UInt64.ofNat (ProvidedBufferRing.populate _ _).ringAddr)) } os
    rw [hparts, hpring]
    exact hos
  · have hr : r ∈ (ProvidedBufferRing.populate _ _).parts := hr
    rw [hparts] at hr
    exact (hgone r hr).2

end Specs

/-! ### What is left behind -/

/-- Between two moments everything that was acquired was released, each once, and nothing else
was released, used or changed. -/
structure Os.Restored (os os' : Os) : Prop where
  live : os'.ledger.live.Perm os.ledger.live
  once : ∃ acq rel, os'.ledger.acquired = os.ledger.acquired ++ acq ∧
    os'.ledger.released = os.ledger.released ++ rel ∧ acq.Perm rel
  strays : os'.ledger.strays = os.ledger.strays
  faults : os'.faults = os.faults
  pages : os'.pages = os.pages
  groups : ∀ fd, .file fd ∈ os.ledger.live → os'.groups fd = os.groups fd

/-- Between two moments `parts` was acquired, and nothing was released; no call failed. -/
structure Os.Gained (os os' : Os) (parts : List Resource) : Prop where
  live : os'.ledger.live.Perm (parts ++ os.ledger.live)
  acquired : ∃ acq, os'.ledger.acquired = os.ledger.acquired ++ acq ∧ acq.Perm parts
  released : os'.ledger.released = os.ledger.released
  strays : os'.ledger.strays = os.ledger.strays
  faults : os'.faults = os.faults
  denied : os'.denied = os.denied

/-- The page at `resources` is mapped and its descriptor is open, as the callers of
`register_provided_buffers_on` guarantee. -/
def Os.RingLive (os : Os) (resources : Nat) : Prop :=
  os.isMapped resources = true ∧ os.isOpen (os.pages resources).fd = true

theorem Os.restored_of_at {os os' : Os} {rel : List Resource}
    {groups : RawFd → UInt16 → Option UInt64} {denied : List Errno}
    (h : OsAt { os.view with rel := rel, groups := groups, denied := denied } os')
    (hg : os.view.SameGroups groups) : os.Restored os' := by
  obtain ⟨hlive, acq, hacq, hrel, hperm⟩ := h.since.done
  exact ⟨hlive, ⟨acq, rel, hacq, hrel, hperm⟩, h.since.strays, h.faults, h.pages,
    fun fd hfd => h.groups ▸ hg fd hfd⟩

theorem Os.gained_of_at {os os' : Os} {parts : List Resource} {pages : Nat → RingResources}
    {groups : RawFd → UInt16 → Option UInt64}
    (h : OsAt { os.view with own := parts, pages := pages, groups := groups } os') :
    os.Gained os' parts :=
  ⟨h.since.live, h.since.acquired, h.since.released.trans (List.append_nil _), h.since.strays,
    h.faults, h.denied⟩

theorem Os.RingLive.holds {os : Os} {resources : Nat} (h : os.RingLive resources) :
    os.view.Holds resources := by
  obtain ⟨r, hr, hin⟩ := List.any_eq_true.mp h.1
  cases r with
  | mapping m => exact ⟨m, hr, of_decide_eq_true hin⟩
  | file fd => cases hin

/-- Flags that are not supported are refused before the first call. -/
theorem fromParams_unsupported {entries : UInt32} {params : IoUringParams} {rs : List OsRound}
    {os os' : Os} {res : Except Error OsRing}
    (hflags : params.flags &&& ~~~SetupFlags.SUPPORTED_MASK.bits ≠ 0)
    (h : (fromParams entries params).run osMachine rs os = some (res, os')) :
    os' = os ∧ ∃ e, res = .error e := by
  unfold fromParams at h
  rw [if_pos hflags] at h
  obtain ⟨-, rfl, rfl⟩ := Prog.run_ret.mp h
  exact ⟨rfl, _, rfl⟩

theorem Os.restored_refl (os : Os) : os.Restored os :=
  Os.restored_of_at os.at_view fun _ _ => rfl

/-- A `from_params` leaves nothing behind when it fails, and the parts of its ring when it does
not; it fails when the flags are unsupported or a call is denied. -/
theorem fromParams_leaves {os os' : Os} {entries : UInt32} {params : IoUringParams}
    {rs : List OsRound} {res : Except Error OsRing}
    (hrun : (fromParams entries params).run osMachine rs os = some (res, os')) :
    (∀ e, res = .error e → os.Restored os') ∧
      (∀ r, res = .ok r → ∃ page, os.Gained os' page.parts ∧ page.Made r ∧
        os'.pages = Function.update os.pages r.resources page) ∧
      ((∃ e, res = .error e) ↔
        params.flags &&& ~~~SetupFlags.SUPPORTED_MASK.bits ≠ 0 ∨ os'.denied ≠ os.denied) := by
  by_cases hflags : params.flags &&& ~~~SetupFlags.SUPPORTED_MASK.bits = 0
  · have hout := fromParams_spec rfl hflags rs os res os' os.at_view hrun
    cases res with
    | error e =>
        -- all parts were given back, and the call that failed was denied
        obtain ⟨rel, groups, denied, hos, hg, hne⟩ := hout
        refine ⟨fun _ _ => Os.restored_of_at hos hg, fun r hr => (by cases hr), ?_⟩
        exact ⟨fun _ => Or.inr (by rw [hos.denied]; exact hne), fun _ => ⟨e, rfl⟩⟩
    | ok r =>
        obtain ⟨page, groups, hos, -, hmade⟩ := hout
        have hgained := Os.gained_of_at hos
        refine ⟨fun e he => (by cases he), ?_, ?_⟩
        · rintro _ ⟨⟩
          exact ⟨page, hgained, hmade, hos.pages⟩
        · constructor
          · rintro ⟨e, he⟩
            cases he
          · rintro (h | h)
            · exact absurd hflags h
            · exact absurd hgained.denied h
  · -- Unsupported flags are refused before the first call.
    obtain ⟨rfl, e, rfl⟩ := fromParams_unsupported hflags hrun
    exact ⟨fun _ _ => os'.restored_refl, fun r hr => (by cases hr),
      fun _ => Or.inl hflags, fun _ => ⟨e, rfl⟩⟩

/-- A registration leaves nothing behind when it fails, not even a share of the ring, and the
parts of its pool when it does not. -/
theorem registerOn_leaves {usizeBits : Nat} {os os' : Os} {resources : Nat} {bgid : UInt16}
    {count bufSize : UInt32} {flags : PbufRingFlags} {rs : List OsRound}
    {res : Except Error ProvidedBufferRing} (hlive : os.RingLive resources)
    (hrun : (registerOn usizeBits resources bgid count bufSize flags).run osMachine rs os
      = some (res, os')) :
    (∀ e, res = .error e → os.Restored os') ∧
      (∀ pool, res = .ok pool → os.Gained os' pool.parts ∧
        os'.pages = Function.update os.pages resources (os.pages resources).retain) := by
  have hout := registerOn_spec hlive.holds (of_decide_eq_true hlive.2) rs os res os' os.at_view
    hrun
  cases res with
  | error e =>
      obtain ⟨gone, denied, hos, -⟩ := hout
      exact ⟨fun _ _ => Os.restored_of_at hos fun _ _ => rfl, fun pool hp => (by cases hp)⟩
  | ok pool =>
      obtain ⟨hos, -⟩ := hout
      rw [show os.view.own = [] from rfl, List.append_nil] at hos
      refine ⟨fun e he => (by cases he), ?_⟩
      rintro _ ⟨⟩
      exact ⟨Os.gained_of_at hos, hos.pages⟩

/-- A `from_params` that returns `Err` has released everything it acquired, once, and touched
nothing else, and it returns `Err` whenever a call fails. A `register_provided_buffers_on` that
returns `Err` also leaves the count of the ring as it was. On success neither has released
anything. -/
theorem setup_failure_leaves_nothing (usizeBits : Nat) :
    (∀ (os os' : Os) (entries : UInt32) (params : IoUringParams) (rs : List OsRound)
        (res : Except Error OsRing),
      (fromParams entries params).run osMachine rs os = some (res, os') →
        (∀ e, res = .error e → os.Restored os') ∧
        (∀ r, res = .ok r → ∃ page, os.Gained os' page.parts ∧ page.Made r ∧
          os'.pages = Function.update os.pages r.resources page) ∧
        ((∃ e, res = .error e) ↔
          params.flags &&& ~~~SetupFlags.SUPPORTED_MASK.bits ≠ 0 ∨ os'.denied ≠ os.denied)) ∧
    (∀ (os os' : Os) (resources : Nat) (bgid : UInt16) (count bufSize : UInt32)
        (flags : PbufRingFlags) (rs : List OsRound) (res : Except Error ProvidedBufferRing),
      os.RingLive resources →
      (registerOn usizeBits resources bgid count bufSize flags).run osMachine rs os
        = some (res, os') →
        (∀ e, res = .error e → os.Restored os') ∧
        (∀ pool, res = .ok pool → os.Gained os' pool.parts ∧
          os'.pages = Function.update os.pages resources (os.pages resources).retain)) := by
  constructor
  · intro os os' entries params rs res hrun
    exact fromParams_leaves hrun
  · intro os os' resources bgid count bufSize flags rs res hlive hrun
    exact registerOn_leaves hlive hrun

/-! ### A setup and a registration that fail -/

/-- A process that owns nothing yet. -/
def emptyOs : Os where
  ledger := ⟨[], [], [], []⟩
  pages := fun _ => ⟨0, ⟨0⟩, ⟨0, 0⟩, ⟨0, 0⟩, ⟨0, 0⟩, ⟨0, 0⟩⟩
  groups := fun _ _ => none
  denied := []
  faults := 0

def plainParams : IoUringParams where
  sqEntries := 0
  cqEntries := 0
  flags := 0
  features := 0
  sqOff := ⟨0, 0⟩
  cqOff := ⟨0, 0⟩

/-- What a kernel without `SINGLE_MMAP` fills in for eight entries. -/
def dualParams : IoUringParams :=
  { plainParams with sqEntries := 8, cqEntries := 16, sqOff := ⟨64, 0⟩, cqOff := ⟨64, 0⟩ }

/-- A process with one ring: its page and its descriptor. -/
def ringOs : Os :=
  { emptyOs with
    ledger := ⟨[.mapping ⟨4096, 4096⟩, .file ⟨3⟩], [.mapping ⟨4096, 4096⟩, .file ⟨3⟩], [], []⟩
    pages := fun _ => ⟨1, ⟨3⟩, ⟨8192, 96⟩, ⟨0, 0⟩, ⟨12288, 512⟩, ⟨4096, 4096⟩⟩ }

/-- The third mapping of a ring with two ring mappings fails. -/
def sqesFail : List OsRound :=
  answers [.ring ⟨3⟩ dualParams, .mapped 4096, .mapped 8192, .fail ⟨12⟩, .done, .done, .done]

/-- The group id is taken. -/
def registerFail : List OsRound :=
  answers [.done, .mapped 16384, .mapped 20480, .fail ⟨17⟩, .done, .done]

theorem setup_failure_at_sqes :
    (∃ os', (fromParams 8 plainParams).run osMachine sqesFail emptyOs
        = some (.error (.syscall ⟨12⟩), os') ∧ emptyOs.Restored os') ∧
      ∃ os', (registerOn 64 4096 7 2 64 .empty).run osMachine registerFail ringOs
        = some (.error (.setup (.syscall ⟨17⟩)), os') ∧ ringOs.Restored os' :=
  ⟨⟨_, rfl, ((setup_failure_leaves_nothing 64).1 emptyOs _ 8 plainParams sqesFail _ rfl).1 _ rfl⟩,
    ⟨_, rfl, ((setup_failure_leaves_nothing 64).2 ringOs _ 4096 7 2 64 .empty registerFail _
      ⟨rfl, rfl⟩ rfl).1 _ rfl⟩⟩

end Ququmatz
