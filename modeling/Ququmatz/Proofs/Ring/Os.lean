import Ququmatz.Ring.Os

/-!
# `Ququmatz.Proofs.Ring.Os`: rules for the calls that manage resources

`OsView` is what a proof knows of the process: how its ledger differs from the one at some
earlier moment, and the rest of its state. `OsAt v os` says that the process is as `v` says.
For each call there is one rule for programs that begin with it, and the rule of a call that
uses a page or gives something back asks that the view owns it. So a program that is proved
with these rules makes no fault and no stray.
-/

set_option autoImplicit false

namespace Ququmatz

open Lib

/-- The process, seen from an earlier ledger `base`. -/
structure OsView where
  base : Ledger Resource
  /-- What was released since. -/
  rel : List Resource
  /-- What was acquired since and is live. -/
  own : List Resource
  pages : Nat → RingResources
  groups : RawFd → UInt16 → Option UInt64
  denied : List Errno
  faults : Nat

/-- The process is as the view says. -/
structure OsAt (v : OsView) (os : Os) : Prop where
  since : Ledger.Since v.base v.rel v.own os.ledger
  pages : os.pages = v.pages
  groups : os.groups = v.groups
  denied : os.denied = v.denied
  faults : os.faults = v.faults

/-- The view of a process as it stands. -/
def Os.view (os : Os) : OsView where
  base := os.ledger
  rel := []
  own := []
  pages := os.pages
  groups := os.groups
  denied := os.denied
  faults := os.faults

theorem Os.at_view (os : Os) : OsAt os.view os := ⟨.refl _, rfl, rfl, rfl, rfl⟩

/-- What is live: what the view owns, and what was live before. -/
def OsView.live (v : OsView) : List Resource := v.own ++ v.base.live

/-- The address lies in a live mapping. -/
def OsView.Holds (v : OsView) (addr : Nat) : Prop :=
  ∃ m : MappedRegion, .mapping m ∈ v.live ∧ m.addr ≤ addr ∧ addr < m.addr + m.len

/-- The groups of the descriptors that were open before are as they were. -/
def OsView.SameGroups (v : OsView) (groups : RawFd → UInt16 → Option UInt64) : Prop :=
  ∀ fd, .file fd ∈ v.base.live → groups fd = v.groups fd

/-- The groups, with another registration under one group id of one descriptor. -/
def withGroup (groups : RawFd → UInt16 → Option UInt64) (fd : RawFd) (bgid : UInt16)
    (reg : Option UInt64) : RawFd → UInt16 → Option UInt64 :=
  fun g b => if g = fd ∧ b = bgid then reg else groups g b

/-- What is used is there, so its use leaves no trace. -/
@[simp] theorem Os.require_true (os : Os) : os.require true = os := if_pos rfl

namespace OsAt

variable {v : OsView} {os : Os}

theorem perm (h : OsAt v os) {own : List Resource} (hp : v.own.Perm own) :
    OsAt { v with own := own } os :=
  ⟨h.since.perm hp, h.pages, h.groups, h.denied, h.faults⟩

theorem isMapped (h : OsAt v os) {addr : Nat} (ha : v.Holds addr) : os.isMapped addr = true := by
  obtain ⟨m, hm, hle, hlt⟩ := ha
  refine List.any_eq_true.mpr ⟨.mapping m, h.since.live.mem_iff.mpr hm, ?_⟩
  exact decide_eq_true ⟨hle, hlt⟩

theorem isOpen (h : OsAt v os) {fd : RawFd} (hfd : .file fd ∈ v.live) : os.isOpen fd = true :=
  decide_eq_true (h.since.live.mem_iff.mpr hfd)

theorem deny (h : OsAt v os) (e : Errno) :
    OsAt { v with denied := v.denied ++ [e] } (os.deny e) :=
  ⟨h.since, h.pages, h.groups, congrArg (· ++ [e]) h.denied, h.faults⟩

theorem acquire (h : OsAt v os) {r : Resource} (hr : r ∉ os.ledger.live) :
    OsAt { v with own := r :: v.own } (os.acquire r) :=
  ⟨h.since.acquire hr, h.pages, h.groups, h.denied, h.faults⟩

theorem release (h : OsAt v os) {r : Resource} {rest : List Resource}
    (hown : v.own.Perm (r :: rest)) :
    OsAt { v with rel := v.rel ++ [r], own := rest } (os.release r) := by
  have hs := (h.since.perm hown).release List.mem_cons_self
  rw [List.erase_cons_head] at hs
  exact ⟨hs, h.pages, h.groups, h.denied, h.faults⟩

theorem setPage (h : OsAt v os) (ptr : Nat) (resources : RingResources) :
    OsAt { v with pages := Function.update v.pages ptr resources }
      (os.setPage ptr resources) := by
  refine ⟨h.since, ?_, h.groups, h.denied, h.faults⟩
  show Function.update os.pages ptr resources = _
  rw [h.pages]

theorem setGroup (h : OsAt v os) (fd : RawFd) (bgid : UInt16) (reg : Option UInt64) :
    OsAt { v with groups := withGroup v.groups fd bgid reg } (os.setGroup fd bgid reg) := by
  refine ⟨h.since, h.pages, ?_, h.denied, h.faults⟩
  show withGroup os.groups fd bgid reg = _
  rw [h.groups]

end OsAt

/-- A mapping that lies apart from all live ones is not one of them. -/
theorem Os.not_mem_of_apart {os : Os} {region : MappedRegion} (hlen : 0 < region.len)
    (h : os.apart region = true) : .mapping region ∉ os.ledger.live := by
  intro hmem
  have := List.all_eq_true.mp h _ hmem
  simp only [decide_eq_true_eq] at this
  omega

/-! ### The rules -/

section Rules

variable {α : Type} {Q : α → Os → Prop} {v : OsView}

/-- One call: whatever the kernel answers, the rest of the program meets `Q` from there. -/
theorem Spec.osCall {P : Os → Prop} {c : OsCall} {f : c.Ans → OsProg α}
    (h : ∀ reply os x os', P os → Os.access c reply os = some (x, os') →
      ∃ P' : Os → Prop, P' os' ∧ Spec osMachine P' (f x) Q) :
    Spec osMachine P (call c >>= f) Q := by
  intro rs os b os' hos hrun
  obtain ⟨r, rs', os1, x, os2, -, hb, hacc, hr⟩ := Prog.run_op.mp hrun
  have hsame : os1 = os := by
    cases hbefore : r.before with
    | nil =>
        rw [hbefore] at hb
        cases hb
        rfl
    | cons e _ => exact e.elim
  subst hsame
  obtain ⟨P', hP', hspec⟩ := h r.reply os1 x os2 hos hacc
  exact hspec rs' os2 b os' hP' hr

/-- A new mapping has a length, and is none of those that the view owns. -/
theorem Spec.mmap {len : Nat} {backing : Backing} {f : Except Errno Nat → OsProg α}
    (hfail : ∀ e, Spec osMachine (OsAt { v with denied := v.denied ++ [e] }) (f (.error e)) Q)
    (hok : ∀ addr, 0 < len → .mapping ⟨addr, len⟩ ∉ v.own →
      Spec osMachine (OsAt { v with own := .mapping ⟨addr, len⟩ :: v.own }) (f (.ok addr)) Q) :
    Spec osMachine (OsAt v) (call (.mmap len backing) >>= f) Q := by
  refine Spec.osCall fun reply os x os' hos hacc => ?_
  simp only [Os.access] at hacc
  split at hacc
  · cases hacc
    exact ⟨_, hos.deny _, hfail _⟩
  · split at hacc
    · rename_i hc
      cases hacc
      have hnew := hos.acquire (Os.not_mem_of_apart hc.1 hc.2.1)
      exact ⟨_, hnew, hok _ hc.1 (List.nodup_cons.mp hnew.since.nodup).1⟩
    · cases hacc
  · cases hacc

/-- A successful setup opens a descriptor, and clears the groups of its number only. -/
theorem Spec.ioUringSetup {entries : UInt32} {params : IoUringParams}
    {f : Except Errno (RawFd × IoUringParams) → OsProg α}
    (hfail : ∀ e, Spec osMachine (OsAt { v with denied := v.denied ++ [e] }) (f (.error e)) Q)
    (hok : ∀ fd params' groups, v.SameGroups groups → Spec osMachine
      (OsAt { v with own := .file fd :: v.own, groups := groups }) (f (.ok (fd, params'))) Q) :
    Spec osMachine (OsAt v) (call (.ioUringSetup entries params) >>= f) Q := by
  refine Spec.osCall fun reply os x os' hos hacc => ?_
  simp only [Os.access] at hacc
  split at hacc
  · cases hacc
    exact ⟨_, hos.deny _, hfail _⟩
  · split at hacc
    · cases hacc
    · rename_i fd params' hopen
      cases hacc
      have hnew := hos.acquire (of_decide_eq_false (Bool.eq_false_iff.mpr hopen))
      have hsame : v.SameGroups fun g b => if g = fd then none else os.groups g b := by
        -- The new descriptor was not open before.
        intro g hg
        have hne : g ≠ fd := by
          rintro rfl
          exact hnew.since.fresh _ List.mem_cons_self hg
        funext b
        simp only [if_neg hne, hos.groups]
      exact ⟨_, ⟨hnew.since, hnew.pages, rfl, hnew.denied, hnew.faults⟩, hok fd params' _ hsame⟩
  · cases hacc

/-- To give back what the view owns. -/
theorem Os.giveBack_cases {os os' : Os} {r : Resource} {reply : OsReply} {x : Except Errno Nat}
    (hlive : r ∈ os.ledger.live) (h : os.giveBack r reply = some (x, os')) :
    os' = os.release r := by
  unfold Os.giveBack at h
  split at h
  · cases h
    rfl
  · rw [if_pos hlive] at h
    cases h
  · cases h

theorem Spec.munmap {addr len : Nat} {f : Except Errno Nat → OsProg α} {rest : List Resource}
    (hown : v.own.Perm (.mapping ⟨addr, len⟩ :: rest))
    (hf : ∀ x, Spec osMachine
      (OsAt { v with rel := v.rel ++ [.mapping ⟨addr, len⟩], own := rest }) (f x) Q) :
    Spec osMachine (OsAt v) (call (.munmap addr len) >>= f) Q := by
  refine Spec.osCall fun reply os x os' hos hacc => ?_
  have hlive := hos.since.mem_live (hown.mem_iff.mpr List.mem_cons_self)
  cases Os.giveBack_cases hlive hacc
  exact ⟨_, hos.release hown, hf x⟩

theorem Spec.close {fd : RawFd} {f : Except Errno Nat → OsProg α} {rest : List Resource}
    (hown : v.own.Perm (.file fd :: rest))
    (hf : ∀ x, Spec osMachine
      (OsAt { v with rel := v.rel ++ [.file fd], own := rest }) (f x) Q) :
    Spec osMachine (OsAt v) (call (.close fd) >>= f) Q := by
  refine Spec.osCall fun reply os x os' hos hacc => ?_
  have hlive := hos.since.mem_live (hown.mem_iff.mpr List.mem_cons_self)
  cases Os.giveBack_cases hlive hacc
  exact ⟨_, hos.release hown, hf x⟩

/-- A group id takes a registration when it has none. -/
theorem Spec.registerPbufRing {fd : RawFd} {reg : IoUringBufReg}
    {f : Except Errno Nat → OsProg α} (hfd : .file fd ∈ v.live)
    (hfail : ∀ e, Spec osMachine (OsAt { v with denied := v.denied ++ [e] }) (f (.error e)) Q)
    (hok : ∀ n, v.groups fd reg.bgid = none → Spec osMachine
      (OsAt { v with groups := withGroup v.groups fd reg.bgid (some reg.ringAddr) })
      (f (.ok n)) Q) :
    Spec osMachine (OsAt v) (call (.registerPbufRing fd reg) >>= f) Q := by
  refine Spec.osCall fun reply os x os' hos hacc => ?_
  simp only [Os.access, hos.isOpen hfd, Os.require_true] at hacc
  split at hacc
  · cases hacc
    exact ⟨_, hos.deny _, hfail _⟩
  · split at hacc
    · rename_i hc
      cases hacc
      exact ⟨_, hos.setGroup _ _ _, hok _ (hos.groups ▸ hc.2)⟩
    · cases hacc
  · cases hacc

/-- A group id that has a registration loses it, whosever it is. -/
theorem Spec.unregisterPbufRing {fd : RawFd} {bgid : UInt16} {f : Except Errno Nat → OsProg α}
    (hfd : .file fd ∈ v.live)
    (hnone : ∀ e, v.groups fd bgid = none →
      Spec osMachine (OsAt { v with denied := v.denied ++ [e] }) (f (.error e)) Q)
    (hsome : ∀ n reg, v.groups fd bgid = some reg → Spec osMachine
      (OsAt { v with groups := withGroup v.groups fd bgid none }) (f (.ok n)) Q) :
    Spec osMachine (OsAt v) (call (.unregisterPbufRing fd bgid) >>= f) Q := by
  refine Spec.osCall fun reply os x os' hos hacc => ?_
  simp only [Os.access, hos.isOpen hfd, Os.require_true, Bool.true_and] at hacc
  -- the kernel denies the call exactly when the id is free
  cases hg : v.groups fd bgid with
  | none =>
      have hempty : (os.groups fd bgid).isSome = false := by rw [hos.groups, hg]; rfl
      rw [hempty] at hacc
      split at hacc
      · cases hacc
        exact ⟨_, hos.deny _, hnone _ hg⟩
      · cases hacc
      · cases hacc
  | some reg =>
      have htaken : (os.groups fd bgid).isSome = true := by rw [hos.groups, hg]; rfl
      rw [htaken] at hacc
      split at hacc
      · cases hacc
      · cases hacc
        exact ⟨_, hos.setGroup _ _ _, hsome _ reg hg⟩
      · cases hacc

theorem Spec.parseRings {sqRing cqRing : Nat} {params : IoUringParams} {sqArray : Bool}
    {f : ParsedRings → OsProg α} (hsq : v.Holds sqRing) (hcq : v.Holds cqRing)
    (hf : ∀ x, Spec osMachine (OsAt v) (f x) Q) :
    Spec osMachine (OsAt v) (call (.parseRings sqRing cqRing params sqArray) >>= f) Q := by
  refine Spec.osCall fun reply os x os' hos hacc => ?_
  have hpresent : (os.isMapped sqRing && os.isMapped cqRing) = true := by
    rw [hos.isMapped hsq, hos.isMapped hcq]
    rfl
  simp only [Os.access, hpresent, Os.require_true] at hacc
  split at hacc <;> cases hacc
  exact ⟨_, hos, hf _⟩

theorem Spec.cqHeadStore {cqRing : Nat} {f : Unit → OsProg α} (hcq : v.Holds cqRing)
    (hf : Spec osMachine (OsAt v) (f ()) Q) :
    Spec osMachine (OsAt v) (call (.storeCqHead cqRing) >>= f) Q := by
  refine Spec.osCall fun reply os x os' hos hacc => ?_
  simp only [Os.access, hos.isMapped hcq, Os.require_true] at hacc
  split at hacc <;> cases hacc
  exact ⟨_, hos, hf⟩

theorem Spec.writePage {ptr : Nat} {resources : RingResources} {f : Unit → OsProg α}
    (hptr : v.Holds ptr)
    (hf : Spec osMachine (OsAt { v with pages := Function.update v.pages ptr resources })
      (f ()) Q) :
    Spec osMachine (OsAt v) (call (.writePage ptr resources) >>= f) Q := by
  refine Spec.osCall fun reply os x os' hos hacc => ?_
  simp only [Os.access, hos.isMapped hptr, Os.require_true] at hacc
  split at hacc <;> cases hacc
  exact ⟨_, hos.setPage _ _, hf⟩

theorem Spec.readPage {ptr : Nat} {f : RingResources → OsProg α} (hptr : v.Holds ptr)
    (hf : Spec osMachine (OsAt v) (f (v.pages ptr)) Q) :
    Spec osMachine (OsAt v) (call (.readPage ptr) >>= f) Q := by
  refine Spec.osCall fun reply os x os' hos hacc => ?_
  simp only [Os.access, hos.isMapped hptr, Os.require_true, hos.pages] at hacc
  split at hacc <;> cases hacc
  exact ⟨_, hos, hf⟩

theorem Spec.fetchAdd {ptr : Nat} {f : Nat → OsProg α} (hptr : v.Holds ptr)
    (hf : Spec osMachine (OsAt { v with pages := Function.update v.pages ptr (v.pages ptr).retain })
      (f (v.pages ptr).refcount) Q) :
    Spec osMachine (OsAt v) (call (.fetchAdd ptr) >>= f) Q := by
  refine Spec.osCall fun reply os x os' hos hacc => ?_
  simp only [Os.access, hos.isMapped hptr, Os.require_true, hos.pages] at hacc
  split at hacc <;> cases hacc
  exact ⟨_, hos.setPage _ _, hf⟩

theorem Spec.fetchSub {ptr : Nat} {f : Nat → OsProg α} (hptr : v.Holds ptr)
    (hf : Spec osMachine
      (OsAt { v with pages := Function.update v.pages ptr (v.pages ptr).released })
      (f (v.pages ptr).refcount) Q) :
    Spec osMachine (OsAt v) (call (.fetchSub ptr) >>= f) Q := by
  refine Spec.osCall fun reply os x os' hos hacc => ?_
  simp only [Os.access, hos.isMapped hptr, Os.require_true, hos.pages] at hacc
  split at hacc <;> cases hacc
  exact ⟨_, hos.setPage _ _, hf⟩

end Rules

end Ququmatz
