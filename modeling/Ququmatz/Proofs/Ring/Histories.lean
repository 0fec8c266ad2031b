import Ququmatz.Proofs.Ring.Queues

/-!
# `Ququmatz.Proofs.Ring.Histories`: what no program can break

The histories of a `World` only grow, and the kernel alone extends `consumed` and `posted`.
So some facts hold across every program, whatever handle it works on.
`ringMachine_invariant` is the rule for them: a fact that the kernel's read of one SQE and
its posting of one CQE keep, and that no other access can touch, is an invariant of the
machine. `World.Grows`, `World.Authentic` and `World.Orderly` are such facts.
-/

set_option autoImplicit false

namespace Ququmatz

open Lib

/-- `w'` differs from `w` in nothing that the kernel's requests and completions depend on;
the crate's own histories may have grown. -/
structure World.SameRequests (w w' : World) : Prop where
  consumed : w'.consumed = w.consumed
  posted : w'.posted = w.posted
  params : w'.params = w.params
  fd : w'.resources.fd = w.resources.fd
  written : w.written <+: w'.written
  read : w.read <+: w'.read

section Rule

variable {I : World → Prop}
  (hconsume : ∀ w w', I w → w.consumeOne = some w' → I w')
  (hpost : ∀ w w' o cqe, I w → w.post o cqe = some w' → I w')
  (hrest : ∀ w w', I w → w.SameRequests w' → I w')

include hconsume

include hpost hrest in
private theorem env_keeps {k : KStep} {w w' : World} (hw : I w) (hk : w.env k = some w') :
    I w' := by
  rcases World.env_cases hk with ⟨-, -, hc⟩ | ⟨o, cqe, -, hp⟩ | ⟨x, -, rfl⟩
  · exact hconsume w w' hw hc
  · exact hpost w w' o cqe hw hp
  · exact hrest w _ hw ⟨rfl, rfl, rfl, rfl, List.prefix_rfl, List.prefix_rfl⟩

private theorem takeEntries_keeps {n : Nat} {w w' : World} (hw : I w)
    (ht : w.takeEntries n = some w') : I w' := by
  unfold World.takeEntries at ht
  by_cases hpoll : w.sqpoll = true
  · rw [if_pos hpoll] at ht
    cases ht
    exact hw
  · rw [if_neg hpoll] at ht
    -- The number of entries does not matter, only that each is one read.
    clear hpoll
    induction n generalizing w with
    | zero =>
        cases ht
        exact hw
    | succ n ih =>
        obtain ⟨w1, h1, h2⟩ := Option.bind_eq_some_iff.mp ht
        exact ih (hconsume w w1 hw h1) h2

include hpost hrest in
/-- The rule for facts about the kernel's requests and completions. -/
theorem ringMachine_invariant : ringMachine.Invariant I where
  env := fun _ _ _ hw hk => env_keeps hconsume hpost hrest hw hk
  access := by
    intro a r w x w' hw ha
    have hsteps : ∀ ks w w', I w → envSteps World.env ks w = some w' → I w' :=
      fun ks => envSteps_keeps (fun _ _ _ hw hk => env_keeps hconsume hpost hrest hw hk) ks
    -- a load changes nothing, any other access but `enter` at most extends a history
    cases a with
    | loadSqHead =>
        obtain ⟨-, -, rfl⟩ := World.access_loadSqHead.mp ha
        exact hw
    | storeSqTail v =>
        obtain ⟨-, -, rfl⟩ := World.access_storeSqTail.mp ha
        exact hrest w _ hw ⟨rfl, rfl, rfl, rfl, List.prefix_rfl, List.prefix_rfl⟩
    | loadSqFlags =>
        obtain ⟨-, -, rfl⟩ := World.access_loadSqFlags.mp ha
        exact hw
    | writeSqe idx sqe =>
        obtain ⟨-, -, rfl⟩ := World.access_writeSqe.mp ha
        exact hrest w _ hw ⟨rfl, rfl, rfl, rfl, List.prefix_append _ _, List.prefix_rfl⟩
    | loadCqTail =>
        obtain ⟨-, -, rfl⟩ := World.access_loadCqTail.mp ha
        exact hw
    | readCqe idx =>
        obtain ⟨-, -, rfl⟩ := World.access_readCqe.mp ha
        exact hrest w _ hw ⟨rfl, rfl, rfl, rfl, List.prefix_rfl, List.prefix_append _ _⟩
    | storeCqHead v =>
        obtain ⟨-, -, rfl⟩ := World.access_storeCqHead.mp ha
        exact hrest w _ hw ⟨rfl, rfl, rfl, rfl, List.prefix_rfl, List.prefix_rfl⟩
    | enter fd toSubmit minComplete flags =>
        obtain ⟨e, -, he⟩ := World.access_enter.mp ha
        -- the call takes entries, and then the kernel goes on by itself
        rcases World.enter_cases he with ⟨_, -, -, hs⟩ | ⟨n, w1, -, -, -, ht, hs⟩
        · exact hsteps _ w w' hw hs
        · exact hsteps _ w1 w' (takeEntries_keeps hconsume hw ht) hs
    | retain =>
        obtain ⟨-, -, rfl⟩ := World.access_retain.mp ha
        exact hrest w _ hw ⟨rfl, rfl, rfl, rfl, List.prefix_rfl, List.prefix_rfl⟩
    | release =>
        obtain ⟨-, -, rfl⟩ := World.access_release.mp ha
        exact hrest w _ hw ⟨rfl, rfl, rfl, rfl, List.prefix_rfl, List.prefix_rfl⟩

end Rule

/-- What the kernel's read of one SQE changes, without any knowledge of the queue. -/
theorem World.consumeOne_some {w w' : World} (h : w.consumeOne = some w') :
    w' = { w with sqHead := w.sqHead + 1, consumed := w.consumed ++ [w.sqes w.sqIndex] } := by
  unfold World.consumeOne at h
  split at h
  · exact absurd h (by simp)
  · exact (Option.some.inj h).symm

/-! ### The histories grow -/

/-- Every history of `w` is a prefix of the same history of `w'`. -/
structure World.Grows (w w' : World) : Prop where
  written : w.written <+: w'.written
  consumed : w.consumed <+: w'.consumed
  posted : w.posted <+: w'.posted
  read : w.read <+: w'.read
  fd : w'.resources.fd = w.resources.fd

theorem World.Grows.refl (w : World) : w.Grows w :=
  ⟨List.prefix_rfl, List.prefix_rfl, List.prefix_rfl, List.prefix_rfl, rfl⟩

theorem World.Grows.trans {w1 w2 w3 : World} (h : w1.Grows w2) (h' : w2.Grows w3) :
    w1.Grows w3 :=
  ⟨h.written.trans h'.written, h.consumed.trans h'.consumed, h.posted.trans h'.posted,
    h.read.trans h'.read, h'.fd.trans h.fd⟩

/-- Nothing removes an entry from a history. -/
theorem grows_invariant (w0 : World) : ringMachine.Invariant (World.Grows w0) := by
  refine ringMachine_invariant ?_ ?_ ?_
  · intro w w' hw hc
    have := World.consumeOne_some hc
    subst this
    exact { hw with consumed := hw.consumed.trans (List.prefix_append _ _) }
  · intro w w' o cqe hw hp
    obtain ⟨-, -, rfl⟩ := CqAt.post_eq hp
    exact { hw with posted := hw.posted.trans (List.prefix_append _ _) }
  · intro w w' hw hs
    -- The crate itself extends only `written` and `read`.
    exact ⟨hw.written.trans hs.written, hs.consumed ▸ hw.consumed, hs.posted ▸ hw.posted,
      hw.read.trans hs.read, hs.fd.trans hw.fd⟩

theorem World.grows_of_steps {ks : List KStep} {w w' : World}
    (h : envSteps World.env ks w = some w') : w.Grows w' :=
  (grows_invariant w).env.steps ks w w' (World.Grows.refl w) h

theorem World.grows_of_access {a : Access} {r : Option EnterReply} {w w' : World} {x : a.Ans}
    (h : World.access a r w = some (x, w')) : w.Grows w' :=
  (grows_invariant w).access a r w x w' (World.Grows.refl w) h

/-! ### Where completions come from -/

/-- The request or message that `o` names was read by the kernel, and `cqe` carries what
that request says. -/
def World.Explains (w : World) : Origin → Cqe → Prop
  | .request k, cqe => ∃ sqe, w.consumed[k]? = some sqe ∧ cqe.userData = sqe.userData
  | .message k, cqe =>
      ∃ sqe, w.consumed[k]? = some sqe ∧ w.isMessage sqe = true ∧ cqe.userData = sqe.off
  | .foreign, _ => True

/-- Every posted CQE is explained by its origin. -/
def World.Authentic (w : World) : Prop :=
  ∀ p ∈ w.posted, w.Explains p.1 p.2

theorem World.Explains.mono {w w' : World} (hc : w.consumed <+: w'.consumed)
    (hfd : w'.resources.fd = w.resources.fd) {o : Origin} {cqe : Cqe}
    (h : w.Explains o cqe) : w'.Explains o cqe := by
  have hget : ∀ {k : Nat} {sqe : Sqe}, w.consumed[k]? = some sqe →
      w'.consumed[k]? = some sqe := by
    intro k sqe hk
    -- A request keeps its number, since the SQEs are read in order.
    obtain ⟨t, ht⟩ := hc
    obtain ⟨hlt, hval⟩ := List.getElem?_eq_some_iff.mp hk
    rw [← ht, List.getElem?_append_left hlt]
    exact hk
  cases o with
  | request k =>
      obtain ⟨sqe, hk, hu⟩ := h
      exact ⟨sqe, hget hk, hu⟩
  | message k =>
      obtain ⟨sqe, hk, hm, hu⟩ := h
      refine ⟨sqe, hget hk, ?_, hu⟩
      unfold World.isMessage at hm ⊢
      rw [hfd]
      exact hm
  | foreign => trivial

/-- The kernel posts only what it may. -/
theorem World.explains_of_mayPost {w : World} {o : Origin} {cqe : Cqe}
    (h : w.mayPost o cqe = true) : w.Explains o cqe := by
  cases o with
  | request k =>
      simp only [World.mayPost] at h
      split at h
      · rename_i sqe hk
        simp only [Bool.and_eq_true, beq_iff_eq] at h
        exact ⟨sqe, hk, h.1⟩
      · exact absurd h (by simp)
  | message k =>
      simp only [World.mayPost] at h
      split at h
      · rename_i sqe hk
        simp only [Bool.and_eq_true, beq_iff_eq] at h
        exact ⟨sqe, hk, h.1.1.1, h.1.1.2⟩
      · exact absurd h (by simp)
  | foreign => trivial

theorem authentic_invariant : ringMachine.Invariant World.Authentic := by
  refine ringMachine_invariant ?_ ?_ ?_
  · intro w w' hw hc
    -- consuming appends to the history that the explanations refer to
    have := World.consumeOne_some hc
    subst this
    intro p hp
    refine World.Explains.mono ?_ ?_ (hw p hp)
    · exact List.prefix_append _ _
    · rfl
  · intro w w' o cqe hw hp
    obtain ⟨-, hmay, rfl⟩ := CqAt.post_eq hp
    intro p hmem
    -- the new CQE is one the kernel may post
    rcases List.mem_append.mp hmem with hold | hnew
    · refine World.Explains.mono ?_ ?_ (hw p hold)
      · exact List.prefix_rfl
      · rfl
    · rw [List.mem_singleton.mp hnew]
      refine World.Explains.mono ?_ ?_ (World.explains_of_mayPost hmay)
      · exact List.prefix_rfl
      · rfl
  · intro w w' hw hs p hp
    rw [hs.posted] at hp
    exact (hw p hp).mono (hs.consumed ▸ List.prefix_rfl) hs.fd

/-! ### The last CQE of a request -/

theorem World.finished_iff {w : World} {k : Nat} :
    w.finished k = true ↔ ∃ p ∈ w.posted, p.1 = .request k ∧ World.isTerminal p.2 = true := by
  simp only [World.finished, List.any_eq_true, Bool.and_eq_true, decide_eq_true_eq]

theorem World.messaged_iff {w : World} {k : Nat} :
    w.messaged k = true ↔ ∃ p ∈ w.posted, p.1 = .message k := by
  simp only [World.messaged, List.any_eq_true, decide_eq_true_eq]

theorem World.finished_mono {w w' : World} (h : w.posted <+: w'.posted) {k : Nat}
    (hk : w.finished k = true) : w'.finished k = true := by
  obtain ⟨p, hp, hkind⟩ := World.finished_iff.mp hk
  exact World.finished_iff.mpr ⟨p, h.subset hp, hkind⟩

theorem World.messaged_mono {w w' : World} (h : w.posted <+: w'.posted) {k : Nat}
    (hk : w.messaged k = true) : w'.messaged k = true := by
  obtain ⟨p, hp, hkind⟩ := World.messaged_iff.mp hk
  exact World.messaged_iff.mpr ⟨p, h.subset hp, hkind⟩

/-- `q` can be posted after `p`: nothing follows the terminal CQE of a request, neither
from the request nor as its message, and a message is sent once. -/
def MayFollow (p q : Origin × Cqe) : Prop :=
  ∀ k, (p.1 = .request k → World.isTerminal p.2 = true →
      q.1 ≠ .request k ∧ q.1 ≠ .message k) ∧
    (p.1 = .message k → q.1 ≠ .message k)

/-- The CQEs were posted in an order that `MayFollow` allows. -/
def World.Orderly (w : World) : Prop := w.posted.Pairwise MayFollow

theorem World.unfinished_of_mayPost {w : World} {o : Origin} {cqe : Cqe}
    (h : w.mayPost o cqe = true) {k : Nat} (ho : o = .request k ∨ o = .message k) :
    w.finished k = false ∧ (o = .message k → w.messaged k = false) := by
  rcases ho with rfl | rfl
  · simp only [World.mayPost] at h
    split at h
    · simp only [Bool.and_eq_true, Bool.not_eq_true'] at h
      exact ⟨h.2, fun hm => absurd hm (by simp)⟩
    · exact absurd h (by simp)
  · simp only [World.mayPost] at h
    split at h
    · simp only [Bool.and_eq_true, Bool.not_eq_true'] at h
      exact ⟨h.1.2, fun _ => h.2⟩
    · exact absurd h (by simp)

theorem World.mayFollow_of_mayPost {w : World} {o : Origin} {cqe : Cqe}
    (h : w.mayPost o cqe = true) {p : Origin × Cqe} (hp : p ∈ w.posted) :
    MayFollow p (o, cqe) := by
  intro k
  constructor
  · intro hk hterm
    have hfin : w.finished k = true := World.finished_iff.mpr ⟨p, hp, hk, hterm⟩
    constructor
    · intro ho
      rw [(World.unfinished_of_mayPost h (Or.inl ho)).1] at hfin
      exact absurd hfin (by simp)
    · intro ho
      rw [(World.unfinished_of_mayPost h (Or.inr ho)).1] at hfin
      exact absurd hfin (by simp)
  · intro hk ho
    have hsent : w.messaged k = true := World.messaged_iff.mpr ⟨p, hp, hk⟩
    rw [(World.unfinished_of_mayPost h (Or.inr ho)).2 ho] at hsent
    exact absurd hsent (by simp)

theorem orderly_invariant : ringMachine.Invariant World.Orderly := by
  refine ringMachine_invariant ?_ ?_ ?_
  · intro w w' hw hc
    have := World.consumeOne_some hc
    subst this
    exact hw
  · intro w w' o cqe hw hp
    obtain ⟨-, hmay, rfl⟩ := CqAt.post_eq hp
    refine List.pairwise_append.mpr ⟨hw, List.pairwise_singleton _ _, ?_⟩
    intro p hmem q hq
    rw [List.mem_singleton.mp hq]
    exact World.mayFollow_of_mayPost hmay hmem
  · intro w w' hw hs
    show w'.posted.Pairwise MayFollow
    rw [hs.posted]
    exact hw

end Ququmatz
