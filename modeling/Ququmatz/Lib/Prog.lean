import Mathlib.Logic.Basic

/-!
# `Ququmatz.Lib.Prog`: programs over shared memory, with an environment

A program that works on shared memory is a tree: a node is one atomic access, and the
subtrees are indexed by the answer of that access. `Prog S α` is the type of these trees
over a signature `S` of accesses, and it is a monad, so code is written in `do` notation.

A `Machine` gives the accesses a meaning. Its environment takes steps of its own at any
moment: `Prog.run` lets an arbitrary list of environment steps happen before each access.
The environment's moves are data (a list of `Round`s, one per access), so a run is a
computable function of the program, the rounds and the first state, and a statement about
every list of rounds is a statement about every interleaving. `run` is `none` when a move
is not enabled, or when the rounds do not cover the program exactly.

`Spec M P p Q` is partial correctness over every interleaving: from a state in `P`, every
run of `p` that returns ends in `Q`. The rules `Spec.ret`, `Spec.op` and `Spec.conseq`
follow the structure of the program, and `Prog.run_bind` splits a run of a sequence;
`Spec.op` asks that the environment keeps the assertion in front of the access
(`Machine.Stable`).
-/

set_option autoImplicit false

namespace Ququmatz.Lib

/-- A signature of atomic accesses: the accesses, and the answer type of each. -/
structure Sig where
  Op : Type
  Ans : Op → Type

/-- A program over the accesses of `S` that returns an `α`. -/
inductive Prog (S : Sig) (α : Type) : Type where
  | ret (a : α)
  | op (o : S.Op) (k : S.Ans o → Prog S α)

namespace Prog

variable {S : Sig} {α β : Type}

/-- Sequencing: graft `f` onto the leaves of the tree. -/
def bind : Prog S α → (α → Prog S β) → Prog S β
  | .ret a, f => f a
  | .op o k, f => .op o fun x => (k x).bind f

instance : Monad (Prog S) where
  pure := .ret
  bind := bind

/-- The program that performs one access and returns its answer. -/
def lift (o : S.Op) : Prog S (S.Ans o) := .op o .ret

@[simp] theorem pure_eq (a : α) : (pure a : Prog S α) = .ret a := rfl

@[simp] theorem ret_bind (a : α) (f : α → Prog S β) : (Prog.ret a >>= f) = f a := rfl

@[simp] theorem op_bind (o : S.Op) (k : S.Ans o → Prog S α) (f : α → Prog S β) :
    (Prog.op o k >>= f) = .op o fun x => k x >>= f := rfl

theorem ite_bind (c : Prop) [Decidable c] (p q : Prog S α) (f : α → Prog S β) :
    ((if c then p else q) >>= f) = if c then p >>= f else q >>= f :=
  apply_ite (· >>= f) c p q

/-- A program over `S` as one over `T`: each access of `S` is carried out by a program over
`T`. -/
def translate {T : Sig} (f : (o : S.Op) → Prog T (S.Ans o)) : Prog S α → Prog T α
  | .ret a => .ret a
  | .op o k => (f o).bind fun x => (k x).translate f

/-- Go on with an answer if there is one. -/
def onSome (k : α → Prog S (Option β)) : Option α → Prog S (Option β)
  | some a => k a
  | none => .ret none

/-- The same where some accesses have no such program: one of these ends the whole with
`none`. -/
def translateSome {T : Sig} (f : (o : S.Op) → Prog T (Option (S.Ans o))) :
    Prog S α → Prog T (Option α)
  | .ret a => .ret (some a)
  | .op o k => (f o).bind (onSome fun x => (k x).translateSome f)

end Prog

/-- A meaning for the accesses of `S`, and an environment that shares the state. -/
structure Machine (S : Sig) where
  State : Type
  /-- One step of the environment. -/
  Env : Type
  /-- The effect of an environment step; `none` when the step is not enabled. -/
  env : Env → State → Option State
  /-- What the environment chooses about one access. -/
  Reply : Type
  /-- The effect and the answer of an access; `none` when the reply is not allowed. -/
  access : (o : S.Op) → Reply → State → Option (S.Ans o × State)

/-- The moves of the environment around one access: the steps it takes before the access,
and its reply to the access. -/
structure Round {S : Sig} (M : Machine S) where
  before : List M.Env
  reply : M.Reply

/-- Steps of an environment, in order; `none` when one is not enabled. -/
def envSteps {σ ε : Type} (env : ε → σ → Option σ) : List ε → σ → Option σ
  | [], s => some s
  | e :: es, s => (env e s).bind (envSteps env es)

/-- What each step keeps, a list of steps keeps. -/
theorem envSteps_keeps {σ ε : Type} {env : ε → σ → Option σ} {P : σ → Prop}
    (h : ∀ e s s', P s → env e s = some s' → P s') :
    ∀ (es : List ε) (s s' : σ), P s → envSteps env es s = some s' → P s' := by
  intro es
  induction es with
  | nil =>
      intro s s' hs hr
      cases hr
      exact hs
  | cons e es ih =>
      intro s s' hs hr
      obtain ⟨s1, h1, h2⟩ := Option.bind_eq_some_iff.mp hr
      exact ih s1 s' (h e s s1 hs h1) h2

namespace Machine

variable {S : Sig} (M : Machine S)

/-- A list of environment steps, in order. -/
def steps (es : List M.Env) (s : M.State) : Option M.State := envSteps M.env es s

/-- The environment keeps `P`. -/
def Stable (P : M.State → Prop) : Prop :=
  ∀ e s s', P s → M.env e s = some s' → P s'

variable {M}

/-- A stable assertion survives every list of environment steps. -/
theorem Stable.steps {P : M.State → Prop} (hP : M.Stable P) (es : List M.Env)
    (s s' : M.State) (h : P s) (hs : M.steps es s = some s') : P s' :=
  envSteps_keeps hP es s s' h hs

variable (M) in
/-- Neither the environment nor an access can break `I`. -/
structure Invariant (I : M.State → Prop) : Prop where
  env : M.Stable I
  access : ∀ o r s x s', I s → M.access o r s = some (x, s') → I s'

end Machine

namespace Prog

variable {S : Sig} {α β : Type} (M : Machine S)

/-- Run a program against the environment's moves, one round per access. -/
def run : Prog S α → List (Round M) → M.State → Option (α × M.State)
  | .ret a, [], s => some (a, s)
  | .ret _, _ :: _, _ => none
  | .op _ _, [], _ => none
  | .op o k, r :: rs, s =>
      (M.steps r.before s).bind fun s1 =>
        (M.access o r.reply s1).bind fun xs => (k xs.1).run rs xs.2

/-- The accesses of a run: for each the reply, and the state in which it acts. -/
def trace : Prog S α → List (Round M) → M.State → List (M.Reply × M.State)
  | .ret _, _, _ => []
  | .op _ _, [], _ => []
  | .op o k, r :: rs, s =>
      match M.steps r.before s with
      | none => []
      | some s1 =>
          (r.reply, s1) ::
            match M.access o r.reply s1 with
            | none => []
            | some xs => (k xs.1).trace rs xs.2

variable {M}

/-- A run of a finished program uses no round. -/
theorem run_ret {a b : α} {rs : List (Round M)} {s s' : M.State} :
    (Prog.ret a).run M rs s = some (b, s') ↔ rs = [] ∧ b = a ∧ s' = s := by
  cases rs with
  | nil => simp [run, eq_comm]
  | cons r rs => simp [run]

/-- A run of an access: the environment's steps, the access, the rest. -/
theorem run_op {o : S.Op} {k : S.Ans o → Prog S α} {rs : List (Round M)} {s s' : M.State}
    {b : α} :
    (Prog.op o k).run M rs s = some (b, s') ↔
      ∃ r rs' s1 x s2, rs = r :: rs' ∧ M.steps r.before s = some s1 ∧
        M.access o r.reply s1 = some (x, s2) ∧ (k x).run M rs' s2 = some (b, s') := by
  cases rs with
  | nil => simp [run]
  | cons r rs =>
      simp only [run, Option.bind_eq_some_iff, Prod.exists, List.cons.injEq]
      constructor
      · rintro ⟨s1, h1, x, s2, h2, h3⟩
        exact ⟨r, rs, s1, x, s2, ⟨rfl, rfl⟩, h1, h2, h3⟩
      · rintro ⟨r', rs', s1, x, s2, ⟨rfl, rfl⟩, h1, h2, h3⟩
        exact ⟨s1, h1, x, s2, h2, h3⟩

/-- A run of a sequence splits into a run of each part, and the rounds with it. -/
theorem run_bind {p : Prog S α} {f : α → Prog S β} {rs : List (Round M)} {s s' : M.State}
    {b : β} :
    (p >>= f).run M rs s = some (b, s') ↔
      ∃ rs1 rs2 a s1, rs = rs1 ++ rs2 ∧ p.run M rs1 s = some (a, s1) ∧
        (f a).run M rs2 s1 = some (b, s') := by
  induction p generalizing rs s with
  | ret a =>
      simp only [ret_bind, run_ret]
      constructor
      · intro h
        exact ⟨[], rs, a, s, rfl, ⟨rfl, rfl, rfl⟩, h⟩
      · rintro ⟨rs1, rs2, a', s1, rfl, ⟨rfl, rfl, rfl⟩, h⟩
        exact h
  | op o k ih =>
      simp only [op_bind, run_op]
      constructor
      · rintro ⟨r, rs', s1, x, s2, rfl, h1, h2, h3⟩
        -- the first round is that of the access, the rest splits as the subtree does
        obtain ⟨rs1, rs2, a, s3, rfl, h4, h5⟩ := (ih x).mp h3
        exact ⟨r :: rs1, rs2, a, s3, rfl, ⟨r, rs1, s1, x, s2, rfl, h1, h2, h4⟩, h5⟩
      · rintro ⟨rs1, rs2, a, s3, rfl, ⟨r, rs1', s1, x, s2, rfl, h1, h2, h4⟩, h5⟩
        exact ⟨r, rs1' ++ rs2, s1, x, s2, rfl, h1, h2,
          (ih x).mpr ⟨rs1', rs2, a, s3, rfl, h4, h5⟩⟩

theorem trace_op {o : S.Op} {k : S.Ans o → Prog S α} {r : Round M} {rs : List (Round M)}
    {s s1 s2 : M.State} {x : S.Ans o} (h1 : M.steps r.before s = some s1)
    (h2 : M.access o r.reply s1 = some (x, s2)) :
    (op o k).trace M (r :: rs) s = (r.reply, s1) :: (k x).trace M rs s2 := by
  simp only [trace, h1, h2]

/-- The trace of a sequence is the trace of its first part followed by that of the rest. -/
theorem trace_bind {p : Prog S α} {f : α → Prog S β} {rs1 rs2 : List (Round M)}
    {s s1 : M.State} {a : α} (h : p.run M rs1 s = some (a, s1)) :
    (p >>= f).trace M (rs1 ++ rs2) s = p.trace M rs1 s ++ (f a).trace M rs2 s1 := by
  induction p generalizing rs1 s with
  | ret b =>
      obtain ⟨rfl, rfl, rfl⟩ := run_ret.mp h
      rfl
  | op o k ih =>
      obtain ⟨r, rs', t1, x, t2, rfl, h1, h2, h3⟩ := run_op.mp h
      rw [op_bind, List.cons_append, trace_op h1 h2, trace_op h1 h2, ih x h3]
      rfl

/-- A run of a program whose result is rewritten is a run of the program. -/
theorem run_map {p : Prog S α} {f : α → β} {rs : List (Round M)} {s s' : M.State} {b : β} :
    (p >>= fun a => ret (f a)).run M rs s = some (b, s') ↔
      ∃ a, p.run M rs s = some (a, s') ∧ b = f a := by
  rw [run_bind]
  constructor
  · rintro ⟨rs1, rs2, a, s1, rfl, h1, h2⟩
    obtain ⟨rfl, rfl, rfl⟩ := run_ret.mp h2
    rw [List.append_nil]
    exact ⟨a, h1, rfl⟩
  · rintro ⟨a, h1, rfl⟩
    exact ⟨rs, [], a, s', (List.append_nil _).symm, h1, run_ret.mpr ⟨rfl, rfl, rfl⟩⟩

/-- Every run of every program keeps an invariant of the machine. -/
theorem run_keeps {I : M.State → Prop} (hI : M.Invariant I) {p : Prog S α} {rs : List (Round M)}
    {s s' : M.State} {a : α} (hs : I s) (hr : p.run M rs s = some (a, s')) : I s' := by
  induction p generalizing rs s with
  | ret b =>
      obtain ⟨-, -, rfl⟩ := run_ret.mp hr
      exact hs
  | op o k ih =>
      obtain ⟨r, rs', s1, x, s2, rfl, h1, h2, h3⟩ := run_op.mp hr
      exact ih x (hI.access _ _ _ _ _ (hI.env.steps _ _ _ hs h1) h2) h3

/-- Every value that the program can return satisfies `P`, whatever the accesses answer. -/
def Returns (P : α → Prop) : Prog S α → Prop
  | .ret a => P a
  | .op _ k => ∀ x, (k x).Returns P

@[simp] theorem returns_ret {P : α → Prop} {a : α} : (ret a : Prog S α).Returns P ↔ P a :=
  Iff.rfl

theorem returns_true (p : Prog S α) : p.Returns fun _ => True := by
  induction p with
  | ret a => trivial
  | op o k ih => exact fun x => ih x

theorem Returns.bind {P : α → Prop} {Q : β → Prop} {p : Prog S α} {f : α → Prog S β}
    (h : p.Returns P) (hf : ∀ a, P a → (f a).Returns Q) : (p >>= f).Returns Q := by
  induction p with
  | ret a => exact hf a h
  | op o k ih => exact fun x => ih x (h x)

/-- What a run returns is one of these values. -/
theorem Returns.of_run {P : α → Prop} {p : Prog S α} (h : p.Returns P) {rs : List (Round M)}
    {s s' : M.State} {a : α} (hr : p.run M rs s = some (a, s')) : P a := by
  induction p generalizing rs s with
  | ret b =>
      obtain ⟨-, rfl, -⟩ := run_ret.mp hr
      exact h
  | op o k ih =>
      obtain ⟨r, rs', s1, x, s2, -, -, -, h3⟩ := run_op.mp hr
      exact ih x (h x) h3

/-- Every access that the program can make satisfies `P` and every value that it can return
`R`, whatever the accesses answer. -/
def Safe (P : S.Op → Prop) (R : α → Prop) : Prog S α → Prop
  | .ret a => R a
  | .op o k => P o ∧ ∀ x, (k x).Safe P R

theorem Safe.bind {P : S.Op → Prop} {R : α → Prop} {Q : β → Prop} {p : Prog S α}
    {f : α → Prog S β} (h : p.Safe P R) (hf : ∀ a, R a → (f a).Safe P Q) : (p >>= f).Safe P Q := by
  induction p with
  | ret a => exact hf a h
  | op o k ih => exact ⟨h.1, fun x => ih x (h.2 x)⟩

/-- What a program returns is known from what becomes of it. -/
theorem Safe.of_map {P : S.Op → Prop} {R : β → Prop} {p : Prog S α} {f : α → β}
    (h : (p >>= fun a => ret (f a)).Safe P R) : p.Safe P fun a => R (f a) := by
  induction p with
  | ret a => exact h
  | op o k ih => exact ⟨h.1, fun x => ih x (h.2 x)⟩

theorem Safe.mono {P P' : S.Op → Prop} {R Q : α → Prop} {p : Prog S α} (h : p.Safe P R)
    (hP : ∀ o, P o → P' o) (hQ : ∀ a, R a → Q a) : p.Safe P' Q := by
  induction p with
  | ret a => exact hQ a h
  | op o k ih => exact ⟨hP o h.1, fun x => ih x (h.2 x)⟩

end Prog

/-- Partial correctness over every interleaving: from a state in `P`, each run of `p` that
returns ends in `Q`. -/
def Spec {S : Sig} {α : Type} (M : Machine S) (P : M.State → Prop) (p : Prog S α)
    (Q : α → M.State → Prop) : Prop :=
  ∀ rs s a s', P s → p.run M rs s = some (a, s') → Q a s'

namespace Spec

variable {S : Sig} {α β : Type} {M : Machine S} {P : M.State → Prop}

theorem ret {a : α} {Q : α → M.State → Prop} (h : ∀ s, P s → Q a s) :
    Spec M P (Prog.ret a) Q := by
  intro rs s b s' hs hr
  obtain ⟨-, rfl, rfl⟩ := Prog.run_ret.mp hr
  exact h _ hs

/-- One access. `P` survives the environment's steps, the access turns it into `R`, and
the rest of the program starts from `R`. -/
theorem op {o : S.Op} {k : S.Ans o → Prog S α} {Q : α → M.State → Prop}
    {R : S.Ans o → M.State → Prop} (hst : M.Stable P)
    (hacc : ∀ r s x s', P s → M.access o r s = some (x, s') → R x s')
    (hk : ∀ x, Spec M (R x) (k x) Q) : Spec M P (Prog.op o k) Q := by
  intro rs s a s' hs hr
  obtain ⟨r, rs', s1, x, s2, rfl, h1, h2, h3⟩ := Prog.run_op.mp hr
  exact hk x rs' s2 a s' (hacc _ _ _ _ (hst.steps _ _ _ hs h1) h2) h3

theorem bind {p : Prog S α} {f : α → Prog S β} {Q : β → M.State → Prop}
    {R : α → M.State → Prop} (hp : Spec M P p R) (hf : ∀ a, Spec M (R a) (f a) Q) :
    Spec M P (p >>= f) Q := by
  intro rs s b s' hs hr
  obtain ⟨rs1, rs2, a, s1, -, h1, h2⟩ := Prog.run_bind.mp hr
  exact hf a rs2 s1 b s' (hp rs1 s a s1 hs h1) h2

/-- A translated program that begins with an access: the access has a program, and the rest
goes on from its answer. -/
theorem translateSome_bind {T : Sig} {f : (o : T.Op) → Prog S (Option (T.Ans o))} {o : T.Op}
    {k : T.Ans o → Prog T α} {Q : Option α → M.State → Prop} {R : T.Ans o → M.State → Prop}
    (ho : Spec M P (f o) fun x s => ∃ y, x = some y ∧ R y s)
    (hk : ∀ y, Spec M (R y) ((k y).translateSome f) Q) :
    Spec M P ((Prog.lift o >>= k).translateSome f) Q := by
  intro rs s b s' hs hr
  have hr : (f o >>= Prog.onSome fun x => (k x).translateSome f).run M rs s = some (b, s') := hr
  obtain ⟨rs1, rs2, x, s1, -, h1, h2⟩ := Prog.run_bind.mp hr
  obtain ⟨y, rfl, hy⟩ := ho rs1 s x s1 hs h1
  exact hk y rs2 s1 b s' hy h2

theorem conseq {p : Prog S α} {P' : M.State → Prop} {Q Q' : α → M.State → Prop}
    (h : Spec M P' p Q') (hP : ∀ s, P s → P' s) (hQ : ∀ a s, Q' a s → Q a s) :
    Spec M P p Q :=
  fun rs s a s' hs hr => hQ a s' (h rs s a s' (hP s hs) hr)

end Spec

end Ququmatz.Lib
