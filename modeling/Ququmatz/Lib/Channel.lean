import Mathlib.Data.List.Infix

/-!
# `Ququmatz.Lib.Channel`: a client and a server with two bounded queues

A client sends requests and receives replies, and a server takes the requests and posts the
replies. `Channel.Step n m` is one such act on a channel with room for `n` requests and `m`
replies. Every act is atomic: a request is taken up exactly when there is room, and a reply is
received exactly when there is one. `Run.requests_eq` and `Run.replies_eq` say that nothing is
lost, doubled or overtaken, and `Run.sends_accepted` that room which was there once is not taken
away by the server.
-/

set_option autoImplicit false

namespace Ququmatz.Lib

variable {α β : Type}

/-- What happens at a channel. -/
inductive ChannelEvent (α β : Type)
  /-- The client sends, and learns whether the request was taken up. -/
  | send (x : α) (accepted : Bool)
  | take (x : α)
  | post (y : β)
  /-- The client receives, or learns that there is nothing. -/
  | receive (y : Option β)
deriving DecidableEq, Repr

namespace ChannelEvent

/-- The event is an act of the client. -/
def ofClient : ChannelEvent α β → Bool
  | .send _ _ | .receive _ => true
  | .take _ | .post _ => false

/-- The event is a `send`. -/
def isSend : ChannelEvent α β → Bool
  | .send _ _ => true
  | _ => false

/-- The request that was taken up. -/
def accepted : ChannelEvent α β → Option α
  | .send x true => some x
  | _ => none

/-- The request that the server took. -/
def taken : ChannelEvent α β → Option α
  | .take x => some x
  | _ => none

/-- The reply that the server posted. -/
def posted : ChannelEvent α β → Option β
  | .post y => some y
  | _ => none

/-- The reply that the client received. -/
def received : ChannelEvent α β → Option β
  | .receive y => y
  | _ => none

variable {es : List (ChannelEvent α β)}

/-- What was taken up is among the acts of the client. -/
theorem accepted_ofClient :
    (es.filter ofClient).filterMap accepted = es.filterMap accepted := by
  rw [List.filterMap_filter]
  refine List.filterMap_congr ?_
  intro e _
  cases e <;> rfl

theorem received_ofClient :
    (es.filter ofClient).filterMap received = es.filterMap received := by
  rw [List.filterMap_filter]
  refine List.filterMap_congr ?_
  intro e _
  cases e <;> rfl

theorem isSend_ofClient : (es.filter ofClient).countP isSend = es.countP isSend := by
  rw [List.countP_filter]
  refine List.countP_congr ?_
  intro e _
  cases e <;> exact Iff.rfl

theorem mem_ofClient {x : α} {ok : Bool} (h : send x ok ∈ es.filter ofClient) :
    send x ok ∈ es :=
  (List.mem_filter.mp h).1

end ChannelEvent

/-- A channel: what was sent and not taken, and what was posted and not received. -/
structure Channel (α β : Type) where
  requests : List α
  replies : List β

namespace Channel

/-- A channel that nothing was sent on. -/
def empty : Channel α β := ⟨[], []⟩

/-- One act on a channel with room for `n` requests and `m` replies. -/
inductive Step (n m : Nat) : Channel α β → ChannelEvent α β → Channel α β → Prop
  | accept {xs : List α} {ys : List β} {x : α} (room : xs.length < n) :
      Step n m ⟨xs, ys⟩ (.send x true) ⟨xs ++ [x], ys⟩
  | refuse {xs : List α} {ys : List β} {x : α} (full : xs.length = n) :
      Step n m ⟨xs, ys⟩ (.send x false) ⟨xs, ys⟩
  | take {x : α} {xs : List α} {ys : List β} : Step n m ⟨x :: xs, ys⟩ (.take x) ⟨xs, ys⟩
  | post {xs : List α} {ys : List β} {y : β} (room : ys.length < m) :
      Step n m ⟨xs, ys⟩ (.post y) ⟨xs, ys ++ [y]⟩
  | receive {xs : List α} {y : β} {ys : List β} :
      Step n m ⟨xs, y :: ys⟩ (.receive (some y)) ⟨xs, ys⟩
  | nothing {xs : List α} : Step n m ⟨xs, []⟩ (.receive none) ⟨xs, []⟩

/-- A run of acts. -/
inductive Run (n m : Nat) : Channel α β → List (ChannelEvent α β) → Channel α β → Prop
  | nil (c : Channel α β) : Run n m c [] c
  | cons {c d f : Channel α β} {e : ChannelEvent α β} {es : List (ChannelEvent α β)}
      (step : Step n m c e d) (rest : Run n m d es f) : Run n m c (e :: es) f

variable {n m : Nat} {c d f : Channel α β} {e : ChannelEvent α β}
  {es fs : List (ChannelEvent α β)}

theorem Step.run (h : Step n m c e d) : Run n m c [e] d := .cons h (.nil d)

theorem Run.append (h : Run n m c es d) (h' : Run n m d fs f) : Run n m c (es ++ fs) f := by
  induction h with
  | nil _ => exact h'
  | cons step _ ih => exact .cons step (ih h')

/-! ### Nothing is lost, doubled or overtaken -/

/-- An act changes the queue of requests at one end at most. -/
theorem Step.requests_eq (h : Step n m c e d) :
    c.requests ++ e.accepted.toList = e.taken.toList ++ d.requests := by
  cases h <;> simp [ChannelEvent.accepted, ChannelEvent.taken]

theorem Step.replies_eq (h : Step n m c e d) :
    c.replies ++ e.posted.toList = e.received.toList ++ d.replies := by
  cases h <;> simp [ChannelEvent.posted, ChannelEvent.received]

theorem filterMap_cons_toList {γ δ : Type} (g : γ → Option δ) (x : γ) (xs : List γ) :
    (x :: xs).filterMap g = (g x).toList ++ xs.filterMap g := by
  cases h : g x <;> simp [h]

/-- The requests that were there and those taken up are those taken and those that are there. -/
theorem Run.requests_eq (h : Run n m c es d) :
    c.requests ++ es.filterMap ChannelEvent.accepted
      = es.filterMap ChannelEvent.taken ++ d.requests := by
  induction h with
  | nil _ => simp
  | cons step _ ih =>
      rw [filterMap_cons_toList, filterMap_cons_toList, ← List.append_assoc, step.requests_eq,
        List.append_assoc, ih, List.append_assoc]

theorem Run.replies_eq (h : Run n m c es d) :
    c.replies ++ es.filterMap ChannelEvent.posted
      = es.filterMap ChannelEvent.received ++ d.replies := by
  induction h with
  | nil _ => simp
  | cons step _ ih =>
      rw [filterMap_cons_toList, filterMap_cons_toList, ← List.append_assoc, step.replies_eq,
        List.append_assoc, ih, List.append_assoc]

/-! ### Promises -/

/-- A request that there is room for is taken up. -/
theorem Step.send_accepted {x : α} {ok : Bool} (h : Step n m c (.send x ok) d)
    (hroom : c.requests.length < n) : ok = true := by
  cases h with
  | accept _ => rfl
  | refuse full =>
      rw [show (Channel.mk _ _).requests.length = n from full] at hroom
      exact absurd hroom (Nat.lt_irrefl n)

/-- Only a `send` takes room. -/
theorem Step.requests_le (h : Step n m c e d) :
    d.requests.length ≤ c.requests.length + if e.isSend = true then 1 else 0 := by
  cases h <;> simp [ChannelEvent.isSend]

/-- While there is room for all that is sent, everything sent is taken up. -/
theorem Run.sends_accepted (h : Run n m c es d)
    (hroom : c.requests.length + es.countP ChannelEvent.isSend ≤ n) :
    ∀ x ok, ChannelEvent.send x ok ∈ es → ok = true := by
  induction h with
  | nil _ =>
      intro x ok hmem
      cases hmem
  | cons step _ ih =>
      rw [List.countP_cons] at hroom
      have hle := step.requests_le
      intro x ok hmem
      rcases List.mem_cons.mp hmem with rfl | hmem
      · refine step.send_accepted ?_
        rw [if_pos (show (.send x ok : ChannelEvent α β).isSend = true from rfl)] at hroom
        omega
      · exact ih (by omega) x ok hmem

/-! ### The server on its own -/

/-- The server takes requests in order. -/
theorem run_takes (n m : Nat) (taken xs : List α) (ys : List β) :
    Run n m ⟨taken ++ xs, ys⟩ (taken.map .take) ⟨xs, ys⟩ := by
  induction taken with
  | nil => exact .nil _
  | cons x taken ih => exact .cons .take ih

/-- The server posts replies while there is room. -/
theorem run_posts (n : Nat) {m : Nat} (xs : List α) (ys posted : List β)
    (hroom : ys.length + posted.length ≤ m) :
    Run n m ⟨xs, ys⟩ (posted.map .post) ⟨xs, ys ++ posted⟩ := by
  induction posted generalizing ys with
  | nil =>
      rw [List.append_nil]
      exact .nil _
  | cons y posted ih =>
      rw [List.length_cons] at hroom
      have hrest := ih (ys ++ [y]) (by rw [List.length_append, List.length_singleton]; omega)
      rw [List.append_assoc] at hrest
      exact .cons (.post (by omega)) hrest

/-- What the server can do between two acts of the client. -/
theorem run_serve {m : Nat} (n : Nat) (taken xs : List α) (ys posted : List β)
    (hroom : ys.length + posted.length ≤ m) :
    ∃ es, Run n m ⟨taken ++ xs, ys⟩ es ⟨xs, ys ++ posted⟩ ∧
      es.filter ChannelEvent.ofClient = [] := by
  refine ⟨taken.map .take ++ posted.map .post,
    (run_takes n m taken xs ys).append (run_posts n xs ys posted hroom), ?_⟩
  rw [List.filter_eq_nil_iff]
  intro e he
  rcases List.mem_append.mp he with he | he
  · obtain ⟨x, -, rfl⟩ := List.mem_map.mp he
    exact Bool.false_ne_true
  · obtain ⟨y, -, rfl⟩ := List.mem_map.mp he
    exact Bool.false_ne_true

end Channel

end Ququmatz.Lib
