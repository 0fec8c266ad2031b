import Ququmatz.Owned.ZeroCopy

/-!
# `Ququmatz.Proofs.Owned.ZeroCopy`: the verdict on a zero-copy send

The ticket holds its storage until the CQE without `MORE`, and keeps the result of the last send
CQE that it was given (`reapAll_before`). The verdict of `result` then looks at that one CQE
alone. `zcLifecycle_iff` says exactly when this is the documented rule, by which either CQE can
make it an error.
-/

set_option autoImplicit false

namespace Ququmatz

variable {B R : Type} {N : Nat}

/-- The ticket with another recorded result. -/
def ZcTicket.withSent (sent : Option Int32) : ZcTicket B R N → ZcTicket B R N
  | .zc pending => .zc { pending with sent := sent }
  | .sendmsgZc pending => .sendmsgZc { pending with sent := sent }

/-- The finished send of the ticket. -/
def ZcTicket.finished (ticket : ZcTicket B R N) (notified : Int32) : ZcFinished B R N :=
  match ticket with
  | .zc pending =>
      .zc { buf := pending.buf, id := pending.id, sent := pending.sent, notified := notified }
  | .sendmsgZc pending =>
      .sendmsgZc { bufs := pending.bufs, region := pending.region, sent := pending.sent,
                   notified := notified }

namespace ZcTicket

@[simp] theorem withSent_ring (ticket : ZcTicket B R N) (sent : Option Int32) :
    (ticket.withSent sent).ring = ticket.ring := by cases ticket <;> rfl

@[simp] theorem withSent_id (ticket : ZcTicket B R N) (sent : Option Int32) :
    (ticket.withSent sent).id = ticket.id := by cases ticket <;> rfl

@[simp] theorem withSent_storage (ticket : ZcTicket B R N) (sent : Option Int32) :
    (ticket.withSent sent).storage = ticket.storage := by cases ticket <;> rfl

@[simp] theorem withSent_withSent (ticket : ZcTicket B R N) (s t : Option Int32) :
    (ticket.withSent s).withSent t = ticket.withSent t := by cases ticket <;> rfl

@[simp] theorem withSent_sendResult (ticket : ZcTicket B R N) (sent : Option Int32) :
    (ticket.withSent sent).sendResult = sent := by cases ticket <;> rfl

theorem withSent_self (ticket : ZcTicket B R N) :
    ticket.withSent ticket.sendResult = ticket := by cases ticket <;> rfl

@[simp] theorem finished_storage (ticket : ZcTicket B R N) (notified : Int32) :
    (ticket.finished notified).storage = ticket.storage := by cases ticket <;> rfl

theorem finished_result (checked : Bool) (ticket : ZcTicket B R N) (sent : Option Int32)
    (notified : Int32) :
    ((ticket.withSent sent).finished notified).result checked = zcResult checked sent notified := by
  cases ticket <;> rfl

/-! ### One event -/

/-- An event of another request changes nothing. -/
theorem handle_other {ticket : ZcTicket B R N} {event : Event}
    (h : event.belongsTo ticket.ring ticket.id = false) :
    ticket.handle event = .error (ticket, event) := by
  cases event with
  | part notice =>
      have h : notice.belongsTo ticket.ring ticket.id = false := h
      cases ticket with
      | zc pending =>
          have h : notice.belongsTo pending.ring pending.id = false := h
          simp [handle, recordSent, PendingZc.recordSent, h]
      | sendmsgZc pending =>
          have h : notice.belongsTo pending.ring pending.id = false := h
          simp [handle, recordSent, PendingSendmsgZc.recordSent, h]
  | complete receipt =>
      have h : receipt.belongsTo ticket.ring ticket.id = false := h
      cases ticket with
      | zc pending =>
          have h : receipt.belongsTo pending.ring pending.id = false := h
          simp [handle, redeem, PendingZc.redeem, h]
      | sendmsgZc pending =>
          have h : receipt.belongsTo pending.ring pending.id = false := h
          simp [handle, redeem, PendingSendmsgZc.redeem, h]

/-- A notice of the ticket's own request is recorded. -/
theorem handle_part {ticket : ZcTicket B R N} {notice : PartialReceipt}
    (h : notice.belongsTo ticket.ring ticket.id = true) :
    ticket.handle (.part notice) = .ok (.inFlight (ticket.withSent (some notice.result))) := by
  cases ticket with
  | zc pending =>
      have h : notice.belongsTo pending.ring pending.id = true := h
      simp [handle, recordSent, PendingZc.recordSent, withSent, h]
  | sendmsgZc pending =>
      have h : notice.belongsTo pending.ring pending.id = true := h
      simp [handle, recordSent, PendingSendmsgZc.recordSent, withSent, h]

/-- A receipt of the ticket's own request releases the storage. -/
theorem handle_complete {ticket : ZcTicket B R N} {receipt : Receipt}
    (h : receipt.belongsTo ticket.ring ticket.id = true) :
    ticket.handle (.complete receipt) = .ok (.released (ticket.finished receipt.result)) := by
  cases ticket with
  | zc pending =>
      have h : receipt.belongsTo pending.ring pending.id = true := h
      simp [handle, redeem, PendingZc.redeem, finished, h]
  | sendmsgZc pending =>
      have h : receipt.belongsTo pending.ring pending.id = true := h
      simp [handle, redeem, PendingSendmsgZc.redeem, finished, h]

/-! ### The run -/

theorem recorded_cons {ring : RingId} {id : RequestId} {r : ZcReaped} {rest : List ZcReaped}
    {sent : Option Int32} :
    ZcReaped.recorded ring id (r :: rest) sent =
      ZcReaped.recorded ring id rest
        (if r.passed && r.isOf ring id then some r.cqe.result else sent) := by
  unfold ZcReaped.recorded
  by_cases h : (r.passed && r.isOf ring id) = true
  · rw [List.filter_cons, if_pos h, if_pos h, List.map_cons, List.getLast?_cons]
    cases ((rest.filter fun r => r.passed && r.isOf ring id).map (·.cqe.result)).getLast? <;> rfl
  · rw [List.filter_cons, if_neg h, if_neg h]

/-- Completions with `MORE` leave the storage with the kernel; the ticket has the last result
that it was given. -/
theorem reapAll_before {ticket : ZcTicket B R N} {before : List ZcReaped} (rest : List ZcReaped)
    (hmore : ∀ r ∈ before, r.isOf ticket.ring ticket.id = true →
      r.cqe.flags.contains CqeFlags.MORE = true) :
    reapAll (before ++ rest) ticket =
      reapAll rest
        (ticket.withSent
          (ZcReaped.recorded ticket.ring ticket.id before ticket.sendResult)) := by
  induction before generalizing ticket with
  | nil =>
      rw [List.nil_append]
      exact congrArg (reapAll rest) (withSent_self ticket).symm
  | cons r before ih =>
      rw [List.cons_append, reapAll, recorded_cons]
      have htail := fun r hr => hmore r (List.mem_cons_of_mem _ hr)
      cases hpassed : r.passed with
      | false => simpa using ih htail
      | true =>
          rw [if_pos rfl, Bool.true_and]
          cases hof : r.isOf ticket.ring ticket.id with
          | false =>
              -- An event of another request comes back with the ticket unchanged.
              rw [handle_other hof]
              exact ih htail
          | true =>
              have hflag := hmore r List.mem_cons_self hof
              have hevent : Event.ofCompletion r.ring r.cqe =
                  .part ⟨r.ring, ⟨r.cqe.userData⟩, r.cqe.result, r.cqe.flags⟩ := if_pos hflag
              rw [ZcReaped.isOf, hevent] at hof
              rw [hevent, handle_part hof]
              have hkept : ∀ r' ∈ before, r'.isOf (ticket.withSent (some r.cqe.result)).ring
                  (ticket.withSent (some r.cqe.result)).id = true →
                  r'.cqe.flags.contains CqeFlags.MORE = true := by simpa using htail
              simpa using ih hkept

/-- The last completion releases the storage. -/
theorem reapAll_all (ticket : ZcTicket B R N) (s : ZcSequence ticket.ring ticket.id) :
    reapAll s.all ticket =
      .released ((ticket.withSent (s.recorded ticket.sendResult)).finished s.last.result) := by
  have hevent : Event.ofCompletion ticket.ring s.last =
      .complete ⟨ticket.ring, ⟨s.last.userData⟩, s.last.result, s.last.flags⟩ :=
    if_neg (by rw [s.ends]; decide)
  rw [ZcSequence.all, reapAll_before _ s.more, reapAll, if_pos rfl, hevent,
    handle_complete (by simp [Receipt.belongsTo, s.own])]
  rfl

end ZcTicket

/-- The life of a zero-copy send, as it is documented. -/
structure ZcLifecycle (checked : Bool) (ticket : ZcTicket B R N)
    (s : ZcSequence ticket.ring ticket.id) : Prop where
  /-- Before the last completion the ticket holds the storage, and refuses every event of
  another request. -/
  held : ∀ es, es <+: s.before → ∃ t, ticket.reapAll es = .inFlight t ∧
    t.storage = ticket.storage ∧
    ∀ event : Event, event.belongsTo ticket.ring ticket.id = false →
      t.handle event = .error (t, event)
  /-- The last completion releases it, with a verdict on both CQEs. -/
  released : ∃ done, ticket.reapAll s.all = .released done ∧ done.storage = ticket.storage ∧
    (s.Failed ticket.sendResult → ∃ e, done.result checked = some (.error e)) ∧
    (¬ s.Failed ticket.sendResult →
      done.result checked =
        some (.ok ((s.recorded ticket.sendResult).getD s.last.result).toUInt32))

section Verdict

theorem zcResult_eq (checked : Bool) (sent : Option Int32) (notified : Int32) :
    zcResult checked sent notified =
      (Error.fromFailedCqe checked (sent.getD notified)).map fun
        | some e => .error e
        | none => .ok (sent.getD notified).toUInt32 := by
  cases sent <;> rfl

theorem zcResult_of_nonneg {checked : Bool} {sent : Option Int32} {notified : Int32}
    (h : 0 ≤ sent.getD notified) :
    zcResult checked sent notified = some (.ok (sent.getD notified).toUInt32) := by
  rw [zcResult_eq, Error.fromFailedCqe, if_neg (Int32.not_lt.mpr h)]
  rfl

theorem zcResult_of_neg {checked : Bool} {sent : Option Int32} {notified : Int32}
    (h : sent.getD notified < 0) (hmin : checked = true → sent.getD notified ≠ Int32.minValue) :
    ∃ e, zcResult checked sent notified = some (.error e) := by
  have hno : ¬ (checked && sent.getD notified == Int32.minValue) = true := by
    intro hc
    obtain ⟨hchecked, hmin'⟩ := Bool.and_eq_true_iff.mp hc
    exact hmin hchecked (beq_iff_eq.mp hmin')
  refine ⟨.completion (.failed ⟨-(sent.getD notified)⟩), ?_⟩
  rw [zcResult_eq, Error.fromFailedCqe, if_pos h, if_neg hno]
  rfl

/-- The negation of the least `i32`. -/
theorem zcResult_of_min {sent : Option Int32} {notified : Int32}
    (h : sent.getD notified = Int32.minValue) : zcResult true sent notified = none := by
  rw [zcResult_eq, h]
  rfl

end Verdict

/-- Some CQE failed when the deciding one did, or when the last one did. -/
theorem ZcSequence.failed_iff {ring : RingId} {id : RequestId} {s : ZcSequence ring id}
    {sent : Option Int32} :
    s.Failed sent ↔ (s.recorded sent).getD s.last.result < 0 ∨ s.last.result < 0 := by
  unfold Failed
  cases s.recorded sent with
  | none => simp
  | some r => simp

/-- Before the last completion nothing is released. -/
theorem ZcTicket.held (ticket : ZcTicket B R N) (s : ZcSequence ticket.ring ticket.id)
    {es : List ZcReaped} (h : es <+: s.before) :
    ∃ t, ticket.reapAll es = .inFlight t ∧ t.storage = ticket.storage ∧
      ∀ event : Event, event.belongsTo ticket.ring ticket.id = false →
        t.handle event = .error (t, event) := by
  have hmore : ∀ r ∈ es, r.isOf ticket.ring ticket.id = true →
      r.cqe.flags.contains CqeFlags.MORE = true := fun r hr => s.more r (h.subset hr)
  have hrun := reapAll_before [] hmore
  rw [List.append_nil] at hrun
  exact ⟨_, hrun, withSent_storage _ _, fun event hevent => handle_other (by simpa using hevent)⟩

/-- The life of a zero-copy send is as documented exactly when no recorded count hides a failed
last CQE and no negation overflows. -/
theorem zcLifecycle_iff (checked : Bool) (ticket : ZcTicket B R N)
    (s : ZcSequence ticket.ring ticket.id) :
    ZcLifecycle checked ticket s ↔ s.Decided checked ticket.sendResult := by
  have hall := ticket.reapAll_all s
  have hstorage : ((ticket.withSent (s.recorded ticket.sendResult)).finished
      s.last.result).storage = ticket.storage := by simp
  have hresult := ticket.finished_result checked (s.recorded ticket.sendResult) s.last.result
  constructor
  · intro h
    obtain ⟨done, hdone, -, hfailed, -⟩ := h.released
    cases hall.symm.trans hdone
    rw [hresult] at hfailed
    refine ⟨fun r hr hpos => ?_, ?_⟩
    · -- A recorded count decides, so a failed last CQE would be no error.
      by_contra hlast
      have hcount : (s.recorded ticket.sendResult).getD s.last.result = r := by
        rw [Option.mem_def.mp hr, Option.getD_some]
      obtain ⟨e, he⟩ := hfailed (Or.inr (Int32.not_le.mp hlast))
      rw [zcResult_of_nonneg (by rw [hcount]; exact hpos)] at he
      cases he
    · rintro rfl hmin
      obtain ⟨e, he⟩ := hfailed (ZcSequence.failed_iff.mpr (Or.inl (by rw [hmin]; decide)))
      rw [zcResult_of_min hmin] at he
      cases he
  · rintro ⟨hcount, hmin⟩
    -- The deciding CQE has failed if any has.
    have hdecides : s.Failed ticket.sendResult ↔
        (s.recorded ticket.sendResult).getD s.last.result < 0 := by
      rw [ZcSequence.failed_iff]
      refine ⟨fun h => h.elim id fun hlast => ?_, Or.inl⟩
      cases hsent : s.recorded ticket.sendResult with
      | none => exact hlast
      | some r =>
          refine Int32.not_le.mp fun hpos => ?_
          exact absurd hlast (Int32.not_lt.mpr (hcount r hsent hpos))
    refine ⟨fun es hes => ticket.held s hes, _, hall, hstorage, fun hfailed => ?_, fun hfine => ?_⟩
    · rw [hresult]
      exact zcResult_of_neg (hdecides.mp hfailed) hmin
    · rw [hresult]
      exact zcResult_of_nonneg (Int32.not_lt.mp fun hneg => hfine (hdecides.mpr hneg))

/-! ### A count that hides an error -/

/-- A zero-copy send of eight bytes. -/
def eightBytes : ZcTicket Unit Unit 0 :=
  .zc ((⟨(), ⟨3⟩, 8, ⟨0⟩, 4096⟩ : PreparedZc Unit).intoPending ⟨0⟩ ⟨1⟩).2

/-- Five bytes are accepted, then the notification reports an error. -/
def acceptedThenFailed : ZcSequence eightBytes.ring eightBytes.id where
  before := [⟨⟨0⟩, ⟨1, 5, CqeFlags.MORE⟩, true⟩]
  last := ⟨1, -5, ⟨0⟩⟩
  more := by decide
  own := rfl
  ends := rfl

/-- The error of the terminal CQE is not reported. -/
theorem zcLifecycle_hidden_error : ¬ ZcLifecycle false eightBytes acceptedThenFailed := by
  rintro ⟨-, done, hdone, -, hfailed, -⟩
  obtain ⟨e, he⟩ := hfailed (Or.inr (by decide))
  have hrun : eightBytes.reapAll acceptedThenFailed.all =
      .released (.zc ⟨(), ⟨1⟩, some 5, -5⟩) := rfl
  cases hrun.symm.trans hdone
  have hcount : (ZcFinished.zc ⟨(), ⟨1⟩, some 5, -5⟩ : ZcFinished Unit Unit 0).result false =
      some (.ok 5) := rfl
  cases hcount.symm.trans he

end Ququmatz
