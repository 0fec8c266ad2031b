import Ququmatz.Owned.Outcome

/-!
# `Ququmatz.Proofs.Owned.Outcome`: when a result is read as a failure

A decoder is right about a result when it reads a failure only in a negative one, and then the
errno is positive and the result is its negation (`Reads`). Decoders that negate after they have
tested the sign are right about every result but `i32::MIN`, whose negation overflows
(`reads_of_sign`). The decoder of a futex wait does not test the sign, so that it calls every
positive result a failure (`reads_futexWait`).
-/

set_option autoImplicit false

namespace Ququmatz

/-- The decoder does not panic, and a failure that it reads is that of the result. -/
def Reads (result : Int32) (decoded : Option (Option Errno)) : Prop :=
  ∃ failure, decoded = some failure ∧
    ∀ e, failure = some e → result < 0 ∧ 0 < e.raw ∧ -e.raw = result

variable {checked : Bool} {result : Int32}

theorem reads_success : Reads result (some none) := ⟨none, rfl, fun _ he => by cases he⟩

/-! ### Negating a result -/

theorem Errno.ofNegated_of_ne (h : result ≠ Int32.minValue) :
    ofNegated checked result = some ⟨-result⟩ := by
  refine if_neg fun hc => ?_
  exact h (beq_iff_eq.mp (Bool.and_eq_true_iff.mp hc).2)

/-- Negation gives the errno of a negative result whose negation does not overflow. -/
theorem reads_ofNegated_iff :
    Reads result ((Errno.ofNegated checked result).map some) ↔
      result < 0 ∧ result ≠ Int32.minValue := by
  constructor
  · rintro ⟨failure, hsome, hfailure⟩
    obtain ⟨e, he, rfl⟩ := Option.map_eq_some_iff.mp hsome
    obtain ⟨hneg, hpos, -⟩ := hfailure e rfl
    refine ⟨hneg, ?_⟩
    rintro rfl
    cases checked with
    | true => cases he
    | false =>
        -- without overflow checks the negation of `i32::MIN` is itself
        cases he
        exact absurd hpos (by decide)
  · rintro ⟨hneg, hmin⟩
    rw [Errno.ofNegated_of_ne hmin]
    refine ⟨_, rfl, fun e he => ?_⟩
    cases he
    refine ⟨hneg, Int32.not_le.mp fun hle => ?_, Int32.neg_neg⟩
    rcases Int32.neg_nonpos_iff result |>.mp hle with h | h
    · exact hmin h
    · exact absurd hneg (Int32.not_lt.mpr h)

/-! ### Decoders that test the sign -/

/-- A decoder that negates the negative results. -/
theorem reads_of_sign :
    Reads result (if result < 0 then (Errno.ofNegated checked result).map some else some none) ↔
      result ≠ Int32.minValue := by
  by_cases hneg : result < 0
  · rw [if_pos hneg, reads_ofNegated_iff]
    exact and_iff_right hneg
  · rw [if_neg hneg]
    refine iff_of_true reads_success ?_
    rintro rfl
    exact hneg (by decide)

/-- A decoder that names some of them first. -/
theorem reads_classify {O : Type} {errno : O → Option Errno} {named : List (Int32 × O)}
    {failed : Errno → O} {success : Int32 → O} (hfailed : ∀ e, errno (failed e) = some e)
    (hsuccess : ∀ r, errno (success r) = none) (hnamed : ∀ p ∈ named, errno p.2 = none)
    (hmin : named.lookup Int32.minValue = none) :
    Reads result ((classify checked named failed success result).map errno) ↔
      result ≠ Int32.minValue := by
  rw [classify]
  cases hlookup : named.lookup result with
  | some outcome =>
      -- a result with a name of its own is no failure, and `i32::MIN` has none
      obtain ⟨before, after, rfl, -⟩ := List.lookup_eq_some_iff.mp hlookup
      have herrno : errno outcome = none := hnamed (result, outcome) (by simp)
      dsimp only [Option.map_some]
      rw [herrno]
      refine iff_of_true reads_success ?_
      rintro rfl
      rw [hmin] at hlookup
      cases hlookup
  | none =>
      -- any other result is read by its sign
      have hsign : (if result < 0 then (Errno.ofNegated checked result).map failed
            else some (success result)).map errno =
          if result < 0 then (Errno.ofNegated checked result).map some else some none := by
        split
        · rw [Option.map_map]
          exact congrArg (Option.map · _) (funext hfailed)
        · exact congrArg some (hsuccess result)
      dsimp only
      rw [hsign]
      exact reads_of_sign

theorem reads_fromFailedCqe :
    Reads result ((Error.fromFailedCqe checked result).map (·.bind Error.errno)) ↔
      result ≠ Int32.minValue := by
  have hsign : (Error.fromFailedCqe checked result).map (·.bind Error.errno) =
      if result < 0 then (Errno.ofNegated checked result).map some else some none := by
    rw [Error.fromFailedCqe, Errno.ofNegated]
    split
    · split <;> rfl
    · rfl
  rw [hsign]
  exact reads_of_sign

theorem reads_update (requested : UInt32) :
    Reads result ((Update.fromRaw checked result requested).map Update.errno) ↔
      result ≠ Int32.minValue := by
  have hsign : (Update.fromRaw checked result requested).map Update.errno =
      if result < 0 then (Errno.ofNegated checked result).map some else some none := by
    rw [Update.fromRaw]
    dsimp only
    split
    · rw [Option.map_map]
      rfl
    · split <;> rfl
  rw [hsign]
  exact reads_of_sign

/-! ### The decoder that does not -/

theorem reads_futexWait :
    Reads result ((FutexWaitOutcome.fromRaw checked result).map FutexWaitOutcome.errno) ↔
      result ≠ Int32.minValue ∧ result ≤ 0 := by
  rw [FutexWaitOutcome.fromRaw]
  by_cases h0 : result = 0
  · rw [if_pos h0, h0]
    exact iff_of_true reads_success ⟨by decide, by decide⟩
  · rw [if_neg h0]
    by_cases hagain : result = FutexWaitOutcome.EAGAIN
    · rw [if_pos hagain, hagain]
      exact iff_of_true reads_success ⟨by decide, by decide⟩
    · rw [if_neg hagain]
      by_cases hcanceled : result = FutexWaitOutcome.ECANCELED
      · rw [if_pos hcanceled, hcanceled]
        exact iff_of_true reads_success ⟨by decide, by decide⟩
      · rw [if_neg hcanceled, Option.map_map]
        -- any other result is negated, also a positive one: no sign is checked here
        have hiff : result < 0 ↔ result ≤ 0 :=
          ⟨Int32.le_of_lt, fun hle => Int32.lt_of_le_of_ne hle h0⟩
        rw [← hiff, and_comm]
        exact reads_ofNegated_iff

/-! ### All decoders -/

/-- A decoder is right about every result that has a negation; that of a futex wait, about
those that are not positive. -/
theorem Decoder.reads_iff (checked : Bool) (result : Int32) (d : Decoder) :
    Reads result (d.failure checked result) ↔
      result ≠ Int32.minValue ∧ (d = .futexWait → result ≤ 0) := by
  have hother : d ≠ .futexWait →
      ((result ≠ Int32.minValue ∧ (d = .futexWait → result ≤ 0)) ↔ result ≠ Int32.minValue) :=
    fun hne => and_iff_left fun h => absurd h hne
  cases d with
  | error =>
      rw [hother (by decide)]
      exact reads_fromFailedCqe
  | cancel =>
      rw [hother (by decide)]
      exact reads_classify (fun _ => rfl) (fun _ => rfl) (by decide) (by decide)
  | expiry =>
      rw [hother (by decide)]
      exact reads_classify (fun _ => rfl) (fun _ => rfl) (by decide) (by decide)
  | futexWait =>
      rw [failure, reads_futexWait]
      exact and_congr_right' ⟨fun h _ => h, fun h => h rfl⟩
  | epoll =>
      rw [hother (by decide)]
      exact reads_classify (fun _ => rfl) (fun _ => rfl) (by decide) (by decide)
  | bind =>
      rw [hother (by decide)]
      exact reads_classify (fun _ => rfl) (fun _ => rfl) (by decide) (by decide)
  | connect =>
      rw [hother (by decide)]
      exact reads_classify (fun _ => rfl) (fun _ => rfl) (by decide) (by decide)
  | update requested =>
      rw [hother (by simp)]
      exact reads_update requested

/-- The decoder reads a failure. -/
def Decoder.Fails (checked : Bool) (result : Int32) (d : Decoder) : Prop :=
  ∃ e, d.failure checked result = some (some e)

/-- The decoders are right about the result, and agree on one that is no error. -/
structure DecodersLaw (checked : Bool) (result : Int32) : Prop where
  reads : ∀ d : Decoder, Reads result (d.failure checked result)
  agree : Error.cqeIsOk result = true →
    ∀ d d' : Decoder, d.Fails checked result ↔ d'.Fails checked result

/-- The decoders are right about a result together exactly when it has a negation and is not
positive. -/
theorem decodersLaw_iff (checked : Bool) (result : Int32) :
    DecodersLaw checked result ↔ result ≠ Int32.minValue ∧ result ≤ 0 := by
  constructor
  · intro h
    obtain ⟨hmin, hfutex⟩ := (Decoder.futexWait.reads_iff checked result).mp (h.reads _)
    exact ⟨hmin, hfutex rfl⟩
  · rintro ⟨hmin, hle⟩
    have hreads : ∀ d : Decoder, Reads result (d.failure checked result) :=
      fun d => (d.reads_iff checked result).mpr ⟨hmin, fun _ => hle⟩
    refine ⟨hreads, fun hok d d' => ?_⟩
    -- no decoder reads a failure in a result that is no error
    have hnone : ∀ d : Decoder, ¬ d.Fails checked result := by
      rintro d ⟨e, he⟩
      obtain ⟨failure, hsome, hfailure⟩ := hreads d
      rw [he] at hsome
      obtain ⟨hneg, -⟩ := hfailure e (Option.some.inj hsome).symm
      exact absurd hneg (Int32.not_lt.mpr (of_decide_eq_true hok))
    exact iff_of_false (hnone d) (hnone d')

/-- A positive result is a failed futex wait with a negative errno, where the other decoders see
a success; and the least result has no errno, whether overflow is checked or not. -/
theorem decodersLaw_one_min :
    FutexWaitOutcome.fromRaw true 1 = some (.failed ⟨-1⟩) ∧
      CancelOutcome.fromRaw true 1 = some (.applied 1) ∧ ¬ DecodersLaw true 1 ∧
      Error.fromFailedCqe true Int32.minValue = none ∧
      Error.fromFailedCqe false Int32.minValue
        = some (some (.completion (.failed ⟨Int32.minValue⟩))) ∧
      ¬ DecodersLaw true Int32.minValue ∧ ¬ DecodersLaw false Int32.minValue := by
  refine ⟨by decide, by decide, fun h => ?_, by decide, by decide, fun h => ?_, fun h => ?_⟩
  · obtain ⟨-, hle⟩ := (decodersLaw_iff true 1).mp h
    exact absurd hle (by decide)
  · obtain ⟨hmin, -⟩ := (decodersLaw_iff true _).mp h
    exact hmin rfl
  · obtain ⟨hmin, -⟩ := (decodersLaw_iff false _).mp h
    exact hmin rfl

end Ququmatz
