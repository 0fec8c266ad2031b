import Ququmatz.Proofs.Pool.Basic

/-!
# `Ququmatz.Proofs.Pool.Ledger`: a token goes back to the pool that minted it

The ledger keeps its law exactly as long as every token is given back to its own pool.
`Balanced` is the invariant of one pool: a ledger bit is set exactly while one token for
its slot is outstanding, and the acknowledgements of a slot are its returns plus that bit.
A token that goes to another pool either panics there, or unbalances that pool at once
(`Inv.strayed`): `AcknowledgedBuffer` carries an id and a length, but not its pool.
-/

set_option autoImplicit false

namespace Ququmatz

open Lib

/-! ### Counting tokens -/

section Count

variable {α : Type} {q : α → Bool} {l : List α} {k : Nat} {a c : α}

theorem countP_set_same (h : l[k]? = some a) (hq : q c = q a) :
    (l.set k c).countP q = l.countP q := by
  obtain ⟨hk, rfl⟩ := List.getElem?_eq_some_iff.mp h
  rw [List.countP_set hk, hq]
  cases hb : q l[k] with
  | false => rfl
  | true =>
      have hpos : 0 < l.countP q := List.countP_pos_iff.mpr ⟨_, List.getElem_mem hk, hb⟩
      simp only [if_true]
      omega

theorem countP_set_less (h : l[k]? = some a) (hq : q a = true) (hq' : q c = false) :
    (l.set k c).countP q + 1 = l.countP q := by
  obtain ⟨hk, rfl⟩ := List.getElem?_eq_some_iff.mp h
  have hpos : 0 < l.countP q := List.countP_pos_iff.mpr ⟨_, List.getElem_mem hk, hq⟩
  rw [List.countP_set hk, hq, hq']
  simp only [if_true, Bool.false_eq_true, if_false]
  omega

/-- Another element than the one that is replaced stays. -/
theorem mem_set_of_ne {b : α} (h : l[k]? = some a) (hb : b ∈ l) (hne : b ≠ a) :
    b ∈ l.set k c := by
  obtain ⟨j, hj, rfl⟩ := List.mem_iff_getElem.mp hb
  have hkj : k ≠ j := by
    rintro rfl
    exact hne (List.getElem?_eq_some_iff.mp h).2
  refine List.mem_of_getElem? (i := j) ?_
  rw [List.getElem?_set_ne hkj, List.getElem?_eq_getElem hj]

end Count

variable {ι : Type} [DecidableEq ι]

/-- Whether a token stands for slot `b` of pool `i` and was not given back. -/
def Token.isOpen (i : ι) (b : UInt16) (t : Token ι) : Bool :=
  t.names i b && decide (t.state ≠ .spent)

theorem Token.names_iff {i : ι} {b : UInt16} {t : Token ι} :
    t.names i b = true ↔ t.mintedBy = i ∧ t.token.bufId = b := by
  simp [Token.names]

theorem Token.isOpen_iff {i : ι} {b : UInt16} {t : Token ι} :
    t.isOpen i b = true ↔ (t.mintedBy = i ∧ t.token.bufId = b) ∧ t.state ≠ .spent := by
  simp [Token.isOpen, Token.names_iff]

theorem Token.names_of_ne {i : ι} {t : Token ι} (h : t.mintedBy ≠ i) (b : UInt16) :
    t.names i b = false := by
  simp [Token.names, h]

theorem Token.isOpen_of_ne {i : ι} {t : Token ι} (h : t.mintedBy ≠ i) (b : UInt16) :
    t.isOpen i b = false := by
  simp [Token.isOpen, Token.names, h]

/-! ### One pool -/

/-- The returns of slot `b` since the registration. -/
def ProvidedBufferRing.returns (p : ProvidedBufferRing) (b : UInt16) : Nat :=
  (p.produced.drop p.entries.toNat).countP fun e => e.bid == b

/-- A slot that was given back has one more return, and no other slot has. -/
theorem ProvidedBufferRing.GaveBack.returns_eq {p p' : ProvidedBufferRing} {bufId : UInt16}
    (hg : p.GaveBack p' bufId) (hbase : p.entries.toNat ≤ p.produced.length) (b : UInt16) :
    p'.returns b = p.returns b + if bufId = b then 1 else 0 := by
  obtain ⟨e, he, hprod⟩ := hg.produced_eq
  unfold ProvidedBufferRing.returns
  -- the new descriptor lies behind the ones of the registration
  rw [hprod, hg.entries_eq, List.drop_append_of_le_length hbase, List.countP_append]
  simp [he]

/-- The balance of pool `i` with the tokens of a run. -/
structure Balanced (p : ProvidedBufferRing) (i : ι) (tokens : List (Token ι)) : Prop where
  entries_le : p.entries ≤ MAX_PBUF_RING_ENTRIES
  base : p.entries.toNat ≤ p.produced.length
  slots : ∀ t ∈ tokens, t.mintedBy = i → p.HasSlot t.token.bufId
  outstanding : ∀ b, tokens.countP (Token.isOpen i b) = (p.bit b).toNat
  balance : ∀ b, tokens.countP (Token.names i b) = p.returns b + (p.bit b).toNat

namespace Balanced

variable {p p' : ProvidedBufferRing} {i : ι} {tokens : List (Token ι)}

/-- A token that was not given back holds the ledger bit of its slot. -/
theorem bit_of_open (h : Balanced p i tokens) {t : Token ι} (ht : t ∈ tokens)
    (hi : t.mintedBy = i) (hopen : t.state ≠ .spent) : p.bit t.token.bufId = true := by
  have hpos : 0 < tokens.countP (Token.isOpen i t.token.bufId) :=
    List.countP_pos_iff.mpr ⟨t, ht, Token.isOpen_iff.mpr ⟨⟨hi, rfl⟩, hopen⟩⟩
  rw [h.outstanding] at hpos
  cases hb : p.bit t.token.bufId with
  | true => rfl
  | false =>
      rw [hb] at hpos
      exact absurd hpos (Nat.lt_irrefl 0)

/-- A set ledger bit has a token that was not given back. -/
theorem exists_open (h : Balanced p i tokens) {b : UInt16} (hb : p.bit b = true) :
    ∃ t ∈ tokens, (t.mintedBy = i ∧ t.token.bufId = b) ∧ t.state ≠ .spent := by
  have hpos : 0 < tokens.countP (Token.isOpen i b) := by
    rw [h.outstanding, hb]
    exact Nat.one_pos
  obtain ⟨t, ht, hopen⟩ := List.countP_pos_iff.mp hpos
  exact ⟨t, ht, Token.isOpen_iff.mp hopen⟩

theorem fresh (h : p.Fresh) : Balanced p i [] := by
  have hbit : ∀ b, p.bit b = false := by
    intro b
    unfold ProvidedBufferRing.bit Bitmap.test
    rw [h.delivered_eq]
    simp
  exact
    { entries_le := h.entries_le
      base := h.length_produced.ge
      slots := by
        intro t ht
        cases ht
      outstanding := by
        intro b
        rw [hbit]
        rfl
      balance := by
        intro b
        unfold ProvidedBufferRing.returns
        rw [hbit, List.drop_of_length_le h.length_produced.le]
        rfl }

/-- A token of another pool does not count here. -/
theorem append_foreign (h : Balanced p i tokens) {t : Token ι} (ht : t.mintedBy ≠ i) :
    Balanced p i (tokens ++ [t]) where
  entries_le := h.entries_le
  base := h.base
  slots := by
    intro u hu hi
    cases List.mem_append.mp hu with
    | inl hu => exact h.slots u hu hi
    | inr hu =>
        rw [List.mem_singleton.mp hu] at hi
        exact absurd hi ht
  outstanding := by
    intro b
    rw [List.countP_append, h.outstanding]
    simp [Token.isOpen_of_ne ht]
  balance := by
    intro b
    rw [List.countP_append, h.balance]
    simp [Token.names_of_ne ht]

/-- The pool sets a clear bit and mints its token. -/
theorem mint (h : Balanced p i tokens) {b : UInt16} (len : UInt32) (hslot : p.HasSlot b)
    (hbit : p.bit b = false) :
    Balanced (p.withBit b true) i (tokens ++ [⟨i, ⟨b, len⟩, .held⟩]) where
  entries_le := h.entries_le
  base := h.base
  slots := by
    intro u hu hi
    cases List.mem_append.mp hu with
    | inl hu => exact h.slots u hu hi
    | inr hu =>
        rw [List.mem_singleton.mp hu]
        exact hslot
  outstanding := by
    intro c
    rw [List.countP_append, h.outstanding, ProvidedBufferRing.bit_withBit]
    by_cases hc : b = c
    · -- the bit was clear, so the new token is the only open one of its slot
      subst hc
      simp [hbit, Token.isOpen, Token.names]
    · simp [hc, Token.isOpen, Token.names]
  balance := by
    intro c
    rw [List.countP_append, h.balance, ProvidedBufferRing.bit_withBit]
    show p.returns c + _ + _ = p.returns c + _
    by_cases hc : b = c
    · subst hc
      simp [hbit, Token.names]
    · simp [hc, Token.names]

/-- A change of a token's state moves no token to another slot. -/
theorem slots_set (h : Balanced p i tokens) {k : Nat} {t : Token ι} (ht : tokens[k]? = some t)
    (state : TokenState) :
    ∀ u ∈ tokens.set k { t with state := state }, u.mintedBy = i → p.HasSlot u.token.bufId := by
  intro u hu hi
  cases List.mem_or_eq_of_mem_set hu with
  | inl hu => exact h.slots u hu hi
  | inr hu =>
      subst hu
      exact h.slots t (List.mem_of_getElem? ht) hi

/-- A token whose change is not seen by this pool: it is another pool's, or is only lost. -/
theorem set_unseen (h : Balanced p i tokens) {k : Nat} {t : Token ι} (ht : tokens[k]? = some t)
    {state : TokenState}
    (hseen : ∀ b, Token.isOpen i b { t with state := state } = Token.isOpen i b t) :
    Balanced p i (tokens.set k { t with state := state }) where
  entries_le := h.entries_le
  base := h.base
  slots := h.slots_set ht state
  outstanding := by
    intro b
    rw [countP_set_same ht (hseen b), h.outstanding]
  balance := by
    intro b
    rw [countP_set_same ht (by rfl), h.balance]

/-- The pool takes its own token back. -/
theorem giveBack (h : Balanced p i tokens) {k : Nat} {t : Token ι} (ht : tokens[k]? = some t)
    (hi : t.mintedBy = i) (hheld : t.state = .held) (hg : p.GaveBack p' t.token.bufId) :
    Balanced p' i (tokens.set k { t with state := .spent }) := by
  have hbit : p.bit t.token.bufId = true := by
    refine h.bit_of_open (List.mem_of_getElem? ht) hi ?_
    rw [hheld]
    decide
  exact
    { entries_le := by
        rw [hg.entries_eq]
        exact h.entries_le
      base := by
        obtain ⟨e, -, hprod⟩ := hg.produced_eq
        rw [hg.entries_eq, hprod, List.length_append]
        exact Nat.le_add_right_of_le h.base
      slots := by
        intro u hu hu'
        unfold ProvidedBufferRing.HasSlot
        rw [hg.entries_eq]
        exact h.slots_set ht _ u hu hu'
      outstanding := by
        intro b
        rw [hg.bit_eq]
        by_cases hb : t.token.bufId = b
        · -- one open token fewer, in step with the bit that is cleared
          subst hb
          have hless := countP_set_less (q := Token.isOpen i t.token.bufId)
            (c := { t with state := .spent }) ht
            (Token.isOpen_iff.mpr ⟨⟨hi, rfl⟩, by rw [hheld]; decide⟩) (by simp [Token.isOpen])
          rw [h.outstanding, hbit] at hless
          simpa using hless
        · have hsame := countP_set_same (q := Token.isOpen i b)
            (c := { t with state := .spent }) ht (by simp [Token.isOpen, Token.names, hb])
          rw [hsame, h.outstanding, if_neg hb]
      balance := by
        intro b
        -- the slot moves from the set bits to the returns
        rw [countP_set_same ht (by rfl), h.balance, hg.returns_eq h.base, hg.bit_eq]
        by_cases hb : t.token.bufId = b
        · subst hb
          rw [hbit]
          simp
        · simp [hb] }

end Balanced

/-! ### The system -/

namespace LedgerSys

/-- Every pool is balanced. -/
def Inv (s : LedgerSys ι) : Prop := ∀ i, Balanced (s.pools i) i s.tokens

omit [DecidableEq ι] in
theorem heldToken_eq_some {s : LedgerSys ι} {tok : Nat} {t : Token ι} :
    s.heldToken tok = some t ↔ s.tokens[tok]? = some t ∧ t.state = .held := by
  simp [heldToken, Option.filter_eq_some_iff]

theorem Inv.law {s : LedgerSys ι} (h : s.Inv) : s.Law where
  once := by
    intro i b
    show (s.pools i).returns b ≤ s.tokens.countP _
    rw [(h i).balance]
    exact Nat.le_add_right _ _
  guarded := by
    intro t ht hopen len
    have hp := h t.mintedBy
    rw [ProvidedBufferRing.acknowledge_eq _ _ hp.entries_le]
    by_cases hr : t.token.bufId.toUInt32 ≥ (s.pools t.mintedBy).entries ∨
        len > (s.pools t.mintedBy).bufSize
    · rw [if_pos hr]
      exact ⟨_, rfl⟩
    · rw [if_neg hr, hp.bit_of_open ht rfl hopen]
      exact ⟨_, rfl⟩

theorem Inv.acknowledge {s : LedgerSys ι} (h : s.Inv) (i : ι) (b : UInt16) (len : UInt32) :
    ∃ s', s.step (.acknowledge i b len) = .ok s' ∧ s'.Inv := by
  have hi := h i
  -- a refused acknowledgement writes the pool back as it was
  have hself : s.setPool i (s.pools i) = s := by
    unfold setPool
    rw [Function.update_eq_self]
  simp only [step]
  rw [ProvidedBufferRing.acknowledge_eq _ _ hi.entries_le]
  by_cases hr : b.toUInt32 ≥ (s.pools i).entries ∨ len > (s.pools i).bufSize
  · rw [if_pos hr]
    exact ⟨_, rfl, hself.symm ▸ h⟩
  · rw [if_neg hr]
    -- a slot whose bit is set is acknowledged already, and has its token
    cases hb : (s.pools i).bit b with
    | true => exact ⟨_, rfl, hself.symm ▸ h⟩
    | false =>
        refine ⟨_, rfl, fun j => ?_⟩
        have hslot : (s.pools i).HasSlot b := UInt32.not_le.mp fun hle => hr (Or.inl hle)
        show Balanced (Function.update s.pools i _ j) j (s.tokens ++ [_])
        by_cases hj : j = i
        · subst hj
          rw [Function.update_self]
          exact hi.mint len hslot hb
        · rw [Function.update_of_ne hj]
          exact (h j).append_foreign (Ne.symm hj)

theorem Inv.lose {s : LedgerSys ι} (h : s.Inv) (tok : Nat) :
    ∃ s', s.step (.lose tok) = .ok s' ∧ s'.Inv := by
  simp only [step]
  cases ht : s.heldToken tok with
  | none => exact ⟨s, rfl, h⟩
  | some t =>
      obtain ⟨hget, hheld⟩ := heldToken_eq_some.mp ht
      refine ⟨s.setState tok t .lost, rfl, fun j => (h j).set_unseen hget fun b => ?_⟩
      simp [Token.isOpen, Token.names, hheld]

/-- A token given back to the pool that minted it. -/
theorem Inv.giveBack {s : LedgerSys ι} (h : s.Inv) {i : ι} {tok : Nat}
    {call : AcknowledgedBuffer → Except Panic ProvidedBufferRing}
    (hcall : (s.pools i).TakesBack call)
    (hhome : ∀ t, s.heldToken tok = some t → t.mintedBy = i) :
    ∃ s', s.giveBack i tok call = .ok s' ∧ s'.Inv := by
  unfold LedgerSys.giveBack
  cases ht : s.heldToken tok with
  | none => exact ⟨s, rfl, h⟩
  | some t =>
      obtain ⟨hget, hheld⟩ := heldToken_eq_some.mp ht
      have hi : t.mintedBy = i := hhome t ht
      have hslot := (h i).slots t (List.mem_of_getElem? hget) hi
      obtain ⟨p', hok, hg⟩ := hcall.ok t.token
        (ProvidedBufferRing.byte_lt (h i).entries_le hslot) hslot
      simp only [hok]
      -- the pool that takes the token back, and every other one
      refine ⟨_, rfl, fun j => ?_⟩
      show Balanced (Function.update s.pools i p' j) j (s.tokens.set tok _)
      by_cases hj : j = i
      · subst hj
        rw [Function.update_self]
        exact (h j).giveBack hget hi hheld hg
      · rw [Function.update_of_ne hj]
        refine (h j).set_unseen hget fun b => ?_
        have hne : t.mintedBy ≠ j := fun he => hj (he.symm.trans hi)
        rw [Token.isOpen_of_ne hne]
        exact Token.isOpen_of_ne (t := { t with state := .spent }) hne b

/-- A token given to another pool: the call panics, or the law is broken after it. The slot
of that pool was either free, and has now been returned without an acknowledgement, or
acknowledged, and its own token is no longer guarded. -/
theorem Inv.strayed {s : LedgerSys ι} (h : s.Inv) {i : ι} {tok : Nat} {t : Token ι}
    {call : AcknowledgedBuffer → Except Panic ProvidedBufferRing}
    (hcall : (s.pools i).TakesBack call) (ht : s.heldToken tok = some t) (hi : t.mintedBy ≠ i)
    {s' : LedgerSys ι} (hs : s.giveBack i tok call = .ok s') : ¬ s'.Law := by
  intro hlaw
  obtain ⟨hget, hheld⟩ := heldToken_eq_some.mp ht
  have hmem := List.mem_of_getElem? hget
  have hbyte := ProvidedBufferRing.byte_lt (h t.mintedBy).entries_le
    ((h t.mintedBy).slots t hmem rfl)
  unfold LedgerSys.giveBack at hs
  rw [ht] at hs
  by_cases hslot : (s.pools i).HasSlot t.token.bufId
  swap
  · simp only [hcall.panics t.token hbyte hslot] at hs
    cases hs
  obtain ⟨p', hok, hg⟩ := hcall.ok t.token hbyte hslot
  simp only [hok] at hs
  have hs' : s' = (s.setPool i p').setState tok t .spent := (Except.ok.inj hs).symm
  have hpool : s'.pools i = p' := by
    rw [hs']
    exact Function.update_self _ _ _
  have htokens : s'.tokens = s.tokens.set tok { t with state := .spent } := by
    rw [hs']
    rfl
  -- after the call the slot was returned once more, so its bit was set before it
  have hbit : (s.pools i).bit t.token.bufId = true := by
    have honce := hlaw.once i t.token.bufId
    unfold LedgerSys.returned LedgerSys.acknowledged at honce
    rw [hpool, htokens, countP_set_same hget (by rfl), (h i).balance] at honce
    change p'.returns t.token.bufId ≤ _ at honce
    rw [hg.returns_eq (h i).base, if_pos rfl] at honce
    cases hb : (s.pools i).bit t.token.bufId with
    | true => rfl
    | false =>
        rw [hb, Bool.toNat_false] at honce
        omega
  -- the token behind that bit is still out, but the bit is clear now
  obtain ⟨u, hu, ⟨hui, hub⟩, huopen⟩ := (h i).exists_open hbit
  have hu' : u ∈ s'.tokens := by
    rw [htokens]
    refine mem_set_of_ne hget hu ?_
    rintro rfl
    exact hi hui
  obtain ⟨e, he⟩ := hlaw.guarded u hu' huopen 0
  have hmax : p'.entries ≤ MAX_PBUF_RING_ENTRIES := by
    rw [hg.entries_eq]
    exact (h i).entries_le
  have hfree : ¬ (u.token.bufId.toUInt32 ≥ p'.entries ∨ (0 : UInt32) > p'.bufSize) := by
    rw [hub, hg.entries_eq]
    rintro (hle | hlt)
    · exact UInt32.not_lt.mpr hle hslot
    · exact UInt32.not_lt_zero hlt
  rw [hui, hpool, ProvidedBufferRing.acknowledge_eq _ _ hmax, if_neg hfree, hg.bit_eq, hub,
    if_pos rfl] at he
  cases he

theorem Inv.init {pools : ι → ProvidedBufferRing} (h : ∀ i, (pools i).Fresh) :
    (LedgerSys.init pools).Inv :=
  fun i => Balanced.fresh (h i)

/-- A step that is homed keeps the balance, and does not panic. -/
theorem Inv.step {s : LedgerSys ι} (h : s.Inv) {a : LedgerAction ι} (ha : s.homed a = true) :
    ∃ s', s.step a = .ok s' ∧ s'.Inv := by
  cases a with
  | acknowledge i b len => exact h.acknowledge i b len
  | lose tok => exact h.lose tok
  | recycleAcknowledged i tok =>
      refine h.giveBack (ProvidedBufferRing.takesBack_recycleAcknowledged _) fun t ht => ?_
      simpa [homed, ht] using ha
  | recycleAcknowledgedAndCommit i tok =>
      refine h.giveBack (ProvidedBufferRing.takesBack_recycleAcknowledgedAndCommit _) fun t ht => ?_
      simpa [homed, ht] using ha

/-- A step that is not homed panics, or breaks the law. -/
theorem Inv.homed_of_law {s s' : LedgerSys ι} (h : s.Inv) {a : LedgerAction ι}
    (hs : s.step a = .ok s') (hlaw : s'.Law) : s.homed a = true := by
  cases a with
  | acknowledge i b len => rfl
  | lose tok => rfl
  | recycleAcknowledged i tok =>
      cases ht : s.heldToken tok with
      | none => simp [homed, ht]
      | some t =>
          by_contra hne
          have hi : t.mintedBy ≠ i := by simpa [homed, ht] using hne
          exact h.strayed (ProvidedBufferRing.takesBack_recycleAcknowledged _) ht hi hs hlaw
  | recycleAcknowledgedAndCommit i tok =>
      cases ht : s.heldToken tok with
      | none => simp [homed, ht]
      | some t =>
          by_contra hne
          have hi : t.mintedBy ≠ i := by simpa [homed, ht] using hne
          exact h.strayed (ProvidedBufferRing.takesBack_recycleAcknowledgedAndCommit _) ht hi hs
            hlaw

theorem Lawful.law {as : List (LedgerAction ι)} {s : LedgerSys ι} (h : Lawful as s) : s.Law := by
  cases as with
  | nil => exact h
  | cons a as => exact h.1

/-- From a balanced state, a run is lawful if and only if all of it is homed. -/
theorem Inv.lawful_iff {as : List (LedgerAction ι)} {s : LedgerSys ι} (h : s.Inv) :
    Lawful as s ↔ allHomed as s = true := by
  induction as generalizing s with
  | nil => exact ⟨fun _ => rfl, fun _ => h.law⟩
  | cons a as ih =>
      show (s.Law ∧ ∃ s', s.step a = .ok s' ∧ Lawful as s') ↔ (s.homed a && _) = true
      rw [Bool.and_eq_true]
      constructor
      · rintro ⟨-, s1, hs1, hrest⟩
        -- the law after the step says that the step was homed, so the balance is kept
        have hhome := h.homed_of_law hs1 hrest.law
        obtain ⟨s2, hs2, hinv⟩ := h.step hhome
        rw [hs1] at hs2
        cases hs2
        rw [hs1]
        exact ⟨hhome, (ih hinv).mp hrest⟩
      · rintro ⟨hhome, hrest⟩
        obtain ⟨s1, hs1, hinv⟩ := h.step hhome
        rw [hs1] at hrest
        exact ⟨h.law, s1, hs1, (ih hinv).mpr hrest⟩

end LedgerSys

/-- Over any family of registered pools and any calls on them, every slot goes back at most
once per acknowledgement, outstanding slots stay guarded and nothing panics, if and only if
each token that is given back is given to the pool that minted it. -/
theorem acknowledged_returned_once_iff {ι : Type} [DecidableEq ι] (pools : ι → ProvidedBufferRing)
    (h : ∀ i, ∃ flags, Registered flags (pools i)) (as : List (LedgerAction ι)) :
    LedgerSys.Lawful as (LedgerSys.init pools) ↔
      LedgerSys.allHomed as (LedgerSys.init pools) = true := by
  refine (LedgerSys.Inv.init fun i => ?_).lawful_iff
  obtain ⟨flags, hi⟩ := h i
  exact hi.fresh

/-- A pool of two slots of 64 bytes. -/
def twoSlots : ProvidedBufferRing :=
  ((ProvidedBufferRing.mapped ⟨3⟩ 0 2 64 4096 32 8192 128).populate 2).commit

/-- A pool of four slots of 64 bytes. -/
def fourSlots : ProvidedBufferRing :=
  ((ProvidedBufferRing.mapped ⟨3⟩ 1 4 64 12288 64 16384 256).populate 4).commit

/-- The two pools together. -/
def twoPools : Bool → ProvidedBufferRing
  | false => twoSlots
  | true => fourSlots

/-- The kernel's answers to a registration that succeeds. -/
def accepting (ringAddr bufsAddr : Nat) : List (Round answerMachine) :=
  [⟨[], .ok ringAddr⟩, ⟨[], .ok bufsAddr⟩, ⟨[], .ok 0⟩, ⟨[], .ok 0⟩]

theorem registered_twoPools (i : Bool) : ∃ flags, Registered flags (twoPools i) := by
  cases i with
  | false => exact ⟨.empty, 64, ⟨3⟩, 0, 2, 64, accepting 4096 8192, _, rfl⟩
  | true => exact ⟨.empty, 64, ⟨3⟩, 1, 4, 64, accepting 12288 16384, _, rfl⟩

/-- Two pools with the same id outstanding, each token given back to its own pool. -/
theorem acknowledged_returned_once_homed :
    LedgerSys.Lawful [.acknowledge false 1 10, .acknowledge true 1 20, .acknowledge true 1 5,
      .recycleAcknowledged true 1, .recycleAcknowledgedAndCommit false 0, .acknowledge true 1 7,
      .lose 2, .acknowledge true 1 9] (LedgerSys.init twoPools) :=
  (acknowledged_returned_once_iff twoPools registered_twoPools _).mpr (by decide +kernel)

/-- The token for slot 1 of the larger pool, given to the smaller one, returns a slot that
was never acknowledged there; the token for slot 3 makes the smaller pool panic. -/
theorem acknowledged_token_strays :
    (∀ i, ∃ flags, Registered flags (twoPools i)) ∧
    (do
      let s ← (LedgerSys.init twoPools).step (.acknowledge true 1 10)
      let s ← s.step (.recycleAcknowledged false 0)
      return (s.returned false 1, s.acknowledged false 1)) = .ok (1, 0) ∧
    (do
      let s ← (LedgerSys.init twoPools).step (.acknowledge true 3 10)
      let s ← s.step (.recycleAcknowledged false 0)
      return s.tokens.length) = .error Panic.bufIdOutOfRange ∧
    ¬ LedgerSys.Lawful [.acknowledge true 1 10, .recycleAcknowledged false 0]
      (LedgerSys.init twoPools) ∧
    ¬ LedgerSys.Lawful [.acknowledge true 3 10, .recycleAcknowledged false 0]
      (LedgerSys.init twoPools) := by
  have hinv : (LedgerSys.init twoPools).Inv := LedgerSys.Inv.init fun i => by
    obtain ⟨flags, hi⟩ := registered_twoPools i
    exact hi.fresh
  refine ⟨registered_twoPools, by decide +kernel, by decide +kernel, ?_, ?_⟩
  · rw [hinv.lawful_iff]
    decide +kernel
  · rw [hinv.lawful_iff]
    decide +kernel

end Ququmatz
