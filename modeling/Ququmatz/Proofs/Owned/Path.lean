import Ququmatz.Lib.CString
import Ququmatz.Owned.Path

/-!
# `Ququmatz.Proofs.Owned.Path`: an owned path is what the kernel reads

Both constructors leave the same behind (`Holds`): the first zero byte of the storage is at index
`len`, which is neither `0` nor past the end. That is a string of `Lib.CString`, so the kernel's
scan ends there, stays in the storage and gives `as_bytes` (`Holds.scan`, `Holds.scan_reads`), as
long as nobody else writes to the storage. `pathLaw` puts the parts together.
-/

set_option autoImplicit false

namespace Ququmatz

open Lib

variable {w : Width}

/-! ### The kernel's scan -/

section Scan

variable {m : Memory} {addr : Nat} {b : UInt8} {s : List UInt8}

/-- The scan ends at a zero byte. -/
theorem kernelPath_end (h : m.bytes addr = 0) (fuel : Nat) :
    kernelPath (fuel + 1) m addr = (some [], { m with reads := m.reads ++ [⟨addr, 1⟩] }) := by
  have hbyte : Bytes.load m.bytes addr 1 = [0] := congrArg (fun b => [b]) h
  rw [kernelPath]
  exact if_pos hbyte

/-- Any other byte is part of the path. -/
theorem kernelPath_next (h : m.bytes addr = b) (hb : b ≠ 0) (fuel : Nat) :
    kernelPath (fuel + 1) m addr =
      let rest := kernelPath fuel { m with reads := m.reads ++ [⟨addr, 1⟩] } (addr + 1)
      (rest.1.map (b :: ·), rest.2) := by
  have hbyte : Bytes.load m.bytes addr 1 = [b] := congrArg (fun b => [b]) h
  have hne : ¬ Bytes.load m.bytes addr 1 = [0] := by
    rw [hbyte]
    simpa using hb
  rw [kernelPath]
  refine (if_neg hne).trans ?_
  show ((kernelPath fuel _ (addr + 1)).1.map (Bytes.load m.bytes addr 1 ++ ·), _) = _
  rw [hbyte]
  rfl

/-- The kernel gets the string that stands at the address, if it is patient enough. -/
theorem kernelPath_fst (h : CString.At m.bytes addr s) (fuel : Nat) :
    (kernelPath fuel m addr).1 = if s.length < fuel then some s else none := by
  induction s generalizing fuel m addr with
  | nil =>
      cases fuel with
      | zero => rfl
      | succ fuel =>
          rw [kernelPath_end (CString.at_nil_iff.mp h)]
          exact (if_pos (Nat.succ_pos fuel)).symm
  | cons b s ih =>
      cases fuel with
      | zero => rfl
      | succ fuel =>
          obtain ⟨hhead, hb, htail⟩ := CString.at_cons_iff.mp h
          rw [kernelPath_next hhead hb, List.length_cons]
          have hrest := @ih { m with reads := m.reads ++ [⟨addr, 1⟩] } _ htail fuel
          dsimp only
          rw [hrest]
          by_cases hlt : s.length < fuel
          · rw [if_pos hlt, if_pos (Nat.succ_lt_succ hlt)]
            rfl
          · rw [if_neg hlt, if_neg fun hlt' => hlt (Nat.lt_of_succ_lt_succ hlt')]
            rfl

/-- It reads no byte past the zero byte. -/
theorem kernelPath_reads (h : CString.At m.bytes addr s) (fuel : Nat) :
    ∃ rs, (kernelPath fuel m addr).2.reads = m.reads ++ rs ∧
      ∀ r ∈ rs, addr ≤ r.start ∧ r.start + r.len ≤ addr + s.length + 1 := by
  induction s generalizing fuel m addr with
  | nil =>
      cases fuel with
      | zero => exact ⟨[], (List.append_nil _).symm, fun r hr => absurd hr List.not_mem_nil⟩
      | succ fuel =>
          rw [kernelPath_end (CString.at_nil_iff.mp h)]
          refine ⟨[⟨addr, 1⟩], rfl, fun r hr => ?_⟩
          rw [List.mem_singleton.mp hr]
          exact ⟨Nat.le_refl _, Nat.le_refl _⟩
  | cons b s ih =>
      cases fuel with
      | zero => exact ⟨[], (List.append_nil _).symm, fun r hr => absurd hr List.not_mem_nil⟩
      | succ fuel =>
          -- the first byte is not the end, and the kernel goes on behind it
          obtain ⟨hhead, hb, htail⟩ := CString.at_cons_iff.mp h
          obtain ⟨rs, hrs, hinside⟩ :=
            @ih { m with reads := m.reads ++ [⟨addr, 1⟩] } _ htail fuel
          rw [kernelPath_next hhead hb, List.length_cons]
          refine ⟨⟨addr, 1⟩ :: rs, ?_, fun r hr => ?_⟩
          · show (kernelPath fuel _ (addr + 1)).2.reads = _
            rw [hrs]
            simp
          · cases List.mem_cons.mp hr with
            | inl hr =>
                rw [hr]
                exact ⟨Nat.le_refl _, by show addr + 1 ≤ _; omega⟩
            | inr hr =>
                obtain ⟨hlow, hhigh⟩ := hinside r hr
                exact ⟨by omega, by omega⟩

end Scan

/-! ### What both constructors leave behind -/

namespace OwnedPath

/-- The memory agrees with `m` on the storage, whatever was done elsewhere. -/
def Untouched (storage : Storage w) (m m' : Memory) : Prop :=
  ∀ a, storage.memory.Has a → m'.bytes a = m.bytes a

/-- The path owns the storage, and the first zero byte of it is at index `len`. -/
structure Holds (q : OwnedPath w) (storage : Storage w) (m : Memory) : Prop where
  storageEq : q.storage = storage
  nonempty : 0 < q.len
  inside : q.len < storage.len
  string : CString.At m.bytes storage.addr.toNat (q.asBytes m)

section Holds

variable {q : OwnedPath w} {storage : Storage w} {m m' : Memory}

@[simp] theorem length_asBytes (q : OwnedPath w) (m : Memory) : (q.asBytes m).length = q.len :=
  Bytes.length_load _ _ _

/-- The zero byte is at index `len`, and there is none before it. -/
theorem Holds.first (h : q.Holds storage m) : m.bytes (storage.addr.toNat + q.len) = 0 ∧
    ∀ i < q.len, m.bytes (storage.addr.toNat + i) ≠ 0 := by
  have hend := h.string.ends
  rw [length_asBytes] at hend
  refine ⟨hend, fun i hi => h.string.nonzero _ ?_⟩
  rw [asBytes, h.storageEq]
  exact List.mem_map.mpr ⟨i, List.mem_range.mpr hi, rfl⟩

/-- The path is there as long as nobody writes to the storage. -/
theorem Holds.untouched (h : q.Holds storage m) (hm : Untouched storage m m') :
    q.Holds storage m' ∧ q.asBytes m' = q.asBytes m := by
  have hsame : ∀ i ≤ q.len, m'.bytes (storage.addr.toNat + i)
      = m.bytes (storage.addr.toNat + i) := by
    intro i hi
    have hin := h.inside
    refine hm _ ⟨Nat.le_add_right _ _, ?_⟩
    show storage.addr.toNat + i < storage.addr.toNat + storage.len
    omega
  have hbytes : q.asBytes m' = q.asBytes m := by
    rw [asBytes, asBytes, h.storageEq]
    exact List.map_congr_left fun i hi => hsame i (Nat.le_of_lt (List.mem_range.mp hi))
  refine ⟨⟨h.storageEq, h.nonempty, h.inside, ?_⟩, hbytes⟩
  rw [hbytes]
  exact h.string.congr fun i hi => hsame i (length_asBytes q m ▸ hi)

/-- A scan from the path's address gives the path's bytes. -/
theorem Holds.scan (h : q.Holds storage m) {fuel : Nat} (hfuel : q.len < fuel) :
    (kernelPath fuel m q.stablePtr.toNat).1 = some (q.asBytes m) := by
  rw [stablePtr, h.storageEq, kernelPath_fst h.string, length_asBytes, if_pos hfuel]

/-- It stays in the storage, however long the kernel goes on. -/
theorem Holds.scan_reads (h : q.Holds storage m) (fuel : Nat) :
    ∃ rs, (kernelPath fuel m q.stablePtr.toNat).2.reads = m.reads ++ rs ∧
      ∀ r ∈ rs, r.Inside storage.memory := by
  rw [stablePtr, h.storageEq]
  obtain ⟨rs, hrs, hinside⟩ := kernelPath_reads h.string fuel
  refine ⟨rs, hrs, fun r hr => Or.inr ?_⟩
  obtain ⟨hlow, hhigh⟩ := hinside r hr
  rw [length_asBytes] at hhigh
  have hin := h.inside
  exact ⟨hlow, by show _ ≤ storage.addr.toNat + storage.len; omega⟩

end Holds

/-! ### The constructors -/

section Constructors

variable (storage : Storage w) (m : Memory)

/-- The path can be copied: it is not empty, has no zero byte, and leaves room for one. -/
def Fits (path : List UInt8) : Prop :=
  path ≠ [] ∧ (0 : UInt8) ∉ path ∧ path.length < storage.len

/-- What an error of `copy_into` says about the path. -/
inductive Refused (path : List UInt8) : PathError → Prop
  | empty (h : path = []) : Refused path .empty
  | notTerminated (h : (0 : UInt8) ∈ path) : Refused path .notTerminated
  | tooLong (h : storage.len < path.length + 1) :
      Refused path (.tooLong (path.length + 1) storage.len)

/-- The memory after a copy. -/
def copied (path : List UInt8) : Memory :=
  (m.write storage.addr.toNat path).write (storage.addr.toNat + path.length) [0]

/-- What `copy_into` does: it names what is wrong with the path, or copies it. -/
theorem copyInto_cases (path : List UInt8) :
    (∃ e, Refused storage path e ∧ copyInto storage path m = (.error (storage, e), m)) ∨
      (Fits storage path ∧
        copyInto storage path m = (.ok ⟨storage, path.length⟩, copied storage m path)) := by
  unfold copyInto
  split
  case isTrue hempty => exact Or.inl ⟨_, .empty (List.isEmpty_iff.mp hempty), rfl⟩
  case isFalse hempty =>
    split
    case isTrue hzero => exact Or.inl ⟨_, .notTerminated (List.contains_iff_mem.mp hzero), rfl⟩
    case isFalse hzero =>
      dsimp only
      split
      case isTrue hlong => exact Or.inl ⟨_, .tooLong hlong, rfl⟩
      case isFalse hlong =>
        refine Or.inr ⟨⟨fun h => hempty (List.isEmpty_iff.mpr h),
          fun h => hzero (List.contains_iff_mem.mpr h), ?_⟩, rfl⟩
        omega

theorem not_fits_of_refused {path : List UInt8} {e : PathError} (h : Refused storage path e) :
    ¬ Fits storage path := by
  rintro ⟨hempty, hzero, hlen⟩
  cases h with
  | empty h => exact hempty h
  | notTerminated h => exact hzero h
  | tooLong h => omega

/-- The bytes that `adopt` looks at. -/
def contents : List UInt8 := Bytes.load m.bytes storage.addr.toNat storage.len

/-- What an error of `adopt` says about the storage. -/
inductive Unusable : PathError → Prop
  | notTerminated (h : (0 : UInt8) ∉ contents storage m) : Unusable .notTerminated
  | empty (h : (contents storage m).head? = some 0) : Unusable .empty

/-- What the place of the first zero byte makes of the storage. -/
def adopting : Option Nat → Except (Storage w × PathError) (OwnedPath w)
  | none => .error (storage, .notTerminated)
  | some 0 => .error (storage, .empty)
  | some n => .ok ⟨storage, n⟩

theorem adopt_eq {found : Option Nat} (h : (contents storage m).findIdx? (· == 0) = found) :
    adopt storage m = (adopting storage found, (m.read storage.addr.toNat storage.len).2) := by
  unfold adopt
  simp only [Memory.read]
  rw [show (Bytes.load m.bytes storage.addr.toNat storage.len).findIdx? (· == 0) = found from h]
  cases found with
  | none => rfl
  | some n =>
      cases n with
      | zero => rfl
      | succ n => rfl

/-- The first byte of storage that is not empty. -/
theorem head?_contents (h : 0 < storage.len) :
    (contents storage m).head? = some (m.bytes storage.addr.toNat) := by
  obtain ⟨len, hlen⟩ := Nat.exists_eq_add_of_lt h
  rw [contents, hlen, Nat.zero_add, Nat.add_comm, Bytes.load_add]
  rfl

/-- What `adopt` does: it looks at the storage and changes no byte. -/
theorem adopt_cases :
    (∃ e, Unusable storage m e ∧ adopt storage m =
        (.error (storage, e), (m.read storage.addr.toNat storage.len).2)) ∨
      (∃ n, (⟨storage, n⟩ : OwnedPath w).Holds storage m ∧ adopt storage m =
        (.ok ⟨storage, n⟩, (m.read storage.addr.toNat storage.len).2)) := by
  cases hfind : (contents storage m).findIdx? (· == 0) with
  | none =>
      have hnone := CString.findIdx?_load_eq_none_iff.mp hfind
      exact Or.inl ⟨_, .notTerminated hnone, adopt_eq storage m hfind⟩
  | some n =>
      obtain ⟨hlen, hat⟩ := CString.findIdx?_load_eq_some_iff.mp hfind
      cases n with
      | zero =>
          have hzero : m.bytes storage.addr.toNat = 0 := hat.ends
          have hhead := head?_contents storage m hlen
          rw [hzero] at hhead
          exact Or.inl ⟨_, .empty hhead, adopt_eq storage m hfind⟩
      | succ n =>
          exact Or.inr ⟨n + 1, ⟨rfl, Nat.succ_pos n, hlen, hat⟩, adopt_eq storage m hfind⟩

variable {storage m} {path : List UInt8}

/-- Only a path that fits is copied. -/
theorem copyInto_eq_ok {q : OwnedPath w} {m' : Memory}
    (h : copyInto storage path m = (.ok q, m')) :
    Fits storage path ∧ q = ⟨storage, path.length⟩ ∧ m' = copied storage m path := by
  rcases copyInto_cases storage m path with ⟨e, -, heq⟩ | ⟨hfits, heq⟩
  · rw [heq] at h
    cases h
  · rw [heq] at h
    cases h
    exact ⟨hfits, rfl, rfl⟩

theorem copyInto_eq_error {s : Storage w} {e : PathError} {m' : Memory}
    (h : copyInto storage path m = (.error (s, e), m')) :
    Refused storage path e ∧ s = storage ∧ m' = m := by
  rcases copyInto_cases storage m path with ⟨e', hrefused, heq⟩ | ⟨-, heq⟩
  · rw [heq] at h
    cases h
    exact ⟨hrefused, rfl, rfl⟩
  · rw [heq] at h
    cases h

/-- What is adopted is a path already. -/
theorem adopt_eq_ok {q : OwnedPath w} {m' : Memory} (h : adopt storage m = (.ok q, m')) :
    q.Holds storage m ∧ m'.bytes = m.bytes := by
  rcases adopt_cases storage m with ⟨e, -, heq⟩ | ⟨n, hholds, heq⟩
  · rw [heq] at h
    cases h
  · rw [heq] at h
    cases h
    exact ⟨hholds, rfl⟩

theorem adopt_eq_error {s : Storage w} {e : PathError} {m' : Memory}
    (h : adopt storage m = (.error (s, e), m')) :
    Unusable storage m e ∧ s = storage ∧ m'.bytes = m.bytes := by
  rcases adopt_cases storage m with ⟨e', hunusable, heq⟩ | ⟨n, -, heq⟩
  · rw [heq] at h
    cases h
    exact ⟨hunusable, rfl, rfl⟩
  · rw [heq] at h
    cases h

/-- The copied path is in the storage. -/
theorem copied_holds (h : Fits storage path) :
    (⟨storage, path.length⟩ : OwnedPath w).Holds storage (copied storage m path) ∧
      (⟨storage, path.length⟩ : OwnedPath w).asBytes (copied storage m path) = path := by
  obtain ⟨hempty, hzero, hlen⟩ := h
  have hat : CString.At (copied storage m path).bytes storage.addr.toNat path :=
    CString.at_store fun b hb hb0 => hzero (hb0 ▸ hb)
  have hbytes : (⟨storage, path.length⟩ : OwnedPath w).asBytes (copied storage m path) = path :=
    hat.bytes
  exact ⟨⟨rfl, List.length_pos_iff.mpr hempty, hlen, hbytes.symm ▸ hat⟩, hbytes⟩

/-- Nothing was written beside the storage. -/
theorem copied_outside (h : Fits storage path) {a : Nat} (ha : ¬ storage.memory.Has a) :
    (copied storage m path).bytes a = m.bytes a := by
  have hlen := h.2.2
  have houtside : a < storage.addr.toNat ∨ storage.addr.toNat + storage.len ≤ a := by
    unfold Range.Has Storage.memory at ha
    dsimp only at ha
    omega
  refine (Bytes.store_outside ?_).trans (Bytes.store_outside ?_)
  · rw [List.length_singleton]
    omega
  · omega

/-- Storage that holds a path can be adopted, and it is the same path. -/
theorem Holds.adopt_eq {q : OwnedPath w} (h : q.Holds storage m) :
    adopt storage m = (.ok q, (m.read storage.addr.toNat storage.len).2) := by
  have hfind : (contents storage m).findIdx? (· == 0) = some q.len := by
    refine CString.findIdx?_load_eq_some_iff.mpr ⟨h.inside, ?_⟩
    have hat := h.string
    rwa [asBytes, h.storageEq] at hat
  rw [OwnedPath.adopt_eq storage m hfind]
  rcases q with ⟨s, len⟩
  cases h.storageEq
  cases len with
  | zero => exact absurd h.nonempty (Nat.lt_irrefl 0)
  | succ n => rfl

/-- Storage that holds a path has a zero byte, which is not the first byte. -/
theorem Holds.contents {q : OwnedPath w} (h : q.Holds storage m) :
    (0 : UInt8) ∈ contents storage m ∧ (contents storage m).head? ≠ some 0 := by
  obtain ⟨hend, hbefore⟩ := h.first
  refine ⟨List.mem_map.mpr ⟨q.len, List.mem_range.mpr h.inside, hend⟩, ?_⟩
  rw [head?_contents storage m (Nat.lt_trans h.nonempty h.inside)]
  exact fun hhead => hbefore 0 h.nonempty (Option.some.inj hhead)

end Constructors

/-! ### The law -/

/-- What a path promises for as long as nobody else writes to its storage. -/
structure Kept (q : OwnedPath w) (storage : Storage w) (m : Memory) : Prop where
  storageEq : q.storage = storage
  nonempty : 0 < q.len
  inside : q.len < storage.len
  ends : m.bytes (storage.addr.toNat + q.len) = 0
  first : ∀ i < q.len, m.bytes (storage.addr.toNat + i) ≠ 0
  /-- The kernel gets the bytes of the path. -/
  scan : ∀ m', Untouched storage m m' → ∀ fuel, q.len < fuel →
    (kernelPath fuel m' q.stablePtr.toNat).1 = some (q.asBytes m)
  /-- It reads nothing beside the storage. -/
  reads : ∀ m', Untouched storage m m' → ∀ fuel, ∃ rs,
    (kernelPath fuel m' q.stablePtr.toNat).2.reads = m'.reads ++ rs ∧
      ∀ r ∈ rs, r.Inside storage.memory

theorem Holds.kept {q : OwnedPath w} {storage : Storage w} {m : Memory} (h : q.Holds storage m) :
    q.Kept storage m where
  storageEq := h.storageEq
  nonempty := h.nonempty
  inside := h.inside
  ends := h.first.1
  first := h.first.2
  scan := by
    intro m' hm fuel hfuel
    obtain ⟨h', hbytes⟩ := h.untouched hm
    rw [h'.scan hfuel, hbytes]
  reads := fun m' hm fuel => (h.untouched hm).1.scan_reads fuel

/-- What the two constructors do with storage of any contents. -/
structure Law (storage : Storage w) (m : Memory) : Prop where
  copies : ∀ path, (∃ q m', copyInto storage path m = (.ok q, m')) ↔
    path ≠ [] ∧ (0 : UInt8) ∉ path ∧ path.length < storage.len
  adopts : (∃ q m', adopt storage m = (.ok q, m')) ↔
    (0 : UInt8) ∈ contents storage m ∧ (contents storage m).head? ≠ some 0
  copied : ∀ path q m', copyInto storage path m = (.ok q, m') →
    q.Kept storage m' ∧ q.asBytes m' = path ∧
      ∀ a, ¬ storage.memory.Has a → m'.bytes a = m.bytes a
  adopted : ∀ q m', adopt storage m = (.ok q, m') → q.Kept storage m' ∧ m'.bytes = m.bytes
  /-- A path that was copied is found again. -/
  roundTrip : ∀ path q m', copyInto storage path m = (.ok q, m') →
    ∃ q' m'', adopt q.intoStorage m' = (.ok q', m'') ∧ q'.asBytes m'' = path
  copyFailed : ∀ path s e m', copyInto storage path m = (.error (s, e), m') →
    Refused storage path e ∧ s = storage ∧ m'.bytes = m.bytes
  adoptFailed : ∀ s e m', adopt storage m = (.error (s, e), m') →
    Unusable storage m e ∧ s = storage ∧ m'.bytes = m.bytes

/-- A path is made exactly when its bytes and its storage allow it, and the kernel reads back the
bytes that it was made of. -/
theorem pathLaw (storage : Storage w) (m : Memory) : Law storage m where
  copies := by
    intro path
    constructor
    · rintro ⟨q, m', hok⟩
      exact (copyInto_eq_ok hok).1
    · intro hfits
      rcases copyInto_cases storage m path with ⟨e, hrefused, -⟩ | ⟨-, heq⟩
      · exact absurd hfits (not_fits_of_refused storage hrefused)
      · exact ⟨_, _, heq⟩
  adopts := by
    constructor
    · rintro ⟨q, m', hok⟩
      exact (adopt_eq_ok hok).1.contents
    · rintro ⟨hzero, hhead⟩
      rcases adopt_cases storage m with ⟨e, hunusable, -⟩ | ⟨n, -, heq⟩
      · cases hunusable with
        | notTerminated h => exact absurd hzero h
        | empty h => exact absurd h hhead
      · exact ⟨_, _, heq⟩
  copied := by
    intro path q m' hok
    obtain ⟨hfits, rfl, rfl⟩ := copyInto_eq_ok hok
    obtain ⟨hholds, hbytes⟩ := copied_holds hfits
    exact ⟨hholds.kept, hbytes, fun a ha => copied_outside hfits ha⟩
  adopted := by
    intro q m' hok
    obtain ⟨hholds, hsame⟩ := adopt_eq_ok hok
    exact ⟨(hholds.untouched fun a _ => congrFun hsame a).1.kept, hsame⟩
  roundTrip := by
    intro path q m' hok
    -- adopting stops at the zero byte that copying wrote
    obtain ⟨hfits, rfl, rfl⟩ := copyInto_eq_ok hok
    obtain ⟨hholds, hbytes⟩ := copied_holds hfits
    exact ⟨_, _, hholds.adopt_eq, hbytes⟩
  copyFailed := by
    intro path s e m' herr
    obtain ⟨hrefused, hs, rfl⟩ := copyInto_eq_error herr
    exact ⟨hrefused, hs, rfl⟩
  adoptFailed := by
    intro s e m' herr
    exact adopt_eq_error herr

end OwnedPath

end Ququmatz
